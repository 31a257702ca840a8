import Tellstore.Deltamain.ColumnMap.Placement

/-!
# The lazy copy lines up with the fill entries

`clean` and `append` write each row's entry (key and version) into the fill page at once,
but its data columns only when the fill page is flushed: `flushFillPage` copies the sizes,
fixed-size columns and heap entries of the rows its clean actions list, in order (lines
576-625). The actions are enqueued lazily as ranges of rows: a range of the update page
(lines 244-247 and 570-574) or a range of the main page being cleaned, kept in
`mainStartIdx` and `mainEndIdx` while the next keys extend it (lines 228-254).

`Lined` is the correspondence at label `START`. The committed fill entries were written
from a list of source rows. The rows the clean actions list, then the pending update range,
then the pending main range, are where those rows are, position by position. The committed
rows of the update page hold the data of the chain entries and inserts among them, and at
most one pending range is non-empty.

* A pass keeps it, adding the rows it commits (`cleanKey_lined`, `appendAttempt_lined`); a
  pass that overflows leaves it for the flush (`cleanKey_restart_lined`,
  `appendAttempt_restart_lined`).
* A flush publishes a page each of whose rows has its entry and its data columns from one
  source row, and the assertion "Did not copy all sizes" at line 587 holds
  (`flushFillPage_linesUp`).
* A pass of either call fails no assertion but the one at line 208
  (`cleanKey_failedAsserts`, `appendAttempt_failedAsserts`).
* The states at `START` of a run are listed by functions that follow `cleanLoop` and
  `runCalls` pass by pass (`runStarts`): each lies on the loop of a `clean` call of the run,
  and the loop resumed from it ends as it does (`runStarts_mem`, `cleanLoopStarts_resume`).
  `Settled`, the correspondence with sources from the input together with the assertion and
  the pages published so far, holds at each of them and between calls (`runCalls_settled`),
  so the lazy copy lines up at every `START` of a run and with every page it returns.
-/

set_option autoImplicit false

namespace Tellstore.Deltamain.ColumnMap

open ColumnMapPageModifier

/-- Rows `[startIdx, endIdx)` of a page the lazy copy reads, in order. -/
def ActionPage.span (source : ActionPage) (startIdx endIdx : Nat) : List (ActionPage × Nat) :=
  (List.range' startIdx (endIdx - startIdx)).map (source, ·)

/-- The rows a clean action lists. -/
def CleanAction.listed (action : CleanAction) : List (ActionPage × Nat) :=
  action.page.span action.startIdx action.endIdx

/-- Where the rows of `sources` are: a main row where it is, the data of a chain entry or an
insert on the next row of the update page from `idx` on. -/
def RowSource.locate : Nat → List RowSource → List (ActionPage × Nat)
  | _, [] => []
  | idx, .main page r :: rest => (.main page, r) :: locate idx rest
  | idx, .update _ :: rest => (.update, idx) :: locate (idx + 1) rest
  | idx, .insert _ :: rest => (.update, idx) :: locate (idx + 1) rest

/-- The message of the assertion at line 587. -/
def sizesCopied : String := "Did not copy all sizes"

/-- The lazy copy lines up with the fill entries at `m`, whose pending main range lists
`pendingMain`: the committed fill entries are those of `sources`; the rows the clean actions
list, then the pending update range, then `pendingMain`, are where `sources` are; the
committed rows of the update page hold the data of the chain entries and inserts among
`sources`; at most one pending range is non-empty; and the update page is copied with its
heap offsets as they are. -/
structure Lined (ctx : ColumnMapContext) (m : ColumnMapPageModifier)
    (pendingMain : List (ActionPage × Nat)) (sources : List RowSource) : Prop where
  committed : m.committed = sources.map RowSource.entry
  listed : m.cleanActions.flatMap CleanAction.listed ++
    ActionPage.update.span m.updateStartIdx m.updateEndIdx ++ pendingMain = RowSource.locate 0 sources
  updateRows : List.Forall₂ (RowSource.Wrote ctx) (sources.filter RowSource.onUpdatePage)
    ((List.range m.updateEndIdx).map m.updatePage)
  oneRange : m.updateStartIdx = m.updateEndIdx ∨ pendingMain = []
  unmoved : ∀ a ∈ m.cleanActions, a.page = .update → a.offsetCorrection = 0

/-- A published page whose rows have their entries and their data columns from `sources`,
row by row. -/
def LinesUp (ctx : ColumnMapContext) (page : ColumnMapMainPage) (sources : List RowSource) : Prop :=
  page.entries = sources.map RowSource.entry ∧ List.Forall₂ (RowSource.Wrote ctx) sources page.data

/-- The rows a call can write: for `clean`, the entries of the chain of a row of its page
and the page's rows; for `append`, the entries of the record's chain and the record. -/
def ModifierCall.Source (env : ModifierEnv) : ModifierCall → RowSource → Prop
  | .clean page, .update e => ∃ b < page.count, e ∈ keyChain env page b
  | .clean page, .main p r => p = page ∧ r < page.count
  | .append record, .update e => e ∈ recordChain env record
  | .append record, .insert r => r = record
  | _, _ => False

/-- A row one of `calls` can write. -/
def RowSource.Of (env : ModifierEnv) (calls : List ModifierCall) (x : RowSource) : Prop :=
  ∃ call ∈ calls, call.Source env x

section Span

@[simp] theorem ActionPage.span_self (source : ActionPage) (i : Nat) : source.span i i = [] := by
  simp [ActionPage.span]

@[simp] theorem ActionPage.length_span (source : ActionPage) (i j : Nat) :
    (source.span i j).length = j - i := by
  simp [ActionPage.span]

theorem ActionPage.span_append (source : ActionPage) {i j k : Nat} (first : i ≤ j) (second : j ≤ k) :
    source.span i j ++ source.span j k = source.span i k := by
  obtain ⟨a, rfl⟩ := Nat.exists_eq_add_of_le first
  obtain ⟨b, rfl⟩ := Nat.exists_eq_add_of_le second
  simp only [ActionPage.span, ← List.map_append]
  rw [Nat.add_sub_cancel_left, show i + a + b - (i + a) = b by omega, List.range'_append_1,
    show i + a + b - i = b + a by omega]

theorem ActionPage.span_eq_nil {source : ActionPage} {i j : Nat} (empty : source.span i j = []) :
    j ≤ i := by
  have := congrArg List.length empty
  simp only [length_span, List.length_nil] at this
  omega

theorem RowSource.locate_append (xs ys : List RowSource) : ∀ idx,
    locate idx (xs ++ ys) = locate idx xs ++ locate (idx + xs.countP onUpdatePage) ys := by
  induction xs with
  | nil => simp [locate]
  | cons x xs ih =>
    intro idx
    cases x <;> simp [locate, ih, onUpdatePage, Nat.add_assoc, Nat.add_comm 1]

@[simp] theorem RowSource.length_locate (xs : List RowSource) : ∀ idx, (locate idx xs).length = xs.length := by
  induction xs with
  | nil => simp [locate]
  | cons x xs ih => intro idx; cases x <;> simp [locate, ih]

/-- Rows on the update page are located at its next rows. -/
theorem RowSource.locate_updates (xs : List RowSource) (onUpdate : ∀ x ∈ xs, x.onUpdatePage) :
    ∀ idx, locate idx xs = ActionPage.update.span idx (idx + xs.length) := by
  induction xs with
  | nil => simp [locate]
  | cons x xs ih =>
    intro idx
    have rest := ih fun y mem => onUpdate y (List.mem_cons_of_mem _ mem)
    have head := onUpdate x (List.mem_cons_self _ _)
    cases x with
    | main => cases head
    | update | insert =>
      simp only [locate, rest, ActionPage.span, List.length_cons, Nat.add_sub_cancel_left]
      rw [List.range'_succ]
      rfl

/-- Main rows are located where they are. -/
theorem RowSource.locate_mainRows (page : ColumnMapMainPage) (start idx : Nat) : ∀ n,
    locate idx (mainRows page start n) = (ActionPage.main page).span start (start + n)
  | 0 => by simp [mainRows, locate]
  | n + 1 => by
    rw [mainRows_succ, locate_append, locate_mainRows page start idx n, countP_mainRows,
      ← ActionPage.span_append _ (Nat.le_add_right start n) (show start + n ≤ start + (n + 1) by omega)]
    simp [locate, ActionPage.span, show start + (n + 1) - (start + n) = 1 by omega]

end Span

/-- The modifier a walk of the update log ends with. -/
def UpdatesOutcome.modifier : UpdatesOutcome → ColumnMapPageModifier
  | .overflow m => m
  | .done m _ _ => m

/-- The modifier a copy loop ends with. -/
def CopyOutcome.modifier : CopyOutcome → ColumnMapPageModifier
  | .overflow m => m
  | .finished m _ _ _ => m

section Frame

variable (env : ModifierEnv)

/-- The walk of the update log enqueues no clean action, fails no assertion and writes the
update page only from its `mUpdateIdx` on. -/
theorem processUpdatesLoop_frame : ∀ (entries : List UpdateLogEntry) (m : ColumnMapPageModifier)
    (wasDelete : Bool) (lowest : WithTop Nat) (outcome : UpdatesOutcome),
    processUpdatesLoop env m wasDelete lowest entries = outcome →
    outcome.modifier.cleanActions = m.cleanActions ∧
      (∀ k < m.updateIdx, outcome.modifier.updatePage k = m.updatePage k) ∧
      outcome.modifier.failedAsserts = m.failedAsserts
  | [], _, _, _, _, rfl => ⟨rfl, fun _ _ => rfl, rfl⟩
  | entry :: rest, m, wasDelete, lowest, _, rfl => by
    unfold processUpdatesLoop
    dsimp only
    split
    · exact ⟨rfl, fun _ _ => rfl, rfl⟩
    · split
      · exact ⟨rfl, fun _ _ => rfl, rfl⟩
      · split
        · exact ⟨rfl, fun _ _ => rfl, rfl⟩
        · split
          · exact ⟨rfl, fun k below => Function.update_noteq (Nat.ne_of_lt below) _ _, rfl⟩
          · obtain ⟨actions, rows, asserts⟩ := processUpdatesLoop_frame rest _ _ _ _ rfl
            exact ⟨actions, fun k below => (rows k (Nat.lt_succ_of_lt below)).trans
              (Function.update_noteq (Nat.ne_of_lt below) _ _), asserts⟩

/-- The copy loop writes neither clean actions nor the update page, and fails no
assertion. -/
theorem copyMain_frame (page : ColumnMapMainPage) (key copyStartIdx : Nat) :
    ∀ (rows : List ColumnMapMainEntry) (i : Nat) (m : ColumnMapPageModifier) (copyEndIdx : Nat)
    (wasDelete : Bool) (outcome : CopyOutcome),
    copyMain env page key copyStartIdx rows i m copyEndIdx wasDelete = outcome →
    outcome.modifier.cleanActions = m.cleanActions ∧ outcome.modifier.updatePage = m.updatePage ∧
      outcome.modifier.failedAsserts = m.failedAsserts
  | [], _, _, _, _, _, rfl => ⟨rfl, rfl, rfl⟩
  | e :: rest, i, m, copyEndIdx, wasDelete, _, rfl => by
    unfold copyMain
    dsimp only
    split
    · exact ⟨rfl, rfl, rfl⟩
    · split
      · split <;> exact ⟨rfl, rfl, rfl⟩
      · split
        · exact ⟨rfl, rfl, rfl⟩
        · split
          · exact ⟨rfl, rfl, rfl⟩
          · split
            · exact ⟨rfl, rfl, rfl⟩
            · obtain ⟨actions, same, asserts⟩ := copyMain_frame page key copyStartIdx rest _ _ _ _ _ rfl
              exact ⟨actions, same, asserts⟩

/-- The copy loop copies rows of the page only. -/
theorem copyMain_below (page : ColumnMapMainPage) (key copyStartIdx : Nat) :
    ∀ (rows : List ColumnMapMainEntry) (i : Nat) (m m' : ColumnMapPageModifier) (copyEndIdx i' copyEndIdx' : Nat)
    (wasDelete wasDelete' : Bool), rows = page.entries.drop i → copyEndIdx ≤ i →
    (∀ j, copyStartIdx ≤ j → j < copyEndIdx → j < page.count) →
    copyMain env page key copyStartIdx rows i m copyEndIdx wasDelete = .finished m' i' copyEndIdx' wasDelete' →
    ∀ j, copyStartIdx ≤ j → j < copyEndIdx' → j < page.count
  | [], _, _, _, _, _, _, _, _, _, _, below, finished => by
    cases finished
    exact below
  | e :: rest, i, m, m', copyEndIdx, i', copyEndIdx', wasDelete, wasDelete', rows, behind, below, finished => by
    have inside := (page.entry_of_drop rows).2.2
    have extended : ∀ j, copyStartIdx ≤ j → j < copyEndIdx + 1 → j < page.count := fun j low high =>
      if last : j = copyEndIdx then by omega else below j low (by omega)
    unfold copyMain at finished
    dsimp only at finished
    split at finished
    · cases finished
      exact below
    · split at finished
      · split at finished <;> cases finished
        · exact below
        · exact fun j low high => below j low (by omega)
      · split at finished
        · cases finished
          exact below
        · split at finished
          · cases finished
          · split at finished
            · cases finished
              exact extended
            · exact copyMain_below page key copyStartIdx rest _ _ _ _ _ _ _ _
                (page.entry_of_drop rows).2.1 (by omega) extended finished

/-- Enqueueing the pending main range writes no fill entry and no row of the update page. -/
theorem flushMain_frame (page : ColumnMapMainPage) (m : ColumnMapPageModifier) (mainStartIdx mainEndIdx : Nat) :
    (flushMain env page m mainStartIdx mainEndIdx).1.fillEntries = m.fillEntries ∧
      (flushMain env page m mainStartIdx mainEndIdx).1.updatePage = m.updatePage := by
  unfold flushMain
  split <;> exact ⟨rfl, rfl⟩

end Frame

/-- The modifier a pass over a key ends with. -/
def KeyOutcome.modifier : KeyOutcome → ColumnMapPageModifier
  | .restart m _ _ => m
  | .next m _ _ _ => m

/-- The modifier a pass of `append` ends with. -/
def AppendOutcome.modifier : AppendOutcome → ColumnMapPageModifier
  | .restart m => m
  | .done m _ => m

section Asserts

variable (env : ModifierEnv) (page : ColumnMapMainPage)

theorem ColumnMapPageModifier.check_failedAsserts (m : ColumnMapPageModifier) (condition : Bool)
    (message : String) :
    (m.check condition message).failedAsserts = m.failedAsserts ++ if condition then [] else [message] := by
  unfold check
  split <;> simp [*]

/-- Publishing a key fails no assertion. -/
theorem publishKey_failedAsserts (m : ColumnMapPageModifier)
    (baseIdx newest key copyStartIdx copyEndIdx mainStartIdx mainEndIdx : Nat) :
    (publishKey env page m baseIdx newest key copyStartIdx copyEndIdx mainStartIdx mainEndIdx).1.failedAsserts =
      m.failedAsserts := by
  unfold publishKey
  split
  · rfl
  · dsimp only
    split
    · rfl
    · have kept := (flushMain_written env page (pointKey page m baseIdx newest key) mainStartIdx mainEndIdx).kept
      rcases flushed : flushMain env page (pointKey page m baseIdx newest key) mainStartIdx mainEndIdx with
        ⟨m₁, mainStartIdx₁, mainEndIdx₁⟩
      rw [flushed] at kept
      dsimp only
      split <;> exact kept.failedAsserts

/-- Publishing a key changes neither `mFillSize` nor the update page. -/
theorem publishKey_frame (m : ColumnMapPageModifier)
    (baseIdx newest key copyStartIdx copyEndIdx mainStartIdx mainEndIdx : Nat) :
    (publishKey env page m baseIdx newest key copyStartIdx copyEndIdx mainStartIdx mainEndIdx).1.fillSize =
      m.fillSize ∧
    (publishKey env page m baseIdx newest key copyStartIdx copyEndIdx mainStartIdx mainEndIdx).1.updatePage =
      m.updatePage := by
  unfold publishKey
  split
  · exact ⟨rfl, rfl⟩
  · dsimp only
    split
    · exact ⟨rfl, rfl⟩
    · have written := flushMain_written env page (pointKey page m baseIdx newest key) mainStartIdx mainEndIdx
      have frame := flushMain_frame env page (pointKey page m baseIdx newest key) mainStartIdx mainEndIdx
      rcases flushed : flushMain env page (pointKey page m baseIdx newest key) mainStartIdx mainEndIdx with
        ⟨m₁, mainStartIdx₁, mainEndIdx₁⟩
      rw [flushed] at written frame
      dsimp only
      split <;> exact ⟨written.fillSize, frame.2⟩

/-- Copying and publishing a key fails at most the assertion of line 208. -/
theorem copyAndPublish_failedAsserts (m : ColumnMapPageModifier) (baseIdx newest copyStartIdx : Nat)
    (wasDelete : Bool) (mainStartIdx mainEndIdx : Nat) :
    ∃ extra, (copyAndPublish env page m baseIdx newest copyStartIdx wasDelete mainStartIdx
      mainEndIdx).modifier.failedAsserts = m.failedAsserts ++ extra ∧ sizesCopied ∉ extra := by
  unfold copyAndPublish
  dsimp only
  split
  · rename_i m₁ overflow
    have copied : m₁.failedAsserts = m.failedAsserts := (copyMain_frame env page _ _ _ _ _ _ _ _ overflow).2.2
    exact ⟨[], by rw [List.append_nil, ← copied]; exact (flushMain_written env page m₁ _ _).kept.failedAsserts,
      List.not_mem_nil _⟩
  · rename_i m₁ i copyEndIdx wasDelete' finished
    have copied : m₁.failedAsserts = m.failedAsserts := (copyMain_frame env page _ _ _ _ _ _ _ _ finished).2.2
    refine ⟨_, by rw [KeyOutcome.modifier, publishKey_failedAsserts, check_failedAsserts, copied], ?_⟩
    split <;> simp [sizesCopied]

/-- A pass over a key fails at most the assertion of line 208. -/
theorem cleanKey_failedAsserts (m : ColumnMapPageModifier) (baseIdx mainStartIdx mainEndIdx : Nat) :
    ∃ extra, (cleanKey env page m baseIdx mainStartIdx mainEndIdx).modifier.failedAsserts =
      m.failedAsserts ++ extra ∧ sizesCopied ∉ extra := by
  unfold cleanKey
  dsimp only
  split
  · have flushed := (flushMain_written env page m mainStartIdx mainEndIdx).kept.failedAsserts
    split
    · rename_i m₂ overflow
      have walked : m₂.failedAsserts = _ := (processUpdatesLoop_frame env _ _ _ _ _ overflow).2.2
      exact ⟨[], by rw [List.append_nil, ← flushed, ← walked]; exact
        (flushMain_written env page m₂ _ _).kept.failedAsserts, List.not_mem_nil _⟩
    · rename_i m₂ lowest wasDelete done
      have walked : m₂.failedAsserts = _ := (processUpdatesLoop_frame env _ _ _ _ _ done).2.2
      split
      · refine ⟨[], ?_, List.not_mem_nil _⟩
        rw [KeyOutcome.modifier, List.append_nil, ← flushed, ← walked]
        split <;> rfl
      · obtain ⟨extra, asserts, quiet⟩ := copyAndPublish_failedAsserts env page m₂ _ _ _ _ _ _
        exact ⟨extra, by rw [asserts, walked, flushed], quiet⟩
  · exact copyAndPublish_failedAsserts env page m _ _ _ _ _ _

/-- Finishing an insert fails no assertion. -/
theorem finishAppend_failedAsserts (m : ColumnMapPageModifier) (record : InsertRecord) :
    (finishAppend m record).modifier.failedAsserts = m.failedAsserts := by
  unfold finishAppend publishInsert
  split <;> rfl

/-- A pass of `append` fails no assertion. -/
theorem appendAttempt_failedAsserts (m : ColumnMapPageModifier) (record : InsertRecord) :
    (appendAttempt env m record).modifier.failedAsserts = m.failedAsserts := by
  unfold appendAttempt writeInsertRow
  split
  · split
    · rename_i m₁ overflow
      exact (processUpdatesLoop_frame env _ _ _ _ _ overflow).2.2
    · rename_i m₁ lowest wasDelete done
      have walked : m₁.failedAsserts = _ := (processUpdatesLoop_frame env _ _ _ _ _ done).2.2
      split
      · exact (finishAppend_failedAsserts _ _).trans walked
      · split
        · dsimp only
          split
          · exact walked
          · exact (finishAppend_failedAsserts _ _).trans walked
        · exact (finishAppend_failedAsserts _ _).trans walked
  · dsimp only
    split <;> rfl

end Asserts

/-- A pending update range enqueued as a clean action lists its rows. -/
theorem enqueued_listed (startIdx endIdx : Nat) :
    (if startIdx ≠ endIdx then [(⟨.update, startIdx, endIdx, 0⟩ : CleanAction)] else []).flatMap
      CleanAction.listed = ActionPage.update.span startIdx endIdx := by
  split
  · simp [CleanAction.listed]
  · rename_i same
    rw [not_not.mp same, ActionPage.span_self]
    rfl

/-- Enqueueing the pending update range (lines 570-573) lists its rows after the others. -/
theorem enqueueUpdates_listed (m : ColumnMapPageModifier) :
    (enqueueUpdates m).cleanActions.flatMap CleanAction.listed =
      m.cleanActions.flatMap CleanAction.listed ++ ActionPage.update.span m.updateStartIdx m.updateEndIdx := by
  rw [enqueueUpdates, List.flatMap_append, enqueued_listed]

/-- The update rows are enqueued with no offset correction. -/
theorem enqueueUpdates_unmoved {m : ColumnMapPageModifier}
    (unmoved : ∀ a ∈ m.cleanActions, a.page = .update → a.offsetCorrection = 0) :
    ∀ a ∈ (enqueueUpdates m).cleanActions, a.page = .update → a.offsetCorrection = 0 := by
  intro a mem update
  rcases List.mem_append.mp mem with old | added
  · exact unmoved a old update
  · split at added
    · rw [List.mem_singleton.mp added]
    · cases added

/-- The update page below the row a pass started at is as it was. -/
theorem Written.rows_below {ctx : ColumnMapContext} {s m : ColumnMapPageModifier} {wasDelete : Bool}
    {items : List RowSource} (written : Written ctx s m wasDelete items) :
    (List.range s.updateIdx).map m.updatePage = (List.range s.updateIdx).map s.updatePage := by
  obtain ⟨rows, before, -⟩ := written.updateRows
  have grown : s.updateIdx ≤ m.updateIdx := by rw [written.updateIdx]; exact Nat.le_add_right _ _
  have := congrArg (List.take s.updateIdx) before
  rwa [← List.map_take, List.take_range, Nat.min_eq_left grown, List.take_left'] at this
  simp

namespace Lined

variable {ctx : ColumnMapContext} {s m m' : ColumnMapPageModifier} {pendingMain : List (ActionPage × Nat)}
  {sources : List RowSource}

/-- What `Lined` reads of the modifier: a step that changes none of it keeps it. -/
theorem keep (lined : Lined ctx s pendingMain sources) (actions : m.cleanActions = s.cleanActions)
    (starts : m.updateStartIdx = s.updateStartIdx) (ends : m.updateEndIdx = s.updateEndIdx)
    (committed : m.committed = s.committed)
    (rows : (List.range s.updateEndIdx).map m.updatePage = (List.range s.updateEndIdx).map s.updatePage) :
    Lined ctx m pendingMain sources :=
  ⟨committed.trans lined.committed, by rw [actions, starts, ends]; exact lined.listed,
    by rw [ends, rows]; exact lined.updateRows, by rw [starts, ends]; exact lined.oneRange,
    actions ▸ lined.unmoved⟩

/-- The rows a pass writes before it commits leave the lazy copy as it was. -/
theorem written {wasDelete : Bool} {items : List RowSource} (lined : Lined ctx s pendingMain sources)
    (start : AtStart s) (written : Written ctx s m wasDelete items)
    (actions : m.cleanActions = s.cleanActions) : Lined ctx m pendingMain sources :=
  lined.keep actions written.kept.updateStartIdx written.kept.updateEndIdx
    (written.kept.committed start.fillIdx.ge written.grown) (start.updateIdx ▸ written.rows_below)

/-- A pass commits the rows it wrote: the fill entries and the update page's rows are those
of `items` after `sources`, and the rows listed grow by where `items` are. -/
theorem commit {wasDelete : Bool} {items : List RowSource} {pendingMain' : List (ActionPage × Nat)}
    (lined : Lined ctx s pendingMain sources) (start : AtStart s) (written : Written ctx s m wasDelete items)
    (committed : m'.committed = m.filled)
    (rows : (List.range m'.updateEndIdx).map m'.updatePage = (List.range m.updateIdx).map m.updatePage)
    (listed : m'.cleanActions.flatMap CleanAction.listed ++
      ActionPage.update.span m'.updateStartIdx m'.updateEndIdx ++ pendingMain' =
      RowSource.locate 0 sources ++ RowSource.locate s.updateEndIdx items)
    (oneRange : m'.updateStartIdx = m'.updateEndIdx ∨ pendingMain' = [])
    (unmoved : ∀ a ∈ m'.cleanActions, a.page = .update → a.offsetCorrection = 0) :
    Lined ctx m' pendingMain' (sources ++ items) := by
  obtain ⟨new, before, wrote⟩ := written.updateRows
  have counted : sources.countP RowSource.onUpdatePage = s.updateEndIdx := by
    rw [List.countP_eq_length_filter, lined.updateRows.length_eq, List.length_map, List.length_range]
  refine ⟨?_, ?_, ?_, oneRange, unmoved⟩
  · rw [committed, written.filled, start.filled_eq, lined.committed, List.map_append]
  · rw [listed, RowSource.locate_append, Nat.zero_add, counted]
  · rw [rows, before, start.updateIdx, List.filter_append]
    exact List.rel_append lined.updateRows wrote

theorem check (lined : Lined ctx s pendingMain sources) (condition : Bool) (message : String) :
    Lined ctx (s.check condition message) pendingMain sources :=
  lined.keep rfl rfl rfl rfl rfl

theorem emit (lined : Lined ctx s pendingMain sources) (effect : Effect) :
    Lined ctx (s.emit effect) pendingMain sources :=
  lined.keep rfl rfl rfl rfl rfl

/-- A pass that wrote update-page rows only commits them by extending the pending update
range (lines 135-138 and 336-337). -/
theorem commitUpdates {wasDelete : Bool} {items : List RowSource} (lined : Lined ctx s [] sources)
    (start : AtStart s) (written : Written ctx s m wasDelete items)
    (onUpdate : ∀ x ∈ items, x.onUpdatePage) (actions : m.cleanActions = s.cleanActions)
    (committed : m'.committed = m.filled)
    (rows : (List.range m'.updateEndIdx).map m'.updatePage = (List.range m.updateIdx).map m.updatePage)
    (actions' : m'.cleanActions = m.cleanActions) (starts : m'.updateStartIdx = m.updateStartIdx)
    (ends : m'.updateEndIdx = m.updateIdx) :
    Lined ctx m' [] (sources ++ items) := by
  have index := written.updateIdx
  rw [List.countP_eq_length.mpr onUpdate] at index
  refine lined.commit start written committed rows ?_ (.inr rfl)
    (fun a mem => lined.unmoved a (actions ▸ actions' ▸ mem))
  rw [actions', actions, starts, ends, written.kept.updateStartIdx, index,
    RowSource.locate_updates items onUpdate, ← lined.listed, start.updateIdx, List.append_nil,
    List.append_nil, List.append_assoc, ActionPage.span_append _ start.updateOrdered (Nat.le_add_right _ _)]

end Lined

/-- Enqueueing the pending main range moves its rows to the clean actions and leaves it
empty. -/
theorem flushMain_lined (env : ModifierEnv) (page : ColumnMapMainPage) {m : ColumnMapPageModifier}
    {mainStartIdx mainEndIdx : Nat} {sources : List RowSource}
    (lined : Lined env.context m ((ActionPage.main page).span mainStartIdx mainEndIdx) sources)
    (ordered : mainStartIdx ≤ mainEndIdx) :
    Lined env.context (flushMain env page m mainStartIdx mainEndIdx).1 [] sources ∧
      (flushMain env page m mainStartIdx mainEndIdx).2.1 = (flushMain env page m mainStartIdx mainEndIdx).2.2 := by
  unfold flushMain
  split
  · rename_i pending
    have empty : ActionPage.update.span m.updateStartIdx m.updateEndIdx = [] := by
      rcases lined.oneRange with same | none
      · rw [same, ActionPage.span_self]
      · exact absurd (ActionPage.span_eq_nil none) (by omega)
    refine ⟨⟨lined.committed, ?_, lined.updateRows, .inr rfl, ?_⟩, rfl⟩
    · have listed := lined.listed
      rw [empty, List.append_nil] at listed
      simpa [addCleanAction, CleanAction.listed, empty] using listed
    · intro a mem update
      simp only [addCleanAction, List.mem_append, List.mem_singleton] at mem
      rcases mem with old | rfl
      · exact lined.unmoved a old update
      · cases update
  · obtain rfl : mainStartIdx = mainEndIdx := not_not.mp ‹_›
    exact ⟨by simpa using lined, rfl⟩

section Publish

variable (env : ModifierEnv) (page : ColumnMapMainPage)

/-- Lines 212-254 on the lazy copy: a key that wrote nothing leaves it as it was; otherwise
its update rows join the pending update range and its main rows the pending main range,
the ranges before them becoming clean actions where they cannot be extended, so the rows
listed grow by where the key's rows are. -/
theorem publishKey_lined {s m m' : ColumnMapPageModifier} {wasDelete condition : Bool} {message : String}
    {updates sources : List RowSource}
    {baseIdx newest key copyStartIdx copyEndIdx mainStartIdx mainEndIdx mainStartIdx' mainEndIdx' : Nat}
    (start : AtStart s)
    (lined : Lined env.context s ((ActionPage.main page).span mainStartIdx mainEndIdx) sources)
    (ordered : mainStartIdx ≤ mainEndIdx) (copied : copyStartIdx ≤ copyEndIdx)
    (onUpdate : ∀ x ∈ updates, x.onUpdatePage)
    (written : Written env.context s m wasDelete
      (updates ++ mainRows page copyStartIdx (copyEndIdx - copyStartIdx)))
    (actions : m.cleanActions = s.cleanActions)
    (published : publishKey env page (m.check condition message) baseIdx newest key copyStartIdx
      copyEndIdx mainStartIdx mainEndIdx = (m', mainStartIdx', mainEndIdx')) :
    Lined env.context m' ((ActionPage.main page).span mainStartIdx' mainEndIdx')
      (sources ++ (updates ++ mainRows page copyStartIdx (copyEndIdx - copyStartIdx))) ∧
      mainStartIdx' ≤ mainEndIdx' := by
  have current := lined.written start written actions
  have kept := written.kept
  have fill := written.fillIdx
  have index := written.updateIdx
  rw [List.countP_append, countP_mainRows, List.countP_eq_length.mpr onUpdate, Nat.add_zero] at index
  have located : RowSource.locate s.updateEndIdx
      (updates ++ mainRows page copyStartIdx (copyEndIdx - copyStartIdx)) =
      ActionPage.update.span s.updateEndIdx m.updateIdx ++ (ActionPage.main page).span copyStartIdx copyEndIdx := by
    rw [RowSource.locate_append, RowSource.locate_updates updates onUpdate,
      List.countP_eq_length.mpr onUpdate, RowSource.locate_mainRows, index, start.updateIdx,
      Nat.add_sub_cancel' copied]
  unfold publishKey at published
  split at published
  · rename_i nothing
    simp only [Prod.mk.injEq] at published
    obtain ⟨rfl, rfl, rfl⟩ := published
    have empty : updates ++ mainRows page copyStartIdx (copyEndIdx - copyStartIdx) = [] :=
      List.eq_nil_of_length_eq_zero (by
        have := kept.fillEndIdx
        have := start.fillIdx
        simp only [check] at nothing
        omega)
    rw [empty, List.append_nil]
    exact ⟨((current.check condition message).emit _).emit _, ordered⟩
  · rename_i grew
    have fillEnd := kept.fillEndIdx
    have starts := kept.updateStartIdx
    have ends := kept.updateEndIdx
    have := start.fillIdx
    have := start.updateIdx
    have := start.updateOrdered
    generalize pointed : pointKey page (m.check condition message) baseIdx newest key = m₁ at published
    have current₁ : Lined env.context m₁ ((ActionPage.main page).span mainStartIdx mainEndIdx) sources := by
      subst pointed; exact current.keep rfl rfl rfl rfl rfl
    have filled₁ : m₁.filled = m.filled := by subst pointed; rfl
    have fields₁ : m₁.updateStartIdx = m.updateStartIdx ∧ m₁.updateEndIdx = m.updateEndIdx ∧
        m₁.updateIdx = m.updateIdx ∧ m₁.updatePage = m.updatePage ∧ m₁.cleanActions = m.cleanActions := by
      subst pointed; exact ⟨rfl, rfl, rfl, rfl, rfl⟩
    obtain ⟨starts₁, ends₁, index₁, page₁, actions₁⟩ := fields₁
    dsimp only at published
    by_cases extend : mainEndIdx = copyStartIdx ∧ m₁.updateIdx = m₁.updateStartIdx
    · rw [if_pos extend] at published
      simp only [Prod.mk.injEq] at published
      obtain ⟨rfl, rfl, rfl⟩ := published
      obtain ⟨rfl, noUpdates⟩ := extend
      have none : updates = [] := List.eq_nil_of_length_eq_zero (by omega)
      subst none
      simp only [List.length_nil, Nat.add_zero] at index
      have level : m.updateIdx = s.updateEndIdx := by omega
      refine ⟨lined.commit start written (by rw [← filled₁]; rfl)
        (by dsimp only; rw [page₁, ends₁, ends, level]) ?_ (.inl (by dsimp only; omega))
        (by dsimp only; rw [actions₁, actions]; exact lined.unmoved), by omega⟩
      dsimp only
      rw [located, ← lined.listed, actions₁, actions, starts₁, ends₁, starts, ends, level,
        ActionPage.span_self, List.nil_append]
      simp only [List.append_assoc, ActionPage.span_append _ ordered copied]
    · rw [if_neg extend] at published
      have flushedLined := flushMain_lined env page current₁ ordered
      have frame := flushMain_frame env page m₁ mainStartIdx mainEndIdx
      have unwritten := flushMain_unwritten env page m₁ mainStartIdx mainEndIdx
      rcases flushed : flushMain env page m₁ mainStartIdx mainEndIdx with ⟨m₂, ms₂, me₂⟩
      rw [flushed] at flushedLined frame unwritten published
      dsimp only at flushedLined frame unwritten
      obtain ⟨lined₂, emptied⟩ := flushedLined
      obtain ⟨entries₂, page₂⟩ := frame
      obtain ⟨fillEnd₂, starts₂, ends₂, -, fill₂, index₂⟩ := unwritten
      dsimp only at published emptied
      have committed : ({ m₂ with fillEndIdx := m₂.fillIdx } : ColumnMapPageModifier).committed = m.filled := by
        rw [← filled₁]
        show (List.range m₂.fillIdx).map m₂.fillEntries = _
        rw [entries₂, fill₂]
        rfl
      have rows : (List.range m₂.updateIdx).map m₂.updatePage = (List.range m.updateIdx).map m.updatePage := by
        rw [page₂, index₂, page₁, index₁]
      have pending : ActionPage.update.span m₂.updateStartIdx m₂.updateIdx =
          ActionPage.update.span m₂.updateStartIdx m₂.updateEndIdx ++
            ActionPage.update.span s.updateEndIdx m.updateIdx := by
        rw [ends₂, ends₁, ends, index₂, index₁, ActionPage.span_append _ (by omega) (by omega)]
      split at published
      · simp only [Prod.mk.injEq] at published
        obtain ⟨rfl, rfl, rfl⟩ := published
        refine ⟨lined.commit start written committed rows ?_ (.inl rfl)
          (enqueueUpdates_unmoved lined₂.unmoved), copied⟩
        rw [enqueueUpdates_listed]
        dsimp only [enqueueUpdates]
        rw [ActionPage.span_self, List.append_nil, pending, ← List.append_assoc,
          ← lined₂.listed, located, List.append_nil, List.append_assoc]
      · simp only [Prod.mk.injEq] at published
        obtain ⟨rfl, rfl, rfl⟩ := published
        obtain rfl : copyStartIdx = copyEndIdx := not_not.mp ‹_›
        refine ⟨lined.commit start written committed rows ?_
          (.inr (by rw [emptied, ActionPage.span_self])) lined₂.unmoved, emptied.le⟩
        dsimp only
        rw [emptied, ActionPage.span_self, List.append_nil, pending, ← List.append_assoc,
          ← lined₂.listed, located, ActionPage.span_self, List.append_nil, List.append_nil]

/-- Lines 153-258 on the lazy copy: the key's main rows are copied after its update rows and
the key is published, adding the rows it commits. -/
theorem copyAndPublish_lined {s m m' : ColumnMapPageModifier} {baseIdx newest copyStartIdx i' : Nat}
    {wasDelete : Bool} {mainStartIdx mainEndIdx mainStartIdx' mainEndIdx' : Nat}
    {updates sources : List RowSource} (start : AtStart s)
    (lined : Lined env.context s ((ActionPage.main page).span mainStartIdx mainEndIdx) sources)
    (ordered : mainStartIdx ≤ mainEndIdx) (written : Written env.context s m wasDelete updates)
    (onUpdate : ∀ x ∈ updates, x.onUpdatePage) (actions : m.cleanActions = s.cleanActions)
    (next : copyAndPublish env page m baseIdx newest copyStartIdx wasDelete mainStartIdx mainEndIdx =
      .next m' i' mainStartIdx' mainEndIdx') :
    ∃ items, (∀ x ∈ items, x ∈ updates ∨ ∃ r < page.count, x = .main page r) ∧
      Lined env.context m' ((ActionPage.main page).span mainStartIdx' mainEndIdx') (sources ++ items) ∧
      mainStartIdx' ≤ mainEndIdx' ∧ m'.fillSize = s.fillSize + (items.map (RowSource.cost env.context)).sum := by
  unfold copyAndPublish at next
  dsimp only at next
  split at next
  · cases next
  · rename_i m₃ i copyEndIdx wasDelete' finished
    obtain ⟨updates', sub, written', -, copied, -, -⟩ :=
      copyMain_finished env page _ _ _ _ _ _ _ _ _ _ _ updates rfl le_rfl (fun j low high => by omega)
        onUpdate (by simpa [mainRows] using written) finished
    have frame : m₃.cleanActions = _ := (copyMain_frame env page _ _ _ _ _ _ _ _ finished).1
    have below := copyMain_below env page _ _ _ _ _ _ _ _ _ _ _ rfl le_rfl (fun j low high => by omega)
      finished
    simp only [KeyOutcome.next.injEq] at next
    obtain ⟨rfl, -, rfl, rfl⟩ := next
    obtain ⟨lined', ordered'⟩ := publishKey_lined env page start lined ordered copied
      (fun x mem => onUpdate x (sub x mem)) written' (frame.trans actions) rfl
    refine ⟨_, fun x mem => ?_, lined', ordered',
      (publishKey_frame env page _ _ _ _ _ _ _ _).1.trans written'.fillSize⟩
    rcases List.mem_append.mp mem with old | copiedRow
    · exact .inl (sub x old)
    · obtain ⟨j, within, rfl⟩ := List.mem_map.mp copiedRow
      exact .inr ⟨_, below _ (by omega) (by simp at within; omega), rfl⟩

/-- A pass from `START` that finishes keeps the lazy copy lined up, adding the rows it
commits: entries of its key's chain and rows of the page. -/
theorem cleanKey_lined {m m' : ColumnMapPageModifier} {baseIdx i' : Nat}
    {mainStartIdx mainEndIdx mainStartIdx' mainEndIdx' : Nat} {sources : List RowSource}
    (start : AtStart m)
    (lined : Lined env.context m ((ActionPage.main page).span mainStartIdx mainEndIdx) sources)
    (ordered : mainStartIdx ≤ mainEndIdx) (inside : baseIdx < page.count)
    (next : cleanKey env page m baseIdx mainStartIdx mainEndIdx = .next m' i' mainStartIdx' mainEndIdx') :
    ∃ items, (∀ x ∈ items, (ModifierCall.clean page).Source env x) ∧
      Lined env.context m' ((ActionPage.main page).span mainStartIdx' mainEndIdx') (sources ++ items) ∧
      mainStartIdx' ≤ mainEndIdx' ∧ m'.fillSize = m.fillSize + (items.map (RowSource.cost env.context)).sum := by
  have ofPage : ∀ x, (∃ r < page.count, x = .main page r) → (ModifierCall.clean page).Source env x := by
    rintro x ⟨r, below, rfl⟩
    exact ⟨rfl, below⟩
  unfold cleanKey at next
  dsimp only at next
  split at next
  · rename_i pending
    have chain : keyChain env page baseIdx =
        env.iterator.entries (page.entry baseIdx).newest (page.entry baseIdx).version := if_neg pending
    obtain ⟨lined₁, emptied⟩ := flushMain_lined env page lined ordered
    have start₁ := start.unwritten (flushMain_unwritten env page m mainStartIdx mainEndIdx)
    have noMain : (ActionPage.main page).span (flushMain env page m mainStartIdx mainEndIdx).2.1
        (flushMain env page m mainStartIdx mainEndIdx).2.2 = [] := by
      rw [emptied, ActionPage.span_self]
    split at next
    · cases next
    · rename_i m₂ lowest wasDelete done
      obtain ⟨items, written, from_, -⟩ := processUpdatesLoop_done env _ _ _ _ false _ ⊤ _ []
        (Written.start _) (by simp) done
      have actions : m₂.cleanActions = _ := (processUpdatesLoop_frame env _ _ _ _ _ done).1
      have fromChain : ∀ x ∈ items, ∃ e ∈ keyChain env page baseIdx, x = .update e := fun x mem => by
        rcases from_ x mem with nil | found
        · cases nil
        · rwa [chain]
      have onUpdate : ∀ x ∈ items, x.onUpdatePage := fun x mem => by
        obtain ⟨e, -, rfl⟩ := fromChain x mem
        rfl
      have ofChain : ∀ x ∈ items, (ModifierCall.clean page).Source env x := fun x mem => by
        obtain ⟨e, found, rfl⟩ := fromChain x mem
        exact ⟨baseIdx, inside, found⟩
      split at next
      · simp only [KeyOutcome.next.injEq] at next
        obtain ⟨rfl, -, rfl, rfl⟩ := next
        have size : m₂.fillSize = m.fillSize + (items.map (RowSource.cost env.context)).sum :=
          written.fillSize.trans (congrArg (· + _) (flushMain_written env page m _ _).fillSize)
        rw [noMain]
        split
        · rename_i unchanged
          have index := written.updateIdx
          have nothing : items = [] := by
            rw [List.countP_eq_length.mpr onUpdate, start₁.updateIdx, ← written.kept.updateEndIdx] at index
            exact List.eq_nil_of_length_eq_zero (by omega)
          subst nothing
          refine ⟨[], nofun, ?_, emptied.le, size⟩
          rw [List.append_nil]
          exact (((lined₁.written start₁ written actions).emit _).emit _)
        · exact ⟨items, ofChain, lined₁.commitUpdates start₁ written onUpdate actions rfl rfl rfl rfl rfl,
            emptied.le, size⟩
      · rw [← noMain] at lined₁
        obtain ⟨items', from', lined', ordered', size'⟩ :=
          copyAndPublish_lined env page start₁ lined₁ emptied.le written onUpdate actions next
        exact ⟨items', fun x mem => (from' x mem).elim (ofChain x) (ofPage x), lined', ordered',
          size'.trans (congrArg (· + _) (flushMain_written env page m _ _).fillSize)⟩
  · obtain ⟨items, from', lined', ordered', size⟩ :=
      copyAndPublish_lined env page start lined ordered (Written.start m) (by simp) rfl next
    exact ⟨items, fun x mem => (from' x mem).elim (fun nil => absurd nil (List.not_mem_nil _))
      (ofPage x), lined', ordered', size⟩

/-- An overflowing copy leaves the lazy copy as it was with the pending main range enqueued,
so the flush that follows sees only the committed rows. -/
theorem copyAndPublish_restart_lined {m m' : ColumnMapPageModifier} {baseIdx newest copyStartIdx : Nat}
    {wasDelete : Bool} {mainStartIdx mainEndIdx mainStartIdx' mainEndIdx' : Nat} {sources : List RowSource}
    (lined : Lined env.context m ((ActionPage.main page).span mainStartIdx mainEndIdx) sources)
    (ordered : mainStartIdx ≤ mainEndIdx) (pending : m.fillEndIdx ≤ m.fillIdx)
    (restart : copyAndPublish env page m baseIdx newest copyStartIdx wasDelete mainStartIdx mainEndIdx =
      .restart m' mainStartIdx' mainEndIdx') :
    Lined env.context m' [] sources ∧ mainStartIdx' = mainEndIdx' := by
  unfold copyAndPublish at restart
  dsimp only at restart
  split at restart
  · rename_i m₃ overflow
    simp only [KeyOutcome.restart.injEq] at restart
    obtain ⟨rfl, rfl, rfl⟩ := restart
    obtain ⟨-, kept, grown, -⟩ := copyMain_overflow env page _ _ _ _ _ _ _ _ overflow
    obtain ⟨actions, same, -⟩ := copyMain_frame env page _ _ _ _ _ _ _ _ overflow
    exact flushMain_lined env page (lined.keep actions kept.updateStartIdx kept.updateEndIdx
      (kept.committed pending grown) (by rw [show m₃.updatePage = m.updatePage from same])) ordered
  · cases restart

/-- A pass from `START` that overflows leaves the lazy copy as it was, with no pending main
range, for the flush that follows. -/
theorem cleanKey_restart_lined {m m' : ColumnMapPageModifier} {baseIdx : Nat}
    {mainStartIdx mainEndIdx mainStartIdx' mainEndIdx' : Nat} {sources : List RowSource}
    (start : AtStart m)
    (lined : Lined env.context m ((ActionPage.main page).span mainStartIdx mainEndIdx) sources)
    (ordered : mainStartIdx ≤ mainEndIdx)
    (restart : cleanKey env page m baseIdx mainStartIdx mainEndIdx = .restart m' mainStartIdx' mainEndIdx') :
    Lined env.context m' [] sources ∧ mainStartIdx' = mainEndIdx' := by
  unfold cleanKey at restart
  dsimp only at restart
  split at restart
  · obtain ⟨lined₁, emptied⟩ := flushMain_lined env page lined ordered
    have start₁ := start.unwritten (flushMain_unwritten env page m mainStartIdx mainEndIdx)
    have noMain : (ActionPage.main page).span (flushMain env page m mainStartIdx mainEndIdx).2.1
        (flushMain env page m mainStartIdx mainEndIdx).2.2 = [] := by
      rw [emptied, ActionPage.span_self]
    split at restart
    · rename_i m₂ overflow
      simp only [KeyOutcome.restart.injEq] at restart
      obtain ⟨rfl, rfl, rfl⟩ := restart
      obtain ⟨-, kept, grown, -⟩ := processUpdatesLoop_overflow env _ _ _ _ _ overflow
      obtain ⟨actions, rows, -⟩ := processUpdatesLoop_frame env _ _ _ _ _ overflow
      rw [← noMain] at lined₁
      exact flushMain_lined env page (lined₁.keep actions kept.updateStartIdx kept.updateEndIdx
        (kept.committed start₁.fillIdx.ge grown) (List.map_congr_left fun k mem =>
          rows k (start₁.updateIdx ▸ List.mem_range.mp mem))) emptied.le
    · rename_i m₂ lowest wasDelete done
      split at restart
      · cases restart
      · obtain ⟨items, written, -, -⟩ := processUpdatesLoop_done env _ _ _ _ false _ ⊤ _ []
          (Written.start _) (by simp) done
        have actions : m₂.cleanActions = _ := (processUpdatesLoop_frame env _ _ _ _ _ done).1
        have pending : m₂.fillEndIdx ≤ m₂.fillIdx := by
          have := written.fillIdx
          have := written.kept.fillEndIdx
          have := start₁.fillIdx
          omega
        rw [← noMain] at lined₁
        exact copyAndPublish_restart_lined env page (lined₁.written start₁ written actions) emptied.le
          pending restart
  · exact copyAndPublish_restart_lined env page lined ordered start.fillIdx.ge restart

end Publish

section Flush

/-- How `flushFillPage` copies a row a clean action lists: a row of the update page as it
is, a main row with its heap offsets moved. -/
def ActionPage.Copied (updatePage : Nat → RowData) : ActionPage × Nat → RowData → Prop
  | (.update, r), row => row = updatePage r
  | (.main page, r), row => ∃ offsetCorrection, row = relocate offsetCorrection (page.row r)

/-- The rows `flushFillPage` copies are those its clean actions list, in order. -/
theorem copied_listed (updatePage : Nat → RowData) : ∀ actions : List CleanAction,
    (∀ a ∈ actions, a.page = .update → a.offsetCorrection = 0) →
    List.Forall₂ (ActionPage.Copied updatePage) (actions.flatMap CleanAction.listed)
      (actions.flatMap (·.rows updatePage))
  | [], _ => .nil
  | a :: rest, unmoved => by
    rw [List.flatMap_cons, List.flatMap_cons]
    refine List.rel_append ?_ (copied_listed updatePage rest fun b mem => unmoved b (List.mem_cons_of_mem _ mem))
    simp only [CleanAction.listed, CleanAction.rows, ActionPage.span, List.range'_eq_map_range,
      List.map_map, List.forall₂_map_left_iff, List.forall₂_map_right_iff]
    refine List.forall₂_same.mpr fun j _ => ?_
    cases page : a.page with
    | update =>
      simp [ActionPage.Copied, ActionPage.row, relocate, unmoved a (List.mem_cons_self _ _) page]
    | main p => exact ⟨a.offsetCorrection, by simp [ActionPage.row]⟩

/-- Rows copied from where `sources` are hold the data written from them, given that the
update page's rows from `idx` on hold the data of the chain entries and inserts among them. -/
theorem wrote_of_copied {ctx : ColumnMapContext} (updatePage : Nat → RowData) :
    ∀ (sources : List RowSource) (idx n : Nat) (data : List RowData),
    List.Forall₂ (RowSource.Wrote ctx) (sources.filter RowSource.onUpdatePage)
      ((List.range' idx n).map updatePage) →
    List.Forall₂ (ActionPage.Copied updatePage) (RowSource.locate idx sources) data →
    List.Forall₂ (RowSource.Wrote ctx) sources data
  | [], _, _, _, _, copied => by
    cases copied
    exact .nil
  | x :: rest, idx, n, data, wrote, copied => by
    cases x with
    | main p r =>
      simp only [RowSource.locate, List.forall₂_cons_left_iff] at copied
      obtain ⟨d, ds, here, tail, rfl⟩ := copied
      exact .cons here (wrote_of_copied updatePage rest idx n ds (by simpa [RowSource.onUpdatePage] using wrote) tail)
    | update e | insert e =>
      simp only [RowSource.locate, List.forall₂_cons_left_iff] at copied
      obtain ⟨d, ds, here, tail, rfl⟩ := copied
      cases n with
      | zero => cases wrote
      | succ n =>
        simp only [List.filter_cons, RowSource.onUpdatePage, if_true, List.range'_succ, List.map_cons,
          List.forall₂_cons] at wrote
        rw [show d = updatePage idx from here]
        exact .cons wrote.1 (wrote_of_copied updatePage rest (idx + 1) n ds wrote.2 tail)

/-- `flushFillPage` from a state lined up with `sources` and no pending main range: once the
pending update range is enqueued (line 573) the clean actions list exactly where `sources`
are, so the assertion "Did not copy all sizes" at line 587 holds and the page it publishes
has, row by row, its entry and its data columns from one of `sources`. -/
theorem flushFillPage_linesUp {ctx : ColumnMapContext} {m : ColumnMapPageModifier}
    {sources : List RowSource} (lined : Lined ctx m [] sources) :
    ∃ page, (flushFillPage m).pageList = m.pageList ++ [page] ∧ LinesUp ctx page sources ∧
      ∃ extra, (flushFillPage m).failedAsserts = m.failedAsserts ++ extra ∧ sizesCopied ∉ extra := by
  generalize enqueued : enqueueUpdates (m.check (decide (0 < m.fillEndIdx)) "Trying to flush empty page") = m₁
  have listed : m₁.cleanActions.flatMap CleanAction.listed = RowSource.locate 0 sources := by
    rw [← enqueued, enqueueUpdates_listed, ← lined.listed, List.append_nil]
    rfl
  have unmoved : ∀ a ∈ m₁.cleanActions, a.page = .update → a.offsetCorrection = 0 := by
    rw [← enqueued]
    exact enqueueUpdates_unmoved lined.unmoved
  have copied := copied_listed m₁.updatePage _ unmoved
  rw [listed] at copied
  have page : m₁.updatePage = m.updatePage := by rw [← enqueued]; rfl
  have pages : m₁.pageList = m.pageList := by rw [← enqueued]; rfl
  have entries : (List.range m₁.fillEndIdx).map m₁.fillEntries = m.committed := by rw [← enqueued]; rfl
  have wrote := wrote_of_copied m₁.updatePage sources 0 m.updateEndIdx _
    (by rw [page, ← List.range_eq_range']; exact lined.updateRows) copied
  have count : (m₁.cleanActions.map fun a => a.endIdx - a.startIdx).sum = m₁.fillEndIdx := by
    have length := congrArg List.length listed
    rw [List.length_flatMap, RowSource.length_locate, ← List.length_map sources RowSource.entry,
      ← lined.committed, length_committed] at length
    rw [show m₁.fillEndIdx = m.fillEndIdx by rw [← enqueued]; rfl, ← length]
    simp [CleanAction.listed, Function.comp_def]
  have asserts : m₁.failedAsserts = m.failedAsserts ++
      if decide (0 < m.fillEndIdx) then [] else ["Trying to flush empty page"] := by
    rw [← enqueued, ← check_failedAsserts]
    rfl
  unfold flushFillPage
  rw [enqueued]
  dsimp only
  refine ⟨_, congrArg (· ++ _) pages, ⟨entries.trans lined.committed, wrote⟩,
    (if decide (0 < m.fillEndIdx) then [] else ["Trying to flush empty page"]) ++
      m₁.cleanActions.flatMap (·.relocationFailures m₁.updatePage), ?_, ?_⟩
  · rw [check_failedAsserts, count, asserts, decide_eq_true rfl, if_pos rfl, List.append_nil,
      List.append_assoc]
    rfl
  · simp only [List.mem_append, List.mem_flatMap, not_or, not_exists, not_and]
    refine ⟨fun failed => ?_, fun action _ relocated => ?_⟩
    · split at failed
      · cases failed
      · simp [sizesCopied] at failed
    · have := CleanAction.relocationFailures_message _ action relocated
      simp [sizesCopied] at this

/-- `flush` publishes as `flushFillPage` does and leaves nothing listed and nothing committed. -/
theorem flush_lined {ctx : ColumnMapContext} {m : ColumnMapPageModifier} {sources : List RowSource}
    (lined : Lined ctx m [] sources) (written : m.updateEndIdx ≤ m.updateIdx) :
    (∃ page, (flush m).pageList = m.pageList ++ [page] ∧ LinesUp ctx page sources) ∧
      (∃ extra, (flush m).failedAsserts = m.failedAsserts ++ extra ∧ sizesCopied ∉ extra) ∧
      Lined ctx (flush m) [] [] := by
  obtain ⟨page, published, linesUp, extra, asserts, quiet⟩ := flushFillPage_linesUp lined
  have reset : (flush m).cleanActions = [] ∧ (flush m).updateStartIdx = 0 ∧ (flush m).updateEndIdx = 0 ∧
      (flush m).failedAsserts = (flushFillPage m).failedAsserts := by
    unfold flush
    dsimp only
    split
    · exact ⟨rfl, rfl, rfl, rfl⟩
    · rename_i unused
      simp only [flushFillPage, enqueueUpdates, check, ne_eq, Decidable.not_not] at unused ⊢
      exact ⟨trivial, by omega, by omega, trivial⟩
  obtain ⟨actions, starts, ends, failed⟩ := reset
  refine ⟨⟨page, (flush_published m).1.trans published, linesUp⟩, ⟨extra, failed.trans asserts, quiet⟩,
    (flush_published m).2.2.2, ?_, ?_, .inl (starts.trans ends.symm), ?_⟩
  · rw [actions, starts, ends]
    rfl
  · rw [ends]
    exact .nil
  · rw [actions]
    exact fun _ mem => absurd mem (List.not_mem_nil _)

end Flush

section Append

variable (env : ModifierEnv) (record : InsertRecord)

/-- Lines 306-338: a record that kept no row is invalidated and the lazy copy stays as it
was; otherwise its rows are committed behind the pending update range. -/
theorem finishAppend_lined {s m m' : ColumnMapPageModifier} {wasDelete kept : Bool}
    {items sources : List RowSource} (finished : finishAppend m record = .done m' kept)
    (start : AtStart s) (lined : Lined env.context s [] sources)
    (written : Written env.context s m wasDelete items) (onUpdate : ∀ x ∈ items, x.onUpdatePage)
    (actions : m.cleanActions = s.cleanActions) :
    Lined env.context m' [] (sources ++ items) ∧
      m'.fillSize = s.fillSize + (items.map (RowSource.cost env.context)).sum := by
  unfold finishAppend at finished
  split at finished
  · rename_i unchanged
    cases finished
    have index := written.updateIdx
    have nothing : items = [] := by
      rw [List.countP_eq_length.mpr onUpdate, start.updateIdx, ← written.kept.updateEndIdx] at index
      exact List.eq_nil_of_length_eq_zero (by omega)
    subst nothing
    exact ⟨(List.append_nil sources).symm ▸ (lined.written start written actions).emit _, written.fillSize⟩
  · unfold publishInsert at finished
    cases finished
    exact ⟨lined.commitUpdates start written onUpdate actions rfl rfl rfl rfl rfl, written.fillSize⟩

/-- A pass of `append` from `START` that finishes adds rows of the record's chain and the
record itself, in the order written, behind the lazy copy. -/
theorem appendAttempt_lined {m m' : ColumnMapPageModifier} {kept : Bool} {sources : List RowSource}
    (start : AtStart m) (lined : Lined env.context m [] sources)
    (done : appendAttempt env m record = .done m' kept) :
    ∃ items, (∀ x ∈ items, (ModifierCall.append record).Source env x) ∧
      Lined env.context m' [] (sources ++ items) ∧
      m'.fillSize = m.fillSize + (items.map (RowSource.cost env.context)).sum := by
  have inserted : ∀ x ∈ [RowSource.insert record], x.onUpdatePage ∧
      (ModifierCall.append record).Source env x := by
    simp only [List.mem_singleton, forall_eq]
    exact ⟨rfl, rfl⟩
  unfold appendAttempt at done
  split at done
  · rename_i pending
    have chain : recordChain env record =
        env.iterator.entries record.newest record.baseVersion := if_neg pending
    split at done
    · cases done
    · rename_i m₁ lowest wasDelete walked
      obtain ⟨items, written, from_, -⟩ := processUpdatesLoop_done env _ _ _ _ false _ ⊤ _ []
        (Written.start _) (by simp) walked
      have actions : m₁.cleanActions = m.cleanActions := (processUpdatesLoop_frame env _ _ _ _ _ walked).1
      have fromChain : ∀ x ∈ items, x.onUpdatePage ∧ (ModifierCall.append record).Source env x :=
        fun x mem => by
          rcases from_ x mem with nil | ⟨e, found, rfl⟩
          · cases nil
          · exact ⟨rfl, show e ∈ recordChain env record from chain ▸ found⟩
      split at done
      · rename_i cancel
        obtain ⟨init, last, rfl⟩ := (cancel.1 ▸ written).split_last
        have initial : ∀ x ∈ init, x.onUpdatePage ∧ (ModifierCall.append record).Source env x :=
          fun x mem => fromChain x (List.mem_append_left _ mem)
        have lastUpdate := (fromChain last (by simp)).1
        exact ⟨init, fun x mem => (initial x mem).2, finishAppend_lined env record done start lined
          ((cancel.1 ▸ written).cancel rfl rfl rfl rfl (by rw [lastUpdate]; rfl) rfl)
          (fun x mem => (initial x mem).1) actions⟩
      · split at done
        · unfold writeInsertRow at done
          dsimp only at done
          split at done
          · cases done
          · have all : ∀ x ∈ items ++ [.insert record], x.onUpdatePage ∧
                (ModifierCall.append record).Source env x := fun x mem =>
              (List.mem_append.mp mem).elim (fromChain x) (inserted x)
            exact ⟨_, fun x mem => (all x mem).2, finishAppend_lined env record done start lined
              (written.writeInsert env record) (fun x mem => (all x mem).1) actions⟩
        · exact ⟨items, fun x mem => (fromChain x mem).2, finishAppend_lined env record done start lined
            written (fun x mem => (fromChain x mem).1) actions⟩
  · unfold writeInsertRow publishInsert at done
    dsimp only at done
    split at done
    · cases done
    · cases done
      exact ⟨_, fun x mem => (inserted x (by simpa using mem)).2,
        lined.commitUpdates start ((Written.start m).writeInsert env record)
          (fun x mem => (inserted x (by simpa using mem)).1) rfl rfl rfl rfl rfl rfl,
        ((Written.start m).writeInsert env record).fillSize⟩

/-- An overflowing pass of `append` leaves the lazy copy as it was for the flush that
follows. -/
theorem appendAttempt_restart_lined {m m' : ColumnMapPageModifier} {sources : List RowSource}
    (start : AtStart m) (lined : Lined env.context m [] sources)
    (restart : appendAttempt env m record = .restart m') :
    Lined env.context m' [] sources := by
  unfold appendAttempt at restart
  split at restart
  · split at restart
    · rename_i m₁ overflow
      cases restart
      obtain ⟨-, kept, grown, -⟩ := processUpdatesLoop_overflow env _ _ _ _ _ overflow
      obtain ⟨actions, rows, -⟩ := processUpdatesLoop_frame env _ _ _ _ _ overflow
      exact lined.keep actions kept.updateStartIdx kept.updateEndIdx
        (kept.committed start.fillIdx.ge grown) (List.map_congr_left fun k mem =>
          rows k (start.updateIdx ▸ List.mem_range.mp mem))
    · rename_i m₁ lowest wasDelete walked
      obtain ⟨items, written, -, -⟩ := processUpdatesLoop_done env _ _ _ _ false _ ⊤ _ []
        (Written.start _) (by simp) walked
      have lined₁ := lined.written start written (processUpdatesLoop_frame env _ _ _ _ _ walked).1
      split at restart
      · unfold finishAppend publishInsert at restart
        split at restart <;> cases restart
      · split at restart
        · unfold writeInsertRow at restart
          dsimp only at restart
          split at restart
          · cases restart
            exact lined₁.keep rfl rfl rfl rfl rfl
          · unfold finishAppend publishInsert at restart
            split at restart <;> cases restart
        · unfold finishAppend publishInsert at restart
          split at restart <;> cases restart
  · unfold writeInsertRow at restart
    dsimp only at restart
    split at restart
    · cases restart
      exact lined.keep rfl rfl rfl rfl rfl
    · cases restart

end Append

section Run

variable (env : ModifierEnv)

/-- A state at label `START` (line 81) of the loop of `clean` over `page`, with the
pending main range `[mainStartIdx, mainEndIdx)`. -/
structure StartPoint where
  modifier : ColumnMapPageModifier
  page : ColumnMapMainPage
  mainStartIdx : Nat
  mainEndIdx : Nat

/-- The rows of the pending main range. -/
def StartPoint.pendingMain (p : StartPoint) : List (ActionPage × Nat) :=
  (ActionPage.main p.page).span p.mainStartIdx p.mainEndIdx

/-- The states at `START` the loop of `clean` passes, in order: one for each pass over a
key, the pass after an overflow and its flush included. -/
def cleanLoopStarts (page : ColumnMapMainPage) : Nat → ColumnMapPageModifier → Nat → Nat → Nat →
    List StartPoint
  | 0, _, _, _, _ => []
  | fuel + 1, m, i, mainStartIdx, mainEndIdx =>
    if i < page.count then
      ⟨m, page, mainStartIdx, mainEndIdx⟩ ::
        match cleanKey env page m i mainStartIdx mainEndIdx with
        | .restart m mainStartIdx mainEndIdx => cleanLoopStarts page fuel (flush m) i mainStartIdx mainEndIdx
        | .next m i mainStartIdx mainEndIdx => cleanLoopStarts page fuel m i mainStartIdx mainEndIdx
    else []

/-- The states at `START` one call passes; `append` has no such label. -/
def ModifierCall.starts (fuel : Nat) (m : ColumnMapPageModifier) : ModifierCall → List StartPoint
  | .clean page => if !needsCleaning env.minVersion page then [] else cleanLoopStarts env page fuel m 0 0 0
  | .append _ => []

/-- The states at `START` a run of calls passes, in order. -/
def runStarts (fuel : Nat) : ColumnMapPageModifier → List ModifierCall → List StartPoint
  | _, [] => []
  | m, call :: calls => call.starts env fuel m ++
    match call.run env fuel m with
    | some (m, _) => runStarts fuel m calls
    | none => []

/-- The states `cleanLoopStarts` lists are those the loop passes: resumed from one of them at
some key, with no more fuel than it had left, the loop ends as it does from where it began. -/
theorem cleanLoopStarts_resume (page : ColumnMapMainPage) :
    ∀ (fuel : Nat) (m : ColumnMapPageModifier) (i mainStartIdx mainEndIdx : Nat),
    ∀ p ∈ cleanLoopStarts env page fuel m i mainStartIdx mainEndIdx, p.page = page ∧
      ∃ fuel' i', fuel' ≤ fuel ∧ i' < page.count ∧
        cleanLoop env page fuel' p.modifier i' p.mainStartIdx p.mainEndIdx =
          cleanLoop env page fuel m i mainStartIdx mainEndIdx
  | 0, _, _, _, _ => nofun
  | fuel + 1, m, i, mainStartIdx, mainEndIdx => by
    by_cases inside : i < page.count
    · intro p mem
      simp only [cleanLoopStarts, if_pos inside, List.mem_cons] at mem
      rcases mem with rfl | later
      · exact ⟨rfl, fuel + 1, i, le_rfl, inside, rfl⟩
      · rcases pass : cleanKey env page m i mainStartIdx mainEndIdx with ⟨m₁, ms, me⟩ | ⟨m₁, i₁, ms, me⟩ <;>
          simp only [pass] at later <;>
          obtain ⟨same, fuel', i', less, inside', resumed⟩ :=
            cleanLoopStarts_resume page fuel _ _ _ _ p later <;>
          exact ⟨same, fuel', i', Nat.le_succ_of_le less, inside',
            by simp only [resumed, cleanLoop, if_pos inside, pass]⟩
    · simp [cleanLoopStarts, if_neg inside]

/-- The states `runStarts` lists are those the loops of the run's `clean` calls list: each
lies on the loop of a call that needs cleaning, run on the state the calls before it left. -/
theorem runStarts_mem (fuel : Nat) : ∀ (m : ColumnMapPageModifier) (calls : List ModifierCall),
    ∀ p ∈ runStarts env fuel m calls, ∃ pre page post m' answers,
      calls = pre ++ ModifierCall.clean page :: post ∧ runCalls env fuel m pre = some (m', answers) ∧
      needsCleaning env.minVersion page = true ∧ p ∈ cleanLoopStarts env page fuel m' 0 0 0
  | _, [] => nofun
  | m, call :: calls => by
    intro p mem
    simp only [runStarts, List.mem_append] at mem
    rcases mem with own | later
    · cases call with
      | clean page =>
        simp only [ModifierCall.starts] at own
        split at own
        · cases own
        · rename_i dirty
          exact ⟨[], page, calls, m, [], rfl, rfl, by simpa using dirty, own⟩
      | append record => cases own
    · split at later
      · rename_i m₁ answer first
        obtain ⟨pre, page, post, m', answers, split, ran, dirty, listed⟩ := runStarts_mem fuel m₁ calls p later
        refine ⟨call :: pre, page, post, m', answer :: answers, by rw [split]; rfl, ?_, dirty, listed⟩
        simp [runCalls, first, ran]
      · cases later

/-- An invariant of the states at `START`, with their pending main range, and of the states
between calls, with none, that every step of a run keeps: a pass over a key that overflows,
then the flush; one that finishes; a page that needs no cleaning; the last pending main range
enqueued; a pass of `append` that finishes, and one that overflows, then the flush. -/
structure Preserved (calls : List ModifierCall)
    (Inv : ColumnMapPageModifier → List (ActionPage × Nat) → Prop) : Prop where
  restart : ∀ {page : ColumnMapMainPage} {m m' : ColumnMapPageModifier}
    {i mainStartIdx mainEndIdx mainStartIdx' mainEndIdx' : Nat}, ModifierCall.clean page ∈ calls →
    Inv m ((ActionPage.main page).span mainStartIdx mainEndIdx) → mainStartIdx ≤ mainEndIdx →
    cleanKey env page m i mainStartIdx mainEndIdx = .restart m' mainStartIdx' mainEndIdx' →
    mainStartIdx' ≤ mainEndIdx' ∧ Inv (flush m') ((ActionPage.main page).span mainStartIdx' mainEndIdx')
  next : ∀ {page : ColumnMapMainPage} {m m' : ColumnMapPageModifier}
    {i i' mainStartIdx mainEndIdx mainStartIdx' mainEndIdx' : Nat}, ModifierCall.clean page ∈ calls →
    Inv m ((ActionPage.main page).span mainStartIdx mainEndIdx) → mainStartIdx ≤ mainEndIdx → i < page.count →
    cleanKey env page m i mainStartIdx mainEndIdx = .next m' i' mainStartIdx' mainEndIdx' →
    mainStartIdx' ≤ mainEndIdx' ∧ Inv m' ((ActionPage.main page).span mainStartIdx' mainEndIdx')
  untouched : ∀ {page : ColumnMapMainPage} {m : ColumnMapPageModifier}, ModifierCall.clean page ∈ calls →
    Inv m [] → Inv { m with pageList := m.pageList ++ [page] } []
  finished : ∀ {page : ColumnMapMainPage} {m : ColumnMapPageModifier} {mainStartIdx mainEndIdx : Nat},
    ModifierCall.clean page ∈ calls → Inv m ((ActionPage.main page).span mainStartIdx mainEndIdx) →
    mainStartIdx ≤ mainEndIdx → Inv (flushMain env page m mainStartIdx mainEndIdx).1 []
  appended : ∀ {record : InsertRecord} {m m' : ColumnMapPageModifier} {kept : Bool},
    ModifierCall.append record ∈ calls → Inv m [] → appendAttempt env m record = .done m' kept → Inv m' []
  appendRestart : ∀ {record : InsertRecord} {m m' : ColumnMapPageModifier},
    ModifierCall.append record ∈ calls → Inv m [] → appendAttempt env m record = .restart m' → Inv (flush m') []

namespace Preserved

variable {env} {calls : List ModifierCall} {Inv : ColumnMapPageModifier → List (ActionPage × Nat) → Prop}

/-- The loop of `clean`: every `START` it passes satisfies a preserved invariant, and so does
where it ends. -/
theorem loop_holds (preserved : Preserved env calls Inv) (page : ColumnMapMainPage)
    (called : ModifierCall.clean page ∈ calls) :
    ∀ (fuel : Nat) (m : ColumnMapPageModifier) (i mainStartIdx mainEndIdx : Nat),
    mainStartIdx ≤ mainEndIdx → Inv m ((ActionPage.main page).span mainStartIdx mainEndIdx) →
    (∀ p ∈ cleanLoopStarts env page fuel m i mainStartIdx mainEndIdx,
      p.mainStartIdx ≤ p.mainEndIdx ∧ Inv p.modifier p.pendingMain) ∧
    ∀ result, cleanLoop env page fuel m i mainStartIdx mainEndIdx = some result →
      result.2.1 ≤ result.2.2 ∧ Inv result.1 ((ActionPage.main page).span result.2.1 result.2.2)
  | 0, _, _, _, _, _, _ => ⟨nofun, nofun⟩
  | fuel + 1, m, i, mainStartIdx, mainEndIdx, ordered, holds => by
    by_cases inside : i < page.count
    · rcases pass : cleanKey env page m i mainStartIdx mainEndIdx with ⟨m₁, ms, me⟩ | ⟨m₁, i₁, ms, me⟩
      · obtain ⟨ordered₁, holds₁⟩ := preserved.restart called holds ordered pass
        obtain ⟨starts, finished⟩ := loop_holds preserved page called fuel _ i ms me ordered₁ holds₁
        simp only [cleanLoopStarts, cleanLoop, if_pos inside, pass]
        exact ⟨List.forall_mem_cons.mpr ⟨⟨ordered, holds⟩, starts⟩, finished⟩
      · obtain ⟨ordered₁, holds₁⟩ := preserved.next called holds ordered inside pass
        obtain ⟨starts, finished⟩ := loop_holds preserved page called fuel _ i₁ ms me ordered₁ holds₁
        simp only [cleanLoopStarts, cleanLoop, if_pos inside, pass]
        exact ⟨List.forall_mem_cons.mpr ⟨⟨ordered, holds⟩, starts⟩, finished⟩
    · simp only [cleanLoopStarts, cleanLoop, if_neg inside]
      exact ⟨nofun, fun result found => by cases found; exact ⟨ordered, holds⟩⟩

/-- `clean`: every `START` it passes satisfies a preserved invariant, and so does where it ends,
the last pending main range enqueued. -/
theorem clean_holds (preserved : Preserved env calls Inv) (page : ColumnMapMainPage)
    (called : ModifierCall.clean page ∈ calls) (fuel : Nat) {m : ColumnMapPageModifier} (holds : Inv m []) :
    (∀ p ∈ (ModifierCall.clean page).starts env fuel m, p.mainStartIdx ≤ p.mainEndIdx ∧ Inv p.modifier p.pendingMain) ∧
    ∀ result, clean env page fuel m = some result → Inv result.1 [] := by
  simp only [ModifierCall.starts]
  unfold clean
  split
  · exact ⟨nofun, fun result found => by cases found; exact preserved.untouched called holds⟩
  · obtain ⟨starts, finished⟩ := preserved.loop_holds page called fuel m 0 0 0 le_rfl
      ((ActionPage.span_self _ 0).symm ▸ holds)
    refine ⟨starts, fun result found => ?_⟩
    obtain ⟨⟨m₁, mainStartIdx, mainEndIdx⟩, loop, rfl⟩ := Option.map_eq_some'.mp found
    obtain ⟨ordered, holds₁⟩ := finished _ loop
    exact preserved.finished called holds₁ ordered

/-- `append` keeps a preserved invariant. -/
theorem append_holds (preserved : Preserved env calls Inv) (record : InsertRecord)
    (called : ModifierCall.append record ∈ calls) :
    ∀ (fuel : Nat) (m : ColumnMapPageModifier) (result : ColumnMapPageModifier × Bool),
    Inv m [] → append env fuel m record = some result → Inv result.1 []
  | 0, _, _, _, run => by cases run
  | fuel + 1, m, result, holds, run => by
    unfold append at run
    split at run
    · rename_i m₁ restart
      exact append_holds preserved record called fuel _ result (preserved.appendRestart called holds restart) run
    · rename_i m₁ kept done
      cases run
      exact preserved.appended called holds done

/-- Calls of the run: every `START` they pass satisfies a preserved invariant, and so does where
they end. -/
theorem calls_hold (preserved : Preserved env calls Inv) (fuel : Nat) :
    ∀ (rest : List ModifierCall) (m : ColumnMapPageModifier), (∀ call ∈ rest, call ∈ calls) → Inv m [] →
    (∀ p ∈ runStarts env fuel m rest, p.mainStartIdx ≤ p.mainEndIdx ∧ Inv p.modifier p.pendingMain) ∧
    ∀ result, runCalls env fuel m rest = some result → Inv result.1 []
  | [], _, _, holds => ⟨nofun, fun result run => by cases run; exact holds⟩
  | call :: rest, m, inCalls, holds => by
    have called := inCalls call (List.mem_cons_self _ _)
    have first : (∀ p ∈ call.starts env fuel m, p.mainStartIdx ≤ p.mainEndIdx ∧ Inv p.modifier p.pendingMain) ∧
        ∀ result, call.run env fuel m = some result → Inv result.1 [] := by
      cases call with
      | clean page => exact preserved.clean_holds page called fuel holds
      | append record => exact ⟨nofun, fun result run => preserved.append_holds record called fuel m result holds run⟩
    obtain ⟨starts, ran⟩ := first
    rcases first : call.run env fuel m with _ | ⟨m₁, answer⟩
    · simp only [runStarts, first, List.append_nil]
      exact ⟨starts, fun result run => by simp [runCalls, first] at run⟩
    obtain ⟨starts₁, finished⟩ := calls_hold preserved fuel rest m₁
      (fun call mem => inCalls call (List.mem_cons_of_mem _ mem)) (ran _ first)
    refine ⟨fun p mem => ?_, fun result run => ?_⟩
    · simp only [runStarts, first] at mem
      exact (List.mem_append.mp mem).elim (starts p) (starts₁ p)
    · simp only [runCalls, first, Option.pure_def, Option.bind_eq_bind, Option.some_bind,
        Option.bind_eq_some, Option.some.injEq] at run
      obtain ⟨⟨m₂, answers⟩, rest', rfl⟩ := run
      exact finished (m₂, answers) rest'

end Preserved

/-- A page a run publishes: an input page returned as it was, or a fill page lined up with
sources from the input. -/
def Published (calls : List ModifierCall) (page : ColumnMapMainPage) : Prop :=
  ModifierCall.clean page ∈ calls ∨
    ∃ sources, (∀ x ∈ sources, RowSource.Of env calls x) ∧ LinesUp env.context page sources

/-- What holds at `START`, with `pendingMain` the pending main range, and between calls,
with none: the lazy copy lines up with sources from the input, the assertion of line 587 has
not failed, and every page published so far is one `Published` allows. -/
structure Settled (calls : List ModifierCall) (m : ColumnMapPageModifier)
    (pendingMain : List (ActionPage × Nat)) : Prop where
  atStart : AtStart m
  lined : ∃ sources, (∀ x ∈ sources, RowSource.Of env calls x) ∧ Lined env.context m pendingMain sources
  quiet : sizesCopied ∉ m.failedAsserts
  published : ∀ page ∈ m.pageList, Published env calls page

variable {env} {calls : List ModifierCall} {m m' : ColumnMapPageModifier}

theorem RowSource.of_append {call : ModifierCall} (called : call ∈ calls) {sources items : List RowSource}
    (ofCalls : ∀ x ∈ sources, RowSource.Of env calls x) (fromCall : ∀ x ∈ items, call.Source env x) :
    ∀ x ∈ sources ++ items, RowSource.Of env calls x := fun x mem =>
  (List.mem_append.mp mem).elim (ofCalls x) fun new => ⟨call, called, fromCall x new⟩

/-- Flushing a state lined up with sources from the input, nothing pending in main, settles it
on a fresh fill page. -/
theorem flush_settled {sources : List RowSource} (ofCalls : ∀ x ∈ sources, RowSource.Of env calls x)
    (lined : Lined env.context m [] sources) (written : m.updateEndIdx ≤ m.updateIdx)
    (quiet : sizesCopied ∉ m.failedAsserts) (published : ∀ page ∈ m.pageList, Published env calls page) :
    Settled env calls (flush m) [] := by
  obtain ⟨⟨page, pages, linesUp⟩, ⟨extra, asserts, fresh⟩, flushed⟩ := flush_lined lined written
  exact ⟨(flush_atStart written).1, ⟨[], nofun, flushed⟩, asserts ▸ List.not_mem_append quiet fresh,
    pages ▸ List.forall_mem_append.mpr ⟨published, List.forall_mem_singleton.mpr (.inr ⟨sources, ofCalls, linesUp⟩)⟩⟩

namespace Settled

variable {page : ColumnMapMainPage} {i mainStartIdx mainEndIdx mainStartIdx' mainEndIdx' : Nat}

/-- An overflowing pass over a key, then the flush: the same key starts again settled. -/
theorem restart (settled : Settled env calls m ((ActionPage.main page).span mainStartIdx mainEndIdx))
    (ordered : mainStartIdx ≤ mainEndIdx)
    (restart : cleanKey env page m i mainStartIdx mainEndIdx = .restart m' mainStartIdx' mainEndIdx') :
    mainStartIdx' ≤ mainEndIdx' ∧
      Settled env calls (flush m') ((ActionPage.main page).span mainStartIdx' mainEndIdx') := by
  obtain ⟨start, ⟨sources, ofCalls, lined⟩, quiet, published⟩ := settled
  obtain ⟨lined', same⟩ := cleanKey_restart_lined env page start lined ordered restart
  obtain ⟨-, kept, -, index⟩ := cleanKey_restart_bound env page restart
  obtain ⟨extra, asserts, fresh⟩ := cleanKey_failedAsserts env page m i mainStartIdx mainEndIdx
  rw [restart] at asserts
  have written : m'.updateEndIdx ≤ m'.updateIdx := by
    have := kept.updateEndIdx
    have := start.updateIdx
    omega
  rw [same, ActionPage.span_self]
  exact ⟨le_rfl, flush_settled ofCalls lined' written
    ((show m'.failedAsserts = _ from asserts) ▸ List.not_mem_append quiet fresh) (kept.pageList ▸ published)⟩

/-- A pass over a key that finishes leaves the next key's `START` settled. -/
theorem next {i' : Nat} (called : ModifierCall.clean page ∈ calls)
    (settled : Settled env calls m ((ActionPage.main page).span mainStartIdx mainEndIdx))
    (ordered : mainStartIdx ≤ mainEndIdx) (inside : i < page.count)
    (next : cleanKey env page m i mainStartIdx mainEndIdx = .next m' i' mainStartIdx' mainEndIdx') :
    mainStartIdx' ≤ mainEndIdx' ∧
      Settled env calls m' ((ActionPage.main page).span mainStartIdx' mainEndIdx') := by
  obtain ⟨start, ⟨sources, ofCalls, lined⟩, quiet, published⟩ := settled
  obtain ⟨items, fromCall, lined', ordered', -⟩ := cleanKey_lined env page start lined ordered inside next
  obtain ⟨start', -, -, -, committed⟩ := cleanKey_next env page start inside next
  obtain ⟨extra, asserts, fresh⟩ := cleanKey_failedAsserts env page m i mainStartIdx mainEndIdx
  rw [next] at asserts
  exact ⟨ordered', start', ⟨_, RowSource.of_append called ofCalls fromCall, lined'⟩,
    (show m'.failedAsserts = _ from asserts) ▸ List.not_mem_append quiet fresh,
    committed.pageList ▸ published⟩

/-- A pass of `append` that finishes leaves the state settled. -/
theorem appended {record : InsertRecord} {kept : Bool} (called : ModifierCall.append record ∈ calls)
    (settled : Settled env calls m []) (done : appendAttempt env m record = .done m' kept) :
    Settled env calls m' [] := by
  obtain ⟨start, ⟨sources, ofCalls, lined⟩, quiet, published⟩ := settled
  obtain ⟨items, fromCall, lined', -⟩ := appendAttempt_lined env record start lined done
  obtain ⟨start', committed⟩ := appendAttempt_done env start done
  have asserts := appendAttempt_failedAsserts env m record
  rw [done] at asserts
  exact ⟨start', ⟨_, RowSource.of_append called ofCalls fromCall, lined'⟩,
    (show m'.failedAsserts = _ from asserts) ▸ quiet, committed.pageList ▸ published⟩

/-- An overflowing pass of `append`, then the flush: the record starts again settled. -/
theorem appendRestart {record : InsertRecord} (settled : Settled env calls m [])
    (restart : appendAttempt env m record = .restart m') : Settled env calls (flush m') [] := by
  obtain ⟨start, ⟨sources, ofCalls, lined⟩, quiet, published⟩ := settled
  obtain ⟨-, kept, -, index⟩ := appendAttempt_restart_bound env restart
  have asserts := appendAttempt_failedAsserts env m record
  rw [restart] at asserts
  have written : m'.updateEndIdx ≤ m'.updateIdx := by
    have := kept.updateEndIdx
    have := start.updateIdx
    omega
  exact flush_settled ofCalls (appendAttempt_restart_lined env record start lined restart) written
    ((show m'.failedAsserts = _ from asserts) ▸ quiet) (kept.pageList ▸ published)

/-- A page that needs no cleaning joins the page list as it is. -/
theorem untouched (called : ModifierCall.clean page ∈ calls) (settled : Settled env calls m []) :
    Settled env calls { m with pageList := m.pageList ++ [page] } [] := by
  obtain ⟨start, ⟨sources, ofCalls, lined⟩, quiet, published⟩ := settled
  exact ⟨⟨start.1, start.2, start.3, start.4⟩, ⟨sources, ofCalls, lined.keep rfl rfl rfl rfl rfl⟩, quiet,
    List.forall_mem_append.mpr ⟨published, List.forall_mem_singleton.mpr (.inl called)⟩⟩

/-- Enqueueing the last pending main range settles the state between calls. -/
theorem finished (settled : Settled env calls m ((ActionPage.main page).span mainStartIdx mainEndIdx))
    (ordered : mainStartIdx ≤ mainEndIdx) : Settled env calls (flushMain env page m mainStartIdx mainEndIdx).1 [] := by
  obtain ⟨start, ⟨sources, ofCalls, lined⟩, quiet, published⟩ := settled
  have kept := (flushMain_written env page m mainStartIdx mainEndIdx).kept
  exact ⟨start.unwritten (flushMain_unwritten env page m mainStartIdx mainEndIdx),
    ⟨sources, ofCalls, (flushMain_lined env page lined ordered).1⟩, kept.failedAsserts ▸ quiet,
    kept.pageList ▸ published⟩

theorem preserved : Preserved env calls (Settled env calls) where
  restart _ settled ordered restart := Settled.restart settled ordered restart
  next called settled ordered inside next := Settled.next called settled ordered inside next
  untouched called settled := Settled.untouched called settled
  finished _ settled ordered := Settled.finished settled ordered
  appended called settled done := Settled.appended called settled done
  appendRestart _ settled restart := Settled.appendRestart settled restart

end Settled

/-- Calls of the run from a settled state: every `START` they pass is settled, and so is
where they end. -/
theorem runCalls_settled (fuel : Nat) : ∀ (rest : List ModifierCall) (m : ColumnMapPageModifier),
    (∀ call ∈ rest, call ∈ calls) → Settled env calls m [] →
    (∀ p ∈ runStarts env fuel m rest, p.mainStartIdx ≤ p.mainEndIdx ∧ Settled env calls p.modifier p.pendingMain) ∧
    ∀ result, runCalls env fuel m rest = some result → Settled env calls result.1 [] :=
  Settled.preserved.calls_hold fuel

/-- `done` from a settled state publishes the fill page, if it holds a row, lined up, and
fails no assertion of line 587. -/
theorem done_settled (settled : Settled env calls m []) :
    sizesCopied ∉ (done m).1.failedAsserts ∧ ∀ page ∈ (done m).2, Published env calls page := by
  obtain ⟨-, ⟨sources, ofCalls, lined⟩, quiet, published⟩ := settled
  unfold done
  split
  · obtain ⟨page, pages, linesUp, extra, asserts, fresh⟩ := flushFillPage_linesUp lined
    refine ⟨asserts ▸ List.not_mem_append quiet fresh, ?_⟩
    dsimp only
    exact pages ▸ List.forall_mem_append.mpr
      ⟨published, List.forall_mem_singleton.mpr (.inr ⟨sources, ofCalls, linesUp⟩)⟩
  · exact ⟨quiet, published⟩

/-- A fresh modifier is settled. -/
theorem init_settled (firstPage : Nat) : Settled env calls (init firstPage) [] :=
  ⟨init_atStart firstPage, ⟨[], nofun, ⟨rfl, rfl, .nil, .inl rfl, nofun⟩⟩, List.not_mem_nil _, nofun⟩

end Run

/-- In every modifier run, at each `START` of `clean` (line 81) the fill and update indices
are at their end indices, at most one of the pending update range and the pending main range is
non-empty, and there are sources from the input, one for each committed fill entry, such that
the rows the clean actions list followed by both pending ranges are where those sources are,
position by position, the update page holding the rows written from the update sources.
When the run finishes, the assertion "Did not copy all sizes" (line 587) has never failed, and
every returned page is an input page returned as it was or a fill page whose row `j` was
copied from the source whose key and version fill entry `j` holds. -/
theorem compact_lazy_copy_lines_up (env : ModifierEnv) (fuel firstPage : Nat) (calls : List ModifierCall) :
    (∀ p ∈ runStarts env fuel (init firstPage) calls,
      p.modifier.fillIdx = p.modifier.fillEndIdx ∧ p.modifier.updateIdx = p.modifier.updateEndIdx ∧
      (p.modifier.updateStartIdx = p.modifier.updateEndIdx ∨ p.mainStartIdx = p.mainEndIdx) ∧
      ∃ sources, (∀ x ∈ sources, RowSource.Of env calls x) ∧
        Lined env.context p.modifier p.pendingMain sources) ∧
    ∀ m pages, compact env fuel firstPage calls = some (m, pages) →
      sizesCopied ∉ m.failedAsserts ∧ ∀ page ∈ pages, Published env calls page := by
  obtain ⟨starts, finished⟩ := runCalls_settled fuel calls (init firstPage) (fun _ => id) (init_settled firstPage)
  refine ⟨fun p mem => ?_, fun m pages run => ?_⟩
  · obtain ⟨ordered, start, ⟨sources, ofCalls, lined⟩, -, -⟩ := starts p mem
    refine ⟨start.fillIdx, start.updateIdx, ?_, sources, ofCalls, lined⟩
    exact lined.oneRange.imp id fun main => Nat.le_antisymm ordered (ActionPage.span_eq_nil main)
  · obtain ⟨⟨m₁, answers⟩, called, finish⟩ := Option.map_eq_some'.mp run
    have finished := done_settled (finished _ called)
    simp only at finish
    rwa [finish] at finished

/-- Three keys, the second with one pending update: at the third `START` the first key's rows
and the second key's update row are enqueued and the second key's main row is pending. -/
example : (runStarts ⟨⟨16, 8, 0, 100, 4000⟩, 10,
      ⟨fun newest _ => if newest = 9 then [⟨2, 30, .data, ⟨16, [], 7⟩⟩] else []⟩⟩ 5 (init 200)
      [.clean ⟨100, [⟨1, 20, 0⟩, ⟨1, 5, 0⟩, ⟨2, 7, 9⟩, ⟨3, 4, 0⟩],
        [⟨16, 1, []⟩, ⟨16, 2, []⟩, ⟨16, 3, []⟩, ⟨16, 4, []⟩], 0⟩]).map
      (fun p => (p.mainStartIdx, p.mainEndIdx, p.modifier.fillEndIdx, p.modifier.cleanActions.length)) =
    [(0, 0, 0, 0), (0, 2, 2, 0), (2, 3, 4, 2)] := by
  rfl

end Tellstore.Deltamain.ColumnMap
