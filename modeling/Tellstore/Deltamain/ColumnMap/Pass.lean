import Tellstore.Deltamain.ColumnMap.WellFormed

/-!
# One pass from `START`: the rows it writes

A pass over a key from label `START` (`cleanKey`, `appendAttempt`) writes rows to the
fill page, each from a chain entry, an insert record or a main row, and adds the cost of
each to `mFillSize`. It either commits them (`mFillEndIdx = mFillIdx`) or, once
`mFillSize` passes `MAX_DATA_SIZE`, leaves them to be dropped by the flush that comes
before the key starts again.

`Written` is the ledger of a pass: the rows written since `START` in order
(`RowSource`), with the fill entries they got, what they added to `mFillSize` and the
update-page rows they took; everything else the pass changes is what it works on before
it commits (`Kept`). The walk of the update log and the copy of the main rows extend the
ledger row by row (`processUpdatesLoop_done`, `copyMain_finished`); a cancelled delete is
the last row of the ledger, so it is taken back exactly. A pass that finishes is at
`START` again and has `Committed` its key: the committed fill entries grew by the key's
rows, and the key was invalidated or pointed at its first new entry
(`cleanKey_next`, `appendAttempt_done`).
-/

set_option autoImplicit false

namespace Tellstore.Deltamain.ColumnMap

open ColumnMapPageModifier

section Costs

variable (ctx : ColumnMapContext)

/-- What writing a chain entry adds to `mFillSize`: `entryOverhead()` and its data, a
delete counting `fixedSize()`. -/
def entryCost (entry : UpdateLogEntry) : Nat :=
  ctx.entryOverhead + match entry.type with
    | .delete => ctx.fixedSize
    | .data => entry.tuple.size

/-- The cost of a whole chain. -/
def chainCost (entries : List UpdateLogEntry) : Nat :=
  (entries.map (entryCost ctx)).sum

/-- What copying a main row adds; a tombstone counts `fixedSize()`. -/
def rowCost (row : RowData) : Nat :=
  ctx.entryOverhead + if row.size = 0 then ctx.fixedSize else row.size

/-- The cost of the rows of `key` from row `i` on (`rows` are the entries from `i` on),
up to the first row of another key. -/
def runCost (page : ColumnMapMainPage) (key : Nat) : List ColumnMapMainEntry → Nat → Nat
  | [], _ => 0
  | e :: rest, i =>
    if e.key = key then rowCost ctx (page.row i) + runCost page key rest (i + 1) else 0

@[simp] theorem chainCost_nil : chainCost ctx [] = 0 := rfl

@[simp] theorem chainCost_cons (entry : UpdateLogEntry) (rest : List UpdateLogEntry) :
    chainCost ctx (entry :: rest) = entryCost ctx entry + chainCost ctx rest := by
  simp [chainCost]

end Costs

/-- Row `b` starts a key. -/
def FirstOfKey (page : ColumnMapMainPage) (b : Nat) : Prop :=
  b = 0 ∨ (page.entry (b - 1)).key ≠ (page.entry b).key

instance (page : ColumnMapMainPage) (b : Nat) : Decidable (FirstOfKey page b) :=
  inferInstanceAs (Decidable (_ ∨ _))

/-- The chain the code walks for the key whose first row is `b`: none when its newest
word is zero. -/
def keyChain (env : ModifierEnv) (page : ColumnMapMainPage) (b : Nat) : List UpdateLogEntry :=
  if (page.entry b).newest = 0 then []
  else env.iterator.entries (page.entry b).newest (page.entry b).version

/-- The chain `append` walks for an insert record. -/
def recordChain (env : ModifierEnv) (record : InsertRecord) : List UpdateLogEntry :=
  if record.newest = 0 then [] else env.iterator.entries record.newest record.baseVersion

section Rows

variable (page : ColumnMapMainPage)

/-- The entries from row `i` on start with row `i`'s entry. -/
theorem ColumnMapMainPage.entry_of_drop {i : Nat} {e : ColumnMapMainEntry}
    {rest : List ColumnMapMainEntry} (rows : e :: rest = page.entries.drop i) :
    page.entry i = e ∧ rest = page.entries.drop (i + 1) ∧ i < page.count := by
  have head : (page.entries.drop i)[0]? = some e := by rw [← rows]; simp
  rw [List.getElem?_drop, Nat.add_zero] at head
  refine ⟨by simp [ColumnMapMainPage.entry, List.getD_eq_getElem?_getD, head], ?_, ?_⟩
  · rw [← List.drop_drop, ← rows]; rfl
  · exact (List.getElem?_eq_some_iff.mp head).1

theorem ColumnMapMainPage.count_le_of_drop {i : Nat} (rows : [] = page.entries.drop i) :
    page.count ≤ i := by
  have := congrArg List.length rows
  simp only [List.length_nil, List.length_drop] at this
  unfold ColumnMapMainPage.count
  omega

/-- `skipKey` passes over rows of `key` and stops at the first row of another key. -/
theorem skipKey_spec (key : Nat) : ∀ (rows : List ColumnMapMainEntry) (i : Nat),
    rows = page.entries.drop i →
    i ≤ skipKey key rows i ∧ (∀ j, i ≤ j → j < skipKey key rows i → (page.entry j).key = key) ∧
      (skipKey key rows i < page.count → (page.entry (skipKey key rows i)).key ≠ key)
  | [], i, rows => by
    have := page.count_le_of_drop rows
    exact ⟨le_rfl, fun _ _ _ => by simp only [skipKey] at *; omega,
      fun inside => by simp only [skipKey] at inside; omega⟩
  | e :: rest, i, rows => by
    obtain ⟨entry, tail, -⟩ := page.entry_of_drop rows
    unfold skipKey
    split
    · rename_i same
      obtain ⟨after, keyed, stops⟩ := skipKey_spec key rest (i + 1) tail
      refine ⟨by omega, fun j low high => ?_, stops⟩
      by_cases first : j = i
      · rw [first, entry, same]
      · exact keyed j (by omega) high
    · exact ⟨le_rfl, fun _ _ _ => by omega, fun _ => entry ▸ ‹_›⟩

/-- `skipNewer` passes over rows of `key` only. -/
theorem skipNewer_spec (key : Nat) (lowestVersion : WithTop Nat) :
    ∀ (rows : List ColumnMapMainEntry) (i : Nat), rows = page.entries.drop i →
    i ≤ skipNewer key lowestVersion rows i ∧
      ∀ j, i ≤ j → j < skipNewer key lowestVersion rows i → (page.entry j).key = key
  | [], i, _ => ⟨le_rfl, fun _ _ _ => by simp only [skipNewer] at *; omega⟩
  | e :: rest, i, rows => by
    obtain ⟨entry, tail, -⟩ := page.entry_of_drop rows
    unfold skipNewer
    split
    · rename_i skipped
      obtain ⟨after, keyed⟩ := skipNewer_spec key lowestVersion rest (i + 1) tail
      refine ⟨by omega, fun j low high => ?_⟩
      by_cases first : j = i
      · rw [first, entry, skipped.1]
      · exact keyed j (by omega) high
    · exact ⟨le_rfl, fun _ _ _ => by omega⟩

/-- Past the last row of the key a pass started at `b` reads lies the next key's first
row, or the end of the page. -/
theorem skipKey_next (b i : Nat) (inside : b < page.count) (after : b ≤ i)
    (keyed : ∀ j, b ≤ j → j < i → (page.entry j).key = (page.entry b).key) :
    b < skipKey (page.entry b).key (page.entries.drop i) i ∧
      (skipKey (page.entry b).key (page.entries.drop i) i < page.count →
        FirstOfKey page (skipKey (page.entry b).key (page.entries.drop i) i)) ∧
      ∀ j, b ≤ j → j < skipKey (page.entry b).key (page.entries.drop i) i →
        (page.entry j).key = (page.entry b).key := by
  obtain ⟨skipped, keyed', stops⟩ := skipKey_spec page (page.entry b).key _ i rfl
  have beyond : b < skipKey (page.entry b).key (page.entries.drop i) i := by
    by_contra! before
    have : skipKey (page.entry b).key (page.entries.drop i) i = b := by omega
    exact stops (by omega) (by rw [this])
  have through : ∀ j, b ≤ j → j < skipKey (page.entry b).key (page.entries.drop i) i →
      (page.entry j).key = (page.entry b).key := fun j low high => by
    by_cases before : j < i
    · exact keyed j low before
    · exact keyed' j (by omega) high
  refine ⟨beyond, fun within => .inr fun same => stops within ?_, through⟩
  rw [← same]
  exact through _ (by omega) (by omega)

/-- The rows of a key from a later row on cost no more than from its first. -/
theorem runCost_le_of_keyed (ctx : ColumnMapContext) (key : Nat) :
    ∀ (rows : List ColumnMapMainEntry) (i c : Nat), rows = page.entries.drop i → i ≤ c →
    (∀ j, i ≤ j → j < c → (page.entry j).key = key) →
    runCost ctx page key (page.entries.drop c) c ≤ runCost ctx page key rows i
  | [], i, c, rows, later, _ => by
    have := page.count_le_of_drop rows
    rw [List.drop_eq_nil_of_le (by unfold ColumnMapMainPage.count at this; omega)]
    exact Nat.zero_le _
  | e :: rest, i, c, rows, later, keyed => by
    obtain ⟨entry, tail, -⟩ := page.entry_of_drop rows
    by_cases same : c = i
    · rw [same, rows]
    · have rest_le := runCost_le_of_keyed ctx key rest (i + 1) c tail (by omega)
        fun j low high => keyed j (by omega) high
      have first : e.key = key := entry ▸ keyed i le_rfl (by omega)
      simp only [runCost, first, if_true]
      omega

end Rows

/-- Where a row written since `START` comes from: a chain entry or an insert record, whose
data also takes a row of the update page, or row `row` of a main page. -/
inductive RowSource where
  | update (entry : UpdateLogEntry)
  | insert (record : InsertRecord)
  | main (page : ColumnMapMainPage) (row : Nat)

namespace RowSource

/-- The fill entry the row gets. -/
def entry : RowSource → ColumnMapMainEntry
  | .update e => ⟨e.key, e.version, 0⟩
  | .insert record => ⟨record.key, record.baseVersion, 0⟩
  | .main page r => ⟨(page.entry r).key, (page.entry r).version, 0⟩

/-- What the row adds to `mFillSize`. -/
def cost (ctx : ColumnMapContext) : RowSource → Nat
  | .update e => entryCost ctx e
  | .insert record => ctx.entryOverhead + record.tuple.size
  | .main page r => rowCost ctx (page.row r)

/-- The row's data is on the update page. -/
def onUpdatePage : RowSource → Bool
  | .main _ _ => false
  | _ => true

/-- `row` holds the data columns written from the source: for a chain entry or an insert,
the row `writeUpdate` or `writeInsert` leaves on the update page, at some level of the fill
heap and over what the row held before; for a main row, the page's row with its heap
offsets moved. -/
def Wrote (ctx : ColumnMapContext) : RowSource → RowData → Prop
  | .update e, row => ∃ fillHeap old, row = (updateRow ctx fillHeap old e).1
  | .insert record, row => ∃ fillHeap old, row = (writeData ctx fillHeap old record.tuple).1
  | .main page r, row => ∃ offsetCorrection, row = relocate offsetCorrection (page.row r)

end RowSource

/-- Rows `[startIdx, startIdx + n)` of a main page. -/
def mainRows (page : ColumnMapMainPage) (startIdx n : Nat) : List RowSource :=
  (List.range n).map fun j => .main page (startIdx + j)

theorem mainRows_succ (page : ColumnMapMainPage) (startIdx n : Nat) :
    mainRows page startIdx (n + 1) = mainRows page startIdx n ++ [.main page (startIdx + n)] := by
  simp [mainRows, List.range_succ]

theorem countP_mainRows (page : ColumnMapMainPage) (startIdx n : Nat) :
    (mainRows page startIdx n).countP RowSource.onUpdatePage = 0 :=
  List.countP_eq_zero.mpr fun x mem => by
    obtain ⟨j, -, rfl⟩ := List.mem_map.mp mem
    exact Bool.false_ne_true

namespace ColumnMapPageModifier

/-- The fill entries written so far, `[0, mFillIdx)`. -/
def filled (m : ColumnMapPageModifier) : List ColumnMapMainEntry :=
  (List.range m.fillIdx).map m.fillEntries

/-- The committed fill entries, `[0, mFillEndIdx)`: those `flushFillPage` publishes. -/
def committed (m : ColumnMapPageModifier) : List ColumnMapMainEntry :=
  (List.range m.fillEndIdx).map m.fillEntries

theorem length_filled (m : ColumnMapPageModifier) : m.filled.length = m.fillIdx := by
  simp [filled]

theorem committed_eq_take {m : ColumnMapPageModifier} (le : m.fillEndIdx ≤ m.fillIdx) :
    m.committed = m.filled.take m.fillEndIdx := by
  simp [committed, filled, ← List.map_take, List.take_range, Nat.min_eq_left le]

end ColumnMapPageModifier

/-- Writing entry `n` of an array after its first `n`. -/
theorem range_map_update {α : Type} (f : Nat → α) (n : Nat) (x : α) :
    (List.range (n + 1)).map (Function.update f n x) = (List.range n).map f ++ [x] := by
  rw [List.range_succ, List.map_append, List.map_singleton, Function.update_same]
  exact congrArg (· ++ [x]) (List.map_congr_left fun j mem =>
    Function.update_noteq (List.mem_range.mp mem).ne _ _)

theorem range_map_pred {α : Type} (f : Nat → α) (n : Nat) :
    (List.range (n - 1)).map f = ((List.range n).map f).dropLast := by
  cases n with
  | zero => rfl
  | succ n => simp [List.range_succ]

section Pass

/-- `m` is `s` changed only in what a pass works on before it commits: the rows and heap
it writes on the fill and update pages, their indices, `mFillSize`, the clean actions of
main rows that an earlier key left pending, and the update-page rows its writes used past
the page's capacity. -/
def Kept (s m : ColumnMapPageModifier) : Prop :=
  { s with
    updatePage := m.updatePage
    updateIdx := m.updateIdx
    fillEntries := m.fillEntries
    fillHeap := m.fillHeap
    fillIdx := m.fillIdx
    fillSize := m.fillSize
    cleanActions := m.cleanActions
    updateOverruns := m.updateOverruns } = m

namespace Kept

variable {s m m' : ColumnMapPageModifier}

theorem refl (s : ColumnMapPageModifier) : Kept s s := rfl

theorem trans (first : Kept s m) (second : Kept m m') : Kept s m' := by
  rw [← second, ← first]
  rfl

theorem pageList (kept : Kept s m) : m.pageList = s.pageList :=
  (congrArg ColumnMapPageModifier.pageList kept).symm

theorem fillPage (kept : Kept s m) : m.fillPage = s.fillPage :=
  (congrArg ColumnMapPageModifier.fillPage kept).symm

theorem nextPage (kept : Kept s m) : m.nextPage = s.nextPage :=
  (congrArg ColumnMapPageModifier.nextPage kept).symm

theorem fillEndIdx (kept : Kept s m) : m.fillEndIdx = s.fillEndIdx :=
  (congrArg ColumnMapPageModifier.fillEndIdx kept).symm

theorem updateStartIdx (kept : Kept s m) : m.updateStartIdx = s.updateStartIdx :=
  (congrArg ColumnMapPageModifier.updateStartIdx kept).symm

theorem updateEndIdx (kept : Kept s m) : m.updateEndIdx = s.updateEndIdx :=
  (congrArg ColumnMapPageModifier.updateEndIdx kept).symm

theorem pointerActions (kept : Kept s m) : m.pointerActions = s.pointerActions :=
  (congrArg ColumnMapPageModifier.pointerActions kept).symm

theorem effects (kept : Kept s m) : m.effects = s.effects :=
  (congrArg ColumnMapPageModifier.effects kept).symm

theorem failedAsserts (kept : Kept s m) : m.failedAsserts = s.failedAsserts :=
  (congrArg ColumnMapPageModifier.failedAsserts kept).symm

/-- What a pass has not committed yet is not published: the committed fill entries stay
as long as the pass only appends to the written ones. -/
theorem committed (kept : Kept s m) (ordered : s.fillEndIdx ≤ s.fillIdx)
    (grown : s.filled <+: m.filled) : m.committed = s.committed := by
  obtain ⟨rest, filled⟩ := grown
  have length := congrArg List.length filled
  simp only [List.length_append, length_filled] at length
  rw [committed_eq_take (by rw [kept.fillEndIdx]; omega), committed_eq_take ordered,
    kept.fillEndIdx, ← filled, List.take_append_of_le_length (by rw [length_filled]; exact ordered)]

end Kept

variable (ctx : ColumnMapContext)

/-- `m` part-way through a pass that started from `s`: `items` are the rows written since,
in order, with the fill entries they got, what they added to `mFillSize` and the
update-page rows they took, which follow the rows below `s`'s `mUpdateIdx` and hold the
data of the chain entries and inserts among them; a pending delete is the last of them. -/
structure Written (s m : ColumnMapPageModifier) (wasDelete : Bool) (items : List RowSource) :
    Prop where
  kept : Kept s m
  filled : m.filled = s.filled ++ items.map RowSource.entry
  fillSize : m.fillSize = s.fillSize + (items.map (RowSource.cost ctx)).sum
  updateIdx : m.updateIdx = s.updateIdx + items.countP RowSource.onUpdatePage
  updateRows : ∃ rows, (List.range m.updateIdx).map m.updatePage =
      (List.range s.updateIdx).map s.updatePage ++ rows ∧
    List.Forall₂ (RowSource.Wrote ctx) (items.filter RowSource.onUpdatePage) rows
  lastDelete : wasDelete = true →
    items.getLast?.map (RowSource.cost ctx) = some (ctx.entryOverhead + ctx.fixedSize)

variable {ctx}

namespace Written

variable {s m m' : ColumnMapPageModifier} {wasDelete wasDelete' : Bool} {items : List RowSource}

/-- A pass has written nothing when it starts. -/
theorem start (s : ColumnMapPageModifier) : Written ctx s s false [] :=
  ⟨Kept.refl s, (List.append_nil _).symm, rfl, rfl, ⟨[], (List.append_nil _).symm, .nil⟩, nofun⟩

theorem fillIdx (written : Written ctx s m wasDelete items) :
    m.fillIdx = s.fillIdx + items.length := by
  have := congrArg List.length written.filled
  simpa [length_filled] using this

/-- Writing one more row. -/
theorem write (x : RowSource) (written : Written ctx s m wasDelete items) (kept : Kept m m')
    (filled : m'.filled = m.filled ++ [x.entry]) (fillSize : m'.fillSize = m.fillSize + x.cost ctx)
    (updateIdx : m'.updateIdx = m.updateIdx + if x.onUpdatePage then 1 else 0)
    (updateRows : ∃ rows, (List.range m'.updateIdx).map m'.updatePage =
      (List.range m.updateIdx).map m.updatePage ++ rows ∧
      List.Forall₂ (RowSource.Wrote ctx) ([x].filter RowSource.onUpdatePage) rows)
    (delete : wasDelete' = true → x.cost ctx = ctx.entryOverhead + ctx.fixedSize) :
    Written ctx s m' wasDelete' (items ++ [x]) := by
  obtain ⟨old, before, wrote⟩ := written.updateRows
  obtain ⟨new, after, wroteNew⟩ := updateRows
  exact ⟨written.kept.trans kept, by rw [filled, written.filled]; simp,
    by rw [fillSize, written.fillSize]; simp [Nat.add_assoc],
    by rw [updateIdx, written.updateIdx, List.countP_append, List.countP_cons, List.countP_nil,
      Nat.zero_add, Nat.add_assoc],
    ⟨old ++ new, by rw [after, before, List.append_assoc],
      by rw [List.filter_append]; exact List.rel_append wrote wroteNew⟩,
    fun d => by simp [delete d]⟩

/-- A pending delete is the last row written. -/
theorem split_last (written : Written ctx s m true items) : ∃ init last, items = init ++ [last] := by
  rcases List.eq_nil_or_concat items with empty | ⟨init, last, split⟩
  · have := written.lastDelete rfl
    simp [empty] at this
  · exact ⟨init, last, split.trans (List.concat_eq_append _ _)⟩

/-- Taking back the pending delete, from the update page or the copy range. -/
theorem cancel {init : List RowSource} {last : RowSource}
    (written : Written ctx s m true (init ++ [last])) (kept : Kept m m')
    (entries : m'.fillEntries = m.fillEntries) (fillIdx : m'.fillIdx = m.fillIdx - 1)
    (fillSize : m'.fillSize = m.fillSize - (ctx.entryOverhead + ctx.fixedSize))
    (updateIdx : m'.updateIdx = m.updateIdx - if last.onUpdatePage then 1 else 0)
    (page : m'.updatePage = m.updatePage) :
    Written ctx s m' false init := by
  have cost : last.cost ctx = ctx.entryOverhead + ctx.fixedSize := by
    simpa using written.lastDelete rfl
  have size := written.fillSize
  have index := written.updateIdx
  simp only [List.map_append, List.map_singleton, List.sum_append, List.sum_singleton,
    List.countP_append, List.countP_singleton] at size index
  have index' : m'.updateIdx = s.updateIdx + init.countP RowSource.onUpdatePage := by
    rw [updateIdx, index]; split <;> omega
  refine ⟨written.kept.trans kept, ?_, by omega, index', ?_, nofun⟩
  · show (List.range m'.fillIdx).map m'.fillEntries = _
    rw [entries, fillIdx, range_map_pred, ← ColumnMapPageModifier.filled, written.filled,
      List.map_append, ← List.append_assoc, List.map_singleton, List.dropLast_concat]
  · obtain ⟨rows, before, wrote⟩ := written.updateRows
    rw [List.filter_append] at wrote
    have kept := List.forall₂_take (init.filter RowSource.onUpdatePage).length wrote
    rw [List.take_left] at kept
    refine ⟨_, ?_, kept⟩
    have shorter : m'.updateIdx ≤ m.updateIdx := by rw [updateIdx]; exact Nat.sub_le _ _
    rw [page, ← Nat.min_eq_left shorter, ← List.take_range, List.map_take, before, index',
      List.countP_eq_length_filter, List.take_append_eq_append_take,
      List.take_of_length_le (by simp), List.length_map, List.length_range, Nat.add_sub_cancel_left]

end Written

end Pass

section Log

variable (env : ModifierEnv)

theorem updateSize_cost {entry : UpdateLogEntry} {size : Nat} {wasDelete : Bool}
    (written : updateSize env entry = some (size, wasDelete)) :
    size = entryCost env.context entry ∧
      (wasDelete = true → size = env.context.entryOverhead + env.context.fixedSize) := by
  unfold updateSize at written
  unfold entryCost
  cases type : entry.type <;> simp only [type] at written ⊢
  · cases written
    exact ⟨rfl, nofun⟩
  · split at written
    · cases written
    · cases written
      exact ⟨rfl, fun _ => rfl⟩

theorem writeUpdate_filled (ctx : ColumnMapContext) (m : ColumnMapPageModifier)
    (entry : UpdateLogEntry) :
    (writeUpdate ctx m entry).filled = m.filled ++ [(RowSource.update entry).entry] :=
  range_map_update _ _ _

/-- `writeUpdate` puts the entry's data on the next row of the update page. -/
theorem writeUpdate_rows (ctx : ColumnMapContext) (m : ColumnMapPageModifier) (entry : UpdateLogEntry) :
    ∃ rows, (List.range (writeUpdate ctx m entry).updateIdx).map (writeUpdate ctx m entry).updatePage =
      (List.range m.updateIdx).map m.updatePage ++ rows ∧
      List.Forall₂ (RowSource.Wrote ctx) ([RowSource.update entry].filter RowSource.onUpdatePage) rows :=
  ⟨_, range_map_update _ _ _, .cons ⟨_, _, rfl⟩ .nil⟩

/-- An overflowing walk started with less room than its chain costs; what it wrote is
left uncommitted. -/
theorem processUpdatesLoop_overflow : ∀ (entries : List UpdateLogEntry)
    (m m' : ColumnMapPageModifier) (wasDelete : Bool) (lowest : WithTop Nat),
    processUpdatesLoop env m wasDelete lowest entries = .overflow m' →
    env.context.maxDataSize < m.fillSize + chainCost env.context entries ∧ Kept m m' ∧
      m.filled <+: m'.filled ∧ m.updateIdx ≤ m'.updateIdx
  | [], _, _, _, _, overflow => nomatch overflow
  | entry :: rest, m, m', wasDelete, lowest, overflow => by
    unfold processUpdatesLoop at overflow
    dsimp only at overflow
    split at overflow
    · cases overflow
    · split at overflow
      · cases overflow
      · rename_i size d written
        have cost := (updateSize_cost env written).1
        split at overflow
        · cases overflow
          exact ⟨by simp only [chainCost_cons] at *; omega, rfl, List.prefix_refl _, le_rfl⟩
        · split at overflow
          · cases overflow
          · obtain ⟨bound, kept, grown, index⟩ := processUpdatesLoop_overflow rest _ _ _ _ overflow
            simp only [writeUpdate, chainCost_cons] at bound index ⊢
            refine ⟨by omega, (show Kept m (writeUpdate env.context { m with fillSize := m.fillSize + size }
              entry) from rfl).trans kept, ?_, by omega⟩
            exact (List.prefix_append _ _).trans
              (writeUpdate_filled env.context { m with fillSize := m.fillSize + size } entry ▸ grown)

/-- A walk that ends has written rows from its chain only, each costing what its entry
costs. -/
theorem processUpdatesLoop_done : ∀ (entries : List UpdateLogEntry)
    (s m m' : ColumnMapPageModifier) (wasDelete wasDelete' : Bool) (lowest lowest' : WithTop Nat)
    (items : List RowSource), Written env.context s m wasDelete items →
    (∀ x ∈ items, x.onUpdatePage) →
    processUpdatesLoop env m wasDelete lowest entries = .done m' lowest' wasDelete' →
    ∃ items', Written env.context s m' wasDelete' items' ∧
      (∀ x ∈ items', x ∈ items ∨ ∃ e ∈ entries, x = .update e) ∧
      (items'.map (RowSource.cost env.context)).sum ≤
        (items.map (RowSource.cost env.context)).sum + chainCost env.context entries
  | [], _, _, _, _, _, _, _, items, written, _, done => by
    cases done
    exact ⟨items, written, fun x mem => .inl mem, by simp⟩
  | entry :: rest, s, m, m', wasDelete, wasDelete', lowest, lowest', items, written, updates, done => by
    unfold processUpdatesLoop at done
    dsimp only at done
    split at done
    · rename_i cancel
      cases done
      obtain ⟨init, last, rfl⟩ := (cancel.1 ▸ written).split_last
      have onUpdate := updates last (by simp)
      refine ⟨init, (cancel.1 ▸ written).cancel rfl rfl rfl rfl (by rw [onUpdate]; rfl) rfl,
        fun x mem => .inl (by simp [mem]), by simp; omega⟩
    · split at done
      · cases done
        exact ⟨items, written, fun x mem => .inl mem, by omega⟩
      · rename_i size d sized
        obtain ⟨cost, delete⟩ := updateSize_cost env sized
        split at done
        · cases done
        · have next : Written env.context s
              (writeUpdate env.context { m with fillSize := m.fillSize + size } entry) d
              (items ++ [.update entry]) :=
            written.write (.update entry) rfl (writeUpdate_filled _ _ _)
              (by simp [writeUpdate, RowSource.cost, cost]) (by simp [writeUpdate, RowSource.onUpdatePage])
              (writeUpdate_rows _ _ _)
              (by simpa [RowSource.cost, ← cost] using delete)
          have nextUpdates : ∀ x ∈ items ++ [.update entry], x.onUpdatePage := fun x mem =>
            (List.mem_append.mp mem).elim (updates x) fun last => by rw [List.mem_singleton.mp last]; rfl
          have grow : ∀ x ∈ items ++ [.update entry], x ∈ items ∨ ∃ e ∈ entry :: rest, x = .update e :=
            fun x mem => (List.mem_append.mp mem).imp_right fun last =>
              ⟨entry, List.mem_cons_self _ _, List.mem_singleton.mp last⟩
          split at done
          · cases done
            exact ⟨_, next, grow, by simp [RowSource.cost]⟩
          · obtain ⟨items', final, from_, bound⟩ :=
              processUpdatesLoop_done rest s _ _ _ _ _ _ _ next nextUpdates done
            refine ⟨items', final, fun x mem => ?_, by simp [RowSource.cost] at bound ⊢; omega⟩
            rcases from_ x mem with old | ⟨e, chain, rfl⟩
            · exact grow x old
            · exact .inr ⟨e, List.mem_cons_of_mem _ chain, rfl⟩

end Log

section Copy

variable (env : ModifierEnv) (page : ColumnMapMainPage)

theorem mainSize_cost {i : Nat} {e : ColumnMapMainEntry} {size : Nat} {wasDelete : Bool}
    (written : mainSize env page i e = some (size, wasDelete)) :
    size = rowCost env.context (page.row i) ∧
      (wasDelete = true → size = env.context.entryOverhead + env.context.fixedSize) := by
  unfold mainSize at written
  unfold rowCost
  dsimp only at written
  split at written
  · rename_i tombstone
    split at written
    · cases written
    · cases written
      exact ⟨by rw [if_pos tombstone], fun _ => rfl⟩
  · rename_i data
    cases written
    exact ⟨by rw [if_neg data], nofun⟩

/-- The fill entry the copy loop writes for a main row (line 196). -/
theorem copyRow_filled (m : ColumnMapPageModifier) (size : Nat) (entry : ColumnMapMainEntry) :
    ({ m with
        fillSize := m.fillSize + size
        fillEntries := Function.update m.fillEntries m.fillIdx entry
        fillIdx := m.fillIdx + 1 } : ColumnMapPageModifier).filled = m.filled ++ [entry] :=
  range_map_update _ _ _

/-- An overflowing copy started with less room than the key's rows cost; what it wrote
is left uncommitted. -/
theorem copyMain_overflow (key copyStartIdx : Nat) : ∀ (rows : List ColumnMapMainEntry)
    (i copyEndIdx : Nat) (m m' : ColumnMapPageModifier) (wasDelete : Bool),
    copyMain env page key copyStartIdx rows i m copyEndIdx wasDelete = .overflow m' →
    env.context.maxDataSize < m.fillSize + runCost env.context page key rows i ∧ Kept m m' ∧
      m.filled <+: m'.filled ∧ m.updateIdx ≤ m'.updateIdx
  | [], _, _, _, _, _, overflow => nomatch overflow
  | e :: rest, i, copyEndIdx, m, m', wasDelete, overflow => by
    unfold copyMain at overflow
    dsimp only at overflow
    split at overflow
    · cases overflow
    · rename_i same
      split at overflow
      · split at overflow <;> cases overflow
      · split at overflow
        · cases overflow
        · rename_i size d sized
          have cost := (mainSize_cost env page sized).1
          have run : runCost env.context page key (e :: rest) i =
              rowCost env.context (page.row i) + runCost env.context page key rest (i + 1) := by
            simp [runCost, not_not.mp same]
          split at overflow
          · cases overflow
            exact ⟨by rw [run]; omega, rfl, List.prefix_refl _, le_rfl⟩
          · split at overflow
            · cases overflow
            · obtain ⟨bound, kept, grown, index⟩ :=
                copyMain_overflow key copyStartIdx rest _ _ _ _ _ overflow
              dsimp only at bound index
              refine ⟨by rw [run]; omega, (show Kept m { m with
                fillSize := m.fillSize + size
                fillEntries := Function.update m.fillEntries m.fillIdx ⟨key, e.version, 0⟩
                fillIdx := m.fillIdx + 1 } from rfl).trans kept, ?_, index⟩
              exact (List.prefix_append _ _).trans (copyRow_filled m size _ ▸ grown)

/-- A copy that finishes has written, after the chain's rows, the main rows
`[copyStartIdx, copyEndIdx')`, all of `key`, and passed over rows of `key` only; a delete
it cancels is the last chain row written or the last main row. -/
theorem copyMain_finished (key copyStartIdx : Nat) : ∀ (rows : List ColumnMapMainEntry)
    (i i' copyEndIdx' : Nat) (s m m' : ColumnMapPageModifier) (wasDelete wasDelete' : Bool)
    (updates : List RowSource), rows = page.entries.drop i → copyStartIdx ≤ i →
    (∀ j, copyStartIdx ≤ j → j < i → (page.entry j).key = key) →
    (∀ x ∈ updates, x.onUpdatePage) →
    Written env.context s m wasDelete (updates ++ mainRows page copyStartIdx (i - copyStartIdx)) →
    copyMain env page key copyStartIdx rows i m i wasDelete = .finished m' i' copyEndIdx' wasDelete' →
    ∃ updates', (∀ x ∈ updates', x ∈ updates) ∧
      Written env.context s m' wasDelete'
        (updates' ++ mainRows page copyStartIdx (copyEndIdx' - copyStartIdx)) ∧
      i ≤ i' ∧ copyStartIdx ≤ copyEndIdx' ∧
      (∀ j, copyStartIdx ≤ j → j < i' → (page.entry j).key = key) ∧
      (∀ j, copyStartIdx ≤ j → j < copyEndIdx' → (page.entry j).key = key)
  | [], i, _, _, s, m, m', _, _, updates, _, ordered, keyed, _, written, finished => by
    cases finished
    exact ⟨updates, fun x mem => mem, written, le_rfl, ordered, keyed, keyed⟩
  | e :: rest, i, i', copyEndIdx', s, m, m', wasDelete, wasDelete', updates, rows, ordered, keyed,
      onUpdate, written, finished => by
    obtain ⟨entry, tail, -⟩ := page.entry_of_drop rows
    unfold copyMain at finished
    dsimp only at finished
    split at finished
    · cases finished
      exact ⟨updates, fun x mem => mem, written, le_rfl, ordered, keyed, keyed⟩
    · rename_i same
      have keyedHere : ∀ j, copyStartIdx ≤ j → j < i + 1 → (page.entry j).key = key :=
        fun j low high => by
          by_cases here : j = i
          · rw [here, entry]
            exact not_not.mp same
          · exact keyed j low (by omega)
      split at finished
      · rename_i cancel
        split at finished
        · rename_i fromUpdates
          cases finished
          subst fromUpdates
          simp only [Nat.sub_self, mainRows, List.range_zero, List.map_nil, List.append_nil] at written ⊢
          obtain ⟨init, last, rfl⟩ := (cancel.1 ▸ written).split_last
          have lastUpdate := onUpdate last (by simp)
          exact ⟨init, fun x mem => by simp [mem], (cancel.1 ▸ written).cancel rfl rfl rfl rfl
            (by rw [lastUpdate]; rfl) rfl, le_rfl, ordered, keyed, keyed⟩
        · rename_i fromMain
          cases finished
          obtain ⟨n, copied⟩ : ∃ n, i - copyStartIdx = n + 1 := ⟨i - copyStartIdx - 1, by omega⟩
          rw [copied, mainRows_succ, ← List.append_assoc] at written
          refine ⟨updates, fun x mem => mem, ?_, le_rfl, by omega, keyed,
            fun j low high => keyed j low (by omega)⟩
          rw [show i - 1 - copyStartIdx = n by omega]
          exact (cancel.1 ▸ written).cancel rfl rfl rfl rfl rfl rfl
      · split at finished
        · cases finished
          exact ⟨updates, fun x mem => mem, written, le_rfl, ordered, keyed, keyed⟩
        · rename_i size d sized
          obtain ⟨cost, delete⟩ := mainSize_cost env page sized
          split at finished
          · cases finished
          · have next : Written env.context s
                { m with
                  fillSize := m.fillSize + size
                  fillEntries := Function.update m.fillEntries m.fillIdx ⟨key, e.version, 0⟩
                  fillIdx := m.fillIdx + 1 } d
                (updates ++ mainRows page copyStartIdx (i + 1 - copyStartIdx)) := by
              rw [show i + 1 - copyStartIdx = i - copyStartIdx + 1 by omega, mainRows_succ,
                show copyStartIdx + (i - copyStartIdx) = i by omega, ← List.append_assoc]
              refine written.write (.main page i) rfl ?_ (by simp [RowSource.cost, cost]) rfl
                ⟨[], (List.append_nil _).symm, .nil⟩
                (by simpa [RowSource.cost, ← cost] using delete)
              rw [copyRow_filled, RowSource.entry, entry, not_not.mp same]
            split at finished
            · cases finished
              exact ⟨updates, fun x mem => mem, next, le_rfl, by omega, keyed, keyedHere⟩
            · obtain ⟨updates', sub, final, after, ordered', keyed', keyedEnd⟩ :=
                copyMain_finished key copyStartIdx rest (i + 1) _ _ s _ _ _ _ updates tail
                  (by omega) keyedHere onUpdate next finished
              exact ⟨updates', sub, final, by omega, ordered', keyed', keyedEnd⟩

end Copy

/-- `m'` is `m` with nothing written, taken back or committed: what the index and
pointer calls, invalidations and clean actions change, they change elsewhere. -/
structure Unwritten (m m' : ColumnMapPageModifier) : Prop where
  fillEndIdx : m'.fillEndIdx = m.fillEndIdx
  updateStartIdx : m'.updateStartIdx = m.updateStartIdx
  updateEndIdx : m'.updateEndIdx = m.updateEndIdx
  fillSize : m'.fillSize = m.fillSize
  fillIdx : m'.fillIdx = m.fillIdx
  updateIdx : m'.updateIdx = m.updateIdx

section Index

variable (env : ModifierEnv) (page : ColumnMapMainPage) (m : ColumnMapPageModifier)

/-- Enqueueing the pending main range is part of the pass's work: it writes no row. -/
theorem flushMain_written (mainStartIdx mainEndIdx : Nat) :
    Written env.context m (flushMain env page m mainStartIdx mainEndIdx).1 false [] := by
  unfold flushMain
  split <;> exact ⟨rfl, (List.append_nil _).symm, rfl, rfl, ⟨[], (List.append_nil _).symm, .nil⟩, nofun⟩

theorem flushMain_unwritten (mainStartIdx mainEndIdx : Nat) :
    Unwritten m (flushMain env page m mainStartIdx mainEndIdx).1 := by
  unfold flushMain
  split <;> exact ⟨rfl, rfl, rfl, rfl, rfl, rfl⟩

theorem invalidateKey_unwritten (baseIdx newest key : Nat) :
    Unwritten m (invalidateKey page m baseIdx newest key) :=
  ⟨rfl, rfl, rfl, rfl, rfl, rfl⟩

theorem pointKey_unwritten (baseIdx newest key : Nat) :
    Unwritten m (pointKey page m baseIdx newest key) :=
  ⟨rfl, rfl, rfl, rfl, rfl, rfl⟩

end Index

/-- The message of the assertion at line 567. -/
def emptyFlush : String := "Trying to flush empty page"

/-- Where a pass from label `START` begins: no row written since the last commit, the
pending update range in order, and an empty fill page costing nothing. -/
structure AtStart (m : ColumnMapPageModifier) : Prop where
  fillIdx : m.fillIdx = m.fillEndIdx
  updateIdx : m.updateIdx = m.updateEndIdx
  updateOrdered : m.updateStartIdx ≤ m.updateEndIdx
  emptySize : m.fillEndIdx = 0 → m.fillSize = 0

theorem AtStart.unwritten {m m' : ColumnMapPageModifier} (start : AtStart m)
    (unwritten : Unwritten m m') : AtStart m' := by
  obtain ⟨fillEnd, updateStart, updateEnd, size, fill, update⟩ := unwritten
  obtain ⟨startFill, startUpdate, ordered, empty⟩ := start
  exact ⟨by omega, by omega, by omega, fun zero => size.trans (empty (fillEnd ▸ zero))⟩

/-- At `START` everything written is committed. -/
theorem AtStart.filled_eq {m : ColumnMapPageModifier} (start : AtStart m) :
    m.filled = m.committed := by
  unfold ColumnMapPageModifier.filled ColumnMapPageModifier.committed
  rw [start.fillIdx]

theorem CleanAction.relocationFailures_message (updatePage : Nat → RowData) (action : CleanAction)
    {message : String} (failed : message ∈ action.relocationFailures updatePage) :
    message = "Corrected offset must be larger than 0" := by
  unfold CleanAction.relocationFailures at failed
  split at failed
  · cases failed
  · simp only [List.mem_flatMap, List.mem_map] at failed
    obtain ⟨_, _, _, _, rfl⟩ := failed
    rfl

/-- Flushing a page that holds a committed row fails no assertion of line 567. -/
theorem flushFillPage_quiet {m : ColumnMapPageModifier} (nonempty : 0 < m.fillEndIdx)
    (quiet : emptyFlush ∉ m.failedAsserts) : emptyFlush ∉ (flushFillPage m).failedAsserts := by
  intro failed
  simp only [flushFillPage, check, enqueueUpdates, decide_eq_true nonempty, if_true,
    List.mem_append, List.mem_flatMap] at failed
  rcases failed with asserted | ⟨action, -, relocated⟩
  · split_ifs at asserted <;> simp_all [emptyFlush]
  · have := CleanAction.relocationFailures_message _ action relocated
    simp [emptyFlush] at this

/-- A flush leaves a state at `START` with an empty fill page. -/
theorem flush_atStart {m : ColumnMapPageModifier} (written : m.updateEndIdx ≤ m.updateIdx) :
    AtStart (flush m) ∧ (flush m).fillEndIdx = 0 := by
  have index : (flushFillPage m).updateIdx = m.updateIdx := rfl
  have ends : (flushFillPage m).updateStartIdx = (flushFillPage m).updateEndIdx := rfl
  have ends' : (flushFillPage m).updateEndIdx = m.updateEndIdx := rfl
  refine ⟨?_, rfl⟩
  by_cases used : (flushFillPage m).updateIdx ≠ 0
  · simp only [flush, if_pos used]
    exact ⟨rfl, rfl, le_rfl, fun _ => rfl⟩
  · simp only [flush, if_neg used]
    exact ⟨rfl, by simp only; omega, by simp only; omega, fun _ => rfl⟩

/-- Flushing a page that holds a committed row fails no assertion of line 567. -/
theorem flush_quiet {m : ColumnMapPageModifier} (nonempty : 0 < m.fillEndIdx)
    (quiet : emptyFlush ∉ m.failedAsserts) : emptyFlush ∉ (flush m).failedAsserts := by
  have asserts : (flush m).failedAsserts = (flushFillPage m).failedAsserts := by
    unfold flush
    dsimp only
    split <;> rfl
  exact asserts ▸ flushFillPage_quiet nonempty quiet

/-- A pass about to commit: the rows it wrote are the last `fillIdx - fillEndIdx` fill
entries, of which `copied` come from the main page and the others from the update page
(the assertion of line 209); a fill page holding nothing costs nothing. -/
structure Pending (m : ColumnMapPageModifier) (copied : Nat) : Prop where
  fillEndLe : m.fillEndIdx ≤ m.fillIdx
  updateEndLe : m.updateEndIdx ≤ m.updateIdx
  balanced : m.fillIdx - m.fillEndIdx = (m.updateIdx - m.updateEndIdx) + copied
  updateOrdered : m.updateStartIdx ≤ m.updateEndIdx
  emptySize : m.fillIdx = 0 → m.fillSize = 0

theorem Written.pending {ctx : ColumnMapContext} {s m : ColumnMapPageModifier} {wasDelete : Bool}
    {items : List RowSource} {copied : Nat} (start : AtStart s) (written : Written ctx s m wasDelete items)
    (count : items.length = items.countP RowSource.onUpdatePage + copied) : Pending m copied := by
  have fill := written.fillIdx
  have index := written.updateIdx
  have kept := written.kept
  obtain ⟨startFill, startUpdate, ordered, empty⟩ := start
  refine ⟨by rw [kept.fillEndIdx]; omega, by rw [kept.updateEndIdx]; omega,
    by rw [kept.fillEndIdx, kept.updateEndIdx]; omega,
    by rw [kept.updateStartIdx, kept.updateEndIdx]; exact ordered, fun zero => ?_⟩
  rw [written.fillSize, empty (by omega), List.eq_nil_of_length_eq_zero (by omega : items.length = 0)]
  rfl

theorem Pending.unwritten {m m' : ColumnMapPageModifier} {copied : Nat} (pending : Pending m copied)
    (unwritten : Unwritten m m') : Pending m' copied := by
  obtain ⟨fillEnd, updateStart, updateEnd, size, fill, update⟩ := unwritten
  obtain ⟨fillLe, updateLe, balanced, ordered, empty⟩ := pending
  exact ⟨by omega, by omega, by omega, by omega, fun zero => size.trans (empty (by omega))⟩

/-- An assertion failing leaves a pass about to commit as it was. -/
theorem Pending.check {m : ColumnMapPageModifier} {copied : Nat} (pending : Pending m copied)
    (condition : Bool) (message : String) : Pending (m.check condition message) copied :=
  ⟨pending.1, pending.2, pending.3, pending.4, pending.5⟩

/-- Committing a pass whose update rows are all enqueued leaves a state at `START`. -/
theorem Pending.commit {m : ColumnMapPageModifier} {copied : Nat} (pending : Pending m copied)
    (update : m.updateIdx = m.updateEndIdx) : AtStart { m with fillEndIdx := m.fillIdx } :=
  ⟨rfl, update, pending.updateOrdered, pending.emptySize⟩

/-- A pass that wrote nothing is back at `START` when it invalidates its key. -/
theorem Pending.dropped {m m' : ColumnMapPageModifier} {copied : Nat} (pending : Pending m copied)
    (nothing : m.fillIdx = m.fillEndIdx) (unwritten : Unwritten m m') : AtStart m' := by
  have := pending.balanced
  have := pending.updateEndLe
  exact (show AtStart m from ⟨nothing, by omega, pending.updateOrdered,
    fun zero => pending.emptySize (by omega)⟩).unwritten unwritten

/-- Publishing a key (lines 212-254) leaves a state at `START`. -/
theorem publishKey_atStart (env : ModifierEnv) (page : ColumnMapMainPage) (m : ColumnMapPageModifier)
    (baseIdx newest key copyStartIdx copyEndIdx mainStartIdx mainEndIdx : Nat)
    (pending : Pending m (copyEndIdx - copyStartIdx)) :
    AtStart (publishKey env page m baseIdx newest key copyStartIdx copyEndIdx mainStartIdx
      mainEndIdx).1 := by
  unfold publishKey
  split
  · exact pending.dropped ‹_› (invalidateKey_unwritten page m baseIdx newest key)
  · dsimp only
    have point := pending.unwritten (pointKey_unwritten page m baseIdx newest key)
    split
    · rename_i extend
      dsimp only
      have := point.updateEndLe
      have := point.updateOrdered
      exact point.commit (by omega)
    · have flushed := point.unwritten
        (flushMain_unwritten env page (pointKey page m baseIdx newest key) mainStartIdx mainEndIdx)
      have := flushed.updateEndLe
      have := flushed.updateOrdered
      split
      · exact ⟨rfl, rfl, le_rfl, flushed.emptySize⟩
      · exact ⟨rfl, rfl, by simp only; omega, flushed.emptySize⟩

theorem Written.grown {ctx : ColumnMapContext} {s m : ColumnMapPageModifier} {wasDelete : Bool}
    {items : List RowSource} (written : Written ctx s m wasDelete items) : s.filled <+: m.filled :=
  ⟨_, written.filled.symm⟩

/-- A key as a pass sees it: the key, the newest word it read and where that word lives,
and whether it is a main-page key (`clean` replaces its index entry, and removes it when
it is dropped) or an insert record's (`append` does neither). -/
structure KeyRef where
  key : Nat
  slot : NewestSlot
  newest : Nat
  main : Bool
  deriving DecidableEq, Repr

namespace KeyRef

/-- The calls dropping the key: its newest word CAS'd to INVALID and, for a main-page
key, `mMainTableModifier.remove`. -/
def dropEffects (ref : KeyRef) : List Effect :=
  .invalidate ref.slot ref.newest :: if ref.main then [.remove ref.key] else []

/-- The index entry pointing the key at a fill entry. -/
def indexEffect (ref : KeyRef) (entry : FillEntry) : Effect :=
  .insert ref.key entry ref.main

/-- The pointer action installing a fill entry in the key's newest word. -/
def pointTo (ref : KeyRef) (entry : FillEntry) : PointerAction :=
  ⟨ref.slot, ref.newest, entry⟩

end KeyRef

/-- The key whose first row is `b`. -/
def ColumnMapMainPage.keyRef (page : ColumnMapMainPage) (b : Nat) : KeyRef :=
  ⟨(page.entry b).key, .main page.address b, (page.entry b).newest, true⟩

/-- An insert record's key. -/
def InsertRecord.keyRef (record : InsertRecord) : KeyRef :=
  ⟨record.key, .insert record.address, record.newest, false⟩

/-- A step that fails no assertion extends `failedAsserts` by nothing, so by no failed
flush of an empty page: the `asserts` field of a step that leaves the list as it was. -/
theorem asserts_unchanged (m : ColumnMapPageModifier) :
    ∃ extra, m.failedAsserts = m.failedAsserts ++ extra ∧ emptyFlush ∉ extra :=
  ⟨[], (List.append_nil _).symm, List.not_mem_nil _⟩

/-- `m'` is `m` with the key of `ref` invalidated. -/
structure Dropped (ref : KeyRef) (m m' : ColumnMapPageModifier) : Prop where
  effects : m'.effects = m.effects ++ ref.dropEffects
  pointerActions : m'.pointerActions = m.pointerActions
  pageList : m'.pageList = m.pageList
  fillPage : m'.fillPage = m.fillPage
  committed : m'.committed = m.committed
  asserts : ∃ extra, m'.failedAsserts = m.failedAsserts ++ extra ∧ emptyFlush ∉ extra

/-- `m'` is `m` with the rows written since the last commit committed, and the key of
`ref` indexed and pointed at the first of them. -/
structure Pointed (ref : KeyRef) (m m' : ColumnMapPageModifier) : Prop where
  effects : m'.effects = m.effects ++ [ref.indexEffect ⟨m.fillPage, m.fillEndIdx⟩]
  pointerActions : m'.pointerActions = m.pointerActions ++ [ref.pointTo ⟨m.fillPage, m.fillEndIdx⟩]
  pageList : m'.pageList = m.pageList
  fillPage : m'.fillPage = m.fillPage
  committed : m'.committed = m.filled
  asserts : ∃ extra, m'.failedAsserts = m.failedAsserts ++ extra ∧ emptyFlush ∉ extra

/-- What a finished pass for `ref` did, from `s` at `START` to `m`: it published nothing,
failed no assertion of line 567, extended the committed fill entries by the key's rows
(each of the key, or written from an entry of `chain`), and invalidated the key when there
are none, otherwise indexed it and pointed it at the first of them. -/
structure Committed (ref : KeyRef) (chain : List UpdateLogEntry) (s m : ColumnMapPageModifier) :
    Prop where
  pageList : m.pageList = s.pageList
  fillPage : m.fillPage = s.fillPage
  asserts : ∃ extra, m.failedAsserts = s.failedAsserts ++ extra ∧ emptyFlush ∉ extra
  rows : ∃ rows : List ColumnMapMainEntry, m.committed = s.committed ++ rows ∧
    (∀ e ∈ rows, e.key = ref.key ∨ ∃ u ∈ chain, e.key = u.key) ∧
    (rows = [] ∧ m.effects = s.effects ++ ref.dropEffects ∧ m.pointerActions = s.pointerActions ∨
      rows ≠ [] ∧ m.effects = s.effects ++ [ref.indexEffect ⟨s.fillPage, s.fillEndIdx⟩] ∧
        m.pointerActions = s.pointerActions ++ [ref.pointTo ⟨s.fillPage, s.fillEndIdx⟩])

namespace Written

variable {ctx : ColumnMapContext} {s m m' : ColumnMapPageModifier} {wasDelete : Bool}
  {items : List RowSource} {ref : KeyRef}

/-- A pass that invalidates its key commits nothing. -/
theorem drop (chain : List UpdateLogEntry) (start : AtStart s)
    (written : Written ctx s m wasDelete items) (dropped : Dropped ref m m') :
    Committed ref chain s m' := by
  have kept := written.kept
  obtain ⟨extra, asserts, quiet⟩ := dropped.asserts
  refine ⟨dropped.pageList.trans kept.pageList, dropped.fillPage.trans kept.fillPage,
    ⟨extra, by rw [asserts, kept.failedAsserts], quiet⟩, [], ?_, nofun,
    .inl ⟨rfl, by rw [dropped.effects, kept.effects], by rw [dropped.pointerActions, kept.pointerActions]⟩⟩
  rw [dropped.committed, kept.committed start.fillIdx.ge written.grown, List.append_nil]

/-- A pass that points its key at its rows commits exactly the rows it wrote. -/
theorem point (chain : List UpdateLogEntry) (start : AtStart s)
    (written : Written ctx s m wasDelete items) (grew : m.fillIdx ≠ m.fillEndIdx)
    (keyed : ∀ x ∈ items, x.entry.key = ref.key ∨ ∃ u ∈ chain, x.entry.key = u.key)
    (pointed : Pointed ref m m') : Committed ref chain s m' := by
  have kept := written.kept
  have fill := written.fillIdx
  obtain ⟨extra, asserts, quiet⟩ := pointed.asserts
  refine ⟨pointed.pageList.trans kept.pageList, pointed.fillPage.trans kept.fillPage,
    ⟨extra, by rw [asserts, kept.failedAsserts], quiet⟩, items.map RowSource.entry, by rw [pointed.committed, written.filled, start.filled_eq],
    fun e mem => ?_, .inr ⟨fun none => grew ?_, ?_, ?_⟩⟩
  · obtain ⟨x, member, rfl⟩ := List.mem_map.mp mem
    exact keyed x member
  · have := congrArg List.length none
    simp only [List.length_map, List.length_nil] at this
    have := kept.fillEndIdx
    have := start.fillIdx
    omega
  · rw [pointed.effects, kept.effects, kept.fillPage, kept.fillEndIdx]
  · rw [pointed.pointerActions, kept.pointerActions, kept.fillPage, kept.fillEndIdx]

end Written

/-- A finished pass fails no assertion of line 567. -/
theorem Committed.quiet {ref : KeyRef} {chain : List UpdateLogEntry} {s m : ColumnMapPageModifier}
    (committed : Committed ref chain s m) (quiet : emptyFlush ∉ s.failedAsserts) :
    emptyFlush ∉ m.failedAsserts := by
  obtain ⟨extra, asserts, fresh⟩ := committed.asserts
  rw [asserts, List.mem_append]
  exact fun failed => failed.elim quiet fresh

/-- Lines 214-254: a key that wrote nothing is invalidated, otherwise its rows are
committed and it is pointed at the first. -/
theorem publishKey_commits (env : ModifierEnv) (page : ColumnMapMainPage) (m : ColumnMapPageModifier)
    (condition : Bool) (message : String) (other : message ≠ emptyFlush)
    (baseIdx newest key copyStartIdx copyEndIdx mainStartIdx mainEndIdx : Nat) :
    (m.fillIdx = m.fillEndIdx ∧ Dropped ⟨key, .main page.address baseIdx, newest, true⟩ m
      (publishKey env page (m.check condition message) baseIdx newest key copyStartIdx copyEndIdx
        mainStartIdx mainEndIdx).1) ∨
    (m.fillIdx ≠ m.fillEndIdx ∧ Pointed ⟨key, .main page.address baseIdx, newest, true⟩ m
      (publishKey env page (m.check condition message) baseIdx newest key copyStartIdx copyEndIdx
        mainStartIdx mainEndIdx).1) := by
  have asserts : ∃ extra, (m.check condition message).failedAsserts = m.failedAsserts ++ extra ∧
      emptyFlush ∉ extra := by
    cases condition
    · exact ⟨[message], rfl, by simpa using other.symm⟩
    · exact asserts_unchanged m
  unfold publishKey
  split
  · refine .inl ⟨‹_›, ?_, ?_, ?_, ?_, ?_, asserts⟩ <;>
      simp only [invalidateKey, emit, check, KeyRef.dropEffects, committed, if_true,
        List.append_assoc, List.singleton_append]
  · refine .inr ⟨‹_›, ?_⟩
    dsimp only
    split
    · exact ⟨rfl, rfl, rfl, rfl, rfl, asserts⟩
    · obtain ⟨kept, filled, -, -, -⟩ := flushMain_written env page
        (pointKey page (m.check condition message) baseIdx newest key) mainStartIdx mainEndIdx
      rcases flushed : flushMain env page (pointKey page (m.check condition message) baseIdx newest key)
        mainStartIdx mainEndIdx with ⟨m₁, mainStartIdx₁, mainEndIdx₁⟩
      rw [flushed] at kept filled
      obtain ⟨extra, failed, fresh⟩ := asserts
      dsimp only
      split <;> exact ⟨kept.effects, kept.pointerActions, kept.pageList, kept.fillPage,
        filled.trans (List.append_nil _), extra, kept.failedAsserts.trans failed, fresh⟩

section Key

variable (env : ModifierEnv) (page : ColumnMapMainPage)

theorem copyAndPublish_restart {m m' : ColumnMapPageModifier} {baseIdx newest copyStartIdx : Nat}
    {wasDelete : Bool} {mainStartIdx mainEndIdx mainStartIdx' mainEndIdx' : Nat}
    (restart : copyAndPublish env page m baseIdx newest copyStartIdx wasDelete mainStartIdx mainEndIdx =
      .restart m' mainStartIdx' mainEndIdx') :
    env.context.maxDataSize < m.fillSize + runCost env.context page (page.entry baseIdx).key
      (page.entries.drop copyStartIdx) copyStartIdx ∧ Kept m m' ∧ m.filled <+: m'.filled ∧
      m.updateIdx ≤ m'.updateIdx := by
  unfold copyAndPublish at restart
  dsimp only at restart
  split at restart
  · rename_i m₂ overflow
    cases restart
    obtain ⟨bound, kept, grown, index⟩ := copyMain_overflow env page _ _ _ _ _ _ _ _ overflow
    have flushed := flushMain_written env page m₂ mainStartIdx mainEndIdx
    exact ⟨bound, kept.trans flushed.kept, grown.trans flushed.grown,
      (flushMain_unwritten env page m₂ mainStartIdx mainEndIdx).updateIdx ▸ index⟩
  · cases restart

/-- A pass overflows only when the fill page's rows, the key's chain and its rows
together exceed `MAX_DATA_SIZE`; until the flush it changes nothing committed. -/
theorem cleanKey_restart_bound {m m' : ColumnMapPageModifier} {baseIdx : Nat}
    {mainStartIdx mainEndIdx mainStartIdx' mainEndIdx' : Nat}
    (restart : cleanKey env page m baseIdx mainStartIdx mainEndIdx = .restart m' mainStartIdx' mainEndIdx') :
    env.context.maxDataSize < m.fillSize + (chainCost env.context (keyChain env page baseIdx) +
      runCost env.context page (page.entry baseIdx).key (page.entries.drop baseIdx) baseIdx) ∧
      Kept m m' ∧ m.filled <+: m'.filled ∧ m.updateIdx ≤ m'.updateIdx := by
  unfold cleanKey at restart
  dsimp only at restart
  have flushed := flushMain_written env page m mainStartIdx mainEndIdx
  have flushedSize := (flushMain_unwritten env page m mainStartIdx mainEndIdx).fillSize
  have flushedIdx := (flushMain_unwritten env page m mainStartIdx mainEndIdx).updateIdx
  split at restart
  · rename_i pending
    have chain : keyChain env page baseIdx =
        env.iterator.entries (page.entry baseIdx).newest (page.entry baseIdx).version := if_neg pending
    split at restart
    · rename_i m₂ overflow
      cases restart
      obtain ⟨bound, kept, grown, index⟩ := processUpdatesLoop_overflow env _ _ _ _ _ overflow
      have again := flushMain_written env page m₂
        (flushMain env page m mainStartIdx mainEndIdx).2.1 (flushMain env page m mainStartIdx mainEndIdx).2.2
      have againIdx := (flushMain_unwritten env page m₂
        (flushMain env page m mainStartIdx mainEndIdx).2.1 (flushMain env page m mainStartIdx mainEndIdx).2.2).updateIdx
      rw [flushedSize, ← chain] at bound
      exact ⟨by omega, flushed.kept.trans (kept.trans again.kept),
        flushed.grown.trans (grown.trans again.grown), by omega⟩
    · rename_i m₂ lowest wasDelete done
      split at restart
      · cases restart
      · obtain ⟨items, written, -, spent⟩ :=
          processUpdatesLoop_done env _ m _ _ false _ ⊤ _ [] flushed (by simp) done
        obtain ⟨bound, kept, grown, index⟩ := copyAndPublish_restart env page restart
        obtain ⟨after, keyed⟩ := skipNewer_spec page (page.entry baseIdx).key lowest _ baseIdx rfl
        have fewer := runCost_le_of_keyed page env.context (page.entry baseIdx).key _ baseIdx _ rfl after keyed
        have size := written.fillSize
        have idx := written.updateIdx
        simp only [List.map_nil, List.sum_nil, Nat.zero_add] at spent
        rw [← chain] at spent
        exact ⟨by omega, written.kept.trans kept, written.grown.trans grown, by omega⟩
  · rename_i none
    have chain : keyChain env page baseIdx = [] := if_pos (not_not.mp none)
    obtain ⟨bound, kept, grown, index⟩ := copyAndPublish_restart env page restart
    rw [chain]
    exact ⟨by simp only [chainCost_nil]; omega, kept, grown, index⟩

theorem copyAndPublish_next {s m m' : ColumnMapPageModifier} {baseIdx copyStartIdx i' : Nat}
    {wasDelete : Bool} {mainStartIdx mainEndIdx mainStartIdx' mainEndIdx' : Nat}
    {items : List RowSource} (start : AtStart s) (written : Written env.context s m wasDelete items)
    (onUpdate : ∀ x ∈ items, x.onUpdatePage)
    (keyed : ∀ x ∈ items, x.entry.key = (page.keyRef baseIdx).key ∨
      ∃ u ∈ keyChain env page baseIdx, x.entry.key = u.key)
    (inside : baseIdx < page.count) (after : baseIdx ≤ copyStartIdx)
    (skipped : ∀ j, baseIdx ≤ j → j < copyStartIdx → (page.entry j).key = (page.entry baseIdx).key)
    (next : copyAndPublish env page m baseIdx (page.entry baseIdx).newest copyStartIdx wasDelete
      mainStartIdx mainEndIdx = .next m' i' mainStartIdx' mainEndIdx') :
    AtStart m' ∧ baseIdx < i' ∧ (i' < page.count → FirstOfKey page i') ∧
      (∀ j, baseIdx ≤ j → j < i' → (page.entry j).key = (page.entry baseIdx).key) ∧
      Committed (page.keyRef baseIdx) (keyChain env page baseIdx) s m' := by
  unfold copyAndPublish at next
  dsimp only at next
  split at next
  · cases next
  · rename_i m₂ i copyEndIdx wasDelete' finished
    cases next
    obtain ⟨updates, sub, written', later, ordered, keyedPassed, keyedCopied⟩ :=
      copyMain_finished env page _ _ _ _ _ _ _ _ _ _ _ items rfl le_rfl (fun j low high => by omega)
        onUpdate (by simpa [mainRows] using written) finished
    have pending : Pending m₂ (copyEndIdx - copyStartIdx) := written'.pending start (by
      rw [List.countP_append, countP_mainRows,
        List.countP_eq_length.mpr fun x mem => onUpdate x (sub x mem)]
      simp [mainRows])
    have progress := skipKey_next page baseIdx i inside (by omega) fun j low high => by
      by_cases before : j < copyStartIdx
      · exact skipped j low before
      · exact keyedPassed j (by omega) high
    refine ⟨publishKey_atStart env page _ _ _ _ _ _ _ _ (pending.check _ _),
      progress.1, progress.2.1, progress.2.2, ?_⟩
    rcases publishKey_commits env page m₂ (!wasDelete') "Last element must not be a delete"
      (by simp [emptyFlush]) baseIdx _ _ copyStartIdx copyEndIdx mainStartIdx mainEndIdx with ⟨-, dropped⟩ | ⟨grew, pointed⟩
    · exact written'.drop _ start dropped
    · refine written'.point _ start grew (fun x mem => ?_) pointed
      rcases List.mem_append.mp mem with old | copied
      · exact keyed x (sub x old)
      · obtain ⟨j, below, rfl⟩ := List.mem_map.mp copied
        exact .inl (keyedCopied _ (by omega) (by simp at below; omega))

/-- A pass that finishes leaves a state at `START`, moves on past the key's rows to the next
key's first row or the page's end, and has committed its key. -/
theorem cleanKey_next {m m' : ColumnMapPageModifier} {baseIdx i' : Nat}
    {mainStartIdx mainEndIdx mainStartIdx' mainEndIdx' : Nat} (start : AtStart m)
    (inside : baseIdx < page.count)
    (next : cleanKey env page m baseIdx mainStartIdx mainEndIdx = .next m' i' mainStartIdx' mainEndIdx') :
    AtStart m' ∧ baseIdx < i' ∧ (i' < page.count → FirstOfKey page i') ∧
      (∀ j, baseIdx ≤ j → j < i' → (page.entry j).key = (page.entry baseIdx).key) ∧
      Committed (page.keyRef baseIdx) (keyChain env page baseIdx) m m' := by
  unfold cleanKey at next
  dsimp only at next
  split at next
  · rename_i pending
    have chain : keyChain env page baseIdx =
        env.iterator.entries (page.entry baseIdx).newest (page.entry baseIdx).version := if_neg pending
    split at next
    · cases next
    · rename_i m₂ lowest wasDelete done
      obtain ⟨items, written, from_, -⟩ := processUpdatesLoop_done env _ m _ _ false _ ⊤ _ []
        (flushMain_written env page m mainStartIdx mainEndIdx) (by simp) done
      have fromChain : ∀ x ∈ items, ∃ e ∈ keyChain env page baseIdx, x = .update e := fun x mem => by
        rcases from_ x mem with nil | found
        · cases nil
        · rwa [chain]
      have onUpdate : ∀ x ∈ items, x.onUpdatePage := fun x mem => by
        obtain ⟨e, -, rfl⟩ := fromChain x mem
        rfl
      have keyed : ∀ x ∈ items, x.entry.key = (page.keyRef baseIdx).key ∨
          ∃ u ∈ keyChain env page baseIdx, x.entry.key = u.key := fun x mem => by
        obtain ⟨e, found, rfl⟩ := fromChain x mem
        exact .inr ⟨e, found, rfl⟩
      have pending₂ : Pending m₂ 0 := written.pending start
        (by rw [List.countP_eq_length.mpr onUpdate]; rfl)
      have balanced := pending₂.balanced
      have fillLe := pending₂.fillEndLe
      have updateLe := pending₂.updateEndLe
      split at next
      · cases next
        have progress := skipKey_next page baseIdx (baseIdx + 1) inside (by omega) fun j low high => by
          obtain rfl : j = baseIdx := by omega
          rfl
        split
        · exact ⟨pending₂.dropped (by omega) (invalidateKey_unwritten page m₂ _ _ _), progress.1,
            progress.2.1, progress.2.2, written.drop _ start
              ⟨by simp [invalidateKey, emit, KeyRef.dropEffects, ColumnMapMainPage.keyRef], rfl, rfl, rfl,
                rfl, asserts_unchanged _⟩⟩
        · have point := pending₂.unwritten (pointKey_unwritten page m₂ baseIdx
            (page.entry baseIdx).newest (page.entry baseIdx).key)
          have := point.updateOrdered
          have := point.updateEndLe
          exact ⟨⟨rfl, rfl, by simp only; omega, point.emptySize⟩, progress.1, progress.2.1, progress.2.2,
            written.point _ start (by omega) keyed ⟨rfl, rfl, rfl, rfl, rfl, asserts_unchanged _⟩⟩
      · obtain ⟨after, keyed'⟩ := skipNewer_spec page (page.entry baseIdx).key lowest _ baseIdx rfl
        exact copyAndPublish_next env page start written onUpdate keyed inside after keyed' next
  · exact copyAndPublish_next env page start (Written.start m) (by simp) (by simp) inside le_rfl
      (fun j low high => by omega) next

end Key

section Append

variable (env : ModifierEnv)

theorem writeInsert_filled (ctx : ColumnMapContext) (m : ColumnMapPageModifier) (record : InsertRecord) :
    (writeInsert ctx m record).filled = m.filled ++ [(RowSource.insert record).entry] :=
  range_map_update _ _ _

/-- `writeInsert` puts the record's data on the next row of the update page. -/
theorem writeInsert_rows (ctx : ColumnMapContext) (m : ColumnMapPageModifier) (record : InsertRecord) :
    ∃ rows, (List.range (writeInsert ctx m record).updateIdx).map (writeInsert ctx m record).updatePage =
      (List.range m.updateIdx).map m.updatePage ++ rows ∧
      List.Forall₂ (RowSource.Wrote ctx) ([RowSource.insert record].filter RowSource.onUpdatePage) rows :=
  ⟨_, range_map_update _ _ _, .cons ⟨_, _, rfl⟩ .nil⟩

/-- Lines 327-338: the record's rows are committed and its newest word pointed at the
first. -/
theorem publishInsert_done {m m' : ColumnMapPageModifier} {record : InsertRecord} {kept : Bool}
    (pending : Pending m 0) (done : publishInsert m record = .done m' kept) :
    AtStart m' ∧ Pointed record.keyRef m m' := by
  cases done
  have := pending.updateEndLe
  have := pending.updateOrdered
  exact ⟨⟨rfl, rfl, by simp only [ColumnMapPageModifier.emit]; omega, pending.emptySize⟩,
    rfl, rfl, rfl, rfl, rfl, asserts_unchanged _⟩

/-- Lines 306-313: a record that wrote nothing is invalidated, otherwise published. -/
theorem finishAppend_done {m m' : ColumnMapPageModifier} {record : InsertRecord} {kept : Bool}
    (pending : Pending m 0) (done : finishAppend m record = .done m' kept) :
    AtStart m' ∧ (m.fillIdx = m.fillEndIdx ∧ Dropped record.keyRef m m' ∨
      m.fillIdx ≠ m.fillEndIdx ∧ Pointed record.keyRef m m') := by
  have := pending.balanced
  have := pending.fillEndLe
  have := pending.updateEndLe
  unfold finishAppend at done
  split at done
  · cases done
    exact ⟨pending.dropped (by omega) ⟨rfl, rfl, rfl, rfl, rfl, rfl⟩,
      .inl ⟨by omega, rfl, rfl, rfl, rfl, rfl, asserts_unchanged _⟩⟩
  · obtain ⟨start, pointed⟩ := publishInsert_done pending done
    exact ⟨start, .inr ⟨by omega, pointed⟩⟩

/-- Writing the insert's own row after the chain's. -/
theorem Written.writeInsert {s m : ColumnMapPageModifier} {wasDelete : Bool} {items : List RowSource}
    (record : InsertRecord) (written : Written env.context s m wasDelete items) :
    Written env.context s (writeInsert env.context
      { m with fillSize := m.fillSize + (env.context.entryOverhead + record.tuple.size) } record) false
      (items ++ [.insert record]) :=
  written.write (.insert record) rfl (writeInsert_filled _ _ _) rfl rfl (writeInsert_rows _ _ _)
    (fun h : false = true => nomatch h)

/-- An overflowing pass of `append` started with less room than the record's chain and
its own entry cost; until the flush it changes nothing committed. -/
theorem appendAttempt_restart_bound {m m' : ColumnMapPageModifier} {record : InsertRecord}
    (restart : appendAttempt env m record = .restart m') :
    env.context.maxDataSize <
      m.fillSize + (chainCost env.context (recordChain env record) +
        (env.context.entryOverhead + record.tuple.size)) ∧
      Kept m m' ∧ m.filled <+: m'.filled ∧ m.updateIdx ≤ m'.updateIdx := by
  unfold appendAttempt at restart
  split at restart
  · rename_i pending
    have chain : recordChain env record =
        env.iterator.entries record.newest record.baseVersion := if_neg pending
    split at restart
    · rename_i m₁ overflow
      cases restart
      obtain ⟨bound, kept, grown, index⟩ := processUpdatesLoop_overflow env _ _ _ _ _ overflow
      rw [← chain] at bound
      exact ⟨by omega, kept, grown, index⟩
    · rename_i m₁ lowest wasDelete done
      obtain ⟨items, written, -, spent⟩ := processUpdatesLoop_done env _ _ _ _ false _ ⊤ _ []
        (Written.start _) (by simp) done
      rw [← chain] at spent
      simp only [List.map_nil, List.sum_nil, Nat.zero_add] at spent
      have size := written.fillSize
      have idx := written.updateIdx
      split at restart
      · unfold finishAppend publishInsert at restart
        split at restart <;> cases restart
      · split at restart
        · unfold writeInsertRow at restart
          dsimp only at restart
          split at restart
          · cases restart
            exact ⟨by omega, written.kept.trans rfl, written.grown, by simp only; omega⟩
          · unfold finishAppend publishInsert at restart
            split at restart <;> cases restart
        · unfold finishAppend publishInsert at restart
          split at restart <;> cases restart
  · rename_i none
    have chain : recordChain env record = [] := if_pos (not_not.mp none)
    unfold writeInsertRow at restart
    dsimp only at restart
    split at restart
    · cases restart
      rw [chain]
      exact ⟨by simp only [chainCost_nil]; omega, rfl, List.prefix_refl _, le_rfl⟩
    · cases restart

/-- A pass of `append` that finishes leaves a state at `START` and has committed the
record's key. -/
theorem appendAttempt_done {m m' : ColumnMapPageModifier} {record : InsertRecord} {kept : Bool}
    (start : AtStart m) (done : appendAttempt env m record = .done m' kept) :
    AtStart m' ∧ Committed record.keyRef (recordChain env record) m m' := by
  have commit : ∀ {m₁ : ColumnMapPageModifier} {wasDelete : Bool} {items : List RowSource},
      Written env.context m m₁ wasDelete items → (∀ x ∈ items, x.onUpdatePage) →
      (∀ x ∈ items, x.entry.key = record.keyRef.key ∨
        ∃ u ∈ recordChain env record, x.entry.key = u.key) →
      finishAppend m₁ record = .done m' kept →
      AtStart m' ∧ Committed record.keyRef (recordChain env record) m m' := fun written onUpdate keyed finished => by
    obtain ⟨start', fate⟩ := finishAppend_done (written.pending start
      (by rw [List.countP_eq_length.mpr onUpdate]; rfl)) finished
    rcases fate with ⟨-, dropped⟩ | ⟨grew, pointed⟩
    · exact ⟨start', written.drop _ start dropped⟩
    · exact ⟨start', written.point _ start grew keyed pointed⟩
  unfold appendAttempt at done
  split at done
  · rename_i pending
    have chain : recordChain env record =
        env.iterator.entries record.newest record.baseVersion := if_neg pending
    split at done
    · cases done
    · rename_i m₁ lowest wasDelete walked
      obtain ⟨items, written, from_, -⟩ := processUpdatesLoop_done env _ _ _ _ false _ ⊤ _ []
        (Written.start _) (by simp) walked
      have fromChain : ∀ x ∈ items, ∃ e ∈ recordChain env record, x = .update e := fun x mem => by
        rcases from_ x mem with nil | found
        · cases nil
        · rwa [chain]
      have onUpdate : ∀ x ∈ items, x.onUpdatePage := fun x mem => by
        obtain ⟨e, -, rfl⟩ := fromChain x mem
        rfl
      have keyed : ∀ x ∈ items, x.entry.key = record.keyRef.key ∨
          ∃ u ∈ recordChain env record, x.entry.key = u.key := fun x mem => by
        obtain ⟨e, found, rfl⟩ := fromChain x mem
        exact .inr ⟨e, found, rfl⟩
      split at done
      · rename_i cancel
        obtain ⟨init, last, rfl⟩ := (cancel.1 ▸ written).split_last
        have lastUpdate := onUpdate last (by simp)
        exact commit ((cancel.1 ▸ written).cancel rfl rfl rfl rfl (by rw [lastUpdate]; rfl) rfl)
          (fun x mem => onUpdate x (by simp [mem])) (fun x mem => keyed x (by simp [mem])) done
      · split at done
        · unfold writeInsertRow at done
          dsimp only at done
          split at done
          · cases done
          · exact commit (written.writeInsert env record)
              (fun x mem => (List.mem_append.mp mem).elim (onUpdate x) fun last => by
                rw [List.mem_singleton.mp last]; rfl)
              (fun x mem => (List.mem_append.mp mem).elim (keyed x) fun last => by
                rw [List.mem_singleton.mp last]; exact .inl rfl) done
        · exact commit written onUpdate keyed done
  · unfold writeInsertRow at done
    dsimp only at done
    split at done
    · cases done
    · obtain ⟨start', pointed⟩ := publishInsert_done
        (((Written.start m).writeInsert env record).pending start rfl) done
      exact ⟨start', ((Written.start m).writeInsert env record).point _ start
        (by simp [writeInsert, start.fillIdx]) (fun x mem => by
          rw [List.mem_singleton.mp mem]; exact .inl rfl) pointed⟩

end Append

end Tellstore.Deltamain.ColumnMap
