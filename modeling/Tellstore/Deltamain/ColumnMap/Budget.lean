import Tellstore.Deltamain.ColumnMap.LazyCopy

/-!
# The fill budget

The modifier adds to `mFillSize` what each row it writes costs (the entry overhead and the
row's size, a delete counting the fixed size), subtracts it when it takes a delete back, and
flushes before the sum passes `ColumnMapContext::MAX_DATA_SIZE` (lines 186, 298, 319 and
444). The update page, allocated with `fixedSizeCapacity()` rows (lines 56 and 553), is
written at `mUpdateIdx` with no bound check of its own (lines 460-546): its bound rests on the
same sum, every row on it costing at least the entry overhead.

This module proves the budget over whole runs. At every `START` and between calls
`mFillSize` is what the rows lined up so far cost and at most `MAX_DATA_SIZE`, so
`mUpdateIdx` entry overheads fit in it; no pass writes an update-page row `k` whose `k + 1`
overheads pass `MAX_DATA_SIZE`, also a pass that overflows (`Spares`), so a write past the
page's `fixedSizeCapacity()` rows is one within the budget (`OverrunsWithin`), and none at all
when the budget holds at most that many rows; and every fill page a run publishes lines up
with rows whose costs sum to at most `MAX_DATA_SIZE`.
-/

set_option autoImplicit false

namespace Tellstore.Deltamain.ColumnMap

open ColumnMapPageModifier

section Room

variable (ctx : ColumnMapContext)

/-- Row `k` of the update page is beyond the budget: the `k + 1` rows up to it cost more
than `MAX_DATA_SIZE` in entry overhead alone. -/
def Beyond (k : Nat) : Prop := ctx.maxDataSize < (k + 1) * ctx.entryOverhead

/-- Within a pass, `mFillSize` covers the entry overhead of every update-page row below
`mUpdateIdx` and, while a delete is pending, its fixed size. -/
def Room (m : ColumnMapPageModifier) (wasDelete : Bool) : Prop :=
  m.updateIdx * ctx.entryOverhead + (if wasDelete then ctx.fixedSize else 0) ≤ m.fillSize

/-- What a pass does to the update page beyond the budget: no row there changes, and a row
it records as used past the page's capacity is one within the budget. -/
def Spares (m m' : ColumnMapPageModifier) : Prop :=
  (∀ k, Beyond ctx k → m'.updatePage k = m.updatePage k) ∧
    ∀ k ∈ m'.updateOverruns, k ∈ m.updateOverruns ∨ (ctx.fixedSizeCapacity ≤ k ∧ ¬Beyond ctx k)

/-- Every row past the update page's capacity that a write used was within the budget. -/
def OverrunsWithin (m : ColumnMapPageModifier) : Prop :=
  ∀ k ∈ m.updateOverruns, ctx.fixedSizeCapacity ≤ k ∧ ¬Beyond ctx k

variable {ctx}

theorem RowSource.overhead_le_cost (x : RowSource) : ctx.entryOverhead ≤ x.cost ctx := by
  cases x <;> exact Nat.le_add_right _ _

/-- Rows that each cost at least the entry overhead cost at least one overhead per row. -/
theorem overhead_le_sum (sources : List RowSource) :
    sources.length * ctx.entryOverhead ≤ (sources.map (RowSource.cost ctx)).sum := by
  simpa using List.card_nsmul_le_sum (sources.map (RowSource.cost ctx)) ctx.entryOverhead
    (by simpa using fun x _ => RowSource.overhead_le_cost x)

/-- A row written at `mUpdateIdx` after the check against `MAX_DATA_SIZE` is not beyond the
budget. -/
theorem not_beyond {u fillSize size k : Nat} (room : u * ctx.entryOverhead ≤ fillSize)
    (overhead : ctx.entryOverhead ≤ size) (fits : ¬fillSize + size > ctx.maxDataSize)
    (beyond : Beyond ctx k) : k ≠ u := by
  rintro rfl
  unfold Beyond at beyond
  rw [Nat.add_one_mul] at beyond
  omega

namespace Room

variable {m m' : ColumnMapPageModifier} {wasDelete wasDelete' : Bool}

theorem updateIdx (room : Room ctx m wasDelete) : m.updateIdx * ctx.entryOverhead ≤ m.fillSize := by
  unfold Room at room
  split at room <;> omega

theorem of_updateIdx (le : m.updateIdx * ctx.entryOverhead ≤ m.fillSize) : Room ctx m false := by
  simpa [Room] using le

theorem congr (updateIdx : m'.updateIdx = m.updateIdx) (fillSize : m'.fillSize = m.fillSize)
    (room : Room ctx m wasDelete) : Room ctx m' wasDelete := by
  unfold Room at *
  rwa [updateIdx, fillSize]

/-- Writing a row on the update page that costs at least the overhead, exactly a delete's
cost if it leaves a delete pending. -/
theorem write {size : Nat} (room : Room ctx m wasDelete) (overhead : ctx.entryOverhead ≤ size)
    (delete : wasDelete' = true → size = ctx.entryOverhead + ctx.fixedSize)
    (updateIdx : m'.updateIdx = m.updateIdx + 1) (fillSize : m'.fillSize = m.fillSize + size) :
    Room ctx m' wasDelete' := by
  have below := room.updateIdx
  unfold Room
  rw [updateIdx, fillSize, Nat.add_one_mul]
  cases wasDelete'
  · simp only [Bool.false_eq_true, if_false]
    omega
  · have := delete rfl
    simp only [if_true]
    omega

/-- Taking the pending delete back. -/
theorem cancel (room : Room ctx m true) (updateIdx : m'.updateIdx = m.updateIdx - 1)
    (fillSize : m'.fillSize = m.fillSize - (ctx.entryOverhead + ctx.fixedSize)) : Room ctx m' false := by
  unfold Room at *
  rw [updateIdx, fillSize, Nat.sub_one_mul]
  simp only [if_true] at room
  simp only [Bool.false_eq_true, if_false]
  omega

end Room

namespace Spares

variable {m m' m'' : ColumnMapPageModifier}

theorem refl (m : ColumnMapPageModifier) : Spares ctx m m := ⟨fun _ _ => rfl, fun _ mem => .inl mem⟩

/-- A step that writes no update-page row. -/
theorem of_frame (page : m'.updatePage = m.updatePage) (overruns : m'.updateOverruns = m.updateOverruns) :
    Spares ctx m m' :=
  ⟨fun k _ => congrFun page k, fun _ mem => .inl (overruns ▸ mem)⟩

theorem trans (first : Spares ctx m m') (second : Spares ctx m' m'') : Spares ctx m m'' :=
  ⟨fun k beyond => (second.1 k beyond).trans (first.1 k beyond),
    fun k mem => (second.2 k mem).elim (first.2 k) .inr⟩

/-- A write of row `mUpdateIdx` within the budget (lines 460-503). -/
theorem write {row : RowData} (fresh : ¬Beyond ctx m.updateIdx)
    (page : m'.updatePage = Function.update m.updatePage m.updateIdx row)
    (overruns : m'.updateOverruns = useUpdateRow ctx m) : Spares ctx m m' := by
  refine ⟨fun k beyond => ?_, fun k mem => ?_⟩
  · rw [page]
    exact Function.update_noteq (fun same : k = m.updateIdx => fresh (same ▸ beyond)) _ _
  · rw [overruns] at mem
    unfold useUpdateRow at mem
    split at mem
    · exact .inl mem
    · rcases List.mem_append.mp mem with old | new
      · exact .inl old
      · rw [List.mem_singleton.mp new]
        exact .inr ⟨Nat.le_of_not_lt ‹_›, fresh⟩

end Spares

theorem OverrunsWithin.spared {m m' : ColumnMapPageModifier} (within : OverrunsWithin ctx m)
    (spares : Spares ctx m m') : OverrunsWithin ctx m' :=
  fun k mem => (spares.2 k mem).elim (within k) id

end Room

section Pass

variable (env : ModifierEnv)

/-- The walk over a chain (lines 406-458) spares the update page beyond the budget, also
when it overflows; a walk that ends leaves `mFillSize` within `MAX_DATA_SIZE`, covering the
rows below `mUpdateIdx` and the delete it leaves pending. -/
theorem processUpdatesLoop_budget : ∀ (entries : List UpdateLogEntry) (m : ColumnMapPageModifier)
    (wasDelete : Bool) (lowest : WithTop Nat) (outcome : UpdatesOutcome),
    processUpdatesLoop env m wasDelete lowest entries = outcome →
    m.fillSize ≤ env.context.maxDataSize → Room env.context m wasDelete →
    Spares env.context m outcome.modifier ∧
    ∀ m' lowest' wasDelete', outcome = .done m' lowest' wasDelete' →
      m'.fillSize ≤ env.context.maxDataSize ∧ Room env.context m' wasDelete'
  | [], _, _, _, _, rfl, fits, room => ⟨.refl _, fun _ _ _ done => by cases done; exact ⟨fits, room⟩⟩
  | entry :: rest, m, wasDelete, lowest, _, rfl, fits, room => by
    unfold processUpdatesLoop
    dsimp only
    split
    · rename_i cancel
      refine ⟨.of_frame rfl rfl, fun m' _ _ done => ?_⟩
      cases done
      exact ⟨by dsimp only; omega, (cancel.1 ▸ room).cancel rfl rfl⟩
    · split
      · exact ⟨.refl _, fun _ _ _ done => by cases done; exact ⟨fits, room⟩⟩
      · rename_i size d sized
        obtain ⟨cost, delete⟩ := updateSize_cost env sized
        have overhead : env.context.entryOverhead ≤ size := cost ▸ Nat.le_add_right _ _
        split
        · exact ⟨.of_frame rfl rfl, nofun⟩
        · rename_i within
          have fits₁ : m.fillSize + size ≤ env.context.maxDataSize := Nat.le_of_not_lt within
          have room₁ : Room env.context (writeUpdate env.context { m with fillSize := m.fillSize + size } entry) d :=
            room.write overhead delete rfl rfl
          have spares : Spares env.context m (writeUpdate env.context { m with fillSize := m.fillSize + size } entry) :=
            .write (fun beyond => not_beyond room.updateIdx overhead within beyond rfl) rfl rfl
          split
          · exact ⟨spares, fun _ _ _ done => by cases done; exact ⟨fits₁, room₁⟩⟩
          · obtain ⟨spares', done⟩ := processUpdatesLoop_budget rest _ _ _ _ rfl fits₁ room₁
            exact ⟨spares.trans spares', done⟩

/-- The copy loop (lines 156-206) writes no update-page row, and one that finishes leaves
`mFillSize` within `MAX_DATA_SIZE`. -/
theorem copyMain_budget (page : ColumnMapMainPage) (key copyStartIdx : Nat) :
    ∀ (rows : List ColumnMapMainEntry) (i : Nat) (m : ColumnMapPageModifier) (copyEndIdx : Nat)
    (wasDelete : Bool) (outcome : CopyOutcome),
    copyMain env page key copyStartIdx rows i m copyEndIdx wasDelete = outcome →
    outcome.modifier.updateOverruns = m.updateOverruns ∧
    (m.fillSize ≤ env.context.maxDataSize → ∀ m' i' copyEndIdx' wasDelete',
      outcome = .finished m' i' copyEndIdx' wasDelete' → m'.fillSize ≤ env.context.maxDataSize)
  | [], _, _, _, _, _, rfl => ⟨rfl, fun fits _ _ _ _ finished => by cases finished; exact fits⟩
  | e :: rest, i, m, copyEndIdx, wasDelete, _, run => by
    unfold copyMain at run
    dsimp only at run
    split at run
    · subst run; exact ⟨rfl, fun fits _ _ _ _ finished => by cases finished; exact fits⟩
    split at run
    · split at run <;> subst run <;> exact ⟨rfl, fun fits _ _ _ _ finished => by
        cases finished; exact Nat.le_trans (Nat.sub_le _ _) fits⟩
    split at run
    · subst run; exact ⟨rfl, fun fits _ _ _ _ finished => by cases finished; exact fits⟩
    split at run
    · subst run; exact ⟨rfl, fun _ _ _ _ _ finished => by cases finished⟩
    rename_i within
    split at run
    · subst run; exact ⟨rfl, fun _ _ _ _ _ finished => by cases finished; exact Nat.le_of_not_lt within⟩
    · obtain ⟨same, fits'⟩ := copyMain_budget page key copyStartIdx rest _ _ _ _ _ run
      exact ⟨same, fun _ => fits' (Nat.le_of_not_lt within)⟩

/-- Enqueueing the pending main range keeps `mFillSize`, `mUpdateIdx` and the update page. -/
theorem flushMain_budget (page : ColumnMapMainPage) (m : ColumnMapPageModifier) (mainStartIdx mainEndIdx : Nat) :
    (flushMain env page m mainStartIdx mainEndIdx).1.fillSize = m.fillSize ∧
      (flushMain env page m mainStartIdx mainEndIdx).1.updateIdx = m.updateIdx ∧
      (flushMain env page m mainStartIdx mainEndIdx).1.updatePage = m.updatePage ∧
      (flushMain env page m mainStartIdx mainEndIdx).1.updateOverruns = m.updateOverruns := by
  unfold flushMain
  split <;> exact ⟨rfl, rfl, rfl, rfl⟩

/-- Publishing a key (lines 207-258) writes no update-page row. -/
theorem publishKey_overruns (page : ColumnMapMainPage) (m : ColumnMapPageModifier)
    (baseIdx newest key copyStartIdx copyEndIdx mainStartIdx mainEndIdx : Nat) :
    (publishKey env page m baseIdx newest key copyStartIdx copyEndIdx mainStartIdx mainEndIdx).1.updateOverruns =
      m.updateOverruns := by
  unfold publishKey
  split
  · rfl
  · dsimp only
    split
    · rfl
    · have kept := (flushMain_budget env page (pointKey page m baseIdx newest key) mainStartIdx mainEndIdx).2.2.2
      rcases flushed : flushMain env page (pointKey page m baseIdx newest key) mainStartIdx mainEndIdx with
        ⟨m₁, mainStartIdx₁, mainEndIdx₁⟩
      rw [flushed] at kept
      dsimp only
      split <;> exact kept

/-- Copying and publishing a key (lines 153-258) writes no update-page row, and a key that
finishes leaves `mFillSize` within `MAX_DATA_SIZE`. -/
theorem copyAndPublish_budget (page : ColumnMapMainPage) (m : ColumnMapPageModifier)
    (baseIdx newest copyStartIdx : Nat) (wasDelete : Bool) (mainStartIdx mainEndIdx : Nat)
    (fits : m.fillSize ≤ env.context.maxDataSize) :
    Spares env.context m
      (copyAndPublish env page m baseIdx newest copyStartIdx wasDelete mainStartIdx mainEndIdx).modifier ∧
    ∀ m' i' mainStartIdx' mainEndIdx',
      copyAndPublish env page m baseIdx newest copyStartIdx wasDelete mainStartIdx mainEndIdx =
        .next m' i' mainStartIdx' mainEndIdx' → m'.fillSize ≤ env.context.maxDataSize := by
  unfold copyAndPublish
  dsimp only
  split
  · rename_i m₁ overflow
    exact ⟨.of_frame
      ((flushMain_frame env page m₁ _ _).2.trans (copyMain_frame env page _ _ _ _ _ _ _ _ overflow).2.1)
      ((flushMain_budget env page m₁ _ _).2.2.2.trans (copyMain_budget env page _ _ _ _ _ _ _ _ overflow).1),
      nofun⟩
  · rename_i m₁ i copyEndIdx wasDelete' finished
    have copied := copyMain_budget env page _ _ _ _ _ _ _ _ finished
    refine ⟨.of_frame ((publishKey_frame env page _ _ _ _ _ _ _ _).2.trans
      (copyMain_frame env page _ _ _ _ _ _ _ _ finished).2.1) ((publishKey_overruns env page _ _ _ _ _ _ _ _).trans
      copied.1), fun m' _ _ _ next => ?_⟩
    cases next
    exact (publishKey_frame env page _ _ _ _ _ _ _ _).1.trans_le (copied.2 fits m₁ i copyEndIdx wasDelete' rfl)

/-- A pass over a key from `START` (lines 81-258) spares the update page beyond the budget,
also when it overflows, and a key that finishes leaves `mFillSize` within `MAX_DATA_SIZE`. -/
theorem cleanKey_budget (page : ColumnMapMainPage) (m : ColumnMapPageModifier) (i mainStartIdx mainEndIdx : Nat)
    (fits : m.fillSize ≤ env.context.maxDataSize) (room : Room env.context m false) :
    Spares env.context m (cleanKey env page m i mainStartIdx mainEndIdx).modifier ∧
    ∀ m' i' mainStartIdx' mainEndIdx', cleanKey env page m i mainStartIdx mainEndIdx =
      .next m' i' mainStartIdx' mainEndIdx' → m'.fillSize ≤ env.context.maxDataSize := by
  unfold cleanKey
  dsimp only
  split
  · obtain ⟨size, index, same, overruns⟩ := flushMain_budget env page m mainStartIdx mainEndIdx
    have flushed : Spares env.context m (flushMain env page m mainStartIdx mainEndIdx).1 := .of_frame same overruns
    have fits₁ := size ▸ fits
    have room₁ := room.congr index size
    split
    · rename_i m₁ overflow
      obtain ⟨-, -, same₁, overruns₁⟩ := flushMain_budget env page m₁ _ _
      exact ⟨(flushed.trans (processUpdatesLoop_budget env _ _ _ _ _ overflow fits₁ room₁).1).trans
        (.of_frame same₁ overruns₁), nofun⟩
    · rename_i m₁ lowest wasDelete done
      obtain ⟨spares, finished⟩ := processUpdatesLoop_budget env _ _ _ _ _ done fits₁ room₁
      obtain ⟨fits₂, -⟩ := finished _ _ _ rfl
      split
      · refine ⟨?_, fun m' _ _ _ next => ?_⟩
        · dsimp only [KeyOutcome.modifier]
          split <;> exact (flushed.trans spares).trans (.of_frame rfl rfl)
        · cases next
          split <;> exact fits₂
      · obtain ⟨copied, fits₃⟩ := copyAndPublish_budget env page m₁ _ _ _ wasDelete _ _ fits₂
        exact ⟨(flushed.trans spares).trans copied, fits₃⟩
  · exact copyAndPublish_budget env page m i _ i false mainStartIdx mainEndIdx fits

/-- Lines 306-313: a record is invalidated or published, with no row written. -/
theorem finishAppend_frame (m : ColumnMapPageModifier) (record : InsertRecord) :
    (finishAppend m record).modifier.updatePage = m.updatePage ∧
      (finishAppend m record).modifier.updateOverruns = m.updateOverruns ∧
      (finishAppend m record).modifier.fillSize = m.fillSize := by
  unfold finishAppend
  split <;> exact ⟨rfl, rfl, rfl⟩

/-- The insert's own row (lines 315-338) is written within the budget. -/
theorem writeInsertRow_budget (m : ColumnMapPageModifier) (record : InsertRecord)
    {publish : ColumnMapPageModifier → AppendOutcome}
    (publishes : ∀ m, (publish m).modifier.updatePage = m.updatePage ∧
      (publish m).modifier.updateOverruns = m.updateOverruns ∧ (publish m).modifier.fillSize = m.fillSize)
    (room : m.updateIdx * env.context.entryOverhead ≤ m.fillSize) :
    Spares env.context m (writeInsertRow env m record publish).modifier ∧
    ∀ m' kept, writeInsertRow env m record publish = .done m' kept → m'.fillSize ≤ env.context.maxDataSize := by
  unfold writeInsertRow
  dsimp only
  split
  · exact ⟨.of_frame rfl rfl, nofun⟩
  · rename_i within
    have written := publishes (writeInsert env.context
      { m with fillSize := m.fillSize + (env.context.entryOverhead + record.tuple.size) } record)
    have spares : Spares env.context m (writeInsert env.context
        { m with fillSize := m.fillSize + (env.context.entryOverhead + record.tuple.size) } record) :=
      .write (fun beyond => not_beyond room (Nat.le_add_right _ _) within beyond rfl) rfl rfl
    refine ⟨spares.trans (.of_frame written.1 written.2.1), fun m' kept done => ?_⟩
    rw [done] at written
    exact written.2.2.trans_le (Nat.le_of_not_lt within)

/-- A pass of `append` (lines 272-340) spares the update page beyond the budget, also when it
overflows, and one that finishes leaves `mFillSize` within `MAX_DATA_SIZE`. -/
theorem appendAttempt_budget (m : ColumnMapPageModifier) (record : InsertRecord)
    (fits : m.fillSize ≤ env.context.maxDataSize) (room : Room env.context m false) :
    Spares env.context m (appendAttempt env m record).modifier ∧
    ∀ m' kept, appendAttempt env m record = .done m' kept → m'.fillSize ≤ env.context.maxDataSize := by
  unfold appendAttempt
  split
  · split
    · rename_i m₁ overflow
      exact ⟨(processUpdatesLoop_budget env _ _ _ _ _ overflow fits room).1, nofun⟩
    · rename_i m₁ lowest wasDelete done
      obtain ⟨spares, finished⟩ := processUpdatesLoop_budget env _ _ _ _ _ done fits room
      obtain ⟨fits₁, room₁⟩ := finished _ _ _ rfl
      split
      · have framed := finishAppend_frame { m₁ with
          fillSize := m₁.fillSize - (env.context.entryOverhead + env.context.fixedSize)
          fillIdx := m₁.fillIdx - 1
          updateIdx := m₁.updateIdx - 1 } record
        refine ⟨spares.trans (.of_frame framed.1 framed.2.1), fun m' kept done => ?_⟩
        rw [done] at framed
        exact framed.2.2.trans_le (Nat.le_trans (Nat.sub_le _ _) fits₁)
      · split
        · obtain ⟨spares', fits'⟩ :=
            writeInsertRow_budget env m₁ record (finishAppend_frame · record) room₁.updateIdx
          exact ⟨spares.trans spares', fits'⟩
        · have framed := finishAppend_frame m₁ record
          refine ⟨spares.trans (.of_frame framed.1 framed.2.1), fun m' kept done => ?_⟩
          rw [done] at framed
          exact framed.2.2.trans_le fits₁
  · exact writeInsertRow_budget env m record (fun _ => ⟨rfl, rfl, rfl⟩) room.updateIdx

/-- `flush` starts an empty fill page and resets the update page, or leaves it as it was. -/
theorem flush_budget (m : ColumnMapPageModifier) :
    (flush m).fillSize = 0 ∧ (flush m).updateOverruns = m.updateOverruns ∧
      ((flush m).updatePage = (fun _ => default) ∨ (flush m).updatePage = m.updatePage) := by
  unfold flush
  dsimp only
  split
  · exact ⟨rfl, rfl, .inl rfl⟩
  · exact ⟨rfl, rfl, .inr rfl⟩

end Pass


section Run

variable (env : ModifierEnv)

/-- A page a run publishes within the budget: an input page returned as it was, or a fill
page lined up with sources from the input whose costs sum to at most `MAX_DATA_SIZE`. -/
def Within (calls : List ModifierCall) (page : ColumnMapMainPage) : Prop :=
  ModifierCall.clean page ∈ calls ∨
    ∃ sources, (∀ x ∈ sources, RowSource.Of env calls x) ∧ LinesUp env.context page sources ∧
      (sources.map (RowSource.cost env.context)).sum ≤ env.context.maxDataSize

/-- The budget at `START`, with the pending main range `pendingMain`, and between calls, with
none: the lazy copy lines up with sources from the input whose costs sum to `mFillSize`,
which is at most `MAX_DATA_SIZE`; no update-page row beyond the budget has been written since
the page was allocated or last reset; every row past the page's capacity that a write used was
within the budget; and every page published so far is `Within`. -/
structure Budgeted (calls : List ModifierCall) (m : ColumnMapPageModifier)
    (pendingMain : List (ActionPage × Nat)) : Prop where
  atStart : AtStart m
  lined : ∃ sources, (∀ x ∈ sources, RowSource.Of env calls x) ∧ Lined env.context m pendingMain sources ∧
    m.fillSize = (sources.map (RowSource.cost env.context)).sum
  fits : m.fillSize ≤ env.context.maxDataSize
  spare : ∀ k, Beyond env.context k → m.updatePage k = default
  overruns : OverrunsWithin env.context m
  published : ∀ page ∈ m.pageList, Within env calls page

variable {env} {calls : List ModifierCall} {m m' : ColumnMapPageModifier} {pendingMain : List (ActionPage × Nat)}

/-- At `START` the update page holds one row per chain entry or insert lined up, each costing
at least the entry overhead, so `mUpdateIdx` overheads fit in `mFillSize`. -/
theorem Budgeted.room (budgeted : Budgeted env calls m pendingMain) :
    m.updateIdx * env.context.entryOverhead ≤ m.fillSize := by
  obtain ⟨sources, -, lined, size⟩ := budgeted.lined
  have rows := lined.updateRows.length_eq
  rw [List.length_map, List.length_range] at rows
  calc m.updateIdx * env.context.entryOverhead
      = (sources.filter RowSource.onUpdatePage).length * env.context.entryOverhead := by
        rw [budgeted.atStart.updateIdx, rows]
    _ ≤ sources.length * env.context.entryOverhead := Nat.mul_le_mul_right _ (List.length_filter_le _ _)
    _ ≤ (sources.map (RowSource.cost env.context)).sum := overhead_le_sum sources
    _ = m.fillSize := size.symm

/-- Flushing a state lined up with sources whose costs fit, nothing pending in main, starts an
empty fill page within the budget. -/
theorem flush_budgeted {sources : List RowSource} (ofCalls : ∀ x ∈ sources, RowSource.Of env calls x)
    (lined : Lined env.context m [] sources) (written : m.updateEndIdx ≤ m.updateIdx)
    (fits : (sources.map (RowSource.cost env.context)).sum ≤ env.context.maxDataSize)
    (spare : ∀ k, Beyond env.context k → m.updatePage k = default) (overruns : OverrunsWithin env.context m)
    (published : ∀ page ∈ m.pageList, Within env calls page) :
    Budgeted env calls (flush m) [] := by
  obtain ⟨⟨page, pages, linesUp⟩, -, flushed⟩ := flush_lined lined written
  obtain ⟨empty, same, reset⟩ := flush_budget m
  refine ⟨(flush_atStart written).1, ⟨[], nofun, flushed, empty⟩, empty ▸ Nat.zero_le _, fun k beyond => ?_,
    fun k mem => overruns k (same ▸ mem), pages ▸ List.forall_mem_append.mpr
      ⟨published, List.forall_mem_singleton.mpr (.inr ⟨sources, ofCalls, linesUp, fits⟩)⟩⟩
  rcases reset with fresh | same
  · rw [fresh]
  · rw [same]
    exact spare k beyond

namespace Budgeted

variable {page : ColumnMapMainPage} {i mainStartIdx mainEndIdx mainStartIdx' mainEndIdx' : Nat}

/-- An overflowing pass over a key, then the flush: the fill page published holds the rows
committed before the pass, whose costs were `mFillSize` at `START`. -/
theorem restart (budgeted : Budgeted env calls m ((ActionPage.main page).span mainStartIdx mainEndIdx))
    (ordered : mainStartIdx ≤ mainEndIdx)
    (restart : cleanKey env page m i mainStartIdx mainEndIdx = .restart m' mainStartIdx' mainEndIdx') :
    mainStartIdx' ≤ mainEndIdx' ∧
      Budgeted env calls (flush m') ((ActionPage.main page).span mainStartIdx' mainEndIdx') := by
  have room := budgeted.room
  obtain ⟨start, ⟨sources, ofCalls, lined, size⟩, fits, spare, overruns, published⟩ := budgeted
  obtain ⟨lined', same⟩ := cleanKey_restart_lined env page start lined ordered restart
  obtain ⟨-, kept, -, index⟩ := cleanKey_restart_bound env page restart
  have spared := (cleanKey_budget env page m i mainStartIdx mainEndIdx fits (.of_updateIdx room)).1
  rw [restart] at spared
  have written : m'.updateEndIdx ≤ m'.updateIdx := by
    have := kept.updateEndIdx
    have := start.updateIdx
    omega
  rw [same, ActionPage.span_self]
  exact ⟨le_rfl, flush_budgeted ofCalls lined' written (size ▸ fits)
    (fun k beyond => (spared.1 k beyond).trans (spare k beyond)) (overruns.spared spared) (kept.pageList ▸ published)⟩

/-- A pass over a key that finishes adds what the rows it commits cost, within the budget. -/
theorem next {i' : Nat} (called : ModifierCall.clean page ∈ calls)
    (budgeted : Budgeted env calls m ((ActionPage.main page).span mainStartIdx mainEndIdx))
    (ordered : mainStartIdx ≤ mainEndIdx) (inside : i < page.count)
    (next : cleanKey env page m i mainStartIdx mainEndIdx = .next m' i' mainStartIdx' mainEndIdx') :
    mainStartIdx' ≤ mainEndIdx' ∧
      Budgeted env calls m' ((ActionPage.main page).span mainStartIdx' mainEndIdx') := by
  have room := budgeted.room
  obtain ⟨start, ⟨sources, ofCalls, lined, size⟩, fits, spare, overruns, published⟩ := budgeted
  obtain ⟨items, fromCall, lined', ordered', size'⟩ := cleanKey_lined env page start lined ordered inside next
  obtain ⟨start', -, -, -, committed⟩ := cleanKey_next env page start inside next
  obtain ⟨spared, fits'⟩ := cleanKey_budget env page m i mainStartIdx mainEndIdx fits (.of_updateIdx room)
  rw [next] at spared
  refine ⟨ordered', start', ⟨_, RowSource.of_append called ofCalls fromCall, lined', ?_⟩, fits' _ _ _ _ next,
    fun k beyond => (spared.1 k beyond).trans (spare k beyond), overruns.spared spared, committed.pageList ▸ published⟩
  rw [size', size, List.map_append, List.sum_append]

/-- A page that needs no cleaning joins the page list as it is. -/
theorem untouched (called : ModifierCall.clean page ∈ calls) (budgeted : Budgeted env calls m []) :
    Budgeted env calls { m with pageList := m.pageList ++ [page] } [] := by
  obtain ⟨start, ⟨sources, ofCalls, lined, size⟩, fits, spare, overruns, published⟩ := budgeted
  exact ⟨⟨start.1, start.2, start.3, start.4⟩, ⟨sources, ofCalls, lined.keep rfl rfl rfl rfl rfl, size⟩, fits,
    spare, overruns, List.forall_mem_append.mpr ⟨published, List.forall_mem_singleton.mpr (.inl called)⟩⟩

/-- Enqueueing the last pending main range keeps the budget. -/
theorem finished (budgeted : Budgeted env calls m ((ActionPage.main page).span mainStartIdx mainEndIdx))
    (ordered : mainStartIdx ≤ mainEndIdx) : Budgeted env calls (flushMain env page m mainStartIdx mainEndIdx).1 [] := by
  obtain ⟨start, ⟨sources, ofCalls, lined, size⟩, fits, spare, overruns, published⟩ := budgeted
  obtain ⟨size', -, same, same'⟩ := flushMain_budget env page m mainStartIdx mainEndIdx
  exact ⟨start.unwritten (flushMain_unwritten env page m mainStartIdx mainEndIdx),
    ⟨sources, ofCalls, (flushMain_lined env page lined ordered).1, size'.trans size⟩, size' ▸ fits,
    same ▸ spare, overruns.spared (.of_frame same same'),
    (flushMain_written env page m mainStartIdx mainEndIdx).kept.pageList ▸ published⟩

/-- A pass of `append` that finishes adds what the rows it commits cost, within the budget. -/
theorem appended {record : InsertRecord} {kept : Bool} (called : ModifierCall.append record ∈ calls)
    (budgeted : Budgeted env calls m []) (done : appendAttempt env m record = .done m' kept) :
    Budgeted env calls m' [] := by
  have room := budgeted.room
  obtain ⟨start, ⟨sources, ofCalls, lined, size⟩, fits, spare, overruns, published⟩ := budgeted
  obtain ⟨items, fromCall, lined', size'⟩ := appendAttempt_lined env record start lined done
  obtain ⟨start', committed⟩ := appendAttempt_done env start done
  obtain ⟨spared, fits'⟩ := appendAttempt_budget env m record fits (.of_updateIdx room)
  rw [done] at spared
  refine ⟨start', ⟨_, RowSource.of_append called ofCalls fromCall, lined', ?_⟩, fits' _ _ done,
    fun k beyond => (spared.1 k beyond).trans (spare k beyond), overruns.spared spared, committed.pageList ▸ published⟩
  rw [size', size, List.map_append, List.sum_append]

/-- An overflowing pass of `append`, then the flush: the record starts again within the
budget. -/
theorem appendRestart {record : InsertRecord} (budgeted : Budgeted env calls m [])
    (restart : appendAttempt env m record = .restart m') : Budgeted env calls (flush m') [] := by
  have room := budgeted.room
  obtain ⟨start, ⟨sources, ofCalls, lined, size⟩, fits, spare, overruns, published⟩ := budgeted
  obtain ⟨-, kept, -, index⟩ := appendAttempt_restart_bound env restart
  have spared := (appendAttempt_budget env m record fits (.of_updateIdx room)).1
  rw [restart] at spared
  have written : m'.updateEndIdx ≤ m'.updateIdx := by
    have := kept.updateEndIdx
    have := start.updateIdx
    omega
  exact flush_budgeted ofCalls (appendAttempt_restart_lined env record start lined restart) written (size ▸ fits)
    (fun k beyond => (spared.1 k beyond).trans (spare k beyond)) (overruns.spared spared) (kept.pageList ▸ published)

theorem preserved : Preserved env calls (Budgeted env calls) where
  restart _ budgeted ordered restart := Budgeted.restart budgeted ordered restart
  next called budgeted ordered inside next := Budgeted.next called budgeted ordered inside next
  untouched called budgeted := Budgeted.untouched called budgeted
  finished _ budgeted ordered := Budgeted.finished budgeted ordered
  appended called budgeted done := Budgeted.appended called budgeted done
  appendRestart _ budgeted restart := Budgeted.appendRestart budgeted restart

end Budgeted

/-- A fresh modifier is within the budget. -/
theorem init_budgeted (firstPage : Nat) : Budgeted env calls (init firstPage) [] :=
  ⟨init_atStart firstPage, ⟨[], nofun, ⟨rfl, rfl, .nil, .inl rfl, nofun⟩, rfl⟩, Nat.zero_le _, fun _ _ => rfl, nofun,
    nofun⟩

/-- `done` within the budget publishes the fill page, if it holds a row, within the budget, and
leaves the update page and the rows used past its capacity as they were. -/
theorem done_within (budgeted : Budgeted env calls m []) :
    (done m).1.updatePage = m.updatePage ∧ (done m).1.updateOverruns = m.updateOverruns ∧
      ∀ page ∈ (done m).2, Within env calls page := by
  obtain ⟨-, ⟨sources, ofCalls, lined, size⟩, fits, -, -, published⟩ := budgeted
  unfold done
  split
  · obtain ⟨page, pages, linesUp, -⟩ := flushFillPage_linesUp lined
    refine ⟨rfl, rfl, ?_⟩
    dsimp only
    exact pages ▸ List.forall_mem_append.mpr
      ⟨published, List.forall_mem_singleton.mpr (.inr ⟨sources, ofCalls, linesUp, size ▸ fits⟩)⟩
  · exact ⟨rfl, rfl, published⟩

end Run

/-- In every modifier run, at each `START` of `clean` (line 81) `mFillSize` is at most
`MAX_DATA_SIZE` and is what the rows lined up so far cost, for sources from the input that the
lazy copy lines up with; and every page the run returns is an input page returned as it was,
or a fill page whose rows line up with sources from the input whose costs sum to at most
`MAX_DATA_SIZE`. -/
theorem compact_fill_within_budget (env : ModifierEnv) (fuel firstPage : Nat) (calls : List ModifierCall) :
    (∀ p ∈ runStarts env fuel (init firstPage) calls, p.modifier.fillSize ≤ env.context.maxDataSize ∧
      ∃ sources, (∀ x ∈ sources, RowSource.Of env calls x) ∧
        Lined env.context p.modifier p.pendingMain sources ∧
        p.modifier.fillSize = (sources.map (RowSource.cost env.context)).sum) ∧
    ∀ m pages, compact env fuel firstPage calls = some (m, pages) → ∀ page ∈ pages, Within env calls page := by
  obtain ⟨starts, finished⟩ :=
    Budgeted.preserved.calls_hold fuel calls (init firstPage) (fun _ => id) (init_budgeted firstPage)
  refine ⟨fun p mem => ⟨(starts p mem).2.fits, (starts p mem).2.lined⟩, fun m pages run => ?_⟩
  obtain ⟨⟨m₁, answers⟩, called, finish⟩ := Option.map_eq_some'.mp run
  have published := (done_within (finished _ called)).2.2
  simp only at finish
  rwa [finish] at published

/-- When `MAX_DATA_SIZE` holds at most `fixedSizeCapacity()` entry overheads, no write of a
modifier run, `writeUpdate` or `writeInsert`, uses an update-page row past the
`fixedSizeCapacity()` rows the page is allocated with: at each `START` of `clean`
`mUpdateIdx` is at most the capacity and no write so far has used a row past it, and so when
the run finishes, whose update page still holds what it was allocated with past the capacity. -/
theorem compact_writes_within_capacity (env : ModifierEnv) (fuel firstPage : Nat)
    (calls : List ModifierCall) (overhead : 0 < env.context.entryOverhead)
    (capacity : env.context.maxDataSize / env.context.entryOverhead ≤ env.context.fixedSizeCapacity) :
    (∀ p ∈ runStarts env fuel (init firstPage) calls, p.modifier.updateIdx ≤ env.context.fixedSizeCapacity ∧
      p.modifier.updateOverruns = []) ∧
    ∀ m pages, compact env fuel firstPage calls = some (m, pages) →
      m.updateOverruns = [] ∧ ∀ k, env.context.fixedSizeCapacity ≤ k → m.updatePage k = default := by
  have beyond : ∀ k, env.context.fixedSizeCapacity ≤ k → Beyond env.context k := fun k above =>
    (Nat.div_lt_iff_lt_mul overhead).mp (Nat.lt_succ_of_le (capacity.trans above))
  have none : ∀ m : ColumnMapPageModifier, OverrunsWithin env.context m → m.updateOverruns = [] :=
    fun m within => List.eq_nil_iff_forall_not_mem.mpr fun k mem =>
      (within k mem).2 (beyond k (within k mem).1)
  obtain ⟨starts, finished⟩ :=
    Budgeted.preserved.calls_hold fuel calls (init firstPage) (fun _ => id) (init_budgeted firstPage)
  refine ⟨fun p mem => ⟨?_, none _ (starts p mem).2.overruns⟩, fun m pages run => ?_⟩
  · have room := (starts p mem).2.room
    have fits := (starts p mem).2.fits
    exact (Nat.le_div_iff_mul_le overhead).mpr (room.trans fits) |>.trans capacity
  · obtain ⟨⟨m₁, answers⟩, called, finish⟩ := Option.map_eq_some'.mp run
    have budgeted := finished _ called
    simp only at finish
    obtain ⟨page, overruns, -⟩ := done_within budgeted
    rw [congrArg Prod.fst finish] at page overruns
    exact ⟨overruns ▸ none _ budgeted.overruns,
      fun k above => page ▸ budgeted.spare k (beyond k above)⟩

/-- The witness: a context whose `MAX_DATA_SIZE` of 4000 bytes holds exactly 250 entry
overheads of 16 bytes, the update page's capacity, and a run that cleans a page whose key has an
update of 30 bytes and then appends an insert, writing update-page rows 0 and 1. -/
theorem compact_writes_within_capacity_update_and_insert :
    (0 < 16 ∧ 4000 / 16 ≤ 250) ∧
    (runCalls ⟨⟨16, 8, 0, 250, 4000⟩, 10,
        ⟨fun newest _ => if newest = 7 then [⟨1, 30, .data, ⟨16, [], 5⟩⟩] else []⟩⟩ 9 (init 200)
        [.clean ⟨100, [⟨1, 20, 7⟩], [⟨16, 1, []⟩], 0⟩, .append ⟨500, 2, 0, ⟨16, [], 6⟩, 0⟩]).map
      (·.1.updateIdx) = some 2 ∧
    ((∀ p ∈ runStarts ⟨⟨16, 8, 0, 250, 4000⟩, 10,
        ⟨fun newest _ => if newest = 7 then [⟨1, 30, .data, ⟨16, [], 5⟩⟩] else []⟩⟩ 9 (init 200)
        [.clean ⟨100, [⟨1, 20, 7⟩], [⟨16, 1, []⟩], 0⟩, .append ⟨500, 2, 0, ⟨16, [], 6⟩, 0⟩],
        p.modifier.updateIdx ≤ 250 ∧ p.modifier.updateOverruns = []) ∧
    ∀ m pages, compact ⟨⟨16, 8, 0, 250, 4000⟩, 10,
        ⟨fun newest _ => if newest = 7 then [⟨1, 30, .data, ⟨16, [], 5⟩⟩] else []⟩⟩ 9 200
        [.clean ⟨100, [⟨1, 20, 7⟩], [⟨16, 1, []⟩], 0⟩, .append ⟨500, 2, 0, ⟨16, [], 6⟩, 0⟩] =
          some (m, pages) →
      m.updateOverruns = [] ∧ ∀ k, 250 ≤ k → m.updatePage k = default) :=
  ⟨by decide, by decide, compact_writes_within_capacity ⟨⟨16, 8, 0, 250, 4000⟩, 10,
      ⟨fun newest _ => if newest = 7 then [⟨1, 30, .data, ⟨16, [], 5⟩⟩] else []⟩⟩ 9 200
    [.clean ⟨100, [⟨1, 20, 7⟩], [⟨16, 1, []⟩], 0⟩, .append ⟨500, 2, 0, ⟨16, [], 6⟩, 0⟩]
    (by decide) (by decide)⟩

end Tellstore.Deltamain.ColumnMap
