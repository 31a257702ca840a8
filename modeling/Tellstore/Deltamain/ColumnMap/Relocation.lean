import Tellstore.Deltamain.ColumnMap.Clean

/-!
# Heap-offset relocation

`addCleanAction` (ColumnMapPage.cpp:379-404) copies the heap bytes of rows
`[startIdx, endIdx)` of a source page onto the fill heap and records
`offsetCorrection = (fill heap bytes after the copy) - beginOffset`; `flushFillPage`
(lines 606-628) moves each heap entry of those rows by it and asserts that the result
is positive.

On a page whose field-0 offsets are cumulative, the moved offset of row `r` is exactly
the fill heap level before the copy plus the variable-size bytes of rows
`startIdx..r`, the sum telescoping by `heapBytesFrom_eq`. It is therefore zero for a
tombstone copied first onto an empty fill heap, and the assertion fires on such a
page, which `clean` really produces: key 1's only row is invalidated, key 2 starts
with a tombstone and is the first key written to the fill page.
-/

set_option autoImplicit false

namespace Tellstore.Deltamain.ColumnMap

/-- Row `r`'s variable-size bytes: the step of the field-0 offsets at `r`, the row
before the first counting as offset zero. -/
def heapBytes (page : ColumnMapMainPage) (r : Nat) : Nat :=
  heapOffset page r - if r = 0 then 0 else heapOffset page (r - 1)

/-- Field-0 offsets that grow with the row index, as heap bytes are laid down row after
row from the heap's top. -/
def HeapCumulative (page : ColumnMapMainPage) : Prop :=
  ∀ r, 0 < r → r < page.count → heapOffset page (r - 1) ≤ heapOffset page r

/-- The offset of the row before `r`, zero before the first row. -/
def offsetBefore (page : ColumnMapMainPage) (r : Nat) : Nat :=
  if r = 0 then 0 else heapOffset page (r - 1)

/-- The variable-size bytes of rows `startIdx .. startIdx + n - 1`. -/
def heapBytesFrom (page : ColumnMapMainPage) (startIdx n : Nat) : Nat :=
  ((List.range n).map fun j => heapBytes page (startIdx + j)).sum

/-- Summing the steps of cumulative offsets telescopes. -/
theorem heapBytesFrom_eq (page : ColumnMapMainPage) (cumulative : HeapCumulative page)
    (startIdx n : Nat) (fits : startIdx + n ≤ page.count) :
    offsetBefore page startIdx + heapBytesFrom page startIdx n =
      offsetBefore page (startIdx + n) := by
  induction n with
  | zero => simp [heapBytesFrom]
  | succ n ih =>
    have step : offsetBefore page (startIdx + n) ≤ heapOffset page (startIdx + n) := by
      unfold offsetBefore
      split
      · exact Nat.zero_le _
      · have := cumulative (startIdx + n) (by omega) (by omega)
        simpa using this
    have bytes : heapBytes page (startIdx + n) =
        heapOffset page (startIdx + n) - offsetBefore page (startIdx + n) := rfl
    calc offsetBefore page startIdx + heapBytesFrom page startIdx (n + 1)
        = (offsetBefore page startIdx + heapBytesFrom page startIdx n) +
            heapBytes page (startIdx + n) := by
          simp [heapBytesFrom, List.range_succ, List.sum_append, Nat.add_assoc]
      _ = heapOffset page (startIdx + n) := by rw [ih (by omega), bytes]; omega
      _ = offsetBefore page (startIdx + (n + 1)) := by simp [offsetBefore]

/-- Relocation is exact: for every page with cumulative field-0 offsets, every range
`[startIdx, endIdx)` and every fill heap level, `addCleanAction` appends one action
whose correction moves row `r`'s offset to the fill heap level plus the variable-size
bytes of rows `startIdx..r`, and grows the fill heap by the bytes of the range. -/
theorem addCleanAction_relocates_exactly (ctx : ColumnMapContext) (m : ColumnMapPageModifier)
    (page : ColumnMapMainPage) (startIdx endIdx : Nat) (vars : ctx.varSizeFieldCount ≠ 0)
    (cumulative : HeapCumulative page) (nonempty : startIdx < endIdx)
    (fits : endIdx ≤ page.count) :
    ∃ correction : Int,
      (addCleanAction ctx m page startIdx endIdx).cleanActions =
        m.cleanActions ++ [⟨.main page, startIdx, endIdx, correction⟩] ∧
      (addCleanAction ctx m page startIdx endIdx).fillHeap =
        m.fillHeap + heapBytesFrom page startIdx (endIdx - startIdx) ∧
      ∀ r, startIdx ≤ r → r < endIdx →
        (heapOffset page r : Int) + correction =
          (m.fillHeap + heapBytesFrom page startIdx (r + 1 - startIdx) : Nat) := by
  have whole := heapBytesFrom_eq page cumulative startIdx (endIdx - startIdx) (by omega)
  have last : offsetBefore page (startIdx + (endIdx - startIdx)) = heapOffset page (endIdx - 1) := by
    simp only [offsetBefore]
    rw [if_neg (by omega)]
    congr 1
    omega
  have first : offsetBefore page startIdx = if startIdx = 0 then 0 else heapOffset page (startIdx - 1) :=
    rfl
  refine ⟨((m.fillHeap + (heapOffset page (endIdx - 1) - offsetBefore page startIdx) : Nat) : Int) -
      (heapOffset page (endIdx - 1) : Int), by simp [addCleanAction, vars, offsetBefore], ?_, ?_⟩
  · simp only [addCleanAction, if_neg vars, ← first]
    omega
  · intro r low high
    have upto := heapBytesFrom_eq page cumulative startIdx (r + 1 - startIdx) (by omega)
    have at_r : offsetBefore page (startIdx + (r + 1 - startIdx)) = heapOffset page r := by
      simp only [offsetBefore]
      rw [if_neg (by omega)]
      congr 1
      omega
    omega

/-- Row 1 of a page whose rows hold 8 and 12 heap bytes, copied alone onto an empty fill
heap: the action's correction is -8, which moves the row's field-0 offset from 20 to 12. -/
theorem addCleanAction_relocates_second_row :
    HeapCumulative ⟨100, [⟨1, 5, 0⟩, ⟨2, 4, 0⟩], [⟨16, 1, [8]⟩, ⟨20, 2, [20]⟩], 20⟩ ∧
    ∃ correction : Int,
      (addCleanAction ⟨24, 8, 1, 100, 4000⟩ (ColumnMapPageModifier.init 0)
          ⟨100, [⟨1, 5, 0⟩, ⟨2, 4, 0⟩], [⟨16, 1, [8]⟩, ⟨20, 2, [20]⟩], 20⟩ 1 2).cleanActions =
        [⟨.main ⟨100, [⟨1, 5, 0⟩, ⟨2, 4, 0⟩], [⟨16, 1, [8]⟩, ⟨20, 2, [20]⟩], 20⟩, 1, 2, correction⟩] ∧
      correction = -8 ∧
      (heapOffset ⟨100, [⟨1, 5, 0⟩, ⟨2, 4, 0⟩], [⟨16, 1, [8]⟩, ⟨20, 2, [20]⟩], 20⟩ 1 : Int) +
        correction = 12 := by
  have cumulative : HeapCumulative ⟨100, [⟨1, 5, 0⟩, ⟨2, 4, 0⟩], [⟨16, 1, [8]⟩, ⟨20, 2, [20]⟩], 20⟩ :=
    fun r positive below => by
      simp only [ColumnMapMainPage.count, List.length_cons, List.length_nil] at below
      obtain rfl : r = 1 := by omega
      decide
  obtain ⟨correction, actions, -, moved⟩ := addCleanAction_relocates_exactly ⟨24, 8, 1, 100, 4000⟩
    (ColumnMapPageModifier.init 0) _ 1 2 (by decide) cumulative (by decide) (by decide)
  have row : (heapOffset ⟨100, [⟨1, 5, 0⟩, ⟨2, 4, 0⟩], [⟨16, 1, [8]⟩, ⟨20, 2, [20]⟩], 20⟩ 1 : Int) +
      correction = (0 + 12 : Nat) := moved 1 le_rfl (by decide)
  have offset : heapOffset ⟨100, [⟨1, 5, 0⟩, ⟨2, 4, 0⟩], [⟨16, 1, [8]⟩, ⟨20, 2, [20]⟩], 20⟩ 1 = 20 := rfl
  rw [offset] at row
  exact ⟨cumulative, correction, actions, by omega, by rw [offset]; omega⟩

/-- One variable-size field, low-water mark 13. Key 1 (one row of 8 heap bytes, with a
delete at version 8 pending) is invalidated; key 2 (a tombstone at version 20 over data
at version 15 holding 12 heap bytes) is the first key on the fresh fill page. The source
offsets are cumulative, and the tombstone's corrected offset is 0: the assertion of
line 622 fires. -/
theorem relocation_asserts_on_tombstone_at_heap_top :
    HeapCumulative ⟨100, [⟨1, 5, 7⟩, ⟨2, 20, 0⟩, ⟨2, 15, 0⟩],
      [⟨16, 1, [8]⟩, ⟨0, 0, [8]⟩, ⟨20, 2, [20]⟩], 20⟩ ∧
    (compact ⟨⟨24, 8, 1, 100, 4000⟩, 13,
        ⟨fun newest _ => if newest = 7 then [⟨1, 8, .delete, ⟨0, [], 0⟩⟩] else []⟩⟩ 10 200
      [.clean ⟨100, [⟨1, 5, 7⟩, ⟨2, 20, 0⟩, ⟨2, 15, 0⟩],
        [⟨16, 1, [8]⟩, ⟨0, 0, [8]⟩, ⟨20, 2, [20]⟩], 20⟩]).map
      (fun result => (result.2.map fun page => page.data.map (·.heapOffsets),
        result.1.failedAsserts)) =
      some ([[[0], [12]]], ["Corrected offset must be larger than 0"]) := by
  refine ⟨fun r positive below => ?_, by decide⟩
  simp only [ColumnMapMainPage.count, List.length_cons, List.length_nil] at below
  rcases r with _ | _ | _ | r
  · omega
  · decide
  · decide
  · omega

end Tellstore.Deltamain.ColumnMap
