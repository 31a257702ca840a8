import Tellstore.Deltamain.ColumnMap.Relocation

/-!
# The column-map page invariant

What `clean` assumes of a main page and what it should leave on the pages it publishes:
the rows of a key are contiguous with strictly decreasing versions, the oldest row of a
key is data, the data columns hold one row per entry, and the field-0 heap offsets grow
row by row, a tombstone occupying no heap bytes. A tombstone is a row of size zero, so
"`sizes[r] = 0` exactly for tombstones" holds by construction.

`WellFormed` is decidable, so it can be evaluated on a run's output. The assertion at
line 208 guards only its "oldest row is data" part, and that part fails: a chain whose
delete carries the version of the row it shadows makes `clean` publish the delete as the
key's only row.
-/

set_option autoImplicit false

namespace Tellstore.Deltamain.ColumnMap

/-- Row `r` is the last row of its key. -/
def ColumnMapMainPage.LastOfKey (page : ColumnMapMainPage) (r : Nat) : Prop :=
  r + 1 = page.count ∨ (page.entry (r + 1)).key ≠ (page.entry r).key

instance (page : ColumnMapMainPage) (r : Nat) : Decidable (page.LastOfKey r) :=
  inferInstanceAs (Decidable (_ ∨ _))

instance (page : ColumnMapMainPage) : Decidable (HeapCumulative page) :=
  decidable_of_iff (∀ r < page.count, 0 < r → heapOffset page (r - 1) ≤ heapOffset page r)
    ⟨fun cumulative r positive below => cumulative r below positive,
      fun cumulative r below positive => cumulative r positive below⟩

/-- The column-map page invariant. -/
structure WellFormed (page : ColumnMapMainPage) : Prop where
  data_length : page.data.length = page.count
  contiguous : ∀ r < page.count, ∀ t < page.count, r + 1 < t →
    (page.entry r).key = (page.entry t).key → (page.entry (r + 1)).key = (page.entry r).key
  decreasing : ∀ r < page.count, 0 < r → (page.entry (r - 1)).key = (page.entry r).key →
    (page.entry r).version < (page.entry (r - 1)).version
  oldest_data : ∀ r < page.count, page.LastOfKey r → (page.row r).size ≠ 0
  cumulative : HeapCumulative page
  tombstone_empty : ∀ r < page.count, (page.row r).size = 0 → heapBytes page r = 0

instance (page : ColumnMapMainPage) : Decidable (WellFormed page) :=
  decidable_of_iff (page.data.length = page.count ∧
    (∀ r < page.count, ∀ t < page.count, r + 1 < t →
      (page.entry r).key = (page.entry t).key → (page.entry (r + 1)).key = (page.entry r).key) ∧
    (∀ r < page.count, 0 < r → (page.entry (r - 1)).key = (page.entry r).key →
      (page.entry r).version < (page.entry (r - 1)).version) ∧
    (∀ r < page.count, page.LastOfKey r → (page.row r).size ≠ 0) ∧
    HeapCumulative page ∧
    (∀ r < page.count, (page.row r).size = 0 → heapBytes page r = 0))
    ⟨fun ⟨a, b, c, d, e, f⟩ => ⟨a, b, c, d, e, f⟩, fun ⟨a, b, c, d, e, f⟩ => ⟨a, b, c, d, e, f⟩⟩

/-- No variable-size field, low-water mark 10. Key 1 has one data row at version 20 and a
chain holding one delete at version 20, the same version: what a transaction leaves
when it deletes a key whose insert at its own version was already compacted. The page
is well-formed and the chain trivially decreasing; the delete shadows the row, so the
published page holds the delete alone as key 1's oldest row, and the assertion of line
208 fires. -/
theorem clean_publishes_tombstone_as_oldest_row :
    WellFormed ⟨100, [⟨1, 20, 5⟩], [⟨16, 42, []⟩], 0⟩ ∧
    (compact ⟨⟨16, 8, 0, 100, 4000⟩, 10,
        ⟨fun newest _ => if newest = 5 then [⟨1, 20, .delete, ⟨0, [], 0⟩⟩] else []⟩⟩ 10 200
      [.clean ⟨100, [⟨1, 20, 5⟩], [⟨16, 42, []⟩], 0⟩]).map
      (fun result => (result.2.map fun page =>
        (page.entries, page.data.map (·.size), decide (WellFormed page)), result.1.failedAsserts)) =
      some ([([⟨1, 20, 0⟩], [0], false)], ["Last element must not be a delete"]) := by
  decide

end Tellstore.Deltamain.ColumnMap
