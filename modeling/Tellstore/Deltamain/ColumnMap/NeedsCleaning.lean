import Tellstore.Deltamain.ColumnMap.Page

/-!
# `needsCleaning`: which pages compaction rewrites

`ColumnMapPageModifier::needsCleaning` (ColumnMapPage.cpp:353-377) walks the page key by
key. At the first row of a key it answers `true` when the newest word is set, and `false`
when the key has a single row; otherwise it scans the key's other rows and answers `true`
at the first one below `mMinVersion`. `clean` keeps a page for which it answers `false`
unchanged (ColumnMapPage.cpp:68-71).

The early `return false` at a single-row key ends the walk for the whole page: the rows
after it are never looked at. A page whose first key is a clean single row and whose
second key has pending updates is passed through unchanged. What the answer `true` promises
does hold (`HasDirty`).
-/

set_option autoImplicit false

namespace Tellstore.Deltamain.ColumnMap

/-- The walk of `needsCleaning` from some row on. `scanning = some k` while the inner
loop skips the rows of key `k` after its first; a row of another key is the first row of
the next key. -/
def needsCleaningScan (minVersion : Nat) (scanning : Option Nat) :
    List ColumnMapMainEntry → Bool
  | [] => false
  | e :: rest =>
    if scanning = some e.key then
      if e.version < minVersion then true else needsCleaningScan minVersion scanning rest
    else if e.newest ≠ 0 then true
    else if rest.head?.map (·.key) ≠ some e.key then false
    else needsCleaningScan minVersion (some e.key) rest

/-- `ColumnMapPageModifier::needsCleaning`. -/
def needsCleaning (minVersion : Nat) (page : ColumnMapMainPage) : Bool :=
  needsCleaningScan minVersion none page.entries

/-- Row `e` is where compaction has work: the first row of its key with a pending update
chain, or a later row of its key below the low-water mark. -/
def Dirty (minVersion : Nat) (previous : Option ColumnMapMainEntry) (e : ColumnMapMainEntry) :
    Prop :=
  (previous.map (·.key) ≠ some e.key ∧ e.newest ≠ 0) ∨
    (previous.map (·.key) = some e.key ∧ e.version < minVersion)

/-- Some row of `rows` is dirty, `previous` being the row before the first. -/
def HasDirty (minVersion : Nat) : Option ColumnMapMainEntry → List ColumnMapMainEntry → Prop
  | _, [] => False
  | previous, e :: rest => Dirty minVersion previous e ∨ HasDirty minVersion (some e) rest

private theorem scan_sound (minVersion : Nat) :
    ∀ (rows : List ColumnMapMainEntry) (previous : Option ColumnMapMainEntry),
      needsCleaningScan minVersion (previous.map (·.key)) rows = true →
      HasDirty minVersion previous rows
  | [], _, answer => by simp [needsCleaningScan] at answer
  | e :: rest, previous, answer => by
    unfold needsCleaningScan at answer
    by_cases same : previous.map (·.key) = some e.key
    · simp only [if_pos same] at answer
      by_cases below : e.version < minVersion
      · exact .inl (.inr ⟨same, below⟩)
      · simp only [if_neg below] at answer
        refine .inr (scan_sound minVersion rest (some e) ?_)
        simpa [← same] using answer
    · simp only [if_neg same] at answer
      by_cases pending : e.newest ≠ 0
      · exact .inl (.inl ⟨same, pending⟩)
      · simp only [if_neg pending] at answer
        split at answer
        · cases answer
        · exact .inr (scan_sound minVersion rest (some e) answer)

/-- When `needsCleaning` answers `true` the page has a key with a pending update chain
or a purgeable version. -/
theorem needsCleaning_sound (minVersion : Nat) (page : ColumnMapMainPage)
    (answer : needsCleaning minVersion page = true) : HasDirty minVersion none page.entries :=
  scan_sound minVersion page.entries none answer

/-- Low-water mark 10, two keys of two rows each and no pending chain: key 1's rows are at
versions 20 and 15, key 2's at 30 and 5. The answer is `true` because of key 2's older row,
and that row is the dirty one. -/
theorem needsCleaning_sound_later_row :
    needsCleaning 10 ⟨0, [⟨1, 20, 0⟩, ⟨1, 15, 0⟩, ⟨2, 30, 0⟩, ⟨2, 5, 0⟩],
      [⟨8, 0, []⟩, ⟨8, 1, []⟩, ⟨8, 2, []⟩, ⟨8, 3, []⟩], 0⟩ = true ∧
    HasDirty 10 none [⟨1, 20, 0⟩, ⟨1, 15, 0⟩, ⟨2, 30, 0⟩, ⟨2, 5, 0⟩] :=
  ⟨by decide, needsCleaning_sound 10 ⟨0, [⟨1, 20, 0⟩, ⟨1, 15, 0⟩, ⟨2, 30, 0⟩, ⟨2, 5, 0⟩],
    [⟨8, 0, []⟩, ⟨8, 1, []⟩, ⟨8, 2, []⟩, ⟨8, 3, []⟩], 0⟩ (by decide)⟩

example : ¬Dirty 10 none ⟨1, 20, 0⟩ ∧ ¬Dirty 10 (some ⟨1, 20, 0⟩) ⟨1, 15, 0⟩ ∧
    ¬Dirty 10 (some ⟨1, 15, 0⟩) ⟨2, 30, 0⟩ ∧ Dirty 10 (some ⟨2, 30, 0⟩) ⟨2, 5, 0⟩ := by
  unfold Dirty
  decide

/-- A clean single-row key 1, then key 2 with a pending update chain (newest word 9):
`needsCleaning` answers `false` for every low-water mark, so `clean` passes the page
through with key 2's updates still pending. -/
theorem needsCleaning_skips_later_keys (minVersion : Nat) :
    needsCleaning minVersion ⟨0, [⟨1, 5, 0⟩, ⟨2, 3, 9⟩], [⟨8, 0, []⟩, ⟨8, 1, []⟩], 0⟩ = false ∧
      HasDirty minVersion none [⟨1, 5, 0⟩, ⟨2, 3, 9⟩] := by
  refine ⟨by simp [needsCleaning, needsCleaningScan], ?_⟩
  exact .inr (.inl (.inl ⟨by simp, by simp⟩))

end Tellstore.Deltamain.ColumnMap
