import Tellstore.Deltamain.ColumnMap.Restart

/-!
# Where every key of a run ends up

A modifier run is handed keys: those of each page it cleans, at their first rows, and
that of each insert record it appends (`ModifierCall.keyRefs`). Each key it is handed
ends up in exactly one place (`KeyPlaced`): it is dropped, that is its newest word is
CAS'd to INVALID, a main-page key is removed from the index, and no returned page holds a
row of it; or it is placed, that is exactly one returned page holds rows of it, one run
from fill entry `e`, the index points at `e`, and the pointer action run when that page
was published installs `e` in its newest word. In both cases no other call of the run
concerns the key. Pages that did not need cleaning are returned as they were, every fill
entry the index or a newest word points at is on a returned page, and every returned row
is of a key of the input.

This needs distinct keys (and newest words) across the input, as a table has, and chains
whose entries are of their key. An insert record is not in the index before compaction
(`append` inserts it with `replace = false`), so a dropped insert record is invalidated
but not removed.

A key is dropped also when a delete above the low-water mark cancels against the row below
it, and a snapshot between the two versions then loses the row it reads
(`snapshotRead`, modelled from the spec, says what it reads).

The run is followed through a `Ledger`: the keys finished so far, each with where it
stands (`Fate`), related to the effects, pointer actions, published pages and committed
fill entries of the modifier. A finished pass adds its key (`Ledger.commit`), publishing
the fill page publishes the pending ones (`Ledger.publish`, after an overflow
`Ledger.restart`), writes that commit nothing leave it as it was (`Ledger.unchanged`), a
page returned unchanged is kept (`Ledger.keep`), and `done` leaves every key placed
(`Ledger.finish`).
-/

set_option autoImplicit false

namespace Tellstore.Deltamain.ColumnMap

open ColumnMapPageModifier

/-- The effect is a call about the key of `ref`: on its index entry or on its newest
word. -/
def Effect.concerns (ref : KeyRef) : Effect → Bool
  | .invalidate slot _ => slot = ref.slot
  | .remove key => key = ref.key
  | .insert key _ _ => key = ref.key
  | .installMain slot _ _ => slot = ref.slot

/-- The fill entry an index entry or a newest word is made to point at. -/
def Effect.target : Effect → Option FillEntry
  | .insert _ entry _ => some entry
  | .installMain _ _ entry => some entry
  | _ => none

/-- The call `flushFillPage` makes for a pointer action. -/
def PointerAction.install (action : PointerAction) : Effect :=
  .installMain action.ptr action.expected action.desired

/-- Two keys of the input: different keys, in different newest words. -/
def KeyRef.Apart (ref ref' : KeyRef) : Prop :=
  ref.key ≠ ref'.key ∧ ref.slot ≠ ref'.slot

theorem Effect.concerns_apart {ref ref' : KeyRef} {effect : Effect} (apart : ref.Apart ref')
    (mine : effect.concerns ref) : effect.concerns ref' = false := by
  obtain ⟨key, slot⟩ := apart
  cases effect <;> simp_all [Effect.concerns]

theorem KeyRef.dropEffects_concern (ref : KeyRef) : ∀ e ∈ ref.dropEffects, e.concerns ref := by
  unfold KeyRef.dropEffects
  split <;> simp [Effect.concerns]

theorem KeyRef.dropEffects_target (ref : KeyRef) : ∀ e ∈ ref.dropEffects, e.target = none := by
  unfold KeyRef.dropEffects
  split <;> simp [Effect.target]

/-- Calls about one key are none of another's. -/
theorem filter_concerns_apart {ref ref' : KeyRef} {effects : List Effect} (apart : ref.Apart ref')
    (mine : ∀ e ∈ effects, e.concerns ref) : effects.filter (·.concerns ref') = [] :=
  List.filter_eq_nil_iff.mpr fun e mem => by simp [Effect.concerns_apart apart (mine e mem)]

theorem filter_install (ref : KeyRef) (actions : List PointerAction) :
    (actions.map PointerAction.install).filter (·.concerns ref) =
      (actions.filter (·.ptr = ref.slot)).map PointerAction.install := by
  rw [List.filter_map]
  rfl

/-- The page holds a row of `key`. -/
def ColumnMapMainPage.holds (page : ColumnMapMainPage) (key : Nat) : Bool :=
  page.entries.any fun e => e.key = key

theorem ColumnMapMainPage.holds_eq_false {page : ColumnMapMainPage} {key : Nat} :
    page.holds key = false ↔ ∀ e ∈ page.entries, e.key ≠ key := by
  simp [ColumnMapMainPage.holds]

/-- Entries `[start, start + rows)` of `entries`, and no others, are of `key`; there is
at least one. -/
def RunOf (entries : List ColumnMapMainEntry) (key start rows : Nat) : Prop :=
  0 < rows ∧ start + rows ≤ entries.length ∧
    ∀ j < entries.length, (entries.getD j default).key = key ↔ start ≤ j ∧ j < start + rows

theorem RunOf.append_other {entries more : List ColumnMapMainEntry} {key start rows : Nat}
    (run : RunOf entries key start rows) (other : ∀ e ∈ more, e.key ≠ key) :
    RunOf (entries ++ more) key start rows := by
  obtain ⟨positive, fits, exact⟩ := run
  refine ⟨positive, by simp; omega, fun j below => ?_⟩
  by_cases old : j < entries.length
  · rw [List.getD_append _ _ _ _ old]
    exact exact j old
  · simp only [List.length_append] at below
    rw [List.getD_append_right _ _ _ _ (by omega), List.getD_eq_getElem _ _ (by omega)]
    have outside : ¬(start ≤ j ∧ j < start + rows) := by omega
    simp only [outside, iff_false]
    exact other _ (List.getElem_mem _)

theorem RunOf.append_new {entries rows : List ColumnMapMainEntry} {key : Nat}
    (absent : ∀ e ∈ entries, e.key ≠ key) (nonempty : rows ≠ [])
    (keyed : ∀ e ∈ rows, e.key = key) : RunOf (entries ++ rows) key entries.length rows.length := by
  refine ⟨List.length_pos.mpr nonempty, by simp, fun j below => ?_⟩
  simp only [List.length_append] at below
  by_cases old : j < entries.length
  · rw [List.getD_append _ _ _ _ old, List.getD_eq_getElem _ _ old]
    simp only [absent _ (List.getElem_mem old), false_iff]
    omega
  · rw [List.getD_append_right _ _ _ _ (by omega), List.getD_eq_getElem _ _ (by omega)]
    simp only [keyed _ (List.getElem_mem _), true_iff]
    omega

theorem RunOf.holds {page : ColumnMapMainPage} {key start rows : Nat}
    (run : RunOf page.entries key start rows) : page.holds key = true := by
  obtain ⟨positive, fits, exact⟩ := run
  have here := (exact start (by omega)).mpr ⟨le_rfl, by omega⟩
  rw [List.getD_eq_getElem _ _ (by omega)] at here
  unfold ColumnMapMainPage.holds
  exact List.any_eq_true.mpr
    ⟨_, List.getElem_mem (show start < page.entries.length by omega), by simpa using here⟩

theorem RunOf.below {entries : List ColumnMapMainEntry} {key start rows : Nat}
    (run : RunOf entries key start rows) : start < entries.length := by
  obtain ⟨positive, fits, -⟩ := run
  omega

/-- Where a key the run has finished with stands. -/
inductive Fate where
  /-- Invalidated, and removed from the index if a main-page key. -/
  | dropped
  /-- Its `rows` rows are committed on the current fill page from fill entry `entry` on. -/
  | pending (entry : FillEntry) (rows : Nat)
  /-- Its `rows` rows are on a published page from fill entry `entry` on. -/
  | published (entry : FillEntry) (rows : Nat)

namespace Fate

/-- The calls the run has made about the key, in order. -/
def effects (ref : KeyRef) : Fate → List Effect
  | .dropped => ref.dropEffects
  | .pending entry _ => [ref.indexEffect entry]
  | .published entry _ => [ref.indexEffect entry, (ref.pointTo entry).install]

/-- The pointer actions waiting for the key. -/
def pointers (ref : KeyRef) : Fate → List PointerAction
  | .pending entry _ => [ref.pointTo entry]
  | _ => []

/-- Where the key stands once the fill page is published. -/
def publish : Fate → Fate
  | .pending entry rows => .published entry rows
  | fate => fate

/-- Where the rows of `key` are in `m`. -/
def Located (m : ColumnMapPageModifier) (key : Nat) : Fate → Prop
  | .dropped => (∀ p ∈ m.pageList, p.holds key = false) ∧ ∀ e ∈ m.committed, e.key ≠ key
  | .pending entry rows => entry.page = m.fillPage ∧ (∀ p ∈ m.pageList, p.holds key = false) ∧
      RunOf m.committed key entry.idx rows
  | .published entry rows =>
      (∃ p, m.pageList.filter (·.holds key) = [p] ∧ p.address = entry.page ∧
        RunOf p.entries key entry.idx rows) ∧ ∀ e ∈ m.committed, e.key ≠ key

end Fate

/-- The keys a run has finished with, each with where it stands, against the modifier:
the calls made about each key and the pointer actions waiting for it are exactly its
fate's, its rows are where its fate says, and every call, pointer action, published row
and committed row is about one of them; `kept` are the pages returned unchanged. -/
structure Ledger (m : ColumnMapPageModifier) (kept : List ColumnMapMainPage)
    (fates : List (KeyRef × Fate)) : Prop where
  effects : ∀ x ∈ fates, m.effects.filter (·.concerns x.1) = x.2.effects x.1
  pointers : ∀ x ∈ fates, m.pointerActions.filter (·.ptr = x.1.slot) = x.2.pointers x.1
  located : ∀ x ∈ fates, x.2.Located m x.1.key
  effectsKnown : ∀ e ∈ m.effects, ∃ x ∈ fates, e.concerns x.1
  pointersKnown : ∀ a ∈ m.pointerActions, ∃ x ∈ fates, a.ptr = x.1.slot
  pagesKnown : ∀ p ∈ m.pageList, p ∈ kept ∨ ∀ e ∈ p.entries, ∃ x ∈ fates, e.key = x.1.key
  committedKnown : ∀ e ∈ m.committed, ∃ x ∈ fates, e.key = x.1.key
  keptListed : ∀ p ∈ kept, p ∈ m.pageList

theorem Ledger.init (firstPage : Nat) : Ledger (init firstPage) [] [] :=
  ⟨nofun, nofun, nofun, nofun, nofun, nofun, nofun, nofun⟩

namespace Ledger

variable {m m' : ColumnMapPageModifier} {kept : List ColumnMapMainPage} {fates : List (KeyRef × Fate)}

/-- A key apart from every finished key has had no call, pointer action or row. -/
theorem fresh (ledger : Ledger m kept fates) {ref : KeyRef} (apart : ∀ x ∈ fates, x.1.Apart ref)
    (notKept : ∀ p ∈ kept, p.holds ref.key = false) :
    m.effects.filter (·.concerns ref) = [] ∧ m.pointerActions.filter (·.ptr = ref.slot) = [] ∧
      (∀ p ∈ m.pageList, p.holds ref.key = false) ∧ ∀ e ∈ m.committed, e.key ≠ ref.key := by
  refine ⟨List.filter_eq_nil_iff.mpr fun e mem => ?_, List.filter_eq_nil_iff.mpr fun a mem => ?_,
    fun p mem => ?_, fun e mem => ?_⟩
  · obtain ⟨x, known, mine⟩ := ledger.effectsKnown e mem
    simp [Effect.concerns_apart (apart x known) mine]
  · obtain ⟨x, known, mine⟩ := ledger.pointersKnown a mem
    simpa [mine] using (apart x known).2
  · rcases ledger.pagesKnown p mem with kept | known
    · exact notKept p kept
    · exact ColumnMapMainPage.holds_eq_false.mpr fun e entry same => by
        obtain ⟨x, finished, key⟩ := known e entry
        exact (apart x finished).1 (key ▸ same)
  · obtain ⟨x, finished, key⟩ := ledger.committedKnown e mem
    exact fun same => (apart x finished).1 (key ▸ same)

/-- What the ledger reads of the modifier: a step that changes none of it keeps it. -/
theorem congr (ledger : Ledger m kept fates) (effects : m'.effects = m.effects)
    (pointerActions : m'.pointerActions = m.pointerActions) (pageList : m'.pageList = m.pageList)
    (fillPage : m'.fillPage = m.fillPage) (committed : m'.committed = m.committed) :
    Ledger m' kept fates := by
  obtain ⟨e, p, l, ek, pk, gk, ck, kl⟩ := ledger
  refine ⟨fun x mem => by rw [effects]; exact e x mem, fun x mem => by rw [pointerActions]; exact p x mem,
    fun x mem => ?_, fun a mem => ek a (effects ▸ mem), fun a mem => pk a (pointerActions ▸ mem),
    fun q mem => gk q (pageList ▸ mem), fun a mem => ck a (committed ▸ mem),
    fun q mem => pageList ▸ kl q mem⟩
  have located := l x mem
  obtain ⟨ref, fate⟩ := x
  cases fate <;> simpa only [Fate.Located, pageList, fillPage, committed] using located

end Ledger

theorem KeyRef.Apart.symm {ref ref' : KeyRef} (apart : ref.Apart ref') : ref'.Apart ref :=
  ⟨apart.1.symm, apart.2.symm⟩

namespace Fate

theorem effects_concern (ref : KeyRef) : ∀ fate : Fate, ∀ e ∈ fate.effects ref, e.concerns ref
  | .dropped => ref.dropEffects_concern
  | .pending _ _ => by simp [effects, KeyRef.indexEffect, Effect.concerns]
  | .published _ _ => by
    simp [effects, KeyRef.indexEffect, KeyRef.pointTo, PointerAction.install, Effect.concerns]

theorem pointers_slot (ref : KeyRef) (fate : Fate) : ∀ a ∈ fate.pointers ref, a.ptr = ref.slot := by
  cases fate <;> simp [pointers, KeyRef.pointTo]

/-- The other keys keep their place when a pass commits rows of another key. -/
theorem Located.commit {m m' : ColumnMapPageModifier} {key : Nat} {fate : Fate}
    {rows : List ColumnMapMainEntry} (located : fate.Located m key)
    (pageList : m'.pageList = m.pageList) (fillPage : m'.fillPage = m.fillPage)
    (grown : m'.committed = m.committed ++ rows) (other : ∀ e ∈ rows, e.key ≠ key) :
    fate.Located m' key := by
  have absent : (∀ e ∈ m.committed, e.key ≠ key) → ∀ e ∈ m'.committed, e.key ≠ key :=
    fun before e mem => (List.mem_append.mp (grown ▸ mem)).elim (before e) (other e)
  cases fate with
  | dropped => exact ⟨pageList ▸ located.1, absent located.2⟩
  | pending entry n =>
    exact ⟨fillPage ▸ located.1, pageList ▸ located.2.1, grown ▸ located.2.2.append_other other⟩
  | published entry n => exact ⟨pageList ▸ located.1, absent located.2⟩

end Fate

/-- Adding a key's own calls to a log keeps every other key's calls. -/
theorem effects_extend {effects : List Effect} {fates : List (KeyRef × Fate)} {ref : KeyRef}
    (old : ∀ x ∈ fates, effects.filter (·.concerns x.1) = x.2.effects x.1)
    (apart : ∀ x ∈ fates, x.1.Apart ref) (fresh : effects.filter (·.concerns ref) = [])
    (fate : Fate) : ∀ x ∈ fates ++ [(ref, fate)],
      (effects ++ fate.effects ref).filter (·.concerns x.1) = x.2.effects x.1 := by
  intro x mem
  rw [List.filter_append]
  rcases List.mem_append.mp mem with finished | current
  · rw [old x finished, filter_concerns_apart (apart x finished).symm (fate.effects_concern ref),
      List.append_nil]
  · obtain rfl := List.mem_singleton.mp current
    rw [fresh, List.filter_eq_self.mpr (fate.effects_concern ref)]
    rfl

/-- Likewise for the pointer actions waiting. -/
theorem pointers_extend {actions : List PointerAction} {fates : List (KeyRef × Fate)}
    {ref : KeyRef} (old : ∀ x ∈ fates, actions.filter (·.ptr = x.1.slot) = x.2.pointers x.1)
    (apart : ∀ x ∈ fates, x.1.Apart ref) (fresh : actions.filter (·.ptr = ref.slot) = [])
    (fate : Fate) : ∀ x ∈ fates ++ [(ref, fate)],
      (actions ++ fate.pointers ref).filter (·.ptr = x.1.slot) = x.2.pointers x.1 := by
  intro x mem
  rw [List.filter_append]
  rcases List.mem_append.mp mem with finished | current
  · rw [old x finished, List.filter_eq_nil_iff.mpr fun a added => by
      simpa [fate.pointers_slot ref a added] using (apart x finished).2.symm, List.append_nil]
  · obtain rfl := List.mem_singleton.mp current
    rw [fresh, List.filter_eq_self.mpr fun a added => by simp [fate.pointers_slot ref a added]]
    rfl

/-- What the finished keys account for, and new items about one more key, are accounted
for by the longer list. -/
theorem known_extend {α : Type} {old new : List α} {fates : List (KeyRef × Fate)}
    {x' : KeyRef × Fate} {about : α → KeyRef × Fate → Prop}
    (known : ∀ a ∈ old, ∃ x ∈ fates, about a x) (mine : ∀ a ∈ new, about a x') :
    ∀ a ∈ old ++ new, ∃ x ∈ fates ++ [x'], about a x := by
  intro a mem
  rcases List.mem_append.mp mem with before | added
  · obtain ⟨x, finished, holds⟩ := known a before
    exact ⟨x, List.mem_append_left _ finished, holds⟩
  · exact ⟨x', List.mem_append_right _ (List.mem_singleton_self _), mine a added⟩

theorem ColumnMapPageModifier.length_committed (m : ColumnMapPageModifier) :
    m.committed.length = m.fillEndIdx := by
  simp [committed]

namespace Ledger

variable {m m' : ColumnMapPageModifier} {kept : List ColumnMapMainPage} {fates : List (KeyRef × Fate)}

/-- The ledger with one more key, whose calls and pointer actions were appended to the
modifier's and whose rows are where its fate says. -/
theorem extend (ledger : Ledger m kept fates) {ref : KeyRef} {fate : Fate}
    (apart : ∀ x ∈ fates, x.1.Apart ref) (notKept : ∀ p ∈ kept, p.holds ref.key = false)
    (effects : m'.effects = m.effects ++ fate.effects ref)
    (pointers : m'.pointerActions = m.pointerActions ++ fate.pointers ref)
    (pageList : m'.pageList = m.pageList)
    (located : ∀ x ∈ fates ++ [(ref, fate)], x.2.Located m' x.1.key)
    (committedKnown : ∀ e ∈ m'.committed, ∃ x ∈ fates ++ [(ref, fate)], e.key = x.1.key) :
    Ledger m' kept (fates ++ [(ref, fate)]) := by
  obtain ⟨noEffects, noPointers, -, -⟩ := ledger.fresh apart notKept
  refine ⟨?_, ?_, located, ?_, ?_, fun p mem => ?_, committedKnown,
    fun p mem => pageList ▸ ledger.keptListed p mem⟩
  · rw [effects]
    exact effects_extend ledger.effects apart noEffects fate
  · rw [pointers]
    exact pointers_extend ledger.pointers apart noPointers fate
  · rw [effects]
    exact known_extend ledger.effectsKnown (fate.effects_concern ref)
  · rw [pointers]
    exact known_extend ledger.pointersKnown (fate.pointers_slot ref)
  · refine (ledger.pagesKnown p (pageList ▸ mem)).imp_right fun known e entry => ?_
    obtain ⟨x, finished, same⟩ := known e entry
    exact ⟨x, List.mem_append_left _ finished, same⟩

/-- A finished pass adds its key: dropped if it committed no row, pending on the fill
page from its first committed row otherwise. -/
theorem commit (ledger : Ledger m kept fates) {ref : KeyRef} {chain : List UpdateLogEntry}
    (apart : ∀ x ∈ fates, x.1.Apart ref) (notKept : ∀ p ∈ kept, p.holds ref.key = false)
    (keyed : ∀ u ∈ chain, u.key = ref.key) (committed : Committed ref chain m m') :
    ∃ fate, Ledger m' kept (fates ++ [(ref, fate)]) := by
  obtain ⟨-, -, noPages, noRows⟩ := ledger.fresh apart notKept
  obtain ⟨pageList, fillPage, -, rows, grown, rowKeys, outcome⟩ := committed
  have ofKey : ∀ e ∈ rows, e.key = ref.key := fun e mem =>
    (rowKeys e mem).elim id fun ⟨u, found, same⟩ => same.trans (keyed u found)
  have located : ∀ fate : Fate, fate.Located m' ref.key →
      ∀ x ∈ fates ++ [(ref, fate)], x.2.Located m' x.1.key := fun fate here x mem =>
    (List.mem_append.mp mem).elim
      (fun finished => Fate.Located.commit (ledger.located x finished) pageList fillPage grown
        fun e row same => (apart x finished).1 (same.symm.trans (ofKey e row)))
      fun current => List.mem_singleton.mp current ▸ here
  have known : ∀ fate : Fate, ∀ e ∈ m'.committed, ∃ x ∈ fates ++ [(ref, fate)], e.key = x.1.key := by
    intro fate
    rw [grown]
    exact known_extend ledger.committedKnown ofKey
  rcases outcome with ⟨rfl, effects, pointers⟩ | ⟨nonempty, effects, pointers⟩
  · refine ⟨.dropped, ledger.extend apart notKept effects (pointers.trans (List.append_nil _).symm)
      pageList (located _ ⟨pageList ▸ noPages, ?_⟩) (known _)⟩
    rw [grown, List.append_nil]
    exact noRows
  · refine ⟨.pending ⟨m.fillPage, m.fillEndIdx⟩ rows.length, ledger.extend apart notKept effects
      pointers pageList (located _ ⟨fillPage.symm, pageList ▸ noPages, ?_⟩) (known _)⟩
    rw [grown, ← ColumnMapPageModifier.length_committed]
    exact RunOf.append_new noRows nonempty ofKey

end Ledger

/-- Where the run put the key of `ref`: dropped, its calls being `dropEffects` and no page
holding it; or on exactly one page, one run of rows from entry `idx`, the index entry and
the newest word made to point there and no other call about it. -/
def KeyPlaced (pages : List ColumnMapMainPage) (effects : List Effect) (ref : KeyRef) : Prop :=
  (effects.filter (·.concerns ref) = ref.dropEffects ∧ ∀ p ∈ pages, p.holds ref.key = false) ∨
    ∃ p idx rows, pages.filter (·.holds ref.key) = [p] ∧ RunOf p.entries ref.key idx rows ∧
      effects.filter (·.concerns ref) =
        [ref.indexEffect ⟨p.address, idx⟩, (ref.pointTo ⟨p.address, idx⟩).install]

/-- A key placed by a run has at most two calls about it. -/
theorem KeyPlaced.concerns_length_le {pages : List ColumnMapMainPage} {effects : List Effect}
    {ref : KeyRef} (placed : KeyPlaced pages effects ref) : (effects.filter (·.concerns ref)).length ≤ 2 := by
  rcases placed with ⟨dropped, -⟩ | ⟨p, idx, rows, -, -, placed⟩
  · rw [dropped, KeyRef.dropEffects]
    split <;> simp
  · simp [placed]

namespace Fate

@[simp] theorem publish_publish (fate : Fate) : fate.publish.publish = fate.publish := by
  cases fate <;> rfl

theorem effects_publish (ref : KeyRef) (fate : Fate) :
    fate.effects ref ++ (fate.pointers ref).map PointerAction.install = fate.publish.effects ref := by
  cases fate with
  | dropped => exact List.append_nil _
  | _ => rfl

@[simp] theorem pointers_publish (ref : KeyRef) (fate : Fate) : fate.publish.pointers ref = [] := by
  cases fate <;> rfl

end Fate

/-- What `flushFillPage` publishes and runs: the committed fill entries as one more page
at the fill page's address, and every pointer action waiting. -/
theorem flushFillPage_published (m : ColumnMapPageModifier) :
    (∃ data heapSize, (flushFillPage m).pageList =
      m.pageList ++ [⟨m.fillPage, m.committed, data, heapSize⟩]) ∧
    (flushFillPage m).effects = m.effects ++ m.pointerActions.map PointerAction.install ∧
    (flushFillPage m).pointerActions = [] :=
  ⟨⟨_, _, rfl⟩, rfl, rfl⟩

/-- `flush` publishes as `flushFillPage` does and starts an empty fill page. -/
theorem flush_published (m : ColumnMapPageModifier) :
    (flush m).pageList = (flushFillPage m).pageList ∧ (flush m).effects = (flushFillPage m).effects ∧
      (flush m).pointerActions = [] ∧ (flush m).committed = [] := by
  unfold flush
  dsimp only
  split <;> exact ⟨rfl, rfl, rfl, rfl⟩

/-- What a finished run leaves: every key of `refs` placed, no pointer action waiting,
every fill entry the index or a newest word points at a row of a page of `pages`, and
every page of `pages` either one of `kept` or holding rows of keys of `refs` only. -/
structure Placed (pages : List ColumnMapMainPage) (effects : List Effect)
    (actions : List PointerAction) (kept : List ColumnMapMainPage) (refs : List KeyRef) : Prop where
  placed : ∀ ref ∈ refs, KeyPlaced pages effects ref
  actions : actions = []
  targets : ∀ e ∈ effects, ∀ entry, e.target = some entry →
    ∃ p ∈ pages, p.address = entry.page ∧ entry.idx < p.count
  known : ∀ p ∈ pages, p ∈ kept ∨ ∀ e ∈ p.entries, ∃ ref ∈ refs, e.key = ref.key
  keptListed : ∀ p ∈ kept, p ∈ pages

namespace Ledger

variable {m m' : ColumnMapPageModifier} {kept : List ColumnMapMainPage} {fates : List (KeyRef × Fate)}

theorem map_publish_fst (fates : List (KeyRef × Fate)) :
    (fates.map fun x => (x.1, x.2.publish)).map Prod.fst = fates.map Prod.fst := by
  rw [List.map_map]
  rfl

/-- Publishing the fill page with its committed rows, and running the pointer actions,
publishes the pending keys. -/
theorem publish (ledger : Ledger m kept fates) {data : List RowData} {heapSize : Nat}
    (pageList : m'.pageList = m.pageList ++ [⟨m.fillPage, m.committed, data, heapSize⟩])
    (effects : m'.effects = m.effects ++ m.pointerActions.map PointerAction.install)
    (pointers : m'.pointerActions = []) (committed : m'.committed = []) :
    Ledger m' kept (fates.map fun x => (x.1, x.2.publish)) := by
  have listed : ∀ x ∈ fates, (x.1, x.2.publish) ∈ fates.map fun x => (x.1, x.2.publish) :=
    fun x mem => List.mem_map_of_mem _ mem
  refine ⟨fun x mem => ?_, fun x mem => ?_, fun x mem => ?_, fun e mem => ?_, fun a mem => ?_,
    fun p mem => ?_, fun e mem => ?_, fun p mem => ?_⟩
  · obtain ⟨⟨ref, fate⟩, finished, rfl⟩ := List.mem_map.mp mem
    have called := ledger.effects _ finished
    have waiting := ledger.pointers _ finished
    dsimp only at called waiting ⊢
    rw [effects, List.filter_append, called, filter_install, waiting, Fate.effects_publish]
  · obtain ⟨⟨ref, fate⟩, -, rfl⟩ := List.mem_map.mp mem
    rw [pointers, List.filter_nil, Fate.pointers_publish]
  · obtain ⟨⟨ref, fate⟩, finished, rfl⟩ := List.mem_map.mp mem
    have located := ledger.located _ finished
    cases fate <;> simp only [Fate.publish, Fate.Located, pageList, committed] at located ⊢
    case dropped =>
      refine ⟨fun p mem => ?_, nofun⟩
      rcases List.mem_append.mp mem with old | flushed
      · exact located.1 p old
      · obtain rfl := List.mem_singleton.mp flushed
        exact ColumnMapMainPage.holds_eq_false.mpr located.2
    case pending entry rows =>
      refine ⟨⟨⟨m.fillPage, m.committed, data, heapSize⟩, ?_, located.1.symm, located.2.2⟩, nofun⟩
      rw [List.filter_append, List.filter_eq_nil_iff.mpr fun p mem => by simp [located.2.1 p mem],
        List.filter_singleton, RunOf.holds (show RunOf
          (ColumnMapMainPage.mk m.fillPage m.committed data heapSize).entries _ _ _ from located.2.2)]
      rfl
    case published entry rows =>
      obtain ⟨⟨p, only, address, run⟩, notCommitted⟩ := located
      refine ⟨⟨p, ?_, address, run⟩, nofun⟩
      rw [List.filter_append, only, List.filter_singleton,
        ColumnMapMainPage.holds_eq_false.mpr notCommitted]
      rfl
  · rw [effects] at mem
    rcases List.mem_append.mp mem with old | installed
    · obtain ⟨x, finished, about⟩ := ledger.effectsKnown e old
      exact ⟨_, listed x finished, about⟩
    · obtain ⟨a, waiting, rfl⟩ := List.mem_map.mp installed
      obtain ⟨x, finished, slot⟩ := ledger.pointersKnown a waiting
      exact ⟨_, listed x finished, by simp [PointerAction.install, Effect.concerns, slot]⟩
  · rw [pointers] at mem
    cases mem
  · rw [pageList] at mem
    rcases List.mem_append.mp mem with old | flushed
    · rcases ledger.pagesKnown p old with kept | known
      · exact .inl kept
      · exact .inr fun e entry => by
          obtain ⟨x, finished, same⟩ := known e entry
          exact ⟨_, listed x finished, same⟩
    · obtain rfl := List.mem_singleton.mp flushed
      exact .inr fun e entry => by
        obtain ⟨x, finished, same⟩ := ledger.committedKnown e entry
        exact ⟨_, listed x finished, same⟩
  · rw [committed] at mem
    cases mem
  · rw [pageList]
    exact List.mem_append_left _ (ledger.keptListed p mem)

/-- A step from `START` that only writes keeps the ledger. -/
theorem unchanged (ledger : Ledger m kept fates) (start : AtStart m) (same : Kept m m')
    (grown : m.filled <+: m'.filled) : Ledger m' kept fates :=
  ledger.congr same.effects same.pointerActions same.pageList same.fillPage
    (same.committed start.fillIdx.ge grown)

/-- After an overflow the pass's writes are discarded by the flush, and the pending keys
are published. -/
theorem restart (ledger : Ledger m kept fates) (start : AtStart m) (unchanged : Kept m m')
    (grown : m.filled <+: m'.filled) (index : m.updateIdx ≤ m'.updateIdx) :
    AtStart (flush m') ∧ Ledger (flush m') kept (fates.map fun x => (x.1, x.2.publish)) := by
  have same := ledger.unchanged start unchanged grown
  have ends := unchanged.updateEndIdx
  have := start.updateIdx
  obtain ⟨pages, effects, pointers, committed⟩ := flush_published m'
  obtain ⟨⟨data, heapSize, flushed⟩, installed, -⟩ := flushFillPage_published m'
  exact ⟨(flush_atStart (by omega)).1, same.publish (pages.trans flushed) (effects.trans installed)
    pointers committed⟩

/-- A page returned unchanged is listed and kept. -/
theorem keep (ledger : Ledger m kept fates) {page : ColumnMapMainPage}
    (pageList : m'.pageList = m.pageList ++ [page]) (effects : m'.effects = m.effects)
    (pointerActions : m'.pointerActions = m.pointerActions) (fillPage : m'.fillPage = m.fillPage)
    (committed : m'.committed = m.committed) (other : ∀ x ∈ fates, page.holds x.1.key = false) :
    Ledger m' (kept ++ [page]) fates := by
  refine ⟨fun x mem => effects ▸ ledger.effects x mem,
    fun x mem => pointerActions ▸ ledger.pointers x mem, fun x mem => ?_,
    fun e mem => ledger.effectsKnown e (effects ▸ mem),
    fun a mem => ledger.pointersKnown a (pointerActions ▸ mem), fun p mem => ?_,
    fun e mem => ledger.committedKnown e (committed ▸ mem), fun p mem => ?_⟩
  · have located := ledger.located x mem
    have absent := other x mem
    obtain ⟨ref, fate⟩ := x
    have absentAll : (∀ p ∈ m.pageList, p.holds ref.key = false) →
        ∀ p ∈ m'.pageList, p.holds ref.key = false := fun old p mem => by
      rw [pageList] at mem
      rcases List.mem_append.mp mem with before | new
      · exact old p before
      · exact List.mem_singleton.mp new ▸ absent
    cases fate <;> simp only [Fate.Located, ← committed, ← fillPage] at located ⊢
    case dropped => exact ⟨absentAll located.1, located.2⟩
    case pending => exact ⟨located.1, absentAll located.2.1, located.2.2⟩
    case published =>
      obtain ⟨⟨p, only, address, run⟩, notCommitted⟩ := located
      refine ⟨⟨p, ?_, address, run⟩, notCommitted⟩
      rw [pageList, List.filter_append, only, List.filter_singleton]
      simp [absent]
  · rw [pageList] at mem
    rcases List.mem_append.mp mem with old | new
    · exact (ledger.pagesKnown p old).imp_left fun kept => List.mem_append_left _ kept
    · exact .inl (List.mem_singleton.mp new ▸ List.mem_append_right _ (List.mem_singleton_self _))
  · rw [pageList]
    rcases List.mem_append.mp mem with old | new
    · exact List.mem_append_left _ (ledger.keptListed p old)
    · exact List.mem_append_right _ new

/-- With an empty fill page no key is pending. -/
theorem settled_of_empty (ledger : Ledger m kept fates) (empty : m.fillEndIdx = 0) :
    ∀ x ∈ fates, x.2.publish = x.2 := by
  intro x mem
  have located := ledger.located x mem
  obtain ⟨ref, fate⟩ := x
  cases fate with
  | dropped => rfl
  | pending entry rows =>
    have := located.2.2.below
    rw [ColumnMapPageModifier.length_committed] at this
    omega
  | published entry rows => rfl

/-- Once no key is pending, every key is placed, no pointer action is left, and every
fill entry the index or a newest word points at is on a listed page. -/
theorem placed (ledger : Ledger m kept fates) (settled : ∀ x ∈ fates, x.2.publish = x.2) :
    Placed m.pageList m.effects m.pointerActions kept (fates.map Prod.fst) := by
  refine ⟨fun ref mem => ?_, List.eq_nil_iff_forall_not_mem.mpr fun a mem => ?_,
    fun e mem entry target => ?_, fun p mem => ?_, ledger.keptListed⟩
  · obtain ⟨⟨ref, fate⟩, finished, rfl⟩ := List.mem_map.mp mem
    have called := ledger.effects _ finished
    have located := ledger.located _ finished
    have done := settled _ finished
    cases fate with
    | dropped => exact .inl ⟨called, located.1⟩
    | pending entry rows => cases done
    | published entry rows =>
      obtain ⟨⟨p, only, address, run⟩, -⟩ := located
      obtain ⟨page, idx⟩ := entry
      obtain rfl : p.address = page := address
      exact .inr ⟨p, idx, rows, only, run, called⟩
  · obtain ⟨x, finished, slot⟩ := ledger.pointersKnown a mem
    have waiting := ledger.pointers x finished
    rw [← settled x finished, Fate.pointers_publish, List.filter_eq_nil_iff] at waiting
    exact waiting a mem (by simp [slot])
  · obtain ⟨x, finished, about⟩ := ledger.effectsKnown e mem
    have listed : e ∈ x.2.effects x.1 := ledger.effects x finished ▸ List.mem_filter.mpr ⟨mem, about⟩
    have located := ledger.located x finished
    have done := settled x finished
    obtain ⟨ref, fate⟩ := x
    cases fate with
    | dropped =>
      rw [KeyRef.dropEffects_target ref e listed] at target
      cases target
    | pending point rows => cases done
    | published point rows =>
      obtain ⟨⟨p, only, address, run⟩, -⟩ := located
      have aimed : e.target = some point := by
        simp only [Fate.effects, List.mem_cons, List.mem_singleton, List.not_mem_nil, or_false] at listed
        rcases listed with rfl | rfl <;> rfl
      obtain rfl : entry = point := Option.some.inj (target.symm.trans aimed)
      exact ⟨p, List.mem_of_mem_filter (only ▸ List.mem_singleton_self p), address, run.below⟩
  · refine (ledger.pagesKnown p mem).imp_right fun known e entry => ?_
    obtain ⟨x, finished, same⟩ := known e entry
    exact ⟨x.1, List.mem_map_of_mem _ finished, same⟩

/-- `done` publishes a fill page holding rows; after it every key of the ledger is
placed. -/
theorem finish (ledger : Ledger m kept fates) :
    Placed (done m).2 (done m).1.effects (done m).1.pointerActions kept (fates.map Prod.fst) := by
  unfold ColumnMap.done
  split
  · obtain ⟨pages, effects, pointers, committed⟩ := flush_published m
    obtain ⟨⟨data, heapSize, flushed⟩, installed, -⟩ := flushFillPage_published m
    have published := (ledger.publish (pages.trans flushed) (effects.trans installed) pointers
      committed).placed fun x mem => by
        obtain ⟨y, -, rfl⟩ := List.mem_map.mp mem
        exact Fate.publish_publish y.2
    rw [map_publish_fst, pages, effects] at published
    exact ⟨published.placed, rfl, published.targets, published.known, published.keptListed⟩
  · rename_i empty
    exact ledger.placed (ledger.settled_of_empty (not_not.mp empty))

end Ledger

section Keys

variable (page : ColumnMapMainPage)

/-- The first rows of the keys of `page` from row `i` on. -/
def firstRows (i : Nat) : List Nat :=
  (List.range' i (page.count - i)).filter fun b => decide (FirstOfKey page b)

theorem mem_firstRows {i b : Nat} :
    b ∈ firstRows page i ↔ i ≤ b ∧ b < page.count ∧ FirstOfKey page b := by
  simp only [firstRows, List.mem_filter, List.mem_range'_1, decide_eq_true_eq]
  constructor
  · rintro ⟨⟨low, high⟩, first⟩
    exact ⟨low, by omega, first⟩
  · rintro ⟨low, high, first⟩
    exact ⟨⟨low, by omega⟩, first⟩

theorem firstRows_of_first {i : Nat} (inside : i < page.count) (first : FirstOfKey page i) :
    firstRows page i = i :: firstRows page (i + 1) := by
  unfold firstRows
  rw [show page.count - i = page.count - (i + 1) + 1 by omega, List.range'_succ,
    List.filter_cons, if_pos (decide_eq_true first)]

theorem firstRows_of_not_first {i : Nat} (other : ¬(i < page.count ∧ FirstOfKey page i)) :
    firstRows page i = firstRows page (i + 1) := by
  unfold firstRows
  by_cases inside : i < page.count
  · rw [show page.count - i = page.count - (i + 1) + 1 by omega, List.range'_succ,
      List.filter_cons, if_neg (by simpa [inside] using other)]
  · rw [Nat.sub_eq_zero_of_le (by omega), Nat.sub_eq_zero_of_le (by omega)]
    rfl

/-- Rows that start no key do not change the first rows ahead. -/
theorem firstRows_skip (i : Nat) : ∀ n, (∀ j, i ≤ j → j < i + n → ¬FirstOfKey page j) →
    firstRows page i = firstRows page (i + n)
  | 0, _ => rfl
  | n + 1, notFirst => by
    rw [firstRows_of_not_first page fun ⟨_, first⟩ => notFirst i le_rfl (by omega) first,
      firstRows_skip (i + 1) n fun j low high => notFirst j (by omega) (by omega),
      Nat.add_right_comm, Nat.add_assoc]

/-- A finished pass at key `i` leaves the first rows of the keys after it. -/
theorem firstRows_next {i i' : Nat} (inside : i < page.count) (first : FirstOfKey page i)
    (after : i < i') (same : ∀ j, i ≤ j → j < i' → (page.entry j).key = (page.entry i).key) :
    firstRows page i = i :: firstRows page i' := by
  rw [firstRows_of_first page inside first, firstRows_skip page (i + 1) (i' - (i + 1)) fun j low high => ?_,
    show i + 1 + (i' - (i + 1)) = i' by omega]
  rintro (zero | differ)
  · omega
  · exact differ ((same (j - 1) (by omega) (by omega)).trans (same j (by omega) (by omega)).symm)

/-- Every row is of a key with a first row at or before it. -/
theorem exists_firstRow : ∀ j < page.count,
    ∃ b ∈ firstRows page 0, (page.entry b).key = (page.entry j).key
  | 0, inside => ⟨0, (mem_firstRows page).mpr ⟨le_rfl, inside, .inl rfl⟩, rfl⟩
  | j + 1, inside => by
    by_cases first : FirstOfKey page (j + 1)
    · exact ⟨j + 1, (mem_firstRows page).mpr ⟨by omega, inside, first⟩, rfl⟩
    · obtain ⟨b, mem, same⟩ := exists_firstRow j (by omega)
      refine ⟨b, mem, same.trans ?_⟩
      simpa [FirstOfKey] using first

/-- A page holds only the keys of its first rows. -/
theorem holds_firstRow {key : Nat} (holding : page.holds key = true) :
    ∃ b ∈ firstRows page 0, (page.entry b).key = key := by
  obtain ⟨e, mem, same⟩ := List.any_eq_true.mp holding
  obtain ⟨j, inside, rfl⟩ := List.mem_iff_getElem.mp mem
  obtain ⟨b, first, key⟩ := exists_firstRow page j inside
  refine ⟨b, first, key.trans ?_⟩
  rw [ColumnMapMainPage.entry, List.getD_eq_getElem _ _ inside]
  simpa using same

end Keys

namespace ModifierCall

/-- The keys a call is handed: those of the page, at their first rows, or the insert
record's. -/
def keyRefs : ModifierCall → List KeyRef
  | .clean page => (firstRows page 0).map page.keyRef
  | .append record => [record.keyRef]

/-- The call rewrites its keys: `append` always, `clean` a page that needs cleaning. -/
def touches (minVersion : Nat) : ModifierCall → Bool
  | .clean page => needsCleaning minVersion page
  | .append _ => true

/-- The keys the call rewrites. -/
def touchedRefs (minVersion : Nat) (call : ModifierCall) : List KeyRef :=
  if call.touches minVersion then call.keyRefs else []

/-- The page the call returns as it was. -/
def keptPages (minVersion : Nat) : ModifierCall → List ColumnMapMainPage
  | .clean page => if needsCleaning minVersion page then [] else [page]
  | .append _ => []

/-- The chain of each key the call is handed holds entries of that key only. -/
def ChainsKeyed (env : ModifierEnv) : ModifierCall → Prop
  | .clean page => ∀ b ∈ firstRows page 0, ∀ u ∈ keyChain env page b, u.key = (page.entry b).key
  | .append record => ∀ u ∈ recordChain env record, u.key = record.key

instance (env : ModifierEnv) : (call : ModifierCall) → Decidable (call.ChainsKeyed env)
  | .clean page => inferInstanceAs
      (Decidable (∀ b ∈ firstRows page 0, ∀ u ∈ keyChain env page b, u.key = (page.entry b).key))
  | .append record => inferInstanceAs (Decidable (∀ u ∈ recordChain env record, u.key = record.key))

theorem touchedRefs_sublist (minVersion : Nat) (call : ModifierCall) :
    List.Sublist (call.touchedRefs minVersion) call.keyRefs := by
  unfold touchedRefs
  split
  · exact List.Sublist.refl _
  · exact List.nil_sublist _

/-- A page a call returns as it was holds no key apart from all the call is handed. -/
theorem keptPages_holds {call : ModifierCall} {minVersion : Nat} {p : ColumnMapMainPage}
    {ref : KeyRef} (kept : p ∈ call.keptPages minVersion) (apart : ∀ r ∈ call.keyRefs, r.Apart ref) :
    p.holds ref.key = false := by
  cases call with
  | clean page =>
    have returned : p = page := by
      cases cleaning : needsCleaning minVersion page <;> simp [keptPages, cleaning] at kept
      exact kept
    subst returned
    refine Bool.eq_false_iff.mpr fun holding => ?_
    obtain ⟨b, first, same⟩ := holds_firstRow p holding
    exact (apart _ (List.mem_map_of_mem _ first)).1 same
  | append record => cases kept

/-- A page a call returns as it was holds only keys the call is handed. -/
theorem keptPages_keys {call : ModifierCall} {minVersion : Nat} {p : ColumnMapMainPage}
    (kept : p ∈ call.keptPages minVersion) : ∀ e ∈ p.entries, ∃ ref ∈ call.keyRefs, e.key = ref.key := by
  intro e entry
  cases call with
  | clean page =>
    have returned : p = page := by
      cases cleaning : needsCleaning minVersion page <;> simp [keptPages, cleaning] at kept
      exact kept
    subst returned
    obtain ⟨b, first, same⟩ := holds_firstRow p (List.any_eq_true.mpr ⟨e, entry, decide_eq_true rfl⟩)
    exact ⟨_, List.mem_map_of_mem _ first, same.symm⟩
  | append record => cases kept

end ModifierCall

section Run

variable (env : ModifierEnv)

theorem Ledger.apart_publish {fates : List (KeyRef × Fate)} {ref : KeyRef}
    (apart : ∀ x ∈ fates, x.1.Apart ref) :
    ∀ x ∈ fates.map (fun x => (x.1, x.2.publish)), x.1.Apart ref := fun x mem => by
  obtain ⟨y, finished, rfl⟩ := List.mem_map.mp mem
  exact apart y finished

/-- The loop of `clean` adds the keys of the page from row `i` on to the ledger. -/
theorem cleanLoop_ledger (page : ColumnMapMainPage)
    (chains : ∀ b ∈ firstRows page 0, ∀ u ∈ keyChain env page b, u.key = (page.entry b).key) :
    ∀ (fuel : Nat) (m : ColumnMapPageModifier) (i mainStartIdx mainEndIdx : Nat)
      (kept : List ColumnMapMainPage) (fates : List (KeyRef × Fate))
      (result : ColumnMapPageModifier × Nat × Nat),
    AtStart m → Ledger m kept fates → (i < page.count → FirstOfKey page i) →
    (fates.map Prod.fst ++ (firstRows page i).map page.keyRef).Pairwise KeyRef.Apart →
    (∀ p ∈ kept, ∀ b ∈ firstRows page i, p.holds (page.entry b).key = false) →
    cleanLoop env page fuel m i mainStartIdx mainEndIdx = some result →
    AtStart result.1 ∧ ∃ fates', fates'.map Prod.fst =
      fates.map Prod.fst ++ (firstRows page i).map page.keyRef ∧ Ledger result.1 kept fates'
  | 0, _, _, _, _, _, _, _, _, _, _, _, _, run => by cases run
  | fuel + 1, m, i, mainStartIdx, mainEndIdx, kept, fates, result, start, ledger, first, distinct,
      notKept, run => by
    unfold cleanLoop at run
    split at run
    · rename_i inside
      split at run
      · rename_i m₁ mainStartIdx₁ mainEndIdx₁ restart
        obtain ⟨-, unchanged, grown, index⟩ := cleanKey_restart_bound env page restart
        obtain ⟨start₁, ledger₁⟩ := ledger.restart start unchanged grown index
        obtain ⟨start', fates', refs, ledger'⟩ := cleanLoop_ledger page chains fuel _ i _ _ kept _ result
          start₁ ledger₁ first (by rwa [Ledger.map_publish_fst]) notKept run
        exact ⟨start', fates', by rwa [Ledger.map_publish_fst] at refs, ledger'⟩
      · rename_i m₁ i₁ mainStartIdx₁ mainEndIdx₁ next
        obtain ⟨start₁, after, first₁, same, committed⟩ := cleanKey_next env page start inside next
        have rows := firstRows_next page inside (first inside) after same
        rw [rows, List.map_cons] at distinct
        have apart : ∀ x ∈ fates, x.1.Apart (page.keyRef i) := fun x mem =>
          (List.pairwise_append.mp distinct).2.2 _ (List.mem_map_of_mem _ mem) _ (List.mem_cons_self _ _)
        obtain ⟨fate, ledger₁⟩ := ledger.commit apart
          (fun p mem => notKept p mem i (rows ▸ List.mem_cons_self _ _))
          (chains i ((mem_firstRows page).mpr ⟨Nat.zero_le _, inside, first inside⟩)) committed
        obtain ⟨start', fates', refs, ledger'⟩ := cleanLoop_ledger page chains fuel _ i₁ _ _ kept _ result
          start₁ ledger₁ first₁ (by simpa only [List.map_append, List.map_singleton, List.append_assoc,
            List.singleton_append] using distinct)
          (fun p mem b row => notKept p mem b (rows ▸ List.mem_cons_of_mem _ row)) run
        refine ⟨start', fates', ?_, ledger'⟩
        rw [refs, rows, List.map_append, List.map_cons, List.append_assoc]
        rfl
    · rename_i beyond
      cases run
      refine ⟨start, fates, ?_, ledger⟩
      rw [firstRows, Nat.sub_eq_zero_of_le (Nat.le_of_not_lt beyond)]
      simp

/-- `append` adds the record's key to the ledger. -/
theorem append_ledger (record : InsertRecord)
    (keyed : ∀ u ∈ recordChain env record, u.key = record.key) :
    ∀ (fuel : Nat) (m : ColumnMapPageModifier) (kept : List ColumnMapMainPage)
      (fates : List (KeyRef × Fate)) (result : ColumnMapPageModifier × Bool),
    AtStart m → Ledger m kept fates → (∀ x ∈ fates, x.1.Apart record.keyRef) →
    (∀ p ∈ kept, p.holds record.key = false) → append env fuel m record = some result →
    AtStart result.1 ∧ ∃ fates', fates'.map Prod.fst = fates.map Prod.fst ++ [record.keyRef] ∧
      Ledger result.1 kept fates'
  | 0, _, _, _, _, _, _, _, _, run => by cases run
  | fuel + 1, m, kept, fates, result, start, ledger, apart, notKept, run => by
    unfold append at run
    split at run
    · rename_i m₁ restart
      obtain ⟨-, unchanged, grown, index⟩ := appendAttempt_restart_bound env restart
      obtain ⟨start₁, ledger₁⟩ := ledger.restart start unchanged grown index
      obtain ⟨start', fates', refs, ledger'⟩ := append_ledger record keyed fuel _ kept _ result
        start₁ ledger₁ (Ledger.apart_publish apart) notKept run
      exact ⟨start', fates', by rwa [Ledger.map_publish_fst] at refs, ledger'⟩
    · rename_i m₁ answer done
      cases run
      obtain ⟨start', committed⟩ := appendAttempt_done env start done
      obtain ⟨fate, ledger'⟩ := ledger.commit apart notKept keyed committed
      exact ⟨start', _, by simp, ledger'⟩

/-- A call adds the keys it rewrites to the ledger, and the page it returns as it was to
the kept pages. -/
theorem run_ledger {fuel : Nat} {call : ModifierCall} {m : ColumnMapPageModifier}
    {kept : List ColumnMapMainPage} {fates : List (KeyRef × Fate)} {result : ColumnMapPageModifier × Bool}
    (start : AtStart m) (ledger : Ledger m kept fates)
    (distinct : (fates.map Prod.fst ++ call.keyRefs).Pairwise KeyRef.Apart)
    (notKept : ∀ p ∈ kept, ∀ r ∈ call.keyRefs, p.holds r.key = false)
    (chains : call.ChainsKeyed env) (run : call.run env fuel m = some result) :
    AtStart result.1 ∧ ∃ fates', fates'.map Prod.fst = fates.map Prod.fst ++ call.touchedRefs env.minVersion ∧
      Ledger result.1 (kept ++ call.keptPages env.minVersion) fates' := by
  have apart : ∀ x ∈ fates, ∀ r ∈ call.keyRefs, x.1.Apart r := fun x mem =>
    (List.pairwise_append.mp distinct).2.2 _ (List.mem_map_of_mem _ mem)
  cases call with
  | clean page =>
    simp only [ModifierCall.run] at run
    unfold clean at run
    split at run
    · rename_i untouched
      cases run
      have cleaning : needsCleaning env.minVersion page = false := by simpa using untouched
      have returned : (ModifierCall.clean page).keptPages env.minVersion = [page] := by
        simp [ModifierCall.keptPages, cleaning]
      have touched : (ModifierCall.clean page).touchedRefs env.minVersion = [] := by
        simp [ModifierCall.touchedRefs, ModifierCall.touches, cleaning]
      rw [returned, touched, List.append_nil]
      exact ⟨⟨start.1, start.2, start.3, start.4⟩, fates, rfl, ledger.keep rfl rfl rfl rfl rfl
        fun x mem => ModifierCall.keptPages_holds (returned ▸ List.mem_singleton_self page)
          fun r row => (apart x mem r row).symm⟩
    · rename_i cleaning
      obtain ⟨⟨m₁, mainStartIdx, mainEndIdx⟩, loop, rfl⟩ := Option.map_eq_some'.mp run
      have returned : (ModifierCall.clean page).keptPages env.minVersion = [] := by
        simpa [ModifierCall.keptPages] using cleaning
      have touched : (ModifierCall.clean page).touchedRefs env.minVersion =
          (ModifierCall.clean page).keyRefs := by
        have needed : needsCleaning env.minVersion page = true := by simpa using cleaning
        simp [ModifierCall.touchedRefs, ModifierCall.touches, needed]
      obtain ⟨start₁, fates', refs, ledger₁⟩ := cleanLoop_ledger env page chains fuel m 0 0 0 kept fates
        _ start ledger (fun _ => .inl rfl) distinct
        (fun p mem b row => notKept p mem _ (List.mem_map_of_mem _ row)) loop
      have flushed := flushMain_written env page m₁ mainStartIdx mainEndIdx
      rw [returned, touched, List.append_nil]
      exact ⟨start₁.unwritten (flushMain_unwritten env page m₁ mainStartIdx mainEndIdx), fates', refs,
        ledger₁.unchanged start₁ flushed.kept flushed.grown⟩
  | append record =>
    have only : (ModifierCall.append record).keyRefs = [record.keyRef] := rfl
    have touched : (ModifierCall.append record).touchedRefs env.minVersion = [record.keyRef] := rfl
    rw [touched, show (ModifierCall.append record).keptPages env.minVersion = [] from rfl,
      List.append_nil]
    exact append_ledger env record chains fuel m kept fates result start ledger
      (fun x mem => apart x mem _ (only ▸ List.mem_singleton_self _))
      (fun p mem => notKept p mem _ (only ▸ List.mem_singleton_self _)) run

/-- A run of calls adds the keys they rewrite to the ledger, and the pages they return
as they were to the kept pages. -/
theorem runCalls_ledger (fuel : Nat) : ∀ (calls : List ModifierCall) (m : ColumnMapPageModifier)
    (kept : List ColumnMapMainPage) (fates : List (KeyRef × Fate))
    (result : ColumnMapPageModifier × List Bool),
    AtStart m → Ledger m kept fates →
    (fates.map Prod.fst ++ calls.flatMap ModifierCall.keyRefs).Pairwise KeyRef.Apart →
    (∀ p ∈ kept, ∀ r ∈ calls.flatMap ModifierCall.keyRefs, p.holds r.key = false) →
    (∀ call ∈ calls, call.ChainsKeyed env) → runCalls env fuel m calls = some result →
    ∃ fates', fates'.map Prod.fst = fates.map Prod.fst ++ calls.flatMap (·.touchedRefs env.minVersion) ∧
      Ledger result.1 (kept ++ calls.flatMap (·.keptPages env.minVersion)) fates'
  | [], m, kept, fates, result, _, ledger, _, _, _, run => by
    cases run
    exact ⟨fates, by simp, by simpa using ledger⟩
  | call :: calls, m, kept, fates, result, start, ledger, distinct, notKept, chains, run => by
    rcases first : call.run env fuel m with _ | ⟨m₁, answer⟩
    · simp [runCalls, first] at run
    simp only [runCalls, first, Option.pure_def, Option.bind_eq_bind, Option.some_bind,
      Option.bind_eq_some, Option.some.injEq] at run
    obtain ⟨⟨m₂, answers⟩, rest, rfl⟩ := run
    simp only [List.flatMap_cons] at distinct notKept ⊢
    obtain ⟨start₁, fates₁, refs₁, ledger₁⟩ := run_ledger env start ledger
      (distinct.sublist (by simp)) (fun p mem r mine => notKept p mem r (List.mem_append_left _ mine))
      (chains call (List.mem_cons_self _ _)) first
    have later := (List.pairwise_append.mp (List.pairwise_append.mp distinct).2.1).2.2
    obtain ⟨fates₂, refs₂, ledger₂⟩ := runCalls_ledger fuel calls m₁ _ fates₁ _ start₁ ledger₁
      (by
        rw [refs₁, List.append_assoc]
        exact distinct.sublist ((call.touchedRefs_sublist _).append (List.Sublist.refl _) |>.append_left _))
      (fun p mem r mine => (List.mem_append.mp mem).elim
        (fun old => notKept p old r (List.mem_append_right _ mine))
        (fun returned => ModifierCall.keptPages_holds returned fun r' own => later r' own r mine))
      (fun call mem => chains call (List.mem_cons_of_mem _ mem)) rest
    exact ⟨fates₂, by rw [refs₂, refs₁, List.append_assoc], by rwa [← List.append_assoc]⟩

end Run

/-- Every key a modifier run rewrites ends up in exactly one place, the index and the
newest words agreeing with it, when the keys and newest words of the input are distinct
and each chain holds entries of its key only: each key of a page that needed cleaning,
and of each insert record, is either dropped (its calls `dropEffects`, no returned page
holding it) or on exactly one returned page, one run of rows from the fill entry its index
entry and its newest word are made to point at. Pages that did not need cleaning are
returned, no pointer action is left, every fill entry pointed at is a row of a returned
page, and every returned row is of a key of the input. -/
theorem compact_places_every_key_once {env : ModifierEnv} {fuel firstPage : Nat}
    {calls : List ModifierCall} {m : ColumnMapPageModifier} {pages : List ColumnMapMainPage}
    (keys : ((calls.flatMap ModifierCall.keyRefs).map KeyRef.key).Nodup)
    (slots : ((calls.flatMap ModifierCall.keyRefs).map KeyRef.slot).Nodup)
    (chains : ∀ call ∈ calls, call.ChainsKeyed env)
    (run : compact env fuel firstPage calls = some (m, pages)) :
    (∀ call ∈ calls, call.touches env.minVersion = true → ∀ ref ∈ call.keyRefs,
      KeyPlaced pages m.effects ref) ∧
    (∀ page, ModifierCall.clean page ∈ calls → needsCleaning env.minVersion page = false →
      page ∈ pages) ∧
    m.pointerActions = [] ∧
    (∀ e ∈ m.effects, ∀ entry, e.target = some entry →
      ∃ p ∈ pages, p.address = entry.page ∧ entry.idx < p.count) ∧
    ∀ p ∈ pages, ∀ e ∈ p.entries, ∃ call ∈ calls, ∃ ref ∈ call.keyRefs, e.key = ref.key := by
  obtain ⟨⟨m₀, answers⟩, called, finished⟩ := Option.map_eq_some'.mp run
  have distinct : (calls.flatMap ModifierCall.keyRefs).Pairwise KeyRef.Apart :=
    ((List.pairwise_map.mp keys).and (List.pairwise_map.mp slots)).imp fun apart => apart
  obtain ⟨fates, refs, ledger⟩ := runCalls_ledger env fuel calls (init firstPage) [] [] _
    (init_atStart firstPage) (Ledger.init firstPage) distinct nofun chains called
  have placed := ledger.finish
  simp only at finished
  rw [finished, refs, List.map_nil, List.nil_append, List.nil_append] at placed
  refine ⟨fun call mem touches ref mine => placed.placed ref
      (List.mem_flatMap.mpr ⟨call, mem, by simpa [ModifierCall.touchedRefs, touches] using mine⟩),
    fun page mem clean => placed.keptListed page
      (List.mem_flatMap.mpr ⟨_, mem, by simp [ModifierCall.keptPages, clean]⟩),
    placed.actions, placed.targets, fun p mem e entry => ?_⟩
  rcases placed.known p mem with kept | known
  · obtain ⟨call, listed, returned⟩ := List.mem_flatMap.mp kept
    obtain ⟨ref, mine, same⟩ := ModifierCall.keptPages_keys returned e entry
    exact ⟨call, listed, ref, mine, same⟩
  · obtain ⟨ref, touched, same⟩ := known e entry
    obtain ⟨call, listed, mine⟩ := List.mem_flatMap.mp touched
    exact ⟨call, listed, ref, (call.touchedRefs_sublist _).subset mine, same⟩

/-- Low-water mark 10: a page holding key 1 (a row at version 20 with a chain pending at its
newest word 9) and key 2 (a row at version 30 with an update at version 40 pending), then an
insert record of key 3. Both calls rewrite their keys, and the run places each of the three. -/
theorem compact_places_two_keys_and_insert :
    (([ModifierCall.clean ⟨100, [⟨1, 20, 9⟩, ⟨2, 30, 7⟩], [⟨16, 1, []⟩, ⟨16, 2, []⟩], 0⟩,
        .append ⟨500, 3, 0, ⟨16, [], 6⟩, 0⟩].flatMap ModifierCall.keyRefs).map KeyRef.key).Nodup ∧
    (([ModifierCall.clean ⟨100, [⟨1, 20, 9⟩, ⟨2, 30, 7⟩], [⟨16, 1, []⟩, ⟨16, 2, []⟩], 0⟩,
        .append ⟨500, 3, 0, ⟨16, [], 6⟩, 0⟩].flatMap ModifierCall.keyRefs).map KeyRef.slot).Nodup ∧
    (∀ call ∈ [ModifierCall.clean ⟨100, [⟨1, 20, 9⟩, ⟨2, 30, 7⟩], [⟨16, 1, []⟩, ⟨16, 2, []⟩], 0⟩,
        .append ⟨500, 3, 0, ⟨16, [], 6⟩, 0⟩],
      call.ChainsKeyed ⟨⟨16, 8, 0, 100, 4000⟩, 10,
        ⟨fun newest _ => if newest = 7 then [⟨2, 40, .data, ⟨16, [], 3⟩⟩] else []⟩⟩) ∧
    (∀ call ∈ [ModifierCall.clean ⟨100, [⟨1, 20, 9⟩, ⟨2, 30, 7⟩], [⟨16, 1, []⟩, ⟨16, 2, []⟩], 0⟩,
        .append ⟨500, 3, 0, ⟨16, [], 6⟩, 0⟩], call.touches 10 = true) ∧
    ∃ m pages, compact ⟨⟨16, 8, 0, 100, 4000⟩, 10,
        ⟨fun newest _ => if newest = 7 then [⟨2, 40, .data, ⟨16, [], 3⟩⟩] else []⟩⟩ 5 200
        [.clean ⟨100, [⟨1, 20, 9⟩, ⟨2, 30, 7⟩], [⟨16, 1, []⟩, ⟨16, 2, []⟩], 0⟩,
          .append ⟨500, 3, 0, ⟨16, [], 6⟩, 0⟩] = some (m, pages) ∧
      ∀ call ∈ [ModifierCall.clean ⟨100, [⟨1, 20, 9⟩, ⟨2, 30, 7⟩], [⟨16, 1, []⟩, ⟨16, 2, []⟩], 0⟩,
          .append ⟨500, 3, 0, ⟨16, [], 6⟩, 0⟩],
        call.touches 10 = true → ∀ ref ∈ call.keyRefs, KeyPlaced pages m.effects ref := by
  obtain ⟨⟨m, pages⟩, run⟩ := Option.isSome_iff_exists.mp (show (compact ⟨⟨16, 8, 0, 100, 4000⟩, 10,
      ⟨fun newest _ => if newest = 7 then [⟨2, 40, .data, ⟨16, [], 3⟩⟩] else []⟩⟩ 5 200
      [.clean ⟨100, [⟨1, 20, 9⟩, ⟨2, 30, 7⟩], [⟨16, 1, []⟩, ⟨16, 2, []⟩], 0⟩,
        .append ⟨500, 3, 0, ⟨16, [], 6⟩, 0⟩]).isSome from rfl)
  exact ⟨by decide, by decide, by decide, by decide, m, pages, run,
    (compact_places_every_key_once (by decide) (by decide) (by decide) run).1⟩

/-- Without distinct keys or distinct newest words a key is not placed once. Key 1 on two
pages: both rows go to the fill page, and key 1 is indexed twice. -/
example : ∃ m pages, compact ⟨⟨16, 8, 0, 100, 4000⟩, 10, ⟨fun _ _ => []⟩⟩ 5 200
      [.clean ⟨100, [⟨1, 20, 7⟩], [⟨16, 1, []⟩], 0⟩, .clean ⟨300, [⟨1, 25, 8⟩], [⟨16, 2, []⟩], 0⟩] =
        some (m, pages) ∧
      ¬KeyPlaced pages m.effects ⟨1, .main 100 0, 7, true⟩ :=
  ⟨_, _, rfl, fun placed => absurd placed.concerns_length_le (by decide)⟩

/-- Keys 1 and 2 with the newest word of row 0 of pages at one address: that word is made to
point at both keys' rows. -/
example : ∃ m pages, compact ⟨⟨16, 8, 0, 100, 4000⟩, 10, ⟨fun _ _ => []⟩⟩ 5 200
      [.clean ⟨100, [⟨1, 20, 7⟩], [⟨16, 1, []⟩], 0⟩, .clean ⟨100, [⟨2, 25, 8⟩], [⟨16, 2, []⟩], 0⟩] =
        some (m, pages) ∧
      ¬KeyPlaced pages m.effects ⟨1, .main 100 0, 7, true⟩ :=
  ⟨_, _, rfl, fun placed => absurd placed.concerns_length_le (by decide)⟩

/-- An insert record whose only update is a delete above the low-water mark, over a base
version below it: the run drops the record, CAS-ing its newest word to INVALID, and calls
no `remove`; no page is returned. -/
theorem compact_drops_insert_without_remove :
    ∃ m pages, compact ⟨⟨16, 8, 0, 100, 4000⟩, 10, ⟨fun _ _ => [⟨3, 30, .delete, ⟨0, [], 0⟩⟩]⟩⟩ 3 200
      [.append ⟨7, 3, 5, ⟨8, [], 42⟩, 9⟩] = some (m, pages) ∧
      m.effects = [.invalidate (.insert 7) 9] ∧ pages = [] :=
  ⟨_, _, rfl, rfl, rfl⟩

/-- Modelled from the spec: what a snapshot at version `snapshot` reads of a key whose
versions, newest first, are `versions` (each a version and its payload, `none` for a
delete or a tombstone): the newest version it sees decides. -/
def snapshotRead (snapshot : Nat) : List (Nat × Option Nat) → Option Nat
  | [] => none
  | (version, payload) :: rest => if version ≤ snapshot then payload else snapshotRead snapshot rest

/-- An update-log entry as a version of its key. -/
def UpdateLogEntry.asVersion (u : UpdateLogEntry) : Nat × Option Nat :=
  (u.version, match u.type with
    | .data => some u.tuple.payload
    | .delete => none)

/-- The rows of `key` on a page as versions of it, a zero size marking a tombstone. -/
def ColumnMapMainPage.versions (page : ColumnMapMainPage) (key : Nat) : List (Nat × Option Nat) :=
  ((page.entries.zip page.data).filter fun x => x.1.key = key).map fun x =>
    (x.1.version, if x.2.size = 0 then none else some x.2.payload)

/-- Key 1 has one row at version 5 and a delete at version 30 in its chain; the low-water
mark is 10. A snapshot at version 20 reads the row's payload 42 before compaction. The
copy loop takes the row, below the low-water mark, as cancelling the delete: the key is
invalidated and removed from the index, and no returned page holds a version of it that
the snapshot could read. -/
theorem clean_drops_row_a_snapshot_reads :
    ∃ m pages, compact ⟨⟨16, 8, 0, 100, 4000⟩, 10, ⟨fun _ _ => [⟨1, 30, .delete, ⟨0, [], 0⟩⟩]⟩⟩ 3 200
      [.clean ⟨100, [⟨1, 5, 9⟩], [⟨16, 42, []⟩], 0⟩] = some (m, pages) ∧
      snapshotRead 20 ([⟨1, 30, .delete, ⟨0, [], 0⟩⟩].map UpdateLogEntry.asVersion ++
        ColumnMapMainPage.versions ⟨100, [⟨1, 5, 9⟩], [⟨16, 42, []⟩], 0⟩ 1) = some 42 ∧
      m.effects = [.invalidate (.main 100 0) 9, .remove 1] ∧
      snapshotRead 20 (pages.flatMap (·.versions 1)) = none :=
  ⟨_, _, rfl, rfl, rfl, rfl⟩

end Tellstore.Deltamain.ColumnMap
