import Mathlib.Data.List.Basic

/-!
# The newest word of one record: writers against the compactor

One record's `newest` word, shared by the compactor and any number of writers. A writer
loads the word and, if it holds a delta-chain head `h` (no delta, or an update), CASes it
from `h` to a fresh update whose `previous` is `h`; a word tagged INVALID or MAIN sends
the writer elsewhere. The compactor (ColumnMapPage.cpp) loads the word as `newest`
(line 86) and builds the key's rows from the chain there. A key that keeps no row is
invalidated by `CAS(newest, INVALID)`, and a failed CAS sends the compactor back to
`START` to load again (lines 117-123, 214-219). A key that keeps rows gets the pointer
action `(slot, newest, e)`, which `flushFillPage` runs as a CAS loop (lines 632-637): on
failure the observed word is stored into `e.newest` and the CAS retried from it.

Which branch the compactor takes depends on the chain at the loaded word, given as
`keepsRows`. An interleaving is a list of actors; `run` takes the steps in order.

For every interleaving (`run_invariant`):
* INVALID is installed only by the compactor's CAS, while the word still holds the value
  it loaded (`invalid_only_from_loaded`);
* once the pointer-action loop ends, the word holds `e` tagged MAIN, `e.newest` is zero
  when the successful CAS found the loaded value and is otherwise that CAS's replaced
  head, and every update installed after the load is reachable from `e.newest`.
-/

set_option autoImplicit false

namespace Tellstore.Deltamain.NewestPointer

/-- The values of a newest word: no delta, an update of the log (by its index), the
INVALID tag, or the compactor's new entry `e` tagged MAIN. -/
inductive Word where
  | null
  | update (id : Nat)
  | invalid
  | main
  deriving DecidableEq, Repr

/-- A delta-chain head: what a writer may chain a new update onto. -/
def Word.IsHead : Word → Prop
  | .null => True
  | .update _ => True
  | .invalid => False
  | .main => False

instance (w : Word) : Decidable w.IsHead := by
  cases w <;> simp only [Word.IsHead] <;> infer_instance

/-- Where a writer is: about to load, or holding the loaded word. -/
inductive WriterPc where
  | idle
  | loaded (head : Word)
  deriving DecidableEq, Repr

/-- Where the compactor is for this key. `fresh` is the first update index not yet
allocated when the word was loaded. -/
inductive CompactorPc where
  | start
  | loaded (h0 : Word) (fresh : Nat)
  | flushing (h0 : Word) (fresh : Nat) (expected : Word)
  | invalidated (h0 : Word)
  | installed (h0 : Word) (fresh : Nat) (replaced : Word)
  deriving DecidableEq, Repr

/-- The shared memory and the threads' positions. `updates[n]` is the `previous` word of
update `n`; updates are allocated at the end. -/
structure State where
  slot : Word
  entryNewest : Word
  updates : List Word
  writer : Nat → WriterPc
  compactor : CompactorPc

/-- A step of the compactor. -/
def compactorStep (keepsRows : Word → Bool) (s : State) : State :=
  match s.compactor with
  | .start => { s with compactor := .loaded s.slot s.updates.length }
  | .loaded h0 fresh =>
    if keepsRows h0 then { s with compactor := .flushing h0 fresh h0 }
    else if s.slot = h0 then { s with slot := .invalid, compactor := .invalidated h0 }
    else { s with compactor := .start }
  | .flushing h0 fresh expected =>
    if s.slot = expected then { s with slot := .main, compactor := .installed h0 fresh expected }
    else { s with entryNewest := s.slot, compactor := .flushing h0 fresh s.slot }
  | .invalidated _ => s
  | .installed _ _ _ => s

/-- A step of writer `w`: load, or CAS a fresh update onto the loaded head. -/
def writerStep (w : Nat) (s : State) : State :=
  match s.writer w with
  | .idle => { s with writer := Function.update s.writer w (.loaded s.slot) }
  | .loaded head =>
    let s := { s with writer := Function.update s.writer w .idle }
    if head.IsHead ∧ s.slot = head then
      { s with slot := .update s.updates.length, updates := s.updates ++ [head] }
    else s

/-- Who moves next. -/
inductive Actor where
  | compactor
  | writer (w : Nat)

/-- One step of the interleaving. -/
def step (keepsRows : Word → Bool) (s : State) : Actor → State
  | .compactor => compactorStep keepsRows s
  | .writer w => writerStep w s

/-- An interleaving, from `s`. -/
def run (keepsRows : Word → Bool) (s : State) (trace : List Actor) : State :=
  trace.foldl (step keepsRows) s

/-- Following `previous` words from `w` reaches `target`. -/
inductive Reaches (updates : List Word) : Word → Word → Prop where
  | refl (w : Word) : Reaches updates w w
  | previous (n : Nat) (target : Word) (allocated : n < updates.length)
      (rest : Reaches updates (updates.getD n .null) target) :
      Reaches updates (.update n) target

/-- A word naming only allocated updates. -/
def Word.Allocated (updates : List Word) : Word → Prop
  | .update n => n < updates.length
  | _ => True

/-- Every update allocated from index `fresh` on is reachable from `w`. -/
def CarriesFrom (updates : List Word) (w : Word) (fresh : Nat) : Prop :=
  ∀ n, fresh ≤ n → n < updates.length → Reaches updates w (.update n)

/-- While the compactor holds `h0`, loaded when `fresh` updates were allocated: the word
is still a chain head, reaching every update installed since; it is still `h0` exactly
when none was installed. -/
structure Tracking (slot : Word) (updates : List Word) (h0 : Word) (fresh : Nat) : Prop where
  head : slot.IsHead
  fresh_le : fresh ≤ updates.length
  carries : CarriesFrom updates slot fresh
  moved : (slot = h0 ∧ updates.length = fresh) ∨ ∃ n, fresh ≤ n ∧ slot = .update n
  loaded_old : ∀ k, h0 = .update k → k < fresh

/-- What every reachable state satisfies, by the compactor's position. -/
def CompactorInvariant (slot entryNewest : Word) (updates : List Word) : CompactorPc → Prop
  | .start => slot.IsHead ∧ entryNewest = .null
  | .loaded h0 fresh => Tracking slot updates h0 fresh ∧ entryNewest = .null
  | .flushing h0 fresh expected => Tracking slot updates h0 fresh ∧
      ((expected = h0 ∧ entryNewest = .null) ∨
        (entryNewest = expected ∧ ∃ n, fresh ≤ n ∧ n < updates.length ∧ expected = .update n))
  | .invalidated _ => slot = .invalid
  | .installed h0 fresh replaced => slot = .main ∧
      entryNewest = (if replaced = h0 then .null else replaced) ∧
      CarriesFrom updates replaced fresh ∧ (replaced = h0 → updates.length = fresh)

/-- The invariant of every interleaving. -/
structure Invariant (s : State) : Prop where
  slot_allocated : s.slot.Allocated s.updates
  writers_allocated : ∀ w head, s.writer w = .loaded head → head.Allocated s.updates
  compactor : CompactorInvariant s.slot s.entryNewest s.updates s.compactor

/-- Where a run starts: the word holds an allocated chain head, `e.newest` is zero, the
compactor is at `START` and no writer holds a loaded word. -/
structure Initial (s : State) : Prop where
  head : s.slot.IsHead
  allocated : s.slot.Allocated s.updates
  entry_null : s.entryNewest = .null
  compactor_start : s.compactor = .start
  writers_idle : ∀ w, s.writer w = .idle

theorem Reaches.append {updates : List Word} {w target : Word} (reach : Reaches updates w target)
    (extra : List Word) : Reaches (updates ++ extra) w target := by
  induction reach with
  | refl w => exact .refl w
  | previous n target allocated _ ih =>
    refine .previous n target (by simp; omega) ?_
    simpa [List.getD_eq_getElem?_getD, List.getElem?_append_left allocated] using ih

theorem Word.Allocated.append {updates : List Word} {w : Word} (allocated : w.Allocated updates)
    (extra : List Word) : w.Allocated (updates ++ extra) := by
  cases w <;> simp_all [Word.Allocated]
  omega

/-- A writer's successful CAS keeps every update installed since `fresh` reachable. -/
theorem CarriesFrom.install {updates : List Word} {head : Word} {fresh : Nat}
    (carries : CarriesFrom updates head fresh) :
    CarriesFrom (updates ++ [head]) (.update updates.length) fresh := by
  intro n low high
  simp only [List.length_append, List.length_singleton] at high
  by_cases newest : n = updates.length
  · subst newest
    exact .refl _
  · refine .previous _ _ (by simp) ?_
    simpa [List.getD_eq_getElem?_getD] using (carries n low (by omega)).append [head]

theorem initial_invariant (s : State) (initial : Initial s) : Invariant s where
  slot_allocated := initial.allocated
  writers_allocated := fun w head loaded => by simp [initial.writers_idle w] at loaded
  compactor := by
    rw [initial.compactor_start]
    exact ⟨initial.head, initial.entry_null⟩

/-- A writer's successful CAS keeps the compactor's view: the word moves to the new
update, which reaches every update installed since the load. -/
theorem CompactorInvariant.install {slot entryNewest : Word} {updates : List Word}
    {pc : CompactorPc} (before : CompactorInvariant slot entryNewest updates pc)
    (head : slot.IsHead) :
    CompactorInvariant (.update updates.length) entryNewest (updates ++ [slot]) pc := by
  have tracking : ∀ h0 fresh, Tracking slot updates h0 fresh →
      Tracking (.update updates.length) (updates ++ [slot]) h0 fresh := fun h0 fresh t =>
    ⟨trivial, by simp; have := t.fresh_le; omega, t.carries.install,
      .inr ⟨_, t.fresh_le, rfl⟩, t.loaded_old⟩
  cases pc with
  | start => exact ⟨trivial, before.2⟩
  | loaded h0 fresh => exact ⟨tracking h0 fresh before.1, before.2⟩
  | flushing h0 fresh expected =>
    refine ⟨tracking h0 fresh before.1, ?_⟩
    rcases before.2 with first | ⟨stored, n, low, high, named⟩
    · exact .inl first
    · exact .inr ⟨stored, n, low, by simp; omega, named⟩
  | invalidated h0 =>
    simp only [CompactorInvariant] at before
    simp [before, Word.IsHead] at head
  | installed h0 fresh replaced =>
    simp only [CompactorInvariant] at before
    simp [before.1, Word.IsHead] at head

theorem writerStep_invariant (w : Nat) (s : State) (before : Invariant s) :
    Invariant (writerStep w s) := by
  unfold writerStep
  split
  · exact ⟨before.slot_allocated, fun v head loaded => by
      by_cases same : v = w
      · subst same
        simp only [Function.update_same, WriterPc.loaded.injEq] at loaded
        exact loaded ▸ before.slot_allocated
      · simp only [Function.update_noteq same] at loaded
        exact before.writers_allocated v head loaded, before.compactor⟩
  · rename_i head loaded
    dsimp only
    split
    · rename_i installs
      obtain ⟨isHead, same⟩ := installs
      refine ⟨by simp [Word.Allocated], fun v h loaded' => ?_, ?_⟩
      · by_cases v_eq : v = w
        · subst v_eq
          simp at loaded'
        · simp only [Function.update_noteq v_eq] at loaded'
          exact (before.writers_allocated v h loaded').append _
      · simpa [same] using before.compactor.install (same ▸ isHead)
    · exact ⟨before.slot_allocated, fun v h loaded' => by
        by_cases v_eq : v = w
        · subst v_eq
          simp at loaded'
        · simp only [Function.update_noteq v_eq] at loaded'
          exact before.writers_allocated v h loaded', before.compactor⟩

theorem compactorStep_invariant (keepsRows : Word → Bool) (s : State) (before : Invariant s) :
    Invariant (compactorStep keepsRows s) := by
  obtain ⟨allocated, writers, compactor⟩ := before
  unfold compactorStep
  split
  · rename_i started
    rw [started] at compactor
    refine ⟨allocated, writers, ⟨⟨compactor.1, le_rfl, fun n low high => by simp at high; omega,
      .inl ⟨rfl, rfl⟩, fun k named => ?_⟩, compactor.2⟩⟩
    simpa [named, Word.Allocated] using allocated
  · rename_i h0 fresh loaded
    rw [loaded] at compactor
    split
    · exact ⟨allocated, writers, compactor.1, .inl ⟨rfl, compactor.2⟩⟩
    · split
      · exact ⟨by simp [Word.Allocated], writers, rfl⟩
      · exact ⟨allocated, writers, compactor.1.head, compactor.2⟩
  · rename_i h0 fresh expected flushing
    rw [flushing] at compactor
    obtain ⟨tracking, entry⟩ := compactor
    split
    · rename_i found
      refine ⟨by simp [Word.Allocated], writers, rfl, ?_, found ▸ tracking.carries, ?_⟩
      · rcases entry with ⟨first, null⟩ | ⟨stored, n, low, _, named⟩
        · simp [first, null]
        · have differs : expected ≠ h0 := by
            intro same
            have := tracking.loaded_old n (by rw [← same, named])
            omega
          simp [differs, stored]
      · intro same
        rcases tracking.moved with ⟨_, length⟩ | ⟨n, low, named⟩
        · exact length
        · have := tracking.loaded_old n (by rw [← same, ← found, named])
          omega
    · rename_i missed
      refine ⟨allocated, writers, tracking, .inr ⟨rfl, ?_⟩⟩
      rcases tracking.moved with ⟨at_h0, _⟩ | ⟨n, low, named⟩
      · rcases entry with ⟨first, _⟩ | ⟨_, n, low, high, named⟩
        · exact absurd (at_h0.trans first.symm) missed
        · omega
      · exact ⟨n, low, by simpa [named, Word.Allocated] using allocated, named⟩
  · exact ⟨allocated, writers, by assumption⟩
  · exact ⟨allocated, writers, by assumption⟩

theorem run_invariant (keepsRows : Word → Bool) (s : State) (initial : Initial s)
    (trace : List Actor) : Invariant (run keepsRows s trace) := by
  have fold : ∀ (trace : List Actor) (s : State), Invariant s →
      Invariant (trace.foldl (step keepsRows) s) := by
    intro trace
    induction trace with
    | nil => exact fun _ before => before
    | cons actor trace ih =>
      intro s before
      apply ih
      cases actor with
      | compactor => exact compactorStep_invariant keepsRows s before
      | writer w => exact writerStep_invariant w s before
  exact fold trace s (initial_invariant s initial)

/-- A writer's step leaves the word alone or installs the next update. -/
theorem writerStep_slot (w : Nat) (s : State) :
    (writerStep w s).slot = s.slot ∨ (writerStep w s).slot = .update s.updates.length := by
  unfold writerStep
  split
  · exact .inl rfl
  · dsimp only
    split
    · exact .inr rfl
    · exact .inl rfl

/-- The compactor's step installs INVALID only by its CAS from the word it loaded. -/
theorem compactorStep_slot_invalid (keepsRows : Word → Bool) (s : State)
    (installs : (compactorStep keepsRows s).slot = .invalid) (before : s.slot ≠ .invalid) :
    ∃ fresh, s.compactor = .loaded s.slot fresh := by
  unfold compactorStep at installs
  split at installs
  · exact absurd installs before
  · rename_i h0 fresh loaded
    split at installs
    · exact absurd installs before
    · split at installs
      · rename_i same
        exact ⟨fresh, by rw [loaded, same]⟩
      · exact absurd installs before
  · split at installs
    · cases installs
    · exact absurd installs before
  · exact absurd installs before
  · exact absurd installs before

/-- A step that installs INVALID is the compactor's CAS from the word it loaded. -/
theorem invalid_only_from_loaded (keepsRows : Word → Bool) (s : State) (actor : Actor)
    (installs : (step keepsRows s actor).slot = .invalid) (before : s.slot ≠ .invalid) :
    ∃ fresh, s.compactor = .loaded s.slot fresh := by
  cases actor with
  | compactor => exact compactorStep_slot_invalid keepsRows s installs before
  | writer w =>
    rcases writerStep_slot w s with same | fresh
    · exact absurd (same ▸ installs) before
    · cases fresh ▸ installs

/-- For every interleaving of writers with the compactor: INVALID is installed only by
the compactor's CAS while the word still holds the value it loaded; and once the
pointer-action loop has ended, the word holds the new entry tagged MAIN, the entry's
newest word is zero if the successful CAS found the loaded value (and then no update was
installed since the load) and otherwise is exactly the head that CAS replaced, and every
update installed after the load is reachable from it. -/
theorem newest_word_protocol (keepsRows : Word → Bool) (s₀ : State) (initial : Initial s₀)
    (trace : List Actor) :
    (∀ actor, (step keepsRows (run keepsRows s₀ trace) actor).slot = .invalid →
      (run keepsRows s₀ trace).slot ≠ .invalid →
      ∃ fresh, (run keepsRows s₀ trace).compactor = .loaded (run keepsRows s₀ trace).slot fresh) ∧
    (∀ h0 fresh replaced, (run keepsRows s₀ trace).compactor = .installed h0 fresh replaced →
      (run keepsRows s₀ trace).slot = .main ∧
      (run keepsRows s₀ trace).entryNewest = (if replaced = h0 then .null else replaced) ∧
      (replaced = h0 → (run keepsRows s₀ trace).updates.length = fresh) ∧
      ∀ n, fresh ≤ n → n < (run keepsRows s₀ trace).updates.length →
        Reaches (run keepsRows s₀ trace).updates (run keepsRows s₀ trace).entryNewest (.update n)) := by
  refine ⟨fun actor => invalid_only_from_loaded keepsRows _ actor, ?_⟩
  intro h0 fresh replaced installed
  have invariant := (run_invariant keepsRows s₀ initial trace).compactor
  rw [installed] at invariant
  obtain ⟨main, entry, carries, unchanged⟩ := invariant
  refine ⟨main, entry, unchanged, fun n low high => ?_⟩
  by_cases same : replaced = h0
  · have := unchanged same
    omega
  · simpa [entry, same] using carries n low high

/-- A writer installs update 0 between the compactor's load of a null word and its first
CAS; the retried CAS succeeds and `e.newest` is that update. -/
theorem newest_word_protocol_one_writer :
    Initial ⟨.null, .null, [], fun _ => .idle, .start⟩ ∧
    (run (fun _ => true) ⟨.null, .null, [], fun _ => .idle, .start⟩
      [.compactor, .writer 0, .compactor, .writer 0, .compactor, .compactor]).slot = .main ∧
    (run (fun _ => true) ⟨.null, .null, [], fun _ => .idle, .start⟩
      [.compactor, .writer 0, .compactor, .writer 0, .compactor, .compactor]).entryNewest =
      .update 0 := by
  have initial : Initial ⟨.null, .null, [], fun _ => .idle, .start⟩ :=
    ⟨trivial, trivial, rfl, rfl, fun _ => rfl⟩
  obtain ⟨main, entry, -⟩ := (newest_word_protocol (fun _ => true) _ initial
    [.compactor, .writer 0, .compactor, .writer 0, .compactor, .compactor]).2 .null 0 (.update 0) rfl
  exact ⟨initial, main, entry⟩

end Tellstore.Deltamain.NewestPointer
