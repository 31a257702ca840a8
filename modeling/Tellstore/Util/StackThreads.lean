import Tellstore.Util.FixedSizeStack

/-!
# FixedSizeStack: concurrent calls

The calls of `FixedSizeStack<T>` (src/util/FixedSizeStack.hpp) as threads that interleave
at every access to a shared member: the load and the compare-and-swap of `mWriteHead`
(lines 42, 44), the store into `mVec` (line 46), and the loads and the increment of
`mHead` (lines 49, 52, 53) in `push`; the load of `mHead`, the read of `mVec` and the
compare-and-swap of `mHead` (lines 29, 34, 35) in `pop`. The tests between two accesses
only read locals and run with the access before them. A thread is its call's program
point with the locals it holds; a schedule names the thread that takes each step, and a
thread that has returned stays where it is.

Over every schedule from a fresh stack:
* with any pushes and pops, `mWriteHead` stays within the capacity, the slots below it are
  exactly the claimed ones, each claimed by one push, a stored slot keeps the element its
  push stored, and a push that returned `false` found every slot claimed;
* with pushes only, `mHead` moves past a slot only once the push that claimed it has
  stored its element, a push that returned `true` has its slot below `mHead`, and once
  every push has returned, `mHead` has caught up with `mWriteHead`.

Pops break the second: a push still in the spin of lines 50-54 after its own increment sees
a pop lower `mHead` back to its slot and increments it again, so its element is popped
twice (the example at the end of the module). A pop's read of `mVec[head - 1]` past the
vector's end is undefined in the source; the model reads a null slot there.
-/

set_option autoImplicit false

namespace Tellstore.Util

namespace FixedSizeStack

variable {α : Type}

/-- Where a `push(element)` call is (lines 40-57), with the slot `wHead` it loaded or
claimed. -/
inductive PushAt where
  /-- Line 42: load `mWriteHead`, then the test of line 43. -/
  | start
  /-- Line 44: compare-and-swap `mWriteHead` from `wHead` to `wHead + 1`. -/
  | claim (wHead : Nat)
  /-- Line 46: store the element into slot `wHead`. -/
  | store (wHead : Nat)
  /-- Lines 49 and 53: load `mHead`, then the tests of lines 50 and 51. -/
  | load (wHead : Nat)
  /-- Line 52: `++mHead`. -/
  | bump (wHead : Nat)
  /-- Returned `false` at line 43. -/
  | full
  /-- Returned `true` at line 55, having claimed slot `wHead`. -/
  | pushed (wHead : Nat)
  deriving DecidableEq, Repr

/-- Where a `pop(result)` call is (lines 27-38), with the head it loaded and the slot it
read. -/
inductive PopAt (α : Type) where
  /-- Line 29: load `mHead`, then the test of line 30. -/
  | start
  /-- Line 34: read slot `head - 1`. -/
  | read (head : Nat)
  /-- Line 35: compare-and-swap `mHead` from `head` to `head - 1`. -/
  | exchange (head : Nat) (result : Option α)
  /-- Returned `false` at line 32 with a null result. -/
  | empty
  /-- Returned `true` at line 36 with `result`. -/
  | popped (result : Option α)
  deriving DecidableEq, Repr

/-- A call in progress. -/
inductive Thread (α : Type) where
  | push (element : α) (pc : PushAt)
  | pop (pc : PopAt α)
  deriving DecidableEq, Repr

/-- One shared access of a thread, with the local tests that follow it. -/
def Thread.step (s : FixedSizeStack α) : Thread α → FixedSizeStack α × Thread α
  | .push element .start =>
    (s, .push element (if s.writeHead = s.vec.length then .full else .claim s.writeHead))
  | .push element (.claim wHead) =>
    if s.writeHead = wHead then ({ s with writeHead := wHead + 1 }, .push element (.store wHead))
    else (s, .push element .start)
  | .push element (.store wHead) =>
    ({ s with vec := s.vec.set wHead (some element) }, .push element (.load wHead))
  | .push element (.load wHead) =>
    (s, .push element
      (if s.head ≤ wHead then (if s.head = wHead then .bump wHead else .load wHead)
        else .pushed wHead))
  | .push element (.bump wHead) => ({ s with head := s.head + 1 }, .push element (.load wHead))
  | .push element .full => (s, .push element .full)
  | .push element (.pushed wHead) => (s, .push element (.pushed wHead))
  | .pop .start => (s, .pop (if s.head = 0 then .empty else .read s.head))
  | .pop (.read head) => (s, .pop (.exchange head (s.vec.getD (head - 1) none)))
  | .pop (.exchange head result) =>
    if s.head = head then ({ s with head := head - 1 }, .pop (.popped result))
    else (s, .pop .start)
  | .pop .empty => (s, .pop .empty)
  | .pop (.popped result) => (s, .pop (.popped result))

/-- A call about to start. -/
def Call.thread : Call α → Thread α
  | .push element => .push element .start
  | .pop => .pop .start

/-- The shared members and `n` calls in progress. -/
structure System (α : Type) (n : Nat) where
  stack : FixedSizeStack α
  threads : Fin n → Thread α

section Schedules

variable {n : Nat}

/-- Thread `i` takes one step. -/
def System.step (sys : System α n) (i : Fin n) : System α n :=
  ⟨((sys.threads i).step sys.stack).1,
    Function.update sys.threads i ((sys.threads i).step sys.stack).2⟩

/-- The threads take steps in the order the schedule names them. -/
def System.run (sys : System α n) (schedule : List (Fin n)) : System α n :=
  schedule.foldl System.step sys

/-- The calls, started together on a fresh stack of `size` slots. -/
def System.start (size : Nat) (calls : List (Call α)) : System α calls.length :=
  ⟨init size, fun i => (calls.get i).thread⟩

theorem System.start_threads (size : Nat) (calls : List (Call α)) (i : Fin calls.length) :
    (System.start size calls).threads i = (calls.get i).thread := rfl

theorem System.step_stack (sys : System α n) (i : Fin n) :
    (sys.step i).stack = ((sys.threads i).step sys.stack).1 := rfl

theorem System.step_thread (sys : System α n) (i j : Fin n) :
    (sys.step i).threads j =
      if j = i then ((sys.threads i).step sys.stack).2 else sys.threads j :=
  Function.update_apply _ _ _ _

/-- What a thread's step keeps of it, every thread keeps. -/
theorem System.step_view {β : Type} (view : Thread α → β) (sys : System α n) (i : Fin n)
    (kept : view ((sys.threads i).step sys.stack).2 = view (sys.threads i)) (j : Fin n) :
    view ((sys.step i).threads j) = view (sys.threads j) := by
  rw [System.step_thread]
  split
  · subst_vars
    exact kept
  · rfl

end Schedules

/-! ### What a step does to the claims -/

/-- The slot a push has claimed with its compare-and-swap on `mWriteHead`. -/
def Thread.claimed : Thread α → Option Nat
  | .push _ (.store w) | .push _ (.load w) | .push _ (.bump w) | .push _ (.pushed w) => some w
  | _ => none

/-- The slot and element a push has stored. -/
def Thread.stored : Thread α → Option (Nat × α)
  | .push e (.load w) | .push e (.bump w) | .push e (.pushed w) => some (w, e)
  | _ => none

/-- The slot a push is about to claim. -/
def Thread.claiming : Thread α → Option Nat
  | .push _ (.claim w) => some w
  | _ => none

theorem Thread.claimed_of_stored {t : Thread α} {w : Nat} {e : α}
    (stored : t.stored = some (w, e)) : t.claimed = some w := by
  rcases t with ⟨_, _ | _ | _ | _ | _ | _ | _⟩ | _ <;> cases stored <;> rfl

theorem Call.thread_claimed (c : Call α) : c.thread.claimed = none := by cases c <;> rfl

theorem Call.thread_stored (c : Call α) : c.thread.stored = none := by cases c <;> rfl

theorem Call.thread_claiming (c : Call α) : c.thread.claiming = none := by cases c <;> rfl

/-- A step claims nothing and stores nothing; or it is a successful compare-and-swap on
`mWriteHead`; or it stores an element into the slot its push claimed. -/
theorem Thread.step_cases (s : FixedSizeStack α) (t : Thread α) :
    ((t.step s).2.claimed = t.claimed ∧ (t.step s).2.stored = t.stored ∧
      (t.step s).1.writeHead = s.writeHead ∧ (t.step s).1.vec = s.vec) ∨
    (∃ e, t = .push e (.claim s.writeHead) ∧
      t.step s = ({ s with writeHead := s.writeHead + 1 }, .push e (.store s.writeHead))) ∨
    (∃ e w, t = .push e (.store w) ∧
      t.step s = ({ s with vec := s.vec.set w (some e) }, .push e (.load w))) := by
  cases t with
  | push e pc =>
    cases pc with
    | claim w =>
      by_cases won : s.writeHead = w
      · subst won
        exact .inr (.inl ⟨e, rfl, by simp [Thread.step]⟩)
      · refine .inl ⟨?_, ?_, ?_, ?_⟩ <;> simp only [Thread.step, if_neg won] <;> rfl
    | store w => exact .inr (.inr ⟨e, w, rfl, rfl⟩)
    | _ => refine .inl ⟨?_, ?_, ?_, ?_⟩ <;> simp only [Thread.step] <;> (try split_ifs) <;> rfl
  | pop pc =>
    cases pc <;> refine .inl ⟨?_, ?_, ?_, ?_⟩ <;> simp only [Thread.step] <;>
      (try split_ifs) <;> rfl

/-- A push goes to the compare-and-swap only with the `wHead` it loaded below the size. -/
theorem Thread.step_claiming (s : FixedSizeStack α) (t : Thread α) (w : Nat)
    (next : (t.step s).2.claiming = some w) :
    t.claiming = some w ∨ (w = s.writeHead ∧ s.writeHead ≠ s.vec.length) := by
  rcases t with ⟨e, _ | w' | _ | _ | _ | _ | _⟩ | ⟨_ | _ | _ | _ | _⟩ <;>
    simp only [Thread.step] at next
  · split_ifs at next with free
    · cases next
    · exact .inr ⟨(Option.some.inj next).symm, free⟩
  all_goals first
    | cases next
    | (split_ifs at next <;> cases next)

/-- A push returns `false` only having loaded a full `mWriteHead`. -/
theorem Thread.step_full (s : FixedSizeStack α) (t : Thread α) (e : α)
    (next : (t.step s).2 = .push e .full) :
    t = .push e .full ∨ s.writeHead = s.vec.length := by
  rcases t with ⟨e', _ | _ | _ | _ | _ | _ | _⟩ | ⟨_ | _ | _ | _ | _⟩ <;>
    simp only [Thread.step] at next
  · split_ifs at next with free
    · exact .inr free
    · cases next
  all_goals first
    | exact .inl next
    | cases next
    | (split_ifs at next <;> cases next)

/-! ### Pushes never share a slot -/

section Apart

variable {n : Nat}

/-- `mWriteHead` counts the claimed slots, each claimed by one push and holding what its
push stored; a push refused found every slot claimed. -/
structure Apart (capacity : Nat) (sys : System α n) : Prop where
  length : sys.stack.vec.length = capacity
  bounded : sys.stack.writeHead ≤ capacity
  claiming : ∀ i w, (sys.threads i).claiming = some w → w < capacity
  claimedBelow : ∀ i w, (sys.threads i).claimed = some w → w < sys.stack.writeHead
  claimedAll : ∀ w < sys.stack.writeHead, ∃ i, (sys.threads i).claimed = some w
  unique : ∀ i j w, (sys.threads i).claimed = some w → (sys.threads j).claimed = some w → i = j
  holds : ∀ i w e, (sys.threads i).stored = some (w, e) → sys.stack.vec.getD w none = some e
  refused : ∀ i e, sys.threads i = .push e .full → sys.stack.writeHead = capacity

theorem Apart.start (size : Nat) (calls : List (Call α)) :
    Apart size (System.start size calls) where
  length := List.length_replicate _ _
  bounded := Nat.zero_le _
  claiming i w claiming := by
    rw [System.start_threads, Call.thread_claiming] at claiming; cases claiming
  claimedBelow i w claimed := by
    rw [System.start_threads, Call.thread_claimed] at claimed; cases claimed
  claimedAll w below := absurd below (Nat.not_lt_zero w)
  unique i _ w claimed := by
    rw [System.start_threads, Call.thread_claimed] at claimed; cases claimed
  holds i w e stored := by
    rw [System.start_threads, Call.thread_stored] at stored; cases stored
  refused i e start := by
    rw [System.start_threads] at start; cases h : calls.get i <;> rw [h] at start <;> cases start

private theorem getD_set_self (l : List (Option α)) (w : Nat) (e : α) (inside : w < l.length) :
    (l.set w (some e)).getD w none = some e := by
  simp [List.getD_eq_getElem?_getD, inside]

private theorem getD_set_ne (l : List (Option α)) (w v : Nat) (e : α) (other : v ≠ w) :
    (l.set w (some e)).getD v none = l.getD v none := by
  simp [List.getD_eq_getElem?_getD, List.getElem?_set_ne (Ne.symm other)]

variable {capacity : Nat} {sys : System α n}

/-- Every step keeps the claims apart. -/
theorem Apart.step (apart : Apart capacity sys) (i : Fin n) : Apart capacity (sys.step i) := by
  obtain ⟨length, bounded, claiming, claimedBelow, claimedAll, unique, holds, refused⟩ := apart
  have claiming' : ∀ j w, ((sys.step i).threads j).claiming = some w → w < capacity := by
    intro j w next
    rw [System.step_thread] at next
    split at next
    · rcases Thread.step_claiming _ _ _ next with old | ⟨rfl, free⟩
      · exact claiming i w old
      · omega
    · exact claiming j w next
  rcases Thread.step_cases sys.stack (sys.threads i) with
    ⟨claimed, stored, writeHead, vec⟩ | ⟨e, claim, next⟩ | ⟨e, w, store, next⟩
  · -- no claim and no store: only the thread's own view of itself moves
    have claims := System.step_view Thread.claimed sys i claimed
    have stores := System.step_view Thread.stored sys i stored
    have head : (sys.step i).stack.writeHead = sys.stack.writeHead := writeHead
    have slots : (sys.step i).stack.vec = sys.stack.vec := vec
    refine ⟨slots ▸ length, head ▸ bounded, claiming', fun j w => ?_, fun w => ?_,
      fun j k w => ?_, fun j w e => ?_, fun j e stopped => ?_⟩
    · rw [claims, head]; exact claimedBelow j w
    · simp only [head, claims]; exact claimedAll w
    · rw [claims, claims]; exact unique j k w
    · rw [stores, slots]; exact holds j w e
    · rw [head]
      rw [System.step_thread] at stopped
      split at stopped
      · rcases Thread.step_full _ _ _ stopped with old | free
        · exact refused i e old
        · omega
      · exact refused j e stopped
  · -- a won compare-and-swap on mWriteHead claims slot mWriteHead
    have fresh : (sys.threads i).claimed = none := by rw [claim]; rfl
    have inside : sys.stack.writeHead < capacity := claiming i _ (by rw [claim]; rfl)
    have stores := System.step_view Thread.stored sys i (by rw [next, claim]; rfl)
    have claimedAt : ∀ j w, ((sys.step i).threads j).claimed = some w →
        (j = i ∧ w = sys.stack.writeHead) ∨ (j ≠ i ∧ (sys.threads j).claimed = some w) := by
      intro j w found
      rw [System.step_thread, next] at found
      split at found
      · exact .inl ⟨‹_›, (Option.some.inj found).symm⟩
      · exact .inr ⟨‹_›, found⟩
    have stack : (sys.step i).stack = { sys.stack with writeHead := sys.stack.writeHead + 1 } := by
      rw [System.step_stack, next]
    refine ⟨by rw [stack]; exact length, by rw [stack]; exact inside, claiming',
      fun j w found => ?_, fun w below => ?_, fun j k w hj hk => ?_, fun j w e' => ?_,
      fun j e' stopped => ?_⟩
    · rw [stack]
      rcases claimedAt j w found with ⟨-, rfl⟩ | ⟨-, old⟩
      · exact Nat.lt_succ_self _
      · exact Nat.lt_succ_of_lt (claimedBelow j w old)
    · rw [stack] at below
      rcases Nat.lt_succ_iff_lt_or_eq.mp below with below | rfl
      · obtain ⟨k, found⟩ := claimedAll w below
        have other : k ≠ i := fun same => by rw [same, fresh] at found; cases found
        exact ⟨k, by rw [System.step_thread, if_neg other]; exact found⟩
      · exact ⟨i, by rw [System.step_thread, if_pos rfl, next]; rfl⟩
    · rcases claimedAt j w hj with ⟨rfl, rfl⟩ | ⟨-, oldJ⟩
      · rcases claimedAt k _ hk with ⟨rfl, -⟩ | ⟨-, oldK⟩
        · rfl
        · exact absurd (claimedBelow k _ oldK) (Nat.lt_irrefl _)
      · rcases claimedAt k w hk with ⟨rfl, rfl⟩ | ⟨-, oldK⟩
        · exact absurd (claimedBelow j _ oldJ) (Nat.lt_irrefl _)
        · exact unique j k w oldJ oldK
    · rw [stores, stack]; exact holds j w e'
    · rw [System.step_thread] at stopped
      split at stopped
      · rw [next] at stopped; cases stopped
      · have full := refused j e' stopped
        omega
  · -- a store into the slot the push claimed
    have claims := System.step_view Thread.claimed sys i (by rw [next, store]; rfl)
    have own : w < sys.stack.writeHead := claimedBelow i w (by rw [store]; rfl)
    have stack : (sys.step i).stack = { sys.stack with vec := sys.stack.vec.set w (some e) } := by
      rw [System.step_stack, next]
    refine ⟨by rw [stack]; simpa using length, by rw [stack]; exact bounded, claiming',
      fun j v => ?_, fun v => ?_, fun j k v => ?_, fun j v e' found => ?_,
      fun j e' stopped => ?_⟩
    · rw [claims, stack]; exact claimedBelow j v
    · simp only [stack, claims]; exact claimedAll v
    · rw [claims, claims]; exact unique j k v
    · rw [stack]
      rw [System.step_thread] at found
      split at found
      · rw [next] at found
        cases found
        exact getD_set_self _ _ _ (by omega)
      · have apart : v ≠ w := fun same =>
          ‹¬j = i› (unique j i v (Thread.claimed_of_stored found) (by rw [store, same]; rfl))
        rw [getD_set_ne _ _ _ _ apart]
        exact holds j v e' found
    · rw [stack]
      rw [System.step_thread] at stopped
      split at stopped
      · rw [next] at stopped; cases stopped
      · exact refused j e' stopped

theorem Apart.run (apart : Apart capacity sys) (schedule : List (Fin n)) :
    Apart capacity (sys.run schedule) := by
  induction schedule generalizing sys with
  | nil => exact apart
  | cons i rest ih => exact ih (apart.step i)

/-- In every interleaving of pushes and pops on a fresh stack of `size` slots,
`mWriteHead` stays within `size`, the slots below it are exactly the claimed ones, no two
pushes claim the same slot, a slot holds the element its push stored from then on, and a
push that returned `false` left `mWriteHead` at `size`, pops notwithstanding. -/
theorem run_claims_apart (size : Nat) (calls : List (Call α))
    (schedule : List (Fin calls.length)) :
    let sys := (System.start size calls).run schedule
    sys.stack.writeHead ≤ size ∧
    (∀ w, w < sys.stack.writeHead ↔ ∃ i, (sys.threads i).claimed = some w) ∧
    (∀ i j w, (sys.threads i).claimed = some w → (sys.threads j).claimed = some w → i = j) ∧
    (∀ i w e, (sys.threads i).stored = some (w, e) → sys.stack.vec.getD w none = some e) ∧
    ∀ i e, sys.threads i = .push e .full → sys.stack.writeHead = size := by
  intro sys
  have apart : Apart size sys := (Apart.start size calls).run schedule
  exact ⟨apart.bounded, fun w => ⟨apart.claimedAll w, fun ⟨i, found⟩ => apart.claimedBelow i w found⟩,
    apart.unique, apart.holds, apart.refused⟩

end Apart

/-! ### With pushes only, `mHead` never passes an unstored slot -/

/-- Where a push stands against `mHead`: one about to store has its slot at or above it,
one about to increment it has its slot at it, and one that returned `true` has its slot
below it. -/
def Thread.Placed (head : Nat) : Thread α → Prop
  | .push _ (.store w) => head ≤ w
  | .push _ (.bump w) => head = w
  | .push _ (.pushed w) => w < head
  | _ => True

/-- The call has returned. -/
def Thread.returned : Thread α → Bool
  | .push _ .full | .push _ (.pushed _) | .pop .empty | .pop (.popped _) => true
  | _ => false

/-- The call is a push. -/
def Thread.isPush : Thread α → Bool
  | .push _ _ => true
  | .pop _ => false

theorem Thread.step_isPush (s : FixedSizeStack α) (t : Thread α) :
    (t.step s).2.isPush = t.isPush := by
  rcases t with ⟨_, pc⟩ | pc <;> cases pc <;> simp only [Thread.step] <;> (try split_ifs) <;> rfl

/-- A push keeps what it stored. -/
theorem Thread.step_stored (s : FixedSizeStack α) (t : Thread α) (x : Nat × α)
    (found : t.stored = some x) : (t.step s).2.stored = some x := by
  rcases t with ⟨_, _ | _ | _ | _ | _ | _ | _⟩ | _ <;> cases found <;>
    simp only [Thread.step] <;> (try split_ifs) <;> rfl

/-- A step leaves its thread placed against the new `mHead`. -/
theorem Thread.step_placed (s : FixedSizeStack α) (t : Thread α) (level : s.head ≤ s.writeHead)
    (placed : t.Placed s.head) : (t.step s).2.Placed (t.step s).1.head := by
  rcases t with ⟨_, _ | w | _ | w | _ | _ | _⟩ | ⟨_ | _ | _ | _ | _⟩ <;>
    simp only [Thread.step] <;> (try split_ifs) <;> simp only [Thread.Placed] <;>
    first | trivial | omega

/-- Only a push about to increment `mHead` moves it, by one, past the slot it stored. -/
theorem Thread.step_head (s : FixedSizeStack α) (t : Thread α) (push : t.isPush = true)
    (placed : t.Placed s.head) :
    (t.step s).1.head = s.head ∨
      ((t.step s).1.head = s.head + 1 ∧ ∃ e, t.stored = some (s.head, e)) := by
  rcases t with ⟨e, _ | _ | _ | _ | w | _ | _⟩ | _
  case pop => cases push
  case push.bump => exact .inr ⟨rfl, e, by rw [show s.head = w from placed]; rfl⟩
  all_goals (left; simp only [Thread.step]; try (split_ifs <;> rfl))

/-- A push placed against `mHead` that does not hold the slot at it stays placed when
`mHead` moves one past that slot. -/
theorem Thread.Placed.bumped {t : Thread α} {head : Nat} (placed : t.Placed head)
    (other : t.claimed ≠ some head) : t.Placed (head + 1) := by
  rcases t with ⟨_, _ | _ | w | _ | w | _ | w⟩ | _ <;> simp only [Thread.Placed] at placed ⊢
  · exact Nat.lt_of_le_of_ne placed fun same => other (by rw [same]; rfl)
  · exact (other (by rw [placed]; rfl)).elim
  · omega

/-- A returned push's claimed slot lies below `mHead`. -/
theorem Thread.claimed_below_of_returned {t : Thread α} {head w : Nat}
    (done : t.returned = true) (placed : t.Placed head) (claimed : t.claimed = some w) :
    w < head := by
  rcases t with ⟨_, _ | _ | _ | _ | _ | _ | w'⟩ | _ <;> cases claimed
  all_goals first | exact placed | cases done

section Published

variable {n capacity : Nat} {sys : System α n}

/-- Pushes only: `mHead` stays below `mWriteHead` with every slot below it stored. -/
structure Published (capacity : Nat) (sys : System α n) : Prop where
  apart : Apart capacity sys
  pushes : ∀ i, (sys.threads i).isPush = true
  headBelow : sys.stack.head ≤ sys.stack.writeHead
  published : ∀ w < sys.stack.head, ∃ i e, (sys.threads i).stored = some (w, e)
  placed : ∀ i, (sys.threads i).Placed sys.stack.head

theorem Published.start (size : Nat) (elements : List α) :
    Published size (System.start size (elements.map Call.push)) where
  apart := Apart.start size _
  pushes i := by
    obtain ⟨e, -, called⟩ := List.mem_map.mp (List.get_mem _ _ _)
    rw [System.start_threads, ← called]
    rfl
  headBelow := Nat.le_refl 0
  published w below := absurd below (Nat.not_lt_zero w)
  placed i := by
    rw [System.start_threads]
    cases (elements.map Call.push).get i <;> trivial

theorem System.step_writeHead (sys : System α n) (i : Fin n) :
    sys.stack.writeHead ≤ (sys.step i).stack.writeHead := by
  rw [System.step_stack]
  rcases Thread.step_cases sys.stack (sys.threads i) with
    ⟨-, -, same, -⟩ | ⟨e, -, next⟩ | ⟨e, w, -, next⟩
  · exact same.ge
  · rw [next]; exact Nat.le_succ _
  · rw [next]

/-- Every step of a push keeps `mHead` behind the stored slots. -/
theorem Published.step (pub : Published capacity sys) (i : Fin n) :
    Published capacity (sys.step i) := by
  obtain ⟨apart, pushes, headBelow, published, placed⟩ := pub
  have pushes' : ∀ j, ((sys.step i).threads j).isPush = true := fun j => by
    rw [System.step_view Thread.isPush sys i (Thread.step_isPush _ _)]; exact pushes j
  have stores : ∀ j x, (sys.threads j).stored = some x →
      ((sys.step i).threads j).stored = some x := by
    intro j x found
    rw [System.step_thread]
    split
    · subst_vars; exact Thread.step_stored _ _ _ found
    · exact found
  have own := Thread.step_placed sys.stack (sys.threads i) headBelow (placed i)
  have growing := sys.step_writeHead i
  rcases Thread.step_head sys.stack (sys.threads i) (pushes i) (placed i) with
    same | ⟨bumped, e, stored⟩
  · -- `mHead` stays
    refine ⟨apart.step i, pushes', ?_, fun w below => ?_, fun j => ?_⟩
    · rw [System.step_stack, same]; exact le_trans headBelow growing
    · rw [System.step_stack, same] at below
      obtain ⟨j, e, found⟩ := published w below
      exact ⟨j, e, stores j _ found⟩
    · rw [System.step_thread]
      split
      · subst_vars; exact own
      · rw [System.step_stack, same]; exact placed j
  · -- `mHead` moves past the slot thread `i` stored
    have claimed := Thread.claimed_of_stored stored
    have inside := apart.claimedBelow i _ claimed
    refine ⟨apart.step i, pushes', ?_, fun w below => ?_, fun j => ?_⟩
    · rw [System.step_stack, bumped]; exact le_trans inside growing
    · rw [System.step_stack, bumped] at below
      rcases Nat.lt_succ_iff_lt_or_eq.mp below with below | rfl
      · obtain ⟨j, e, found⟩ := published w below
        exact ⟨j, e, stores j _ found⟩
      · exact ⟨i, e, stores i _ stored⟩
    · rw [System.step_thread]
      split
      · subst_vars; exact own
      · rw [System.step_stack, bumped]
        exact (placed j).bumped fun found => ‹¬j = i› (apart.unique j i _ found claimed)

theorem Published.run (pub : Published capacity sys) (schedule : List (Fin n)) :
    Published capacity (sys.run schedule) := by
  induction schedule generalizing sys with
  | nil => exact pub
  | cons i rest ih => exact ih (pub.step i)

end Published

/-- In every interleaving of pushes alone on a fresh stack of `size` slots, `mHead` never
passes `mWriteHead`, every slot below `mHead` holds the element of the push that claimed
and stored it, every push that returned `true` has its element in a slot below `mHead`,
and once every push has returned, `mHead` equals `mWriteHead`. -/
theorem run_pushes_published (size : Nat) (elements : List α)
    (schedule : List (Fin (elements.map Call.push).length)) :
    let sys := (System.start size (elements.map Call.push)).run schedule
    sys.stack.head ≤ sys.stack.writeHead ∧
    (∀ w < sys.stack.head, ∃ i e, (sys.threads i).stored = some (w, e) ∧
      sys.stack.vec.getD w none = some e) ∧
    (∀ i e w, sys.threads i = .push e (.pushed w) →
      w < sys.stack.head ∧ sys.stack.vec.getD w none = some e) ∧
    ((∀ i, (sys.threads i).returned = true) → sys.stack.head = sys.stack.writeHead) := by
  intro sys
  have pub : Published size sys := (Published.start size elements).run schedule
  refine ⟨pub.headBelow, fun w below => ?_, fun i e w pushed => ?_, fun done => ?_⟩
  · obtain ⟨i, e, found⟩ := pub.published w below
    exact ⟨i, e, found, pub.apart.holds i w e found⟩
  · have placed := pub.placed i
    rw [pushed] at placed
    exact ⟨placed, pub.apart.holds i w e (by rw [pushed]; rfl)⟩
  · refine Nat.le_antisymm pub.headBelow (Nat.not_lt.mp fun behind => ?_)
    obtain ⟨i, claimed⟩ := pub.apart.claimedAll _ behind
    exact Nat.lt_irrefl _ (Thread.claimed_below_of_returned (done i) (pub.placed i) claimed)

/-- The hypothesis of pushes alone is needed: one push of `10` and two pops on one slot,
the push still in its spin when the first pop lowers `mHead`; both pops return `10`. -/
example :
    let sys := (System.start 1 [Call.push 10, Call.pop, Call.pop]).run
      ([0, 0, 0, 0, 0, 1, 1, 1, 0, 0, 0, 2, 2, 2] : List (Fin 3))
    sys.threads (0 : Fin 3) = .push 10 (.pushed 0) ∧
      sys.threads (1 : Fin 3) = .pop (.popped (some 10)) ∧
      sys.threads (2 : Fin 3) = .pop (.popped (some 10)) := by
  decide

end FixedSizeStack

end Tellstore.Util
