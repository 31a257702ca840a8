import Mathlib.Data.List.Basic

/-!
# FixedSizeStack: sequential runs

`tell::store::FixedSizeStack<T>` (src/util/FixedSizeStack.hpp) keeps a vector of
`size` slots, a read head `mHead` and a write head `mWriteHead`. `push` claims slot
`mWriteHead`, stores the element, then spins until `mHead` has moved past the claimed
slot; `pop` reads slot `mHead - 1` and lowers `mHead` only.

The model is single-threaded: every compare-and-swap sees the value it just loaded and
succeeds, so the outer retry loops of `push` and `pop` run once. The spin at the end of
`push` is a loop on `mHead` that no other thread advances here; it is modelled with fuel
(`catchUp`), and "never returns" is stated for every amount of fuel.

Results:
* the spin returns exactly when `mHead` has reached the claimed slot
  (`catchUp_eq_some_of_eq`), and never while it lies below it (`catchUp_eq_none_of_lt`);
* after a pop, `mHead < mWriteHead`, so the next push that claims a slot spins forever,
  and a full-then-drained stack refuses pushes (`push_after_pop_refused`);
* runs that push before they pop refine a bounded list stack (`specRun`, through `Represents`).
-/

set_option autoImplicit false

namespace Tellstore.Util

/-- The members of `FixedSizeStack<T>`; a slot holding `nullptr` is `none`. -/
structure FixedSizeStack (α : Type) where
  vec : List (Option α)
  head : Nat
  writeHead : Nat
  deriving DecidableEq, Repr

namespace FixedSizeStack

variable {α : Type}

/-- `FixedSizeStack(size)`: `size` null slots, both heads at zero. -/
def init (size : Nat) : FixedSizeStack α := ⟨List.replicate size none, 0, 0⟩

/-- `pop`: an empty stack (`head == 0`) answers `false` with a null result; otherwise the
slot below the head is returned and `mHead` is lowered. `mWriteHead` is not touched. -/
def pop (s : FixedSizeStack α) : Bool × Option α × FixedSizeStack α :=
  if s.head = 0 then (false, none, s)
  else (true, s.vec.getD (s.head - 1) none, { s with head := s.head - 1 })

/-- The spin that ends `push`: reload `mHead` while it is at most `wHead`, bumping it
when it equals `wHead`. `none` when the fuel is spent before the loop exits. -/
def catchUp : Nat → Nat → Nat → Option Nat
  | 0, _, _ => none
  | fuel + 1, head, wHead =>
    if head ≤ wHead then catchUp fuel (if head = wHead then head + 1 else head) wHead
    else some head

/-- `push`: a full write head answers `false`; otherwise the slot `wHead` is claimed and
written, and the call returns `true` once the spin lets it. -/
def push (fuel : Nat) (s : FixedSizeStack α) (element : α) :
    Option (Bool × FixedSizeStack α) :=
  let wHead := s.writeHead
  if wHead = s.vec.length then some (false, s)
  else
    let claimed := { s with writeHead := wHead + 1, vec := s.vec.set wHead (some element) }
    (catchUp fuel claimed.head wHead).map fun head => (true, { claimed with head := head })

/-- A call of a sequential run. -/
inductive Call (α : Type) where
  | push (element : α)
  | pop
  deriving DecidableEq, Repr

/-- What a call returns: `push`'s flag, or `pop`'s flag with its result. -/
inductive Reply (α : Type) where
  | push (ok : Bool)
  | pop (ok : Bool) (result : Option α)
  deriving DecidableEq, Repr

/-- One call with `fuel` for `push`'s spin; `none` when the call does not return. -/
def call (fuel : Nat) (s : FixedSizeStack α) : Call α → Option (Reply α × FixedSizeStack α)
  | .push element => (push fuel s element).map fun r => (.push r.1, r.2)
  | .pop => let r := pop s; some (.pop r.1 r.2.1, r.2.2)

/-- A sequential run, each call given `fuel`; `none` when some call does not return. -/
def run (fuel : Nat) : FixedSizeStack α → List (Call α) → Option (List (Reply α) × FixedSizeStack α)
  | s, [] => some ([], s)
  | s, c :: cs => do
    let (r, s) ← call fuel s c
    let (rs, s) ← run fuel s cs
    pure (r :: rs, s)

/-- The bounded LIFO stack of capacity `n`, top first. -/
def specCall (n : Nat) : List α → Call α → Reply α × List α
  | stack, .push element =>
    if stack.length < n then (.push true, element :: stack) else (.push false, stack)
  | [], .pop => (.pop false none, [])
  | top :: rest, .pop => (.pop true (some top), rest)

/-- The replies of the bounded LIFO stack over a run. -/
def specRun (n : Nat) : List α → List (Call α) → List (Reply α)
  | _, [] => []
  | stack, c :: cs => (specCall n stack c).1 :: specRun n (specCall n stack c).2 cs

theorem catchUp_eq_none_of_lt (fuel head wHead : Nat) (below : head < wHead) :
    catchUp fuel head wHead = none := by
  induction fuel with
  | zero => rfl
  | succ fuel ih =>
    simp only [catchUp, if_pos below.le, if_neg below.ne]
    exact ih

theorem catchUp_eq_some_of_eq (fuel wHead : Nat) :
    catchUp (fuel + 2) wHead wHead = some (wHead + 1) := by
  simp [catchUp]

/-- The spin exits only with `mHead` past the claimed slot, and only if `mHead` was not
below it when the spin began. -/
theorem catchUp_eq_some (fuel head wHead result : Nat)
    (success : catchUp fuel head wHead = some result) :
    wHead ≤ head ∧ wHead < result := by
  induction fuel generalizing head with
  | zero => cases success
  | succ fuel ih =>
    simp only [catchUp] at success
    split at success
    · rename_i reached
      split at success
      · have := ih _ success
        omega
      · have := ih _ success
        omega
    · cases success
      omega

/-- After the first pop of a stack that has been pushed to, `mHead` lies below
`mWriteHead`: whenever the write head is not full, the next push never returns. -/
theorem push_spins_of_head_lt (fuel : Nat) (s : FixedSizeStack α) (element : α)
    (lagging : s.head < s.writeHead) (room : s.writeHead ≠ s.vec.length) :
    push fuel s element = none := by
  simp only [push, if_neg room, catchUp_eq_none_of_lt fuel s.head s.writeHead lagging,
    Option.map_none']

/-- Capacity two: push, pop, push. The third call claims slot one while `mHead` is back
at zero, and spins for every amount of fuel. -/
theorem push_after_pop_spins (fuel : Nat) :
    run (fuel + 2) (init 2) [Call.push 7, Call.pop, Call.push 8] = none := by
  have pushed : call (fuel + 2) (init 2) (Call.push 7) = some (.push true, ⟨[some 7, none], 1, 1⟩) := by
    simp [call, push, init, catchUp]
  have spins : call (fuel + 2) ⟨[some 7, none], 0, 1⟩ (Call.push 8) = none := by
    simp [call, push_spins_of_head_lt _ ⟨[some 7, none], 0, 1⟩ 8 (by decide) (by decide)]
  have popped : call (fuel + 2) ⟨[some 7, none], 1, 1⟩ (Call.pop) =
      some (.pop true (some 7), ⟨[some 7, none], 0, 1⟩) := rfl
  simp only [run, pushed, popped, spins, Option.bind_eq_bind, Option.some_bind, Option.none_bind]

/-- Capacity one: push, pop, push. The stack is empty, yet the write head is full and
the second push is refused. -/
theorem push_after_pop_refused (fuel : Nat) :
    run (fuel + 2) (init 1) [Call.push 7, Call.pop, Call.push 8] =
      some ([.push true, .pop true (some 7), .push false], ⟨[some 7], 0, 1⟩) := by
  simp [run, call, push, pop, init, catchUp]

/-- `s` represents the stack `stack` (top first): `mHead` counts it, the slots below the
head hold it bottom first, and no slot has been claimed above it (`fresh`). -/
structure Represents (n : Nat) (s : FixedSizeStack α) (stack : List α) (fresh : Bool) : Prop where
  length_vec : s.vec.length = n
  head_eq : s.head = stack.length
  head_le : s.head ≤ s.writeHead
  writeHead_le : s.writeHead ≤ n
  slots : s.vec.take s.head = stack.reverse.map some
  fresh_eq : fresh = true → s.writeHead = s.head

private theorem take_set_succ (l : List (Option α)) (h : Nat) (x : Option α)
    (inside : h < l.length) : (l.set h x).take (h + 1) = l.take h ++ [x] := by
  have below : (l.set h x).take h = l.take h := List.ext_getElem? fun i => by
    rw [List.getElem?_take, List.getElem?_take]
    split
    · rw [List.getElem?_set_ne (by omega)]
    · rfl
  rw [List.take_succ, List.getElem?_set_self (by simpa using inside), below]
  rfl

theorem init_represents (n : Nat) : Represents n (init n : FixedSizeStack α) [] true :=
  ⟨by simp [init], rfl, Nat.le_refl 0, Nat.zero_le n, by simp [init], fun _ => rfl⟩

/-- A push onto a stack that has not been popped behaves as the bounded stack's push,
and leaves a stack that still has not been popped. -/
theorem push_represents (n : Nat) (s : FixedSizeStack α) (stack : List α) (element : α)
    (before : Represents n s stack true) :
    ∃ s', call 2 s (.push element) = some ((specCall n stack (.push element)).1, s') ∧
      Represents n s' (specCall n stack (.push element)).2 true := by
  have level := before.fresh_eq rfl
  have height := before.head_eq
  have width := before.length_vec
  have bound := before.writeHead_le
  by_cases room : stack.length < n
  · have free : s.head ≠ s.vec.length := by omega
    refine ⟨⟨s.vec.set s.head (some element), s.head + 1, s.head + 1⟩, ?_, ?_⟩
    · simp [call, push, free, level, catchUp_eq_some_of_eq 0, specCall, room]
    · simp only [specCall, if_pos room]
      refine ⟨by simp [width], by simp [height], Nat.le_refl _, by simp only; omega, ?_, fun _ => rfl⟩
      rw [take_set_succ _ _ _ (by omega), before.slots]
      simp
  · have full : s.writeHead = s.vec.length := by omega
    refine ⟨s, ?_, ?_⟩
    · simp only [call, push, if_pos full, specCall, if_neg room]
      rfl
    · simpa only [specCall, if_neg room] using before

/-- A pop behaves as the bounded stack's pop whether or not the stack was popped before. -/
theorem pop_represents (n : Nat) (s : FixedSizeStack α) (stack : List α) (fresh : Bool)
    (before : Represents n s stack fresh) :
    ∃ s', call 2 s .pop = some ((specCall n stack .pop).1, s') ∧
      Represents n s' (specCall n stack .pop).2 false := by
  cases stack with
  | nil =>
    refine ⟨s, by simp [call, pop, before.head_eq, specCall], ?_⟩
    exact ⟨before.length_vec, before.head_eq, before.head_le, before.writeHead_le, before.slots,
      fun absurd => by cases absurd⟩
  | cons top rest =>
    have height : s.head = rest.length + 1 := by simpa using before.head_eq
    have slots : s.vec.take (rest.length + 1) = rest.reverse.map some ++ [some top] := by
      simpa [height] using before.slots
    have read : s.vec[rest.length]? = some (some top) := by
      have := congrArg (fun l => l[rest.length]?) slots
      simpa [List.getElem?_take, List.getElem?_append_right] using this
    refine ⟨{ s with head := rest.length }, ?_, ?_⟩
    · simp [call, pop, height, read, specCall]
    · refine ⟨before.length_vec, rfl, by have := before.head_le; simp only; omega,
        before.writeHead_le, ?_, fun absurd => by cases absurd⟩
      have := congrArg (List.take rest.length) slots
      simpa [List.take_take, List.take_append_of_le_length] using this

/-- Pops only, from any represented stack. -/
theorem run_pops (n k : Nat) (s : FixedSizeStack α) (stack : List α) (fresh : Bool)
    (before : Represents n s stack fresh) :
    (run 2 s (List.replicate k .pop)).map Prod.fst =
      some (specRun n stack (List.replicate k .pop)) := by
  induction k generalizing s stack fresh with
  | zero => rfl
  | succ k ih =>
    obtain ⟨s', step, after⟩ := pop_represents n s stack fresh before
    have rest := ih s' _ false after
    simp only [List.replicate_succ, run, step, specRun] at rest ⊢
    cases h : run 2 s' (List.replicate k .pop) with
    | none => simp [h] at rest
    | some r => simp_all

/-- Fill then drain: every run that pushes before it pops, from a stack that has not
been popped, answers as the bounded LIFO stack of capacity `n`. -/
theorem run_pushes_then_pops (n k : Nat) (elements : List α) (s : FixedSizeStack α)
    (stack : List α) (before : Represents n s stack true) :
    (run 2 s (elements.map .push ++ List.replicate k .pop)).map Prod.fst =
      some (specRun n stack (elements.map .push ++ List.replicate k .pop)) := by
  induction elements generalizing s stack with
  | nil => exact run_pops n k s stack true before
  | cons element elements ih =>
    obtain ⟨s', step, after⟩ := push_represents n s stack element before
    have rest := ih s' _ after
    simp only [List.map_cons, List.cons_append, run, step, specRun] at rest ⊢
    cases h : run 2 s' (elements.map .push ++ List.replicate k .pop) with
    | none => simp [h] at rest
    | some r => simp_all

/-- From a fresh stack of any capacity, every fill-then-drain run answers as the bounded
LIFO stack, each call returning within two turns of the spin. -/
theorem fill_then_drain_refines (n k : Nat) (elements : List α) :
    (run 2 (init n) (elements.map .push ++ List.replicate k .pop)).map Prod.fst =
      some (specRun n [] (elements.map .push ++ List.replicate k .pop)) :=
  run_pushes_then_pops n k elements _ [] (init_represents n)

end FixedSizeStack

end Tellstore.Util
