import Mathlib.Logic.Function.Basic

/-!
# The server's snapshot cache

`ServerSocket::handleSnapshot` and `ServerSocket::removeSnapshot`
(src/server/ServerSocket.cpp:317-357). A request carries two flags, `cached` and
`hasDescriptor`, followed by a version or a serialized `SnapshotDescriptor`; the socket
keeps `mSnapshots`, a map from version to descriptor, and either runs the request's
operation `f` on one descriptor or answers `error::invalid_snapshot`.

What the message reader returns is taken as given: a request holds the version that
`message.read<uint64_t>()` yields and the descriptor that
`SnapshotDescriptor::deserialize` yields, and the code reads the one its flags select.
The operation `f` is observed by the descriptor it runs on (`Response.ran`).

The cache is compared with an abstract history: the descriptor served for `v` is that of
the newest accepted registration of `v` that no `removeSnapshot(v)` follows
(`lastLive`). Every run keeps the map equal to it (`run_invariant`), and every request
after every run is answered as the history says.
-/

set_option autoImplicit false

namespace Tellstore.Server

/-- `commitmanager::SnapshotDescriptor` in its wire fields. -/
structure SnapshotDescriptor where
  lowestActiveVersion : Nat
  baseVersion : Nat
  version : Nat
  inFlight : List Bool
  deriving DecidableEq, Repr

/-- `mSnapshots`: the cached descriptor of each version. -/
def SnapshotMap := Nat → Option SnapshotDescriptor

/-- The error codes `handleSnapshot` writes. -/
inductive Error where
  | invalidSnapshot
  deriving DecidableEq, Repr

/-- What a request gets: its operation run on a descriptor, or an error response. -/
inductive Response where
  | ran (descriptor : SnapshotDescriptor)
  | error (code : Error)
  deriving DecidableEq, Repr

/-- A snapshot request as the reader decodes it. -/
structure SnapshotRequest where
  cached : Bool
  hasDescriptor : Bool
  version : Nat
  descriptor : SnapshotDescriptor
  deriving DecidableEq, Repr

/-- `std::unordered_map::emplace`: inserts only when the key is absent, and says whether
it did. -/
def emplace (snapshots : SnapshotMap) (version : Nat) (descriptor : SnapshotDescriptor) :
    SnapshotMap × Bool :=
  match snapshots version with
  | some _ => (snapshots, false)
  | none => (Function.update snapshots version (some descriptor), true)

/-- `ServerSocket::handleSnapshot`. -/
def handleSnapshot (snapshots : SnapshotMap) (request : SnapshotRequest) :
    SnapshotMap × Response :=
  if request.cached then
    if !request.hasDescriptor then
      match snapshots request.version with
      | none => (snapshots, .error .invalidSnapshot)
      | some descriptor => (snapshots, .ran descriptor)
    else
      let snapshot := request.descriptor
      let res := emplace snapshots snapshot.version snapshot
      if !res.2 then (snapshots, .error .invalidSnapshot)
      else (res.1, .ran snapshot)
  else if request.hasDescriptor then (snapshots, .ran request.descriptor)
  else (snapshots, .error .invalidSnapshot)

/-- `ServerSocket::removeSnapshot`. -/
def removeSnapshot (snapshots : SnapshotMap) (version : Nat) : SnapshotMap :=
  match snapshots version with
  | none => snapshots
  | some _ => Function.update snapshots version none

/-- The calls a socket's snapshot cache sees. -/
inductive Event where
  | request (request : SnapshotRequest)
  | remove (version : Nat)

/-- A call with the response it got (`removeSnapshot` answers nothing). -/
abbrev Step := Event × Option Response

/-- One call on the map, with its record for the history. -/
def step (state : SnapshotMap × List Step) : Event → SnapshotMap × List Step
  | .request r =>
    let out := handleSnapshot state.1 r
    (out.1, (.request r, some out.2) :: state.2)
  | .remove v => (removeSnapshot state.1 v, (.remove v, none) :: state.2)

/-- A sequence of calls on a fresh socket; the history is newest first. -/
def run (events : List Event) : SnapshotMap × List Step :=
  events.foldl step (fun _ => none, [])

/-- The descriptor of the newest accepted registration of `v` (a `cached`,
`hasDescriptor` request that ran) that no `removeSnapshot(v)` follows. -/
def lastLive : List Step → Nat → Option SnapshotDescriptor
  | [], _ => none
  | (.remove w, _) :: older, v => if w = v then none else lastLive older v
  | (.request r, some (.ran d)) :: older, v =>
    if r.cached ∧ r.hasDescriptor ∧ d.version = v then some d else lastLive older v
  | (.request _, _) :: older, v => lastLive older v

/-- The answer prescribed by a lookup `live` of the registered descriptors: a registration
runs iff its version is not live, a lookup runs on the live descriptor, an uncached
descriptor runs as sent, and a request with neither flag is refused. -/
def answer (live : Nat → Option SnapshotDescriptor) (r : SnapshotRequest) : Response :=
  if r.cached then
    if r.hasDescriptor then
      if live r.descriptor.version = none then .ran r.descriptor else .error .invalidSnapshot
    else
      match live r.version with
      | some d => .ran d
      | none => .error .invalidSnapshot
  else if r.hasDescriptor then .ran r.descriptor
  else .error .invalidSnapshot

/-- The answer the history prescribes. -/
def expected (history : List Step) (r : SnapshotRequest) : Response :=
  answer (lastLive history) r

/-- Whether a request registers its descriptor in `map`. -/
def Registers (map : SnapshotMap) (r : SnapshotRequest) : Prop :=
  r.cached = true ∧ r.hasDescriptor = true ∧ map r.descriptor.version = none

instance (map : SnapshotMap) (r : SnapshotRequest) : Decidable (Registers map r) :=
  inferInstanceAs (Decidable (_ ∧ _ ∧ _))

theorem handleSnapshot_response (map : SnapshotMap) (r : SnapshotRequest) :
    (handleSnapshot map r).2 = answer map r := by
  obtain ⟨cached, described, version, descriptor⟩ := r
  cases cached <;> cases described <;> simp only [handleSnapshot, answer, emplace] <;>
    first | rfl | (cases map version <;> rfl) | (cases map descriptor.version <;> rfl)

theorem handleSnapshot_map (map : SnapshotMap) (r : SnapshotRequest) :
    (handleSnapshot map r).1 =
      if Registers map r then Function.update map r.descriptor.version (some r.descriptor)
      else map := by
  obtain ⟨cached, described, version, descriptor⟩ := r
  cases cached <;> cases described <;> simp only [handleSnapshot, Registers, emplace]
  · simp
  · simp
  · cases map version <;> simp
  · cases h : map descriptor.version <;> simp [h]

theorem removeSnapshot_apply (map : SnapshotMap) (w v : Nat) :
    removeSnapshot map w v = if w = v then none else map v := by
  unfold removeSnapshot
  by_cases same : w = v
  · subst same
    cases h : map w <;> simp [h]
  · cases map w <;> simp [same, Function.update_noteq (Ne.symm same)]

theorem lastLive_request (history : List Step) (r : SnapshotRequest) (map : SnapshotMap)
    (v : Nat) :
    lastLive ((.request r, some (answer map r)) :: history) v =
      if Registers map r ∧ r.descriptor.version = v then some r.descriptor
      else lastLive history v := by
  obtain ⟨cached, described, version, descriptor⟩ := r
  cases cached <;> cases described <;> simp only [answer, Registers]
  · simp [lastLive]
  · simp [lastLive]
  · cases map version <;> simp [lastLive]
  · cases map descriptor.version <;> simp [lastLive]

/-- The map agrees with the history, and each entry is keyed by its own version. -/
structure Invariant (state : SnapshotMap × List Step) : Prop where
  agrees : ∀ v, state.1 v = lastLive state.2 v
  keyed : ∀ v d, state.1 v = some d → d.version = v

theorem step_invariant (state : SnapshotMap × List Step) (e : Event)
    (before : Invariant state) : Invariant (step state e) := by
  obtain ⟨map, history⟩ := state
  obtain ⟨agrees, keyed⟩ := before
  simp only at agrees keyed
  cases e with
  | request r =>
    simp only [step, handleSnapshot_map, handleSnapshot_response]
    constructor
    · intro v
      rw [lastLive_request, ← agrees]
      by_cases registers : Registers map r
      · by_cases same : r.descriptor.version = v
        · subst same
          simp [registers]
        · simp [registers, Function.update_noteq (Ne.symm same), same]
      · simp [registers]
    · intro v d found
      by_cases registers : Registers map r
      · simp only [if_pos registers] at found
        by_cases same : r.descriptor.version = v
        · subst same
          simp at found
          rw [← found]
        · rw [Function.update_noteq (Ne.symm same)] at found
          exact keyed v d found
      · simp only [if_neg registers] at found
        exact keyed v d found
  | remove w =>
    constructor
    · intro v
      by_cases same : w = v <;> simp [step, removeSnapshot_apply, lastLive, same, agrees]
    · intro v d found
      by_cases same : w = v <;> simp [step, removeSnapshot_apply, same] at found
      exact keyed v d found

theorem run_invariant (events : List Event) : Invariant (run events) := by
  have fold : ∀ (es : List Event) (state : SnapshotMap × List Step), Invariant state →
      Invariant (es.foldl step state) := by
    intro es
    induction es with
    | nil => exact fun _ before => before
    | cons e es ih => exact fun state before => ih _ (step_invariant state e before)
  exact fold events _ ⟨fun _ => rfl, fun _ _ absent => by cases absent⟩

/-- After every sequence of requests and removals, every cached descriptor is keyed by
its own version, the next request is answered as the history prescribes (its operation
runs once on the descriptor of the newest live registration, or it is refused), and a
request without the `cached` flag or refused with `invalid_snapshot` leaves the cache as
it was. -/
theorem handleSnapshot_refines_history (events : List Event) (r : SnapshotRequest) :
    (∀ v d, (run events).1 v = some d → d.version = v) ∧
    (handleSnapshot (run events).1 r).2 = expected (run events).2 r ∧
    ((r.cached = false ∨ (handleSnapshot (run events).1 r).2 = .error .invalidSnapshot) →
      (handleSnapshot (run events).1 r).1 = (run events).1) := by
  have invariant := run_invariant events
  have same : (run events).1 = lastLive (run events).2 := funext invariant.agrees
  refine ⟨invariant.keyed, by rw [handleSnapshot_response, expected, same], ?_⟩
  intro unchanged
  rw [handleSnapshot_map, if_neg]
  rintro ⟨cached, described, absent⟩
  rcases unchanged with refused | refused
  · simp [cached] at refused
  · simp [handleSnapshot_response, answer, cached, described, absent] at refused

end Tellstore.Server
