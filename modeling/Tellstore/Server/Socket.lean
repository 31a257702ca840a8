import Mathlib.Data.List.Nodup
import Tellstore.Server.SnapshotCache

/-!
# The server socket

`ServerSocket::onRequest`, its handlers and `ServerSocket::onWrite`
(src/server/ServerSocket.cpp:15-315), over the snapshot cache of `handleSnapshot`.

The socket answers a request it reads by writing one response to the request's message id,
its own response type or an error; a `COMMIT` is not answered. An accepted `SCAN` is
registered in `mScans` under its scan id and answered only when the write reporting it
`DONE` completes (`onWrite`), which also drops it from `mScans`.

What the reader decodes is taken as given, as for `Tellstore.Server.handleSnapshot`: a request
holds the fields its handler reads. `Storage` is not under src/: the socket calls it as a
state machine over its own state, with its answers as a parameter. The values of
`ScanStatusIndicator` and `InfinibandBuffer::INVALID_ID` are not under src/ either. A
response is kept as the values its writer serializes. `handleScan` dereferences the table
`mStorage.getTable(tableId)` returns without a check: on a table the storage does not hold
the source is undefined, and the model records the table id (`nullTables`) and goes no
further.

The main result: in every run whose requests carry distinct message ids and that
dereferences no null table, every request gets at most one response, of its own type or one of its
handler's errors, and exactly one unless it is a `COMMIT` or a `SCAN` still registered; every
response answers a request of the run; and every registered scan is keyed by its own id and
belongs to a `SCAN` request with that id.

The socket's cache is the standalone cache of `Tellstore.Server.handleSnapshot` run on the
run's snapshot-carrying requests and removals, so every request is served on the descriptor
its registration history prescribes.
-/

set_option autoImplicit false

namespace Tellstore.Server.Socket

/-- `Schema` in its serialized form: the handlers deserialize it from a request and serialize
it into a response, and never look into it. -/
structure Schema where
  bytes : List UInt8
  deriving DecidableEq, Repr

/-- The scan part of a `SCAN` request (lines 227-247): the remote memory region the results go
to, the selection, the query type and the query. -/
structure ScanRequest where
  remoteAddress : Nat
  remoteLength : Nat
  remoteKey : Nat
  selection : List UInt8
  queryType : UInt8
  query : List UInt8
  deriving DecidableEq, Repr

/-- A request as `onRequest` dispatches it on its message type, with the fields its handler
reads; `unknown` is a message type the switch has no case for. -/
inductive Request where
  | createTable (tableName : String) (schema : Schema)
  | getTable (tableName : String)
  | get (tableId key : Nat) (snapshot : SnapshotRequest)
  | update (tableId key : Nat) (data : List UInt8) (snapshot : SnapshotRequest)
  | insert (tableId key : Nat) (wantsSucceeded : Bool) (data : List UInt8) (snapshot : SnapshotRequest)
  | remove (tableId key : Nat) (snapshot : SnapshotRequest)
  | revert (tableId key : Nat) (snapshot : SnapshotRequest)
  | scan (tableId : Nat) (scanId : UInt16) (scan : ScanRequest) (snapshot : SnapshotRequest)
  | commit
  | unknown (messageType : Nat)
  deriving DecidableEq, Repr

/-- The `error::` codes the socket writes. -/
inductive ErrorCode where
  | unkownRequest
  | invalidTable
  | invalidSnapshot
  | invalidScan
  | serverOverlad
  deriving DecidableEq, Repr

/-- What the socket writes to a message id: a response of a `ResponseType` with the values its
writer serializes, or an error response. -/
inductive Response where
  | createTable (tableId : Nat)
  | getTable (tableId : Nat) (schema : Schema)
  | get (version : Nat) (isNewest : Bool) (data : List UInt8)
  | modification (succeeded : Bool)
  | scan (scanId : UInt16)
  | error (code : ErrorCode)
  deriving DecidableEq, Repr

/-- A table's `Record`, its row layout: the socket hands it to a scan and never looks into
it. -/
structure Record where
  bytes : List UInt8
  deriving DecidableEq, Repr

/-- `ServerScanQuery` as `handleScan` builds it (line 258), with the scan's own copy of the
snapshot and the table's record; the socket reads back its message id. -/
structure ScanQuery where
  scanId : UInt16
  messageId : Nat
  scan : ScanRequest
  snapshot : SnapshotDescriptor
  record : Record
  deriving DecidableEq, Repr

/-- What `mStorage.get` (line 128) returns: whether it found the key, the data (`size` is its
length), the version and whether it is the newest. -/
structure GetResult where
  success : Bool
  data : List UInt8
  version : Nat
  isNewest : Bool
  deriving DecidableEq, Repr

/-- The calls the socket makes on `Storage`, over the storage's own state `σ`:
`createTable` answers whether it succeeded and the new table's id, `getTable` the id and
schema of a table it has by that name, `getTableById` (the overload `getTable(tableId)`) the
record of the table it has with that id, `insert` gets whether the client asked for the
result, and `scan` gets the registered query. -/
structure Storage (σ : Type) where
  createTable : σ → String → Schema → σ × Bool × Nat
  getTable : σ → String → Option (Nat × Schema)
  getTableById : σ → Nat → Option Record
  get : σ → Nat → Nat → SnapshotDescriptor → GetResult
  update : σ → Nat → Nat → List UInt8 → SnapshotDescriptor → σ × Bool
  insert : σ → Nat → Nat → List UInt8 → SnapshotDescriptor → Bool → σ × Bool
  remove : σ → Nat → Nat → SnapshotDescriptor → σ × Bool
  revert : σ → Nat → Nat → SnapshotDescriptor → σ × Bool
  scan : σ → Nat → ScanQuery → σ × Bool

/-- The constants `onWrite` compares with: `ScanStatusIndicator::ONGOING` and `DONE`, and
`InfinibandBuffer::INVALID_ID`. -/
structure WriteCodes where
  ongoing : UInt16
  done : UInt16
  invalidId : UInt16

/-- The members of `ServerSocket` its handlers change, and what they do outside them: the
responses written (message id and response, oldest first), the scan buffers released, the
socket errors handled, the messages of `LOG_ERROR` and of failed `LOG_ASSERT`s, and the ids
of the tables a scan found null and dereferenced. -/
structure ServerSocket (σ : Type) where
  storage : σ
  snapshots : SnapshotMap
  scans : UInt16 → Option ScanQuery
  written : List (Nat × Response)
  releasedBuffers : List UInt16
  socketErrors : List Nat
  loggedErrors : List String
  failedAsserts : List String
  nullTables : List Nat

namespace ServerSocket

variable {σ : Type}

/-- A fresh socket on the storage in state `storage`. -/
def init (storage : σ) : ServerSocket σ :=
  ⟨storage, fun _ => none, fun _ => none, [], [], [], [], [], []⟩

/-- `writeResponse` and `writeErrorResponse`. -/
def respond (s : ServerSocket σ) (messageId : Nat) (response : Response) : ServerSocket σ :=
  { s with written := s.written ++ [(messageId, response)] }

/-- `LOG_ASSERT(condition, message)`. -/
def check (s : ServerSocket σ) (condition : Bool) (message : String) : ServerSocket σ :=
  { s with failedAsserts := if condition then s.failedAsserts else s.failedAsserts ++ [message] }

/-- `LOG_ERROR(message)`. -/
def logError (s : ServerSocket σ) (message : String) : ServerSocket σ :=
  { s with loggedErrors := s.loggedErrors ++ [message] }

/-- `ServerSocket::handleSnapshot` (lines 317-349) on the socket: `f` runs on the descriptor
the cache serves, or the request is answered `invalid_snapshot`. -/
def handleSnapshot (s : ServerSocket σ) (messageId : Nat) (request : SnapshotRequest)
    (f : ServerSocket σ → SnapshotDescriptor → ServerSocket σ) : ServerSocket σ :=
  let served := Server.handleSnapshot s.snapshots request
  match served.2 with
  | .ran descriptor => f { s with snapshots := served.1 } descriptor
  | .error _ => { s with snapshots := served.1 }.respond messageId (.error .invalidSnapshot)

section Handlers

variable (st : Storage σ)

/-- `ServerSocket::handleCreateTable` (lines 74-95). -/
def handleCreateTable (s : ServerSocket σ) (messageId : Nat) (tableName : String) (schema : Schema) :
    ServerSocket σ :=
  let created := st.createTable s.storage tableName schema
  let s := { s with storage := created.1 }.check (created.2.2 != 0 || !created.2.1)
    "Table ID of 0 does not denote failure"
  if !created.2.1 then s.respond messageId (.error .invalidTable)
  else s.respond messageId (.createTable created.2.2)

/-- `ServerSocket::handleGetTable` (lines 97-117). -/
def handleGetTable (s : ServerSocket σ) (messageId : Nat) (tableName : String) : ServerSocket σ :=
  match st.getTable s.storage tableName with
  | none => s.respond messageId (.error .invalidTable)
  | some (tableId, schema) => s.respond messageId (.getTable tableId schema)

/-- `ServerSocket::handleGet` (lines 119-144). -/
def handleGet (s : ServerSocket σ) (messageId tableId key : Nat) (snapshot : SnapshotRequest) :
    ServerSocket σ :=
  s.handleSnapshot messageId snapshot fun s descriptor =>
    let found := st.get s.storage tableId key descriptor
    (s.check (found.success || found.data.length == 0) "Size of 0 does not indicate element-not-found").respond
      messageId (.get found.version found.isNewest found.data)

/-- The body shared by the handlers of the modifications (lines 146-224): the storage call
`op` runs on the served descriptor and what it returns is answered as `MODIFICATION`. -/
def handleModification (s : ServerSocket σ) (messageId : Nat) (snapshot : SnapshotRequest)
    (op : σ → SnapshotDescriptor → σ × Bool) : ServerSocket σ :=
  s.handleSnapshot messageId snapshot fun s descriptor =>
    let done := op s.storage descriptor
    { s with storage := done.1 }.respond messageId (.modification done.2)

/-- `ServerSocket::handleUpdate` (lines 146-166). -/
def handleUpdate (s : ServerSocket σ) (messageId tableId key : Nat) (data : List UInt8)
    (snapshot : SnapshotRequest) : ServerSocket σ :=
  s.handleModification messageId snapshot fun storage descriptor => st.update storage tableId key data descriptor

/-- `ServerSocket::handleInsert` (lines 168-190): `succeeded` starts `false` and the storage
sets it only when the client asked for it. -/
def handleInsert (s : ServerSocket σ) (messageId tableId key : Nat) (wantsSucceeded : Bool)
    (data : List UInt8) (snapshot : SnapshotRequest) : ServerSocket σ :=
  s.handleModification messageId snapshot fun storage descriptor =>
    let inserted := st.insert storage tableId key data descriptor wantsSucceeded
    (inserted.1, wantsSucceeded && inserted.2)

/-- `ServerSocket::handleRemove` (lines 192-207). -/
def handleRemove (s : ServerSocket σ) (messageId tableId key : Nat) (snapshot : SnapshotRequest) :
    ServerSocket σ :=
  s.handleModification messageId snapshot fun storage descriptor => st.remove storage tableId key descriptor

/-- `ServerSocket::handleRevert` (lines 209-224). -/
def handleRevert (s : ServerSocket σ) (messageId tableId key : Nat) (snapshot : SnapshotRequest) :
    ServerSocket σ :=
  s.handleModification messageId snapshot fun storage descriptor => st.revert storage tableId key descriptor

/-- `ServerSocket::handleScan` (lines 226-274): the query is built with the record of the
table `mStorage.getTable(tableId)` returns, dereferenced unchecked (lines 256-260), so a
table the storage does not hold is recorded in `nullTables` and the handler stops there;
the scan is registered under its id, refused with `invalid_scan` if the id is taken, and
dropped again with `server_overlad` if the storage does not start it. -/
def handleScan (s : ServerSocket σ) (messageId tableId : Nat) (scanId : UInt16) (scan : ScanRequest)
    (snapshot : SnapshotRequest) : ServerSocket σ :=
  s.handleSnapshot messageId snapshot fun s descriptor =>
    match st.getTableById s.storage tableId with
    | none => { s with nullTables := s.nullTables ++ [tableId] }
    | some record =>
      let scanData : ScanQuery := ⟨scanId, messageId, scan,
        ⟨descriptor.lowestActiveVersion, descriptor.baseVersion, descriptor.version, descriptor.inFlight⟩, record⟩
      match s.scans scanId with
      | some _ => s.respond messageId (.error .invalidScan)
      | none =>
        let s := { s with scans := Function.update s.scans scanId (some scanData) }
        let started := st.scan s.storage tableId scanData
        let s := { s with storage := started.1 }
        if !started.2 then
          let s := s.respond messageId (.error .serverOverlad)
          { s with scans := Function.update s.scans scanId none }
        else s

/-- `ServerSocket::onRequest` (lines 15-72). -/
def onRequest (s : ServerSocket σ) (messageId : Nat) : Request → ServerSocket σ
  | .createTable tableName schema => s.handleCreateTable st messageId tableName schema
  | .getTable tableName => s.handleGetTable st messageId tableName
  | .get tableId key snapshot => s.handleGet st messageId tableId key snapshot
  | .update tableId key data snapshot => s.handleUpdate st messageId tableId key data snapshot
  | .insert tableId key wantsSucceeded data snapshot =>
    s.handleInsert st messageId tableId key wantsSucceeded data snapshot
  | .remove tableId key snapshot => s.handleRemove st messageId tableId key snapshot
  | .revert tableId key snapshot => s.handleRevert st messageId tableId key snapshot
  | .scan tableId scanId scan snapshot => s.handleScan st messageId tableId scanId scan snapshot
  | .commit => s
  | .unknown _ => s.respond messageId (.error .unkownRequest)

end Handlers

/-- `ServerSocket::onWrite` (lines 276-315): a failed write goes to `handleSocketError`; a
valid buffer is released; a `DONE` status answers the scan registered under the id in the
upper half of `userId` and drops it. -/
def onWrite (codes : WriteCodes) (s : ServerSocket σ) (userId : UInt32) (bufferId : UInt16) (ec : Nat) :
    ServerSocket σ :=
  if ec ≠ 0 then { s with socketErrors := s.socketErrors ++ [ec] }
  else
    let s := if bufferId ≠ codes.invalidId then { s with releasedBuffers := s.releasedBuffers ++ [bufferId] }
      else s
    let status := (userId &&& 0xFFFF).toUInt16
    if status = codes.ongoing then s
    else if status = codes.done then
      let scanId := ((userId >>> 16) &&& 0xFFFF).toUInt16
      match s.scans scanId with
      | none => s.logError "Scan progress with invalid scan ID"
      | some scan => { s.respond scan.messageId (.scan scanId) with scans := Function.update s.scans scanId none }
    else s.logError "Scan progress with invalid status"

end ServerSocket

/-- The calls a socket sees: a request read, a write completing, a snapshot removed. -/
inductive Event where
  | request (messageId : Nat) (request : Request)
  | write (userId : UInt32) (bufferId : UInt16) (ec : Nat)
  | removeSnapshot (version : Nat)

section Run

variable {σ : Type} (st : Storage σ) (codes : WriteCodes)

/-- One call on the socket. -/
def step (s : ServerSocket σ) : Event → ServerSocket σ
  | .request messageId request => s.onRequest st messageId request
  | .write userId bufferId ec => s.onWrite codes userId bufferId ec
  | .removeSnapshot version => { s with snapshots := removeSnapshot s.snapshots version }

/-- A sequence of calls on a fresh socket. -/
def run (storage : σ) (events : List Event) : ServerSocket σ :=
  events.foldl (step st codes) (ServerSocket.init storage)

end Run


section Answers

variable {σ : Type}

/-- The responses written to `messageId`, oldest first. -/
def ServerSocket.answers (s : ServerSocket σ) (messageId : Nat) : List Response :=
  (s.written.filter fun w => w.1 = messageId).map Prod.snd

/-- The message ids of the requests among `events`, in order. -/
def requestIds : List Event → List Nat
  | [] => []
  | .request messageId _ :: events => messageId :: requestIds events
  | _ :: events => requestIds events

/-- The responses a request's handler writes: one of its own type, or one of its errors; a
`SCAN` is answered with its own scan id. -/
def Request.expects : Request → Response → Bool
  | .createTable .., .createTable _ => true
  | .getTable _, .getTable .. => true
  | .get .., .get .. => true
  | .update .., .modification _ => true
  | .insert .., .modification _ => true
  | .remove .., .modification _ => true
  | .revert .., .modification _ => true
  | .scan _ scanId _ _, .scan scanId' => scanId' == scanId
  | .createTable .., .error .invalidTable => true
  | .getTable _, .error .invalidTable => true
  | .get .., .error .invalidSnapshot => true
  | .update .., .error .invalidSnapshot => true
  | .insert .., .error .invalidSnapshot => true
  | .remove .., .error .invalidSnapshot => true
  | .revert .., .error .invalidSnapshot => true
  | .scan .., .error .invalidSnapshot => true
  | .scan .., .error .invalidScan => true
  | .scan .., .error .serverOverlad => true
  | .unknown _, .error .unkownRequest => true
  | _, _ => false

variable {s s' : ServerSocket σ}

theorem answers_append {messageId : Nat} {response : Response}
    (written : s'.written = s.written ++ [(messageId, response)]) (mid : Nat) :
    s'.answers mid = s.answers mid ++ if messageId = mid then [response] else [] := by
  unfold ServerSocket.answers
  rw [written, List.filter_append, List.map_append]
  by_cases same : messageId = mid <;> simp [same]

theorem answers_congr (written : s'.written = s.written) (mid : Nat) : s'.answers mid = s.answers mid := by
  unfold ServerSocket.answers
  rw [written]

/-- A message id no response was written to has no answers. -/
theorem answers_eq_nil {ids : List Nat} (known : ∀ w ∈ s.written, w.1 ∈ ids) {mid : Nat} (fresh : mid ∉ ids) :
    s.answers mid = [] := by
  simp only [ServerSocket.answers, List.map_eq_nil_iff, List.filter_eq_nil_iff, decide_eq_true_eq]
  exact fun w mem same => fresh (same ▸ known w mem)

theorem requestIds_append (history events : List Event) :
    requestIds (history ++ events) = requestIds history ++ requestIds events := by
  induction history with
  | nil => rfl
  | cons e history ih => cases e <;> simp [requestIds, ih]

theorem mem_requestIds {history : List Event} {messageId : Nat} {request : Request}
    (mem : Event.request messageId request ∈ history) : messageId ∈ requestIds history := by
  induction history with
  | nil => cases mem
  | cons e history ih =>
    rcases List.mem_cons.mp mem with rfl | inner
    · exact List.mem_cons_self _ _
    · cases e <;> simp only [requestIds] <;> first | exact List.mem_cons_of_mem _ (ih inner) | exact ih inner

/-- In a history whose requests carry distinct message ids, a message id names one request. -/
theorem request_unique {history : List Event} (distinct : (requestIds history).Nodup) {messageId : Nat}
    {first second : Request} (isFirst : Event.request messageId first ∈ history)
    (isSecond : Event.request messageId second ∈ history) : first = second := by
  induction history with
  | nil => cases isFirst
  | cons e history ih =>
    cases e with
    | request m r =>
      rw [requestIds, List.nodup_cons] at distinct
      simp only [List.mem_cons, Event.request.injEq] at isFirst isSecond
      rcases isFirst with ⟨rfl, rfl⟩ | isFirst <;> rcases isSecond with ⟨same, rfl⟩ | isSecond
      · rfl
      · exact absurd (mem_requestIds isSecond) distinct.1
      · exact absurd (same ▸ mem_requestIds isFirst) distinct.1
      · exact ih distinct.2 isFirst isSecond
    | write => exact ih distinct (by simpa using isFirst) (by simpa using isSecond)
    | removeSnapshot => exact ih distinct (by simpa using isFirst) (by simpa using isSecond)

end Answers

section Outcomes

variable {σ : Type} (st : Storage σ)

/-- What one request does to the responses, the scan registry and the null tables: it is
answered with one response it expects, ignored (a `COMMIT`), or registered as a scan under a
free id; or it is a `SCAN` that dereferenced a null table, which only that records. -/
inductive RequestOutcome (s s' : ServerSocket σ) (messageId : Nat) (request : Request) : Prop where
  | answered (response : Response) (written : s'.written = s.written ++ [(messageId, response)])
      (scans : s'.scans = s.scans) (nulls : s'.nullTables = s.nullTables) (expected : request.expects response = true)
  | ignored (commit : request = .commit) (written : s'.written = s.written) (scans : s'.scans = s.scans)
      (nulls : s'.nullTables = s.nullTables)
  | registered (tableId : Nat) (scanId : UInt16) (scan : ScanRequest) (snapshot : SnapshotRequest)
      (query : ScanQuery) (isScan : request = .scan tableId scanId scan snapshot)
      (free : s.scans scanId = none) (keyed : query.scanId = scanId) (owner : query.messageId = messageId)
      (written : s'.written = s.written) (scans : s'.scans = Function.update s.scans scanId (some query))
      (nulls : s'.nullTables = s.nullTables)
  | nullTable (tableId : Nat) (isScan : ∃ scanId scan snapshot, request = .scan tableId scanId scan snapshot)
      (written : s'.written = s.written) (scans : s'.scans = s.scans)
      (nulls : s'.nullTables = s.nullTables ++ [tableId])

namespace RequestOutcome

variable {s₁ s s' : ServerSocket σ} {messageId : Nat} {request : Request}

theorem congr (outcome : RequestOutcome s₁ s' messageId request) (written : s₁.written = s.written)
    (scans : s₁.scans = s.scans) (nulls : s₁.nullTables = s.nullTables) : RequestOutcome s s' messageId request := by
  cases outcome with
  | answered response written' scans' nulls' expected =>
    exact .answered response (written ▸ written') (scans ▸ scans') (nulls ▸ nulls') expected
  | ignored commit written' scans' nulls' => exact .ignored commit (written ▸ written') (scans ▸ scans') (nulls ▸ nulls')
  | registered tableId scanId scan snapshot query isScan free keyed owner written' scans' nulls' =>
    exact .registered tableId scanId scan snapshot query isScan (scans ▸ free) keyed owner
      (written ▸ written') (scans ▸ scans') (nulls ▸ nulls')
  | nullTable tableId isScan written' scans' nulls' =>
    exact .nullTable tableId isScan (written ▸ written') (scans ▸ scans') (nulls ▸ nulls')

/-- A request only adds to the null tables. -/
theorem nullTables_append (outcome : RequestOutcome s s' messageId request) :
    ∃ extra, s'.nullTables = s.nullTables ++ extra := by
  cases outcome with
  | nullTable tableId _ _ _ nulls => exact ⟨_, nulls⟩
  | _ => exact ⟨[], by simpa⟩

end RequestOutcome

/-- A request whose snapshot is refused is answered `invalid_snapshot`; otherwise its
operation runs on the socket as it was, the cache apart. -/
theorem handleSnapshot_outcome (request : Request) (s : ServerSocket σ) (messageId : Nat)
    (snapshot : SnapshotRequest) (f : ServerSocket σ → SnapshotDescriptor → ServerSocket σ)
    (refused : request.expects (.error .invalidSnapshot) = true)
    (served : ∀ s₁ descriptor, RequestOutcome s₁ (f s₁ descriptor) messageId request) :
    RequestOutcome s (s.handleSnapshot messageId snapshot f) messageId request := by
  unfold ServerSocket.handleSnapshot
  dsimp only
  split
  · exact (served _ _).congr rfl rfl rfl
  · exact .answered _ rfl rfl rfl refused

theorem handleModification_outcome (request : Request) (s : ServerSocket σ) (messageId : Nat)
    (snapshot : SnapshotRequest) (op : σ → SnapshotDescriptor → σ × Bool)
    (modifies : ∀ succeeded, request.expects (.modification succeeded) = true)
    (refused : request.expects (.error .invalidSnapshot) = true) :
    RequestOutcome s (s.handleModification messageId snapshot op) messageId request :=
  handleSnapshot_outcome request s messageId snapshot _ refused fun _ _ => .answered _ rfl rfl rfl (modifies _)

theorem handleScan_outcome (s : ServerSocket σ) (messageId tableId : Nat) (scanId : UInt16)
    (scan : ScanRequest) (snapshot : SnapshotRequest) :
    RequestOutcome s (s.handleScan st messageId tableId scanId scan snapshot) messageId
      (.scan tableId scanId scan snapshot) := by
  refine handleSnapshot_outcome _ s messageId snapshot _ rfl fun s₁ descriptor => ?_
  dsimp only
  split
  · exact .nullTable tableId ⟨scanId, scan, snapshot, rfl⟩ rfl rfl rfl
  split
  · exact .answered _ rfl rfl rfl rfl
  · rename_i free
    split
    · refine .answered _ rfl ?_ rfl rfl
      show Function.update (Function.update s₁.scans scanId (some _)) scanId none = s₁.scans
      rw [Function.update_idem, ← free, Function.update_eq_self]
    · exact .registered tableId scanId scan snapshot _ rfl free rfl rfl rfl rfl rfl

theorem handleCreateTable_outcome (s : ServerSocket σ) (messageId : Nat) (tableName : String) (schema : Schema) :
    RequestOutcome s (s.handleCreateTable st messageId tableName schema) messageId (.createTable tableName schema) := by
  unfold ServerSocket.handleCreateTable
  dsimp only
  split
  · exact .answered _ rfl rfl rfl rfl
  · exact .answered _ rfl rfl rfl rfl

theorem handleGetTable_outcome (s : ServerSocket σ) (messageId : Nat) (tableName : String) :
    RequestOutcome s (s.handleGetTable st messageId tableName) messageId (.getTable tableName) := by
  unfold ServerSocket.handleGetTable
  split
  · exact .answered _ rfl rfl rfl rfl
  · exact .answered _ rfl rfl rfl rfl

/-- Every request is answered once with a response it expects, ignored if it is a `COMMIT`,
or registered as a scan under a free id. -/
theorem onRequest_outcome (s : ServerSocket σ) (messageId : Nat) (request : Request) :
    RequestOutcome s (s.onRequest st messageId request) messageId request := by
  cases request with
  | createTable tableName schema => exact handleCreateTable_outcome st s messageId tableName schema
  | getTable tableName => exact handleGetTable_outcome st s messageId tableName
  | get tableId key snapshot =>
    show RequestOutcome s (s.handleGet st messageId tableId key snapshot) _ _
    unfold ServerSocket.handleGet
    refine handleSnapshot_outcome _ s messageId snapshot _ rfl fun s₁ descriptor => ?_
    exact .answered _ rfl rfl rfl rfl
  | update tableId key data snapshot =>
    exact handleModification_outcome _ s messageId snapshot
      (fun storage descriptor => st.update storage tableId key data descriptor) (fun _ => rfl) rfl
  | insert tableId key wantsSucceeded data snapshot =>
    exact handleModification_outcome _ s messageId snapshot
      (fun storage descriptor => ((st.insert storage tableId key data descriptor wantsSucceeded).1,
        wantsSucceeded && (st.insert storage tableId key data descriptor wantsSucceeded).2)) (fun _ => rfl) rfl
  | remove tableId key snapshot =>
    exact handleModification_outcome _ s messageId snapshot
      (fun storage descriptor => st.remove storage tableId key descriptor) (fun _ => rfl) rfl
  | revert tableId key snapshot =>
    exact handleModification_outcome _ s messageId snapshot
      (fun storage descriptor => st.revert storage tableId key descriptor) (fun _ => rfl) rfl
  | scan tableId scanId scan snapshot => exact handleScan_outcome st s messageId tableId scanId scan snapshot
  | commit => exact .ignored rfl rfl rfl rfl
  | unknown => exact .answered _ rfl rfl rfl rfl

/-- A write completion answers nothing, or answers the scan registered under the id it
reports `DONE` with that id and drops it. -/
theorem onWrite_cases (codes : WriteCodes) (s : ServerSocket σ) (userId : UInt32) (bufferId : UInt16) (ec : Nat) :
    ((s.onWrite codes userId bufferId ec).written = s.written ∧ (s.onWrite codes userId bufferId ec).scans = s.scans) ∨
    ∃ scanId query, s.scans scanId = some query ∧
      (s.onWrite codes userId bufferId ec).written = s.written ++ [(query.messageId, .scan scanId)] ∧
      (s.onWrite codes userId bufferId ec).scans = Function.update s.scans scanId none := by
  unfold ServerSocket.onWrite
  split
  · exact .inl ⟨rfl, rfl⟩
  · have released : (if bufferId ≠ codes.invalidId then
        { s with releasedBuffers := s.releasedBuffers ++ [bufferId] } else s).written = s.written ∧
        (if bufferId ≠ codes.invalidId then
        { s with releasedBuffers := s.releasedBuffers ++ [bufferId] } else s).scans = s.scans := by
      split <;> exact ⟨rfl, rfl⟩
    generalize (if bufferId ≠ codes.invalidId then
      { s with releasedBuffers := s.releasedBuffers ++ [bufferId] } else s) = s₁ at released ⊢
    obtain ⟨written, scans⟩ := released
    dsimp only
    split
    · exact .inl ⟨written, scans⟩
    · split
      · split
        · exact .inl ⟨written, scans⟩
        · rename_i query found
          exact .inr ⟨_, query, scans ▸ found, by rw [← written]; rfl, by rw [← scans]⟩
      · exact .inl ⟨written, scans⟩

/-- A write completion leaves the cache and the null tables as they were. -/
theorem onWrite_frame (codes : WriteCodes) (s : ServerSocket σ) (userId : UInt32) (bufferId : UInt16) (ec : Nat) :
    (s.onWrite codes userId bufferId ec).snapshots = s.snapshots ∧
      (s.onWrite codes userId bufferId ec).nullTables = s.nullTables := by
  unfold ServerSocket.onWrite
  split
  · exact ⟨rfl, rfl⟩
  generalize released : (if bufferId ≠ codes.invalidId then
      { s with releasedBuffers := s.releasedBuffers ++ [bufferId] } else s) = s₁
  have frame : s₁.snapshots = s.snapshots ∧ s₁.nullTables = s.nullTables := by
    rw [← released]
    split <;> exact ⟨rfl, rfl⟩
  dsimp only
  split
  · exact frame
  split
  · split <;> exact frame
  · exact frame

variable (codes : WriteCodes)

/-- A call only adds to the null tables. -/
theorem step_nullTables (s : ServerSocket σ) (e : Event) :
    ∃ extra, (step st codes s e).nullTables = s.nullTables ++ extra := by
  cases e with
  | request messageId request => exact (onRequest_outcome st s messageId request).nullTables_append
  | write userId bufferId ec => exact ⟨[], (onWrite_frame codes s userId bufferId ec).2.trans (List.append_nil _).symm⟩
  | removeSnapshot version => exact ⟨[], (List.append_nil _).symm⟩

theorem foldl_nullTables (events : List Event) (s : ServerSocket σ) :
    ∃ extra, (events.foldl (step st codes) s).nullTables = s.nullTables ++ extra := by
  induction events generalizing s with
  | nil => exact ⟨[], (List.append_nil _).symm⟩
  | cons e events ih =>
    obtain ⟨first, stepped⟩ := step_nullTables st codes s e
    obtain ⟨rest, later⟩ := ih (step st codes s e)
    exact ⟨first ++ rest, by rw [List.foldl_cons, later, stepped, List.append_assoc]⟩

end Outcomes

section Invariant

variable {σ : Type}

/-- The responses and the scan registry after the calls of `history`: every registered scan is
keyed by its own id, belongs to a `SCAN` request of the history with that id, and has not been
answered; every response answers a request of the history; and each request of the history
is answered once with a response it expects, or is a `COMMIT` never answered, or is a
registered scan. -/
structure AnswersOnce (history : List Event) (s : ServerSocket σ) : Prop where
  registered : ∀ scanId query, s.scans scanId = some query → query.scanId = scanId ∧
    ∃ tableId scan snapshot, Event.request query.messageId (.scan tableId scanId scan snapshot) ∈ history
  known : ∀ w ∈ s.written, w.1 ∈ requestIds history
  waiting : ∀ scanId query, s.scans scanId = some query → s.answers query.messageId = []
  answered : ∀ messageId request, Event.request messageId request ∈ history →
    (∃ response, request.expects response = true ∧ s.answers messageId = [response]) ∨
    (request = .commit ∧ s.answers messageId = []) ∨
    ∃ scanId query, s.scans scanId = some query ∧ query.messageId = messageId

namespace AnswersOnce

variable {history : List Event} {s s' : ServerSocket σ}

/-- A fresh socket, before any call: nothing is registered or written. -/
theorem init (storage : σ) : AnswersOnce [] (ServerSocket.init storage) where
  registered _ _ found := nomatch found
  known _ mem := nomatch mem
  waiting _ _ found := nomatch found
  answered _ _ mem := nomatch mem

/-- A call that is not a request, or changes neither the responses nor the registry. -/
theorem frame (inv : AnswersOnce history s) (written : s'.written = s.written) (scans : s'.scans = s.scans) :
    AnswersOnce history s' := by
  obtain ⟨registered, known, waiting, answered⟩ := inv
  refine ⟨scans ▸ registered, written ▸ known, fun k q found => ?_, fun m r mem => ?_⟩
  · rw [answers_congr written]
    exact waiting k q (scans ▸ found)
  · rw [answers_congr written, scans]
    exact answered m r mem

theorem later (inv : AnswersOnce history s) {e : Event} (notRequest : ∀ m r, e ≠ .request m r) :
    AnswersOnce (history ++ [e]) s := by
  have old : ∀ m r, Event.request m r ∈ history ++ [e] → Event.request m r ∈ history := fun m r mem =>
    (List.mem_append.mp mem).resolve_right fun last => notRequest m r (List.mem_singleton.mp last).symm
  obtain ⟨registered, known, waiting, answered⟩ := inv
  refine ⟨fun k q found => ?_, fun w mem => ?_, waiting, fun m r mem => answered m r (old m r mem)⟩
  · obtain ⟨keyed, tableId, scan, snapshot, mem⟩ := registered k q found
    exact ⟨keyed, tableId, scan, snapshot, List.mem_append_left _ mem⟩
  · rw [requestIds_append]
    exact List.mem_append_left _ (known w mem)

/-- A request with a fresh message id keeps the invariant, whatever it does. -/
theorem request (inv : AnswersOnce history s) {messageId : Nat} {request : Request}
    (fresh : messageId ∉ requestIds history) (outcome : RequestOutcome s s' messageId request)
    (defined : s'.nullTables = s.nullTables) :
    AnswersOnce (history ++ [.request messageId request]) s' := by
  obtain ⟨registered, known, waiting, answered⟩ := inv
  have older : ∀ m r, Event.request m r ∈ history → m ≠ messageId := fun m r mem same =>
    fresh (same ▸ mem_requestIds mem)
  have silent : s.answers messageId = [] := answers_eq_nil known fresh
  have newest : ∀ m r, Event.request m r ∈ history ++ [.request messageId request] →
      Event.request m r ∈ history ∨ m = messageId ∧ r = request := fun m r mem => by
    simpa using mem
  have lifted : ∀ k q, s.scans k = some q → q.scanId = k ∧ ∃ tableId scan snapshot,
      Event.request q.messageId (.scan tableId k scan snapshot) ∈ history ++ [.request messageId request] :=
    fun k q found => by
      obtain ⟨keyed, tableId, scan, snapshot, mem⟩ := registered k q found
      exact ⟨keyed, tableId, scan, snapshot, List.mem_append_left _ mem⟩
  have knownIds : ∀ w ∈ s.written, w.1 ∈ requestIds (history ++ [.request messageId request]) :=
    fun w mem => by
      rw [requestIds_append]
      exact List.mem_append_left _ (known w mem)
  have mine : messageId ∈ requestIds (history ++ [.request messageId request]) := by
    simp [requestIds_append, requestIds]
  cases outcome with
  | answered response written scans _ expected =>
    have others : ∀ m, m ≠ messageId → s'.answers m = s.answers m := fun m other => by
      rw [answers_append written, if_neg (Ne.symm other), List.append_nil]
    refine ⟨scans ▸ lifted, fun w mem => ?_, fun k q found => ?_, fun m r mem => ?_⟩
    · rw [written] at mem
      rcases List.mem_append.mp mem with old | new
      · exact knownIds w old
      · rw [List.mem_singleton.mp new]
        exact mine
    · obtain ⟨-, tableId, scan, snapshot, mem⟩ := registered k q (scans ▸ found)
      rw [others _ (older _ _ mem)]
      exact waiting k q (scans ▸ found)
    · rcases newest m r mem with old | ⟨rfl, rfl⟩
      · rw [others m (older m r old), scans]
        exact answered m r old
      · rw [answers_append written, silent, if_pos rfl]
        exact .inl ⟨response, expected, rfl⟩
  | ignored commit written scans _ =>
    refine (⟨lifted, knownIds, waiting, fun m r mem => ?_⟩ : AnswersOnce _ s).frame written scans
    rcases newest m r mem with old | ⟨rfl, rfl⟩
    · exact answered m r old
    · exact .inr (.inl ⟨commit, silent⟩)
  | registered tableId scanId scan snapshot query isScan free keyed owner written scans _ =>
    subst isScan
    refine ⟨fun k q found => ?_, fun w mem => knownIds w (written ▸ mem), fun k q found => ?_,
      fun m r mem => ?_⟩
    · rw [scans] at found
      by_cases here : k = scanId
      · subst here
        rw [Function.update_same] at found
        cases found
        exact ⟨keyed, tableId, scan, snapshot, by simp [owner]⟩
      · rw [Function.update_noteq here] at found
        exact lifted k q found
    · rw [scans] at found
      rw [answers_congr written]
      by_cases here : k = scanId
      · subst here
        rw [Function.update_same] at found
        cases found
        rw [owner]
        exact silent
      · rw [Function.update_noteq here] at found
        exact waiting k q found
    · rw [answers_congr written, scans]
      rcases newest m r mem with old | ⟨rfl, rfl⟩
      · rcases answered m r old with done | ignored | ⟨k, q, found, owned⟩
        · exact .inl done
        · exact .inr (.inl ignored)
        · have other : k ≠ scanId := fun same => by rw [same, free] at found; cases found
          exact .inr (.inr ⟨k, q, by rw [Function.update_noteq other]; exact found, owned⟩)
      · exact .inr (.inr ⟨scanId, query, Function.update_same _ _ _, owner⟩)
  | nullTable tableId _ _ _ nulls => exact absurd (nulls.symm.trans defined) (by simp)

/-- Answering the scan registered under `scanId` and dropping it keeps the invariant, in a
history whose requests carry distinct message ids. -/
theorem done (inv : AnswersOnce history s) (distinct : (requestIds history).Nodup) {scanId : UInt16}
    {query : ScanQuery} (found : s.scans scanId = some query)
    (written : s'.written = s.written ++ [(query.messageId, .scan scanId)])
    (scans : s'.scans = Function.update s.scans scanId none) : AnswersOnce history s' := by
  obtain ⟨registered, known, waiting, answered⟩ := inv
  obtain ⟨-, tableId, scan, snapshot, owner⟩ := registered scanId query found
  have others : ∀ m, m ≠ query.messageId → s'.answers m = s.answers m := fun m other => by
    rw [answers_append written, if_neg (Ne.symm other), List.append_nil]
  have kept : ∀ k q, s'.scans k = some q → k ≠ scanId ∧ s.scans k = some q := fun k q found' => by
    rw [scans] at found'
    by_cases here : k = scanId
    · rw [here, Function.update_same] at found'
      cases found'
    · rw [Function.update_noteq here] at found'
      exact ⟨here, found'⟩
  have apart : ∀ k q, k ≠ scanId → s.scans k = some q → q.messageId ≠ query.messageId := fun k q other found' same => by
    obtain ⟨-, tableId', scan', snapshot', mem⟩ := registered k q found'
    rw [same] at mem
    cases request_unique distinct mem owner
    exact other rfl
  refine ⟨fun k q found' => registered k q (kept k q found').2, fun w mem => ?_, fun k q found' => ?_,
    fun m r mem => ?_⟩
  · rw [written] at mem
    rcases List.mem_append.mp mem with old | new
    · exact known w old
    · rw [List.mem_singleton.mp new]
      exact mem_requestIds owner
  · obtain ⟨other, found'⟩ := kept k q found'
    rw [others _ (apart k q other found')]
    exact waiting k q found'
  · by_cases mine : m = query.messageId
    · subst mine
      cases request_unique distinct mem owner
      rw [answers_append written, waiting scanId query found, if_pos rfl]
      exact .inl ⟨.scan scanId, beq_self_eq_true scanId, rfl⟩
    · rw [others m mine]
      rcases answered m r mem with done | ignored | ⟨k, q, found', owned⟩
      · exact .inl done
      · exact .inr (.inl ignored)
      · have other : k ≠ scanId := fun same => by
          rw [same, found] at found'
          cases found'
          exact mine owned.symm
        exact .inr (.inr ⟨k, q, by rw [scans, Function.update_noteq other]; exact found', owned⟩)

end AnswersOnce

variable (st : Storage σ) (codes : WriteCodes)

/-- One call that dereferences no null table keeps the invariant, in a history whose requests
carry distinct message ids. -/
theorem step_answersOnce {history : List Event} {s : ServerSocket σ} (e : Event)
    (inv : AnswersOnce history s) (distinct : (requestIds (history ++ [e])).Nodup)
    (defined : (step st codes s e).nullTables = s.nullTables) :
    AnswersOnce (history ++ [e]) (step st codes s e) := by
  rw [requestIds_append, List.nodup_append] at distinct
  cases e with
  | request messageId request =>
    exact inv.request (fun mem => distinct.2.2 mem (List.mem_singleton_self _))
      (onRequest_outcome st s messageId request) defined
  | write userId bufferId ec =>
    refine AnswersOnce.later ?_ fun _ _ same => nomatch same
    rcases onWrite_cases codes s userId bufferId ec with ⟨written, scans⟩ | ⟨k, q, found, written, scans⟩
    · exact inv.frame written scans
    · exact inv.done distinct.1 found written scans
  | removeSnapshot version =>
    refine AnswersOnce.later ?_ fun _ _ same => nomatch same
    exact inv.frame rfl rfl

/-- Calls from a state that keeps the invariant, dereferencing no null table, keep it, in a
history whose requests carry distinct message ids. -/
theorem foldl_answersOnce : ∀ (rest history : List Event) (s : ServerSocket σ), AnswersOnce history s →
    (requestIds (history ++ rest)).Nodup → (rest.foldl (step st codes) s).nullTables = s.nullTables →
    AnswersOnce (history ++ rest) (rest.foldl (step st codes) s)
  | [], history, _, inv, _, _ => (List.append_nil history).symm ▸ inv
  | e :: rest, history, s, inv, distinct, defined => by
    obtain ⟨first, stepped⟩ := step_nullTables st codes s e
    obtain ⟨later, final⟩ := foldl_nullTables st codes rest (step st codes s e)
    rw [List.foldl_cons, final, stepped, List.append_assoc, List.append_right_eq_self,
      List.append_eq_nil] at defined
    rw [List.append_cons, requestIds_append] at distinct
    rw [List.append_cons]
    exact foldl_answersOnce rest (history ++ [e]) _
      (step_answersOnce st codes e inv (List.nodup_append.mp distinct).1 (by rw [stepped, defined.1, List.append_nil]))
      (by rwa [requestIds_append]) (by rw [final, defined.2, List.append_nil])

/-- In every run whose requests carry distinct message ids and that dereferences no null
table, every request is answered at most once, with a response of its own type or one of its
handler's errors: exactly once, unless it is a `COMMIT`, which is never answered, or a `SCAN`
still registered, answered when the write reporting it `DONE` completes; every response
answers a request of the run; and every registered scan is keyed by its own scan id and
belongs to a `SCAN` request with that id. -/
theorem run_answers_requests_once (storage : σ) (events : List Event) (distinct : (requestIds events).Nodup)
    (defined : (run st codes storage events).nullTables = []) :
    AnswersOnce events (run st codes storage events) :=
  foldl_answersOnce st codes events [] _ (.init storage) distinct defined

/-- A storage that holds table 7 and accepts every call: a scan of table 7 with id 3 is
registered, a `COMMIT` is ignored, the write reporting scan 3 `DONE` answers the scan, and an
unknown request is refused. -/
theorem run_answers_requests_once_scan_held_table :
    (requestIds [.request 1 (.scan 7 3 ⟨0, 0, 0, [], 0, []⟩ ⟨false, true, 0, ⟨0, 0, 5, []⟩⟩),
        .request 2 .commit, .write ((3 : UInt32) <<< 16 ||| 2) 0xFFFF 0, .request 3 (.unknown 99)]).Nodup ∧
    (run (⟨fun _ _ _ => ((), true, 1), fun _ _ => none,
          fun _ tableId => if tableId = 7 then some ⟨[]⟩ else none, fun _ _ _ _ => ⟨false, [], 0, false⟩,
          fun _ _ _ _ _ => ((), true), fun _ _ _ _ _ _ => ((), true), fun _ _ _ _ => ((), true),
          fun _ _ _ _ => ((), true), fun _ _ _ => ((), true)⟩ : Storage Unit)
        ⟨1, 2, 0xFFFF⟩ ()
        [.request 1 (.scan 7 3 ⟨0, 0, 0, [], 0, []⟩ ⟨false, true, 0, ⟨0, 0, 5, []⟩⟩),
          .request 2 .commit, .write ((3 : UInt32) <<< 16 ||| 2) 0xFFFF 0, .request 3 (.unknown 99)]).nullTables = [] ∧
    AnswersOnce [.request 1 (.scan 7 3 ⟨0, 0, 0, [], 0, []⟩ ⟨false, true, 0, ⟨0, 0, 5, []⟩⟩),
        .request 2 .commit, .write ((3 : UInt32) <<< 16 ||| 2) 0xFFFF 0, .request 3 (.unknown 99)]
      (run (⟨fun _ _ _ => ((), true, 1), fun _ _ => none,
            fun _ tableId => if tableId = 7 then some ⟨[]⟩ else none, fun _ _ _ _ => ⟨false, [], 0, false⟩,
            fun _ _ _ _ _ => ((), true), fun _ _ _ _ _ _ => ((), true), fun _ _ _ _ => ((), true),
            fun _ _ _ _ => ((), true), fun _ _ _ => ((), true)⟩ : Storage Unit)
        ⟨1, 2, 0xFFFF⟩ ()
        [.request 1 (.scan 7 3 ⟨0, 0, 0, [], 0, []⟩ ⟨false, true, 0, ⟨0, 0, 5, []⟩⟩),
          .request 2 .commit, .write ((3 : UInt32) <<< 16 ||| 2) 0xFFFF 0, .request 3 (.unknown 99)]) :=
  ⟨by decide, by decide, run_answers_requests_once (⟨fun _ _ _ => ((), true, 1), fun _ _ => none,
      fun _ tableId => if tableId = 7 then some ⟨[]⟩ else none, fun _ _ _ _ => ⟨false, [], 0, false⟩,
      fun _ _ _ _ _ => ((), true), fun _ _ _ _ _ _ => ((), true), fun _ _ _ _ => ((), true),
      fun _ _ _ _ => ((), true), fun _ _ _ => ((), true)⟩ : Storage Unit)
    ⟨1, 2, 0xFFFF⟩ () _ (by decide) (by decide)⟩

/-- The same run: the scan is answered with its id once its write reports it done, the
`COMMIT` never, and the unknown request with `unkown_request`. -/
example : (run (⟨fun _ _ _ => ((), true, 1), fun _ _ => none,
        fun _ tableId => if tableId = 7 then some ⟨[]⟩ else none, fun _ _ _ _ => ⟨false, [], 0, false⟩,
        fun _ _ _ _ _ => ((), true), fun _ _ _ _ _ _ => ((), true), fun _ _ _ _ => ((), true),
        fun _ _ _ _ => ((), true), fun _ _ _ => ((), true)⟩ : Storage Unit)
        ⟨1, 2, 0xFFFF⟩ ()
        [.request 1 (.scan 7 3 ⟨0, 0, 0, [], 0, []⟩ ⟨false, true, 0, ⟨0, 0, 5, []⟩⟩),
          .request 2 .commit, .write ((3 : UInt32) <<< 16 ||| 2) 0xFFFF 0, .request 3 (.unknown 99)]).written =
    [(1, .scan 3), (3, .error .unkownRequest)] := by
  decide

/-- A scan of table 8, which the storage does not hold, dereferences a null table: the model
records it, and the request is neither answered nor registered. -/
example :
    let s := run (⟨fun _ _ _ => ((), true, 1), fun _ _ => none,
          fun _ tableId => if tableId = 7 then some ⟨[]⟩ else none, fun _ _ _ _ => ⟨false, [], 0, false⟩,
          fun _ _ _ _ _ => ((), true), fun _ _ _ _ _ _ => ((), true), fun _ _ _ _ => ((), true),
          fun _ _ _ _ => ((), true), fun _ _ _ => ((), true)⟩ : Storage Unit)
          ⟨1, 2, 0xFFFF⟩ () [.request 1 (.scan 8 3 ⟨0, 0, 0, [], 0, []⟩ ⟨false, true, 0, ⟨0, 0, 5, []⟩⟩)]
    s.nullTables = [8] ∧ s.written = [] ∧ s.scans 3 = none := by
  decide

end Invariant

section Cache

variable {σ : Type}

/-- The snapshot a request carries: `GET`, the modifications and `SCAN` read one before
their operation (lines 124, 152, 174, 198, 215, 250). -/
def Request.snapshot : Request → Option SnapshotRequest
  | .get _ _ snapshot | .update _ _ _ snapshot | .insert _ _ _ _ snapshot | .remove _ _ snapshot
  | .revert _ _ snapshot | .scan _ _ _ snapshot => some snapshot
  | _ => none

/-- What a socket call is to its snapshot cache. -/
def Event.cacheEvent : Event → Option Server.Event
  | .request _ r => r.snapshot.map Server.Event.request
  | .write _ _ _ => none
  | .removeSnapshot version => some (.remove version)

/-- The snapshot cache's calls of a run, in order. -/
def cacheEvents (events : List Event) : List Server.Event := events.filterMap Event.cacheEvent

theorem ServerSocket.handleSnapshot_snapshots (s : ServerSocket σ) (messageId : Nat)
    (request : SnapshotRequest) (f : ServerSocket σ → SnapshotDescriptor → ServerSocket σ)
    (keeps : ∀ s₁ descriptor, (f s₁ descriptor).snapshots = s₁.snapshots) :
    (s.handleSnapshot messageId request f).snapshots = (Server.handleSnapshot s.snapshots request).1 := by
  unfold ServerSocket.handleSnapshot
  dsimp only
  split
  · exact keeps _ _
  · rfl

variable (st : Storage σ) (codes : WriteCodes)

/-- A request changes the cache only through the snapshot it carries: no handler's operation
touches `mSnapshots`. -/
theorem onRequest_snapshots (s : ServerSocket σ) (messageId : Nat) (request : Request) :
    (s.onRequest st messageId request).snapshots =
      match request.snapshot with
      | some snapshot => (Server.handleSnapshot s.snapshots snapshot).1
      | none => s.snapshots := by
  cases request with
  | createTable tableName schema =>
    show (s.handleCreateTable st messageId tableName schema).snapshots = s.snapshots
    unfold ServerSocket.handleCreateTable
    dsimp only
    split <;> rfl
  | getTable tableName =>
    show (s.handleGetTable st messageId tableName).snapshots = s.snapshots
    unfold ServerSocket.handleGetTable
    split <;> rfl
  | scan tableId scanId scan snapshot =>
    refine ServerSocket.handleSnapshot_snapshots _ _ _ _ fun s₁ descriptor => ?_
    dsimp only
    split
    · rfl
    split
    · rfl
    · split <;> rfl
  | commit | unknown => rfl
  | _ => exact ServerSocket.handleSnapshot_snapshots _ _ _ _ fun _ _ => rfl

/-- One socket call moves the cache as the cache's own call does, or not at all. -/
theorem step_snapshots (s : ServerSocket σ) (cache : SnapshotMap × List Server.Step)
    (same : s.snapshots = cache.1) (e : Event) :
    (step st codes s e).snapshots =
      match e.cacheEvent with
      | some call => (Server.step cache call).1
      | none => cache.1 := by
  cases e with
  | request messageId request =>
    rw [step, onRequest_snapshots, same]
    simp only [Event.cacheEvent]
    cases request.snapshot <;> rfl
  | write userId bufferId ec => exact (onWrite_frame codes s userId bufferId ec).1.trans same
  | removeSnapshot version => exact congrArg (removeSnapshot · version) same

/-- The socket's snapshot cache is the standalone cache of `Tellstore.Server.handleSnapshot`
and `Tellstore.Server.removeSnapshot` run on the run's snapshot-carrying requests and removals,
in order. So after every run the cache maps each version to the descriptor of its newest live
registration, and each request carrying a snapshot runs its operation on the descriptor that
history prescribes, or is answered `invalid_snapshot`. -/
theorem run_snapshots_follow_history (storage : σ) (events : List Event) :
    (run st codes storage events).snapshots = (Server.run (cacheEvents events)).1 ∧
    (∀ v, (run st codes storage events).snapshots v = Server.lastLive (Server.run (cacheEvents events)).2 v) ∧
    ∀ messageId request f, (run st codes storage events).handleSnapshot messageId request f =
      match Server.expected (Server.run (cacheEvents events)).2 request with
      | .ran descriptor => f { run st codes storage events with
          snapshots := (Server.handleSnapshot (run st codes storage events).snapshots request).1 } descriptor
      | .error _ => { run st codes storage events with
          snapshots := (Server.handleSnapshot (run st codes storage events).snapshots request).1 }.respond
          messageId (.error .invalidSnapshot) := by
  have fold : ∀ (rest : List Event) (s : ServerSocket σ) (cache : SnapshotMap × List Server.Step),
      s.snapshots = cache.1 →
      (rest.foldl (step st codes) s).snapshots = ((cacheEvents rest).foldl Server.step cache).1 := by
    intro rest
    induction rest with
    | nil => exact fun _ _ same => same
    | cons e rest ih =>
      intro s cache same
      have moved := step_snapshots st codes s cache same e
      unfold cacheEvents
      rw [List.filterMap_cons]
      cases found : e.cacheEvent with
      | none => exact ih _ cache (by rw [moved, found])
      | some call => exact ih _ (Server.step cache call) (by rw [moved, found])
  have refines := fold events (ServerSocket.init storage) (fun _ => none, []) rfl
  have agrees : ∀ v, (run st codes storage events).snapshots v =
      Server.lastLive (Server.run (cacheEvents events)).2 v := fun v => by
    rw [run, refines]
    exact (Server.run_invariant _).agrees v
  refine ⟨refines, agrees, fun messageId request f => ?_⟩
  unfold ServerSocket.handleSnapshot Server.expected
  dsimp only
  rw [Server.handleSnapshot_response, show (run st codes storage events).snapshots =
    Server.lastLive (Server.run (cacheEvents events)).2 from funext agrees]

end Cache

end Tellstore.Server.Socket
