import Mathlib.Logic.Function.Basic
import ForwardingRelayer.Backend
import ForwardingRelayer.Chrono

/-!
# The backend's server

The calls `axum` serves, any number of them at a time, with statements that may fail, and the
metrics. A step of a handler is a lock section, a counter or a gauge; no handler awaits anything
between them. A process opens the table the last one has left, and exits if it cannot open it, read
it or listen.
-/

namespace ForwardingRelayer

namespace BackendStorage

/-- What `BackendStorage::new` does, each of which may fail. -/
inductive Opening
  | createDirAll
  | open
  | createTable
  /-- A column that is there already is no failure. -/
  | addColumn (column : String)
  deriving DecidableEq

def openings : List Opening :=
  [.createDirAll, .open, .createTable, .addColumn "custom_hook_id",
    .addColumn "custom_hook_metadata"]

/-- A statement that has failed. -/
inductive Failure
  | insert
  | prepareSelect
  | queryExisting
  | queryAll
  | readRow
  | queryCount
  | queryOldest
  | healthCheck
  | query
  | delete
  deriving DecidableEq

/-- The outermost context of the error, which is what `to_string` gives. -/
def Failure.context : Failure → String
  | .insert => "Failed to insert forwarding request"
  | .prepareSelect => "Failed to prepare SELECT statement"
  | .queryExisting => "Failed to query existing request"
  | .queryAll => "Failed to query forwarding requests"
  | .readRow => "Failed to read row"
  | .queryCount => "Failed to query pending request count"
  | .queryOldest => "Failed to query oldest pending request timestamp"
  | .healthCheck => "Database health check failed"
  | .query => "Failed to query forwarding request"
  | .delete => "Failed to delete forwarding request"

/-- The first of the statements that fails, if one does. -/
def firstFailing (failing : Failure → Bool) (statements : List Failure) : Option Failure :=
  statements.find? failing

/-- `create_request`; the row that is there is selected only if none is inserted. -/
def tryCreateRequest (db : BackendStorage) (failing : Failure → Bool) (createdAt : String)
    (req : CreateForwardingRequest) : Except Failure (ForwardingRequest × Bool) × BackendStorage :=
  match firstFailing failing [.insert] with
  | some e => (.error e, db)
  | none =>
    match db.createRequest createdAt req with
    | ((request, true), db') => (.ok (request, true), db')
    | ((existing, false), db') =>
      match firstFailing failing [.prepareSelect, .queryExisting] with
      | some e => (.error e, db')
      | none => (.ok (existing, false), db')

/-- A row is read only if there is one. -/
def listStatements (db : BackendStorage) : List Failure :=
  [.prepareSelect, .queryAll] ++ if db.rows = [] then [] else [.readRow]

def tryListRequests (db : BackendStorage) (failing : Failure → Bool) :
    Except Failure (List ForwardingRequest) :=
  match firstFailing failing db.listStatements with
  | some e => .error e
  | none => .ok db.listRequests

def tryPendingMetricsSnapshot (db : BackendStorage) (failing : Failure → Bool) :
    Except Failure PendingRequestMetricsSnapshot :=
  match firstFailing failing [.queryCount, .queryOldest] with
  | some e => .error e
  | none => .ok db.pendingMetricsSnapshot

/-- `remove_by_addr`; the row is deleted after it is selected. -/
def tryRemoveByAddr (db : BackendStorage) (failing : Failure → Bool) (addr : String) :
    Except Failure (Option ForwardingRequest) × BackendStorage :=
  match firstFailing failing [.prepareSelect, .query] with
  | some e => (.error e, db)
  | none =>
    match db.removeByAddr addr with
    | (none, db') => (.ok none, db')
    | (some request, db') =>
      match firstFailing failing [.delete] with
      | some e => (.error e, db)
      | none => (.ok (some request), db')

end BackendStorage

open BackendStorage (Failure Opening openings)

/-- In whole seconds; the error is its outermost context. -/
def oldestPendingRequestAgeSeconds (chrono : Chrono) (createdAt : Option String) (now : ℤ) :
    Except String ℤ :=
  match createdAt with
  | none => .ok 0
  | some createdAt =>
    match chrono.parseFromRfc3339 createdAt with
    | none => .error s!"Invalid forwarding request timestamp: {createdAt}"
    | some created => .ok (secondsSince created (.ofNanos now))

/-- How a `POST` or a `DELETE` is counted. -/
inductive Outcome
  | addressMismatch
  | invalidParams
  | created
  | existing
  | createError
  | removed
  | notFound
  | removeError
  deriving DecidableEq

namespace Outcome

/-- The counter and its `result`. -/
def key : Outcome → String × String
  | .addressMismatch => ("requests_created_total", "address_mismatch")
  | .invalidParams => ("requests_created_total", "invalid_params")
  | .created => ("requests_created_total", "created")
  | .existing => ("requests_created_total", "existing")
  | .createError => ("requests_created_total", "error")
  | .removed => ("requests_completed_total", "removed")
  | .notFound => ("requests_completed_total", "not_found")
  | .removeError => ("requests_completed_total", "error")

/-- Whether the gauges are refreshed after it. -/
def refreshes : Outcome → Bool
  | .created | .existing | .removed => true
  | _ => false

end Outcome

structure BackendMetrics where
  counters : String × String → ℕ
  /-- The gauge `pending_requests`, once it is set. -/
  pendingRequests : Option ℕ
  /-- The gauge `oldest_pending_request_age_seconds`, once it is set. -/
  oldestAge : Option ℤ

namespace BackendMetrics

def new : BackendMetrics := ⟨fun _ => 0, none, none⟩

def increment (m : BackendMetrics) (outcome : Outcome) : BackendMetrics :=
  { m with counters := Function.update m.counters outcome.key (m.counters outcome.key + 1) }

end BackendMetrics

/-- Where a `refresh_metrics` is. -/
inductive Refresh
  | start
  | pending (snapshot : PendingRequestMetricsSnapshot)
  | age (snapshot : PendingRequestMetricsSnapshot)
  | done (ok : Bool)

def Refresh.step (chrono : Chrono) (db : BackendStorage) (m : BackendMetrics) (now : ℤ)
    (failing : Failure → Bool) : Refresh → BackendMetrics × Refresh
  | .start =>
    match db.tryPendingMetricsSnapshot failing with
    | .ok snapshot => (m, .pending snapshot)
    | .error _ => (m, .done false)
  | .pending snapshot =>
    ({ m with pendingRequests := some snapshot.pendingRequests }, .age snapshot)
  | .age snapshot =>
    match oldestPendingRequestAgeSeconds chrono snapshot.oldestCreatedAt now with
    | .ok seconds => ({ m with oldestAge := some seconds }, .done true)
    | .error _ => (m, .done false)
  | .done ok => (m, .done ok)

structure ForwardingAddressQuery where
  destDomain : UInt32
  destRecipient : String
  tokenId : String
  customHookId : Option String
  customHookMetadata : Option String

inductive Answer
  | response (r : Response)
  | requests (rows : List ForwardingRequest)
  | address (address : String)
  | badRequest (error : String)
  | healthy
  /-- With the error's text, where the handler answers with it. -/
  | internalServerError (error : Option String)
  deriving DecidableEq

def Answer.statusCode : Answer → ℕ
  | .response r => r.statusCode
  | .requests _ | .address _ | .healthy => 200
  | .badRequest _ => 400
  | .internalServerError _ => 500

inductive Request
  | health
  | forwardingAddress (params : ForwardingAddressQuery)
  | list
  | post (req : CreateForwardingRequest)
  | delete (addr : String)

/-- Where a handler is. -/
inductive Handler
  | start (request : Request)
  /-- The posted address is the derived one. -/
  | create (req : CreateForwardingRequest)
  | count (outcome : Outcome) (answer : Answer)
  | refresh (r : Refresh) (answer : Answer)
  | answered (answer : Answer)

namespace Handler

def finish (metricsEnabled : Bool) (outcome : Outcome) (answer : Answer) : Handler :=
  if metricsEnabled then .count outcome answer else .answered answer

/-- `get_forwarding_address`. -/
def getForwardingAddress (C : Crypto) (params : ForwardingAddressQuery) : Answer :=
  match deriveForwardingAddress C params.destDomain params.destRecipient params.tokenId
      params.customHookId params.customHookMetadata with
  | .ok address => .address address
  | .error e => .badRequest e

/-- `create_request` up to the storage. -/
def validate (C : Crypto) (metricsEnabled : Bool) (req : CreateForwardingRequest) : Handler :=
  match deriveForwardingAddress C req.destDomain req.destRecipient req.tokenId req.customHookId
      req.customHookMetadata with
  | .ok derived =>
    if derived = req.forwardAddr then .create req
    else
      finish metricsEnabled .addressMismatch
        (.response (.addressMismatch Backend.addressMismatch derived req.forwardAddr))
  | .error e => finish metricsEnabled .invalidParams (.response (.invalidParams e))

def ofCreate (metricsEnabled : Bool) : Except Failure (ForwardingRequest × Bool) → Handler
  | .ok (request, true) => finish metricsEnabled .created (.response (.created request))
  | .ok (request, false) => finish metricsEnabled .existing (.response (.existing request))
  | .error e => finish metricsEnabled .createError (.internalServerError (some e.context))

def ofRemove (metricsEnabled : Bool) : Except Failure (Option ForwardingRequest) → Handler
  | .ok (some request) => finish metricsEnabled .removed (.response (.removed request))
  | .ok none => finish metricsEnabled .notFound (.response .notFound)
  | .error e => finish metricsEnabled .removeError (.internalServerError (some e.context))

/-- One step, by the clock and the statements that would fail. -/
def step (C : Crypto) (chrono : Chrono) (metricsEnabled : Bool) (db : BackendStorage)
    (m : BackendMetrics) (now : ℤ) (failing : Failure → Bool) :
    Handler → Option (BackendStorage × BackendMetrics × Handler)
  | .start .health =>
    some (db, m, .answered
      (if failing .healthCheck then .internalServerError none else .healthy))
  | .start (.forwardingAddress params) =>
    some (db, m, .answered (getForwardingAddress C params))
  | .start .list =>
    match db.tryListRequests failing with
    | .ok requests => some (db, m, .answered (.requests requests))
    | .error _ => some (db, m, .answered (.internalServerError none))
  | .start (.post req) => some (db, m, validate C metricsEnabled req)
  | .create req =>
    let (result, db') := db.tryCreateRequest failing (chrono.toRfc3339 (.ofNanos now)) req
    some (db', m, ofCreate metricsEnabled result)
  | .start (.delete addr) =>
    let (result, db') := db.tryRemoveByAddr failing addr
    some (db', m, ofRemove metricsEnabled result)
  | .count outcome answer =>
    some (db, m.increment outcome,
      if outcome.refreshes then .refresh .start answer else .answered answer)
  | .refresh (.done _) answer => some (db, m, .answered answer)
  | .refresh r answer =>
    let (m', r') := r.step chrono db m now failing
    some (db, m', .refresh r' answer)
  | .answered _ => none

/-- What it answers, once that is settled. -/
def answer : Handler → Option Answer
  | .start _ | .create _ => none
  | .count _ answer | .refresh _ answer | .answered answer => some answer

end Handler

/-- A call being served. The serial number tells it from others. -/
structure Exchange where
  serial : ℕ
  request : Request
  handler : Handler

inductive ServerPhase
  | new
  /-- `serve` refreshes the metrics before it listens. -/
  | boot (r : Refresh)
  | bind
  | serving
  | exited

structure Server where
  storage : BackendStorage
  metrics : BackendMetrics
  phase : ServerPhase
  /-- The number of calls accepted. -/
  accepted : ℕ
  exchanges : List Exchange
  /-- The refresh the spawned task is at, unless it sleeps. -/
  refresher : Option Refresh

namespace Server

/-- A new process. -/
def start (storage : BackendStorage) (accepted : ℕ) : Server where
  storage := storage
  metrics := .new
  phase := .new
  accepted := accepted
  exchanges := []
  refresher := none

inductive Act
  /-- `BackendState::new` up to `serve`. -/
  | load (unopened : Opening → Bool) (failing : Failure → Bool)
  | boot (now : ℤ) (failing : Failure → Bool)
  | bind (ok : Bool)
  | accept (request : Request)
  | handle (i : ℕ) (now : ℤ) (failing : Failure → Bool)
  | reply (i : ℕ)
  | wake
  | refresh (now : ℤ) (failing : Failure → Bool)
  /-- `axum::serve` returns; what is being served may go on until the process is gone. -/
  | stop
  | crash

def step (C : Crypto) (chrono : Chrono) (metricsEnabled : Bool) (s : Server) :
    Act → Option Server
  | .load unopened failing =>
    match s.phase with
    | .new =>
      if openings.any unopened then some { s with phase := .exited }
      else
        match s.storage.tryListRequests failing with
        | .ok _ => some { s with phase := if metricsEnabled then .boot .start else .bind }
        | .error _ => some { s with phase := .exited }
    | _ => none
  | .boot now failing =>
    match s.phase with
    | .boot (.done ok) => some { s with phase := if ok then .bind else .exited }
    | .boot r =>
      let (m, r') := r.step chrono s.storage s.metrics now failing
      some { s with metrics := m, phase := .boot r' }
    | _ => none
  | .bind ok =>
    match s.phase with
    | .bind => some { s with phase := if ok then .serving else .exited }
    | _ => none
  | .accept request =>
    match s.phase with
    | .serving =>
      some { s with
        accepted := s.accepted + 1
        exchanges := s.exchanges ++ [⟨s.accepted, request, .start request⟩] }
    | _ => none
  | .handle i now failing =>
    match s.exchanges[i]? with
    | some x =>
      match x.handler.step C chrono metricsEnabled s.storage s.metrics now failing with
      | some (db, m, h) =>
        some { s with
          storage := db
          metrics := m
          exchanges := s.exchanges.set i { x with handler := h } }
      | none => none
    | none => none
  | .reply i =>
    match s.exchanges[i]? with
    | some ⟨_, _, .answered _⟩ => some { s with exchanges := s.exchanges.eraseIdx i }
    | _ => none
  | .wake =>
    match s.phase, s.refresher with
    | .bind, none | .serving, none =>
      if metricsEnabled then some { s with refresher := some .start } else none
    | _, _ => none
  | .refresh now failing =>
    match s.refresher with
    | some (.done _) => some { s with refresher := none }
    | some r =>
      let (m, r') := r.step chrono s.storage s.metrics now failing
      some { s with metrics := m, refresher := some r' }
    | none => none
  | .stop =>
    match s.phase with
    | .serving => some { s with phase := .exited }
    | _ => none
  | .crash => some (start s.storage s.accepted)

end Server

/-- The first process opens an empty table. -/
def server (C : Crypto) (chrono : Chrono) (metricsEnabled : Bool) :
    Machine Server Server.Act where
  init s := s = .start .empty 0
  step := Server.step C chrono metricsEnabled

end ForwardingRelayer
