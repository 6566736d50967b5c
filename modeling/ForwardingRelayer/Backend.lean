import Mathlib.Data.List.Sort
import ForwardingRelayer.Lib.Machine
import ForwardingRelayer.Request
import ForwardingRelayer.Address

/-!
# The backend

The `forwarding_requests` table with its primary key, the statements `BackendStorage` runs on it,
and the handlers over them. `backend` is the table under any sequence of calls.
-/

namespace ForwardingRelayer

/-- The `forwarding_requests` table. -/
structure BackendStorage where
  rows : List ForwardingRequest
  primaryKey : (rows.map ForwardingRequest.forwardAddr).Nodup

structure PendingRequestMetricsSnapshot where
  pendingRequests : ℕ
  oldestCreatedAt : Option String
  deriving DecidableEq

namespace BackendStorage

def empty : BackendStorage := ⟨[], by simp⟩

/-- `SELECT … WHERE forward_addr = ?1`. -/
def selectByAddr (db : BackendStorage) (addr : String) : Option ForwardingRequest :=
  db.rows.find? (·.forwardAddr == addr)

theorem selectByAddr_eq_none {db : BackendStorage} {addr : String} :
    db.selectByAddr addr = none ↔ addr ∉ db.rows.map ForwardingRequest.forwardAddr := by
  simp [selectByAddr, List.find?_eq_none]

theorem mem_of_selectByAddr {db : BackendStorage} {addr : String} {r : ForwardingRequest}
    (h : db.selectByAddr addr = some r) : r ∈ db.rows ∧ r.forwardAddr = addr :=
  ⟨List.mem_of_find?_eq_some h, by simpa using List.find?_some h⟩

theorem eq_of_forwardAddr_eq (db : BackendStorage) {r r' : ForwardingRequest} (h : r ∈ db.rows)
    (h' : r' ∈ db.rows) (ha : r.forwardAddr = r'.forwardAddr) : r = r' :=
  List.inj_on_of_nodup_map db.primaryKey h h' ha

def rowOf (createdAt : String) (req : CreateForwardingRequest) : ForwardingRequest where
  forwardAddr := req.forwardAddr
  destDomain := req.destDomain
  destRecipient := req.destRecipient
  tokenId := req.tokenId
  customHookId := req.customHookId
  customHookMetadata := req.customHookMetadata
  createdAt := createdAt

/-- `INSERT OR IGNORE`, then the row that is there and whether it is the new one. -/
def createRequest (db : BackendStorage) (createdAt : String) (req : CreateForwardingRequest) :
    (ForwardingRequest × Bool) × BackendStorage :=
  match h : db.selectByAddr req.forwardAddr with
  | some existing => ((existing, false), db)
  | none =>
    ((rowOf createdAt req, true),
      { rows := db.rows ++ [rowOf createdAt req]
        primaryKey := by
          rw [selectByAddr_eq_none] at h
          rw [List.map_append, List.nodup_append]
          refine ⟨db.primaryKey, by simp, fun x hx y hy hxy => h ?_⟩
          simp only [List.map_cons, List.map_nil, List.mem_singleton] at hy
          rwa [← hy.trans (show (rowOf createdAt req).forwardAddr = req.forwardAddr from rfl),
            ← hxy] })

/-- `ORDER BY created_at`. -/
def listRequests (db : BackendStorage) : List ForwardingRequest :=
  db.rows.mergeSort fun a b => decide (a.createdAt ≤ b.createdAt)

@[simp] theorem mem_listRequests {db : BackendStorage} {r : ForwardingRequest} :
    r ∈ db.listRequests ↔ r ∈ db.rows := by
  simp [listRequests]

/-- `SELECT COUNT(*)` and `SELECT MIN(created_at)`, which is null of no rows. -/
def pendingMetricsSnapshot (db : BackendStorage) : PendingRequestMetricsSnapshot where
  pendingRequests := db.rows.length
  oldestCreatedAt := (db.rows.map ForwardingRequest.createdAt).min?

def removeByAddr (db : BackendStorage) (addr : String) :
    Option ForwardingRequest × BackendStorage :=
  match db.selectByAddr addr with
  | none => (none, db)
  | some request =>
    (some request,
      { rows := db.rows.filter (·.forwardAddr != addr)
        primaryKey := db.primaryKey.sublist (List.filter_sublist.map _) })

end BackendStorage

inductive Response
  | created (request : ForwardingRequest)
  | existing (request : ForwardingRequest)
  | addressMismatch (error expected got : String)
  | invalidParams (error : String)
  | removed (request : ForwardingRequest)
  | notFound
  deriving DecidableEq

def Response.statusCode : Response → ℕ
  | .created _ => 201
  | .existing _ => 200
  | .addressMismatch _ _ _ => 400
  | .invalidParams _ => 400
  | .removed _ => 200
  | .notFound => 404

/-- The request a `POST` handler accepted, as it answers it. -/
def Response.accepted : Response → Option ForwardingRequest
  | .created request => some request
  | .existing request => some request
  | _ => none

namespace Backend

def addressMismatch : String :=
  "forward_addr does not match derivation from dest_domain/dest_recipient/token_id/" ++
    "custom_hook_id/custom_hook_metadata"

/-- `POST /forwarding-requests`. -/
def createRequest (C : Crypto) (createdAt : String) (db : BackendStorage)
    (req : CreateForwardingRequest) : Response × BackendStorage :=
  match deriveForwardingAddress C req.destDomain req.destRecipient req.tokenId req.customHookId
      req.customHookMetadata with
  | .ok derived =>
    if derived = req.forwardAddr then
      match db.createRequest createdAt req with
      | ((request, true), db') => (.created request, db')
      | ((request, false), db') => (.existing request, db')
    else (.addressMismatch addressMismatch derived req.forwardAddr, db)
  | .error e => (.invalidParams e, db)

/-- `DELETE /forwarding-requests/:addr`. -/
def completeRequest (db : BackendStorage) (addr : String) : Response × BackendStorage :=
  match db.removeByAddr addr with
  | (some request, db') => (.removed request, db')
  | (none, db') => (.notFound, db')

/-- A call the backend serves; `GET` leaves the table as it is. -/
inductive Call
  | post (createdAt : String) (req : CreateForwardingRequest)
  | delete (addr : String)
  | list

end Backend

def backend (C : Crypto) : Machine BackendStorage Backend.Call where
  init db := db = .empty
  step db
    | .post createdAt req => some (Backend.createRequest C createdAt db req).2
    | .delete addr => some (Backend.completeRequest db addr).2
    | .list => some db

end ForwardingRelayer
