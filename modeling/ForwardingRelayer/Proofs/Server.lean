import ForwardingRelayer.Lib.Tasks
import ForwardingRelayer.Proofs.Chrono
import ForwardingRelayer.Proofs.Network
import ForwardingRelayer.Server

/-!
# The server against the table

However the handlers interleave and whichever statements fail, the table goes through a run of
`backend`, and a call is answered as `backend` answers it at one step between the call's arrival and
its answer, or with the error of the first of its statements that failed there.
-/

namespace ForwardingRelayer

open BackendStorage Network

namespace BackendStorage

/-- The statements of a `create_request`; it selects the row that is there. -/
def createStatements (db : BackendStorage) (addr : String) : List Failure :=
  .insert ::
    if addr ∈ db.rows.map ForwardingRequest.forwardAddr then [.prepareSelect, .queryExisting]
    else []

/-- The statements of a `remove_by_addr`; it deletes the row that is there. -/
def removeStatements (db : BackendStorage) (addr : String) : List Failure :=
  [.prepareSelect, .query]
    ++ if addr ∈ db.rows.map ForwardingRequest.forwardAddr then [.delete] else []

end BackendStorage

/-- The statements that are run for a request, once a `POST` is validated. -/
def Request.statements (db : BackendStorage) : Request → List Failure
  | .health => [.healthCheck]
  | .forwardingAddress _ => []
  | .list => db.listStatements
  | .post req => db.createStatements req.forwardAddr
  | .delete addr => db.removeStatements addr

section Storage

variable {db : BackendStorage} {failing : Failure → Bool}

theorem firstFailing_append (l₁ l₂ : List Failure) : firstFailing failing (l₁ ++ l₂)
    = (firstFailing failing l₁).or (firstFailing failing l₂) := List.find?_append

/-- It is `create_request`, unless a statement fails; then the table is left as it is. -/
theorem tryCreateRequest_cases (db : BackendStorage) (failing : Failure → Bool)
    (createdAt : String) (req : CreateForwardingRequest) :
    (firstFailing failing (db.createStatements req.forwardAddr) = none
        ∧ db.tryCreateRequest failing createdAt req
          = (.ok (db.createRequest createdAt req).1, (db.createRequest createdAt req).2))
      ∨ ∃ f, firstFailing failing (db.createStatements req.forwardAddr) = some f
        ∧ db.tryCreateRequest failing createdAt req = (.error f, db) := by
  have hsplit := @firstFailing_append failing [.insert]
  unfold tryCreateRequest createStatements
  rw [← List.singleton_append, hsplit]
  rcases firstFailing failing [.insert] with _ | f
  · rw [Option.none_or]
    rcases db.createRequest_cases createdAt req with ⟨r, hr, ha, h⟩ | ⟨hno, db', h, -⟩ <;> rw [h]
    · rw [if_pos (ha ▸ List.mem_map_of_mem hr)]
      rcases firstFailing failing [.prepareSelect, .queryExisting] with _ | f
      · exact .inl ⟨rfl, rfl⟩
      · exact .inr ⟨f, rfl, rfl⟩
    · rw [if_neg hno]
      exact .inl ⟨rfl, rfl⟩
  · exact .inr ⟨f, rfl, rfl⟩

theorem tryRemoveByAddr_cases (db : BackendStorage) (failing : Failure → Bool) (addr : String) :
    (firstFailing failing (db.removeStatements addr) = none
        ∧ db.tryRemoveByAddr failing addr
          = (.ok (db.removeByAddr addr).1, (db.removeByAddr addr).2))
      ∨ ∃ f, firstFailing failing (db.removeStatements addr) = some f
        ∧ db.tryRemoveByAddr failing addr = (.error f, db) := by
  unfold tryRemoveByAddr removeStatements
  rw [firstFailing_append]
  rcases firstFailing failing [.prepareSelect, .query] with _ | f
  · rw [Option.none_or]
    rcases db.removeByAddr_cases addr with ⟨r, hr, ha, db', h, -⟩ | ⟨hno, h⟩ <;> rw [h]
    · rw [if_pos (ha ▸ List.mem_map_of_mem hr)]
      rcases firstFailing failing [.delete] with _ | f
      · exact .inl ⟨rfl, rfl⟩
      · exact .inr ⟨f, rfl, rfl⟩
    · rw [if_neg hno]
      exact .inl ⟨rfl, rfl⟩
  · exact .inr ⟨f, rfl, rfl⟩

theorem tryListRequests_cases (db : BackendStorage) (failing : Failure → Bool) :
    (firstFailing failing db.listStatements = none
        ∧ db.tryListRequests failing = .ok db.listRequests)
      ∨ ∃ f, firstFailing failing db.listStatements = some f
        ∧ db.tryListRequests failing = .error f := by
  unfold tryListRequests
  rcases firstFailing failing db.listStatements with _ | f
  · exact .inl ⟨rfl, rfl⟩
  · exact .inr ⟨f, rfl, rfl⟩

end Storage

/-- What `backend` answers to a request at `now` with this table, and the table after it, if no
statement fails. Otherwise the first that fails leaves the table as it is, and its error is answered
where the handler answers with it. -/
def Answers (C : Crypto) (chrono : Chrono) (now : ℤ) (failing : Failure → Bool) (request : Request)
    (a : Answer) (db db' : BackendStorage) : Prop :=
  match request, a with
  | .post req, .response r =>
    Backend.createRequest C (chrono.toRfc3339 (.ofNanos now)) db req = (r, db')
      ∧ (req.Valid C → firstFailing failing (request.statements db) = none)
  | .delete addr, .response r =>
    Backend.completeRequest db addr = (r, db')
      ∧ firstFailing failing (request.statements db) = none
  | .list, .requests rows =>
    rows = db.listRequests ∧ db' = db ∧ firstFailing failing (request.statements db) = none
  | .forwardingAddress params, a => a = Handler.getForwardingAddress C params ∧ db' = db
  | .health, .healthy => db' = db ∧ firstFailing failing (request.statements db) = none
  | .post req, .internalServerError error =>
    db' = db ∧ req.Valid C
      ∧ ∃ f, firstFailing failing (request.statements db) = some f ∧ error = some f.context
  | .delete _, .internalServerError error =>
    db' = db
      ∧ ∃ f, firstFailing failing (request.statements db) = some f ∧ error = some f.context
  | .list, .internalServerError error | .health, .internalServerError error =>
    db' = db ∧ (∃ f, firstFailing failing (request.statements db) = some f) ∧ error = none
  | _, _ => False

/-- How the answer to a request is settled at `now`, with what it is counted as. -/
inductive Settles (C : Crypto) (chrono : Chrono) (now : ℤ) (failing : Failure → Bool)
    (db : BackendStorage) : Request → BackendStorage → Option Outcome → Answer → Prop
  | refused {req : CreateForwardingRequest} {o : Outcome} {r : Response} :
      o = .addressMismatch ∨ o = .invalidParams → ¬ req.Valid C →
      (∀ createdAt, Backend.createRequest C createdAt db req = (r, db)) →
      Settles C chrono now failing db (.post req) db (some o) (.response r)
  | created {req : CreateForwardingRequest} {createdAt : String} {db' : BackendStorage} :
      chrono.toRfc3339 (.ofNanos now) = createdAt →
      firstFailing failing (db.createStatements req.forwardAddr) = none →
      Backend.createRequest C createdAt db req = (.created (rowOf createdAt req), db') →
      db'.rows = db.rows ++ [rowOf createdAt req] →
      Settles C chrono now failing db (.post req) db' (some .created)
        (.response (.created (rowOf createdAt req)))
  | existing {req : CreateForwardingRequest} {createdAt : String} {row : ForwardingRequest} :
      chrono.toRfc3339 (.ofNanos now) = createdAt →
      firstFailing failing (db.createStatements req.forwardAddr) = none →
      Backend.createRequest C createdAt db req = (.existing row, db) →
      Settles C chrono now failing db (.post req) db (some .existing) (.response (.existing row))
  | createError {req : CreateForwardingRequest} {f : Failure} : req.Valid C →
      firstFailing failing (db.createStatements req.forwardAddr) = some f →
      Settles C chrono now failing db (.post req) db (some .createError)
        (.internalServerError (some f.context))
  | removed {addr : String} {row : ForwardingRequest} {db' : BackendStorage} :
      firstFailing failing (db.removeStatements addr) = none →
      Backend.completeRequest db addr = (.removed row, db') →
      Settles C chrono now failing db (.delete addr) db' (some .removed) (.response (.removed row))
  | notFound {addr : String} : firstFailing failing (db.removeStatements addr) = none →
      Backend.completeRequest db addr = (.notFound, db) →
      Settles C chrono now failing db (.delete addr) db (some .notFound) (.response .notFound)
  | removeError {addr : String} {f : Failure} :
      firstFailing failing (db.removeStatements addr) = some f →
      Settles C chrono now failing db (.delete addr) db (some .removeError)
        (.internalServerError (some f.context))
  | listed : firstFailing failing db.listStatements = none →
      Settles C chrono now failing db .list db none (.requests db.listRequests)
  | address {params : ForwardingAddressQuery} :
      Settles C chrono now failing db (.forwardingAddress params) db none
        (Handler.getForwardingAddress C params)
  | healthy : firstFailing failing [.healthCheck] = none →
      Settles C chrono now failing db .health db none .healthy
  | failed {request : Request} {f : Failure} : request = .list ∨ request = .health →
      firstFailing failing (request.statements db) = some f →
      Settles C chrono now failing db request db none (.internalServerError none)

namespace Handler

variable {C : Crypto} {chrono : Chrono} {en : Bool} {db db' : BackendStorage}
  {m m' : BackendMetrics} {now : ℤ} {failing : Failure → Bool} {request : Request} {h h' : Handler}

/-- A handler of this request. -/
def Of (C : Crypto) (request : Request) : Handler → Prop
  | .start r => r = request
  | .create req => request = .post req ∧ req.Valid C
  | _ => True

theorem answers_of_settles {o : Option Outcome} {a : Answer}
    (hs : Settles C chrono now failing db request db' o a) :
    Answers C chrono now failing request a db db' := by
  cases hs with
  | refused _ hv h => exact ⟨h _, fun hvalid => absurd hvalid hv⟩
  | created hnow hnone h | existing hnow hnone h =>
    subst hnow
    exact ⟨h, fun _ => hnone⟩
  | createError hv hf => exact ⟨rfl, hv, _, hf, rfl⟩
  | removed hnone h | notFound hnone h => exact ⟨h, hnone⟩
  | removeError hf => exact ⟨rfl, _, hf, rfl⟩
  | listed hnone => exact ⟨rfl, rfl, hnone⟩
  | address => exact ⟨rfl, rfl⟩
  | healthy hnone => exact ⟨rfl, hnone⟩
  | failed h hf => rcases h with rfl | rfl <;> exact ⟨rfl, ⟨_, hf⟩, rfl⟩

/-- What a step of a handler does. -/
inductive Steps (C : Crypto) (chrono : Chrono) (en : Bool) (now : ℤ) (failing : Failure → Bool)
    (db : BackendStorage) (m : BackendMetrics) :
    Request → Handler → BackendStorage → BackendMetrics → Handler → Prop
  | validated {req : CreateForwardingRequest} : req.Valid C →
      Steps C chrono en now failing db m (.post req) (.start (.post req)) db m (.create req)
  | counted {request : Request} {h : Handler} {db' : BackendStorage} {o : Outcome} {a : Answer} :
      h.answer = none → Settles C chrono now failing db request db' (some o) a →
      Steps C chrono en now failing db m request h db' m (finish en o a)
  | answered {request : Request} {h : Handler} {db' : BackendStorage} {a : Answer} :
      h.answer = none → Settles C chrono now failing db request db' none a →
      Steps C chrono en now failing db m request h db' m (.answered a)
  | count {request : Request} {o : Outcome} {a : Answer} :
      Steps C chrono en now failing db m request (.count o a) db (m.increment o)
        (if o.refreshes then .refresh .start a else .answered a)
  | refresh {request : Request} {r : Refresh} {a : Answer} :
      Steps C chrono en now failing db m request (.refresh r a) db
        (r.step chrono db m now failing).1 (.refresh (r.step chrono db m now failing).2 a)
  | refreshed {request : Request} {ok : Bool} {a : Answer} :
      Steps C chrono en now failing db m request (.refresh (.done ok) a) db m (.answered a)

theorem steps_validate {req : CreateForwardingRequest} :
    Steps C chrono en now failing db m (.post req) (.start (.post req)) db m
      (validate C en req) := by
  have hd : req.deriveArgs.derive C = deriveForwardingAddress C req.destDomain req.destRecipient
      req.tokenId req.customHookId req.customHookMetadata := rfl
  unfold validate
  rw [← hd]
  rcases h : req.deriveArgs.derive C with e | derived
  · have hv : ¬ req.Valid C := fun hv => by cases h.symm.trans hv
    refine .counted rfl (.refused (.inr rfl) hv fun createdAt => ?_)
    rw [Backend.createRequest, ← hd, h]
  · by_cases ha : derived = req.forwardAddr
    · simp only [ha, if_true]
      exact .validated (h.trans (by rw [ha]))
    · simp only [ha, if_false]
      have hv : ¬ req.Valid C := fun hv => ha (Except.ok.inj (h.symm.trans hv))
      refine .counted rfl (.refused (.inl rfl) hv fun createdAt => ?_)
      rw [Backend.createRequest, ← hd, h]
      exact if_neg ha

theorem createRequest_of_valid {req : CreateForwardingRequest} (hv : req.Valid C)
    (createdAt : String) : Backend.createRequest C createdAt db req
      = match db.createRequest createdAt req with
        | ((request, true), db') => (.created request, db')
        | ((request, false), db') => (.existing request, db') := by
  have hd : deriveForwardingAddress C req.destDomain req.destRecipient req.tokenId
      req.customHookId req.customHookMetadata = .ok req.forwardAddr := hv
  rw [Backend.createRequest, hd]
  exact if_pos rfl

theorem steps_create {req : CreateForwardingRequest} {createdAt : String} (hv : req.Valid C)
    (hnow : chrono.toRfc3339 (.ofNanos now) = createdAt) :
    Steps C chrono en now failing db m (.post req) (.create req)
      (db.tryCreateRequest failing createdAt req).2 m
      (ofCreate en (db.tryCreateRequest failing createdAt req).1) := by
  have hcreate := @createRequest_of_valid C db req hv createdAt
  rcases tryCreateRequest_cases db failing createdAt req with ⟨hnone, h⟩ | ⟨f, hf, h⟩
  · rcases db.createRequest_cases createdAt req with ⟨row, -, -, hdb⟩ | ⟨-, db', hdb, hrows⟩ <;>
      rw [hdb] at hcreate h <;> rw [h]
    · exact .counted rfl (.existing hnow hnone hcreate)
    · exact .counted rfl (.created hnow hnone hcreate hrows)
  · rw [h]
    exact .counted rfl (.createError hv hf)

theorem steps_delete {addr : String} :
    Steps C chrono en now failing db m (.delete addr) (.start (.delete addr))
      (db.tryRemoveByAddr failing addr).2 m
      (ofRemove en (db.tryRemoveByAddr failing addr).1) := by
  rcases tryRemoveByAddr_cases db failing addr with ⟨hnone, h⟩ | ⟨f, hf, h⟩
  · rcases db.removeByAddr_cases addr with ⟨row, -, -, db', hdb, -⟩ | ⟨-, hdb⟩ <;>
      rw [hdb] at h <;> rw [h]
    · exact .counted rfl (.removed hnone (by rw [Backend.completeRequest, hdb]))
    · exact .counted rfl (.notFound hnone (by rw [Backend.completeRequest, hdb]))
  · rw [h]
    exact .counted rfl (.removeError hf)

theorem steps_of_step (hof : h.Of C request)
    (hs : h.step C chrono en db m now failing = some (db', m', h')) :
    Steps C chrono en now failing db m request h db' m' h' := by
  cases h with
  | start r =>
    obtain rfl := hof
    cases r with
    | health =>
      obtain ⟨rfl, rfl, rfl⟩ : db = db' ∧ m = m' ∧ _ = h' := by
        simpa only [step, Option.some.injEq, Prod.mk.injEq] using hs
      by_cases hf : failing .healthCheck = true
      · rw [if_pos hf]
        exact .answered rfl (.failed (.inr rfl) (List.find?_cons_of_pos hf))
      · rw [if_neg hf]
        exact .answered rfl (.healthy (List.find?_cons_of_neg hf))
    | forwardingAddress params =>
      cases hs
      exact .answered rfl .address
    | list =>
      rw [step] at hs
      rcases tryListRequests_cases db failing with ⟨hnone, h⟩ | ⟨f, hf, h⟩ <;> rw [h] at hs <;>
        cases hs
      · exact .answered rfl (.listed hnone)
      · exact .answered rfl (.failed (.inl rfl) hf)
    | post req =>
      cases hs
      exact steps_validate
    | delete addr =>
      cases hs
      exact steps_delete
  | create req =>
    obtain ⟨rfl, hv⟩ := hof
    cases hs
    exact steps_create hv rfl
  | count o a =>
    cases hs
    exact .count
  | refresh r a =>
    cases r with
    | done ok =>
      cases hs
      exact .refreshed
    | start | pending | age =>
      cases hs
      exact .refresh
  | answered a => cases hs

theorem answer_finish {o : Outcome} {a : Answer} : (finish en o a).answer = some a := by
  cases en <;> rfl

theorem of_finish {o : Outcome} {a : Answer} : (finish en o a).Of C request := by
  cases en <;> trivial

theorem of_step (hs : Steps C chrono en now failing db m request h db' m' h') :
    h'.Of C request := by
  cases hs with
  | validated hv => exact ⟨rfl, hv⟩
  | counted => exact of_finish
  | count => split <;> trivial
  | answered | refresh | refreshed => trivial

/-- The call of `backend` a step is, if its statements go through. -/
def call (chrono : Chrono) (db : BackendStorage) (now : ℤ) (failing : Failure → Bool) :
    Handler → Option Backend.Call
  | .create req =>
    match (db.tryCreateRequest failing (chrono.toRfc3339 (.ofNanos now)) req).1 with
    | .ok _ => some (.post (chrono.toRfc3339 (.ofNanos now)) req)
    | .error _ => none
  | .start (.delete addr) =>
    match (db.tryRemoveByAddr failing addr).1 with
    | .ok _ => some (.delete addr)
    | .error _ => none
  | _ => none

theorem createRequest_snd {req : CreateForwardingRequest} (hv : req.Valid C)
    (createdAt : String) :
    (Backend.createRequest C createdAt db req).2 = (db.createRequest createdAt req).2 := by
  rw [createRequest_of_valid hv]
  rcases db.createRequest_cases createdAt req with ⟨_, -, -, h⟩ | ⟨-, _, h, -⟩ <;> rw [h]

theorem completeRequest_snd (addr : String) :
    (Backend.completeRequest db addr).2 = (db.removeByAddr addr).2 := by
  unfold Backend.completeRequest
  rcases db.removeByAddr_cases addr with ⟨_, -, -, _, h, -⟩ | ⟨-, h⟩ <;> rw [h]

/-- A step is a call of `backend`, or leaves the table as it is. -/
theorem backend_step (hof : h.Of C request)
    (hs : h.step C chrono en db m now failing = some (db', m', h')) :
    (∃ c, h.call chrono db now failing = some c ∧ (backend C).step db c = some db')
      ∨ (h.call chrono db now failing = none ∧ db' = db) := by
  cases h with
  | create req =>
    simp only [step, Option.some.injEq, Prod.mk.injEq] at hs
    obtain ⟨rfl, -⟩ := hs
    simp only [call]
    generalize chrono.toRfc3339 (.ofNanos now) = createdAt
    rcases tryCreateRequest_cases db failing createdAt req with ⟨-, h⟩ | ⟨f, -, h⟩ <;> rw [h]
    · exact .inl ⟨_, rfl, congrArg some (createRequest_snd hof.2 createdAt)⟩
    · exact .inr ⟨rfl, rfl⟩
  | start r =>
    cases r with
    | delete addr =>
      simp only [step, Option.some.injEq, Prod.mk.injEq] at hs
      obtain ⟨rfl, -⟩ := hs
      simp only [call]
      rcases tryRemoveByAddr_cases db failing addr with ⟨-, h⟩ | ⟨f, -, h⟩ <;> rw [h]
      · exact .inl ⟨_, rfl, congrArg some (completeRequest_snd addr)⟩
      · exact .inr ⟨rfl, rfl⟩
    | list =>
      rw [step] at hs
      split at hs <;> cases hs <;> exact .inr ⟨rfl, rfl⟩
    | health | forwardingAddress | post =>
      cases hs
      exact .inr ⟨rfl, rfl⟩
  | count o a =>
    cases hs
    exact .inr ⟨rfl, rfl⟩
  | refresh r a =>
    cases r <;> cases hs <;> exact .inr ⟨rfl, rfl⟩
  | answered a => cases hs

/-- A step settles the answer, as `backend` does, or leaves the answer and the table. -/
theorem answer_step (hs : Steps C chrono en now failing db m request h db' m' h') :
    (h.answer = none ∧ ∃ o a, h'.answer = some a ∧ Settles C chrono now failing db request db' o a)
      ∨ (h'.answer = h.answer ∧ db' = db) := by
  cases hs with
  | validated => exact .inr ⟨rfl, rfl⟩
  | counted hno hset => exact .inl ⟨hno, _, _, answer_finish, hset⟩
  | answered hno hset => exact .inl ⟨hno, _, _, rfl, hset⟩
  | count => exact .inr ⟨by split <;> rfl, rfl⟩
  | refresh | refreshed => exact .inr ⟨rfl, rfl⟩

end Handler

namespace Server

abbrev Step := Event Server Act

/-- What a step of the server does. -/
inductive Steps (C : Crypto) (chrono : Chrono) (en : Bool) (s : Server) : Act → Server → Prop
  | loaded {unopened : Opening → Bool} {failing : Failure → Bool} : s.phase = .new →
      openings.any unopened = false → firstFailing failing s.storage.listStatements = none →
      Steps C chrono en s (.load unopened failing)
        { s with phase := if en then .boot .start else .bind }
  | loadFailed {unopened : Opening → Bool} {failing : Failure → Bool} : s.phase = .new →
      openings.any unopened = true ∨ firstFailing failing s.storage.listStatements ≠ none →
      Steps C chrono en s (.load unopened failing) { s with phase := .exited }
  | boot {r : Refresh} {now : ℤ} {failing : Failure → Bool} : s.phase = .boot r →
      Steps C chrono en s (.boot now failing)
        { s with
          metrics := (r.step chrono s.storage s.metrics now failing).1
          phase := .boot (r.step chrono s.storage s.metrics now failing).2 }
  | booted {ok : Bool} {now : ℤ} {failing : Failure → Bool} : s.phase = .boot (.done ok) →
      Steps C chrono en s (.boot now failing) { s with phase := if ok then .bind else .exited }
  | bind {ok : Bool} : s.phase = .bind →
      Steps C chrono en s (.bind ok) { s with phase := if ok then .serving else .exited }
  | accept {request : Request} : s.phase = .serving →
      Steps C chrono en s (.accept request)
        { s with
          accepted := s.accepted + 1
          exchanges := s.exchanges ++ [⟨s.accepted, request, .start request⟩] }
  | handle {i : ℕ} {now : ℤ} {failing : Failure → Bool} {x : Exchange} {l₁ l₂ : List Exchange}
      {db : BackendStorage} {m : BackendMetrics} {h : Handler} : s.exchanges[i]? = some x →
      s.exchanges = l₁ ++ x :: l₂ →
      x.handler.step C chrono en s.storage s.metrics now failing = some (db, m, h) →
      Steps C chrono en s (.handle i now failing)
        { s with storage := db, metrics := m, exchanges := l₁ ++ { x with handler := h } :: l₂ }
  | reply {i n : ℕ} {request : Request} {a : Answer} {l₁ l₂ : List Exchange} :
      s.exchanges[i]? = some ⟨n, request, .answered a⟩ →
      s.exchanges = l₁ ++ ⟨n, request, .answered a⟩ :: l₂ →
      Steps C chrono en s (.reply i) { s with exchanges := l₁ ++ l₂ }
  | wake : Steps C chrono en s .wake { s with refresher := some .start }
  | refresh {r : Refresh} {now : ℤ} {failing : Failure → Bool} : s.refresher = some r →
      Steps C chrono en s (.refresh now failing)
        { s with
          metrics := (r.step chrono s.storage s.metrics now failing).1
          refresher := some (r.step chrono s.storage s.metrics now failing).2 }
  | refreshed {now : ℤ} {failing : Failure → Bool} :
      Steps C chrono en s (.refresh now failing) { s with refresher := none }
  | stop : s.phase = .serving → Steps C chrono en s .stop { s with phase := .exited }
  | crash : Steps C chrono en s .crash (.start s.storage s.accepted)

variable {C : Crypto} {chrono : Chrono} {en : Bool} {log : List Step} {s s' : Server} {act : Act}

theorem steps_load {unopened : Opening → Bool} {failing : Failure → Bool}
    (h : s.step C chrono en (.load unopened failing) = some s') :
    Steps C chrono en s (.load unopened failing) s' := by
  simp only [step] at h
  split at h
  · rename_i hphase
    split at h
    · cases h
      exact .loadFailed hphase (.inl ‹_›)
    · rename_i hopen
      rcases tryListRequests_cases s.storage failing with ⟨hnone, hl⟩ | ⟨f, hf, hl⟩ <;>
        rw [hl] at h <;> cases h
      · exact .loaded hphase (Bool.not_eq_true _ ▸ hopen) hnone
      · exact .loadFailed hphase (.inr (by rw [hf]; simp))
  · cases h

theorem steps_boot {now : ℤ} {failing : Failure → Bool}
    (h : s.step C chrono en (.boot now failing) = some s') :
    Steps C chrono en s (.boot now failing) s' := by
  simp only [step] at h
  split at h
  · cases h
    exact .booted ‹_›
  · cases h
    exact .boot ‹_›
  · cases h

theorem steps_handle {i : ℕ} {now : ℤ} {failing : Failure → Bool}
    (h : s.step C chrono en (.handle i now failing) = some s') :
    Steps C chrono en s (.handle i now failing) s' := by
  simp only [step] at h
  rcases hi : s.exchanges[i]? with _ | x <;> simp only [hi, reduceCtorEq] at h
  rcases hx : x.handler.step C chrono en s.storage s.metrics now failing with _ | ⟨db, m, h'⟩ <;>
    simp only [hx, reduceCtorEq, Option.some.injEq] at h
  obtain ⟨l₁, l₂, hl, hset, -⟩ := List.exists_split_of_getElem? hi
  rw [hset] at h
  exact h ▸ .handle hi hl hx

theorem steps_refresh {now : ℤ} {failing : Failure → Bool}
    (h : s.step C chrono en (.refresh now failing) = some s') :
    Steps C chrono en s (.refresh now failing) s' := by
  simp only [step] at h
  split at h
  · cases h
    exact .refreshed
  · cases h
    exact .refresh ‹_›
  · cases h

theorem steps_of_step (h : s.step C chrono en act = some s') : Steps C chrono en s act s' := by
  cases act with
  | load unopened failing => exact steps_load h
  | boot now failing => exact steps_boot h
  | handle i now failing => exact steps_handle h
  | refresh now failing => exact steps_refresh h
  | accept request =>
    simp only [step] at h
    split at h
    · cases h
      exact .accept ‹_›
    · cases h
  | bind ok =>
    simp only [step] at h
    split at h
    · cases h
      exact .bind ‹_›
    · cases h
  | stop =>
    simp only [step] at h
    split at h
    · cases h
      exact .stop ‹_›
    · cases h
  | reply i =>
    simp only [step] at h
    split at h
    · rename_i hi
      obtain ⟨l₁, l₂, hl, -, herase⟩ := List.exists_split_of_getElem? hi
      rw [herase] at h
      cases h
      exact .reply hi hl
    · cases h
  | wake =>
    simp only [step] at h
    split at h
    · split at h <;> cases h
      exact .wake
    · split at h <;> cases h
      exact .wake
    · cases h
  | crash =>
    cases h
    exact .crash

/-- Each handler is of its request, under a number that has been given out. -/
def Consistent (C : Crypto) (s : Server) : Prop :=
  ∀ x ∈ s.exchanges, x.handler.Of C x.request ∧ x.serial < s.accepted

theorem consistent_step (h : Steps C chrono en s act s') (hs : Consistent C s) :
    Consistent C s' := by
  cases h with
  | accept =>
    intro x hx
    rcases List.mem_append.1 hx with hx | hx
    · exact (hs x hx).imp_right (Nat.lt_succ_of_lt ·)
    · rw [List.mem_singleton.1 hx]
      exact ⟨rfl, Nat.lt_succ_self _⟩
  | handle _ hl hx =>
    unfold Consistent at hs ⊢
    rw [hl] at hs
    rw [List.forall_mem_append, List.forall_mem_cons] at hs ⊢
    exact ⟨hs.1, ⟨Handler.of_step (Handler.steps_of_step hs.2.1.1 hx), hs.2.1.2⟩, hs.2.2⟩
  | reply _ hl =>
    unfold Consistent at hs ⊢
    rw [hl, List.forall_mem_append, List.forall_mem_cons] at hs
    exact List.forall_mem_append.2 ⟨hs.1, hs.2.2⟩
  | crash => exact List.forall_mem_nil _
  | _ => exact hs

theorem consistent_of_reachable (h : (server C chrono en).Reachable s) : Consistent C s := by
  refine h.invariant (I := Consistent C) ?_ fun _ _ _ hs hstep =>
    consistent_step (steps_of_step hstep) hs
  rintro _ rfl
  exact List.forall_mem_nil _

/-- The call of `backend` a step is. -/
def backendCall (chrono : Chrono) (e : Step) : Option Backend.Call :=
  match e.act with
  | .handle i now failing =>
    (e.pre.exchanges[i]?).bind fun x => x.handler.call chrono e.pre.storage now failing
  | _ => none

theorem storage_step (hs : Consistent C s) (h : s.step C chrono en act = some s') :
    (∃ c, backendCall chrono ⟨s, act, s'⟩ = some c
        ∧ (backend C).step s.storage c = some s'.storage)
      ∨ (backendCall chrono ⟨s, act, s'⟩ = none ∧ s'.storage = s.storage) := by
  cases steps_of_step h with
  | @handle i now failing x l₁ l₂ db m h' hi hl hx =>
    have hcall : ∀ s', backendCall chrono ⟨s, .handle i now failing, s'⟩
        = x.handler.call chrono s.storage now failing := fun s' => by simp [backendCall, hi]
    have hof := (hs x (hl ▸ List.mem_append_right _ List.mem_cons_self)).1
    rcases Handler.backend_step hof hx with ⟨c, hc, hstep⟩ | ⟨hc, hdb⟩
    · exact .inl ⟨c, (hcall _).trans hc, hstep⟩
    · exact .inr ⟨(hcall _).trans hc, hdb⟩
  | _ => exact .inr ⟨rfl, rfl⟩

/-- The step that settles the answer to a call: what `backend` answers there, or the error of the
first statement that failed in it. -/
def Settled (C : Crypto) (chrono : Chrono) (x : Exchange) (a : Answer) (e : Step) : Prop :=
  ∃ i now failing y, e.act = .handle i now failing ∧ e.pre.exchanges[i]? = some y
    ∧ y.serial = x.serial ∧ y.handler.answer = none
    ∧ Answers C chrono now failing x.request a e.pre.storage e.post.storage

def Accepts (serial : ℕ) (e : Step) : Prop :=
  e.pre.accepted = serial ∧ ∃ request, e.act = .accept request

theorem settled_step (hs : Consistent C s) (h : s.step C chrono en act = some s')
    (hin : ∀ x ∈ s.exchanges, ∀ a, x.handler.answer = some a →
      Since (Settled C chrono x a) (Accepts x.serial) log) :
    ∀ x ∈ s'.exchanges, ∀ a, x.handler.answer = some a →
      Since (Settled C chrono x a) (Accepts x.serial) (⟨s, act, s'⟩ :: log) := by
  have hkeep : (∀ request, act ≠ .accept request) → ∀ x ∈ s.exchanges, ∀ a,
      x.handler.answer = some a →
      Since (Settled C chrono x a) (Accepts x.serial) (⟨s, act, s'⟩ :: log) :=
    fun hact x hx a ha => .inr ⟨fun hacc => hact _ hacc.2.choose_spec, hin x hx a ha⟩
  cases steps_of_step h with
  | accept =>
    intro x hx a ha
    rcases List.mem_append.1 hx with hx | hx
    · exact .inr ⟨fun hacc => (hs x hx).2.ne hacc.1.symm, hin x hx a ha⟩
    · rw [List.mem_singleton.1 hx] at ha
      cases ha
  | @handle i now failing y l₁ l₂ db m h' hi hl hy =>
    have hmem : ∀ z ∈ l₁ ++ y :: l₂, z ∈ s.exchanges := fun z hz => hl ▸ hz
    have hymem := hmem y (List.mem_append_right _ List.mem_cons_self)
    intro x hx a ha
    rcases List.mem_append.1 hx with hx | hx
    · exact hkeep nofun x (hmem x (List.mem_append_left _ hx)) a ha
    rcases List.mem_cons.1 hx with rfl | hx
    · rcases Handler.answer_step (Handler.steps_of_step (hs y hymem).1 hy) with
        ⟨hno, o, a', ha', hset⟩ | ⟨hsame, -⟩
      · obtain rfl := Option.some.inj (ha.symm.trans ha')
        exact .inl ⟨i, now, failing, y, rfl, hi, rfl, hno, Handler.answers_of_settles hset⟩
      · exact hkeep nofun y hymem a (hsame ▸ ha)
    · exact hkeep nofun x (hmem x (List.mem_append_right _ (List.mem_cons_of_mem _ hx))) a ha
  | reply _ hl =>
    intro x hx
    refine hkeep nofun x (hl ▸ ?_)
    rcases List.mem_append.1 hx with hx | hx
    · exact List.mem_append_left _ hx
    · exact List.mem_append_right _ (List.mem_cons_of_mem _ hx)
  | crash => exact List.forall_mem_nil _
  | _ => exact hkeep nofun

/-- The table goes through a run of `backend`. -/
theorem backend_run (h : (server C chrono en).Run log s) :
    (backend C).Run (log.filterMap (Machine.follow Server.storage (backendCall chrono)))
      s.storage := by
  refine h.invariant (I := fun log s =>
    (backend C).Run (log.filterMap (Machine.follow Server.storage (backendCall chrono)))
      s.storage) ?_ ?_
  · rintro _ rfl
    exact .init rfl
  · rintro log s act s' hr hrun hstep
    exact hrun.follow_step (storage_step (consistent_of_reachable hr.reachable) hstep)

/-- The table goes through a run of `backend`, and each answer is the one `backend` gives at a step
since the call came in, or the error of a statement that failed then. -/
theorem served_in_turn (h : (server C chrono en).Run log s) :
    (backend C).Run (log.filterMap (Machine.follow Server.storage (backendCall chrono))) s.storage
      ∧ ∀ x ∈ s.exchanges, ∀ a, x.handler.answer = some a →
        Since (Settled C chrono x a) (Accepts x.serial) log := by
  refine ⟨backend_run h, ?_⟩
  refine h.invariant (I := fun log s => ∀ x ∈ s.exchanges, ∀ a, x.handler.answer = some a →
    Since (Settled C chrono x a) (Accepts x.serial) log) ?_ ?_
  · rintro _ rfl
    exact List.forall_mem_nil _
  · rintro log s act s' hr hin hstep
    exact settled_step (consistent_of_reachable hr.reachable) hstep hin

section Example

def noFailure : Failure → Bool := fun _ => false

/-- One call comes in and is worked off, up to its answer. -/
def serves (request : Request) (steps : ℕ) : List Act :=
  .accept request :: List.replicate steps (.handle 0 (1735689600 * 10 ^ 9) noFailure)

/-- A process that refreshes its metrics and listens. -/
def listens : List Act :=
  .load (fun _ => false) noFailure :: List.replicate 4 (.boot (1735689600 * 10 ^ 9) noFailure)
    ++ [.bind true]

/-- Of two posts of a request one is validated first, and the other one inserts it. The `DELETE`
that follows selects the row and fails to delete it. -/
theorem served_in_turn_twice : ∃ log s, (server .standard .standard true).Run log s
    ∧ s.exchanges.map (fun x => x.handler.answer) = [some (.response (.existing postedRow)),
        some (.response (.created postedRow)),
        some (.internalServerError (some "Failed to delete forwarding request"))]
    ∧ (backend .standard).Run
        (log.filterMap (Machine.follow Server.storage (backendCall .standard))) s.storage
    ∧ ∀ x ∈ s.exchanges, ∀ a, x.handler.answer = some a →
        Since (Settled .standard .standard x a) (Accepts x.serial) log := by
  obtain ⟨log, s, hrun, -, h⟩ := Machine.exists_run_of_exec (server .standard .standard true)
    (listens ++ [.accept (.post plainRequest), .accept (.post plainRequest),
        .accept (.delete plainRequest.forwardAddr)]
      ++ ([0, 1, 1, 0].map fun i => .handle i (1735689600 * 10 ^ 9) noFailure)
      ++ [.handle 2 (1735689600 * 10 ^ 9) fun f => f = .delete])
    (.start .empty 0) (fun _ s => s.exchanges.map (fun x => x.handler.answer)
      == [some (.response (.existing postedRow)), some (.response (.created postedRow)),
        some (.internalServerError (some "Failed to delete forwarding request"))])
    rfl (by decide +kernel)
  exact ⟨log, s, hrun, by simpa using h, served_in_turn hrun⟩

end Example

end Server

end ForwardingRelayer
