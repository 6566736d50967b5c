import ForwardingRelayer.Backend
import ForwardingRelayer.Proofs.Address

/-!
# Every row is derived with its own fields

An accepted `POST` has derived its address before the insert, and an insert stores the fields as
they came, so a row the backend holds derives to the address it is stored under.
-/

namespace ForwardingRelayer

def ForwardingRequest.deriveArgs (r : ForwardingRequest) : DeriveArgs :=
  ⟨r.destDomain, r.destRecipient, r.tokenId, r.customHookId, r.customHookMetadata⟩

def CreateForwardingRequest.deriveArgs (req : CreateForwardingRequest) : DeriveArgs :=
  ⟨req.destDomain, req.destRecipient, req.tokenId, req.customHookId, req.customHookMetadata⟩

/-- The posted fields derive to the posted address. -/
def CreateForwardingRequest.Valid (C : Crypto) (req : CreateForwardingRequest) : Prop :=
  req.deriveArgs.derive C = .ok req.forwardAddr

namespace BackendStorage

/-- Either the row is there, or the posted fields become the last one. -/
theorem createRequest_cases (db : BackendStorage) (createdAt : String)
    (req : CreateForwardingRequest) :
    (∃ existing ∈ db.rows, existing.forwardAddr = req.forwardAddr
        ∧ db.createRequest createdAt req = ((existing, false), db))
    ∨ (req.forwardAddr ∉ db.rows.map ForwardingRequest.forwardAddr
        ∧ ∃ db', db.createRequest createdAt req = ((rowOf createdAt req, true), db')
          ∧ db'.rows = db.rows ++ [rowOf createdAt req]) := by
  unfold createRequest
  split
  · rename_i existing h
    obtain ⟨h1, h2⟩ := mem_of_selectByAddr h
    exact .inl ⟨existing, h1, h2, rfl⟩
  · rename_i h
    exact .inr ⟨selectByAddr_eq_none.1 h, _, rfl, rfl⟩

/-- Either the row of the address is taken out, or there is none. -/
theorem removeByAddr_cases (db : BackendStorage) (addr : String) :
    (∃ r ∈ db.rows, r.forwardAddr = addr ∧ ∃ db', db.removeByAddr addr = (some r, db')
        ∧ ∀ r', r' ∈ db'.rows ↔ r' ∈ db.rows ∧ r' ≠ r)
    ∨ (addr ∉ db.rows.map ForwardingRequest.forwardAddr
        ∧ db.removeByAddr addr = (none, db)) := by
  unfold removeByAddr
  rcases h : db.selectByAddr addr with _ | r
  · exact .inr ⟨selectByAddr_eq_none.1 h, rfl⟩
  · obtain ⟨hr, rfl⟩ := mem_of_selectByAddr h
    refine .inl ⟨r, hr, rfl, _, rfl, fun r' => ?_⟩
    rw [List.mem_filter, bne_iff_ne, ne_eq]
    constructor
    · rintro ⟨hmem, hne⟩
      exact ⟨hmem, fun heq => hne (heq ▸ rfl)⟩
    · rintro ⟨hmem, hne⟩
      exact ⟨hmem, fun heq => hne (db.eq_of_forwardAddr_eq hmem hr heq)⟩

end BackendStorage

/-- The two ways a `DELETE` goes. -/
theorem completeRequest_cases (db : BackendStorage) (addr : String) :
    (∃ r ∈ db.rows, r.forwardAddr = addr
        ∧ ∃ db', Backend.completeRequest db addr = (.removed r, db')
        ∧ ∀ r', r' ∈ db'.rows ↔ r' ∈ db.rows ∧ r' ≠ r)
    ∨ (addr ∉ db.rows.map ForwardingRequest.forwardAddr
        ∧ Backend.completeRequest db addr = (.notFound, db)) := by
  unfold Backend.completeRequest
  rcases db.removeByAddr_cases addr with ⟨r, hr, ha, db', h, hrows⟩ | ⟨ha, h⟩ <;> rw [h]
  · exact .inl ⟨r, hr, ha, db', rfl, hrows⟩
  · exact .inr ⟨ha, rfl⟩

section Handlers

variable (C : Crypto)

/-- The three ways a `POST` goes: refused, answered with the row that is there, or stored. -/
theorem createRequest_cases (createdAt : String) (db : BackendStorage)
    (req : CreateForwardingRequest) :
    (¬ req.Valid C ∧ (Backend.createRequest C createdAt db req).1.accepted = none
        ∧ (Backend.createRequest C createdAt db req).1.statusCode = 400
        ∧ (Backend.createRequest C createdAt db req).2 = db)
    ∨ (req.Valid C ∧ ∃ existing ∈ db.rows, existing.forwardAddr = req.forwardAddr
        ∧ Backend.createRequest C createdAt db req = (.existing existing, db))
    ∨ (req.Valid C ∧ req.forwardAddr ∉ db.rows.map ForwardingRequest.forwardAddr
        ∧ ∃ db', db'.rows = db.rows ++ [BackendStorage.rowOf createdAt req]
          ∧ Backend.createRequest C createdAt db req
            = (.created (BackendStorage.rowOf createdAt req), db')) := by
  have hd : req.deriveArgs.derive C = deriveForwardingAddress C req.destDomain req.destRecipient
      req.tokenId req.customHookId req.customHookMetadata := rfl
  unfold Backend.createRequest CreateForwardingRequest.Valid
  rw [← hd]
  rcases req.deriveArgs.derive C with e | derived
  · exact .inl ⟨by simp, rfl, rfl, rfl⟩
  · by_cases ha : derived = req.forwardAddr
    · refine .inr ?_
      simp only [ha, if_true]
      rcases db.createRequest_cases createdAt req with ⟨r, hr, hra, h⟩ | ⟨hnew, db', h, hrows⟩
      · exact .inl ⟨trivial, r, hr, hra, by rw [h]⟩
      · exact .inr ⟨trivial, hnew, db', hrows, by rw [h]⟩
    · simp only [ha, if_false]
      exact .inl ⟨by simpa using ha, rfl, rfl, trivial⟩

/-- An accepted request is in the table, under the address it was posted for. -/
theorem mem_of_accepted {createdAt : String} {db : BackendStorage} {req : CreateForwardingRequest}
    {row : ForwardingRequest}
    (h : (Backend.createRequest C createdAt db req).1.accepted = some row) :
    row ∈ (Backend.createRequest C createdAt db req).2.rows
      ∧ row.forwardAddr = req.forwardAddr := by
  rcases createRequest_cases C createdAt db req with
    ⟨-, h1, -⟩ | ⟨-, r, hr, hra, h1⟩ | ⟨-, -, db', h1, h2⟩
  · rw [h1] at h
    cases h
  · rw [h1] at h ⊢
    cases h
    exact ⟨hr, hra⟩
  · rw [h2] at h ⊢
    cases h
    exact ⟨by simp [h1], rfl⟩

def Derived (db : BackendStorage) : Prop :=
  ∀ r ∈ db.rows, r.deriveArgs.derive C = .ok r.forwardAddr

theorem derived_step {db db' : BackendStorage} {call : Backend.Call} (hdb : Derived C db)
    (h : (backend C).step db call = some db') : Derived C db' := by
  intro r hr
  cases call with
  | post createdAt req =>
    simp only [backend, Option.some.injEq] at h
    subst h
    rcases createRequest_cases C createdAt db req with
      ⟨-, -, -, h1⟩ | ⟨-, _, _, _, h1⟩ | ⟨h1, -, db', h2, h3⟩
    · exact hdb r (h1 ▸ hr)
    · rw [h1] at hr
      exact hdb r hr
    · rw [h3, h2] at hr
      rcases List.mem_append.1 hr with hr | hr
      · exact hdb r hr
      · rw [List.mem_singleton.1 hr]
        exact h1
  | delete addr =>
    simp only [backend, Option.some.injEq] at h
    subst h
    rcases completeRequest_cases db addr with ⟨x, -, -, db', h1, h2⟩ | ⟨-, h1⟩ <;> rw [h1] at hr
    · exact hdb r ((h2 r).1 hr).1
    · exact hdb r hr
  | list =>
    simp only [backend, Option.some.injEq] at h
    exact hdb r (h ▸ hr)

theorem derived_of_reachable {db : BackendStorage} (h : (backend C).Reachable db) :
    Derived C db := by
  refine h.invariant (I := Derived C) ?_ fun _ _ _ hdb hs => derived_step C hdb hs
  rintro _ rfl r hr
  simp [BackendStorage.empty] at hr

end Handlers

end ForwardingRelayer
