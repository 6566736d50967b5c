import ForwardingRelayer.Proofs.Binding

/-!
# The backend is a map of its calls

A creating `POST` is the only call that adds a row and a `DELETE` of its address the only one that
takes it away, so the table after any sequence of calls is read off their order.
-/

namespace ForwardingRelayer

namespace Backend

variable (C : Crypto)

/-- The `POST` that stored the row, answered with `created = true`. -/
def Creates (r : ForwardingRequest) (e : Event BackendStorage Call) : Prop :=
  ∃ createdAt req, e.act = .post createdAt req ∧ r = BackendStorage.rowOf createdAt req
    ∧ (createRequest C createdAt e.pre req).1 = .created r

def Deletes (addr : String) (e : Event BackendStorage Call) : Prop := e.act = .delete addr

/-- A creating `POST` or a `DELETE` of the address. -/
def Touches (addr : String) (e : Event BackendStorage Call) : Prop :=
  (∃ r, Creates C r e ∧ r.forwardAddr = addr) ∨ Deletes addr e

end Backend

section Step

variable {C : Crypto} {db db' : BackendStorage} {call : Backend.Call} {r : ForwardingRequest}

/-- What a call does to the table. -/
theorem backend_cases (h : (backend C).step db call = some db') :
    db' = db ∨ (∃ r, Backend.Creates C r ⟨db, call, db'⟩ ∧ db'.rows = db.rows ++ [r])
      ∨ ∃ r, Backend.Deletes r.forwardAddr ⟨db, call, db'⟩
          ∧ ∀ r', r' ∈ db'.rows ↔ r' ∈ db.rows ∧ r' ≠ r := by
  cases call with
  | post createdAt req =>
    simp only [backend, Option.some.injEq] at h
    subst h
    rcases createRequest_cases C createdAt db req with
      ⟨-, -, -, h1⟩ | ⟨-, _, _, _, h1⟩ | ⟨-, -, db', h1, h2⟩
    · exact .inl h1
    · exact .inl (by rw [h1])
    · exact .inr (.inl ⟨_, ⟨createdAt, req, rfl, rfl, by rw [h2]⟩, by rw [h2, h1]⟩)
  | delete addr =>
    simp only [backend, Option.some.injEq] at h
    subst h
    rcases completeRequest_cases db addr with ⟨r, -, rfl, db', h1, h2⟩ | ⟨-, h1⟩
    · exact .inr (.inr ⟨r, rfl, by rwa [h1]⟩)
    · exact .inl (by rw [h1])
  | list =>
    simp only [backend, Option.some.injEq] at h
    exact .inl h.symm

theorem mem_rows_of_creates (h : (backend C).step db call = some db')
    (hc : Backend.Creates C r ⟨db, call, db'⟩) : r ∈ db'.rows := by
  obtain ⟨createdAt, req, rfl, -, hc⟩ := hc
  simp only [backend, Option.some.injEq] at h
  subst h
  exact (mem_of_accepted C (by rw [hc]; rfl)).1

theorem not_mem_rows_of_deletes {addr : String} (h : (backend C).step db call = some db')
    (hd : Backend.Deletes addr ⟨db, call, db'⟩) (hr : r.forwardAddr = addr) : r ∉ db'.rows := by
  obtain rfl : call = .delete addr := hd
  simp only [backend, Option.some.injEq] at h
  subst h
  rcases completeRequest_cases db addr with ⟨x, hx, hxa, db', h1, h2⟩ | ⟨hn, h1⟩ <;> rw [h1]
  · intro hmem
    obtain ⟨hold, hne⟩ := (h2 r).1 hmem
    exact hne (db.eq_of_forwardAddr_eq hold hx (hr.trans hxa.symm))
  · exact fun hmem => hn (List.mem_map.2 ⟨r, hmem, hr⟩)

/-- A row is new with its `POST`, or it was there, and then no call created or deleted it. -/
theorem mem_rows_step (h : (backend C).step db call = some db') (hr : r ∈ db'.rows) :
    Backend.Creates C r ⟨db, call, db'⟩
      ∨ (¬ Backend.Touches C r.forwardAddr ⟨db, call, db'⟩ ∧ r ∈ db.rows) := by
  by_cases hc : Backend.Creates C r ⟨db, call, db'⟩
  · exact .inl hc
  · refine .inr ⟨?_, ?_⟩
    · rintro (⟨r', hr', ha⟩ | hd)
      · have heq := db'.eq_of_forwardAddr_eq (mem_rows_of_creates h hr') hr ha
        exact hc (heq ▸ hr')
      · exact not_mem_rows_of_deletes h hd rfl hr
    · rcases backend_cases h with heq | ⟨r', hr', hrows⟩ | ⟨r', -, hrows⟩
      · exact heq ▸ hr
      · rw [hrows, List.mem_append, List.mem_singleton] at hr
        rcases hr with hr | rfl
        · exact hr
        · exact absurd hr' hc
      · exact ((hrows r).1 hr).1

theorem mem_rows_kept (h : (backend C).step db call = some db') (hr : r ∈ db.rows)
    (hd : ¬ Backend.Deletes r.forwardAddr ⟨db, call, db'⟩) : r ∈ db'.rows := by
  rcases backend_cases h with heq | ⟨r', -, hrows⟩ | ⟨r', hd', hrows⟩
  · exact heq ▸ hr
  · rw [hrows]
    exact List.mem_append_left _ hr
  · exact (hrows r).2 ⟨hr, fun heq => hd (heq ▸ hd')⟩

end Step

section Runs

variable {C : Crypto} {log : List (Event BackendStorage Backend.Call)} {db : BackendStorage}

/-- The rows are those whose latest creating `POST` no `DELETE` has followed. -/
theorem mem_rows_iff (h : (backend C).Run log db) (r : ForwardingRequest) :
    r ∈ db.rows ↔ ∃ l₁ e l₂, log = l₁ ++ e :: l₂ ∧ Backend.Creates C r e
      ∧ ∀ x ∈ l₁, ¬ Backend.Touches C r.forwardAddr x := by
  rw [← Since.iff_split]
  constructor
  · refine h.since_of (I := fun db => r ∈ db.rows) ?_ fun _ _ _ _ _ hs hr => mem_rows_step hs hr
    rintro _ rfl
    simp [BackendStorage.empty]
  · refine h.since (I := fun _ db => r ∈ db.rows) (fun _ _ _ _ _ hs => mem_rows_of_creates hs) ?_
    exact fun _ _ _ _ _ hr hs hq => mem_rows_kept hs hr fun hd => hq (.inr hd)

end Runs

/-- After any sequence of calls the table has one row an address, each derived with its own
fields; a call then changes it as the handler's answer says, and a `GET` lists, once each, the rows
whose latest creating `POST` no `DELETE` has followed. -/
theorem backend_registry {C : Crypto} {log : List (Event BackendStorage Backend.Call)}
    {db : BackendStorage} (h : (backend C).Run log db) :
    (db.rows.map ForwardingRequest.forwardAddr).Nodup
      ∧ (∀ r ∈ db.rows, r.deriveArgs.derive C = .ok r.forwardAddr)
      ∧ (∀ createdAt req, ¬ req.Valid C →
          (Backend.createRequest C createdAt db req).1.statusCode = 400
            ∧ (Backend.createRequest C createdAt db req).2 = db)
      ∧ (∀ createdAt req, req.Valid C → ∀ r ∈ db.rows, r.forwardAddr = req.forwardAddr →
          Backend.createRequest C createdAt db req = (.existing r, db))
      ∧ (∀ createdAt req, req.Valid C → (∀ r ∈ db.rows, r.forwardAddr ≠ req.forwardAddr) →
          (Backend.createRequest C createdAt db req).1
              = .created (BackendStorage.rowOf createdAt req)
            ∧ (Backend.createRequest C createdAt db req).2.rows
              = db.rows ++ [BackendStorage.rowOf createdAt req])
      ∧ (∀ r ∈ db.rows, (Backend.completeRequest db r.forwardAddr).1 = .removed r
          ∧ ∀ r', r' ∈ (Backend.completeRequest db r.forwardAddr).2.rows ↔ r' ∈ db.rows ∧ r' ≠ r)
      ∧ (∀ addr, (∀ r ∈ db.rows, r.forwardAddr ≠ addr) →
          Backend.completeRequest db addr = (.notFound, db))
      ∧ (db.listRequests.map ForwardingRequest.forwardAddr).Nodup
      ∧ ∀ r, r ∈ db.listRequests ↔ ∃ l₁ e l₂, log = l₁ ++ e :: l₂ ∧ Backend.Creates C r e
          ∧ ∀ x ∈ l₁, ¬ Backend.Touches C r.forwardAddr x := by
  refine ⟨db.primaryKey, derived_of_reachable C h.reachable, ?_, ?_, ?_, ?_, ?_, ?_, fun r => ?_⟩
  · intro createdAt req hv
    rcases createRequest_cases C createdAt db req with ⟨-, -, h1, h2⟩ | ⟨hv', -⟩ | ⟨hv', -⟩
    · exact ⟨h1, h2⟩
    · exact absurd hv' hv
    · exact absurd hv' hv
  · intro createdAt req hv r hr ha
    rcases createRequest_cases C createdAt db req with
      ⟨hv', -⟩ | ⟨-, x, hx, hxa, h1⟩ | ⟨-, hn, -⟩
    · exact absurd hv hv'
    · rw [h1, db.eq_of_forwardAddr_eq hx hr (hxa.trans ha.symm)]
    · exact absurd (List.mem_map.2 ⟨r, hr, ha⟩) hn
  · intro createdAt req hv hn
    rcases createRequest_cases C createdAt db req with
      ⟨hv', -⟩ | ⟨-, x, hx, hxa, -⟩ | ⟨-, -, db', h1, h2⟩
    · exact absurd hv hv'
    · exact absurd hxa (hn x hx)
    · rw [h2]
      exact ⟨rfl, h1⟩
  · intro r hr
    rcases completeRequest_cases db r.forwardAddr with ⟨x, hx, hxa, db', h1, h2⟩ | ⟨hn, -⟩
    · obtain rfl := db.eq_of_forwardAddr_eq hx hr hxa
      rw [h1]
      exact ⟨rfl, h2⟩
    · exact absurd (List.mem_map.2 ⟨r, hr, rfl⟩) hn
  · intro addr hn
    rcases completeRequest_cases db addr with ⟨x, hx, hxa, -⟩ | ⟨-, h1⟩
    · exact absurd hxa (hn x hx)
    · exact h1
  · have hperm : db.listRequests.Perm db.rows := List.mergeSort_perm _ _
    exact (hperm.map _).nodup_iff.2 db.primaryKey
  · rw [BackendStorage.mem_listRequests]
    exact mem_rows_iff h r

/-- The plain request is posted, posted again, deleted and posted a third time. -/
def repostedCalls : List Backend.Call :=
  [.post "2024-01-15T10:30:00+00:00" plainRequest, .post "2024-01-15T10:31:00+00:00" plainRequest,
    .delete plainRequest.forwardAddr, .post "2024-01-15T10:32:00+00:00" plainRequest]

def repostedRow : ForwardingRequest := BackendStorage.rowOf "2024-01-15T10:32:00+00:00" plainRequest

theorem backend_registry_reposted : ∃ log db,
    (backend .standard).exec repostedCalls [] .empty = some (log, db)
      ∧ db.rows = [repostedRow] ∧ plainRow ∉ db.listRequests
      ∧ (Backend.completeRequest db repostedRow.forwardAddr).1 = .removed repostedRow
      ∧ Backend.createRequest .standard "2024-01-15T10:33:00+00:00" db plainRequest
        = (.existing repostedRow, db)
      ∧ (db.listRequests.map ForwardingRequest.forwardAddr).Nodup
      ∧ ∃ l₁ e l₂, log = l₁ ++ e :: l₂ ∧ Backend.Creates .standard repostedRow e
        ∧ ∀ x ∈ l₁, ¬ Backend.Touches .standard repostedRow.forwardAddr x := by
  obtain ⟨log, db, hrun, hexec, h⟩ := Machine.exists_run_of_exec (backend .standard) repostedCalls
    .empty (fun _ db => db.rows == [repostedRow]) rfl (by decide +kernel)
  have hrows : db.rows = [repostedRow] := by simpa using h
  obtain ⟨-, -, -, hexisting, -, hdel, -, hnodup, hlist⟩ := backend_registry hrun
  have hmem : repostedRow ∈ db.rows := by simp [hrows]
  have hvalid : plainRequest.Valid .standard := plainArgs_derive
  refine ⟨log, db, hexec, hrows, ?_, (hdel repostedRow hmem).1,
    hexisting _ plainRequest hvalid repostedRow hmem rfl, hnodup,
    (hlist repostedRow).1 (BackendStorage.mem_listRequests.2 hmem)⟩
  rw [BackendStorage.mem_listRequests, hrows]
  decide

end ForwardingRelayer
