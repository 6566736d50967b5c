import ForwardingRelayer.Proofs.Server

/-!
# The counters account for the table

While a process runs, the rows it opened and those it has counted as created are the rows there are
and those it has counted as removed, up to the calls it is about to count. Each `POST` and each
`DELETE` is counted once, under one result.
-/

namespace ForwardingRelayer

namespace Outcome

theorem key_injective : Function.Injective key := by
  intro o o' h
  cases o <;> cases o' <;> first | rfl | (revert h; decide)

/-- The results of `requests_created_total`. -/
def ofPost : List Outcome := [.addressMismatch, .invalidParams, .created, .existing, .createError]

/-- The results of `requests_completed_total`. -/
def ofDelete : List Outcome := [.removed, .notFound, .removeError]

theorem count_of_mem_ofPost {o : Outcome} (h : o ∈ ofPost) :
    ofPost.count o = 1 ∧ ofDelete.count o = 0 := by
  revert h
  cases o <;> decide

theorem count_of_mem_ofDelete {o : Outcome} (h : o ∈ ofDelete) :
    ofPost.count o = 0 ∧ ofDelete.count o = 1 := by
  revert h
  cases o <;> decide

end Outcome

def BackendMetrics.count (m : BackendMetrics) (o : Outcome) : ℕ := m.counters o.key

theorem BackendMetrics.count_increment (m : BackendMetrics) (o o' : Outcome) :
    (m.increment o).count o' = m.count o' + if o' = o then 1 else 0 := by
  unfold count increment
  by_cases h : o' = o
  · subst h
    simp
  · rw [if_neg h]
    exact Function.update_of_ne (fun hkey => h (Outcome.key_injective hkey)) _ _

theorem Refresh.count_step {chrono : Chrono} {db : BackendStorage} {m : BackendMetrics} {now : ℤ}
    {failing : BackendStorage.Failure → Bool} {r : Refresh} (o : Outcome) :
    (r.step chrono db m now failing).1.count o = m.count o := by
  cases r with
  | start | age => rw [step]; split <;> rfl
  | pending | done => rfl

namespace Request

def isPost : Request → Bool
  | .post _ => true
  | _ => false

def isDelete : Request → Bool
  | .delete _ => true
  | _ => false

end Request

namespace Handler

/-- It is about to count this. -/
def counting (o : Outcome) : Handler → Bool
  | .count o' _ => o = o'
  | _ => false

variable {C : Crypto} {chrono : Chrono} {db db' : BackendStorage} {m m' : BackendMetrics} {now : ℤ}
  {failing : BackendStorage.Failure → Bool} {request : Request} {h h' : Handler}

/-- What is counted, or about to be by this handler. -/
def tally (m : BackendMetrics) (h : Handler) (o : Outcome) : ℕ :=
  m.count o + if h.counting o then 1 else 0

theorem counting_of_answer (hno : h.answer = none) (o : Outcome) : h.counting o = false := by
  cases h with
  | count => cases hno
  | _ => rfl

/-- A `POST` or a `DELETE` is tallied as it is answered, and nothing else changes a tally. -/
theorem tally_step (hs : Steps C chrono true now failing db m request h db' m' h') :
    (∃ o a, h.answer = none ∧ h'.answer ≠ none
        ∧ Settles C chrono now failing db request db' (some o) a
        ∧ ∀ o', h'.tally m' o' = h.tally m o' + if o' = o then 1 else 0)
      ∨ (db' = db ∧ (∀ o', h'.tally m' o' = h.tally m o')
        ∧ (h'.answer.isNone = h.answer.isNone
          ∨ (request.isPost = false ∧ request.isDelete = false))) := by
  cases hs with
  | validated => exact .inr ⟨rfl, fun _ => rfl, .inl rfl⟩
  | @counted _ _ _ o a hno hset =>
    refine .inl ⟨o, a, hno, by simp [answer_finish], hset, fun o' => ?_⟩
    rw [tally, tally, counting_of_answer hno]
    simp [finish, counting]
  | answered hno hset =>
    refine .inr ⟨?_, fun o' => ?_, .inr ?_⟩
    · cases hset <;> rfl
    · rw [tally, tally, counting_of_answer hno]
      rfl
    · cases hset with
      | failed hr => rcases hr with rfl | rfl <;> exact ⟨rfl, rfl⟩
      | listed | address | healthy => exact ⟨rfl, rfl⟩
  | @count _ o a =>
    refine .inr ⟨rfl, fun o' => ?_, .inl (by split <;> rfl)⟩
    have hafter : (if o.refreshes then Handler.refresh .start a else .answered a).counting o'
        = false := by split <;> rfl
    rw [tally, tally, hafter, BackendMetrics.count_increment]
    simp [counting]
  | refresh =>
    exact .inr ⟨rfl, fun o' => by rw [tally, tally, Refresh.count_step]; rfl, .inl rfl⟩
  | refreshed => exact .inr ⟨rfl, fun _ => rfl, .inl rfl⟩

end Handler

theorem length_removed {db db' : BackendStorage} {addr : String} {row : ForwardingRequest}
    (h : Backend.completeRequest db addr = (.removed row, db')) :
    db.rows.length = db'.rows.length + 1 := by
  rcases completeRequest_cases db addr with ⟨r, hr, -, db'', h', hrows⟩ | ⟨-, h'⟩ <;>
    rw [h'] at h <;> cases h
  have hperm : db.rows.Perm (row :: db'.rows) := by
    refine (List.perm_ext_iff_of_nodup db.primaryKey.of_map
      (List.nodup_cons.2 ⟨fun hmem => ((hrows row).1 hmem).2 rfl, db'.primaryKey.of_map⟩)).2 ?_
    intro r'
    rw [List.mem_cons, hrows]
    by_cases hr' : r' = row
    · simp [hr', hr]
    · simp [hr']
  exact hperm.length_eq

/-- A call that is counted as created adds a row, and one counted as removed takes one out. -/
theorem length_of_settles {C : Crypto} {chrono : Chrono} {now : ℤ}
    {failing : BackendStorage.Failure → Bool} {db db' : BackendStorage} {request : Request}
    {o : Outcome} {a : Answer} (h : Settles C chrono now failing db request db' (some o) a) :
    db'.rows.length + (if Outcome.removed = o then 1 else 0)
        = db.rows.length + (if Outcome.created = o then 1 else 0)
      ∧ ((request.isPost = true ∧ request.isDelete = false ∧ o ∈ Outcome.ofPost)
        ∨ (request.isPost = false ∧ request.isDelete = true ∧ o ∈ Outcome.ofDelete)) := by
  cases h with
  | refused ho => rcases ho with rfl | rfl <;> exact ⟨rfl, .inl ⟨rfl, rfl, by decide⟩⟩
  | created _ _ _ hrows => exact ⟨by simp [hrows], .inl ⟨rfl, rfl, by decide⟩⟩
  | existing | createError => exact ⟨rfl, .inl ⟨rfl, rfl, by decide⟩⟩
  | removed _ h => exact ⟨by simp [length_removed h], .inr ⟨rfl, rfl, by decide⟩⟩
  | notFound | removeError => exact ⟨rfl, .inr ⟨rfl, rfl, by decide⟩⟩

namespace Server

/-- What the process has counted, and is about to count. -/
def total (s : Server) (o : Outcome) : ℕ :=
  s.metrics.count o + s.exchanges.countP fun x => x.handler.counting o

/-- The calls of a kind that are not settled. -/
def unsettled (s : Server) (p : Request → Bool) : ℕ :=
  s.exchanges.countP fun x => p x.request && x.handler.answer.isNone

/-- The rows the process opened. -/
def opened : List Step → ℕ
  | [] => 0
  | e :: log =>
    match e.act with
    | .crash => e.post.storage.rows.length
    | _ => opened log

/-- The calls of a kind the process has accepted. -/
def arrived (p : Request → Bool) : List Step → ℕ
  | [] => 0
  | e :: log =>
    match e.act with
    | .crash => 0
    | .accept request => arrived p log + if p request then 1 else 0
    | _ => arrived p log

structure Accounted (log : List Step) (s : Server) : Prop where
  rows : s.storage.rows.length + s.total .removed = opened log + s.total .created
  posts : (Outcome.ofPost.map s.total).sum + s.unsettled Request.isPost
    = arrived Request.isPost log
  deletes : (Outcome.ofDelete.map s.total).sum + s.unsettled Request.isDelete
    = arrived Request.isDelete log

variable {C : Crypto} {chrono : Chrono} {log : List Step} {s s' : Server} {act : Act}

theorem sum_tally {f g : Outcome → ℕ} {o : Outcome}
    (h : ∀ o', g o' = f o' + if o' = o then 1 else 0) :
    ∀ l : List Outcome, (l.map g).sum = (l.map f).sum + l.count o
  | [] => rfl
  | o' :: l => by
    rw [List.map_cons, List.map_cons, List.sum_cons, List.sum_cons, List.count_cons, h,
      sum_tally h l]
    simp only [beq_iff_eq]
    omega

theorem total_split {x : Exchange} {l₁ l₂ : List Exchange} (hl : s.exchanges = l₁ ++ x :: l₂)
    (o : Outcome) : s.total o = x.handler.tally s.metrics o
      + (l₁.countP (fun x => x.handler.counting o) + l₂.countP fun x => x.handler.counting o) := by
  rw [total, hl, List.countP_append, List.countP_cons, Handler.tally]
  omega

theorem unsettled_split {x : Exchange} {l₁ l₂ : List Exchange} (hl : s.exchanges = l₁ ++ x :: l₂)
    (p : Request → Bool) : s.unsettled p = (if p x.request && x.handler.answer.isNone then 1 else 0)
      + (l₁.countP (fun x => p x.request && x.handler.answer.isNone)
        + l₂.countP fun x => p x.request && x.handler.answer.isNone) := by
  rw [unsettled, hl, List.countP_append, List.countP_cons]
  omega

/-- What leaves the tallies, the unsettled calls and the log's count keeps the account. -/
theorem Accounted.congr (h : Accounted log s) (hrows : s'.storage = s.storage)
    (htotal : ∀ o, s'.total o = s.total o) (hunsettled : ∀ p, s'.unsettled p = s.unsettled p)
    (hcrash : act ≠ .crash) (haccept : ∀ request, act ≠ .accept request) :
    Accounted (⟨s, act, s'⟩ :: log) s' := by
  have hopened : opened (⟨s, act, s'⟩ :: log) = opened log := by
    cases act with
    | crash => exact absurd rfl hcrash
    | _ => rfl
  have harrived : ∀ p, arrived p (⟨s, act, s'⟩ :: log) = arrived p log := by
    intro p
    cases act with
    | crash => exact absurd rfl hcrash
    | accept => exact absurd rfl (haccept _)
    | _ => rfl
  have htotal' : s'.total = s.total := funext htotal
  exact ⟨by rw [hrows, htotal', hopened]; exact h.rows,
    by rw [htotal', hunsettled, harrived]; exact h.posts,
    by rw [htotal', hunsettled, harrived]; exact h.deletes⟩

theorem accounted_handle {i : ℕ} {now : ℤ} {failing : BackendStorage.Failure → Bool} {x : Exchange}
    {l₁ l₂ : List Exchange} {db : BackendStorage} {m : BackendMetrics} {h' : Handler}
    (h : Accounted log s) (hl : s.exchanges = l₁ ++ x :: l₂)
    (hs' : s' = { s with
      storage := db, metrics := m, exchanges := l₁ ++ { x with handler := h' } :: l₂ })
    (hx : Handler.Steps C chrono true now failing s.storage s.metrics x.request x.handler db m h') :
    Accounted (⟨s, .handle i now failing, s'⟩ :: log) s' := by
  have hl' : s'.exchanges = l₁ ++ { x with handler := h' } :: l₂ := by rw [hs']
  have hm : s'.metrics = m := by rw [hs']
  have hdb : s'.storage = db := by rw [hs']
  rcases Handler.tally_step hx with ⟨o, a, hno, hsome, hset, htally⟩ | ⟨hsame, htally, hanswer⟩
  · have htotal : ∀ o', s'.total o' = s.total o' + if o' = o then 1 else 0 := by
      intro o'
      rw [total_split hl', total_split hl, hm, htally]
      omega
    have hunsettled : ∀ p : Request → Bool,
        s'.unsettled p + (if p x.request then 1 else 0) = s.unsettled p := by
      intro p
      rw [unsettled_split hl', unsettled_split hl]
      simp [hno, Option.isNone_iff_eq_none, hsome]
      omega
    obtain ⟨hlength, hkind⟩ := length_of_settles hset
    have hposts := hunsettled Request.isPost
    have hdeletes := hunsettled Request.isDelete
    refine ⟨?_, ?_, ?_⟩
    · have := h.rows
      rw [hdb, htotal, htotal]
      change _ = opened log + _
      omega
    · rw [sum_tally htotal]
      refine Eq.trans ?_ h.posts
      rcases hkind with ⟨hp, -, ho⟩ | ⟨hp, -, ho⟩
      · rw [(Outcome.count_of_mem_ofPost ho).1]
        rw [if_pos hp] at hposts
        omega
      · rw [(Outcome.count_of_mem_ofDelete ho).1]
        rw [hp] at hposts
        simpa using hposts
    · rw [sum_tally htotal]
      refine Eq.trans ?_ h.deletes
      rcases hkind with ⟨-, hp, ho⟩ | ⟨-, hp, ho⟩
      · rw [(Outcome.count_of_mem_ofPost ho).2]
        rw [hp] at hdeletes
        simpa using hdeletes
      · rw [(Outcome.count_of_mem_ofDelete ho).2]
        rw [if_pos hp] at hdeletes
        omega
  · have htotal : ∀ o', s'.total o' = s.total o' := by
      intro o'
      rw [total_split hl', total_split hl, hm, htally]
    have hkeep : ∀ p : Request → Bool, (h'.answer.isNone = x.handler.answer.isNone
        ∨ p x.request = false) → s'.unsettled p = s.unsettled p := by
      rintro p (hanswer | hp)
      · rw [unsettled_split hl', unsettled_split hl, hanswer]
      · rw [unsettled_split hl', unsettled_split hl, hp]
        rfl
    refine ⟨?_, ?_, ?_⟩
    · rw [hdb, hsame, htotal, htotal]
      exact h.rows
    · rw [funext htotal, hkeep _ (hanswer.imp_right And.left)]
      exact h.posts
    · rw [funext htotal, hkeep _ (hanswer.imp_right And.right)]
      exact h.deletes

theorem accounted_accept {request : Request} (h : Accounted log s)
    (hs' : s' = { s with
      accepted := s.accepted + 1
      exchanges := s.exchanges ++ [⟨s.accepted, request, .start request⟩] }) :
    Accounted (⟨s, .accept request, s'⟩ :: log) s' := by
  have htotal : ∀ o, s'.total o = s.total o := by
    intro o
    rw [hs', total, total, List.countP_append]
    rfl
  have hunsettled : ∀ p : Request → Bool,
      s'.unsettled p = s.unsettled p + if p request then 1 else 0 := by
    intro p
    rw [hs', unsettled, unsettled, List.countP_append, List.countP_singleton]
    simp [Handler.answer]
  refine ⟨?_, ?_, ?_⟩
  · rw [htotal, htotal, hs']
    exact h.rows
  · rw [funext htotal, hunsettled, ← Nat.add_assoc, h.posts]
    rfl
  · rw [funext htotal, hunsettled, ← Nat.add_assoc, h.deletes]
    rfl

theorem accounted_reply {i n : ℕ} {request : Request} {a : Answer} {l₁ l₂ : List Exchange}
    (h : Accounted log s) (hl : s.exchanges = l₁ ++ ⟨n, request, .answered a⟩ :: l₂)
    (hs' : s' = { s with exchanges := l₁ ++ l₂ }) :
    Accounted (⟨s, .reply i, s'⟩ :: log) s' := by
  refine h.congr (by rw [hs']) (fun o => ?_) (fun p => ?_) nofun nofun
  · rw [total_split hl, hs', total, List.countP_append]
    simp [Handler.tally, Handler.counting]
  · rw [unsettled_split hl, hs', unsettled, List.countP_append]
    simp [Handler.answer]

theorem accounted_step (hc : Consistent C s) (h : Accounted log s)
    (hstep : s.step C chrono true act = some s') : Accounted (⟨s, act, s'⟩ :: log) s' := by
  cases steps_of_step hstep with
  | accept => exact accounted_accept h rfl
  | handle _ hl hx =>
    have hof := (hc _ (hl ▸ List.mem_append_right _ List.mem_cons_self)).1
    exact accounted_handle h hl rfl (Handler.steps_of_step hof hx)
  | reply _ hl => exact accounted_reply h hl rfl
  | crash => exact ⟨rfl, rfl, rfl⟩
  | boot | refresh =>
    exact h.congr rfl (fun o => by rw [total, Refresh.count_step]; rfl) (fun _ => rfl) nofun nofun
  | _ => exact h.congr rfl (fun _ => rfl) (fun _ => rfl) nofun nofun

/-- The counters account for the rows and for the calls, in every state of every run. -/
theorem counters_account (h : (server C chrono true).Run log s) : Accounted log s := by
  refine h.invariant (I := Accounted) ?_ fun _ _ _ _ hr hs hstep =>
    accounted_step (consistent_of_reachable hr.reachable) hs hstep
  rintro _ rfl
  exact ⟨rfl, rfl, rfl⟩

/-- A restarted process opens the row the last one has created, and a call takes it out. -/
theorem counters_account_restarted : ∃ log s, (server .standard .standard true).Run log s
    ∧ opened log = 1 ∧ s.total .removed = 1 ∧ s.storage.rows.length = 0 ∧ Accounted log s := by
  obtain ⟨log, s, hrun, -, h⟩ := Machine.exists_run_of_exec (server .standard .standard true)
    (listens ++ serves (.post plainRequest) 3 ++ [.crash]
      ++ listens ++ serves (.delete plainRequest.forwardAddr) 6)
    (.start .empty 0) (fun log s => opened log == 1 && s.total .removed == 1
      && s.storage.rows.length == 0)
    rfl (by decide +kernel)
  simp only [Bool.and_eq_true, beq_iff_eq] at h
  exact ⟨log, s, hrun, h.1.1, h.1.2, h.2, counters_account hrun⟩

end Server

end ForwardingRelayer
