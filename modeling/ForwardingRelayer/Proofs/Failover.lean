import ForwardingRelayer.Failover

/-!
# How sticky the preference is

A call stores its preference whatever has been stored since its load, so what it displaces is what
was stored last in between, if anything was, and else the preference it loaded itself.
-/

namespace ForwardingRelayer

/-- The preference a call in flight has loaded. -/
def ClientCall.loaded {T : Type} : ClientCall T → Option ℕ
  | .attempt _ start _ => some start
  | .prefer start _ _ => some start
  | .submit idx => some idx
  | .rotate idx _ => some idx
  | _ => none

/-- The endpoint a call awaits or is about to store. -/
def ClientCall.endpoint {T : Type} (count : ℕ) : ClientCall T → Option ℕ
  | .attempt _ start i => some ((start + i) % count)
  | .prefer _ idx _ => some idx
  | .submit idx => some idx
  | .rotate idx _ => some ((idx + 1) % count)
  | _ => none

namespace CelestiaClient

variable {T : Type} {count : ℕ}

abbrev Step (T : Type) := Event (CelestiaClient T) (Act T)

/-- The call with this index loads the preference. -/
def loads (k : ℕ) (e : Step T) : Prop :=
  ((∃ what, e.act = .withFailover what) ∨ e.act = .submitForward) ∧ e.pre.calls.length = k

/-- The preference a step stores. -/
def stored (count : ℕ) (e : Step T) : Option ℕ :=
  match e.act with
  | .store k => (e.pre.calls[k]?).bind (ClientCall.endpoint count)
  | _ => none

section Step

variable {s s' : CelestiaClient T} {act : Act T}

theorem loaded_next {what : String} {start i j : ℕ} {lastErr : Option String}
    (h : (ClientCall.next count what start i lastErr : ClientCall T).loaded = some j) :
    j = start := by
  unfold ClientCall.next at h
  split at h
  · exact (Option.some.inj h).symm
  · split at h <;> cases h

theorem endpoint_next {what : String} {start i j : ℕ} {lastErr : Option String}
    (h : (ClientCall.next count what start i lastErr : ClientCall T).endpoint count = some j)
    (hcount : 0 < count) : j < count := by
  unfold ClientCall.next at h
  split at h
  · exact Option.some.inj h ▸ Nat.mod_lt _ hcount
  · split at h <;> cases h

/-- A step is the load of a new call, or it is a step of one call, which keeps what it has loaded;
what it stores is the endpoint it has come to. -/
inductive Steps (count : ℕ) (s : CelestiaClient T) : Act T → CelestiaClient T → Prop
  | load {act : Act T} {call : ClientCall T} :
      (∃ what, act = .withFailover what) ∨ act = .submitForward →
      (∀ i, call.loaded = some i → i = s.current) →
      (∀ j, call.endpoint count = some j → s.current < count → j < count) →
      Steps count s act { s with calls := s.calls ++ [call] }
  | answer {act : Act T} {k : ℕ} {call call' : ClientCall T} :
      (∃ result, act = .answer k result) ∨ (∃ result, act = .submission k result) →
      s.calls[k]? = some call → (∀ i, call'.loaded = some i → call.loaded = some i) →
      (∀ j, call'.endpoint count = some j → 0 < count → j < count) →
      Steps count s act { s with calls := s.calls.set k call' }
  | store {k v : ℕ} {call call' : ClientCall T} : s.calls[k]? = some call →
      call.endpoint count = some v → call'.loaded = none → call'.endpoint count = none →
      Steps count s (.store k) ⟨v, s.calls.set k call'⟩

theorem steps_of_step (h : s.step count act = some s') : Steps count s act s' := by
  cases act with
  | withFailover what =>
    simp only [step, Option.some.injEq] at h
    exact h ▸ .load (.inl ⟨what, rfl⟩) (fun _ => loaded_next)
      fun _ hj hlt => endpoint_next hj (by omega)
  | submitForward =>
    simp only [step, Option.some.injEq] at h
    refine h ▸ .load (.inr rfl) (fun i hi => ?_) fun j hj hlt => ?_
    · exact (Option.some.inj hi).symm
    · exact Option.some.inj hj ▸ hlt
  | answer k result =>
    simp only [step] at h
    split at h <;> simp only [Option.some.injEq, reduceCtorEq] at h <;> rename_i hk <;> subst h
    · refine .answer (.inl ⟨_, rfl⟩) hk ?_ ?_
      · intro i hi
        split at hi
        · cases hi
        · exact hi
      · intro j hj hcount
        split at hj
        · cases hj
        · exact Option.some.inj hj ▸ Nat.mod_lt _ hcount
    · exact .answer (.inl ⟨_, rfl⟩) hk (fun i hi => congrArg some (loaded_next hi).symm)
        fun _ => endpoint_next
  | submission k result =>
    simp only [step] at h
    split at h <;> simp only [Option.some.injEq, reduceCtorEq] at h <;> rename_i hk <;> subst h
    · exact .answer (.inr ⟨_, rfl⟩) hk nofun nofun
    · refine .answer (.inr ⟨_, rfl⟩) hk ?_ ?_
      · intro i hi
        split at hi
        · exact hi
        · cases hi
      · intro j hj hcount
        split at hj
        · exact Option.some.inj hj ▸ Nat.mod_lt _ hcount
        · cases hj
  | store k =>
    simp only [step] at h
    split at h <;> simp only [Option.some.injEq, reduceCtorEq] at h <;> rename_i hk <;> subst h
    · exact .store hk rfl rfl rfl
    · exact .store hk rfl rfl rfl

theorem current_step (h : Steps count s act s') :
    s'.current = (stored count ⟨s, act, s'⟩).getD s.current := by
  cases h with
  | load hact =>
    rcases hact with ⟨what, rfl⟩ | rfl <;> rfl
  | answer hact =>
    rcases hact with ⟨result, rfl⟩ | ⟨result, rfl⟩ <;> rfl
  | store hk hv => simp [stored, hk, hv]

/-- A call that goes on has what it loaded before. -/
theorem loaded_step (h : Steps count s act s') {k : ℕ} {call : ClientCall T}
    (hk : s.calls[k]? = some call) :
    ∃ call', s'.calls[k]? = some call' ∧ ∀ i, call'.loaded = some i → call.loaded = some i := by
  obtain ⟨hlt, -⟩ := List.getElem?_eq_some_iff.1 hk
  cases h with
  | load =>
    exact ⟨call, by rwa [List.getElem?_append_left hlt], fun _ hi => hi⟩
  | @answer _ k' _ call' _ hk' hloaded =>
    by_cases heq : k' = k
    · subst heq
      obtain rfl := Option.some.inj (hk.symm.trans hk')
      exact ⟨call', List.getElem?_set_self hlt, hloaded⟩
    · exact ⟨call, by rwa [List.getElem?_set_ne heq], fun _ hi => hi⟩
  | @store k' _ _ call' hk' _ hloaded =>
    by_cases heq : k' = k
    · subst heq
      exact ⟨call', List.getElem?_set_self hlt, fun i hi => by rw [hloaded] at hi; cases hi⟩
    · exact ⟨call, by rwa [List.getElem?_set_ne heq], fun _ hi => hi⟩

/-- A call that has loaded something is there before the step, or the step is its load. -/
theorem loads_step (h : Steps count s act s') {k i : ℕ} {call' : ClientCall T}
    (hk : s'.calls[k]? = some call') (hi : call'.loaded = some i) :
    loads k ⟨s, act, s'⟩ ∨ ∃ call, s.calls[k]? = some call ∧ call.loaded = some i := by
  rcases hold : s.calls[k]? with _ | call
  · refine .inl ?_
    rw [List.getElem?_eq_none_iff] at hold
    obtain ⟨hlt, -⟩ := List.getElem?_eq_some_iff.1 hk
    cases h with
    | load hact =>
      refine ⟨hact, ?_⟩
      simp only [List.length_append, List.length_singleton] at hlt ⊢
      omega
    | answer =>
      simp only [List.length_set] at hlt
      omega
    | store =>
      simp only [List.length_set] at hlt
      omega
  · obtain ⟨call'', hk'', hloaded⟩ := loaded_step h hold
    obtain rfl := Option.some.inj (hk.symm.trans hk'')
    exact .inr ⟨call, rfl, hloaded i hi⟩

/-- A load leaves the preference, and its call has that one at the most. -/
theorem post_of_loads (h : Steps count s act s') {k : ℕ} (hl : loads k ⟨s, act, s'⟩) :
    s'.current = s.current
      ∧ ∃ call, s'.calls[k]? = some call ∧ ∀ i, call.loaded = some i → i = s.current := by
  obtain ⟨hact, rfl⟩ := hl
  cases h with
  | load _ hloaded => exact ⟨rfl, _, List.getElem?_concat_length, hloaded⟩
  | answer hact' =>
    rcases hact with ⟨_, rfl⟩ | rfl <;> rcases hact' with ⟨_, h⟩ | ⟨_, h⟩ <;> cases h
  | store => rcases hact with ⟨_, h⟩ | h <;> cases h

theorem loaded_of_endpoint {call : ClientCall T} {v : ℕ} (h : call.endpoint count = some v) :
    ∃ i, call.loaded = some i := by
  cases call with
  | attempt _ start _ | prefer start _ _ => exact ⟨start, rfl⟩
  | submit idx | rotate idx _ => exact ⟨idx, rfl⟩
  | answered | panicked | submitted => cases h

end Step

section Runs

variable {log l₁ l₂ : List (Step T)} {f : Step T} {s : CelestiaClient T} {k i : ℕ}

/-- The preference is what was stored last since any event, or what it was then. -/
theorem current_of_run (h : (celestiaClient T count).Run (l₁ ++ f :: l₂) s) :
    s.current = ((l₁.filterMap (stored count)).head?).getD f.post.current := by
  refine h.after (I := fun l s => s.current
    = ((l.filterMap (stored count)).head?).getD f.post.current) rfl ?_
  intro l s act s' _ ih hs
  rw [current_step (steps_of_step hs), List.filterMap_cons]
  rcases stored count ⟨s, act, s'⟩ with _ | v
  · exact ih
  · rfl

/-- What a call has loaded is the preference at its load. -/
theorem loaded_of_loads (h : (celestiaClient T count).Run (l₁ ++ f :: l₂) s) (hf : loads k f)
    {call : ClientCall T} (hk : s.calls[k]? = some call) (hi : call.loaded = some i) :
    i = f.pre.current := by
  obtain ⟨-, hstep⟩ := h.of_mem rfl
  have hafter : ∃ call, s.calls[k]? = some call
      ∧ ∀ i, call.loaded = some i → i = f.pre.current := by
    refine h.after (I := fun _ s => ∃ call, s.calls[k]? = some call
      ∧ ∀ i, call.loaded = some i → i = f.pre.current)
      (post_of_loads (steps_of_step hstep) hf).2 ?_
    rintro l s act s' - ⟨call, hk, hloaded⟩ hs
    obtain ⟨call', hk', hle⟩ := loaded_step (steps_of_step hs) hk
    exact ⟨call', hk', fun i hi => hloaded i (hle i hi)⟩
  obtain ⟨call', hk', hloaded⟩ := hafter
  obtain rfl := Option.some.inj (hk.symm.trans hk')
  exact hloaded i hi

theorem exists_loads (h : (celestiaClient T count).Run log s) {call : ClientCall T}
    (hk : s.calls[k]? = some call) (hi : call.loaded = some i) :
    ∃ m₁ f m₂, log = m₁ ++ f :: m₂ ∧ loads k f := by
  have hsince : Since (loads (T := T) k) (fun _ => False) log := by
    refine h.since_of (I := fun s => ∃ call, s.calls[k]? = some call ∧ call.loaded = some i) ?_ ?_
      ⟨call, hk, hi⟩
    · rintro _ rfl ⟨call, hk, -⟩
      cases hk
    · rintro log s act s' - hs ⟨call', hk', hi'⟩
      exact (loads_step (steps_of_step hs) hk' hi').imp_right fun h => ⟨id, h⟩
  obtain ⟨m₁, f, m₂, hlog, hf, -⟩ := Since.iff_split.1 hsince
  exact ⟨m₁, f, m₂, hlog, hf⟩

/-- The preference, and the endpoint of every call, are indices of the pool. -/
theorem valid_of_run (hcount : 0 < count) (h : (celestiaClient T count).Run log s) :
    s.current < count ∧ ∀ call ∈ s.calls, ∀ j, call.endpoint count = some j → j < count := by
  refine h.invariant (I := fun _ s => s.current < count
    ∧ ∀ call ∈ s.calls, ∀ j, call.endpoint count = some j → j < count) ?_ ?_
  · rintro _ rfl
    exact ⟨hcount, by simp⟩
  · rintro log s act s' - ⟨hcur, hcalls⟩ hs
    cases steps_of_step hs with
    | load _ _ hend =>
      refine ⟨hcur, fun call hcall j hj => ?_⟩
      rcases List.mem_append.1 hcall with hcall | hcall
      · exact hcalls call hcall j hj
      · rw [List.mem_singleton.1 hcall] at hj
        exact hend j hj hcur
    | answer _ _ _ hend =>
      refine ⟨hcur, fun call hcall j hj => ?_⟩
      rcases List.mem_or_eq_of_mem_set hcall with hcall | rfl
      · exact hcalls call hcall j hj
      · exact hend j hj hcount
    | store hk hv _ hend =>
      refine ⟨hcalls _ (List.mem_of_getElem? hk) _ hv, fun call hcall j hj => ?_⟩
      rcases List.mem_or_eq_of_mem_set hcall with hcall | rfl
      · exact hcalls call hcall j hj
      · rw [hend] at hj
        cases hj

end Runs

/-- A call moves the preference only off the endpoint it loaded. -/
def Sticky (e : Step T) : Prop :=
  ∀ k call i, e.act = .store k → e.pre.calls[k]? = some call → call.loaded = some i →
    e.post.current ≠ e.pre.current → e.pre.current = i

/-- Since the load of a call that stores, the last store of another call, if there was one, was of
the endpoint it loaded, or of the one it stores itself. -/
def Undisturbed (count : ℕ) (log : List (Step T)) (e : Step T) : Prop :=
  ∀ k, e.act = .store k → ∀ m₁ f m₂, log = m₁ ++ f :: m₂ → loads k f →
    ∀ v ∈ (m₁.filterMap (stored count)).head?, v = f.pre.current ∨ stored count e = some v

/-- Every index a call uses is valid; and a step that stores keeps to what its call loaded just
when nothing else has come in between. -/
theorem preference_sticky_iff {count : ℕ} (hcount : 0 < count) {log : List (Step T)}
    {s : CelestiaClient T} (h : (celestiaClient T count).Run log s) :
    s.current < count
      ∧ (∀ call ∈ s.calls, ∀ j, call.endpoint count = some j → j < count)
      ∧ ∀ l₁ e l₂, log = l₁ ++ e :: l₂ → (Sticky e ↔ Undisturbed count l₂ e) := by
  obtain ⟨hcur, hcalls⟩ := valid_of_run hcount h
  refine ⟨hcur, hcalls, fun l₁ e l₂ hlog => ?_⟩
  obtain ⟨hrun, hstep⟩ := h.of_mem hlog
  constructor
  · rintro hsticky k hact m₁ f m₂ rfl hf v hv
    obtain ⟨pre, act, post⟩ := e
    obtain rfl : act = .store k := hact
    have hpre := current_of_run hrun
    rw [Option.mem_def.1 hv, Option.getD_some] at hpre
    have hsteps : Steps count pre (.store k) post := steps_of_step hstep
    cases hsteps with
    | load hact => rcases hact with ⟨_, h⟩ | h <;> cases h
    | answer hact => rcases hact with ⟨_, h⟩ | ⟨_, h⟩ <;> cases h
    | @store _ v' call _ hk hv' =>
      by_cases heq : v' = v
      · exact .inr (by simp [stored, hk, hv', heq])
      · obtain ⟨i, hi⟩ := loaded_of_endpoint hv'
        have hcur : pre.current = i := hsticky k call i rfl hk hi fun h => heq (h.trans hpre)
        exact .inl ((hpre.symm.trans hcur).trans (loaded_of_loads hrun hf hk hi))
  · intro hund k call i hact hk hi hne
    obtain ⟨m₁, f, m₂, rfl, hf⟩ := exists_loads hrun hk hi
    have hload : i = f.pre.current := loaded_of_loads hrun hf hk hi
    have hpre := current_of_run hrun
    rcases hlast : (m₁.filterMap (stored count)).head? with _ | v
    · rw [hlast, Option.getD_none] at hpre
      obtain ⟨-, hfstep⟩ := hrun.of_mem rfl
      rw [hpre, hload]
      exact (post_of_loads (steps_of_step hfstep) hf).1
    · rw [hlast, Option.getD_some] at hpre
      rcases hund k hact m₁ f m₂ rfl hf v hlast with hv | hv
      · rw [hpre, hv, hload]
      · have hpost := current_step (steps_of_step hstep)
        rw [show stored count ⟨e.pre, e.act, e.post⟩ = some v from hv, Option.getD_some] at hpost
        exact absurd (hpost.trans hpre.symm) hne

/-- The submission of the first call fails when a later one has failed over to the third
endpoint. -/
def lateFailure : List (Act Unit) :=
  [.submitForward, .withFailover "Balance query", .answer 1 (.error "unavailable"),
    .answer 1 (.error "unavailable"), .answer 1 (.ok ()), .store 1,
    .submission 0 (.error "timed out"), .store 0]

theorem preference_sticky_iff_three : ∃ log s, (celestiaClient Unit 3).Run log s
    ∧ s.current < 3 ∧ ∀ e ∈ log.head?, (Sticky e ↔ Undisturbed 3 log.tail e) := by
  obtain ⟨log, s, hrun, -, -⟩ := Machine.exists_run_of_exec (celestiaClient Unit 3)
    (lateFailure.take 6) ⟨0, []⟩ (fun _ _ => true) rfl (by decide +kernel)
  obtain ⟨hcur, -, hsticky⟩ := preference_sticky_iff (by decide) hrun
  refine ⟨log, s, hrun, hcur, fun e he => hsticky [] e log.tail ?_⟩
  exact (List.cons_head?_tail he).symm

/-- The third endpoint is the preference, and the late failure of the first displaces it. -/
theorem late_failure_displaces : ∃ e log s, (celestiaClient Unit 3).Run (e :: log) s
    ∧ e.pre.current = 2 ∧ s.current = 1 ∧ ¬ Sticky e := by
  obtain ⟨log, s, hrun, -, h⟩ := Machine.exists_run_of_exec (celestiaClient Unit 3)
    lateFailure ⟨0, []⟩
    (fun log s => s.current == 1 && (log.head?).any fun e => e.pre.current == 2
      && e.post.current == 1 && (match e.act with | .store 0 => true | _ => false)
      && (e.pre.calls[0]?).any fun call => call.loaded == some 0) rfl (by decide +kernel)
  simp only [Bool.and_eq_true, Option.any_eq_true, beq_iff_eq] at h
  obtain ⟨hcur, e, he, ⟨⟨hpre, hpost⟩, hact⟩, call, hk, hi⟩ := h
  refine ⟨e, log.tail, s, by rwa [List.cons_head?_tail he], hpre, hcur, fun hsticky => ?_⟩
  have hstore : e.act = .store 0 := by
    split at hact
    · assumption
    · cases hact
  have h0 := hsticky 0 call 0 hstore hk hi (by omega)
  omega

end CelestiaClient

end ForwardingRelayer
