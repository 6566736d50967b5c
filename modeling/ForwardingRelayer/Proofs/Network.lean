import ForwardingRelayer.Network
import ForwardingRelayer.Proofs.Registry
import ForwardingRelayer.Proofs.Retirement

/-!
# What a `DELETE` removes

A `DELETE` names an address, and the row it removes is whichever the address has when it is
delivered. The tick has sent it for a row of its list. That row stays until some `DELETE` for the
address is delivered, and no other can be created for the address before; so it is the row that is
removed, unless another `DELETE` has removed it since it was listed.
-/

namespace ForwardingRelayer

open RelayerState

namespace Tick

/-- What the tick works from is in the answer to its `GET`. -/
def From (l : Option Listing) : Tick → Prop
  | .fetched requests | .snapshot _ requests => ∃ L, l = some L ∧ L.requests = requests
  | t => ∀ d, t.decision = some d →
    ∃ L, l = some L ∧ ∀ a ∈ d.retired, a ∈ L.requests.map ForwardingRequest.forwardAddr

theorem mem_of_retired {env : RelayerEnv} {lastActivity : AList fun _ : String => ℤ} {now : ℤ}
    {requests : List ForwardingRequest} {a : String}
    (h : a ∈ (Decision.make env lastActivity now requests).retired) :
    a ∈ requests.map ForwardingRequest.forwardAddr := by
  obtain ⟨p, hp, rfl⟩ := List.mem_map.1 h
  obtain ⟨req, hreq, hmap⟩ := List.mem_filterMap.1 hp
  obtain ⟨reason, -, rfl⟩ := Option.map_eq_some_iff.1 hmap
  exact List.mem_map.2 ⟨req, hreq, rfl⟩

theorem from_step {env : RelayerEnv} {now : ℕ} {s s' : RelayerState} {t t' : Tick} {act : Act}
    {l : Option Listing} (h : Steps env now s t act s' t') (ht : t.From l) (hwake : act ≠ .wake)
    (hfetch : ∀ requests, act = .fetch (some requests) →
      ∃ L, l = some L ∧ L.requests = requests) : t'.From l := by
  cases h with
  | fetch => exact hfetch _ rfl
  | readTime => exact ht
  | decide =>
    obtain ⟨L, hL, hrequests⟩ := ht
    intro d hd
    obtain rfl := Option.some.inj hd
    exact ⟨L, hL, fun a ha => hrequests ▸ mem_of_retired ha⟩
  | wake => exact absurd rfl hwake
  | compare | retireNext | clear | delete | deleted | retired | pruneRetry | pruneActivity
    | pruneStore => exact ht
  | _ => exact fun d hd => by cases hd

end Tick

namespace Network

abbrev Step (ι : Type) := Event (Network ι) (Act ι)

section Events

variable {ι : Type}

/-- The row a step creates, as the `POST` is answered. -/
def created (C : Crypto) (e : Step ι) : Option ForwardingRequest :=
  match e.act with
  | .post createdAt req =>
    match (Backend.createRequest C createdAt e.pre.backend req).1 with
    | .created r => some r
    | _ => none
  | _ => none

/-- The `DELETE` a step delivers. -/
def delivered (e : Step ι) : Option (Deletion ι) :=
  match e.act with
  | .deliver n => e.pre.deletions[n]?
  | _ => none

/-- The row a step removes, as the `DELETE` is answered. -/
def removed (e : Step ι) : Option ForwardingRequest :=
  match (delivered e).map fun m => (Backend.completeRequest e.pre.backend m.addr).1 with
  | some (.removed r) => some r
  | _ => none

/-- The backend answers a relayer's `GET` with `L`. -/
def Answers (i : ι) (L : Listing) (e : Step ι) : Prop :=
  e.act = .serve i ∧ L = ⟨e.pre.served, e.pre.backend.listRequests⟩

theorem removed_eq_some {e : Step ι} {r : ForwardingRequest} :
    removed e = some r ↔ ∃ m, delivered e = some m
      ∧ (Backend.completeRequest e.pre.backend m.addr).1 = .removed r := by
  unfold removed
  rcases delivered e with _ | m
  · simp
  · simp only [Option.map_some, Option.some.injEq, exists_eq_left']
    split
    · simp_all
    · simp_all

variable [DecidableEq ι]

def relayerAct (i : ι) (e : Step ι) : Option Relayer.Act :=
  match e.act with
  | .relayer j act => if j = i then some act else none
  | _ => none

/-- A relayer's part in a step. -/
def relayerStep (i : ι) (e : Step ι) : Option Relayer.Step :=
  Machine.follow (fun s => s.relayers i) (relayerAct i) e

end Events

inductive Steps {ι : Type} [DecidableEq ι] (C : Crypto) (env : ι → RelayerEnv) (s : Network ι) :
    Act ι → Network ι → Prop
  | post {createdAt : String} {req : CreateForwardingRequest} :
      Steps C env s (.post createdAt req)
        { s with backend := (Backend.createRequest C createdAt s.backend req).2 }
  | serve {i : ι} : (s.relayers i).tick = .start → s.listing i = none →
      Steps C env s (.serve i)
        { s with
          served := s.served + 1
          listing := Function.update s.listing i (some ⟨s.served, s.backend.listRequests⟩) }
  | deliver {n : ℕ} {m : Deletion ι} : s.deletions[n]? = some m →
      Steps C env s (.deliver n)
        { s with
          backend := (Backend.completeRequest s.backend m.addr).2
          deletions := s.deletions.eraseIdx n }
  | relayer {i : ι} {act : Relayer.Act} {r : Relayer} : s.answered i act = true →
      (s.relayers i).step (env i) act = some r →
      Steps C env s (.relayer i act)
        { s with
          relayers := Function.update s.relayers i r
          listing := Function.update s.listing i (listingAfter (s.listing i) act)
          deletions := s.deletions ++ s.sent i act }

section Step

variable {ι : Type} [DecidableEq ι] {C : Crypto} {env : ι → RelayerEnv} {s s' : Network ι}
  {act : Act ι} {a : String}

theorem steps_of_step (h : s.step C env act = some s') : Steps C env s act s' := by
  cases act with
  | post => exact Option.some.inj h ▸ .post
  | serve i =>
    simp only [step] at h
    split at h
    · exact Option.some.inj h ▸ .serve ‹_› ‹_›
    · cases h
  | deliver n =>
    obtain ⟨m, hm, rfl⟩ := Option.map_eq_some_iff.1 h
    exact .deliver hm
  | relayer i act =>
    simp only [step, Option.ite_none_right_eq_some, Option.map_eq_some_iff] at h
    obtain ⟨hans, r, hr, rfl⟩ := h
    exact .relayer hans hr

theorem relayer_of_steps (h : Steps C env s act s') (i : ι) :
    (∃ ract, relayerAct i ⟨s, act, s'⟩ = some ract
        ∧ (ForwardingRelayer.relayer (env i)).step (s.relayers i) ract = some (s'.relayers i))
      ∨ (relayerAct i ⟨s, act, s'⟩ = none ∧ s'.relayers i = s.relayers i) := by
  cases h with
  | @relayer j ract r hans hr =>
    by_cases hj : j = i
    · subst hj
      exact .inl ⟨ract, by simp [relayerAct], by simpa [ForwardingRelayer.relayer] using hr⟩
    · exact .inr ⟨by simp [relayerAct, hj], Function.update_of_ne (Ne.symm hj) _ _⟩
  | _ => exact .inr ⟨rfl, rfl⟩

theorem relayerStep_of_steps (h : Steps C env s act s') (i : ι) :
    (∃ ract, relayerStep i ⟨s, act, s'⟩ = some ⟨s.relayers i, ract, s'.relayers i⟩
        ∧ Relayer.Steps (env i) (s.relayers i) ract (s'.relayers i))
      ∨ (relayerStep i ⟨s, act, s'⟩ = none ∧ s'.relayers i = s.relayers i) := by
  rcases relayer_of_steps h i with ⟨ract, hact, hstep⟩ | ⟨hnone, heq⟩
  · exact .inl ⟨ract, by simp [relayerStep, Machine.follow, hact],
      Relayer.steps_of_step hstep⟩
  · exact .inr ⟨by simp [relayerStep, Machine.follow, hnone], heq⟩

theorem relayerStep_eq_none {i : ι} (h : ∀ ract, act ≠ .relayer i ract) :
    relayerStep i ⟨s, act, s'⟩ = none := by
  cases act with
  | relayer j ract =>
    have hj : j ≠ i := fun hj => h ract (hj ▸ rfl)
    simp [relayerStep, Machine.follow, relayerAct, hj]
  | _ => rfl

end Step

/-- A row is created where its address has none. -/
theorem ne_of_created {ι : Type} {C : Crypto} {e : Step ι} {r r' : ForwardingRequest}
    (hr : r ∈ e.pre.backend.rows) (h : created C e = some r') :
    r'.forwardAddr ≠ r.forwardAddr := by
  unfold created at h
  split at h
  · rename_i createdAt req _
    rcases createRequest_cases C createdAt e.pre.backend req with
      ⟨-, h1, -⟩ | ⟨-, _, -, -, h1⟩ | ⟨-, hn, db', -, h1⟩
    · split at h
      · rename_i hans
        rw [hans] at h1
        cases h1
      · cases h
    · rw [h1] at h
      cases h
    · rw [h1] at h
      obtain rfl := Option.some.inj h
      exact fun ha => hn (List.mem_map.2 ⟨r, hr, ha.symm⟩)
  · cases h

section Step

variable {ι : Type} [DecidableEq ι] {C : Crypto} {env : ι → RelayerEnv} {s s' : Network ι}
  {act : Act ι}

/-- A row stays until a `DELETE` removes it. -/
theorem mem_rows_of_steps (h : Steps C env s act s') {r : ForwardingRequest}
    (hr : r ∈ s.backend.rows) (hno : removed ⟨s, act, s'⟩ ≠ some r) : r ∈ s'.backend.rows := by
  cases h with
  | @post createdAt req =>
    rcases createRequest_cases C createdAt s.backend req with
      ⟨-, -, -, h1⟩ | ⟨-, _, -, -, h1⟩ | ⟨-, -, db', h1, h2⟩
    · rwa [h1]
    · rwa [h1]
    · simp only [h2, h1]
      exact List.mem_append_left _ hr
  | @deliver n m hm =>
    rcases completeRequest_cases s.backend m.addr with ⟨x, -, -, db', h1, h2⟩ | ⟨-, h1⟩
    · simp only [h1]
      refine (h2 r).2 ⟨hr, ?_⟩
      rintro rfl
      exact hno (by simp [removed, delivered, hm, h1])
    · rwa [h1]
  | serve | relayer => exact hr

/-- What a step does, seen from one relayer. -/
inductive Seen (C : Crypto) (env : ι → RelayerEnv) (i : ι) (s : Network ι) (act : Act ι)
    (s' : Network ι) : Prop
  | serve : act = .serve i → (s.relayers i).tick = .start → s.listing i = none →
      s'.relayers i = s.relayers i →
      s'.listing i = some ⟨s.served, s.backend.listRequests⟩ → Seen C env i s act s'
  | relayer {ract : Relayer.Act} : act = .relayer i ract → s.answered i ract = true →
      Relayer.Steps (env i) (s.relayers i) ract (s'.relayers i) →
      s'.listing i = listingAfter (s.listing i) ract → Seen C env i s act s'
  | other : act ≠ .serve i → (∀ ract, act ≠ .relayer i ract) → s'.relayers i = s.relayers i →
      s'.listing i = s.listing i → Seen C env i s act s'

theorem seen_of_steps (h : Steps C env s act s') (i : ι) : Seen C env i s act s' := by
  cases h with
  | post | deliver => exact .other (by simp) (by simp) rfl rfl
  | @serve j hstart hnone =>
    by_cases hj : j = i
    · subst hj
      exact .serve rfl hstart hnone rfl (Function.update_self _ _ _)
    · exact .other (by simp [hj]) (by simp) rfl (Function.update_of_ne (Ne.symm hj) _ _)
  | @relayer j ract r hans hr =>
    by_cases hj : j = i
    · subst hj
      refine .relayer rfl hans ?_ (Function.update_self _ _ _)
      simp only [Function.update_self]
      exact Relayer.steps_of_step hr
    · exact .other (by simp) (by simp [hj]) (Function.update_of_ne (Ne.symm hj) _ _)
        (Function.update_of_ne (Ne.symm hj) _ _)

end Step

section Runs

variable {ι : Type} [DecidableEq ι] {C : Crypto} {env : ι → RelayerEnv} {s s' : Network ι}
  {act : Act ι} {log l₁ l₂ : List (Step ι)} {a : String}

theorem relayer_run (h : (network C env).Run log s) (i : ι) :
    (ForwardingRelayer.relayer (env i)).Run (log.filterMap (relayerStep i)) (s.relayers i) := by
  have hinit : ∀ s : Network ι, (network C env).init s →
      (ForwardingRelayer.relayer (env i)).init (s.relayers i) := fun _ hs => hs.2.1 i
  exact h.follow (f := fun s : Network ι => s.relayers i) hinit
    fun _ _ _ hs => relayer_of_steps (steps_of_step hs) i

/-- What is known of the lists in use, and of those the `DELETE`s on their way are from. -/
structure Known (log : List (Step ι)) (s : Network ι) : Prop where
  listing : ∀ i L, s.listing i = some L → ∃ g ∈ log, Answers i L g
  tick : ∀ i, (s.relayers i).tick.From (s.listing i)
  deletions : ∀ m ∈ s.deletions, ∃ L, m.listing = some L ∧ (∃ g ∈ log, Answers m.relayer L g)
    ∧ m.addr ∈ L.requests.map ForwardingRequest.forwardAddr

theorem from_of_steps {r r' : Relayer} {renv : RelayerEnv} {l : Option Listing}
    {act : Relayer.Act} (h : Relayer.Steps renv r act r') (hr : r.tick.From l)
    (hfetch : ∀ requests, act = .tick (.fetch (some requests)) →
      ∃ L, l = some L ∧ L.requests = requests) : r'.tick.From (listingAfter l act) := by
  rcases Relayer.tick_cases h with ⟨tact, rfl, ht⟩ | ⟨ht, -, h1, h2⟩ | ⟨ht, -⟩
  · by_cases hwake : tact = .wake
    · subst hwake
      generalize r.tick = t, r'.tick = t', r'.shared = shared' at ht
      cases ht
      exact fun d hd => by cases hd
    · have hl : listingAfter l (.tick tact) = l := by
        cases tact <;> first | rfl | exact absurd rfl hwake
      rw [hl]
      exact Tick.from_step ht hr hwake fun requests hact => hfetch requests (by rw [hact])
  · have hl : listingAfter l act = l := by
      cases act with
      | tick tact => exact absurd rfl (h1 tact)
      | crash r a => exact absurd rfl (h2 r a)
      | _ => rfl
    rwa [hl, ht]
  · rw [ht]
    exact fun d hd => by cases hd

theorem listing_of_after {l : Option Listing} {L : Listing} {act : Relayer.Act}
    (h : listingAfter l act = some L) : l = some L := by
  unfold listingAfter at h
  split at h
  · cases h
  · cases h
  · exact h

omit [DecidableEq ι] in
theorem addr_mem_of_sent {i : ι} {act : Relayer.Act} {m : Deletion ι}
    (hr : (ForwardingRelayer.relayer (env i)).Reachable (s.relayers i))
    (ht : (s.relayers i).tick.From (s.listing i)) (hm : m ∈ s.sent i act) :
    m.relayer = i ∧ m.listing = s.listing i ∧ ∃ L, s.listing i = some L
      ∧ m.addr ∈ L.requests.map ForwardingRequest.forwardAddr := by
  unfold sent at hm
  split at hm
  · split at hm
    · rename_i d newly addr rest htick
      obtain rfl := List.mem_singleton.1 hm
      have hdec : (s.relayers i).tick.decision = some d := by rw [htick]; rfl
      have hret := Relayer.retired_of_condemned hr d hdec addr
        (by rw [htick]; exact List.mem_cons_self)
      rw [htick] at ht
      obtain ⟨L, hL, hall⟩ := ht d rfl
      exact ⟨rfl, rfl, L, hL, hall addr hret⟩
    · cases hm
  · cases hm

theorem known_step (hr : (network C env).Run log s) (h : Steps C env s act s')
    (hk : Known log s) : Known (⟨s, act, s'⟩ :: log) s' := by
  have hmono : ∀ {i : ι} {L : Listing}, (∃ g ∈ log, Answers i L g) →
      ∃ g ∈ (⟨s, act, s'⟩ : Step ι) :: log, Answers i L g := by
    rintro i L ⟨g, hg, hans⟩
    exact ⟨g, List.mem_cons_of_mem _ hg, hans⟩
  have hdel : ∀ m ∈ s.deletions, ∃ L, m.listing = some L
      ∧ (∃ g ∈ (⟨s, act, s'⟩ : Step ι) :: log, Answers m.relayer L g)
      ∧ m.addr ∈ L.requests.map ForwardingRequest.forwardAddr := by
    intro m hm
    obtain ⟨L, hL, hg, ha⟩ := hk.deletions m hm
    exact ⟨L, hL, hmono hg, ha⟩
  refine ⟨fun i L hL => ?_, fun i => ?_, ?_⟩
  · cases seen_of_steps h i with
    | serve hact _ _ _ hl =>
      rw [hl, Option.some.injEq] at hL
      exact ⟨_, List.mem_cons_self, hact, hL.symm⟩
    | relayer _ _ _ hl =>
      rw [hl] at hL
      exact hmono (hk.listing i L (listing_of_after hL))
    | other _ _ _ hl => exact hmono (hk.listing i L (hl ▸ hL))
  · cases seen_of_steps h i with
    | serve _ hstart _ hrel hl =>
      rw [hrel, hstart]
      exact fun d hd => by cases hd
    | relayer _ hans hsteps hl =>
      rw [hl]
      refine from_of_steps hsteps (hk.tick i) fun requests hact => ?_
      subst hact
      obtain ⟨L, hL, heq⟩ := (Option.any_eq_true _ _).1 hans
      exact ⟨L, hL, eq_of_beq heq⟩
    | other _ _ hrel hl =>
      rw [hrel, hl]
      exact hk.tick i
  · cases h with
    | post | serve => exact hdel
    | deliver hm => exact fun m hm => hdel m ((List.eraseIdx_sublist _ _).subset hm)
    | @relayer i ract r hans hrelayer =>
      intro m hm
      rcases List.mem_append.1 hm with hm | hm
      · exact hdel m hm
      · obtain ⟨hi, hl, L, hL, ha⟩ :=
          addr_mem_of_sent (relayer_run hr i).reachable (hk.tick i) hm
        rw [hi]
        exact ⟨L, hl.trans hL, hmono (hk.listing i L hL), ha⟩

theorem known_of_run (h : (network C env).Run log s) : Known log s := by
  refine h.invariant (I := Known) ?_ fun _ _ _ _ hr hk hs => known_step hr (steps_of_step hs) hk
  rintro s ⟨-, hinit, hl, hd⟩
  refine ⟨fun i L hL => ?_, fun i => ?_, fun m hm => ?_⟩
  · rw [hl] at hL
    cases hL
  · obtain ⟨_, _, _, _, _, hs⟩ := hinit i
    rw [hs]
    exact fun d hd => by cases hd
  · rw [hd] at hm
    cases hm

/-- From the listing on, unless a `DELETE` removes the row. -/
theorem row_since {g : Step ι} {r : ForwardingRequest} (h : (network C env).Run (l₁ ++ g :: l₂) s)
    (hr : r ∈ g.post.backend.rows) (hno : ∀ x ∈ l₁, removed x ≠ some r) :
    r ∈ s.backend.rows ∧ ∀ x ∈ l₁, ∀ r' ∈ created C x, r'.forwardAddr ≠ r.forwardAddr := by
  refine h.after (I := fun l s => (∀ x ∈ l, removed x ≠ some r) → r ∈ s.backend.rows
    ∧ ∀ x ∈ l, ∀ r' ∈ created C x, r'.forwardAddr ≠ r.forwardAddr) ?_ ?_ hno
  · exact fun _ => ⟨hr, by simp⟩
  · intro l s act s' _ ih hs hno
    rw [List.forall_mem_cons] at hno ⊢
    obtain ⟨hmem, hnew⟩ := ih hno.2
    exact ⟨mem_rows_of_steps (steps_of_step hs) hmem hno.1, fun _ => ne_of_created hmem, hnew⟩

end Runs

/-- A `DELETE` removes the very row that its tick had listed, and none has been created for the
address since, unless another `DELETE` has removed that row in between. -/
theorem retirement_removes_listed {ι : Type} [DecidableEq ι] {C : Crypto}
    {env : ι → RelayerEnv} {l₁ l₂ : List (Step ι)} {e : Step ι} {m : Deletion ι} {s : Network ι}
    (h : (network C env).Run (l₁ ++ e :: l₂) s) (hm : delivered e = some m) :
    ∃ L l₃ g l₄ r, m.listing = some L ∧ l₂ = l₃ ++ g :: l₄ ∧ Answers m.relayer L g
      ∧ r ∈ L.requests ∧ r.forwardAddr = m.addr
      ∧ ((∃ x ∈ l₃, removed x = some r)
        ∨ ((∀ x ∈ l₃, ∀ r' ∈ created C x, r'.forwardAddr ≠ m.addr) ∧ removed e = some r)) := by
  obtain ⟨hrun, hstep⟩ := h.of_mem rfl
  have hmem : m ∈ e.pre.deletions := by
    unfold delivered at hm
    split at hm
    · exact List.mem_of_getElem? hm
    · cases hm
  obtain ⟨L, hL, ⟨g, hg, hans⟩, ha⟩ := (known_of_run hrun).deletions m hmem
  obtain ⟨l₃, l₄, rfl⟩ := List.append_of_mem hg
  obtain ⟨r, hr, hra⟩ := List.mem_map.1 ha
  refine ⟨L, l₃, g, l₄, r, hL, rfl, hans, hr, hra, ?_⟩
  by_cases hother : ∃ x ∈ l₃, removed x = some r
  · exact .inl hother
  · have hrow : r ∈ g.post.backend.rows := by
      obtain ⟨hact, rfl⟩ := hans
      have hmem := BackendStorage.mem_listRequests.1 hr
      have hserve := steps_of_step (hrun.of_mem rfl).2
      rw [hact] at hserve
      generalize g.post = s' at hserve ⊢
      cases hserve
      exact hmem
    obtain ⟨hkept, hnew⟩ := row_since hrun hrow fun x hx hrem => hother ⟨x, hx, hrem⟩
    refine .inr ⟨hra ▸ hnew, removed_eq_some.2 ⟨m, hm, ?_⟩⟩
    rcases completeRequest_cases e.pre.backend m.addr with ⟨x, hx, hxa, db', h1, -⟩ | ⟨hn, -⟩
    · rw [h1, BackendStorage.eq_of_forwardAddr_eq _ hx hkept (hxa.trans hra.symm)]
    · exact absurd (List.mem_map.2 ⟨r, hkept, hra⟩) hn

/-- No `DELETE` removes a row that was created after its tick was given its list. -/
def RemovesNoNewer {ι : Type} (C : Crypto) (log : List (Step ι)) : Prop :=
  ∀ l₁ e l₂ m L l₃ g l₄, log = l₁ ++ e :: l₂ → delivered e = some m → m.listing = some L →
    l₂ = l₃ ++ g :: l₄ → Answers m.relayer L g →
    (∃ x ∈ l₃, ∃ r ∈ created C x, r.forwardAddr = m.addr) → removed e = none

section Example

/-- The limits are a minute, and requests are created as the year begins. -/
def networkEnv : RelayerEnv := Relayer.exampleEnv 60 60

/-- All relayers start at the same time, over empty stores. -/
def networkStart {ι : Type} (now : ℕ) : Network ι where
  backend := .empty
  served := 0
  relayers _ := .new networkEnv now ⟨∅, ∅⟩ none true true
  listing _ := none
  deletions := []

def postPlain {ι : Type} : Act ι := .post "2025-01-01T00:00:00+00:00" plainRequest

def postedRow : ForwardingRequest := BackendStorage.rowOf "2025-01-01T00:00:00+00:00" plainRequest

def postsPlain {ι : Type} : Act ι → Bool
  | .post _ req => req == plainRequest
  | _ => true

/-- What derives the plain request's address as the standard does, without the hashing. -/
def plainCrypto : Crypto where
  sha256 _ := []
  bech32 _ := plainRequest.forwardAddr

theorem createRequest_plain (createdAt : String) (db : BackendStorage) :
    Backend.createRequest .standard createdAt db plainRequest
      = Backend.createRequest plainCrypto createdAt db plainRequest := by
  have h : deriveForwardingAddress .standard plainRequest.destDomain plainRequest.destRecipient
      plainRequest.tokenId plainRequest.customHookId plainRequest.customHookMetadata
      = .ok plainRequest.forwardAddr := plainArgs_derive
  have h' : deriveForwardingAddress plainCrypto plainRequest.destDomain plainRequest.destRecipient
      plainRequest.tokenId plainRequest.customHookId plainRequest.customHookMetadata
      = .ok plainRequest.forwardAddr := by decide +kernel
  unfold Backend.createRequest
  rw [h, h']

theorem created_plain {ι : Type} {e : Step ι} (h : postsPlain e.act = true) :
    created .standard e = created plainCrypto e := by
  unfold created
  split
  · rename_i createdAt req hact
    rw [hact] at h
    obtain rfl := eq_of_beq h
    rw [createRequest_plain]
  · rfl

theorem exists_run_of_posts {ι : Type} [DecidableEq ι] (as : List (Act ι)) (now : ℕ)
    (p : List (Step ι) → Network ι → Bool) (hposts : as.all postsPlain = true)
    (h : ((network plainCrypto fun _ : ι => networkEnv).exec as [] (networkStart now)).any
      (fun r => p r.1 r.2) = true) :
    ∃ log s, (network .standard fun _ : ι => networkEnv).Run log s ∧ p log s = true := by
  have hexec : (network plainCrypto fun _ : ι => networkEnv).exec as [] (networkStart now)
      = (network .standard fun _ : ι => networkEnv).exec as [] (networkStart now) := by
    refine Machine.exec_congr (fun act hact s => ?_) _ _
    cases act with
    | post createdAt req =>
      obtain rfl := eq_of_beq (List.all_eq_true.1 hposts _ hact)
      simp only [network, step, createRequest_plain]
    | _ => rfl
  rw [hexec] at h
  have hinit : (network .standard fun _ : ι => networkEnv).init (networkStart now) :=
    ⟨rfl, fun _ => ⟨_, _, _, _, _, rfl⟩, fun _ => rfl, rfl⟩
  obtain ⟨log, s, hrun, -, hp⟩ := Machine.exists_run_of_exec _ as (networkStart now) p hinit h
  exact ⟨log, s, hrun, hp⟩

/-- A relayer's tick lists the row, decides to retire it and sends the `DELETE`. -/
def retiringTick {ι : Type} (i : ι) : List (Act ι) :=
  .serve i :: ([.tick (.fetch (some [postedRow])), .tick .readTime, .tick .decide,
    .tick (.compare []), .tick .retireNext, .tick (.clear true), .tick (.clear true),
    .tick (.clear true), .tick (.clear true), .tick .delete] : List Relayer.Act).map (.relayer i)

/-- Both relayers retire the row; between their `DELETE`s it is posted again. -/
def retiredTwice : List (Act Bool) :=
  postPlain :: (retiringTick false ++ retiringTick true ++ [.deliver 0, postPlain, .deliver 0])

/-- The last step removes the posted row by a `DELETE` of its address, and the step before it
creates the row. -/
def removesRecreated : List (Step Bool) → Bool
  | e :: x :: _ => (delivered e).any (fun m => m.addr == postedRow.forwardAddr)
    && postsPlain x.act && created plainCrypto x == some postedRow && removed e == some postedRow
  | _ => false

theorem retiredTwice_run : ∃ (e x : Step Bool) (log : List (Step Bool)) (s : Network Bool)
    (m : Deletion Bool), (network .standard fun _ : Bool => networkEnv).Run (e :: x :: log) s
      ∧ delivered e = some m ∧ m ∈ x.pre.deletions ∧ m.addr = postedRow.forwardAddr
      ∧ created .standard x = some postedRow ∧ removed e = some postedRow := by
  obtain ⟨log, s, hrun, h⟩ := exists_run_of_posts retiredTwice (1735689661 * 10 ^ 9)
    (fun log _ => removesRecreated log) rfl (by decide +kernel)
  unfold removesRecreated at h
  split at h
  · rename_i e x log
    simp only [Bool.and_eq_true, Option.any_eq_true, beq_iff_eq] at h
    obtain ⟨⟨⟨⟨m, hm, ha⟩, hplain⟩, hcreated⟩, hremoved⟩ := h
    refine ⟨e, x, log, s, m, hrun, hm, ?_, ha, (created_plain hplain).trans hcreated, hremoved⟩
    have hlog : e :: x :: log = [e] ++ x :: log := rfl
    have hstep := steps_of_step (hrun.of_mem hlog).2
    have hpre : e.pre = x.post := by
      cases hrun with
      | step hrun => cases hrun; rfl
    unfold delivered at hm
    split at hm
    · rw [hpre] at hm
      unfold created at hcreated
      split at hcreated
      · rename_i hact
        rw [hact] at hstep
        generalize x.post = t at hstep hm
        cases hstep
        exact List.mem_of_getElem? hm
      · cases hcreated
    · cases hm
  · cases h

/-- The first relayer's `DELETE` removes the row both have listed. It is posted again, and answered
with 201, before the second's is delivered and removes it. -/
theorem newer_row_removed : ∃ log s, (network .standard fun _ : Bool => networkEnv).Run log s
    ∧ ¬ RemovesNoNewer .standard log := by
  obtain ⟨e, x, log, s, m, hrun, hm, hmem, ha, hcreated, hremoved⟩ := retiredTwice_run
  have hlog : e :: x :: log = [e] ++ x :: log := rfl
  refine ⟨_, s, hrun, fun hno => ?_⟩
  obtain ⟨L, hL, ⟨g, hg, hans⟩, -⟩ := (known_of_run (hrun.of_mem hlog).1).deletions m hmem
  obtain ⟨l₃, l₄, rfl⟩ := List.append_of_mem hg
  have hnone := hno [] e (x :: (l₃ ++ g :: l₄)) m L (x :: l₃) g l₄ rfl hm hL rfl hans
    ⟨x, List.mem_cons_self, postedRow, hcreated, ha.symm⟩
  rw [hnone] at hremoved
  cases hremoved

theorem retirement_removes_listed_twice :
    ∃ (e x : Step Bool) (log : List (Step Bool)) (m : Deletion Bool),
      delivered e = some m ∧ removed e = some postedRow
        ∧ ∃ L l₃ g l₄ r, m.listing = some L ∧ x :: log = l₃ ++ g :: l₄ ∧ Answers m.relayer L g
          ∧ r ∈ L.requests ∧ r.forwardAddr = m.addr
          ∧ ((∃ x ∈ l₃, removed x = some r)
            ∨ ((∀ x ∈ l₃, ∀ r' ∈ created .standard x, r'.forwardAddr ≠ m.addr)
              ∧ removed e = some r)) := by
  obtain ⟨e, x, log, s, m, hrun, hm, -, -, -, hremoved⟩ := retiredTwice_run
  have hlog : (network .standard fun _ : Bool => networkEnv).Run ([] ++ e :: x :: log) s := hrun
  exact ⟨e, x, log, m, hm, hremoved, retirement_removes_listed hlog hm⟩

end Example

end Network

end ForwardingRelayer
