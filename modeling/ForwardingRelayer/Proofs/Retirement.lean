import ForwardingRelayer.Proofs.Calls

/-!
# What a retirement rests on

A tick retires by what it has decided from one reading of the clock and one snapshot of the
activity. What is still to be forwarded for the address plays no part in it, and is dropped: its
entry goes before the `DELETE`, and its triggers find the address out of the live list once the
tick has swapped.
-/

namespace ForwardingRelayer

open RelayerState

def Decision.retired (d : Decision) : List String := d.toRetire.map fun p => p.1.forwardAddr

namespace Tick

/-- What the tick has decided, up to its swap. -/
def decision : Tick → Option Decision
  | .compare d | .retire d _ _ | .clear d _ _ _ _ | .deleting d _ _ | .pruneRetry d _
  | .pruneActivity d _ | .pruneStore d _ | .swap d _ => some d
  | _ => none

def condemned : Tick → List String
  | .compare d => d.retired
  | .retire _ _ rest | .deleting _ _ rest => rest.map fun p => p.1.forwardAddr
  | .clear _ _ addr _ rest => addr :: rest.map fun p => p.1.forwardAddr
  | _ => []

/-- The address whose entry is gone, its `DELETE` being next or close. -/
def cleared : Tick → Option String
  | .clear _ _ _ (.removeRetry :: _) _ => none
  | .clear _ _ addr _ _ => some addr
  | _ => none

/-- What is left to clear, where an address is being cleared. -/
def Clearing : Tick → Prop
  | .clear _ _ _ ops _ => ops <:+ clearRetryState ++ clearActivity
  | _ => True

section Step

variable {env : RelayerEnv} {now : ℕ} {s s' : RelayerState} {t t' : Tick} {act : Act}

theorem decision_step (h : Steps env now s t act s' t') (hact : act ≠ .decide) {d : Decision}
    (hd : t'.decision = some d) :
    t.decision = some d ∧ ∀ a ∈ t'.condemned, a ∈ t.condemned := by
  cases h with
  | decide => exact absurd rfl hact
  | compare => exact ⟨hd, fun a ha => ha⟩
  | retireNext => exact ⟨hd, fun a ha => ha⟩
  | clear => exact ⟨hd, fun a ha => ha⟩
  | delete => exact ⟨hd, fun a ha => List.mem_cons_of_mem _ ha⟩
  | deleted => exact ⟨hd, fun a ha => ha⟩
  | retired | pruneRetry | pruneActivity | pruneStore =>
    exact ⟨hd, fun a ha => absurd ha List.not_mem_nil⟩
  | _ => cases hd

theorem decision_keep (h : Steps env now s t act s' t') (hact : act ≠ .swap) {d : Decision}
    (hd : t.decision = some d) : t'.decision = some d := by
  cases h with
  | swap => exact absurd rfl hact
  | compare | retireNext | clear | delete | deleted | retired | pruneRetry | pruneActivity
    | pruneStore => exact hd
  | _ => cases hd

theorem runOp_clearing {op : Op} {stored : Bool} {addr : String}
    (hop : op ∈ clearRetryState ++ clearActivity) : (s.runOp now stored addr op).2 = [] := by
  simp only [clearRetryState, clearActivity, List.cons_append, List.nil_append, List.mem_cons,
    List.not_mem_nil, or_false] at hop
  rcases hop with rfl | rfl | rfl | rfl <;> rfl

theorem clearing_step (h : Steps env now s t act s' t') (ht : t.Clearing) : t'.Clearing := by
  cases h with
  | retireNext => exact List.suffix_refl _
  | @clear d newly addr op ops rest stored =>
    simp only [Clearing, runOp_clearing (ht.subset List.mem_cons_self), List.nil_append]
    exact (List.suffix_cons op ops).trans ht
  | _ => trivial

end Step

end Tick

namespace Relayer

/-- The tick comes to the decision `d`, by the clock it has read and the activity of the moment. -/
def Decides (env : RelayerEnv) (d : Decision) (e : Step) : Prop :=
  e.act = .tick .decide ∧ ∃ requests, e.pre.tick = .snapshot d.now requests
    ∧ d = .make env e.pre.shared.lastActivity d.now requests

/-- A tick decides, or is lost with the process. -/
def redecides (e : Step) : Bool :=
  match e.act with
  | .tick .decide | .crash _ _ => true
  | _ => false

def retires (e : Step) : Option String :=
  match e.act, e.pre.tick with
  | .tick .delete, .clear _ _ addr [] _ => some addr
  | _, _ => none

def crashes (e : Step) : Bool :=
  match e.act with
  | .crash _ _ => true
  | _ => false

/-- A tick swaps, or is lost with the process. -/
def swaps (e : Step) : Bool :=
  match e.act with
  | .tick .swap | .crash _ _ => true
  | _ => false

theorem retires_cases {e : Step} {a : String} (h : retires e = some a) :
    ∃ d newly rest, e.act = .tick .delete ∧ e.pre.tick = .clear d newly a [] rest := by
  unfold retires at h
  split at h
  · rename_i d newly addr rest hact ht
    obtain rfl := Option.some.inj h
    exact ⟨d, newly, rest, hact, ht⟩
  · cases h

/-- The tick takes `a`'s entry away, before the `DELETE`. -/
def dropsRetry (a : String) (e : Step) : Bool :=
  match e.act, e.pre.tick with
  | .tick (.clear _), .clear _ _ addr (.removeRetry :: _) _ => addr == a
  | _, _ => false

end Relayer

def Call.nextOp : Call → Option Op
  | .record _ (op :: _) | .close _ (op :: _) => some op
  | _ => none

namespace Relayer

/-- `forward_address(a)` puts an entry in. -/
def notesRetry (a : String) (e : Step) : Bool :=
  match e.act with
  | .forward i (.go _) =>
    match (e.pre.callAt a i).bind Call.nextOp with
    | some (.insertRetry _) => true
    | _ => false
  | _ => false

section Runs

variable {env : RelayerEnv} {log : List Step} {s s' : Relayer} {act : Act} {a : String}

theorem act_of_redecides (e : Step) (h : redecides e) :
    (∃ tact, e.act = .tick tact) ∨ ∃ r a, e.act = .crash r a := by
  unfold redecides at h
  split at h
  · exact .inl ⟨_, ‹_›⟩
  · exact .inr ⟨_, _, ‹_›⟩
  · cases h

theorem decides_of_run (h : (relayer env).Run log s) {d : Decision} :
    s.tick.decision = some d → Since (Decides env d) (fun e => redecides e) log := by
  refine tick_since_of (I := fun t => t.decision = some d) (by simp [Tick.decision])
    act_of_redecides ?_ h
  intro s s' tact ht hd
  by_cases hdec : tact = .decide
  · subst hdec
    generalize hpre : s.tick = t, s'.tick = t', s'.shared = shared' at ht hd
    cases ht with
    | @decide now requests =>
      obtain rfl := Option.some.inj hd
      exact .inl ⟨rfl, requests, hpre, rfl⟩
  · refine .inr ⟨?_, (Tick.decision_step ht hdec hd).1⟩
    cases tact <;> simp [redecides] at hdec ⊢

theorem retired_of_condemned (h : (relayer env).Reachable s) :
    ∀ d, s.tick.decision = some d → ∀ a ∈ s.tick.condemned, a ∈ d.retired := by
  refine tick_invariant (I := fun t => ∀ d, t.decision = some d → ∀ a ∈ t.condemned,
    a ∈ d.retired) (by simp [Tick.decision]) ?_ h
  intro s s' tact ht ih d hd a ha
  by_cases hdec : tact = .decide
  · subst hdec
    generalize s.tick = t, s'.tick = t', s'.shared = shared' at ht hd ha
    cases ht
    obtain rfl := Option.some.inj hd
    exact ha
  · obtain ⟨hd', hc⟩ := Tick.decision_step ht hdec hd
    exact ih d hd' a (hc a ha)

theorem clearing_of_reachable (h : (relayer env).Reachable s) : s.tick.Clearing :=
  tick_invariant (I := Tick.Clearing) trivial (fun _ _ _ => Tick.clearing_step) h

theorem dropped_of_run (h : (relayer env).Run log s) :
    s.tick.cleared = some a → Since (fun e => dropsRetry a e) (fun e => redecides e) log := by
  refine tick_since_of (I := fun t => t.cleared = some a) (by simp [Tick.cleared])
    act_of_redecides ?_ h
  intro s s' tact ht hc
  generalize hpre : s.tick = t, s'.tick = t', s'.shared = shared' at ht hc
  cases ht with
  | @clear d newly addr op ops rest stored =>
    have haddr : addr = a := by
      unfold Tick.cleared at hc
      split at hc <;> simp_all
    by_cases hop : op = .removeRetry
    · exact .inl (by simp [dropsRetry, hpre, hop, haddr])
    · refine .inr ⟨by simp [redecides], ?_⟩
      rw [haddr]
      cases op <;> first | exact absurd rfl hop | rfl
  | retireNext => cases hc
  | _ => cases hc

theorem not_mem_of_dropsRetry (h : Steps env s act s') (hd : dropsRetry a ⟨s, act, s'⟩) :
    a ∉ s'.shared.retryState := by
  unfold dropsRetry at hd
  split at hd
  · rename_i hact ht
    simp only [] at hact ht hd
    rw [hact] at h
    have hstep := tick_steps h
    rw [ht] at hstep
    generalize s'.tick = t', s'.shared = shared' at hstep ⊢
    cases hstep
    rw [beq_iff_eq] at hd
    simp [runOp, hd]
  · cases hd

theorem eq_insertRetry_of_runOp {s : RelayerState} {now : ℤ} {stored : Bool} {addr : String}
    {op : Op} (hn : a ∉ s.retryState) (ha : a ∈ (s.runOp now stored addr op).1.retryState) :
    ∃ state, op = .insertRetry state := by
  cases op with
  | insertRetry state => exact ⟨state, rfl⟩
  | removeRetry => exact absurd (AList.mem_erase.1 ha).2 hn
  | storeActivity | deleteActivity | storeRetry | deleteRetry =>
    cases stored <;> exact absurd ha hn
  | _ => exact absurd ha hn

/-- Within a process entries come from calls only. -/
theorem notesRetry_of_mem (hr : (relayer env).Run log s) (h : Steps env s act s')
    (hcrash : ∀ r b, act ≠ .crash r b) (hn : a ∉ s.shared.retryState)
    (ha : a ∈ s'.shared.retryState) : notesRetry a ⟨s, act, s'⟩ := by
  have hsame : s'.shared.retryState.lookup a = s.shared.retryState.lookup a → False := by
    intro heq
    rw [← AList.lookup_isSome, heq, AList.lookup_isSome] at ha
    exact hn ha
  cases seen_of_steps hr.reachable h a with
  | @call i call call' input hact hat _ _ hcall _ _ =>
    generalize s'.shared = shared' at hcall ha hsame
    cases hcall with
    | record | close =>
      obtain ⟨state, rfl⟩ := eq_insertRetry_of_runOp hn ha
      simp [notesRetry, hact, hat, Call.nextOp]
    | _ => exact (hsame rfl).elim
  | start _ _ _ hshared => exact (hsame (by rw [hshared])).elim
  | finish _ _ _ _ hshared => exact (hsame (by rw [hshared])).elim
  | tick _ ht =>
    have hclear := clearing_of_reachable hr.reachable
    generalize s.tick = t, s'.tick = t', s'.shared = shared' at ht ha hclear hsame
    cases ht with
    | clear =>
      obtain ⟨state, rfl⟩ := eq_insertRetry_of_runOp hn ha
      have hmem := hclear.subset List.mem_cons_self
      simp [clearRetryState, clearActivity] at hmem
    | pruneRetry =>
      rw [← AList.lookup_isSome, AList.lookup_retain] at ha
      split at ha
      · exact absurd (AList.lookup_isSome.1 ha) hn
      · cases ha
    | _ => exact (hsame rfl).elim
  | other _ _ _ hs => exact (hsame hs.retryState).elim
  | crash hact => exact absurd hact (hcrash _ _)

/-- An entry that is there after the tick has taken it away was put in by a call since. -/
theorem noted_of_run (h : (relayer env).Run log s) :
    Since (fun e => dropsRetry a e) (fun e => crashes e) log → a ∈ s.shared.retryState →
      Since (fun e => notesRetry a e) (fun e => dropsRetry a e) log := by
  refine h.since (I := fun log s => a ∈ s.shared.retryState →
    Since (fun e => notesRetry a e) (fun e => dropsRetry a e) log) ?_ ?_
  · intro log s act s' _ hs hd ha
    exact absurd ha (not_mem_of_dropsRetry (steps_of_step hs) hd)
  · intro log s act s' hr ih hs hcrash ha
    have hstep := steps_of_step hs
    by_cases hn : a ∈ s.shared.retryState
    · exact .inr ⟨fun hdrop => not_mem_of_dropsRetry hstep hdrop ha, ih hn⟩
    · refine .inl (notesRetry_of_mem hr hstep ?_ hn ha)
      rintro r b rfl
      exact hcrash rfl

/-- A `DELETE` is for an address of the tick's decision, which the tick works off up to its swap. -/
theorem decision_of_retires (h : (relayer env).Run log s) :
    Since (fun e => retires e = some a) (fun e => swaps e) log →
      ∃ d, s.tick.decision = some d ∧ a ∈ d.retired := by
  refine h.since (I := fun _ s => ∃ d, s.tick.decision = some d ∧ a ∈ d.retired) ?_ ?_
  · intro log s act s' hr hs hret
    obtain ⟨d, newly, rest, hact, ht⟩ := retires_cases hret
    simp only [] at hact ht
    have hdec : s.tick.decision = some d := by rw [ht]; rfl
    have hstep := steps_of_step hs
    rw [hact] at hstep
    refine ⟨d, Tick.decision_keep (tick_steps hstep) (by simp) hdec, ?_⟩
    exact retired_of_condemned hr.reachable d hdec a (by rw [ht]; exact List.mem_cons_self)
  · rintro log s act s' hr ⟨d, hdec, hmem⟩ hs hswap
    refine ⟨d, ?_, hmem⟩
    rcases tick_cases (steps_of_step hs) with ⟨tact, rfl, ht⟩ | ⟨ht, -⟩ | ⟨-, -, r, b, rfl⟩
    · refine Tick.decision_keep ht ?_ hdec
      rintro rfl
      exact hswap rfl
    · rwa [ht]
    · exact absurd rfl hswap

theorem not_mem_kept {d : Decision} {Q : Step → Prop} (h : Since (Decides env d) Q log)
    (ha : a ∈ d.retired) : a ∉ d.kept := by
  obtain ⟨l₁, e, l₂, -, ⟨-, requests, -, hd⟩, -⟩ := Since.iff_split.1 h
  intro hk
  have hr : d.retired = (Decision.retire env e.pre.shared.lastActivity d.now requests).map
      fun p => p.1.forwardAddr := congrArg Decision.retired hd
  rw [hr] at ha
  rw [hd] at hk
  exact (Decision.mem_keep.1 hk).2 ha

/-- Out of the list, an address is out of it until a swap adds it. -/
theorem absent_of_run (h : (relayer env).Run log s) :
    Since (fun e => a ∉ e.post.shared.live) (enters a) log → a ∉ s.shared.live := by
  refine h.since (I := fun _ s => a ∉ s.shared.live) ?_ ?_
  · exact fun log s act s' _ _ hn => hn
  · intro log s act s' _ hn _ henter ha
    exact henter ⟨hn, ha⟩

end Runs

/-- By the timers, one of the listed requests for `a` is to be retired. -/
def Outlived (env : RelayerEnv) (a : String) (e : Step) : Prop :=
  e.act = .tick .decide ∧ ∃ now requests, e.pre.tick = .snapshot now requests
    ∧ ∃ req ∈ requests, req.forwardAddr = a ∧ ∃ reason,
      retirementReason env.chrono.parseFromRfc3339 req.createdAt
        ((e.pre.shared.lastActivity.lookup a).map UtcTime.ofNanos) (.ofNanos now)
        env.config.maxRequestAgeSeconds env.config.maxAddressInactivitySeconds = some reason

theorem outlived_of_decides {env : RelayerEnv} {a : String} {d : Decision} {e : Step}
    (h : Decides env d e) (ha : a ∈ d.retired) : Outlived env a e := by
  obtain ⟨hact, requests, ht, hd⟩ := h
  refine ⟨hact, d.now, requests, ht, ?_⟩
  have hr : d.toRetire = Decision.retire env e.pre.shared.lastActivity d.now requests :=
    congrArg Decision.toRetire hd
  obtain ⟨p, hp, rfl⟩ := List.mem_map.1 ha
  rw [hr] at hp
  obtain ⟨req, hreq, hmap⟩ := List.mem_filterMap.1 hp
  obtain ⟨reason, hreason, rfl⟩ := Option.map_eq_some_iff.1 hmap
  exact ⟨req, hreq, rfl, reason, hreason⟩

/-- What the retirement of `a` rests on, and what becomes of its work. The events behind its
`DELETE` are `l₂`, the ones after it `l₁`. -/
structure DropsWork (env : RelayerEnv) (a : String) (l₁ : List Step) (f : Step) (l₂ : List Step)
    (s : Relayer) : Prop where
  timers : Since (Outlived env a) (fun e => redecides e) l₂
  dropped : Since (fun e => dropsRetry a e) (fun e => redecides e) l₂
  renewed : a ∈ f.pre.shared.retryState →
    Since (fun e => notesRetry a e) (fun e => dropsRetry a e) l₂
  /-- From the tick's swap to one that adds `a` again, no call for `a` gets past its first check. -/
  gone : ∀ l₃ g l₄, l₁ = l₃ ++ g :: l₄ → g.act = .tick .swap → (∀ e ∈ l₄, ¬ swaps e) →
    (∀ e ∈ l₃, ¬ enters a e) → a ∉ s.shared.live ∧ ∀ e ∈ l₃, ∀ i input,
      e.act = .forward i input → e.pre.callAt a i = some .resolve →
        e.post.calls a = [.done .notLive] ∧ e.post.shared = e.pre.shared

theorem not_live_of_swap {env : RelayerEnv} {log : List Step} {s s' : Relayer} {a : String}
    (hr : (relayer env).Run log s) (h : Steps env s (.tick .swap) s')
    (hd : Since (fun e => retires e = some a) (fun e => swaps e) log) : a ∉ s'.shared.live := by
  obtain ⟨d, hdec, hmem⟩ := decision_of_retires hr hd
  have hnot := not_mem_kept (decides_of_run hr hdec) hmem
  have hstep := tick_steps h
  generalize s.tick = t, s'.tick = t', s'.shared = shared' at hstep hdec ⊢
  cases hstep
  obtain rfl := Option.some.inj hdec
  exact hnot

theorem notLive_of_resolve {env : RelayerEnv} {s s' : Relayer} {a : String} {i : ℕ}
    {input : Call.Input} (hr : (relayer env).Reachable s)
    (h : Steps env s (.forward i input) s') (hat : s.callAt a i = some .resolve)
    (ha : a ∉ s.shared.live) : s'.calls a = [.done .notLive] ∧ s'.shared = s.shared := by
  obtain ⟨call', hcalls', hcall, -⟩ := call_of_callAt hr h hat
  generalize s'.shared = shared' at hcall ⊢
  cases hcall with
  | resolve hl => exact absurd (AList.lookup_isSome.1 (by rw [hl]; rfl)) ha
  | notLive => exact ⟨hcalls', rfl⟩

/-- Whenever a tick sends the `DELETE` for an address, in any run. -/
theorem retirement_drops_work {env : RelayerEnv} {log : List Step} {s : Relayer} {a : String}
    (h : (relayer env).Run log s) {l₁ l₂ : List Step} {f : Step} (hlog : log = l₁ ++ f :: l₂)
    (hf : retires f = some a) : DropsWork env a l₁ f l₂ s := by
  obtain ⟨d, newly, rest, hact, ht⟩ := retires_cases hf
  obtain ⟨hrun, hs⟩ := h.of_mem hlog
  have hd : f.pre.tick.decision = some d := by rw [ht]; rfl
  have hdrop : Since (fun e => dropsRetry a e) (fun e => redecides e) l₂ :=
    dropped_of_run hrun (by rw [ht]; rfl)
  refine ⟨?_, hdrop, noted_of_run hrun (hdrop.anti ?_), ?_⟩
  · refine (decides_of_run hrun hd).mono fun e he => outlived_of_decides he ?_
    exact retired_of_condemned hrun.reachable d hd a (by rw [ht]; exact List.mem_cons_self)
  · intro e he
    unfold crashes at he
    unfold redecides
    split at he <;> simp_all
  · rintro l₃ g l₄ rfl hg hswap henter
    have hsplit : log = l₃ ++ g :: (l₄ ++ f :: l₂) := by simp [hlog]
    obtain ⟨hrung, hsg⟩ := h.of_mem hsplit
    rw [hg] at hsg
    have hgone : a ∉ g.post.shared.live :=
      not_live_of_swap hrung (steps_of_step hsg) (Since.iff_split.2 ⟨l₄, f, l₂, rfl, hf, hswap⟩)
    refine ⟨absent_of_run h (Since.iff_split.2 ⟨l₃, g, _, hsplit, hgone, henter⟩), ?_⟩
    intro e he i input hact hat
    obtain ⟨l₅, l₆, rfl⟩ := List.append_of_mem he
    have hsplit' : log = l₅ ++ e :: (l₆ ++ g :: (l₄ ++ f :: l₂)) := by simp [hsplit]
    obtain ⟨hrune, hse⟩ := h.of_mem hsplit'
    rw [hact] at hse
    refine notLive_of_resolve hrune.reachable (steps_of_step hse) hat ?_
    exact absent_of_run hrune (Since.iff_split.2 ⟨l₆, g, _, rfl, hgone, fun x hx => henter x
      (by simp [hx])⟩)

/-- The balance query of a first call fails. A minute later a second call is at its query while a
tick decides to retire the address and clears its state; that query fails too, and the poll sends
the address once more. -/
def retiredAtWork : List Act :=
  listingTick [listed "celestia1a"] ["celestia1a"] ++ [.tick .probe] ++ startCall
    ++ [.forward 0 (.go true), .forward 0 (.go true), .forward 0 (.balances none),
      .forward 0 (.go true), .forward 0 (.go true), .forward 0 (.go true), .forward 0 (.go true),
      .forward 0 (.go true), .finish 0, .dispatch (.remove 0), .dispatch (.release 0),
      .tick .probed, .tick (.collect []), .tick .finish, .elapse (61 * 10 ^ 9),
      .poll (.snapshot ["celestia1a"]), .poll .send]
    ++ startCall
    ++ [.forward 0 (.go true), .forward 0 (.go true), .forward 0 (.go true), .tick .wake,
      .tick (.fetch (some [listed "celestia1a"])), .tick .readTime, .tick .decide,
      .tick (.compare []), .tick .retireNext, .tick (.clear true), .tick (.clear true),
      .tick (.clear true), .tick (.clear true), .forward 0 (.balances none),
      .forward 0 (.go true), .forward 0 (.go true), .forward 0 (.go true), .forward 0 (.go true),
      .poll .finish, .poll (.snapshot ["celestia1a"]), .poll .send, .tick .delete]

theorem retirement_drops_work_swapped : ∃ l₁ f l₂ s,
    (relayer (exampleEnv 60 60)).exec (retiredAtWork ++ [.tick .deleted, .tick .retired,
        .tick .pruneRetry, .tick .pruneActivity, .tick (.pruneStore [] []), .tick .swap]) []
        (exampleStart (exampleEnv 60 60)) = some (l₁ ++ f :: l₂, s)
      ∧ retires f = some "celestia1a"
      ∧ DropsWork (exampleEnv 60 60) "celestia1a" l₁ f l₂ s := by
  obtain ⟨log, s, hrun, hexec, h⟩ := Machine.exists_run_of_exec (relayer (exampleEnv 60 60))
    (retiredAtWork ++ [.tick .deleted, .tick .retired, .tick .pruneRetry, .tick .pruneActivity,
      .tick (.pruneStore [] []), .tick .swap]) (exampleStart (exampleEnv 60 60))
    (fun log _ => (log[6]?).any fun e => retires e == some "celestia1a")
    (exampleStart_init _) (by decide +kernel)
  simp only [Option.any_eq_true, beq_iff_eq] at h
  obtain ⟨f, hf, hr⟩ := h
  have hlog := List.take_append_cons_drop hf
  exact ⟨log.take 6, f, log.drop 7, s, by rw [hexec, hlog], hr,
    retirement_drops_work hrun hlog.symm hr⟩

/-- The tick decides to retire the address while it has an entry, and sends the `DELETE` while it
has one again, a call in flight and a trigger in the channel. -/
theorem retired_with_work_outstanding : ∃ log s, (relayer (exampleEnv 60 60)).Run log s
    ∧ (∃ e ∈ log, redecides e ∧ "celestia1a" ∈ e.pre.shared.retryState)
    ∧ ∃ f ∈ log, retires f = some "celestia1a" ∧ "celestia1a" ∈ f.pre.shared.retryState
      ∧ "celestia1a" ∈ f.pre.dispatcher.inFlight ∧ "celestia1a" ∈ f.pre.dispatcher.queue := by
  obtain ⟨log, s, hrun, -, h⟩ := Machine.exists_run_of_exec (relayer (exampleEnv 60 60))
    retiredAtWork (exampleStart (exampleEnv 60 60))
    (fun log _ => (log.any fun e => redecides e && decide ("celestia1a" ∈ e.pre.shared.retryState))
      && log.any fun f => retires f == some "celestia1a"
        && decide ("celestia1a" ∈ f.pre.shared.retryState)
        && decide ("celestia1a" ∈ f.pre.dispatcher.inFlight)
        && f.pre.dispatcher.queue.contains "celestia1a")
    (exampleStart_init _) (by decide +kernel)
  simp only [Bool.and_eq_true, List.any_eq_true, decide_eq_true_eq, beq_iff_eq,
    List.contains_iff_mem] at h
  obtain ⟨h1, f, hf, ⟨⟨h2, h3⟩, h4⟩, h5⟩ := h
  exact ⟨log, s, hrun, h1, f, hf, h2, h3, h4, h5⟩

end Relayer

end ForwardingRelayer
