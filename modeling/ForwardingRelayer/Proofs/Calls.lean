import ForwardingRelayer.Proofs.System

/-!
# The call for an address

At most one `forward_address` for an address runs at a time, its task having the entry for the
address. So a step of the relayer, seen from one address, is a step of its call, a step of the
tick, a restart, or it leaves what there is about the address as it is.
-/

namespace ForwardingRelayer

open RelayerState

/-- Of two shared states, that they have the same about an address. -/
structure SameFor (a : String) (s s' : RelayerState) : Prop where
  live : s'.live = s.live
  retryState : s'.retryState.lookup a = s.retryState.lookup a
  lastActivity : s'.lastActivity.lookup a = s.lastActivity.lookup a
  stored : s'.store.retryState.lookup a = s.store.retryState.lookup a
  activityStored : s'.store.addressActivity.lookup a = s.store.addressActivity.lookup a

namespace SameFor

variable {a addr : String} {s s' : RelayerState}

theorem rfl' : SameFor a s s := ⟨rfl, rfl, rfl, rfl, rfl⟩

theorem runOp (h : a ≠ addr) {now : ℤ} {stored : Bool} {op : Op} :
    SameFor a s (s.runOp now stored addr op).1 := by
  cases op with
  | readActivityTime | countFailure | readFailureTime => exact rfl'
  | insertActivity ts => exact ⟨rfl, rfl, AList.lookup_insert_ne h, rfl, rfl⟩
  | insertRetry state => exact ⟨rfl, AList.lookup_insert_ne h, rfl, rfl, rfl⟩
  | removeRetry => exact ⟨rfl, AList.lookup_erase_ne h, rfl, rfl, rfl⟩
  | removeActivity => exact ⟨rfl, rfl, AList.lookup_erase_ne h, rfl, rfl⟩
  | storeActivity ts =>
    cases stored
    · exact rfl'
    · exact ⟨rfl, rfl, rfl, rfl, AList.lookup_insert_ne h⟩
  | deleteActivity =>
    cases stored
    · exact rfl'
    · exact ⟨rfl, rfl, rfl, rfl, AList.lookup_erase_ne h⟩
  | storeRetry state =>
    cases stored
    · exact rfl'
    · exact ⟨rfl, rfl, rfl, AList.lookup_insert_ne h, rfl⟩
  | deleteRetry =>
    cases stored
    · exact rfl'
    · exact ⟨rfl, rfl, rfl, AList.lookup_erase_ne h, rfl⟩

theorem of_call (h : a ≠ addr) {env : RelayerEnv} {now : ℕ} {call call' : Call}
    {input : Call.Input} (hs : Call.Steps env now addr s call input s' call') :
    SameFor a s s' := by
  cases hs with
  | record | close => exact runOp h
  | quoted => exact ⟨rfl, rfl, rfl, rfl, rfl⟩
  | _ => exact rfl'

end SameFor

def Task.callOf (a : String) : Task Call → Option Call
  | ⟨addr, .running call⟩ => if addr = a then some call else none
  | _ => none

theorem Task.filterMap_callOf {a : String} {l₁ l₂ : List (Task Call)} {t : Task Call} :
    (l₁ ++ t :: l₂).filterMap (Task.callOf a) = l₁.filterMap (Task.callOf a)
      ++ (t.callOf a).toList ++ l₂.filterMap (Task.callOf a) := by
  rw [List.filterMap_append, List.filterMap_cons]
  rcases t.callOf a with _ | c <;> simp

namespace Relayer

def calls (s : Relayer) (a : String) : List Call := s.dispatcher.tasks.filterMap (Task.callOf a)

def callAt (s : Relayer) (a : String) (i : ℕ) : Option Call :=
  (s.dispatcher.tasks[i]?).bind (Task.callOf a)

/-- What a step does, seen from one address. -/
inductive Seen (env : RelayerEnv) (a : String) (s : Relayer) (act : Act) (s' : Relayer) : Prop
  | call {i : ℕ} {call call' : Call} {input : Call.Input} : act = .forward i input →
      s.callAt a i = some call → s.calls a = [call] → s'.calls a = [call'] →
      Call.Steps env s.now a s.shared call input s'.shared call' → s'.tick = s.tick →
      s'.now = s.now → Seen env a s act s'
  | start {i : ℕ} : act = .start i → s.calls a = [] → s'.calls a = [.resolve] →
      s'.shared = s.shared → s'.tick = s.tick → s'.now = s.now → Seen env a s act s'
  | finish {i : ℕ} {status : ForwardStatus} : act = .finish i →
      s.callAt a i = some (.done status) → s.calls a = [.done status] → s'.calls a = [] →
      s'.shared = s.shared → s'.tick = s.tick → s'.now = s.now → Seen env a s act s'
  | tick {tact : Tick.Act} : act = .tick tact →
      Tick.Steps env s.now s.shared s.tick tact s'.shared s'.tick → s'.calls a = s.calls a →
      s'.now = s.now → Seen env a s act s'
  | other : (∀ i, (∃ input, act = .forward i input) ∨ act = .finish i → s.callAt a i = none) →
      (∀ tact, act ≠ .tick tact) → (∀ r b, act ≠ .crash r b) → SameFor a s.shared s'.shared →
      s'.calls a = s.calls a → s'.tick = s.tick → s.now ≤ s'.now → Seen env a s act s'
  | crash {r b : Bool} : act = .crash r b →
      s' = new env s.now s.shared.store s.scanner.persisted r b → Seen env a s act s'

section Step

variable {env : RelayerEnv} {s s' : Relayer} {act : Act} {a : String}

theorem callAt_eq_some {i : ℕ} {call : Call}
    (h : s.dispatcher.tasks[i]? = some ⟨a, .running call⟩) : s.callAt a i = some call := by
  simp [callAt, h, Task.callOf]

theorem callAt_eq_none {i : ℕ} {addr : String} {stage : Stage Call}
    (h : s.dispatcher.tasks[i]? = some ⟨addr, stage⟩) (ha : addr ≠ a) : s.callAt a i = none := by
  cases stage <;> simp [callAt, h, Task.callOf, ha]

theorem dispatcher_cases (h : Steps env s act s') :
    s'.dispatcher = s.dispatcher
      ∨ (∃ dact, Dispatcher.Steps forwardQueueCapacity s.dispatcher dact s'.dispatcher)
      ∨ s'.dispatcher = .start env.config.forwardConcurrency := by
  have hsend : ∀ {o : Option String} {d : Dispatcher Call}, SendTo s.dispatcher o d →
      d = s.dispatcher ∨ ∃ dact, Dispatcher.Steps forwardQueueCapacity s.dispatcher dact d := by
    rintro (_ | addr) d hd
    · exact .inl hd
    · obtain ⟨hroom, rfl⟩ := hd
      exact .inr ⟨_, .send hroom⟩
  cases h with
  | elapse | scanMatch => exact .inl rfl
  | scan _ _ _ hd | tick _ hd | poll _ hd =>
    rcases hsend hd with hd | hd
    · exact .inl hd
    · exact .inr (.inl hd)
  | dispatch _ _ hd => exact .inr (.inl ⟨_, hd⟩)
  | start hd => exact .inr (.inl ⟨_, hd⟩)
  | forward hi hl => exact .inr (.inl ⟨_, .advance hi hl⟩)
  | finish hi hl => exact .inr (.inl ⟨_, .finish hi hl⟩)
  | crash => exact .inr (.inr rfl)

theorem holders_of_reachable (h : (relayer env).Reachable s) (a : String) :
    s.dispatcher.holders a = if a ∈ s.dispatcher.inFlight then 1 else 0 := by
  have hstart : ∀ n a, (Dispatcher.start n : Dispatcher Call).holders a
      = if a ∈ (Dispatcher.start n : Dispatcher Call).inFlight then 1 else 0 := by
    intro n a
    simp [Dispatcher.start, Dispatcher.holders, Dispatcher.atLoop, Dispatcher.tasksOf]
  refine h.invariant (I := fun s => ∀ a, s.dispatcher.holders a
    = if a ∈ s.dispatcher.inFlight then 1 else 0) ?_ ?_ a
  · rintro _ ⟨_, _, _, _, _, rfl⟩
    exact hstart _
  · intro s act s' ih hs
    rcases dispatcher_cases (steps_of_step hs) with hd | ⟨_, hd⟩ | hd
    · rwa [hd]
    · exact Dispatcher.holders_step hd ih
    · rw [hd]
      exact hstart _

/-- Beside a task that has the entry for an address there is no call for it. -/
theorem calls_nil_of_split (h : (relayer env).Reachable s) {l₁ l₂ : List (Task Call)}
    {stage : Stage Call} (hl : s.dispatcher.tasks = l₁ ++ ⟨a, stage⟩ :: l₂)
    (hst : stage.holdsEntry = true) :
    l₁.filterMap (Task.callOf a) = [] ∧ l₂.filterMap (Task.callOf a) = [] := by
  have hle : s.dispatcher.holders a ≤ 1 := by
    rw [holders_of_reachable h]
    split <;> omega
  unfold Dispatcher.holders at hle
  rw [Dispatcher.tasksOf_split hl, if_pos ⟨rfl, hst⟩] at hle
  have hzero : (l₁ ++ l₂).countP (fun t => t.addr == a && t.stage.holdsEntry) = 0 := by omega
  rw [List.countP_eq_zero] at hzero
  rw [← List.append_eq_nil_iff, ← List.filterMap_append, List.filterMap_eq_nil_iff]
  rintro ⟨addr, stage⟩ ht
  have := hzero _ ht
  cases stage <;> simp_all [Task.callOf]

theorem calls_dispatch {d d' : Dispatcher Call} {dact : Dispatcher.Act Call}
    (hne : ∀ i call, dact ≠ .start i call ∧ dact ≠ .advance i call ∧ dact ≠ .finish i)
    (h : Dispatcher.Steps forwardQueueCapacity d dact d') :
    d'.tasks.filterMap (Task.callOf a) = d.tasks.filterMap (Task.callOf a) := by
  cases h with
  | @start i _ call => exact absurd rfl (hne i call).1
  | @advance i _ _ call => exact absurd rfl (hne i call).2.1
  | @finish i _ call => exact absurd rfl (hne i call).2.2
  | spawn => simp [Task.callOf]
  | remove _ hl | release _ hl | requeue _ hl | resend _ hl =>
    simp only [hl, Task.filterMap_callOf]
    simp [Task.callOf]
  | _ => rfl

theorem seen_of_steps (hr : (relayer env).Reachable s) (h : Steps env s act s') (a : String) :
    Seen env a s act s' := by
  have hsend : ∀ {o : Option String} {d : Dispatcher Call}, SendTo s.dispatcher o d →
      d.tasks = s.dispatcher.tasks := by
    rintro (_ | addr) d hd
    · rw [hd]
    · rw [hd.2]
  have hfm := @Task.filterMap_callOf a
  cases h with
  | elapse =>
    exact .other (by simp) (by simp) (by simp) .rfl' rfl rfl (Nat.le_add_right _ _)
  | scan _ _ _ hd | poll _ hd =>
    exact .other (by simp) (by simp) (by simp) .rfl' (by simp [calls, hsend hd]) rfl le_rfl
  | scanMatch => exact .other (by simp) (by simp) (by simp) .rfl' rfl rfl le_rfl
  | tick ht hd => exact .tick rfl ht (by simp [calls, hsend hd]) rfl
  | dispatch _ hne hd =>
    exact .other (by simp) (by simp) (by simp) .rfl' (calls_dispatch hne hd) rfl le_rfl
  | start hd =>
    cases hd with
    | @start i addr call l₁ l₂ hi hl =>
      by_cases ha : addr = a
      · subst ha
        obtain ⟨h1, h2⟩ := calls_nil_of_split hr hl rfl
        exact .start rfl (by rw [calls, hl, hfm, h1, h2]; rfl)
          (by rw [calls, hfm, h1, h2]; simp [Task.callOf]) rfl rfl rfl
      · refine .other (by simp) (by simp) (by simp) .rfl' ?_ rfl le_rfl
        simp [calls, hl, hfm, Task.callOf, ha]
  | @forward i addr call call' input shared l₁ l₂ hi hl hcall =>
    by_cases ha : addr = a
    · subst ha
      obtain ⟨h1, h2⟩ := calls_nil_of_split hr hl rfl
      exact .call rfl (callAt_eq_some hi) (by rw [calls, hl, hfm, h1, h2]; simp [Task.callOf])
        (by rw [calls, hfm, h1, h2]; simp [Task.callOf]) hcall rfl rfl
    · refine .other ?_ (by simp) (by simp) (.of_call (Ne.symm ha) hcall) ?_ rfl le_rfl
      · rintro j (⟨_, hj⟩ | hj) <;> cases hj
        exact callAt_eq_none hi ha
      · simp [calls, hl, hfm, Task.callOf, ha]
  | @finish i addr status l₁ l₂ hi hl =>
    by_cases ha : addr = a
    · subst ha
      obtain ⟨h1, h2⟩ := calls_nil_of_split hr hl rfl
      exact .finish rfl (callAt_eq_some hi) (by rw [calls, hl, hfm, h1, h2]; simp [Task.callOf])
        (by rw [calls, hfm, h1, h2]; rfl) rfl rfl rfl
    · refine .other ?_ (by simp) (by simp) .rfl' ?_ rfl le_rfl
      · rintro j (⟨_, hj⟩ | hj) <;> cases hj
        exact callAt_eq_none hi ha
      · simp [calls, hl, hfm, Task.callOf, ha]
  | crash => exact .crash rfl rfl

theorem call_of_callAt (hr : (relayer env).Reachable s) {i : ℕ} {input : Call.Input}
    (h : Steps env s (.forward i input) s') {call : Call} (hat : s.callAt a i = some call) :
    ∃ call', s'.calls a = [call'] ∧ Call.Steps env s.now a s.shared call input s'.shared call'
      ∧ s'.tick = s.tick := by
  cases seen_of_steps hr h a with
  | call hact hat' _ hcalls' hcall htick =>
    cases hact
    obtain rfl := Option.some.inj (hat.symm.trans hat')
    exact ⟨_, hcalls', hcall, htick⟩
  | other hown =>
    rw [hown i (.inl ⟨input, rfl⟩)] at hat
    cases hat
  | start hact | finish hact | tick hact | crash hact => cases hact

end Step

end Relayer

end ForwardingRelayer
