import ForwardingRelayer.Lib.Rest
import ForwardingRelayer.Proofs.Permits
import ForwardingRelayer.Proofs.Calls

/-!
# The relayer comes to rest

Each task's state is worth the steps it has left, those it will cause elsewhere included: a queued
trigger is worth the call it starts, and a dirty entry the trigger it is sent again as. A tick that
has not yet collected what is due may send a trigger for each entry of the retry state, and for
each that the calls under way can still add. So between two answers of a node, two lists or two
timers there are no more steps than the state is worth, and they end with every task at rest.
-/

namespace ForwardingRelayer

open RelayerState

section Call

variable {env : RelayerEnv} {now : ℕ} {a : String} {s s' : RelayerState}

namespace RelayerState

def Op.work : Op → ℕ
  | .countFailure => 4
  | .readActivityTime | .readFailureTime _ => 3
  | _ => 1

def opsWork (ops : List Op) : ℕ := (ops.map Op.work).sum

/-- The number of addresses that may be sent again. -/
def retries (s : RelayerState) : ℕ := s.retryState.entries.length

theorem opsWork_cons (op : Op) (ops : List Op) : opsWork (op :: ops) = op.work + opsWork ops :=
  List.sum_cons

theorem opsWork_runOp {now : ℤ} {stored : Bool} (op : Op) (ops : List Op) :
    opsWork ((s.runOp now stored a op).2 ++ ops) < opsWork (op :: ops) := by
  have happend : ∀ ops', opsWork (ops' ++ ops) = opsWork ops' + opsWork ops := fun ops' => by
    rw [opsWork, List.map_append, List.sum_append]
    rfl
  rw [opsWork_cons, happend]
  refine Nat.add_lt_add_right ?_ _
  cases op <;> simp [runOp, opsWork, Op.work]

theorem retries_runOp {now : ℤ} {stored : Bool} {op : Op} :
    (s.runOp now stored a op).1.retries ≤ s.retries + 1 := by
  cases op with
  | insertRetry state => exact AList.length_insert_le
  | removeRetry => exact AList.length_erase_le.trans (Nat.le_succ _)
  | storeActivity | deleteActivity | storeRetry | deleteRetry =>
    cases stored <;> exact Nat.le_succ _
  | _ => exact Nat.le_succ _

end RelayerState

def Call.work : Call → ℕ
  | .done _ => 0
  | .close _ ops => 1 + opsWork ops
  | .submit _ _ => 7
  | .quote _ => 8
  | .fee _ => 9
  | .record _ ops => 10 + opsWork ops
  | .query _ => 14
  | .compare _ _ => 15
  | .backoff _ => 16
  | .resolve => 17

theorem Call.work_step {call call' : Call} {input : Call.Input}
    (h : Call.Steps env now a s call input s' call') :
    call'.work < call.work ∧ s'.retries ≤ s.retries + 1 := by
  cases h with
  | @record request op ops stored | @close status op ops stored =>
    have hops := @opsWork_runOp a s now stored op ops
    exact ⟨by simp only [work]; omega, retries_runOp⟩
  | _ => exact ⟨by simp [work, forwardCall, opsWork, Op.work, noteFailure, clearRetryState,
      recordActivity], Nat.le_succ _⟩

theorem Call.done_or_step (call : Call) (env : RelayerEnv) (now : ℕ) (a : String)
    (s : RelayerState) :
    (∃ status, call = .done status) ∨ ∃ input, (call.step env now a s input).isSome := by
  cases call with
  | resolve =>
    refine .inr ⟨.go true, ?_⟩
    rcases h : s.live.lookup a with _ | request <;> simp [step, h]
  | backoff request =>
    refine .inr ⟨.go true, ?_⟩
    rcases h : s.retryState.lookup a with _ | state <;> simp [step, h]
  | compare request nextAttempt =>
    refine .inr ⟨.go true, ?_⟩
    by_cases h : (now : ℤ) < nextAttempt <;> simp [step, h]
  | query => exact .inr ⟨.balances none, rfl⟩
  | record request ops => cases ops <;> exact .inr ⟨.go true, rfl⟩
  | fee request =>
    refine .inr ⟨.go true, ?_⟩
    rcases h : s.feeCache.cached (feeKey request) now with _ | quoted <;> simp [step, h]
  | quote => exact .inr ⟨.quoted (.error ""), rfl⟩
  | submit => exact .inr ⟨.submitted false, rfl⟩
  | close status ops => cases ops <;> exact .inr ⟨.go true, rfl⟩
  | done status => exact .inl ⟨status, rfl⟩

end Call

namespace Dispatcher

def dirtyEntries (d : Dispatcher Call) : ℕ := d.inFlight.countValues id

end Dispatcher

def Stage.work : Stage Call → ℕ
  | spawned => 24
  | running call => 6 + call.work
  | returned => 5
  | removed true => 30
  | removed false => 1
  | sending => 29

def Loop.work : Loop → ℕ
  | recv => 0
  | received _ => 27
  | acquiring _ => 26
  | spawning _ => 25

namespace Dispatcher

def tasksWork (tasks : List (Task Call)) : ℕ := (tasks.map fun t => t.stage.work).sum

def work (d : Dispatcher Call) : ℕ :=
  d.loop.work + tasksWork d.tasks + 26 * d.dirtyEntries + 28 * d.queue.length

theorem tasksWork_split (l₁ l₂ : List (Task Call)) (t : Task Call) :
    tasksWork (l₁ ++ t :: l₂) = tasksWork (l₁ ++ l₂) + t.stage.work := by
  simp only [tasksWork, List.map_append, List.map_cons, List.sum_append, List.sum_cons]
  omega

section Step

variable {capacity : ℕ} {d d' : Dispatcher Call} {act : Act Call}

/-- A step of the dispatcher's own, or the start of a call, lowers the work. -/
theorem work_step (h : Steps capacity d act d') (hsend : ∀ a, act ≠ .send a)
    (hstart : ∀ i call, act = .start i call → call = .resolve)
    (hadvance : ∀ i call, act ≠ .advance i call) : d'.work < d.work := by
  unfold work
  cases h with
  | send => exact absurd rfl (hsend _)
  | recv h1 h2 =>
    simp only [h1, h2, Loop.work, List.length_cons, dirtyEntries]
    omega
  | @mark a dirty h1 h2 =>
    have hle : (d.inFlight.insert a true).countValues id ≤ d.inFlight.countValues id + 1 :=
      AList.countValues_insert_le
    simp only [h1, Loop.work, dirtyEntries]
    omega
  | @insert a h1 h2 =>
    have hle : (d.inFlight.insert a false).countValues id ≤ d.inFlight.countValues id :=
      AList.countValues_insert_le
    simp only [h1, Loop.work, dirtyEntries]
    omega
  | acquire h1 h2 =>
    simp only [h1, Loop.work, dirtyEntries]
    omega
  | spawn h1 =>
    simp only [h1, Loop.work, tasksWork, List.map_append, List.sum_append, dirtyEntries]
    simp only [List.map_cons, List.map_nil, List.sum_cons, List.sum_nil, Stage.work]
    omega
  | @start i a call l₁ l₂ h1 hl =>
    obtain rfl := hstart i call rfl
    rw [hl, tasksWork_split, tasksWork_split]
    simp only [Stage.work, Call.work, dirtyEntries]
    omega
  | advance => exact absurd rfl (hadvance _ _)
  | finish h1 hl =>
    rw [hl, tasksWork_split, tasksWork_split]
    simp only [Stage.work, dirtyEntries]
    omega
  | @remove i a l₁ l₂ h1 hl =>
    rw [hl, tasksWork_split, tasksWork_split]
    rcases hdirty : d.inFlight.lookup a == some true with _ | _
    · have hle : (d.inFlight.erase a).countValues id ≤ d.inFlight.countValues id :=
        AList.countValues_erase_le
      simp only [Stage.work, dirtyEntries]
      omega
    · have heq : (d.inFlight.erase a).countValues id + 1 = d.inFlight.countValues id :=
        AList.countValues_erase (beq_iff_eq.1 hdirty) rfl
      simp only [Stage.work, dirtyEntries]
      omega
  | release h1 hl =>
    rw [hl, tasksWork_split]
    simp only [Stage.work, dirtyEntries]
    omega
  | requeue h1 hl =>
    rw [hl, tasksWork_split, tasksWork_split]
    simp only [Stage.work, dirtyEntries]
    omega
  | resend h1 hl hroom =>
    rw [hl, tasksWork_split]
    simp only [Stage.work, dirtyEntries, List.length_append, List.length_singleton]
    omega

end Step

end Dispatcher

section Producers

variable {env : RelayerEnv} {now : ℕ} {s s' : RelayerState}

namespace Tick

/-- What is left once an address is probed: it is a trigger then, that counts again for what a
collect will send. -/
def probeWork (n : ℕ) : ℕ := 841 * n + 3

def retireWork (newly rest : ℕ) : ℕ := probeWork newly + 130 * rest + 5

def work : Tick → ℕ
  | start | asleep => 0
  | fetched requests => retireWork requests.length requests.length + 3
  | snapshot _ requests => retireWork requests.length requests.length + 2
  | compare d => retireWork d.kept.entries.length d.toRetire.length + 1
  | retire _ newly rest => retireWork newly.length rest.length
  | clear _ newly _ ops rest => retireWork newly.length rest.length + 30 * opsWork ops + 2
  | deleting _ newly rest => retireWork newly.length rest.length + 1
  | pruneRetry _ newly => probeWork newly.length + 4
  | pruneActivity _ newly => probeWork newly.length + 3
  | pruneStore _ newly => probeWork newly.length + 2
  | swap _ newly => probeWork newly.length + 1
  | probe _ addrs => probeWork addrs.length
  | collect _ => 2
  | sendDue addrs => 29 * addrs.length + 1

/-- It will send what is due. -/
def collects : Tick → Bool
  | start | sendDue _ | asleep => false
  | _ => true

/-- The steps a tick takes by itself. -/
def Act.brings : Act → Bool
  | .fetch _ | .wake => true
  | _ => false

theorem length_kept_le {env : RelayerEnv} {lastActivity : AList fun _ : String => ℤ} {t : ℤ}
    {requests : List ForwardingRequest} :
    (Decision.make env lastActivity t requests).kept.entries.length ≤ requests.length := by
  have hfold : ∀ (l : List ForwardingRequest) (m : LiveSet),
      (l.foldl (fun kept req => kept.insert req.forwardAddr req) m).entries.length
        ≤ m.entries.length + l.length := by
    intro l
    induction l with
    | nil => exact fun m => Nat.le_refl _
    | cons req l ih =>
      intro m
      have hle := ih (m.insert req.forwardAddr req)
      have hinsert : (m.insert req.forwardAddr req).entries.length ≤ m.entries.length + 1 :=
        AList.length_insert_le
      rw [List.foldl_cons, List.length_cons]
      omega
  have hle := hfold (requests.filter fun req => !((Decision.retire env lastActivity t
    requests).map fun p => p.1.forwardAddr).contains req.forwardAddr) ∅
  rw [AList.empty_entries, List.length_nil, Nat.zero_add] at hle
  exact hle.trans (List.length_filter_le _ _)

theorem length_newlyAdded_le {d : Decision} {live : LiveSet} :
    (d.newlyAdded live).length ≤ d.kept.entries.length :=
  (List.length_filter_le _ _).trans_eq (List.length_map _)

/-- The work of a tick and of the rest, with what a collect will add to it. -/
def worth (t : Tick) (retries rest : ℕ) : ℕ :=
  t.work + rest + if t.collects then 29 * (retries + rest) else 0

theorem worth_lt {t t' : Tick} {act : Act} (h : Steps env now s t act s' t')
    (hact : act.brings = false) (rest : ℕ) :
    t'.worth s'.retries (rest + if (t.sends act).isSome then 28 else 0)
      < t.worth s.retries rest := by
  unfold worth
  cases h with
  | fetch | fetchFailed | wake => cases hact
  | readTime =>
    simp only [work, collects, sends]
    simp
  | @decide t requests =>
    have hkept := @length_kept_le env s.lastActivity t requests
    have hretire : (Decision.make env s.lastActivity t requests).toRetire.length
        ≤ requests.length := List.length_filterMap_le _ _
    simp only [work, collects, sends, retireWork, probeWork]
    simp
    omega
  | @compare d order hperm =>
    have hle := @length_newlyAdded_le d s.live
    rw [← hperm.length_eq] at hle
    simp only [work, collects, sends, retireWork, probeWork]
    simp
    omega
  | retireNext =>
    simp only [work, collects, sends, retireWork, List.length_cons]
    simp [opsWork, Op.work, clearRetryState, clearActivity]
    omega
  | @clear d newly addr op ops rest stored =>
    have hops := @opsWork_runOp addr s now stored op ops
    have hretries := @retries_runOp addr s now stored op
    simp only [work, collects, sends]
    simp
    omega
  | delete | deleted | retired =>
    simp only [work, collects, sends, retireWork, opsWork]
    simp
  | @pruneRetry d newly =>
    have hle := AList.length_retain_le (· ∈ d.kept) s.retryState
    simp only [work, collects, sends, retries]
    simp
    omega
  | pruneActivity | pruneStore | swap =>
    simp only [work, collects, sends, retries]
    simp
  | probe =>
    simp only [work, collects, sends, probeWork, List.length_cons]
    simp
    omega
  | probed =>
    simp only [work, collects, sends, probeWork]
    simp
  | @collect t order hperm =>
    have hle : order.length ≤ s.retries := by
      rw [hperm.length_eq, dueAddrs, List.length_map]
      exact List.length_filter_le _ _
    simp only [work, collects, sends]
    simp
    omega
  | sendDue =>
    simp only [work, collects, sends, List.length_cons]
    simp
    omega
  | finish =>
    simp only [work, collects, sends]
    simp

theorem waits_or_step (t : Tick) (env : RelayerEnv) (now : ℕ) (s : RelayerState) :
    (t = .start ∨ t = .asleep)
      ∨ ∃ act, act.brings = false ∧ (t.step env now s act).isSome := by
  cases t with
  | start => exact .inl (.inl rfl)
  | asleep => exact .inl (.inr rfl)
  | fetched requests => exact .inr ⟨.readTime, rfl, rfl⟩
  | snapshot t requests => exact .inr ⟨.decide, rfl, rfl⟩
  | compare d => exact .inr ⟨.compare (d.newlyAdded s.live), rfl,
      by simp [step, List.isPerm_iff]⟩
  | retire d newly rest =>
    cases rest with
    | nil => exact .inr ⟨.retired, rfl, rfl⟩
    | cons p rest => exact .inr ⟨.retireNext, rfl, rfl⟩
  | clear d newly addr ops rest =>
    cases ops with
    | nil => exact .inr ⟨.delete, rfl, rfl⟩
    | cons op ops => exact .inr ⟨.clear true, rfl, rfl⟩
  | deleting => exact .inr ⟨.deleted, rfl, rfl⟩
  | pruneRetry => exact .inr ⟨.pruneRetry, rfl, rfl⟩
  | pruneActivity => exact .inr ⟨.pruneActivity, rfl, rfl⟩
  | pruneStore => exact .inr ⟨.pruneStore [] [], rfl, rfl⟩
  | swap => exact .inr ⟨.swap, rfl, rfl⟩
  | probe t addrs =>
    cases addrs with
    | nil => exact .inr ⟨.probed, rfl, rfl⟩
    | cons addr addrs => exact .inr ⟨.probe, rfl, rfl⟩
  | collect t => exact .inr ⟨.collect (dueAddrs s.retryState t), rfl,
      by simp [step, List.isPerm_iff]⟩
  | sendDue addrs =>
    cases addrs with
    | nil => exact .inr ⟨.finish, rfl, rfl⟩
    | cons addr addrs => exact .inr ⟨.sendDue, rfl, rfl⟩

end Tick

end Producers

namespace Scanner

def work (s : Scanner) : ℕ :=
  match s.phase with
  | .load => 2
  | .bootStore | .scan _ | .failed => 1
  | .fetched _ results => 29 * (extractDeposits results).length + 3
  | .sending _ recipients => 29 * recipients.length + 2
  | _ => 0

/-- What a node answers or sends, and the end of a wait. -/
def Act.brings : Act → Bool
  | .bootTip _ | .connect _ | .tip _ | .fetch _ | .event _ | .evidence _ _ | .reconnect => true
  | _ => false

theorem work_step {cfg : ScannerConfig} {s s' : Scanner} {act : Act} (h : Steps cfg s act s')
    (hcrash : act ≠ .crash) (hact : act.brings = false) :
    s'.work + (if (s.sends act).isSome then 28 else 0) < s.work := by
  cases h with
  | crash => exact absurd rfl hcrash
  | loadPersisted hp | loadStart hp | loadTip hp | bootStore hp | caughtUp hp | advance hp
    | recover hp => simp [work, sends, hp, Scanner.recover]
  | @matchLive live target results hp =>
    have hle : (watched live results).length ≤ (extractDeposits results).length := by
      rw [watched, List.length_map]
      exact List.length_filter_le _ _
    simp [work, sends, hp]
    omega
  | send hp =>
    simp [work, sends, hp]
    omega
  | _ => cases hact

/-- A node or a timer is awaited, or the scanner has exited. -/
def awaits (s : Scanner) : Bool :=
  match s.phase with
  | .load | .bootStore | .fetched _ _ | .sending _ _ | .failed => false
  | .scan target => s.cursor < target
  | _ => true

/-- The scanner waits, or has a step to take: to match the block in hand, to send, for which there
must be room, or one of its own. -/
theorem waits_or_step (cfg : ScannerConfig) (s : Scanner) (live : LiveSet) : s.awaits
    ∨ (s.step cfg (.matchLive live)).isSome
    ∨ ∃ act, act.brings = false ∧ act ≠ .crash ∧ (∀ live, act ≠ .matchLive live)
        ∧ (s.step cfg act).isSome := by
  rcases hp : s.phase with
    _ | _ | _ | _ | _ | _ | target | ⟨target, results⟩ | ⟨target, _ | ⟨r, recipients⟩⟩ | _ | _
      | _ | _
  case load => exact .inr (.inr ⟨.load false, rfl, by simp, by simp, by simp [step, hp]⟩)
  case bootStore =>
    exact .inr (.inr ⟨.bootStore true, rfl, by simp, by simp, by simp [step, hp]⟩)
  case scan =>
    by_cases hlt : s.cursor < target
    · exact .inl (by simpa [awaits, hp] using hlt)
    · exact .inr (.inr ⟨.caughtUp, rfl, by simp, by simp, by simp [step, hp, hlt]⟩)
  case fetched => exact .inr (.inl (by simp [step, hp]))
  case sending.nil =>
    exact .inr (.inr ⟨.advance true, rfl, by simp, by simp, by simp [step, hp]⟩)
  case sending.cons => exact .inr (.inr ⟨.send, rfl, by simp, by simp, by simp [step, hp]⟩)
  case failed => exact .inr (.inr ⟨.recover 0 0, rfl, by simp, by simp, by simp [step, hp]⟩)
  all_goals exact .inl (by simp [awaits, hp])

end Scanner

namespace Poll

def work : Poll → ℕ
  | asleep => 0
  | sending addrs => 29 * addrs.length + 1

/-- The end of a poll's wait. -/
def Act.brings : Act → Bool
  | .snapshot _ => true
  | _ => false

theorem work_step {s : RelayerState} {poll poll' : Poll} {act : Act}
    (h : Poll.step s poll act = some poll') (hact : act.brings = false) :
    poll'.work + (if (poll.sends act).isSome then 28 else 0) < poll.work := by
  unfold Poll.step at h
  split at h
  · cases hact
  · obtain rfl := Option.some.inj h
    simp [work, sends]
    omega
  · obtain rfl := Option.some.inj h
    simp [work, sends]
  · cases h

theorem waits_or_step (poll : Poll) (s : RelayerState) :
    poll = .asleep ∨ ∃ act, act.brings = false ∧ (poll.step s act).isSome := by
  cases poll with
  | asleep => exact .inl rfl
  | sending addrs =>
    cases addrs with
    | nil => exact .inr ⟨.finish, rfl, rfl⟩
    | cons addr addrs => exact .inr ⟨.send, rfl, rfl⟩

end Poll

namespace Relayer

/-- What is waited for: a node's answer or message, a list, a timer, or a new process. -/
def Act.brings : Act → Bool
  | .scan act => act.brings
  | .tick act => act.brings
  | .poll act => act.brings
  | .crash _ _ => true
  | _ => false

/-- A step of a task. What a remote call of a forward gives, or an answer to a `DELETE`, comes in
time. -/
def Act.moves : Act → Bool
  | .elapse _ => false
  | act => !act.brings

/-- The work of the tasks but for the tick. -/
def restWork (s : Relayer) : ℕ := s.scanner.work + s.poll.work + s.dispatcher.work

def work (s : Relayer) : ℕ := s.tick.worth s.shared.retries s.restWork

section Step

variable {env : RelayerEnv} {s s' : Relayer} {act : Act}

theorem work_sendTo {d d' : Dispatcher Call} {o : Option String} (h : SendTo d o d') :
    d'.work = d.work + if o.isSome then 28 else 0 := by
  rcases o with _ | a
  · rw [h]
    rfl
  · obtain ⟨-, rfl⟩ := h
    simp only [Dispatcher.work, Dispatcher.dirtyEntries, List.length_append,
      List.length_singleton, Option.isSome_some, if_true]
    omega

/-- What is left of the rest, and of the retry state, if the rest takes a step. -/
theorem worth_mono {t : Tick} {retries retries' rest rest' : ℕ} (hrest : rest' < rest)
    (hretries : retries' + rest' ≤ retries + rest) :
    t.worth retries' rest' < t.worth retries rest := by
  unfold Tick.worth
  split <;> omega

theorem work_lt (h : Steps env s act s') (hact : act.moves) : s'.work < s.work := by
  unfold work
  cases h with
  | elapse | crash => cases hact
  | scan hne _ hs hd =>
    have hlt := Scanner.work_step hs hne (by simpa [Act.moves, Act.brings] using hact)
    have hsend := work_sendTo hd
    refine worth_mono ?_ ?_ <;> simp only [restWork] <;> omega
  | scanMatch hs =>
    have hlt := Scanner.work_step hs nofun rfl
    refine worth_mono ?_ ?_ <;> simp only [restWork] <;> omega
  | tick ht hd =>
    have hlt := Tick.worth_lt ht (by simpa [Act.moves, Act.brings] using hact) s.restWork
    have hsend := work_sendTo hd
    rw [restWork, hsend, ← Nat.add_assoc]
    exact hlt
  | poll hp hd =>
    have hlt := Poll.work_step hp (by simpa [Act.moves, Act.brings] using hact)
    have hsend := work_sendTo hd
    refine worth_mono ?_ ?_ <;> simp only [restWork] <;> omega
  | dispatch hsend hcall hd =>
    have hlt := Dispatcher.work_step hd hsend (fun i call h => absurd h (hcall i call).1)
      fun i call => (hcall i call).2.1
    refine worth_mono ?_ ?_ <;> simp only [restWork] <;> omega
  | start hd =>
    have hlt := Dispatcher.work_step hd nofun (fun i call h => by cases h; rfl) nofun
    refine worth_mono ?_ ?_ <;> simp only [restWork] <;> omega
  | @forward i addr call call' input shared l₁ l₂ hi hl hcall =>
    obtain ⟨hlt, hretries⟩ := Call.work_step hcall
    have hold : Dispatcher.tasksWork s.dispatcher.tasks
        = Dispatcher.tasksWork (l₁ ++ l₂) + (6 + call.work) := by
      rw [hl, Dispatcher.tasksWork_split]
      rfl
    have hnew : Dispatcher.tasksWork (l₁ ++ ⟨addr, .running call'⟩ :: l₂)
        = Dispatcher.tasksWork (l₁ ++ l₂) + (6 + call'.work) := by
      rw [Dispatcher.tasksWork_split]
      rfl
    refine worth_mono ?_ ?_ <;>
      simp only [restWork, Dispatcher.work, Dispatcher.dirtyEntries] <;> omega
  | finish hi hl =>
    have hstep := @Dispatcher.Steps.finish _ forwardQueueCapacity s.dispatcher _ _ _ _ _ hi hl
    have hlt := Dispatcher.work_step hstep nofun nofun nofun
    refine worth_mono ?_ ?_ <;> simp only [restWork] <;> omega

theorem moves_or_elapse (h : ¬ act.brings) : act.moves ∨ ∃ d, act = .elapse d := by
  cases act with
  | elapse d => exact .inr ⟨d, rfl⟩
  | _ => exact .inl (by simpa [Act.moves] using h)

theorem works (env : RelayerEnv) : (relayer env).Works Act.moves Act.brings work where
  lt _ hact hs := work_lt (steps_of_step hs) hact
  le _ hact hs := by
    rcases moves_or_elapse hact with hact | ⟨d, rfl⟩
    · exact (work_lt (steps_of_step hs) hact).le
    · obtain rfl := Option.some.inj hs
      exact Nat.le_refl _

end Step

/-- Every task waits for a node, a list or a timer, and no trigger or call is left. -/
structure AtRest (s : Relayer) : Prop where
  scanner : s.scanner.awaits
  tick : s.tick = .start ∨ s.tick = .asleep
  poll : s.poll = .asleep
  queue : s.dispatcher.queue = []
  loop : s.dispatcher.loop = .recv
  tasks : s.dispatcher.tasks = []

def rests (s : Relayer) : Bool :=
  match s.tick, s.poll, s.dispatcher.queue, s.dispatcher.loop, s.dispatcher.tasks with
  | .start, .asleep, [], .recv, [] | .asleep, .asleep, [], .recv, [] => s.scanner.awaits
  | _, _, _, _, _ => false

theorem atRest_of_rests {s : Relayer} (h : s.rests) : s.AtRest := by
  unfold rests at h
  split at h
  · exact ⟨h, .inl ‹_›, ‹_›, ‹_›, ‹_›, ‹_›⟩
  · exact ⟨h, .inr ‹_›, ‹_›, ‹_›, ‹_›, ‹_›⟩
  · cases h

section Progress

variable {env : RelayerEnv} {log : List Step} {s : Relayer}

theorem permits_of_reachable (h : (relayer env).Reachable s) :
    s.dispatcher.permits + s.dispatcher.heldPermits = max env.config.forwardConcurrency 1 := by
  refine h.invariant (I := fun s => s.dispatcher.permits + s.dispatcher.heldPermits
    = max env.config.forwardConcurrency 1) ?_ ?_
  · rintro _ ⟨_, _, _, _, _, rfl⟩
    simp [new, Dispatcher.start, Dispatcher.heldPermits, Dispatcher.permitAtLoop]
  · intro s act s' ih hs
    rcases dispatcher_cases (steps_of_step hs) with hd | ⟨_, hd⟩ | hd
    · rwa [hd]
    · rw [Dispatcher.permits_step hd, ih]
    · rw [hd]
      simp [Dispatcher.start, Dispatcher.heldPermits, Dispatcher.permitAtLoop]

/-- Some task can take a step. -/
def Moves (env : RelayerEnv) (s : Relayer) : Prop :=
  ∃ act : Act, act.moves ∧ (s.step env act).isSome

theorem moves_of_send {s : Relayer} {o : Option String} (hroom : s.dispatcher.queue = []) :
    (s.send o).isSome := by
  rcases o with _ | a
  · rfl
  · simp [send, Dispatcher.send, hroom, forwardQueueCapacity]

/-- A task that does not wait for room in the channel can take a step. -/
theorem moves_of_task {t : Task Call} (ht : t ∈ s.dispatcher.tasks)
    (hroom : t.stage.holdsPermit ∨ s.dispatcher.queue = []) : s.Moves env := by
  obtain ⟨i, hi⟩ := List.mem_iff_getElem?.1 ht
  obtain ⟨a, stage⟩ := t
  cases stage with
  | spawned => exact ⟨.start i, rfl, by simp [step, Dispatcher.step, hi]⟩
  | running call =>
    rcases call.done_or_step env s.now a s.shared with ⟨status, rfl⟩ | ⟨input, hinput⟩
    · exact ⟨.finish i, rfl, by simp [step, Dispatcher.step, hi]⟩
    · obtain ⟨⟨shared, call'⟩, hcall⟩ := Option.isSome_iff_exists.1 hinput
      exact ⟨.forward i input, rfl, by simp [step, forward, Dispatcher.step, hi, hcall]⟩
  | returned => exact ⟨.dispatch (.remove i), rfl, by simp [step, dispatch, Dispatcher.step, hi]⟩
  | removed requeue =>
    refine ⟨.dispatch (.release i), rfl, ?_⟩
    cases requeue <;> simp [step, dispatch, Dispatcher.step, hi]
  | sending =>
    have hqueue := hroom.resolve_left (by simp)
    refine ⟨.dispatch (.resend i), rfl, ?_⟩
    simp [step, dispatch, Dispatcher.step, Dispatcher.send, hi, hqueue, forwardQueueCapacity]

theorem moves_of_dispatcher (h : (relayer env).Reachable s) (hrest : ¬ (s.dispatcher.queue = []
    ∧ s.dispatcher.loop = .recv ∧ s.dispatcher.tasks = [])) : s.Moves env := by
  rcases hloop : s.dispatcher.loop with _ | a | a | a
  · rcases hqueue : s.dispatcher.queue with _ | ⟨a, queue⟩
    · obtain ⟨t, ht⟩ := List.exists_mem_of_ne_nil _ fun htasks => hrest ⟨hqueue, hloop, htasks⟩
      exact moves_of_task ht (.inr hqueue)
    · exact ⟨.dispatch .recv, rfl, by simp [step, dispatch, Dispatcher.step, hloop, hqueue]⟩
  · refine ⟨.dispatch .lock, rfl, ?_⟩
    rcases hx : s.dispatcher.inFlight.lookup a with _ | dirty <;>
      simp [step, dispatch, Dispatcher.step, hloop, hx]
  · rcases hfree : s.dispatcher.permits with _ | free
    · have hheld : 0 < s.dispatcher.tasks.countP fun t => t.stage.holdsPermit := by
        have hpermits := permits_of_reachable h
        simp only [Dispatcher.heldPermits, Dispatcher.permitAtLoop, hloop] at hpermits
        omega
      obtain ⟨t, ht, hp⟩ := List.countP_pos_iff.1 hheld
      exact moves_of_task ht (.inl hp)
    · exact ⟨.dispatch .acquire, rfl, by simp [step, dispatch, Dispatcher.step, hloop, hfree]⟩
  · exact ⟨.dispatch .spawn, rfl, by simp [step, dispatch, Dispatcher.step, hloop]⟩

/-- With room in the channel, a producer that does not wait can take a step. -/
theorem moves_of_producers (hroom : s.dispatcher.queue = [])
    (hrest : ¬ (s.scanner.awaits ∧ (s.tick = .start ∨ s.tick = .asleep) ∧ s.poll = .asleep)) :
    s.Moves env := by
  rcases s.tick.waits_or_step env s.now s.shared with htick | ⟨act, hact, hs⟩
  · rcases s.poll.waits_or_step s.shared with hpoll | ⟨act, hact, hs⟩
    · rcases s.scanner.waits_or_step env.scanner s.shared.live with
        hscan | hs | ⟨act, hact, hcrash, hmatch, hs⟩
      · exact absurd ⟨hscan, htick, hpoll⟩ hrest
      · obtain ⟨scanner, hscanner⟩ := Option.isSome_iff_exists.1 hs
        exact ⟨.scanMatch, rfl, by simp [step, hscanner]⟩
      · obtain ⟨scanner, hscanner⟩ := Option.isSome_iff_exists.1 hs
        refine ⟨.scan act, by simp [Act.moves, Act.brings, hact], ?_⟩
        rw [step, hscanner]
        · exact moves_of_send hroom
        · exact hmatch
        · exact hcrash
    · obtain ⟨poll, hpoll⟩ := Option.isSome_iff_exists.1 hs
      refine ⟨.poll act, by simp [Act.moves, Act.brings, hact], ?_⟩
      rw [step, hpoll]
      exact moves_of_send hroom
  · obtain ⟨⟨shared, tick⟩, htick⟩ := Option.isSome_iff_exists.1 hs
    refine ⟨.tick act, by simp [Act.moves, Act.brings, hact], ?_⟩
    rw [step, htick]
    exact moves_of_send hroom

/-- The relayer never deadlocks. -/
theorem moves_of_not_atRest (h : (relayer env).Reachable s) (hrest : ¬ s.AtRest) :
    s.Moves env := by
  by_cases hd : s.dispatcher.queue = [] ∧ s.dispatcher.loop = .recv ∧ s.dispatcher.tasks = []
  · refine moves_of_producers hd.1 fun hp => hrest ?_
    exact ⟨hp.1, hp.2.1, hp.2.2, hd.1, hd.2.1, hd.2.2⟩
  · exact moves_of_dispatcher h hd

/-- At rest every permit is free, and no address is in flight. -/
theorem free_of_atRest (h : (relayer env).Reachable s) (hrest : s.AtRest) :
    s.dispatcher.permits = max env.config.forwardConcurrency 1
      ∧ ∀ a, a ∉ s.dispatcher.inFlight := by
  refine ⟨?_, fun a => ?_⟩
  · have hpermits := permits_of_reachable h
    simpa [Dispatcher.heldPermits, Dispatcher.permitAtLoop, hrest.loop, hrest.tasks] using hpermits
  · have hholders := holders_of_reachable h a
    simpa [Dispatcher.holders, Dispatcher.atLoop, Dispatcher.tasksOf, hrest.loop, hrest.tasks]
      using hholders

/-- From any state of any run the tasks come to rest: until something is brought to them, by a node,
by the backend's list or by a timer, they take no more steps than the state is worth, in any order
and however much time goes by between them; they can take one wherever they are not at rest; so
there is a way to rest, and every way that is gone on with leads there. At rest every permit is
free and no address is in flight. -/
theorem comes_to_rest (h : (relayer env).Run log s) :
    (∀ acts log' s', (relayer env).exec acts log s = some (log', s') →
        (∀ act ∈ acts, ¬ act.brings) → acts.countP Act.moves + s'.work ≤ s.work)
      ∧ (¬ s.AtRest → s.Moves env)
      ∧ (∃ acts log' s', (∀ act ∈ acts, act.moves)
        ∧ (relayer env).exec acts log s = some (log', s') ∧ s'.AtRest)
      ∧ (s.AtRest → s.dispatcher.permits = max env.config.forwardConcurrency 1
        ∧ ∀ a, a ∉ s.dispatcher.inFlight) := by
  refine ⟨fun acts log' s' he hacts => (works env).countP_add_le hacts h he,
    moves_of_not_atRest h.reachable, (works env).exists_rest (fun s hr hrest => ?_) h,
    free_of_atRest h.reachable⟩
  obtain ⟨act, hact, hs⟩ := moves_of_not_atRest hr hrest
  obtain ⟨s', hs'⟩ := Option.isSome_iff_exists.1 hs
  exact ⟨act, s', hact, hs'⟩

/-- A call is under way, and the tick is yet to collect. -/
theorem comes_to_rest_calling : ∃ log s, (relayer (exampleEnv 60 60)).Run log s
    ∧ s.calls "celestia1a" ≠ [] ∧ s.dispatcher.permits = 3
    ∧ (¬ s.AtRest → s.Moves (exampleEnv 60 60))
    ∧ ∃ acts log' s', (∀ act ∈ acts, act.moves)
      ∧ (relayer (exampleEnv 60 60)).exec acts log s = some (log', s') ∧ s'.AtRest := by
  obtain ⟨log, s, hrun, -, h⟩ := Machine.exists_run_of_exec (relayer (exampleEnv 60 60))
    (listingTick [listed "celestia1a"] ["celestia1a"] ++ [.tick .probe] ++ startCall)
    (exampleStart (exampleEnv 60 60))
    (fun _ s => !(s.calls "celestia1a").isEmpty && s.dispatcher.permits == 3)
    (exampleStart_init _) (by decide +kernel)
  simp only [Bool.and_eq_true, Bool.not_eq_true', List.isEmpty_eq_false_iff, beq_iff_eq] at h
  obtain ⟨-, hmoves, hrest, -⟩ := comes_to_rest hrun
  exact ⟨log, s, hrun, h.1, h.2, hmoves, hrest⟩

end Progress

end Relayer

end ForwardingRelayer
