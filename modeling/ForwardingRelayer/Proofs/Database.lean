import ForwardingRelayer.Database
import ForwardingRelayer.Proofs.Activity
import ForwardingRelayer.Proofs.Retry

/-!
# The relayer over its tables

Read as times, the texts of the tables are the store of `relayer`, as long as what is written for a
time is read as that time: every write of a step is then the store's, and a process loads the same
maps from the texts. A time that is written is at most the last backoff ahead of the clock, so up to
an hour before the year 10000 each run of `relayerOnDisk` is a run of `relayer`.
-/

namespace ForwardingRelayer

open RelayerState

section Times

variable {now now' : ℕ}

/-- The time an op writes to the store, if it writes one. -/
def RelayerState.Op.time : Op → Option ℤ
  | .storeActivity ts => some ts
  | .storeRetry state => some state.nextAttempt
  | _ => none

/-- What an op writes is no time before the epoch, and none more than an hour from now. -/
def RelayerState.Op.Timely (now : ℕ) (op : Op) : Prop :=
  ∀ t ∈ op.time, 0 ≤ t ∧ t ≤ now + 3600 * 10 ^ 9

theorem RelayerState.Op.Timely.mono {op : Op} (h : op.Timely now) (hle : now ≤ now') :
    op.Timely now' := fun t ht => ⟨(h t ht).1, by have := (h t ht).2; omega⟩

theorem RelayerState.Op.Timely.inYears {op : Op} (h : op.Timely now)
    (hnow : InYears (now + 3600 * 10 ^ 9)) {t : ℤ} (ht : t ∈ op.time) : InYears t := by
  obtain ⟨h0, hle⟩ := h t ht
  exact ⟨by omega, hle.trans_lt hnow.2⟩

theorem retryDelay_le (failures : UInt32) : retryDelay failures ≤ 3600 := by
  unfold retryDelay retryBackoffScheduleSeconds
  have hlt : min (failures.toNat - 1) 4 < 5 := by omega
  generalize min (failures.toNat - 1) 4 = k at hlt
  decide +revert

/-- An op is followed by ops that write what it has read of the clock. -/
theorem timely_runOp {s : RelayerState} {stored : Bool} {addr : String} {op : Op} :
    ∀ op' ∈ (s.runOp now stored addr op).2, op'.Timely now := by
  cases op with
  | readActivityTime =>
    rintro _ (_ | ⟨_, _ | ⟨_, ⟨⟩⟩⟩) t ht
    · obtain rfl := Option.some.inj ht
      omega
    · cases ht
  | readFailureTime failures =>
    rintro _ (_ | ⟨_, _ | ⟨_, ⟨⟩⟩⟩) t ht
    · obtain rfl := Option.some.inj ht
      have := retryDelay_le failures
      dsimp only
      omega
    · cases ht
  | countFailure =>
    rintro _ (_ | ⟨_, ⟨⟩⟩) t ht
    cases ht
  | _ => simp [runOp]

/-- The ops a tick has still to run. -/
def Tick.ops : Tick → List Op
  | .clear _ _ _ ops _ => ops
  | _ => []

variable {env : RelayerEnv} {a : String} {s s' : RelayerState}

theorem Call.timely_step {call call' : Call} {input : Call.Input}
    (h : Call.Steps env now a s call input s' call') (hc : ∀ op ∈ call.ops, op.Timely now) :
    ∀ op ∈ call'.ops, op.Timely now := by
  cases h with
  | record | close =>
    intro op hop
    rcases List.mem_append.1 hop with hop | hop
    · exact timely_runOp op hop
    · exact hc op (List.mem_cons_of_mem _ hop)
  | queryFailed | empty | funded | feeFailed | submitted | submitFailed =>
    simp [ops, noteFailure, clearRetryState, recordActivity, Op.Timely, Op.time]
  | _ => simp [ops, forwardCall]

theorem Tick.timely_step {t t' : Tick} {act : Tick.Act}
    (h : Tick.Steps env now s t act s' t') (ht : ∀ op ∈ t.ops, op.Timely now) :
    ∀ op ∈ t'.ops, op.Timely now := by
  cases h with
  | clear =>
    intro op hop
    rcases List.mem_append.1 hop with hop | hop
    · exact timely_runOp op hop
    · exact ht op (List.mem_cons_of_mem _ hop)
  | retireNext => simp [ops, clearRetryState, clearActivity, Op.Timely, Op.time]
  | _ => simp [ops]

end Times

namespace Relayer

variable {env : RelayerEnv} {s s' : Relayer} {act : Act} {a : String}

/-- The call for `a` and the tick are about to write no other times. -/
structure Timely (a : String) (s : Relayer) : Prop where
  calls : ∀ call ∈ s.calls a, ∀ op ∈ call.ops, op.Timely s.now
  tick : ∀ op ∈ s.tick.ops, op.Timely s.now

theorem timely_new {now : ℕ} {store : RetryStore} {height : Option ℤ} {r b : Bool} :
    Timely a (new env now store height r b) :=
  ⟨by simp [calls, new, Dispatcher.start], by simp [new, Tick.ops]⟩

theorem timely_step (hr : (relayer env).Reachable s) (h : Steps env s act s') (hs : Timely a s) :
    Timely a s' := by
  have hmono := now_le_of_steps h
  have hcall : ∀ call ∈ s.calls a, ∀ op ∈ call.ops, op.Timely s'.now :=
    fun call hc op hop => (hs.calls call hc op hop).mono hmono
  have htick : ∀ op ∈ s.tick.ops, op.Timely s'.now := fun op hop => (hs.tick op hop).mono hmono
  cases seen_of_steps hr h a with
  | @call _ call call' _ _ _ hcalls hcalls' hsteps ht hnow =>
    refine ⟨?_, ht ▸ htick⟩
    rw [hcalls', hnow]
    simp only [List.mem_singleton, forall_eq]
    exact Call.timely_step hsteps (hs.calls call (by simp [hcalls]))
  | start _ _ hcalls' _ ht => exact ⟨by simp [hcalls', Call.ops], ht ▸ htick⟩
  | finish _ _ _ hcalls' _ ht => exact ⟨by simp [hcalls'], ht ▸ htick⟩
  | tick _ ht hcalls hnow =>
    refine ⟨hcalls ▸ hcall, ?_⟩
    rw [hnow]
    exact Tick.timely_step ht hs.tick
  | other _ _ _ _ hcalls ht => exact ⟨hcalls ▸ hcall, ht ▸ htick⟩
  | crash _ hs' =>
    rw [hs']
    exact timely_new

theorem timely_of_reachable (h : (relayer env).Reachable s) (a : String) : Timely a s := by
  obtain ⟨log, hr⟩ := h
  refine hr.invariant (I := fun _ s => Timely a s) ?_ ?_
  · rintro _ ⟨_, _, _, _, _, rfl⟩
    exact timely_new
  · intro log s act s' hr ih hs
    exact timely_step hr.reachable (steps_of_step hs) ih

end Relayer

namespace Database

variable {chrono : Chrono} {db : Database} {addr : String}

/-- What is written for a time is read as that time. -/
theorem readTime_toRfc3339 (htrips : chrono.RoundTrips) {t : ℤ} (ht : InYears t) :
    readTime chrono (chrono.toRfc3339 (.ofNanos t)) = some t := by
  rw [readTime, htrips t ht, Option.map_some, UtcTime.toNanos_ofNanos]

theorem rows_upsert (htrips : chrono.RoundTrips) {state : RetryState}
    (ht : InYears state.nextAttempt) :
    (db.upsert chrono addr state).rows chrono = (db.rows chrono).upsert addr state := by
  rw [rows, RetryStore.upsert, rows, RetryStore.mk.injEq]
  refine ⟨AList.filterMap_insert _ _ ?_, rfl⟩
  rw [readTime_toRfc3339 htrips ht]

theorem rows_upsertActivity (htrips : chrono.RoundTrips) {ts : ℤ} (ht : InYears ts) :
    (db.upsertActivity chrono addr ts).rows chrono = (db.rows chrono).upsertActivity addr ts := by
  rw [rows, RetryStore.upsertActivity, rows, RetryStore.mk.injEq]
  refine ⟨rfl, AList.filterMap_insert _ _ ?_⟩
  rw [readTime_toRfc3339 htrips ht]

theorem rows_remove : (db.remove addr).rows chrono = (db.rows chrono).remove addr := by
  rw [rows, RetryStore.remove, rows, RetryStore.mk.injEq]
  exact ⟨AList.filterMap_erase _ _ _, rfl⟩

theorem rows_removeActivity :
    (db.removeActivity addr).rows chrono = (db.rows chrono).removeActivity addr := by
  rw [rows, RetryStore.removeActivity, rows, RetryStore.mk.injEq]
  exact ⟨rfl, AList.filterMap_erase _ _ _⟩

theorem rows_retain {active : String → Bool} {leftRetry leftActivity : List String} :
    (db.retain active leftRetry leftActivity).rows chrono
      = (db.rows chrono).retain active leftRetry leftActivity := by
  rw [rows, RetryStore.retain, rows, RetryStore.mk.injEq]
  exact ⟨AList.filterMap_retain _ _ _, AList.filterMap_retain _ _ _⟩

/-- A process loads from the texts what it would from the times they are read as. -/
theorem load_eq (db : Database) : db.load chrono = (db.rows chrono).load := by
  rw [load, RetryStore.load, rows, AList.filterMap_filterMap]
  rfl

theorem loadActivity_eq (db : Database) :
    db.loadActivity chrono = (db.rows chrono).loadActivity := by
  rw [loadActivity, RetryStore.loadActivity, rows, AList.filterMap_filterMap]
  rfl

/-- An op writes to the tables what it writes to the store. -/
theorem rows_runOp (htrips : chrono.RoundTrips) {s : RelayerState} {now : ℤ} {stored : Bool}
    {op : Op} (ht : ∀ t ∈ op.time, InYears t) (hs : db.rows chrono = s.store) :
    (db.runOp chrono stored addr op).rows chrono = (s.runOp now stored addr op).1.store := by
  cases stored with
  | false => cases op <;> exact hs
  | true =>
    cases op with
    | storeActivity ts =>
      refine (rows_upsertActivity htrips (ht ts rfl)).trans ?_
      rw [hs]
      rfl
    | storeRetry state =>
      refine (rows_upsert htrips (ht state.nextAttempt rfl)).trans ?_
      rw [hs]
      rfl
    | deleteRetry =>
      refine rows_remove.trans ?_
      rw [hs]
      rfl
    | deleteActivity =>
      refine rows_removeActivity.trans ?_
      rw [hs]
      rfl
    | _ => exact hs

end Database

namespace RelayerOnDisk

variable {env : RelayerEnv} {s s' : RelayerOnDisk} {act : Relayer.Act} {r : Relayer}

theorem restart_eq (hs : s.database.rows env.chrono = s.relayer.shared.store) (r b : Bool) :
    s.restart env r b
      = .new env s.relayer.now s.relayer.shared.store s.relayer.scanner.persisted r b := by
  rw [restart, Database.load_eq, Database.loadActivity_eq, hs]
  rfl

theorem rows_forward (htrips : env.chrono.RoundTrips)
    (hs : s.database.rows env.chrono = s.relayer.shared.store) {i : ℕ} {addr : String}
    {call call' : Call} {input : Call.Input} {shared : RelayerState}
    (hi : s.relayer.dispatcher.tasks[i]? = some ⟨addr, .running call⟩)
    (htimes : ∀ op ∈ call.ops, ∀ t ∈ op.time, InYears t)
    (h : Call.Steps env s.relayer.now addr s.relayer.shared call input shared call') :
    (s.write env.chrono (.forward i input)).rows env.chrono = shared.store := by
  cases h with
  | record | close =>
    simp only [write, hi, Call.op]
    exact Database.rows_runOp htrips (htimes _ List.mem_cons_self) hs
  | _ =>
    simp only [write, hi, Call.op]
    exact hs

theorem rows_tick (htrips : env.chrono.RoundTrips)
    (hs : s.database.rows env.chrono = s.relayer.shared.store) {t' : Tick} {tact : Tick.Act}
    {shared : RelayerState} (htimes : ∀ op ∈ s.relayer.tick.ops, ∀ t ∈ op.time, InYears t)
    (h : Tick.Steps env s.relayer.now s.relayer.shared s.relayer.tick tact shared t') :
    (s.write env.chrono (.tick tact)).rows env.chrono = shared.store := by
  unfold write
  generalize s.relayer.tick = t at h htimes
  cases h with
  | clear => exact Database.rows_runOp htrips (htimes _ List.mem_cons_self) hs
  | pruneStore => exact Database.rows_retain.trans (by rw [hs])
  | _ => exact hs

/-- A step leaves in the tables what it leaves in the store. -/
theorem rows_step (htrips : env.chrono.RoundTrips)
    (hr : (ForwardingRelayer.relayer env).Reachable s.relayer)
    (hclock : InYears (s.relayer.now + 3600 * 10 ^ 9))
    (hs : s.database.rows env.chrono = s.relayer.shared.store)
    (h : Relayer.Steps env s.relayer act r) (hact : ∀ r b, act ≠ .crash r b) :
    (s.write env.chrono act).rows env.chrono = r.shared.store := by
  cases h with
  | @forward _ addr call _ _ _ _ _ hi _ hcall =>
    refine rows_forward htrips hs hi (fun op hop t ht => ?_) hcall
    have hmem : call ∈ s.relayer.calls addr :=
      List.mem_filterMap.2 ⟨_, List.mem_of_getElem? hi, by simp [Task.callOf]⟩
    exact ((Relayer.timely_of_reachable hr addr).calls call hmem op hop).inYears hclock ht
  | tick ht =>
    refine rows_tick htrips hs (fun op hop t htime => ?_) ht
    exact ((Relayer.timely_of_reachable hr "").tick op hop).inYears hclock htime
  | crash => exact absurd rfl (hact _ _)
  | _ => exact hs

theorem step_cases (h : s.step env act = some s') :
    (∃ r b, act = .crash r b ∧ s' = { s with relayer := s.restart env r b })
      ∨ ((∀ r b, act ≠ .crash r b) ∧ s'.database = s.write env.chrono act
        ∧ s.relayer.step env act = some s'.relayer) := by
  by_cases hcrash : ∃ r b, act = .crash r b
  · obtain ⟨r, b, rfl⟩ := hcrash
    exact .inl ⟨r, b, rfl, (Option.some.inj h).symm⟩
  · push Not at hcrash
    rw [step] at h
    · obtain ⟨r, hr, rfl⟩ := Option.map_eq_some_iff.1 h
      exact .inr ⟨hcrash, rfl, hr⟩
    · exact hcrash

theorem now_le_of_step (h : s.step env act = some s') : s.relayer.now ≤ s'.relayer.now := by
  rcases step_cases h with ⟨r, b, -, rfl⟩ | ⟨-, -, hr⟩
  · exact le_rfl
  · exact Relayer.now_le_of_steps (Relayer.steps_of_step hr)

/-- A step over the tables is the step over the store they are read as. -/
theorem step_relayer (htrips : env.chrono.RoundTrips)
    (hr : (ForwardingRelayer.relayer env).Reachable s.relayer)
    (hclock : InYears (s.relayer.now + 3600 * 10 ^ 9))
    (hs : s.database.rows env.chrono = s.relayer.shared.store) (h : s.step env act = some s') :
    s.relayer.step env act = some s'.relayer
      ∧ s'.database.rows env.chrono = s'.relayer.shared.store := by
  rcases step_cases h with ⟨r, b, rfl, rfl⟩ | ⟨hact, hdb, hstep⟩
  · have hnew := restart_eq hs r b
    refine ⟨?_, ?_⟩
    · rw [Relayer.step, hnew]
    · dsimp only
      rw [hnew]
      exact hs
  · rw [hdb]
    exact ⟨hstep, rows_step htrips hr hclock hs (Relayer.steps_of_step hstep) hact⟩

/-- What an event is to the relayer. -/
def forget (e : Event RelayerOnDisk Relayer.Act) : Relayer.Step :=
  ⟨e.pre.relayer, e.act, e.post.relayer⟩

/-- Up to an hour before the year 10000, a run over the tables is a run over the store, whose rows
the tables hold in every state. -/
theorem run_relayer {log : List (Event RelayerOnDisk Relayer.Act)}
    (htrips : env.chrono.RoundTrips) (h : (relayerOnDisk env).Run log s)
    (hclock : InYears (s.relayer.now + 3600 * 10 ^ 9)) :
    (ForwardingRelayer.relayer env).Run (log.map forget) s.relayer
      ∧ s.database.rows env.chrono = s.relayer.shared.store := by
  revert hclock
  refine h.invariant (I := fun log s => InYears (s.relayer.now + 3600 * 10 ^ 9) →
    (ForwardingRelayer.relayer env).Run (log.map forget) s.relayer
      ∧ s.database.rows env.chrono = s.relayer.shared.store) ?_ ?_
  · rintro s ⟨-, now, height, r, b, hs⟩ -
    exact ⟨.init ⟨_, _, _, _, _, hs⟩, by rw [hs]; rfl⟩
  · rintro log s act s' - ih hstep hclock
    have hle := now_le_of_step hstep
    have hclock' : InYears (s.relayer.now + 3600 * 10 ^ 9) := by
      obtain ⟨-, hlt⟩ := hclock
      exact ⟨by omega, by omega⟩
    obtain ⟨hr, hs⟩ := ih hclock'
    obtain ⟨hrel, hrows⟩ := step_relayer htrips hr.reachable hclock' hs hstep
    exact ⟨hr.step hrel, hrows⟩

section Example

def diskEnv : RelayerEnv := { Relayer.exampleEnv 3600 3600 with chrono := .standard }

def exampleStart : RelayerOnDisk := ⟨Relayer.exampleStart diskEnv, ⟨∅, ∅⟩⟩

theorem exampleStart_init : (relayerOnDisk diskEnv).init exampleStart :=
  ⟨⟨by simp [exampleStart], by simp [exampleStart]⟩, _, _, _, _, rfl⟩

/-- A restarted process has read the time its backoff ends off the text it is stored as. -/
theorem run_relayer_restarted : ∃ log s, (relayerOnDisk diskEnv).Run log s
    ∧ s.database.retryState.lookup "celestia1a" = some ⟨1, "2025-01-01T00:00:30+00:00"⟩
    ∧ s.relayer.shared.retryState.lookup "celestia1a" = some ⟨1, 1735689630 * 10 ^ 9⟩
    ∧ (ForwardingRelayer.relayer diskEnv).Run (log.map forget) s.relayer
    ∧ s.database.rows .standard = s.relayer.shared.store := by
  obtain ⟨log, s, hrun, -, h⟩ := Machine.exists_run_of_exec
    (relayerOnDisk diskEnv) (Relayer.failedThenRestarted true) exampleStart
    (fun _ s => (s.database.retryState.lookup "celestia1a"
        == some ⟨1, "2025-01-01T00:00:30+00:00"⟩)
      && (s.relayer.shared.retryState.lookup "celestia1a" == some ⟨1, 1735689630 * 10 ^ 9⟩)
      && decide (InYears (s.relayer.now + 3600 * 10 ^ 9)))
    exampleStart_init (by decide +kernel)
  simp only [Bool.and_eq_true, beq_iff_eq, decide_eq_true_eq] at h
  obtain ⟨⟨h1, h2⟩, h3⟩ := h
  exact ⟨log, s, hrun, h1, h2, run_relayer Chrono.standard_roundTrips hrun h3⟩

end Example

end RelayerOnDisk

end ForwardingRelayer
