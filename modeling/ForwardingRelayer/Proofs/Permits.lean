import ForwardingRelayer.Proofs.Dispatcher

/-!
# Who holds the dispatcher's permits

A permit is free, in the loop's hand, or with a task that has not dropped it, and a task has
dropped its permit before it sends its address again. So a task that waits for room in the channel
keeps no permit from the loop, and the loop, which is the channel's only reader, is waited for by
tasks that can take their next step.
-/

namespace ForwardingRelayer

namespace Stage

variable {σ : Type}

@[simp] def holdsPermit : Stage σ → Bool
  | sending => false
  | _ => true

@[simp] def runs : Stage σ → Bool
  | running _ => true
  | _ => false

theorem holdsPermit_of_runs {stage : Stage σ} (h : stage.runs = true) :
    stage.holdsPermit = true := by
  cases stage <;> simp at h ⊢

theorem holdsPermit_of_holdsEntry {stage : Stage σ} (h : stage.holdsEntry = true) :
    stage.holdsPermit = true := by
  cases stage <;> simp at h ⊢

end Stage

namespace Dispatcher

variable {σ : Type}

section Counts

variable (d : Dispatcher σ)

def permitAtLoop : ℕ :=
  match d.loop with
  | .spawning _ => 1
  | _ => 0

/-- The permits that are not free. -/
def heldPermits : ℕ := d.permitAtLoop + d.tasks.countP fun t => t.stage.holdsPermit

end Counts

section Step

variable {capacity : ℕ} {d d' : Dispatcher σ} {act : Act σ}

theorem countP_split {l₁ l₂ : List (Task σ)} {t : Task σ} (hl : d.tasks = l₁ ++ t :: l₂)
    (p : Task σ → Bool) : d.tasks.countP p = (l₁ ++ l₂).countP p + if p t then 1 else 0 := by
  simp only [hl, List.countP_append, List.countP_cons]
  omega

theorem permits_step (h : Steps capacity d act d') :
    d'.permits + d'.heldPermits = d.permits + d.heldPermits := by
  unfold heldPermits
  cases h with
  | send => rfl
  | recv h1 _ | mark h1 _ | insert h1 _ => simp [permitAtLoop, h1]
  | acquire h1 h2 =>
    simp only [permitAtLoop, h1, h2]
    omega
  | spawn h1 =>
    simp only [permitAtLoop, h1, List.countP_append]
    simp
    omega
  | start _ hl | advance _ hl | finish _ hl | remove _ hl =>
    rw [countP_split hl, countP_split rfl]
    simp [permitAtLoop]
  | release _ hl =>
    rw [countP_split hl]
    simp only [permitAtLoop, Stage.holdsPermit, if_true]
    omega
  | requeue _ hl =>
    rw [countP_split hl, countP_split rfl]
    simp only [permitAtLoop, Stage.holdsPermit, if_true]
    simp
    omega
  | resend _ hl =>
    rw [countP_split hl]
    simp [permitAtLoop]

end Step

section Runs

variable {capacity n : ℕ} {d : Dispatcher σ}

/-- No permit is lost, and none is held by a task that waits to send. -/
theorem permits_of_reachable (h : (dispatcher σ capacity n).Reachable d) :
    d.permits + d.heldPermits = max n 1 := by
  refine h.invariant (I := fun d => d.permits + d.heldPermits = max n 1) ?_ ?_
  · rintro _ rfl
    simp [start, heldPermits, permitAtLoop]
  · intro d act d' hd hs
    rw [permits_step (steps_of_step hs), hd]

theorem holdsEntry_of_mem (h : (dispatcher σ capacity n).Reachable d) {a : String}
    (ha : a ∈ d.inFlight) : d.loop = .acquiring a ∨ d.loop = .spawning a
      ∨ ∃ t ∈ d.tasks, t.addr = a ∧ t.stage.holdsEntry = true := by
  have hpos : d.holders a = 1 := by rw [holders_of_reachable h, if_pos ha]
  unfold holders at hpos
  by_cases hloop : d.atLoop a = 0
  · exact .inr (.inr (exists_task_of_tasksOf (by omega)))
  · rcases loop_of_atLoop (Nat.pos_of_ne_zero hloop) with hacquiring | hspawning
    · exact .inl hacquiring
    · exact .inr (.inl hspawning)

theorem mem_of_holdsEntry (h : (dispatcher σ capacity n).Reachable d) {a : String}
    (ha : d.loop = .acquiring a ∨ d.loop = .spawning a
      ∨ ∃ t ∈ d.tasks, t.addr = a ∧ t.stage.holdsEntry = true) : a ∈ d.inFlight := by
  have hpos : 0 < d.holders a := by
    unfold holders
    rcases ha with ha | ha | ⟨t, ht, rfl, hst⟩
    · simp [atLoop, ha]
    · simp [atLoop, ha]
    · have htask : 0 < d.tasksOf t.addr Stage.holdsEntry :=
        List.countP_pos_iff.2 ⟨t, ht, by rw [hst, beq_self_eq_true, Bool.and_self]⟩
      omega
  by_contra hn
  rw [holders_of_reachable h, if_neg hn] at hpos
  omega

end Runs

/-- In every state the dispatcher reaches, an address has at most one task between its spawn and
the removal of its entry, as many calls run as there are permits or fewer, and the addresses in
flight are those the loop is getting a permit for or has a task with an entry for. -/
theorem forwards_exclusive_and_bounded {capacity n : ℕ} {d : Dispatcher σ}
    (h : (dispatcher σ capacity n).Reachable d) :
    (∀ a, d.tasksOf a Stage.holdsEntry ≤ 1)
      ∧ d.tasks.countP (fun t => t.stage.runs) ≤ max n 1
      ∧ ∀ a, a ∈ d.inFlight ↔ d.loop = .acquiring a ∨ d.loop = .spawning a
          ∨ ∃ t ∈ d.tasks, t.addr = a ∧ t.stage.holdsEntry = true := by
  refine ⟨fun a => ?_, ?_, fun a => ⟨holdsEntry_of_mem h, mem_of_holdsEntry h⟩⟩
  · have hle : d.holders a ≤ 1 := by
      rw [holders_of_reachable h]
      split <;> omega
    unfold holders at hle
    omega
  · have hpermits := permits_of_reachable h
    have hruns : d.tasks.countP (fun t => t.stage.runs)
        ≤ d.tasks.countP fun t => t.stage.holdsPermit :=
      List.countP_mono_left fun t _ ht => Stage.holdsPermit_of_runs ht
    unfold heldPermits at hpermits
    omega

theorem forwards_exclusive_and_bounded_two :
    ∃ d : Dispatcher Unit, d.inFlight.lookup "celestia1a" = some true
      ∧ (∀ a, d.tasksOf a Stage.holdsEntry ≤ 1)
      ∧ d.tasks.countP (fun t => t.stage.runs) ≤ max 1 1
      ∧ ∀ a, a ∈ d.inFlight ↔ d.loop = .acquiring a ∨ d.loop = .spawning a
          ∨ ∃ t ∈ d.tasks, t.addr = a ∧ t.stage.holdsEntry = true := by
  obtain ⟨log, d, hrun, -, hdirty⟩ := Machine.exists_run_of_exec
    (dispatcher Unit 1 1) twoTriggers (.start 1)
    (fun _ d => d.inFlight.lookup "celestia1a" == some true) rfl (by decide +kernel)
  exact ⟨d, by simpa using hdirty, forwards_exclusive_and_bounded hrun.reachable⟩

section Progress

variable {capacity n : ℕ} {d : Dispatcher σ}

/-- A trigger is in the channel, awaited by a blocked sender, or recorded as dirty. -/
def Waiting (capacity : ℕ) (d : Dispatcher σ) : Prop :=
  d.queue ≠ [] ∨ (∃ a, d.send capacity a = none) ∨ (∃ t ∈ d.tasks, t.stage = .sending)
    ∨ ∃ a, d.inFlight.lookup a = some true

/-- The loop or a task can take its next step; a call that runs can return. -/
def Moves (capacity : ℕ) (d : Dispatcher σ) : Prop :=
  (∃ act, (act = .recv ∨ act = .lock ∨ act = .acquire ∨ act = .spawn)
      ∧ (d.step capacity act).isSome = true)
    ∨ ∃ i call act, (act = .start i call ∨ act = .finish i ∨ act = .remove i ∨ act = .release i
        ∨ act = .resend i) ∧ (d.step capacity act).isSome = true

theorem moves_of_holdsPermit (call : σ) {t : Task σ} (ht : t ∈ d.tasks)
    (hp : t.stage.holdsPermit = true) : d.Moves capacity := by
  obtain ⟨i, hi⟩ := List.mem_iff_getElem?.1 ht
  obtain ⟨a, stage⟩ := t
  refine .inr ⟨i, call, ?_⟩
  cases stage with
  | spawned => exact ⟨.start i call, by simp, by simp [step, hi]⟩
  | running _ => exact ⟨.finish i, by simp, by simp [step, hi]⟩
  | returned => exact ⟨.remove i, by simp, by simp [step, hi]⟩
  | removed requeue => exact ⟨.release i, by simp, by cases requeue <;> simp [step, hi]⟩
  | sending => simp at hp

theorem moves_of_sending (call : σ) (hcap : 0 < capacity) (hq : d.queue = []) {t : Task σ}
    (ht : t ∈ d.tasks) (hs : t.stage = .sending) : d.Moves capacity := by
  obtain ⟨i, hi⟩ := List.mem_iff_getElem?.1 ht
  obtain ⟨a, stage⟩ := t
  subst hs
  refine .inr ⟨i, call, .resend i, by simp, ?_⟩
  simp [step, hi, send, hq, hcap]

/-- A free permit, or a task that has one and can move. -/
theorem moves_of_acquiring (call : σ) (hpermits : d.permits + d.heldPermits = max n 1)
    {a : String} (hloop : d.loop = .acquiring a) : d.Moves capacity := by
  rcases hfree : d.permits with _ | free
  · have hheld : 0 < d.tasks.countP fun t => t.stage.holdsPermit := by
      simp only [heldPermits, permitAtLoop, hloop] at hpermits
      omega
    obtain ⟨t, ht, hp⟩ := List.countP_pos_iff.1 hheld
    exact moves_of_holdsPermit call ht hp
  · exact .inl ⟨.acquire, by simp, by simp [step, hloop, hfree]⟩

theorem moves_of_recv (call : σ) (hd : (dispatcher σ capacity n).Reachable d)
    (hcap : 0 < capacity) (hloop : d.loop = .recv) (hw : d.Waiting capacity) :
    d.Moves capacity := by
  rcases hq : d.queue with _ | ⟨b, queue⟩
  · rcases hw with hw | ⟨a, hw⟩ | ⟨t, ht, hs⟩ | ⟨a, hdirty⟩
    · exact absurd hq hw
    · simp [send, hq, hcap] at hw
    · exact moves_of_sending call hcap hq ht hs
    · have hmem : a ∈ d.inFlight := AList.lookup_isSome.1 (by rw [hdirty]; rfl)
      rcases holdsEntry_of_mem hd hmem with h | h | ⟨t, ht, -, hentry⟩
      · simp [hloop] at h
      · simp [hloop] at h
      · exact moves_of_holdsPermit call ht (Stage.holdsPermit_of_holdsEntry hentry)
  · exact .inl ⟨.recv, by simp, by simp [step, hloop, hq]⟩

end Progress

/-- While a trigger waits anywhere, the loop or a task can move: what the loop waits for is a
permit of a task that can move, since a task that waits for the channel has none. -/
theorem never_deadlocked {capacity n : ℕ} {d : Dispatcher σ} (call : σ) (hcap : 0 < capacity)
    (hd : (dispatcher σ capacity n).Reachable d) :
    (d.Waiting capacity → d.Moves capacity)
      ∧ d.permits + d.permitAtLoop + d.tasks.countP (fun t => t.stage.holdsPermit) = max n 1
      ∧ ∀ t ∈ d.tasks, t.stage = .sending → t.stage.holdsPermit = false := by
  have hpermits := permits_of_reachable hd
  refine ⟨fun hw => ?_, ?_, ?_⟩
  · rcases hloop : d.loop with _ | a | a | a
    · exact moves_of_recv call hd hcap hloop hw
    · refine .inl ⟨.lock, by simp, ?_⟩
      rcases hx : d.inFlight.lookup a with _ | dirty <;> simp [step, hloop, hx]
    · exact moves_of_acquiring call hpermits hloop
    · exact .inl ⟨.spawn, by simp, by simp [step, hloop]⟩
  · unfold heldPermits at hpermits
    omega
  · rintro t - hs
    rw [hs]
    rfl

theorem never_deadlocked_two :
    ∃ d : Dispatcher Unit, d.inFlight.lookup "celestia1a" = some true ∧ d.Waiting 1
      ∧ (d.Waiting 1 → d.Moves 1)
      ∧ d.permits + d.permitAtLoop + d.tasks.countP (fun t => t.stage.holdsPermit) = max 1 1
      ∧ ∀ t ∈ d.tasks, t.stage = .sending → t.stage.holdsPermit = false := by
  obtain ⟨log, d, hrun, -, hdirty⟩ := Machine.exists_run_of_exec
    (dispatcher Unit 1 1) twoTriggers (.start 1)
    (fun _ d => d.inFlight.lookup "celestia1a" == some true) rfl (by decide +kernel)
  rw [beq_iff_eq] at hdirty
  exact ⟨d, hdirty, .inr (.inr (.inr ⟨_, hdirty⟩)),
    never_deadlocked () (by decide) hrun.reachable⟩

end Dispatcher

end ForwardingRelayer
