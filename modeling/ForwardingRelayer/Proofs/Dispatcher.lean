import Mathlib.Data.Multiset.Count
import Mathlib.Data.Nat.SuccPred
import ForwardingRelayer.Lib.Tasks
import ForwardingRelayer.Dispatcher

/-!
# Every trigger is answered by a start

A trigger the dispatcher has received is in its hand, or it is owed: its call is yet to start, its
entry is dirty, a finished task is about to send it again, or it is back in the channel. Each of
these counts once towards `pending`, which a producer's send raises by one, a start lowers by one,
and nothing else raises; what is pending stays pending until a start.
-/

namespace ForwardingRelayer

namespace Stage

variable {σ : Type}

@[simp] def unstarted : Stage σ → Bool
  | spawned => true
  | _ => false

@[simp] def resends : Stage σ → Bool
  | removed requeue => requeue
  | sending => true
  | _ => false

/-- The task has not removed its entry. -/
@[simp] def holdsEntry : Stage σ → Bool
  | spawned | running _ | returned => true
  | _ => false

end Stage

namespace Dispatcher

variable {σ : Type}

inductive Steps (capacity : ℕ) (d : Dispatcher σ) : Act σ → Dispatcher σ → Prop
  | send {a : String} : d.queue.length < capacity →
      Steps capacity d (.send a) { d with queue := d.queue ++ [a] }
  | recv {a : String} {queue : List String} : d.loop = .recv → d.queue = a :: queue →
      Steps capacity d .recv { d with queue := queue, loop := .received a }
  | mark {a : String} {dirty : Bool} : d.loop = .received a → d.inFlight.lookup a = some dirty →
      Steps capacity d .lock { d with inFlight := d.inFlight.insert a true, loop := .recv }
  | insert {a : String} : d.loop = .received a → d.inFlight.lookup a = none →
      Steps capacity d .lock
        { d with inFlight := d.inFlight.insert a false, loop := .acquiring a }
  | acquire {a : String} {permits : ℕ} : d.loop = .acquiring a → d.permits = permits + 1 →
      Steps capacity d .acquire { d with permits := permits, loop := .spawning a }
  | spawn {a : String} : d.loop = .spawning a →
      Steps capacity d .spawn { d with loop := .recv, tasks := d.tasks ++ [⟨a, .spawned⟩] }
  | start {i : ℕ} {a : String} {call : σ} {l₁ l₂ : List (Task σ)} :
      d.tasks[i]? = some ⟨a, .spawned⟩ → d.tasks = l₁ ++ ⟨a, .spawned⟩ :: l₂ →
      Steps capacity d (.start i call) { d with tasks := l₁ ++ ⟨a, .running call⟩ :: l₂ }
  | advance {i : ℕ} {a : String} {call call' : σ} {l₁ l₂ : List (Task σ)} :
      d.tasks[i]? = some ⟨a, .running call⟩ → d.tasks = l₁ ++ ⟨a, .running call⟩ :: l₂ →
      Steps capacity d (.advance i call') { d with tasks := l₁ ++ ⟨a, .running call'⟩ :: l₂ }
  | finish {i : ℕ} {a : String} {call : σ} {l₁ l₂ : List (Task σ)} :
      d.tasks[i]? = some ⟨a, .running call⟩ → d.tasks = l₁ ++ ⟨a, .running call⟩ :: l₂ →
      Steps capacity d (.finish i) { d with tasks := l₁ ++ ⟨a, .returned⟩ :: l₂ }
  | remove {i : ℕ} {a : String} {l₁ l₂ : List (Task σ)} :
      d.tasks[i]? = some ⟨a, .returned⟩ → d.tasks = l₁ ++ ⟨a, .returned⟩ :: l₂ →
      Steps capacity d (.remove i)
        { d with
          inFlight := d.inFlight.erase a
          tasks := l₁ ++ ⟨a, .removed (d.inFlight.lookup a == some true)⟩ :: l₂ }
  | release {i : ℕ} {a : String} {l₁ l₂ : List (Task σ)} :
      d.tasks[i]? = some ⟨a, .removed false⟩ → d.tasks = l₁ ++ ⟨a, .removed false⟩ :: l₂ →
      Steps capacity d (.release i) { d with permits := d.permits + 1, tasks := l₁ ++ l₂ }
  | requeue {i : ℕ} {a : String} {l₁ l₂ : List (Task σ)} :
      d.tasks[i]? = some ⟨a, .removed true⟩ → d.tasks = l₁ ++ ⟨a, .removed true⟩ :: l₂ →
      Steps capacity d (.release i)
        { d with permits := d.permits + 1, tasks := l₁ ++ ⟨a, .sending⟩ :: l₂ }
  | resend {i : ℕ} {a : String} {l₁ l₂ : List (Task σ)} :
      d.tasks[i]? = some ⟨a, .sending⟩ → d.tasks = l₁ ++ ⟨a, .sending⟩ :: l₂ →
      d.queue.length < capacity →
      Steps capacity d (.resend i) { d with queue := d.queue ++ [a], tasks := l₁ ++ l₂ }

theorem steps_of_step {capacity : ℕ} {d d' : Dispatcher σ} {act : Act σ}
    (h : d.step capacity act = some d') : Steps capacity d act d' := by
  cases act with
  | send a =>
    simp only [step, send, Option.ite_none_right_eq_some, Option.some.injEq] at h
    obtain ⟨hroom, rfl⟩ := h
    exact .send hroom
  | recv =>
    simp only [step] at h
    split at h <;> simp only [Option.some.injEq, reduceCtorEq] at h
    rename_i h1 h2
    exact h ▸ .recv h1 h2
  | lock =>
    simp only [step] at h
    split at h
    · rename_i h1
      split at h <;> rw [Option.some.injEq] at h
      · exact h ▸ .mark h1 ‹_›
      · exact h ▸ .insert h1 ‹_›
    · cases h
  | acquire =>
    simp only [step] at h
    split at h <;> simp only [Option.some.injEq, reduceCtorEq] at h
    rename_i h1 h2
    exact h ▸ .acquire h1 h2
  | spawn =>
    simp only [step] at h
    split at h <;> simp only [Option.some.injEq, reduceCtorEq] at h
    exact h ▸ .spawn ‹_›
  | start i call | advance i call | finish i | remove i =>
    simp only [step, setStage] at h
    split at h <;> simp only [Option.some.injEq, reduceCtorEq] at h
    rename_i h1
    obtain ⟨l₁, l₂, hl, hset, -⟩ := List.exists_split_of_getElem? h1
    rw [hset] at h
    subst h
    first | exact .start h1 hl | exact .advance h1 hl | exact .finish h1 hl | exact .remove h1 hl
  | release i =>
    simp only [step] at h
    split at h <;> simp only [Option.some.injEq, reduceCtorEq] at h <;> rename_i h1 <;>
      obtain ⟨l₁, l₂, hl, hset, herase⟩ := List.exists_split_of_getElem? h1
    · rw [hset] at h
      exact h ▸ .requeue h1 hl
    · rw [herase] at h
      exact h ▸ .release h1 hl
  | resend i =>
    simp only [step, send] at h
    split at h
    · rename_i h1
      obtain ⟨l₁, l₂, hl, -, herase⟩ := List.exists_split_of_getElem? h1
      simp only [herase, Option.ite_none_right_eq_some, Option.some.injEq] at h
      obtain ⟨hroom, rfl⟩ := h
      exact .resend h1 hl hroom
    · cases h

section Counts

variable (d : Dispatcher σ) (a : String)

def inHand : ℕ :=
  match d.loop with
  | .received b => if b = a then 1 else 0
  | _ => 0

/-- The loop has the entry and has not spawned its task. -/
def atLoop : ℕ :=
  match d.loop with
  | .acquiring b | .spawning b => if b = a then 1 else 0
  | _ => 0

def tasksOf (p : Stage σ → Bool) : ℕ :=
  d.tasks.countP fun t => t.addr == a && p t.stage

def dirty : ℕ :=
  match d.inFlight.lookup a with
  | some true => 1
  | _ => 0

/-- The starts of `a` that are still due. -/
def pending : ℕ :=
  d.inHand a + d.atLoop a + d.tasksOf a Stage.unstarted + d.dirty a
    + d.tasksOf a Stage.resends + d.queue.count a

def holders : ℕ := d.atLoop a + d.tasksOf a Stage.holdsEntry

end Counts

def started (e : Event (Dispatcher σ) (Act σ)) : Option String :=
  match e.act with
  | .start i _ => (e.pre.tasks[i]?).map Task.addr
  | _ => none

def produced (e : Event (Dispatcher σ) (Act σ)) : Option String :=
  match e.act with
  | .send a => some a
  | _ => none

def received (e : Event (Dispatcher σ) (Act σ)) : Option String :=
  match e.act with
  | .recv => e.pre.queue.head?
  | _ => none

section Step

variable {capacity : ℕ} {d d' : Dispatcher σ} {act : Act σ}

theorem tasksOf_split {a : String} {l₁ l₂ : List (Task σ)} {t : Task σ}
    (hl : d.tasks = l₁ ++ t :: l₂) (p : Stage σ → Bool) :
    d.tasksOf a p = (l₁ ++ l₂).countP (fun t => t.addr == a && p t.stage)
      + if t.addr = a ∧ p t.stage = true then 1 else 0 := by
  simp only [tasksOf, hl, List.countP_append, List.countP_cons, Bool.and_eq_true, beq_iff_eq]
  omega

/-- A send may raise what is pending and a start lower it, by one; nothing else raises it, and
nothing else brings it to zero. -/
theorem pending_step (h : Steps capacity d act d') (a : String) :
    d'.pending a + (if started ⟨d, act, d'⟩ = some a then 1 else 0)
        ≤ d.pending a + (if produced ⟨d, act, d'⟩ = some a then 1 else 0)
      ∧ (started ⟨d, act, d'⟩ ≠ some a → 0 < d.pending a → 0 < d'.pending a) := by
  unfold pending
  cases h with
  | @send b hroom =>
    by_cases hb : b = a <;> simp [inHand, atLoop, tasksOf, dirty, started, produced, hb]
    all_goals omega
  | @recv b queue h1 h2 =>
    by_cases hb : b = a <;>
      simp [inHand, atLoop, tasksOf, dirty, started, produced, h1, h2, hb]
    all_goals omega
  | @mark b x h1 h2 =>
    by_cases hb : b = a
    · subst hb
      cases x <;> simp [inHand, atLoop, tasksOf, dirty, started, produced, h1, h2]
    · simp [inHand, atLoop, tasksOf, dirty, started, produced, h1, hb,
        AList.lookup_insert_ne (Ne.symm hb)]
  | @insert b h1 h2 =>
    by_cases hb : b = a
    · subst hb
      simp [inHand, atLoop, tasksOf, dirty, started, produced, h1, h2]
    · simp [inHand, atLoop, tasksOf, dirty, started, produced, h1, hb,
        AList.lookup_insert_ne (Ne.symm hb)]
  | @acquire b permits h1 h2 =>
    simp [inHand, atLoop, tasksOf, dirty, started, produced, h1]
  | @spawn b h1 =>
    by_cases hb : b = a <;>
      simp [inHand, atLoop, tasksOf, dirty, started, produced, h1, hb]
  | @start i b call l₁ l₂ h1 hl =>
    rw [tasksOf_split hl, tasksOf_split hl]
    by_cases hb : b = a <;>
      simp [inHand, atLoop, tasksOf, dirty, started, produced, h1, hb]
  | @advance i b call call' l₁ l₂ h1 hl =>
    rw [tasksOf_split hl, tasksOf_split hl]
    simp [inHand, atLoop, tasksOf, dirty, started, produced]
  | @finish i b call l₁ l₂ h1 hl =>
    rw [tasksOf_split hl, tasksOf_split hl]
    simp [inHand, atLoop, tasksOf, dirty, started, produced]
  | @remove i b l₁ l₂ h1 hl =>
    rw [tasksOf_split hl, tasksOf_split hl]
    by_cases hb : b = a
    · subst hb
      rcases hx : d.inFlight.lookup b with _ | x <;> try rcases x with _ | _
      all_goals
        simp [inHand, atLoop, tasksOf, dirty, started, produced, hx]
      all_goals omega
    · simp [inHand, atLoop, tasksOf, dirty, started, produced, hb,
        AList.lookup_erase_ne (Ne.symm hb)]
  | @release i b l₁ l₂ h1 hl =>
    rw [tasksOf_split hl, tasksOf_split hl]
    simp [inHand, atLoop, tasksOf, dirty, started, produced]
  | @requeue i b l₁ l₂ h1 hl =>
    rw [tasksOf_split hl, tasksOf_split hl]
    by_cases hb : b = a <;>
      simp [inHand, atLoop, tasksOf, dirty, started, produced, hb]
    all_goals omega
  | @resend i b l₁ l₂ h1 hl hroom =>
    rw [tasksOf_split hl, tasksOf_split hl]
    by_cases hb : b = a <;>
      simp [inHand, atLoop, tasksOf, dirty, started, produced, hb]
    all_goals omega

/-- An address is in flight just while the loop or one task has its entry. -/
theorem holders_step (h : Steps capacity d act d')
    (hd : ∀ a, d.holders a = if a ∈ d.inFlight then 1 else 0) (a : String) :
    d'.holders a = if a ∈ d'.inFlight then 1 else 0 := by
  have ha := hd a
  unfold holders at ha ⊢
  cases h with
  | send hroom => exact ha
  | recv h1 h2 => simpa [atLoop, tasksOf, h1] using ha
  | @mark b x h1 h2 =>
    have hb : b ∈ d.inFlight := AList.lookup_isSome.1 (by rw [h2]; rfl)
    by_cases hab : a = b
    · subst hab
      simpa [atLoop, tasksOf, h1, hb] using ha
    · simpa [atLoop, tasksOf, h1, hab] using ha
  | @insert b h1 h2 =>
    rw [AList.lookup_eq_none] at h2
    by_cases hab : a = b
    · subst hab
      simpa [atLoop, tasksOf, h1, h2] using ha
    · simpa [atLoop, tasksOf, h1, hab, Ne.symm hab] using ha
  | acquire h1 h2 => simpa [atLoop, tasksOf, h1] using ha
  | @spawn b h1 =>
    rw [← ha]
    by_cases hb : b = a <;> simp [atLoop, tasksOf, h1, hb]
    all_goals omega
  | start _ hl | advance _ hl | finish _ hl =>
    rw [tasksOf_split hl] at ha
    simp [atLoop, tasksOf, List.countP_cons] at ha ⊢
    omega
  | @remove i b l₁ l₂ h1 hl =>
    rw [tasksOf_split hl] at ha
    by_cases hab : a = b
    · subst hab
      have hmem : a ∈ d.inFlight := by
        by_contra hn
        simp [hn] at ha
      have h0 : d.atLoop a
          + (l₁ ++ l₂).countP (fun t => t.addr == a && t.stage.holdsEntry) = 0 := by
        rw [if_pos hmem, if_pos (by simp)] at ha
        omega
      rw [if_neg (by simp), ← h0]
      simp [atLoop, tasksOf]
    · simpa [atLoop, tasksOf, hab, Ne.symm hab] using ha
  | release _ hl | requeue _ hl | resend _ hl =>
    rw [tasksOf_split hl] at ha
    simpa [atLoop, tasksOf] using ha

end Step

/-- A call for `a` is owed: it has its entry and has not started, its entry is dirty, a finished
task is about to send it again, or it is in the channel. -/
def Owed (d : Dispatcher σ) (a : String) : Prop :=
  (a ∈ d.inFlight ∧ (d.loop = .acquiring a ∨ d.loop = .spawning a
      ∨ ∃ t ∈ d.tasks, t.addr = a ∧ t.stage = .spawned))
    ∨ d.inFlight.lookup a = some true
    ∨ (∃ t ∈ d.tasks, t.addr = a ∧ (t.stage = .removed true ∨ t.stage = .sending))
    ∨ a ∈ d.queue

section Runs

variable {capacity n : ℕ} {log : List (Event (Dispatcher σ) (Act σ))} {d : Dispatcher σ}

theorem holders_of_reachable (h : (dispatcher σ capacity n).Reachable d) (a : String) :
    d.holders a = if a ∈ d.inFlight then 1 else 0 := by
  refine h.invariant (I := fun d => ∀ a, d.holders a = if a ∈ d.inFlight then 1 else 0) ?_
    (fun _ _ _ hd hs => holders_step (steps_of_step hs) hd) a
  rintro _ rfl b
  simp [start, holders, atLoop, tasksOf]

theorem exists_task_of_tasksOf {a : String} {p : Stage σ → Bool} (h : 0 < d.tasksOf a p) :
    ∃ t ∈ d.tasks, t.addr = a ∧ p t.stage = true := by
  obtain ⟨t, ht, hp⟩ := List.countP_pos_iff.1 h
  simp only [Bool.and_eq_true, beq_iff_eq] at hp
  exact ⟨t, ht, hp⟩

theorem loop_of_inHand {a : String} (h : 0 < d.inHand a) : d.loop = .received a := by
  unfold inHand at h
  split at h
  · rename_i b hb
    by_cases hab : b = a
    · rw [hb, hab]
    · rw [if_neg hab] at h
      omega
  · omega

theorem loop_of_atLoop {a : String} (h : 0 < d.atLoop a) :
    d.loop = .acquiring a ∨ d.loop = .spawning a := by
  unfold atLoop at h
  split at h
  · rename_i b hb
    by_cases hab : b = a
    · exact .inl (by rw [hb, hab])
    · rw [if_neg hab] at h
      omega
  · rename_i b hb
    by_cases hab : b = a
    · exact .inr (by rw [hb, hab])
    · rw [if_neg hab] at h
      omega
  · omega

theorem lookup_of_dirty {a : String} (h : 0 < d.dirty a) : d.inFlight.lookup a = some true := by
  unfold dirty at h
  split at h
  · assumption
  · omega

theorem owed_of_pending (hd : (dispatcher σ capacity n).Reachable d) {a : String}
    (h : 0 < d.pending a) : d.loop = .received a ∨ d.Owed a := by
  have hmem : 0 < d.holders a → a ∈ d.inFlight := by
    intro hpos
    rw [holders_of_reachable hd] at hpos
    by_contra hn
    simp [hn] at hpos
  have hcases : 0 < d.inHand a ∨ 0 < d.atLoop a ∨ 0 < d.tasksOf a Stage.unstarted
      ∨ 0 < d.dirty a ∨ 0 < d.tasksOf a Stage.resends ∨ 0 < d.queue.count a := by
    unfold pending at h
    omega
  rcases hcases with h | h | h | h | h | h
  · exact .inl (loop_of_inHand h)
  · refine .inr (.inl ⟨hmem (Nat.add_pos_left h _), ?_⟩)
    rcases loop_of_atLoop h with hloop | hloop
    · exact .inl hloop
    · exact .inr (.inl hloop)
  · obtain ⟨⟨b, stage⟩, ht, rfl, hp⟩ := exists_task_of_tasksOf h
    have hstage : stage = .spawned := by
      cases stage <;> simp at hp ⊢
    have hpos : 0 < d.tasksOf b Stage.holdsEntry :=
      List.countP_pos_iff.2 ⟨_, ht, by simp [hstage]⟩
    exact .inr (.inl ⟨hmem (Nat.add_pos_right _ hpos), .inr (.inr ⟨_, ht, rfl, hstage⟩)⟩)
  · exact .inr (.inr (.inl (lookup_of_dirty h)))
  · obtain ⟨⟨b, stage⟩, ht, rfl, hp⟩ := exists_task_of_tasksOf h
    refine .inr (.inr (.inr (.inl ⟨_, ht, rfl, ?_⟩)))
    cases stage <;> simp at hp ⊢
    exact hp
  · exact .inr (.inr (.inr (.inr (List.count_pos_iff.1 h))))

theorem count_started_le (h : (dispatcher σ capacity n).Run log d) (a : String) :
    (log.filterMap started).count a + d.pending a ≤ (log.filterMap produced).count a := by
  refine h.invariant (I := fun log d => (log.filterMap started).count a + d.pending a
    ≤ (log.filterMap produced).count a) ?_ ?_
  · rintro _ rfl
    simp [start, pending, inHand, atLoop, tasksOf, dirty]
  · intro log d act d' _ hI hs
    obtain ⟨hle, -⟩ := pending_step (steps_of_step hs) a
    rw [List.count_filterMap_cons, List.count_filterMap_cons]
    omega

theorem pending_of_received (h : (dispatcher σ capacity n).Run log d) {a : String}
    (hs : Since (fun e => received e = some a) (fun e => started e = some a) log) :
    0 < d.pending a := by
  refine h.since (I := fun _ d => 0 < d.pending a) ?_ ?_ hs
  · intro log d act d' _ hstep hr
    cases steps_of_step hstep with
    | @recv b queue h1 h2 =>
      obtain rfl : b = a := by simpa [received, h2] using hr
      have hhand : inHand { d with queue := queue, loop := .received b } b = 1 := by
        simp [inHand]
      unfold pending
      omega
    | _ => simp [received] at hr
  · intro log d act d' _ hpos hstep hns
    exact (pending_step (steps_of_step hstep) a).2 hns hpos

end Runs

/-- Every trigger the loop has received is in its hand, still owed, or followed by a start of its
address; and there are no more starts than the producers have sent triggers, of any address and of
all. -/
theorem triggers_kept_and_not_amplified {capacity n : ℕ}
    {log : List (Event (Dispatcher σ) (Act σ))} {d : Dispatcher σ}
    (h : (dispatcher σ capacity n).Run log d) :
    (∀ l₁ e l₂ a, log = l₁ ++ e :: l₂ → received e = some a →
        (∃ e' ∈ l₁, started e' = some a) ∨ d.loop = .received a ∨ d.Owed a)
      ∧ (∀ a, (log.filterMap started).count a ≤ (log.filterMap produced).count a)
      ∧ (log.filterMap started).length ≤ (log.filterMap produced).length := by
  have hcount : ∀ a, (log.filterMap started).count a ≤ (log.filterMap produced).count a :=
    fun a => (Nat.le_add_right _ _).trans (count_started_le h a)
  refine ⟨?_, hcount, ?_⟩
  · intro l₁ e l₂ a hlog he
    by_cases hst : ∃ e' ∈ l₁, started e' = some a
    · exact .inl hst
    · refine .inr (owed_of_pending h.reachable (pending_of_received h ?_))
      exact Since.iff_split.2 ⟨l₁, e, l₂, hlog, he, fun x hx hs => hst ⟨x, hx, hs⟩⟩
  · have hle : (log.filterMap started : Multiset String)
        ≤ (log.filterMap produced : Multiset String) :=
      Multiset.le_iff_count.2 (by simpa using hcount)
    simpa using Multiset.card_le_card hle

/-- Two triggers for one address, the second while the call for the first runs. -/
def twoTriggers : List (Act Unit) :=
  [.send "celestia1a", .recv, .lock, .acquire, .spawn, .start 0 (), .send "celestia1a", .recv,
    .lock]

theorem triggers_kept_and_not_amplified_two :
    ∃ log d, (dispatcher Unit 1 1).exec twoTriggers [] (.start 1) = some (log, d)
      ∧ d.inFlight.lookup "celestia1a" = some true
      ∧ (∀ l₁ e l₂ a, log = l₁ ++ e :: l₂ → received e = some a →
        (∃ e' ∈ l₁, started e' = some a) ∨ d.loop = .received a ∨ d.Owed a)
      ∧ (∀ a, (log.filterMap started).count a ≤ (log.filterMap produced).count a)
      ∧ (log.filterMap started).length ≤ (log.filterMap produced).length := by
  obtain ⟨log, d, hrun, hexec, hdirty⟩ := Machine.exists_run_of_exec
    (dispatcher Unit 1 1) twoTriggers (.start 1)
    (fun _ d => d.inFlight.lookup "celestia1a" == some true) rfl (by decide +kernel)
  exact ⟨log, d, hexec, by simpa using hdirty, triggers_kept_and_not_amplified hrun⟩

end Dispatcher

end ForwardingRelayer
