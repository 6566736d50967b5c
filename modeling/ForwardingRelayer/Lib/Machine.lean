import Mathlib.Data.List.Basic

/-!
# Machines and their runs

A machine takes one atomic step for each action it accepts. A run is kept as its log, the latest
event first, so what has happened since some event is the part of the log in front of it.
-/

universe u v

/-- A machine: the states it may start in and what each action does. -/
structure Machine (State : Type u) (Act : Type v) where
  init : State → Prop
  step : State → Act → Option State

structure Event (State : Type u) (Act : Type v) where
  pre : State
  act : Act
  post : State

namespace Machine

variable {State : Type u} {Act : Type v} (M : Machine State Act)

inductive Run : List (Event State Act) → State → Prop
  | init {s : State} : M.init s → Run [] s
  | step {log : List (Event State Act)} {s : State} {a : Act} {s' : State} :
      Run log s → M.step s a = some s' → Run (⟨s, a, s'⟩ :: log) s'

def Reachable (s : State) : Prop := ∃ log, M.Run log s

variable {M}

/-- What holds initially and is kept by every step holds along every run. -/
theorem Run.invariant {I : List (Event State Act) → State → Prop}
    (hinit : ∀ s, M.init s → I [] s)
    (hstep : ∀ log s a s', M.Run log s → I log s → M.step s a = some s' →
      I (⟨s, a, s'⟩ :: log) s') {log : List (Event State Act)} {s : State} (h : M.Run log s) :
    I log s := by
  induction h with
  | init hs => exact hinit _ hs
  | step hr hs ih => exact hstep _ _ _ _ hr ih hs

theorem Reachable.invariant {I : State → Prop} (hinit : ∀ s, M.init s → I s)
    (hstep : ∀ s a s', I s → M.step s a = some s' → I s') {s : State} (h : M.Reachable s) :
    I s := by
  obtain ⟨log, hr⟩ := h
  exact hr.invariant (I := fun _ s => I s) hinit fun _ s a s' _ hI hs => hstep s a s' hI hs

theorem Run.reachable {log : List (Event State Act)} {s : State} (h : M.Run log s) :
    M.Reachable s := ⟨log, h⟩

theorem Reachable.step {s s' : State} {a : Act} (h : M.Reachable s) (hs : M.step s a = some s') :
    M.Reachable s' := by
  obtain ⟨log, hr⟩ := h
  exact ⟨_, hr.step hs⟩

/-- Every event of a run is a step out of a state the run reached. -/
theorem Run.of_mem {log l₁ l₂ : List (Event State Act)} {e : Event State Act} {s : State}
    (h : M.Run log s) (hlog : log = l₁ ++ e :: l₂) :
    M.Run l₂ e.pre ∧ M.step e.pre e.act = some e.post := by
  subst hlog
  induction l₁ generalizing s with
  | nil =>
    cases h with
    | step hr hs => exact ⟨hr, hs⟩
  | cons x l₁ ih =>
    cases h with
    | step hr _ => exact ih hr

/-- A machine that starts in no other states has no other runs. -/
theorem Run.mono {log : List (Event State Act)} {s : State} (h : M.Run log s)
    {N : Machine State Act} (hinit : ∀ s, M.init s → N.init s)
    (hstep : ∀ s a, M.step s a = N.step s a) : N.Run log s := by
  induction h with
  | init hs => exact .init (hinit _ hs)
  | step _ hs ih => exact ih.step (hstep _ _ ▸ hs)

section Follow

variable {State' : Type*} {Act' : Type*} (f : State → State')
  (act : Event State Act → Option Act')

/-- The part a component has in an event, if it has one. -/
def follow (e : Event State Act) : Option (Event State' Act') :=
  (act e).map fun a => ⟨f e.pre, a, f e.post⟩

variable {f act} {N : Machine State' Act'}

/-- A component takes a step of its own, or stays as it is. -/
theorem Run.follow_step {log : List (Event State Act)} {s s' : State} {a : Act}
    (h : N.Run (log.filterMap (Machine.follow f act)) (f s))
    (hs : (∃ a', act ⟨s, a, s'⟩ = some a' ∧ N.step (f s) a' = some (f s'))
      ∨ (act ⟨s, a, s'⟩ = none ∧ f s' = f s)) :
    N.Run ((⟨s, a, s'⟩ :: log).filterMap (Machine.follow f act)) (f s') := by
  rcases hs with ⟨a', ha, hs'⟩ | ⟨hnone, heq⟩
  · have hpart : Machine.follow f act ⟨s, a, s'⟩ = some ⟨f s, a', f s'⟩ := by
      simp [Machine.follow, ha]
    rw [List.filterMap_cons_some hpart]
    exact h.step hs'
  · rw [List.filterMap_cons_none (by simp [Machine.follow, hnone]), heq]
    exact h

/-- A component that takes its own steps, or stays as it is, has a run of its own. -/
theorem Run.follow (hinit : ∀ s, M.init s → N.init (f s))
    (hstep : ∀ s a s', M.step s a = some s' →
      (∃ a', act ⟨s, a, s'⟩ = some a' ∧ N.step (f s) a' = some (f s'))
        ∨ (act ⟨s, a, s'⟩ = none ∧ f s' = f s))
    {log : List (Event State Act)} {s : State} (h : M.Run log s) :
    N.Run (log.filterMap (Machine.follow f act)) (f s) := by
  induction h with
  | init hs => exact .init (hinit _ hs)
  | step _ hs ih => exact ih.follow_step (hstep _ _ _ hs)

end Follow

section Trace

variable {β : Type*} (f : Event State Act → Option β)

/-- What `f` reads off the events of a log, the earliest first. -/
def trace (log : List (Event State Act)) : List β := (log.filterMap f).reverse

theorem trace_cons (e : Event State Act) (log : List (Event State Act)) :
    trace f (e :: log) = trace f log ++ (f e).toList := by
  unfold trace
  rcases h : f e with _ | b
  · rw [List.filterMap_cons_none h, Option.toList_none, List.append_nil]
  · rw [List.filterMap_cons_some h, List.reverse_cons, Option.toList_some]

end Trace

variable (M)

/-- The run over a list of actions, put in front of the log. -/
def exec : List Act → List (Event State Act) → State → Option (List (Event State Act) × State)
  | [], log, s => some (log, s)
  | a :: as, log, s =>
    match M.step s a with
    | some s' => exec as (⟨s, a, s'⟩ :: log) s'
    | none => none

variable {M}

theorem Run.exec {log : List (Event State Act)} {s : State} (h : M.Run log s) :
    ∀ {as : List Act} {log' : List (Event State Act)} {s' : State},
      M.exec as log s = some (log', s') → M.Run log' s' := by
  intro as
  induction as generalizing log s with
  | nil =>
    intro log' s' he
    simp only [Machine.exec, Option.some.injEq, Prod.mk.injEq] at he
    obtain ⟨rfl, rfl⟩ := he
    exact h
  | cons a as ih =>
    intro log' s' he
    simp only [Machine.exec] at he
    split at he
    · rename_i t ht
      exact ih (h.step ht) he
    · simp at he

/-- What every step of a list of actions keeps holds when they are done, from any state. -/
theorem exec_invariant {I : List (Event State Act) → State → Prop} : ∀ {as : List Act},
    (∀ a ∈ as, ∀ log s s', I log s → M.step s a = some s' → I (⟨s, a, s'⟩ :: log) s') →
      ∀ {log s log' s'}, I log s → M.exec as log s = some (log', s') → I log' s'
  | [], _, log, s, log', s', hI, he => by
    simp only [Machine.exec, Option.some.injEq, Prod.mk.injEq] at he
    obtain ⟨rfl, rfl⟩ := he
    exact hI
  | a :: as, hstep, log, s, log', s', hI, he => by
    rw [List.forall_mem_cons] at hstep
    simp only [Machine.exec] at he
    split at he
    · rename_i t ht
      exact exec_invariant hstep.2 (hstep.1 _ _ _ hI ht) he
    · simp at he

theorem exec_congr {N : Machine State Act} : ∀ {as : List Act},
    (∀ a ∈ as, ∀ s, M.step s a = N.step s a) → ∀ log s, M.exec as log s = N.exec as log s
  | [], _, _, _ => rfl
  | a :: as, h, log, s => by
    rw [List.forall_mem_cons] at h
    rw [exec, exec, h.1 s]
    rcases N.step s a with _ | s'
    · rfl
    · exact exec_congr h.2 _ s'

theorem exists_run_of_exec (M : Machine State Act) (as : List Act) (s : State)
    (p : List (Event State Act) → State → Bool) (hs : M.init s)
    (h : (M.exec as [] s).any (fun r => p r.1 r.2) = true) :
    ∃ log s', M.Run log s' ∧ M.exec as [] s = some (log, s') ∧ p log s' = true := by
  obtain ⟨⟨log, s'⟩, he, hp⟩ := (Option.any_eq_true _ _).1 h
  exact ⟨log, s', (Run.init hs).exec he, he, hp⟩

end Machine

/-- Some event of `P` is in the log with no event of `Q` after it. -/
def Since {E : Type*} (P Q : E → Prop) : List E → Prop
  | [] => False
  | e :: log => P e ∨ (¬ Q e ∧ Since P Q log)

namespace Since

variable {E : Type*} {P Q : E → Prop}

instance decidable [DecidablePred P] [DecidablePred Q] : DecidablePred (Since P Q)
  | [] => .isFalse id
  | e :: log =>
    let _ := decidable log
    inferInstanceAs (Decidable (P e ∨ (¬ Q e ∧ Since P Q log)))

theorem iff_split {log : List E} :
    Since P Q log ↔ ∃ l₁ e l₂, log = l₁ ++ e :: l₂ ∧ P e ∧ ∀ x ∈ l₁, ¬ Q x := by
  induction log with
  | nil => simp [Since]
  | cons y log ih =>
    simp only [Since, ih]
    constructor
    · rintro (h | ⟨hq, l₁, e, l₂, rfl, he, hl⟩)
      · exact ⟨[], y, log, rfl, h, by simp⟩
      · refine ⟨y :: l₁, e, l₂, rfl, he, fun x hx => ?_⟩
        rcases List.mem_cons.1 hx with rfl | hx
        · exact hq
        · exact hl x hx
    · rintro ⟨_ | ⟨x, l₁⟩, e, l₂, h, he, hl⟩
      · simp only [List.nil_append, List.cons.injEq] at h
        exact .inl (h.1 ▸ he)
      · simp only [List.cons_append, List.cons.injEq] at h
        obtain ⟨rfl, rfl⟩ := h
        exact .inr ⟨hl y (by simp), l₁, e, l₂, rfl, he, fun z hz => hl z (by simp [hz])⟩

/-- Two events with no `Q` after them that are themselves `Q` are one event. -/
theorem and {P' : E → Prop} (hP : ∀ e, P e → Q e) (hP' : ∀ e, P' e → Q e) :
    ∀ {log : List E}, Since P Q log → Since P' Q log → Since (fun e => P e ∧ P' e) Q log
  | e :: log, h, h' => by
    by_cases hq : Q e
    · refine .inl ⟨?_, ?_⟩
      · exact h.resolve_right fun hr => hr.1 hq
      · exact h'.resolve_right fun hr => hr.1 hq
    · refine .inr ⟨hq, and hP hP' ?_ ?_⟩
      · exact (h.resolve_left fun hp => hq (hP e hp)).2
      · exact (h'.resolve_left fun hp => hq (hP' e hp)).2

theorem mono {P' : E → Prop} (hP : ∀ e, P e → P' e) :
    ∀ {log : List E}, Since P Q log → Since P' Q log
  | _ :: _, h => h.imp (hP _) fun hr => ⟨hr.1, mono hP hr.2⟩

theorem anti {Q' : E → Prop} (hQ : ∀ e, Q' e → Q e) :
    ∀ {log : List E}, Since P Q log → Since P Q' log
  | _ :: _, h => h.imp_right fun hr => ⟨fun hq => hr.1 (hQ _ hq), anti hQ hr.2⟩

/-- What ends it as well has not come, or something of `P` has come after it. -/
theorem or_iff {W : E → Prop} (hP : ∀ e, P e → ¬ W e) :
    ∀ {log : List E}, Since P Q log → (Since P (fun e => Q e ∨ W e) log
      ↔ ∀ l₁ w l₂, log = l₁ ++ w :: l₂ → W w → (∀ x ∈ l₁, ¬ Q x) → ∃ x ∈ l₁, P x)
  | e :: log, h => by
    constructor
    · rintro h' (_ | ⟨y, l₁⟩) w l₂ hlog hw hl <;> obtain ⟨rfl, rfl⟩ := List.cons.inj hlog
      · rcases h' with hp | ⟨hq, -⟩
        · exact absurd hw (hP _ hp)
        · exact absurd (.inr hw) hq
      · rcases h' with hp | ⟨hq, h'⟩
        · exact ⟨_, List.mem_cons_self, hp⟩
        · rw [List.forall_mem_cons] at hl
          have hsince : Since P Q (l₁ ++ w :: l₂) := h'.anti fun _ => .inl
          obtain ⟨x, hx, hp⟩ := (or_iff hP hsince).1 h' l₁ w l₂ rfl hw hl.2
          exact ⟨x, List.mem_cons_of_mem _ hx, hp⟩
    · intro hall
      by_cases hp : P e
      · exact .inl hp
      · obtain ⟨hq, h⟩ := h.resolve_left hp
        have hw : ¬ W e := fun hw => by
          obtain ⟨x, hx, -⟩ := hall [] e log rfl hw (by simp)
          cases hx
        refine .inr ⟨fun h => h.elim hq hw, (or_iff hP h).2 fun l₁ w l₂ hlog hw hl => ?_⟩
        obtain ⟨x, hx, hpx⟩ := hall (e :: l₁) w l₂ (by rw [hlog, List.cons_append]) hw
          (List.forall_mem_cons.2 ⟨hq, hl⟩)
        rcases List.mem_cons.1 hx with rfl | hx
        · exact absurd hpx hp
        · exact ⟨x, hx, hpx⟩

end Since

/-- An event of `T` has come while one of `P` was in force, and none of `P` or `Q` has since. -/
def Undone {E : Type*} (P Q T : E → Prop) : List E → Prop
  | [] => False
  | e :: log => (T e ∧ Since P Q log) ∨ (¬ P e ∧ ¬ Q e ∧ Undone P Q T log)

namespace Undone

variable {E : Type*} {P Q T : E → Prop}

instance decidable [DecidablePred P] [DecidablePred Q] [DecidablePred T] :
    DecidablePred (Undone P Q T)
  | [] => .isFalse id
  | e :: log =>
    let _ := decidable log
    inferInstanceAs (Decidable ((T e ∧ Since P Q log) ∨ (¬ P e ∧ ¬ Q e ∧ Undone P Q T log)))

theorem of_append : ∀ {l₁ l₂ : List E}, (∀ x ∈ l₁, ¬ T x) → Undone P Q T (l₁ ++ l₂) →
    Undone P Q T l₂
  | [], _, _, h => h
  | e :: l₁, _, hno, h => by
    rw [List.forall_mem_cons] at hno
    rcases h with ⟨ht, -⟩ | ⟨-, -, h⟩
    · exact absurd ht hno.1
    · exact of_append hno.2 h

/-- What is in force and not undone has had none of `T` since. -/
theorem since : ∀ {log : List E}, ¬ Undone P Q T log → Since P Q log → Since P T log
  | e :: log, hno, h => by
    by_cases hp : P e
    · exact .inl hp
    · obtain ⟨hq, h⟩ := h.resolve_left hp
      refine .inr ⟨fun ht => hno (.inl ⟨ht, h⟩), since (fun hu => hno ?_) h⟩
      exact .inr ⟨hp, hq, hu⟩

end Undone

namespace Machine

variable {State : Type u} {Act : Type v} {M : Machine State Act}
  {log l₁ l₂ : List (Event State Act)} {e : Event State Act} {s : State}

/-- What holds right after an event, and is kept by every step, of the part of the run since. -/
theorem Run.after {I : List (Event State Act) → State → Prop} (h : M.Run (l₁ ++ e :: l₂) s)
    (he : I [] e.post)
    (hstep : ∀ l s a s', M.Run (l ++ e :: l₂) s → I l s → M.step s a = some s' →
      I (⟨s, a, s'⟩ :: l) s') : I l₁ s := by
  induction l₁ generalizing s with
  | nil =>
    cases h with
    | step => exact he
  | cons x l₁ ih =>
    cases h with
    | step hr hs => exact hstep _ _ _ _ hr (ih hr) hs

variable {P Q : Event State Act → Prop}

/-- What an event of `P` brings about, and every step but those of `Q` keeps. -/
theorem Run.since {I : List (Event State Act) → State → Prop}
    (hP : ∀ log s a s', M.Run log s → M.step s a = some s' → P ⟨s, a, s'⟩ →
      I (⟨s, a, s'⟩ :: log) s')
    (hQ : ∀ log s a s', M.Run log s → I log s → M.step s a = some s' → ¬ Q ⟨s, a, s'⟩ →
      I (⟨s, a, s'⟩ :: log) s') (h : M.Run log s) : Since P Q log → I log s := by
  induction h with
  | init => exact False.elim
  | step hr hs ih =>
    rintro (hp | ⟨hq, hsince⟩)
    · exact hP _ _ _ _ hr hs hp
    · exact hQ _ _ _ _ hr (ih hsince) hs hq

/-- What no run starts with, only an event of `P` brings about and every event of `Q` ends. -/
theorem Run.since_of {I : State → Prop} (hinit : ∀ s, M.init s → ¬ I s)
    (hstep : ∀ log s a s', M.Run log s → M.step s a = some s' → I s' →
      P ⟨s, a, s'⟩ ∨ (¬ Q ⟨s, a, s'⟩ ∧ I s)) (h : M.Run log s) : I s → Since P Q log := by
  induction h with
  | init hs => exact fun hI => hinit _ hs hI
  | step hr hs ih => exact fun hI => (hstep _ _ _ _ hr hs hI).imp_right (And.imp_right ih)

end Machine
