import Mathlib.Data.List.ReduceOption
import ForwardingRelayer.Proofs.Cursor

/-!
# When an unproven skip is made

The tracker keeps the time a height was first found stuck for as long as the cursor stays and no
session ends cleanly. A skip that needs the timeout compares with that time; what the assessments
since have found does not enter. So a skip has unbroken evidence behind it just when each wait since
then lies before a failure that was the timeout ago itself.
-/

namespace ForwardingRelayer

namespace Scanner

def readAt (e : Step) : Option ℕ :=
  match e.pre.phase, e.pre.pruned with
  | .assess elapsed, some p => some (p.since + elapsed)
  | _, _ => none

/-- A height skipped on unproven evidence, and the time its assessment has read. -/
def skips (cfg : ScannerConfig) (e : Step) : Option (ℕ × ℕ) :=
  match e.act, readAt e with
  | .evidence replies _, some t =>
    match e.pre.verdict cfg replies with
    | .unservable | .pruned _ false =>
      if e.pre.cursor < e.post.cursor then some (e.pre.cursor + 1, t) else none
    | _ => none
  | _, _ => none

/-- An assessment of the height begins, the timeout or more before `t`. -/
def assesses (cfg : ScannerConfig) (height t : ℕ) (e : Step) : Bool :=
  match e.act with
  | .recover now _ => e.pre.cursor + 1 == height && now + cfg.timeout ≤ t
  | _ => false

/-- A session ends cleanly, the process ends, or the cursor moves. -/
def breaks (e : Step) : Bool :=
  match e.act with
  | .event .ended | .crash => true
  | _ => e.pre.cursor != e.post.cursor

def waits (cfg : ScannerConfig) (e : Step) : Bool :=
  match e.act with
  | .evidence replies _ => e.pre.verdict cfg replies == .wait
  | _ => false

/-- Some endpoint serves the height an assessment is of. -/
def serves (height : ℕ) (e : Step) : Bool :=
  match e.act with
  | .evidence replies _ =>
    e.pre.cursor + 1 == height && replies.any fun reply => reply.any NodeStatus.serves
  | _ => false

/-- A probed endpoint serves the height an assessment is of, or no endpoint answers. -/
def reassures (cfg : ScannerConfig) (height : ℕ) (e : Step) : Bool :=
  match e.act with
  | .evidence replies _ =>
    e.pre.cursor + 1 == height
      && (replies.all Option.isNone || replies.any fun reply => reply.any fun status =>
        status.serves && decide (status.earliest.1 ≤ height)
          && decide (height + cfg.confirmationDepth ≤ status.latest.1))
  | _ => false

/-- Each assessment since the last break that asked to wait came before one that began the timeout
or more before `t`. -/
def WaitedOut (cfg : ScannerConfig) (height t : ℕ) (log : List Step) : Prop :=
  ∀ l₁ w l₂, log = l₁ ++ w :: l₂ → waits cfg w → (∀ x ∈ l₁, ¬ breaks x) →
    ∃ x ∈ l₁, assesses cfg height t x

/-- The clock as it is read, the latest reading first. -/
def readings (e : Step) : List ℕ :=
  match e.act with
  | .recover now now' => [now', now]
  | _ => []

/-- No reading of the clock is earlier than one before it. -/
def Ticking (log : List Step) : Prop :=
  (log.flatMap readings).Pairwise fun later earlier => earlier ≤ later

instance (log : List Step) : Decidable (Ticking log) :=
  inferInstanceAs (Decidable (List.Pairwise _ _))

/-- What the tracker says of the run. -/
structure Tracked (log : List Step) (s : Scanner) : Prop where
  boot : s.phase = .load ∨ s.phase = .bootTip ∨ s.phase = .bootStore → s.pruned = none
  assess : ∀ elapsed, s.phase = .assess elapsed →
    ∃ since, s.pruned = some ⟨s.cursor + 1, since⟩
  le : ∀ p ∈ s.pruned, p.height ≤ s.cursor + 1
  since : ∀ p ∈ s.pruned, p.height = s.cursor + 1 →
    Since (fun e => (∃ now', e.act = .recover p.since now') ∧ e.pre.cursor + 1 = p.height)
      (fun e => breaks e) log

section Step

variable {cfg : ScannerConfig} {s s' : Scanner} {act : Act} {log : List Step}

/-- A step that leaves the cursor and the tracker. -/
theorem Tracked.keep (ht : Tracked log s) (hb : breaks ⟨s, act, s'⟩ = false)
    (hc : s'.cursor = s.cursor) (hp : s'.pruned = s.pruned)
    (hboot : s'.phase = .load ∨ s'.phase = .bootTip ∨ s'.phase = .bootStore →
      s.phase = .load ∨ s.phase = .bootTip)
    (hassess : ∀ elapsed, s'.phase ≠ .assess elapsed) : Tracked (⟨s, act, s'⟩ :: log) s' where
  boot h := hp.trans (ht.boot ((hboot h).imp_right .inl))
  assess elapsed h := absurd h (hassess elapsed)
  le p h := by
    rw [hc]
    exact ht.le p (hp ▸ h)
  since p h hh := .inr ⟨by simp [hb], ht.since p (hp ▸ h) (hc ▸ hh)⟩

theorem tracked_of_none (e : Step) (hp : s'.pruned = none)
    (hassess : ∀ elapsed, s'.phase ≠ .assess elapsed) : Tracked (e :: log) s' :=
  ⟨fun _ => hp, fun elapsed h => absurd h (hassess elapsed), by simp [hp], by simp [hp]⟩

theorem tracked_step (ht : Tracked log s) (h : Steps cfg s act s') :
    Tracked (⟨s, act, s'⟩ :: log) s' := by
  cases h with
  | loadPersisted hp _ | loadStart hp _ _ | loadTip hp _ =>
    exact tracked_of_none _ (ht.boot (.inl hp)) (by simp)
  | bootTip hp | exit hp => exact tracked_of_none _ (ht.boot (.inr (.inl hp))) (by simp)
  | bootStore hp => exact tracked_of_none _ (by simpa using ht.boot (.inr (.inr hp))) (by simp)
  | advance hp =>
    have hne : ∀ p ∈ s.pruned, p.height ≠ s.cursor + 1 + 1 := fun p hp => by
      have := ht.le p hp
      omega
    refine ⟨by simp, by simp, fun p hp => ?_, fun p hp hh => ?_⟩
    · simp only [storeHeight_pruned, storeHeight_cursor] at hp ⊢
      have := ht.le p hp
      omega
    · simp only [storeHeight_pruned, storeHeight_cursor] at hp hh
      exact absurd hh (hne p hp)
  | ended _ => exact tracked_of_none _ rfl (by simp)
  | @recover now now' hp =>
    -- the clock of the height goes on if the tracker has it, and starts now if not
    by_cases hq : ∃ q ∈ s.pruned, q.height = s.cursor + 1
    · obtain ⟨q, hq, hqh⟩ := hq
      have hrec : (s.recover cfg now now').pruned = some ⟨s.cursor + 1, q.since⟩ := by
        rw [Option.mem_def] at hq
        simp [Scanner.recover, hq, hqh]
      refine ⟨by simp [Scanner.recover], fun elapsed _ => ⟨_, rfl⟩, fun p hp => ?_,
        fun p hp _ => .inr ⟨by simp [breaks, Scanner.recover], ?_⟩⟩
      all_goals
        rw [hrec, Option.mem_def, Option.some.injEq] at hp
        subst hp
      · exact Nat.le_refl _
      · simpa [hqh] using ht.since q hq hqh
    · have hrec : (s.recover cfg now now').pruned = some ⟨s.cursor + 1, now⟩ := by
        rcases hs : s.pruned with _ | q
        · simp [Scanner.recover, hs]
        · have : q.height ≠ s.cursor + 1 := fun h => hq ⟨q, hs, h⟩
          simp [Scanner.recover, hs, this]
      refine ⟨by simp [Scanner.recover], fun elapsed _ => ⟨_, rfl⟩, fun p hp => ?_,
        fun p hp _ => .inl ?_⟩
      all_goals
        rw [hrec, Option.mem_def, Option.some.injEq] at hp
        subst hp
      · exact Nat.le_refl _
      · exact ⟨⟨now', rfl⟩, rfl⟩
  | @evidence elapsed replies stored hp _ =>
    rcases judge_cases cfg s replies elapsed stored with
      h | ⟨c, -, -, h⟩ <;> rw [h]
    · exact ht.keep (by simp [breaks]) rfl rfl (by simp) (by simp)
    · exact tracked_of_none _ (by simp [skipTo]) (by simp)
  | crash => exact tracked_of_none _ rfl (by simp [start])
  | otherEvent hp => exact ht.keep (by simp [breaks]) rfl rfl (by simp [hp]) (by simp [hp])
  | _ hp => exact ht.keep (by simp [breaks]) rfl rfl (by simp) (by simp)

theorem tracked_of_run (h : (blockScanner cfg).Run log s) : Tracked log s := by
  refine h.invariant (I := Tracked) ?_ fun _ _ _ _ _ ht hs => tracked_step ht (steps_of_step hs)
  rintro s ⟨persisted, -, rfl⟩
  exact ⟨fun _ => rfl, by simp [start], by simp [start], by simp [start]⟩

/-- An unproven skip is made the timeout or more after the time its tracker holds. -/
theorem skips_cases {height t : ℕ} (h : Steps cfg s act s')
    (hs : skips cfg ⟨s, act, s'⟩ = some (height, t)) :
    ∃ elapsed p, s.phase = .assess elapsed ∧ s.pruned = some p ∧ cfg.timeout ≤ elapsed
      ∧ height = s.cursor + 1 ∧ t = p.since + elapsed := by
  cases h with
  | @evidence elapsed replies stored hp _ =>
    rcases hpr : s.pruned with _ | p
    · simp [skips, readAt, hp, hpr] at hs
    · refine ⟨elapsed, p, hp, rfl, ?_⟩
      simp only [skips, readAt, hp, hpr] at hs
      split at hs
      all_goals
        first
          | cases hs
          | rw [Option.ite_none_right_eq_some, Option.some.injEq, Prod.mk.injEq] at hs
            obtain ⟨hlt, rfl, rfl⟩ := hs
            rename_i hv
            refine ⟨?_, rfl, rfl⟩
            by_contra hn
            simp [judge, hv, hn] at hlt
  | _ => simp [skips] at hs

end Step

/-- A height skipped on unproven evidence has been assessed since the timeout or more before, and
since then the cursor has stood before it, through failed sessions only. -/
theorem unproven_skip_after_timeout (cfg : ScannerConfig) {log : List Step} {s : Scanner}
    (h : (blockScanner cfg).Run log s) {l₁ l₂ : List Step} {e : Step} {height t : ℕ}
    (hlog : log = l₁ ++ e :: l₂) (hs : skips cfg e = some (height, t)) :
    Since (fun x => assesses cfg height t x) (fun x => breaks x) l₂ := by
  obtain ⟨hrun, hstep⟩ := h.of_mem hlog
  have ht := tracked_of_run hrun
  obtain ⟨elapsed, p, hp, hpr, htimeout, rfl, rfl⟩ := skips_cases (steps_of_step hstep) hs
  obtain ⟨since, hsome⟩ := ht.assess elapsed hp
  rw [hsome, Option.some.injEq] at hpr
  subst hpr
  refine (ht.since _ hsome rfl).mono ?_
  rintro x ⟨⟨now', hx⟩, hc⟩
  simp only [] at hx hc
  simp only [assesses, hx, hc, beq_self_eq_true, Bool.true_and, decide_eq_true_eq]
  omega

section Waits

variable {cfg : ScannerConfig} {s s' : Scanner} {act : Act} {log : List Step}

theorem verdict_of_served {replies : List (Option NodeStatus)} {status : NodeStatus}
    (hmem : some status ∈ replies) (hserves : status.serves = true)
    (hle : status.earliest.1 ≤ s.cursor + 1)
    (hdeep : s.cursor + 1 + cfg.confirmationDepth ≤ status.latest.1) :
    s.verdict cfg replies = .wait := by
  have hfits : s.cursor + 1 < 2 ^ 63 :=
    Nat.lt_of_le_of_lt (Nat.le_trans (Nat.le_add_right _ _) hdeep) status.latest.2
  unfold verdict assessEvidence
  rw [if_pos]
  rw [gatherHeightEvidence, if_pos hfits, List.any_eq_true]
  refine ⟨_, List.mem_map.2 ⟨status, List.reduceOption_mem_iff.2 hmem, rfl⟩, ?_⟩
  simp [hle, hdeep, hserves]

theorem verdict_of_unanswered {replies : List (Option NodeStatus)}
    (h : ∀ reply ∈ replies, reply = none) : s.verdict cfg replies = .wait := by
  have hnil : replies.reduceOption = [] :=
    List.eq_nil_iff_forall_not_mem.2 fun status hmem => by
      cases h _ (List.reduceOption_mem_iff.1 hmem)
  simp [verdict, gatherHeightEvidence, assessEvidence, hnil]

theorem waits_of_reassures {height : ℕ} {e : Step} (h : reassures cfg height e = true) :
    waits cfg e = true := by
  unfold reassures at h
  split at h
  · rename_i replies stored hact
    simp only [Bool.and_eq_true, Bool.or_eq_true, beq_iff_eq, List.all_eq_true, List.any_eq_true,
      Option.isNone_iff_eq_none, Option.any_eq_true, decide_eq_true_eq] at h
    obtain ⟨rfl, hnone | ⟨_, hmem, status, rfl, ⟨hserves, hle⟩, hdeep⟩⟩ := h
    · simp [waits, hact, verdict_of_unanswered hnone]
    · simp [waits, hact, verdict_of_served hmem hserves hle hdeep]
  · cases h

theorem not_waits_of_assesses {height t : ℕ} {e : Step} (h : assesses cfg height t e = true) :
    ¬ waits cfg e = true := by
  unfold assesses at h
  split at h
  · simp [waits, *]
  · cases h

theorem recover_of_assess {elapsed : ℕ} (h : Steps cfg s act s')
    (hp : s'.phase = .assess elapsed) :
    ∃ now now', act = .recover now now' ∧ s' = s.recover cfg now now' := by
  cases h with
  | @recover now now' => exact ⟨now, now', rfl, rfl⟩
  | otherEvent hp' => cases hp'.symm.trans hp
  | crash => simp [start] at hp
  | _ => cases hp

/-- The time an assessment has read is one of the clock's readings. -/
theorem mem_readings_of_assess (h : (blockScanner cfg).Run log s) {elapsed since : ℕ}
    (hp : s.phase = .assess elapsed) (hpr : s.pruned = some ⟨s.cursor + 1, since⟩) :
    since + elapsed ∈ log.flatMap readings := by
  have htracked : since ∈ log.flatMap readings := by
    obtain ⟨l₁, x, l₂, rfl, ⟨⟨now', hx⟩, -⟩, -⟩ :=
      Since.iff_split.1 ((tracked_of_run h).since _ hpr rfl)
    refine List.mem_flatMap.2 ⟨x, List.mem_append_right _ List.mem_cons_self, ?_⟩
    simp [readings, hx]
  cases h with
  | init hs =>
    obtain ⟨persisted, -, rfl⟩ := hs
    cases hp
  | step _ hs =>
    obtain ⟨now, now', rfl, rfl⟩ := recover_of_assess (steps_of_step hs) hp
    have hsince : (Scanner.recover cfg _ now now').pruned = some ⟨_, since⟩ := hpr
    simp only [recover, Option.some.injEq, Pruned.mk.injEq, true_and] at hsince
    simp only [recover, hsince, Phase.assess.injEq] at hp
    rcases Nat.le_total since now' with hle | hle
    · rw [show since + elapsed = now' by omega]
      exact List.mem_flatMap.2 ⟨_, List.mem_cons_self, by simp [readings]⟩
    · rwa [show since + elapsed = since by omega]

/-- What an assessment reads is no later than the clock at a failure after it. -/
theorem readAt_le {l₁ l₂ : List Step} {x a : Step} {now now' : ℕ}
    (h : (blockScanner cfg).Run (l₁ ++ a :: l₂) s) (hticking : Ticking (l₁ ++ a :: l₂))
    (ha : a.act = .recover now now') (hx : x ∈ l₂) {replies : List (Option NodeStatus)}
    {stored : Bool} (hact : x.act = .evidence replies stored) :
    ∃ t, readAt x = some t ∧ t ≤ now := by
  obtain ⟨k₁, k₂, rfl⟩ := List.append_of_mem hx
  have hlog : l₁ ++ a :: (k₁ ++ x :: k₂) = (l₁ ++ a :: k₁) ++ x :: k₂ := by simp
  obtain ⟨hrun, hstep⟩ := h.of_mem hlog
  have hsteps : Steps cfg x.pre x.act x.post := steps_of_step hstep
  rw [hact] at hsteps
  generalize x.post = s' at hsteps
  cases hsteps with
  | @evidence elapsed _ _ hphase =>
    obtain ⟨since, hpr⟩ := (tracked_of_run hrun).assess elapsed hphase
    refine ⟨since + elapsed, by simp [readAt, hphase, hpr], ?_⟩
    have hmem := mem_readings_of_assess hrun hphase hpr
    unfold Ticking at hticking
    rw [List.flatMap_append, List.flatMap_cons, List.flatMap_append, List.flatMap_cons,
      show readings a = [now', now] by simp [readings, ha]] at hticking
    have hcons := (List.pairwise_append.1 hticking).2.1
    rw [List.cons_append, List.cons_append, List.nil_append, List.pairwise_cons,
      List.pairwise_cons] at hcons
    exact hcons.2.1 _ (by simp [hmem])

end Waits

def stuckConfig : ScannerConfig where
  endpoints := 1
  startHeight := some 5
  confirmationDepth := 2
  timeout := 60 * 10 ^ 9

def nodeThat (serves : Bool) : NodeStatus := ⟨⟨1, by decide⟩, ⟨9, by decide⟩, serves⟩

/-- Three sessions fail to connect: at once, a nanosecond later, and when the timeout is over. The
node fails to serve the block at the first and the last assessment, and `serves` it or not at the
one between. -/
def stuckRun (serves : Bool) : List Act :=
  [.load true, .bootStore true, .connect false, .recover 0 0,
    .evidence [some (nodeThat false)] true, .reconnect, .connect false, .recover 1 1,
    .evidence [some (nodeThat serves)] true, .reconnect, .connect false,
    .recover (60 * 10 ^ 9) (60 * 10 ^ 9), .evidence [some (nodeThat false)] true]

/-- The node serves the block at the first assessment only, a nanosecond before the next session
fails, and the skip comes the timeout after that. -/
def waitedRun : List Act :=
  [.load true, .bootStore true, .connect false, .recover 0 0,
    .evidence [some (nodeThat true)] true, .reconnect, .connect false, .recover 1 1,
    .evidence [some (nodeThat false)] true, .reconnect, .connect false,
    .recover (60 * 10 ^ 9 + 1) (60 * 10 ^ 9 + 1), .evidence [some (nodeThat false)] true]

end Scanner

end ForwardingRelayer
