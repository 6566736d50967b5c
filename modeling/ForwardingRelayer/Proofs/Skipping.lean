import ForwardingRelayer.Proofs.Recovery

/-!
# Just when a height is skipped

The tracker holds the time of the first failure at the height since the last break, and the clock
does not go back, so the height has been stuck for the timeout if any failure since was that long
ago. Then the next assessment that does not ask to wait skips it, whatever it rests on.
-/

namespace ForwardingRelayer

namespace Scanner

/-- The clock as a session's failure is tracked. -/
def clock (e : Step) : Option ℕ :=
  match e.act with
  | .recover now _ => some now
  | _ => none

/-- No failure is tracked at an earlier time than one before it. -/
def Clocked (log : List Step) : Prop :=
  (log.filterMap clock).Pairwise fun later earlier => earlier ≤ later

instance (log : List Step) : Decidable (Clocked log) :=
  inferInstanceAs (Decidable (List.Pairwise _ _))

section Step

variable {cfg : ScannerConfig} {s s' : Scanner} {act : Act} {log : List Step} {now : ℕ}

theorem Clocked.of_cons {e : Step} (h : Clocked (e :: log)) : Clocked log := by
  unfold Clocked at h
  rcases hc : clock e with _ | t
  · rwa [List.filterMap_cons_none hc] at h
  · rw [List.filterMap_cons_some hc] at h
    exact h.of_cons

theorem Clocked.le {e x : Step} (h : Clocked (e :: log)) (hx : x ∈ log) {t t' : ℕ}
    (ht : clock e = some t) (ht' : clock x = some t') : t' ≤ t := by
  rw [Clocked, List.filterMap_cons_some ht, List.pairwise_cons] at h
  exact h.1 t' (List.mem_filterMap.2 ⟨x, hx, ht'⟩)

/-- The tracker is for the height, and goes back to `now` or further. -/
def TracksFrom (height now : ℕ) (s : Scanner) : Prop :=
  s.cursor + 1 = height ∧ ∃ p, s.pruned = some p ∧ p.height = height ∧ p.since ≤ now

theorem tracksFrom_recover (ht : Tracked log s) {now' : ℕ}
    (hclock : Clocked (⟨s, .recover now now', s'⟩ :: log))
    (h : Steps cfg s (.recover now now') s') : TracksFrom (s.cursor + 1) now s' := by
  cases h with
  | recover hp =>
    refine ⟨rfl, _, rfl, rfl, ?_⟩
    rcases hpr : s.pruned with _ | p
    · exact Nat.le_refl _
    · dsimp only
      split
      · obtain ⟨l₁, x, l₂, hlog, ⟨⟨t, hx⟩, -⟩, -⟩ :=
          Since.iff_split.1 (ht.since p (by rw [hpr]; rfl) ‹_›)
        refine hclock.le (x := x) ?_ rfl (by simp [clock, hx])
        rw [hlog]
        exact List.mem_append_right _ List.mem_cons_self
      · exact Nat.le_refl _

theorem tracksFrom_step {height : ℕ} (h : Steps cfg s act s')
    (hb : breaks ⟨s, act, s'⟩ = false) (ht : TracksFrom height now s) :
    TracksFrom height now s' := by
  have hcursor : act ≠ .crash → act ≠ .event .ended → s'.cursor = s.cursor := by
    intro h1 h2
    unfold breaks at hb
    split at hb
    · exact absurd ‹_› h2
    · exact absurd ‹_› h1
    · exact (by simpa using hb : s.cursor = s'.cursor).symm
  obtain ⟨hc, p, hp, hheight, hsince⟩ := ht
  cases h with
  | ended | crash => cases hb
  | recover =>
    refine ⟨hc, _, rfl, hc, ?_⟩
    rw [hp]
    dsimp only
    rwa [if_pos (hheight.trans hc.symm)]
  | @evidence elapsed replies stored hphase hlen =>
    have hkeep := hcursor (by simp) (by simp)
    rcases judge_cases cfg s replies elapsed stored with h | ⟨c, hlt, -, h⟩
    · rw [h]
      exact ⟨hc, p, hp, hheight, hsince⟩
    · rw [h] at hkeep
      simp [skipTo] at hkeep
      omega
  | bootStore | advance =>
    refine ⟨(congrArg (· + 1) (hcursor (by simp) (by simp))).trans hc, p, ?_, hheight, hsince⟩
    simpa using hp
  | _ => exact ⟨(congrArg (· + 1) (hcursor (by simp) (by simp))).trans hc, p, hp, hheight, hsince⟩

end Step

theorem tracksFrom_of_run {cfg : ScannerConfig} {log : List Step} {s : Scanner}
    {height now : ℕ} (h : (blockScanner cfg).Run log s) (hclock : Clocked log)
    (hsince : Since (fun x => clock x = some now ∧ x.pre.cursor + 1 = height)
      (fun x => breaks x) log) : TracksFrom height now s := by
  refine h.since (I := fun log s => Clocked log → TracksFrom height now s) ?_ ?_ hsince hclock
  · rintro log s act s' hr hs ⟨hnow, rfl⟩ hclock
    unfold clock at hnow
    split at hnow
    · rename_i now₀ now' hact
      cases hnow
      simp only [] at hact
      subst hact
      exact tracksFrom_recover (tracked_of_run hr) hclock (steps_of_step hs)
    · cases hnow
  · intro log s act s' _ ih hs hb hclock
    exact tracksFrom_step (steps_of_step hs) (by simpa using hb) (ih hclock.of_cons)

/-- The tracker says whether sessions have failed for the timeout. -/
theorem timeout_le_iff {cfg : ScannerConfig} {log : List Step} {s : Scanner} {since elapsed : ℕ}
    (h : (blockScanner cfg).Run log s) (hclock : Clocked log)
    (hp : s.pruned = some ⟨s.cursor + 1, since⟩) :
    cfg.timeout ≤ elapsed
      ↔ Since (fun x => assesses cfg (s.cursor + 1) (since + elapsed) x) (fun x => breaks x)
        log := by
  constructor
  · intro hle
    refine ((tracked_of_run h).since _ hp rfl).mono ?_
    rintro x ⟨⟨now', hx⟩, hc⟩
    simp only [assesses, hx, hc, beq_self_eq_true, Bool.true_and, decide_eq_true_eq]
    omega
  · intro hsince
    obtain ⟨l₁, x, l₂, hlog, hx, hl⟩ := Since.iff_split.1 hsince
    simp only [assesses] at hx
    split at hx
    · rename_i now now' hact
      simp only [Bool.and_eq_true, beq_iff_eq, decide_eq_true_eq] at hx
      have hfrom : Since (fun x => clock x = some now ∧ x.pre.cursor + 1 = s.cursor + 1)
          (fun x => breaks x) log :=
        Since.iff_split.2 ⟨l₁, x, l₂, hlog, ⟨by simp [clock, hact], hx.1⟩, hl⟩
      obtain ⟨-, p, hp', -, hle⟩ := tracksFrom_of_run h hclock hfrom
      obtain rfl := Option.some.inj (hp.symm.trans hp')
      simp only [] at hle
      omega
    · cases hx

/-- What an assessment skips, by its verdict. -/
theorem judge_lt_iff {cfg : ScannerConfig} {s : Scanner} {elapsed : ℕ}
    {replies : List (Option NodeStatus)} {stored : Bool} :
    s.cursor < (s.judge cfg elapsed replies stored).cursor ↔ s.verdict cfg replies ≠ .wait
      ∧ ((∃ c, s.verdict cfg replies = .pruned c true) ∨ cfg.timeout ≤ elapsed) := by
  rw [judge]
  rcases hv : s.verdict cfg replies with ⟨c, u⟩ | _ | _
  · have hlt := (lt_of_verdict_pruned hv).1
    dsimp only
    split
    · rename_i hu
      simpa [skipTo, hlt] using hu
    · rename_i hu
      simpa using hu
  · dsimp only
    split
    · rename_i hle
      simpa [skipTo] using hle
    · rename_i hle
      simpa using hle
  · simp

/-- An assessment moves the cursor past the stuck height just when it does not ask to wait, and
either all endpoints have answered that they have pruned it, or sessions have failed at it since the
timeout or more before, with no clean end or restart in between. -/
theorem skipped_iff (cfg : ScannerConfig) {log : List Step} {s : Scanner}
    (h : (blockScanner cfg).Run log s) (hclock : Clocked log) {l₁ l₂ : List Step} {e : Step}
    {replies : List (Option NodeStatus)} {stored : Bool} {t : ℕ} (hlog : log = l₁ ++ e :: l₂)
    (hact : e.act = .evidence replies stored) (ht : readAt e = some t) :
    e.pre.cursor < e.post.cursor ↔ e.pre.verdict cfg replies ≠ .wait
      ∧ ((∃ c, e.pre.verdict cfg replies = .pruned c true)
        ∨ Since (fun x => assesses cfg (e.pre.cursor + 1) t x) (fun x => breaks x) l₂) := by
  obtain ⟨hrun, hstep⟩ := h.of_mem hlog
  have hclock₂ : Clocked l₂ := by
    subst hlog
    unfold Clocked at hclock ⊢
    rw [List.filterMap_append, List.pairwise_append] at hclock
    exact Clocked.of_cons hclock.2.1
  have hsteps : Steps cfg e.pre e.act e.post := steps_of_step hstep
  rw [hact] at hsteps
  generalize e.post = s' at hsteps ⊢
  cases hsteps with
  | @evidence elapsed _ _ hphase =>
    obtain ⟨since, hp⟩ := (tracked_of_run hrun).assess elapsed hphase
    obtain rfl : since + elapsed = t := by simpa [readAt, hphase, hp] using ht
    rw [← timeout_le_iff hrun hclock₂ hp]
    exact judge_lt_iff

/-- The node still fails to serve the block when the timeout is over. -/
theorem skipped_iff_stuck : ∃ e l s, (blockScanner stuckConfig).Run (e :: l) s
    ∧ e.pre.cursor = 4 ∧ e.post.cursor = 5
    ∧ ∃ replies, e.pre.verdict stuckConfig replies ≠ .wait
      ∧ ((∃ c, e.pre.verdict stuckConfig replies = .pruned c true)
        ∨ Since (fun x => assesses stuckConfig 5 (60 * 10 ^ 9) x) (fun x => breaks x) l) := by
  obtain ⟨log, s, hrun, -, h⟩ := Machine.exists_run_of_exec (blockScanner stuckConfig)
    (stuckRun false) (start none)
    (fun log _ => decide (Clocked log) && log.head?.any fun e =>
      e.pre.cursor == 4 && e.post.cursor == 5 && readAt e == some (60 * 10 ^ 9)
        && skips stuckConfig e != none)
    ⟨none, by simp, rfl⟩ (by decide +kernel)
  rcases log with _ | ⟨e, l⟩
  · simp at h
  · simp only [Bool.and_eq_true, decide_eq_true_eq, List.head?_cons, Option.any_some,
      beq_iff_eq, bne_iff_ne] at h
    obtain ⟨hclock, ⟨⟨hpre, hpost⟩, ht⟩, hskips⟩ := h
    unfold skips at hskips
    split at hskips
    · rename_i replies stored _ hact _
      have hskipped := (skipped_iff stuckConfig hrun hclock (List.nil_append _).symm hact ht).1
        (by omega)
      rw [hpre] at hskipped
      exact ⟨e, l, s, hrun, hpre, hpost, replies, hskipped⟩
    · exact absurd rfl hskips

end Scanner

end ForwardingRelayer
