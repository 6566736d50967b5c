import Mathlib.Data.List.ReduceOption
import Mathlib.Order.Bounds.Basic
import ForwardingRelayer.Proofs.Scanner

/-!
# The verdict on a stuck height

What the pool's replies amount to, said of the endpoints that answered instead of the evidence
gathered from them: all of them have pruned the height, or one that should serve it fails to and
none serves it, or there is something to wait for. Only membership and one count matter, so the
order of the endpoints does not, and one more answer can only take the skip back or shorten it.
-/

namespace ForwardingRelayer

namespace NodeStatus

def Retains (s : NodeStatus) (height : ℕ) : Prop := s.earliest.1 ≤ height

/-- The node retains the stuck height and its tip is far enough past it. -/
def Eligible (s : NodeStatus) (stuck depth : ℕ) : Prop :=
  s.Retains stuck ∧ stuck + depth ≤ s.latest.1

end NodeStatus

/-- `recover_pruned`'s verdict on a stuck height, with a reply for every endpoint of the pool. -/
def stuckVerdict (stuck depth : ℕ) (replies : List (Option NodeStatus)) : PrunedVerdict :=
  assessEvidence (gatherHeightEvidence stuck depth replies) replies.length stuck

theorem Scanner.verdict_eq {cfg : ScannerConfig} {s : Scanner}
    {replies : List (Option NodeStatus)} (h : replies.length = cfg.endpoints) :
    s.verdict cfg replies = stuckVerdict (s.cursor + 1) cfg.confirmationDepth replies := by
  unfold verdict stuckVerdict
  rw [h]

def AllPruned (stuck : ℕ) (answers : List NodeStatus) : Prop :=
  answers ≠ [] ∧ ∀ s ∈ answers, stuck < s.earliest.1

/-- An eligible endpoint failed the probe, and none so eligible served it. -/
def Broken (stuck depth : ℕ) (answers : List NodeStatus) : Prop :=
  (∃ s ∈ answers, s.Eligible stuck depth ∧ s.serves = false)
    ∧ ∀ s ∈ answers, s.Eligible stuck depth → s.serves = false

def earliestHeights (answers : List NodeStatus) : Set ℕ := {h | ∃ s ∈ answers, s.earliest.1 = h}

section Gather

variable {stuck depth : ℕ} {replies : List (Option NodeStatus)}

def evidenceOf (stuck depth : ℕ) (s : NodeStatus) : HeightEvidence where
  earliest := s.earliest.1
  probe :=
    if s.earliest.1 ≤ stuck ∧ stuck + depth ≤ s.latest.1 then some s.serves else none

theorem gatherHeightEvidence_eq (h : stuck < 2 ^ 63) :
    gatherHeightEvidence stuck depth replies
      = replies.reduceOption.map (evidenceOf stuck depth) := if_pos h

theorem probe_eq_some_iff {s : NodeStatus} {served : Bool} :
    (evidenceOf stuck depth s).probe = some served
      ↔ s.Eligible stuck depth ∧ s.serves = served := by
  unfold evidenceOf NodeStatus.Eligible NodeStatus.Retains
  simp

theorem any_probe_iff {answers : List NodeStatus} {served : Bool} :
    (answers.map (evidenceOf stuck depth)).any (·.probe == some served) = true
      ↔ ∃ s ∈ answers, s.Eligible stuck depth ∧ s.serves = served := by
  simp [probe_eq_some_iff]

theorem min?_earliest {answers : List NodeStatus} {least : ℕ}
    (h : ((answers.map (evidenceOf stuck depth)).map HeightEvidence.earliest).min? = some least) :
    IsLeast (earliestHeights answers) least := by
  rw [List.map_map, List.min?_eq_some_iff] at h
  obtain ⟨hmem, hle⟩ := h
  refine ⟨by simpa [earliestHeights, evidenceOf] using hmem, ?_⟩
  rintro _ ⟨s, hs, rfl⟩
  exact hle _ (List.mem_map.2 ⟨s, hs, rfl⟩)

theorem allPruned_iff {answers : List NodeStatus} {least : ℕ}
    (h : IsLeast (earliestHeights answers) least) : AllPruned stuck answers ↔ stuck < least := by
  obtain ⟨⟨s, hs, hleast⟩, hle⟩ := h
  constructor
  · rintro ⟨-, hall⟩
    exact hleast ▸ hall s hs
  · intro hlt
    exact ⟨List.ne_nil_of_mem hs, fun t ht => hlt.trans_le (hle ⟨t, ht, rfl⟩)⟩

/-- The three ways out of `assess_evidence`, one for each verdict. -/
theorem stuckVerdict_cases (depth : ℕ) (replies : List (Option NodeStatus))
    (h : stuck < 2 ^ 63) :
    (AllPruned stuck replies.reduceOption
        ∧ ∃ c, IsLeast (earliestHeights replies.reduceOption) (c + 1)
          ∧ stuckVerdict stuck depth replies
              = .pruned c (replies.reduceOption.length == replies.length))
      ∨ (¬ AllPruned stuck replies.reduceOption ∧ Broken stuck depth replies.reduceOption
          ∧ stuckVerdict stuck depth replies = .unservable)
      ∨ (¬ AllPruned stuck replies.reduceOption ∧ ¬ Broken stuck depth replies.reduceOption
          ∧ stuckVerdict stuck depth replies = .wait) := by
  unfold stuckVerdict assessEvidence
  rw [gatherHeightEvidence_eq h]
  generalize replies.reduceOption = answers
  by_cases hserved : ∃ s ∈ answers, s.Eligible stuck depth ∧ s.serves = true
  · rw [if_pos (any_probe_iff.2 hserved)]
    obtain ⟨s, hs, helig, hserves⟩ := hserved
    refine .inr (.inr ⟨?_, ?_, rfl⟩)
    · rintro ⟨-, hall⟩
      exact absurd helig.1 (Nat.not_le.2 (hall s hs))
    · rintro ⟨-, hall⟩
      simp [hall s hs helig] at hserves
  · rw [if_neg (mt any_probe_iff.1 hserved)]
    rcases hmin : ((answers.map (evidenceOf stuck depth)).map HeightEvidence.earliest).min?
      with _ | least
    · obtain rfl : answers = [] := by simpa using hmin
      exact .inr (.inr ⟨by simp [AllPruned], by simp [Broken], rfl⟩)
    · have hleast := min?_earliest hmin
      by_cases hgt : least > stuck
      · refine .inl ⟨(allPruned_iff hleast).2 hgt, least - 1, ?_, ?_⟩
        · rwa [Nat.sub_add_cancel (by omega)]
        · simp [hgt]
      · have hnot : ¬ AllPruned stuck answers := mt (allPruned_iff hleast).1 hgt
        simp only [if_neg hgt]
        by_cases hfailed : ∃ s ∈ answers, s.Eligible stuck depth ∧ s.serves = false
        · rw [if_pos (any_probe_iff.2 hfailed)]
          refine .inr (.inl ⟨hnot, ⟨hfailed, fun s hs helig => ?_⟩, rfl⟩)
          exact Bool.eq_false_iff.2 fun hserves => hserved ⟨s, hs, helig, hserves⟩
        · rw [if_neg (mt any_probe_iff.1 hfailed)]
          exact .inr (.inr ⟨hnot, fun hbroken => hfailed hbroken.1, rfl⟩)

theorem stuckVerdict_eq_pruned_iff (h : stuck < 2 ^ 63) {c : ℕ} {u : Bool} :
    stuckVerdict stuck depth replies = .pruned c u
      ↔ AllPruned stuck replies.reduceOption
          ∧ IsLeast (earliestHeights replies.reduceOption) (c + 1)
          ∧ (u = true ↔ ∀ reply ∈ replies, reply.isSome = true) := by
  rw [← List.reduceOption_length_eq_iff]
  rcases stuckVerdict_cases depth replies h with ⟨hall, c', hc', hv⟩ | ⟨hall, -, hv⟩ | ⟨hall, -, hv⟩
  · rw [hv, PrunedVerdict.pruned.injEq]
    constructor
    · rintro ⟨rfl, rfl⟩
      exact ⟨hall, hc', by simp⟩
    · rintro ⟨-, hc, hu⟩
      have hcc := hc.unique hc'
      refine ⟨by omega, ?_⟩
      rw [Bool.eq_iff_iff, beq_iff_eq, hu]
  · rw [hv]
    simp [hall]
  · rw [hv]
    simp [hall]

theorem stuckVerdict_eq_unservable_iff (h : stuck < 2 ^ 63) :
    stuckVerdict stuck depth replies = .unservable ↔ Broken stuck depth replies.reduceOption := by
  rcases stuckVerdict_cases depth replies h with ⟨hall, c, -, hv⟩ | ⟨-, hb, hv⟩ | ⟨-, hb, hv⟩
  · rw [hv]
    simp only [reduceCtorEq, false_iff]
    rintro ⟨⟨s, hs, helig, -⟩, -⟩
    exact absurd helig.1 (Nat.not_le.2 (hall.2 s hs))
  · simp [hv, hb]
  · simp [hv, hb]

theorem stuckVerdict_eq_wait_iff (h : stuck < 2 ^ 63) :
    stuckVerdict stuck depth replies = .wait
      ↔ ¬ AllPruned stuck replies.reduceOption ∧ ¬ Broken stuck depth replies.reduceOption := by
  rcases stuckVerdict_cases depth replies h with
    ⟨hall, c, -, hv⟩ | ⟨-, hb, hv⟩ | ⟨hall, hb, hv⟩
  · simp [hv, hall]
  · simp [hv, hb]
  · simp [hv, hall, hb]

theorem stuckVerdict_perm {replies' : List (Option NodeStatus)} (h : stuck < 2 ^ 63)
    (hperm : replies'.Perm replies) :
    stuckVerdict stuck depth replies' = stuckVerdict stuck depth replies := by
  have hans : replies'.reduceOption.Perm replies.reduceOption := hperm.filterMap id
  have hall : AllPruned stuck replies'.reduceOption ↔ AllPruned stuck replies.reduceOption := by
    unfold AllPruned
    simp only [hans.mem_iff, ne_eq, ← List.length_eq_zero_iff, hans.length_eq]
  have hbroken : Broken stuck depth replies'.reduceOption
      ↔ Broken stuck depth replies.reduceOption := by
    unfold Broken
    simp only [hans.mem_iff]
  have hleast : earliestHeights replies'.reduceOption = earliestHeights replies.reduceOption := by
    unfold earliestHeights
    simp only [hans.mem_iff]
  rcases hv : stuckVerdict stuck depth replies with ⟨c, u⟩ | _ | _
  · rw [stuckVerdict_eq_pruned_iff h] at hv ⊢
    rw [hall, hleast]
    simpa only [hperm.mem_iff] using hv
  · rw [stuckVerdict_eq_unservable_iff h] at hv ⊢
    exact hbroken.2 hv
  · rw [stuckVerdict_eq_wait_iff h] at hv ⊢
    rwa [hall, hbroken]

/-- One more answer among the answers: a verdict to skip stays one without it, and skips no less. -/
theorem stuckVerdict_answer {replies' : List (Option NodeStatus)} {s : NodeStatus}
    (h : stuck < 2 ^ 63) (hans : replies'.reduceOption.Perm (s :: replies.reduceOption))
    (hne : replies.reduceOption ≠ []) {c' : ℕ} {u' : Bool}
    (hv : stuckVerdict stuck depth replies' = .pruned c' u') :
    ∃ c u, stuckVerdict stuck depth replies = .pruned c u ∧ c' ≤ c := by
  obtain ⟨hall', hleast', -⟩ := (stuckVerdict_eq_pruned_iff h).1 hv
  have hmem : ∀ t ∈ replies.reduceOption, t ∈ replies'.reduceOption := fun t ht =>
    hans.mem_iff.2 (List.mem_cons_of_mem _ ht)
  have hall : AllPruned stuck replies.reduceOption := ⟨hne, fun t ht => hall'.2 t (hmem t ht)⟩
  rcases stuckVerdict_cases depth replies h with ⟨-, c, hleast, hc⟩ | ⟨hn, -⟩ | ⟨hn, -⟩
  · refine ⟨c, _, hc, ?_⟩
    obtain ⟨t, ht, heq⟩ := hleast.1
    have hle : c' + 1 ≤ c + 1 := hleast'.2 ⟨t, hmem t ht, heq⟩
    omega
  · exact absurd hall hn
  · exact absurd hall hn

end Gather

/-- The verdict on a stuck height is what the answers of the pool say about it, in any order of
the endpoints, and one more answer neither makes it a skip nor lengthens one. -/
theorem verdict_sound {stuck : ℕ} (hstuck : stuck < 2 ^ 63) (depth : ℕ)
    (replies : List (Option NodeStatus)) :
    (∀ c u, stuckVerdict stuck depth replies = .pruned c u
        ↔ replies.reduceOption ≠ [] ∧ (∀ s ∈ replies.reduceOption, stuck < s.earliest.1)
          ∧ IsLeast (earliestHeights replies.reduceOption) (c + 1)
          ∧ (u = true ↔ ∀ reply ∈ replies, reply.isSome = true))
      ∧ (∀ c u, stuckVerdict stuck depth replies = .pruned c u → stuck ≤ c
          ∧ (∀ s ∈ replies.reduceOption, ∀ height, stuck ≤ height → height ≤ c →
              ¬ s.Retains height)
          ∧ ∃ s ∈ replies.reduceOption, s.Retains (c + 1))
      ∧ (stuckVerdict stuck depth replies = .unservable
          ↔ (∃ s ∈ replies.reduceOption, s.earliest.1 ≤ stuck ∧ stuck + depth ≤ s.latest.1
              ∧ s.serves = false)
            ∧ ¬ ∃ s ∈ replies.reduceOption, s.earliest.1 ≤ stuck ∧ stuck + depth ≤ s.latest.1
              ∧ s.serves = true)
      ∧ (stuckVerdict stuck depth replies = .wait
          ↔ (∀ c u, stuckVerdict stuck depth replies ≠ .pruned c u)
            ∧ stuckVerdict stuck depth replies ≠ .unservable)
      ∧ (∀ replies', replies'.Perm replies →
          stuckVerdict stuck depth replies' = stuckVerdict stuck depth replies)
      ∧ ∀ s replies', replies'.reduceOption.Perm (s :: replies.reduceOption) →
          replies.reduceOption ≠ [] → ∀ c' u', stuckVerdict stuck depth replies' = .pruned c' u' →
          ∃ c u, stuckVerdict stuck depth replies = .pruned c u ∧ c' ≤ c := by
  refine ⟨fun c u => ?_, fun c u hv => ?_, ?_, ?_, ?_, ?_⟩
  · rw [stuckVerdict_eq_pruned_iff hstuck, AllPruned, and_assoc]
  · obtain ⟨hall, hleast, -⟩ := (stuckVerdict_eq_pruned_iff hstuck).1 hv
    obtain ⟨⟨s, hs, heq⟩, hle⟩ := hleast
    have hlt := hall.2 s hs
    refine ⟨by omega, fun t ht height _ hc hret => ?_, s, hs, heq.le⟩
    have hct : c + 1 ≤ t.earliest.1 := hle ⟨t, ht, rfl⟩
    unfold NodeStatus.Retains at hret
    omega
  · rw [stuckVerdict_eq_unservable_iff hstuck]
    simp only [Broken, NodeStatus.Eligible, NodeStatus.Retains, not_exists, not_and, and_assoc,
      and_imp, Bool.not_eq_true]
  · rcases stuckVerdict stuck depth replies with ⟨c, u⟩ | _ | _ <;> simp
  · exact fun replies' hperm => stuckVerdict_perm hstuck hperm
  · exact fun s replies' hans hne c' u' hv => stuckVerdict_answer hstuck hans hne hv

theorem verdict_sound_two :
    stuckVerdict 5 6 [some ⟨⟨9, by decide⟩, ⟨40, by decide⟩, true⟩, none] = .pruned 8 false
      ∧ 5 ≤ 8 := by
  have hv : stuckVerdict 5 6 [some ⟨⟨9, by decide⟩, ⟨40, by decide⟩, true⟩, none]
      = .pruned 8 false := by decide
  exact ⟨hv, ((verdict_sound (by decide) 6 _).2.1 8 false hv).1⟩

end ForwardingRelayer
