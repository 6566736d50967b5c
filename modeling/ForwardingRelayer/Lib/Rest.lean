import ForwardingRelayer.Lib.Machine

/-!
# Coming to rest

A measure of the work a state has left bounds the moves that can be made in a row while nothing
brings more. If some move can be made in every state but those at rest, moves lead to one.
-/

namespace Machine

variable {State Act : Type*}

/-- A move lowers the work, and what brings none does not raise it. -/
structure Works (M : Machine State Act) (moves brings : Act → Bool) (work : State → ℕ) :
    Prop where
  lt : ∀ {s a s'}, M.Reachable s → moves a → M.step s a = some s' → work s' < work s
  le : ∀ {s a s'}, M.Reachable s → ¬ brings a → M.step s a = some s' → work s' ≤ work s

namespace Works

variable {M : Machine State Act} {moves brings : Act → Bool} {work : State → ℕ}

theorem countP_add_le (h : M.Works moves brings work) : ∀ {acts : List Act},
    (∀ a ∈ acts, ¬ brings a) → ∀ {log s log' s'}, M.Run log s →
      M.exec acts log s = some (log', s') → acts.countP moves + work s' ≤ work s
  | [], _, log, s, log', s', _, he => by
    simp only [exec, Option.some.injEq, Prod.mk.injEq] at he
    rw [he.2]
    exact Nat.le_of_eq (Nat.zero_add _)
  | a :: acts, hacts, log, s, log', s', hr, he => by
    rw [List.forall_mem_cons] at hacts
    simp only [exec] at he
    split at he
    · rename_i t ht
      have ih := h.countP_add_le hacts.2 (hr.step ht) he
      have hle := h.le hr.reachable hacts.1 ht
      rw [List.countP_cons]
      split
      · have hlt := h.lt hr.reachable ‹_› ht
        omega
      · omega
    · cases he

theorem exists_rest (h : M.Works moves brings work) {Rest : State → Prop}
    (hmove : ∀ s, M.Reachable s → ¬ Rest s → ∃ a s', moves a ∧ M.step s a = some s')
    {log : List (Event State Act)} {s : State} (hr : M.Run log s) :
    ∃ acts log' s', (∀ a ∈ acts, moves a) ∧ M.exec acts log s = some (log', s') ∧ Rest s' := by
  induction hn : work s using Nat.strongRecOn generalizing log s with
  | _ n ih =>
    by_cases hrest : Rest s
    · exact ⟨[], log, s, List.forall_mem_nil _, rfl, hrest⟩
    · obtain ⟨a, t, ha, ht⟩ := hmove s hr.reachable hrest
      obtain ⟨acts, log', s', hacts, he, hs'⟩ :=
        ih _ (hn ▸ h.lt hr.reachable ha ht) (hr.step ht) rfl
      refine ⟨a :: acts, log', s', List.forall_mem_cons.2 ⟨ha, hacts⟩, ?_, hs'⟩
      simp only [exec, ht]
      exact he

end Works

end Machine
