import ForwardingRelayer.Request

/-!
# Comparing balances

Sorting by the denomination keeps the coins of each denomination in the order the list had them, so
`balancesEqual` compares these (`balancesEqual_iff`). Two orders of one multiset of coins come out
equal as long as they do not swap two amounts of one denomination.
-/

namespace ForwardingRelayer

theorem balancesEqual_eq_true_iff {a b : List Balance} :
    balancesEqual a b = true ↔ a.sortByKey Balance.denom = b.sortByKey Balance.denom := by
  have hinj : Function.Injective fun c : Balance => (c.denom, c.amount) := by
    rintro ⟨d, x⟩ ⟨e, y⟩ h
    simp only [Prod.mk.injEq] at h
    rw [h.1, h.2]
  have hkey : Prod.fst ∘ (fun c : Balance => (c.denom, c.amount)) = Balance.denom := rfl
  simp only [balancesEqual, List.sortByKey_map, hkey]
  constructor
  · intro h
    split at h
    · cases h
    · exact hinj.list_map (beq_iff_eq.1 h)
  · intro h
    have hlen := (a.sortByKey_perm Balance.denom).length_eq
    rw [h, (b.sortByKey_perm Balance.denom).length_eq] at hlen
    rw [if_neg (by simp [hlen]), h]
    exact beq_self_eq_true _

theorem balancesEqual_iff {a b : List Balance} :
    balancesEqual a b = true ↔ ∀ d, a.filter (·.denom = d) = b.filter (·.denom = d) := by
  rw [balancesEqual_eq_true_iff, List.sortByKey_eq_iff]

theorem perm_of_balancesEqual {a b : List Balance} (h : balancesEqual a b = true) : b.Perm a := by
  rw [balancesEqual_eq_true_iff] at h
  exact (b.sortByKey_perm Balance.denom).symm.trans (h ▸ a.sortByKey_perm Balance.denom)

theorem balancesEqual_equivalence : Equivalence fun a b => balancesEqual a b = true where
  refl _ := balancesEqual_iff.2 fun _ => rfl
  symm h := balancesEqual_iff.2 fun d => (balancesEqual_iff.1 h d).symm
  trans h h' := balancesEqual_iff.2 fun d =>
    (balancesEqual_iff.1 h d).trans (balancesEqual_iff.1 h' d)

/-- No denomination comes with two amounts. -/
def OneAmount (l : List Balance) : Prop :=
  ∀ x ∈ l, ∀ y ∈ l, x.denom = y.denom → x.amount = y.amount

theorem OneAmount.balancesEqual {a b : List Balance} (h : OneAmount a) (hp : b.Perm a) :
    balancesEqual a b = true := by
  refine balancesEqual_iff.2 fun d => ?_
  have heq : ∀ x y, x ∈ a.filter (·.denom = d) → y ∈ b.filter (·.denom = d) →
      True → True → x = y := by
    intro x y hx hy _ _
    simp only [List.mem_filter, decide_eq_true_eq] at hx hy
    obtain ⟨dx, ax⟩ := x
    obtain ⟨dy, ay⟩ := y
    have hd : dx = dy := hx.2.trans hy.2.symm
    rw [hd, show ax = ay from h _ hx.1 _ (hp.mem_iff.1 hy.1) hd]
  have hall : ∀ l : List Balance, l.Pairwise fun _ _ => True :=
    fun _ => List.pairwise_of_forall fun _ _ => trivial
  exact (hp.symm.filter (·.denom = d)).eq_of_pairwise heq (hall _) (hall _)

/-- Two coins of a list that may be swapped are of two denominations, or the same. -/
theorem eq_of_swap {a : List Balance} {x y : Balance} (hx : x ∈ a) (hy : y ∈ a)
    (hd : x.denom = y.denom)
    (h : ∀ a' b', a'.Perm a → b'.Perm a → ForwardingRelayer.balancesEqual a' b' = true) :
    x = y := by
  by_contra hne
  have hy' : y ∈ a.erase x := (List.mem_erase_of_ne fun h => hne h.symm).2 hy
  have hp : (x :: y :: (a.erase x).erase y).Perm a :=
    ((List.perm_cons_erase hy').symm.cons x).trans (List.perm_cons_erase hx).symm
  have heq := balancesEqual_iff.1 (h _ _ hp ((List.Perm.swap x y _).trans hp)) x.denom
  simp only [List.filter_cons, hd, decide_true, if_true, List.cons.injEq] at heq
  exact hne heq.1

/-- Which lists are compared as multisets, and which may be reordered. -/
theorem balances_equal_iff_perm (a b : List Balance) :
    ((balancesEqual a b = true ↔ b.Perm a)
        ↔ (b.Perm a → ∀ d, a.filter (·.denom = d) = b.filter (·.denom = d)))
      ∧ ((∀ a' b', a'.Perm a → b'.Perm b → balancesEqual a' b' = balancesEqual a b)
        ↔ (b.Perm a → OneAmount a))
      ∧ Equivalence fun a b => balancesEqual a b = true := by
  refine ⟨⟨?_, ?_⟩, ⟨?_, ?_⟩, balancesEqual_equivalence⟩
  · exact fun h hp => balancesEqual_iff.1 (h.2 hp)
  · exact fun h => ⟨perm_of_balancesEqual, fun hp => balancesEqual_iff.2 (h hp)⟩
  · intro h hp x hx y hy hd
    have hall : ∀ a' b', a'.Perm a → b'.Perm a → balancesEqual a' b' = true := by
      intro a' b' ha' hb'
      rw [h a' b' ha' (hb'.trans hp.symm), ← h a a (.refl a) hp.symm]
      exact balancesEqual_equivalence.refl a
    rw [eq_of_swap hx hy hd hall]
  · intro h a' b' ha' hb'
    by_cases hp : b.Perm a
    · have hone : OneAmount a' := fun x hx y hy =>
        h hp x (ha'.mem_iff.1 hx) y (ha'.mem_iff.1 hy)
      rw [(h hp).balancesEqual hp, hone.balancesEqual (hb'.trans (hp.trans ha'.symm))]
    · have hfalse : ∀ {c d : List Balance}, c.Perm a → d.Perm b →
          balancesEqual c d = false := by
        intro c d hc hd
        rw [← Bool.not_eq_true]
        exact fun heq => hp (hd.symm.trans ((perm_of_balancesEqual heq).trans hc))
      rw [hfalse ha' hb', hfalse (.refl a) (.refl b)]

theorem balances_reordered : ∃ a b : List Balance, b.Perm a ∧ balancesEqual a b = false := by
  refine ⟨[⟨"utia", "1"⟩, ⟨"utia", "2"⟩], [⟨"utia", "2"⟩, ⟨"utia", "1"⟩], .swap _ _ _, ?_⟩
  rw [← Bool.not_eq_true, balancesEqual_iff]
  exact fun h => absurd (h "utia") (by decide)

end ForwardingRelayer
