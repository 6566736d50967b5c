import Mathlib.Data.List.Sort

/-!
# Stable sorting by a key

What a stable sort leaves of a list's order is the order among the elements of each key
(`filter_sortByKey`), and the sorted list is fixed by it (`sortByKey_eq_iff`).
-/

namespace List

variable {α β : Type*} [LinearOrder β] (key : α → β)

def sortByKey (l : List α) : List α := l.mergeSort fun a b => decide (key a ≤ key b)

theorem sortByKey_perm (l : List α) : l.sortByKey key ~ l := mergeSort_perm l _

theorem sortByKey_map {γ : Type*} (f : γ → α) (l : List γ) :
    (l.map f).sortByKey key = (l.sortByKey (key ∘ f)).map f :=
  (map_mergeSort (f := f) fun _ _ _ _ => rfl).symm

theorem key_le_trans (a b c : α) :
    decide (key a ≤ key b) = true → decide (key b ≤ key c) = true
      → decide (key a ≤ key c) = true := by
  simp only [decide_eq_true_eq]
  exact le_trans

theorem key_le_total (a b : α) : (decide (key a ≤ key b) || decide (key b ≤ key a)) = true := by
  simpa using le_total (key a) (key b)

theorem pairwise_sortByKey (l : List α) :
    (l.sortByKey key).Pairwise fun a b => key a ≤ key b := by
  have h := pairwise_mergeSort (key_le_trans key) (key_le_total key) l
  exact h.imp fun hab => of_decide_eq_true hab

theorem filter_sortByKey (l : List α) (k : β) :
    (l.sortByKey key).filter (key · = k) = l.filter (key · = k) := by
  have hone : (l.filter (key · = k)).Pairwise fun a b => decide (key a ≤ key b) = true := by
    refine pairwise_iff_forall_sublist.2 fun {a b} h => ?_
    have ha := of_mem_filter (h.subset (mem_cons_self (a := a) (l := [b])))
    have hb := of_mem_filter (h.subset (mem_cons_of_mem a (mem_singleton_self b)))
    simp only [decide_eq_true_eq] at ha hb ⊢
    exact (ha.trans hb.symm).le
  have hsub : l.filter (key · = k) <+ l.sortByKey key :=
    sublist_mergeSort (key_le_trans key) (key_le_total key) hone filter_sublist
  have hkey := hsub.filter (key · = k)
  simp only [filter_filter, Bool.and_self] at hkey
  exact (hkey.eq_of_length ((sortByKey_perm key l).filter _).length_eq.symm).symm

/-- A sorted list is fixed by what it has of each key. -/
theorem eq_of_filter_eq : ∀ {l l' : List α}, l.Pairwise (fun a b => key a ≤ key b) →
    l'.Pairwise (fun a b => key a ≤ key b) →
    (∀ k, l.filter (key · = k) = l'.filter (key · = k)) → l = l'
  | [], [], _, _, _ => rfl
  | [], b :: l', _, _, h => by simpa using h (key b)
  | a :: l, [], _, _, h => by simpa using h (key a)
  | a :: l, b :: l', hl, hl', h => by
    have hle : ∀ {x y : α} {m m' : List α}, (y :: m').Pairwise (fun a b => key a ≤ key b) →
        (x :: m).filter (key · = key x) = (y :: m').filter (key · = key x) → key y ≤ key x := by
      intro x y m m' hm' heq
      have hx : x ∈ (y :: m').filter (key · = key x) := heq ▸ by simp
      rcases mem_cons.1 (mem_of_mem_filter hx) with rfl | hx
      · exact le_rfl
      · exact rel_of_pairwise_cons hm' hx
    have hkey : key a = key b := le_antisymm (hle hl (h (key b)).symm) (hle hl' (h (key a)))
    have hhead := h (key a)
    simp only [filter_cons, hkey, decide_true, if_true, cons.injEq] at hhead
    obtain ⟨rfl, htail⟩ := hhead
    refine congrArg (a :: ·) (eq_of_filter_eq hl.of_cons hl'.of_cons fun k => ?_)
    by_cases hk : key a = k
    · exact hk ▸ htail
    · simpa [hk] using h k

theorem sortByKey_eq_iff {l l' : List α} :
    l.sortByKey key = l'.sortByKey key ↔
      ∀ k, l.filter (key · = k) = l'.filter (key · = k) := by
  constructor
  · intro h k
    rw [← filter_sortByKey key l, h, filter_sortByKey]
  · intro h
    refine eq_of_filter_eq key (pairwise_sortByKey key l) (pairwise_sortByKey key l') fun k => ?_
    rw [filter_sortByKey, filter_sortByKey, h]

end List
