import Mathlib.Data.List.Basic

/-!
# The first of each key

Core's `eraseDups` keeps the first occurrence of each element. A loop that pushes what has a new
key leaves the keys `eraseDups` leaves of all of them.
-/

namespace List

variable {α β : Type*} [DecidableEq β]

theorem nodup_eraseDups (l : List β) : l.eraseDups.Nodup := by
  induction hn : l.length using Nat.strongRecOn generalizing l with
  | ind n ih =>
    rcases l with _ | ⟨b, l⟩
    · simp
    · subst hn
      have hlt : (l.filter fun c => !c == b).length < (b :: l).length :=
        Nat.lt_succ_of_le (length_filter_le _ l)
      rw [eraseDups_cons, nodup_cons]
      exact ⟨by simp, ih _ hlt _ rfl⟩

theorem removeAll_eq_filter (l m : List β) : l.removeAll m = l.filter (· ∉ m) := by
  simp [removeAll]

theorem Nodup.eraseDups {l : List β} (h : l.Nodup) : l.eraseDups = l := by
  induction l with
  | nil => rfl
  | cons b l ih =>
    rw [nodup_cons] at h
    have hkeep : (l.filter fun c => !c == b) = l := by
      refine filter_eq_self.2 fun c hc => ?_
      have hne : c ≠ b := fun heq => h.1 (heq ▸ hc)
      simpa using hne
    rw [eraseDups_cons, hkeep, ih h.2]

/-- What the front has already may be dropped behind it. -/
theorem eraseDups_append_congr {l m m' : List β} (h : m.filter (· ∉ l) = m'.filter (· ∉ l)) :
    (l ++ m).eraseDups = (l ++ m').eraseDups := by
  rw [eraseDups_append, eraseDups_append, removeAll_eq_filter, removeAll_eq_filter, h]

variable (key : α → β)

def pushNew (l : List α) (a : α) : List α := if key a ∈ l.map key then l else l ++ [a]

theorem map_foldl_pushNew : ∀ {as l : List α}, (l.map key).Nodup →
    (as.foldl (pushNew key) l).map key = (l.map key ++ as.map key).eraseDups
  | [], l, h => by simpa using h.eraseDups.symm
  | a :: as, l, h => by
    rw [foldl_cons, map_cons]
    by_cases ha : key a ∈ l.map key
    · have hpush : pushNew key l a = l := if_pos ha
      rw [hpush, map_foldl_pushNew h]
      refine eraseDups_append_congr ?_
      rw [filter_cons_of_neg (by simpa using ha)]
    · have hpush : pushNew key l a = l ++ [a] := if_neg ha
      have hnodup : ((l ++ [a]).map key).Nodup := by
        rw [map_append, map_singleton, nodup_append]
        refine ⟨h, by simp, fun b hb c hc => ?_⟩
        rw [mem_singleton.1 hc]
        exact fun heq => ha (heq ▸ hb)
      rw [hpush, map_foldl_pushNew hnodup, map_append, map_singleton, append_assoc,
        singleton_append]

end List
