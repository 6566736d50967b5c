import Mathlib.Data.List.Basic

/-!
# One element of a list

An element found by its index splits the list, and what is done at that index is done between
the two parts. Of a list's image under a partial function one element adds at most one.
-/

namespace List

variable {α : Type*}

theorem exists_split_of_getElem? : ∀ {l : List α} {i : ℕ} {t : α}, l[i]? = some t →
    ∃ l₁ l₂, l = l₁ ++ t :: l₂ ∧ (∀ u, l.set i u = l₁ ++ u :: l₂) ∧ l.eraseIdx i = l₁ ++ l₂
  | x :: l, 0, t, h => by
    simp only [getElem?_cons_zero, Option.some.injEq] at h
    exact ⟨[], l, by simp [h], by simp, by simp⟩
  | x :: l, i + 1, t, h => by
    rw [getElem?_cons_succ] at h
    obtain ⟨l₁, l₂, h1, h2, h3⟩ := exists_split_of_getElem? h
    exact ⟨x :: l₁, l₂, by simp [h1], fun u => by simp [h2], by simp [h3]⟩

theorem take_append_cons_drop {l : List α} {i : ℕ} {t : α} (h : l[i]? = some t) :
    l.take i ++ t :: l.drop (i + 1) = l := by
  obtain ⟨hi, rfl⟩ := getElem?_eq_some_iff.1 h
  rw [getElem_cons_drop, take_append_drop]

theorem count_filterMap_cons {β : Type*} [DecidableEq β] (f : α → Option β) (x : α) (l : List α)
    (b : β) : ((x :: l).filterMap f).count b
      = (l.filterMap f).count b + if f x = some b then 1 else 0 := by
  rcases h : f x with _ | c
  · simp [h]
  · simp [h, count_cons]

end List
