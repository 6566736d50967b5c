import Mathlib.Data.List.Forall2

/-!
# Fallible steps

A chain of fallible steps succeeds when each of them does on what the one before it gives, and a
list is gone through when every element of it is.
-/

universe u v

namespace Except

variable {α β : Type u} {ε : Type v}

theorem bind_eq_ok_iff {x : Except ε α} {f : α → Except ε β} {b : β} :
    (x >>= f) = .ok b ↔ ∃ a, x = .ok a ∧ f a = .ok b := by
  rcases x with e | a
  · constructor
    · intro h
      cases h
    · rintro ⟨a, h, -⟩
      cases h
  · constructor
    · exact fun h => ⟨a, rfl, h⟩
    · rintro ⟨a', ha, h⟩
      exact Except.ok.inj ha ▸ h

theorem pure_eq_ok_iff {a b : α} : (pure a : Except ε α) = .ok b ↔ a = b :=
  ⟨Except.ok.inj, congrArg Except.ok⟩

end Except

namespace List

variable {α β : Type u} {ε : Type v}

theorem mapM_eq_ok_iff {f : α → Except ε β} : ∀ {l : List α} {r : List β},
    l.mapM f = .ok r ↔ Forall₂ (fun a b => f a = .ok b) l r
  | [], r => by
    rw [mapM_nil, forall₂_nil_left_iff, Except.pure_eq_ok_iff, eq_comm]
  | a :: l, r => by
    rw [mapM_cons, Except.bind_eq_ok_iff]
    constructor
    · rintro ⟨b, hb, h⟩
      obtain ⟨bs, hbs, h⟩ := Except.bind_eq_ok_iff.1 h
      exact Except.pure_eq_ok_iff.1 h ▸ .cons hb (mapM_eq_ok_iff.1 hbs)
    · rintro (_ | ⟨hb, hbs⟩)
      exact ⟨_, hb, Except.bind_eq_ok_iff.2 ⟨_, mapM_eq_ok_iff.2 hbs, rfl⟩⟩

theorem exists_forall₂_iff {R : α → β → Prop} : ∀ {l : List α},
    (∃ r, Forall₂ R l r) ↔ ∀ a ∈ l, ∃ b, R a b
  | [] => ⟨fun _ => by simp, fun _ => ⟨[], .nil⟩⟩
  | a :: l => by
    rw [forall_mem_cons, ← exists_forall₂_iff]
    constructor
    · rintro ⟨r, h⟩
      cases h with
      | cons ha hl => exact ⟨⟨_, ha⟩, _, hl⟩
    · rintro ⟨⟨b, hb⟩, r, hr⟩
      exact ⟨b :: r, .cons hb hr⟩

end List
