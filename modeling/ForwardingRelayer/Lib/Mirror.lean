import Mathlib.Data.List.Basic

/-!
# An entry and the row behind it

An entry of a map in memory is mirrored by the row of a table, and the two are written one after
the other: a write stores the row first, a removal takes the entry first. One party works off its
writes and removals half by half, while another may remove. Unless a write of the one and a removal
of the other overlap, the entry is the row whenever neither party is between two halves.
-/

inductive Half (V : Type*)
  | store (v : V)
  | insert (v : V)
  | remove
  | delete
  | other

namespace Half

variable {V : Type*}

/-- The entry after a half. -/
@[simp] def entry : Half V → Option V → Option V
  | insert v, _ => some v
  | remove, _ => none
  | _, o => o

/-- The row after a half. -/
@[simp] def row : Half V → Option V → Option V
  | store v, _ => some v
  | delete, _ => none
  | _, o => o

def deletes : Half V → Bool
  | delete => true
  | _ => false

/-- What is to do comes with both its halves. -/
inductive Whole : List (Half V) → Prop
  | nil : Whole []
  | other {l : List (Half V)} : Whole l → Whole (other :: l)
  | write {v : V} {l : List (Half V)} : Whole l → Whole (store v :: insert v :: l)
  | removal {l : List (Half V)} : Whole l → Whole (remove :: delete :: l)

/-- The same, but that the first half of what is first may be done. -/
inductive Pending : List (Half V) → Prop
  | whole {l : List (Half V)} : Whole l → Pending l
  | insert {v : V} {l : List (Half V)} : Whole l → Pending (insert v :: l)
  | delete {l : List (Half V)} : Whole l → Pending (delete :: l)

/-- The party is between two halves. -/
def Midway : List (Half V) → Prop
  | insert _ :: _ => True
  | delete :: _ => True
  | _ => False

/-- A write and a removal by the other party overlap. -/
def Overlap (l : List (Half V)) (removing : Bool) : Prop :=
  removing = true ∧ ∃ v l', l = insert v :: l'

/-- The entry is the row, or what is missing is on its way. -/
def Mirrored (e r : Option V) (l : List (Half V)) (removing : Bool) : Prop :=
  match l with
  | insert v :: _ => r = some v
  | delete :: _ => e = none
  | _ => if removing then e = none else e = r

variable {e r : Option V} {h : Half V} {l l' : List (Half V)} {removing : Bool}

theorem Whole.append (hl : Whole l) (hl' : Whole l') : Whole (l ++ l') := by
  induction hl with
  | nil => exact hl'
  | other _ ih => exact .other ih
  | write _ ih => exact .write ih
  | removal _ ih => exact .removal ih

theorem Whole.mirrored (hl : Whole l) :
    Mirrored e r l removing ↔ if removing then e = none else e = r := by
  cases hl <;> rfl

theorem Pending.tail (hp : Pending (h :: l)) : Pending l := by
  cases hp with
  | whole hl =>
    cases hl with
    | other hl => exact .whole hl
    | write hl => exact .insert hl
    | removal hl => exact .delete hl
  | insert hl | delete hl => exact .whole hl

theorem Pending.whole_of_other (hp : Pending (other :: l)) : Whole l := by
  cases hp with
  | whole hl =>
    cases hl
    assumption

/-- A half of the party's own, where it does not end a write during a removal. -/
theorem Mirrored.step (hp : Pending (h :: l)) (hno : ¬ Overlap (h :: l) removing)
    (hm : Mirrored e r (h :: l) removing) :
    Mirrored (h.entry e) (h.row r) l removing := by
  cases hp with
  | whole hl =>
    cases hl with
    | other hl =>
      rw [hl.mirrored]
      exact hm
    | write => exact rfl
    | removal => exact rfl
  | @insert v _ hl =>
    have hremoving : removing = false := by
      by_contra hr
      exact hno ⟨by simpa using hr, v, l, rfl⟩
    rw [hl.mirrored, hremoving]
    exact hm.symm
  | delete hl =>
    have he : e = none := hm
    rw [hl.mirrored, he]
    split <;> rfl

/-- The other party takes the entry. -/
theorem Mirrored.remove (hno : ¬ Overlap l true) : Mirrored none r l true := by
  unfold Mirrored
  split
  · exact absurd ⟨rfl, _, _, rfl⟩ hno
  · rfl
  · rfl

/-- The other party takes the row. -/
theorem Mirrored.delete (hno : ¬ Overlap l true) (hm : Mirrored e r l true) :
    Mirrored e none l false := by
  unfold Mirrored at hm ⊢
  split at hm
  · exact absurd ⟨rfl, _, _, rfl⟩ hno
  · exact hm
  · exact hm

theorem Mirrored.eq (hq : ¬ Midway l) (hm : Mirrored e r l false) : e = r := by
  unfold Mirrored at hm
  split at hm
  · exact absurd trivial hq
  · exact absurd trivial hq
  · exact hm

end Half
