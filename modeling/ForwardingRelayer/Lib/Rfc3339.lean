import Mathlib.Data.String.Basic
import ForwardingRelayer.Lib.Calendar

/-!
# Timestamps as text

`DateTime.toRfc3339` is what `chrono` writes for an instant in UTC. The fields have a fixed width
but for the fraction, which leaves out the groups of three digits that are 0 at its end; where it
stops a `+` comes, which is before the point and before every digit.
-/

namespace Calendar

/-- The last `w` decimal digits. -/
def digits : ℕ → ℕ → List Char
  | 0, _ => []
  | w + 1, n => digits w (n / 10) ++ [(n % 10).digitChar]

/-- `SecondsFormat::AutoSi`. -/
def fraction (nanosecond : ℕ) : List Char :=
  if nanosecond = 0 then []
  else if nanosecond % 10 ^ 6 = 0 then '.' :: digits 3 (nanosecond / 10 ^ 6)
  else if nanosecond % 10 ^ 3 = 0 then '.' :: digits 6 (nanosecond / 10 ^ 3)
  else '.' :: digits 9 nanosecond

def zone : List Char := "+00:00".toList

def DateTime.toRfc3339 (t : DateTime) : String :=
  String.ofList <| digits 4 t.year ++ '-' :: (digits 2 t.month ++ '-' :: (digits 2 t.day
    ++ 'T' :: (digits 2 t.hour ++ ':' :: (digits 2 t.minute ++ ':' :: (digits 2 t.second
    ++ (fraction t.nanosecond ++ zone))))))

section Digits

variable {w m n k : ℕ} {a b x y : List Char}

theorem digitChar_lt_iff (hm : m < 10) (hn : n < 10) : m.digitChar < n.digitChar ↔ m < n := by
  rw [Char.lt_def, UInt32.lt_iff_toNat_lt]
  change m.digitChar.toNat < n.digitChar.toNat ↔ m < n
  rw [Nat.toNat_digitChar_of_lt_ten hm, Nat.toNat_digitChar_of_lt_ten hn, Nat.add_lt_add_iff_left]

theorem digitChar_inj (hm : m < 10) (hn : n < 10) : m.digitChar = n.digitChar ↔ m = n := by
  refine ⟨fun h => ?_, fun h => h ▸ rfl⟩
  have hnat := congrArg Char.toNat h
  rw [Nat.toNat_digitChar_of_lt_ten hm, Nat.toNat_digitChar_of_lt_ten hn] at hnat
  omega

/-- Where the parts in front have one length, they are compared first. -/
theorem append_lt_append_iff : ∀ {a b : List Char}, a.length = b.length →
    (a ++ x < b ++ y ↔ a < b ∨ (a = b ∧ x < y))
  | [], [], _ => by simp
  | c :: a, d :: b, h => by
    rw [List.cons_append, List.cons_append, List.cons_lt_cons_iff, List.cons_lt_cons_iff,
      append_lt_append_iff (Nat.succ.inj h), List.cons.injEq]
    tauto

@[simp] theorem length_digits : ∀ w n : ℕ, (digits w n).length = w
  | 0, _ => rfl
  | w + 1, n => by rw [digits, List.length_append, length_digits w, List.length_singleton]

theorem digits_inj : ∀ {w m n : ℕ}, m < 10 ^ w → n < 10 ^ w →
    (digits w m = digits w n ↔ m = n)
  | 0, m, n, hm, hn => by
    rw [pow_zero, Nat.lt_one_iff] at hm hn
    simp [digits, hm, hn]
  | w + 1, m, n, hm, hn => by
    rw [pow_succ] at hm hn
    have ih := digits_inj (w := w) (m := m / 10) (n := n / 10) (by omega) (by omega)
    have hdigit := digitChar_inj (Nat.mod_lt m (by decide : 0 < 10)) (Nat.mod_lt n (by decide))
    rw [digits, digits, List.append_singleton_inj, ih, hdigit]
    omega

theorem digits_lt_iff : ∀ {w m n : ℕ}, m < 10 ^ w → n < 10 ^ w →
    (digits w m < digits w n ↔ m < n)
  | 0, m, n, hm, hn => by
    rw [pow_zero, Nat.lt_one_iff] at hm hn
    simp [digits, hm, hn]
  | w + 1, m, n, hm, hn => by
    rw [pow_succ] at hm hn
    have hm' : m / 10 < 10 ^ w := by omega
    have hn' : n / 10 < 10 ^ w := by omega
    have hdigit := digitChar_lt_iff (Nat.mod_lt m (by decide : 0 < 10)) (Nat.mod_lt n (by decide))
    have hlen : (digits w (m / 10)).length = (digits w (n / 10)).length := by
      rw [length_digits, length_digits]
    rw [digits, digits, append_lt_append_iff hlen, digits_lt_iff hm' hn', digits_inj hm' hn',
      List.cons_lt_cons_iff, hdigit]
    simp only [List.not_lt_nil, and_false, or_false]
    omega

/-- Fixed-width numbers in front are compared first. -/
theorem digits_append_lt_iff (hm : m < 10 ^ w) (hn : n < 10 ^ w) :
    digits w m ++ x < digits w n ++ y ↔ m < n ∨ (m = n ∧ x < y) := by
  rw [append_lt_append_iff (by rw [length_digits, length_digits]), digits_lt_iff hm hn,
    digits_inj hm hn]

theorem digits_add (v : ℕ) : ∀ w n : ℕ,
    digits (v + w) n = digits v (n / 10 ^ w) ++ digits w (n % 10 ^ w)
  | 0, n => by simp [digits]
  | w + 1, n => by
    have hdiv : n / 10 / 10 ^ w = n / 10 ^ (w + 1) := by
      rw [Nat.div_div_eq_div_mul, pow_succ, Nat.mul_comm]
    have hmod : n % 10 ^ (w + 1) / 10 = n / 10 % 10 ^ w := by
      rw [pow_succ, Nat.mul_comm, Nat.mod_mul_right_div_self]
    have hlast : n % 10 ^ (w + 1) % 10 = n % 10 :=
      Nat.mod_mod_of_dvd n ⟨10 ^ w, by rw [pow_succ, Nat.mul_comm]⟩
    rw [← Nat.add_assoc, digits, digits_add v w, digits, hdiv, hmod, hlast, List.append_assoc]

theorem exists_digits_cons (w n : ℕ) :
    ∃ d rest, d < 10 ∧ digits (w + 1) n = d.digitChar :: rest := by
  induction w generalizing n with
  | zero => exact ⟨n % 10, [], Nat.mod_lt _ (by decide), rfl⟩
  | succ w ih =>
    obtain ⟨d, rest, hd, h⟩ := ih (n / 10)
    exact ⟨d, rest ++ [(n % 10).digitChar], hd, by rw [digits, h, List.cons_append]⟩

end Digits

section Fraction

variable {k m n f g : ℕ} {x y : List Char}

/-- A fraction of `k` groups of three digits, up to the last one that is not 0. -/
def groups : ℕ → ℕ → List Char
  | 0, _ => []
  | k + 1, f => if f = 0 then [] else digits 3 (f / 1000 ^ k) ++ groups k (f % 1000 ^ k)

@[simp] theorem groups_zero (k : ℕ) : groups k 0 = [] := by
  cases k <;> rfl

theorem groups_succ (k : ℕ) (hf : f ≠ 0) :
    groups (k + 1) f = digits 3 (f / 1000 ^ k) ++ groups k (f % 1000 ^ k) := if_neg hf

theorem fraction_eq (f : ℕ) : fraction f = if f = 0 then [] else '.' :: groups 3 f := by
  unfold fraction
  split
  · rfl
  rename_i hf
  have hsix : 1000 ^ 2 = 10 ^ 6 := rfl
  have hthree : 1000 ^ 1 = 10 ^ 3 := rfl
  have hmod : f % 10 ^ 6 % 10 ^ 3 = f % 10 ^ 3 := by omega
  have hdiv : f % 10 ^ 6 / 10 ^ 3 = f / 10 ^ 3 % 10 ^ 3 := by omega
  have hdiv' : f / 10 ^ 3 / 10 ^ 3 = f / 10 ^ 6 := by omega
  rw [groups_succ 2 hf, hsix]
  split
  · rename_i h
    rw [h, groups_zero, List.append_nil]
  rename_i hlow
  rw [groups_succ 1 hlow, hthree]
  split
  · rename_i h
    rw [digits_add 3 3, hdiv', hdiv, hmod, h, groups_zero, List.append_nil]
  · rename_i h
    rw [groups_succ 0 (hmod ▸ h), digits_add 3 6, digits_add 3 3 (f % 10 ^ 6), pow_zero,
      Nat.div_one, groups, List.append_nil]

theorem plus_lt_digits (w n : ℕ) : '+' :: x < digits (w + 1) n ++ y := by
  obtain ⟨d, rest, hd, h⟩ := exists_digits_cons w n
  rw [h, List.cons_append, List.cons_lt_cons_iff]
  refine .inl ?_
  rw [Char.lt_def, UInt32.lt_iff_toNat_lt]
  change 43 < d.digitChar.toNat
  rw [Nat.toNat_digitChar_of_lt_ten hd]
  omega

/-- A group that is left out is before any that is there. -/
theorem groups_lt_iff : ∀ {k f g : ℕ}, f < 1000 ^ k → g < 1000 ^ k →
    (groups k f ++ zone < groups k g ++ zone ↔ f < g)
  | 0, f, g, hf, hg => by
    rw [pow_zero, Nat.lt_one_iff] at hf hg
    simp [groups, hf, hg]
  | k + 1, f, g, hf, hg => by
    have hpos : 0 < 1000 ^ k := Nat.pow_pos (by decide)
    rw [pow_succ] at hf hg
    have hf' : f / 1000 ^ k < 10 ^ 3 := Nat.div_lt_of_lt_mul hf
    have hg' : g / 1000 ^ k < 10 ^ 3 := Nat.div_lt_of_lt_mul hg
    have hzone : ∀ n y, zone < digits 3 n ++ y := fun n y => plus_lt_digits 2 n
    simp only [groups]
    by_cases hf₀ : f = 0 <;> by_cases hg₀ : g = 0
    · simp [hf₀, hg₀]
    · rw [if_pos hf₀, if_neg hg₀, List.append_assoc]
      exact ⟨fun _ => by omega, fun _ => hzone _ _⟩
    · rw [if_neg hf₀, if_pos hg₀, List.append_assoc]
      exact ⟨fun h => absurd h (hzone _ _).asymm, fun h => by omega⟩
    · rw [if_neg hf₀, if_neg hg₀, List.append_assoc, List.append_assoc,
        digits_append_lt_iff hf' hg', groups_lt_iff (Nat.mod_lt _ hpos) (Nat.mod_lt _ hpos),
        ← mul_add_lt_iff (Nat.mod_lt f hpos) (Nat.mod_lt g hpos), Nat.div_add_mod',
        Nat.div_add_mod']

theorem fraction_lt_iff (hf : f < 10 ^ 9) (hg : g < 10 ^ 9) :
    fraction f ++ zone < fraction g ++ zone ↔ f < g := by
  have hpoint : ∀ x, zone < '.' :: x := fun x => List.cons_lt_cons_iff.2 (.inl (by decide))
  rw [fraction_eq, fraction_eq]
  by_cases hf₀ : f = 0 <;> by_cases hg₀ : g = 0
  · simp [hf₀, hg₀]
  · rw [if_pos hf₀, if_neg hg₀]
    exact ⟨fun _ => by omega, fun _ => hpoint _⟩
  · rw [if_neg hf₀, if_pos hg₀]
    exact ⟨fun h => absurd h (hpoint _).asymm, fun h => by omega⟩
  · rw [if_neg hf₀, if_neg hg₀, List.cons_append, List.cons_append, List.cons_lt_cons_iff,
      groups_lt_iff hf hg]
    simp

end Fraction

/-- The bytes of a text. -/
def bytes (s : String) : List UInt8 := s.toUTF8.data.toList

def IsAscii (l : List Char) : Prop := ∀ c ∈ l, c.toNat < 128

section Ascii

variable {a b : List Char} {c d : Char}

theorem toUInt8_lt_iff (hc : c.toNat < 128) (hd : d.toNat < 128) :
    c.val.toUInt8 < d.val.toUInt8 ↔ c < d := by
  rw [Char.lt_def, UInt32.lt_iff_toNat_lt, UInt8.lt_iff_toNat_lt, UInt32.toNat_toUInt8,
    UInt32.toNat_toUInt8]
  change c.val.toNat < 128 at hc
  change d.val.toNat < 128 at hd
  omega

theorem toUInt8_inj (hc : c.toNat < 128) (hd : d.toNat < 128) :
    c.val.toUInt8 = d.val.toUInt8 ↔ c = d := by
  refine ⟨fun h => ?_, fun h => h ▸ rfl⟩
  have hnat := congrArg UInt8.toNat h
  rw [UInt32.toNat_toUInt8, UInt32.toNat_toUInt8] at hnat
  change c.val.toNat < 128 at hc
  change d.val.toNat < 128 at hd
  exact Char.ext (UInt32.toNat_inj.1 (by omega))

theorem bytes_ofList (h : IsAscii a) :
    bytes (String.ofList a) = a.map fun c => c.val.toUInt8 := by
  unfold bytes
  rw [String.toUTF8_eq_toByteArray, String.toByteArray_ofList, List.utf8Encode,
    List.toList_data_toByteArray, ← List.flatMap_singleton' (a.map _), List.flatMap_map]
  refine List.flatMap_congr fun c hc => String.utf8EncodeChar_eq_singleton ?_
  rw [Char.utf8Size_eq_one_iff, UInt32.le_iff_toNat_le]
  exact Nat.le_of_lt_succ (h c hc)

theorem map_toUInt8_lt_iff : ∀ {a b : List Char}, IsAscii a → IsAscii b →
    ((a.map fun c => c.val.toUInt8) < (b.map fun c => c.val.toUInt8) ↔ a < b)
  | [], [], _, _ => by simp
  | [], d :: b, _, _ => by simp
  | c :: a, [], _, _ => by simp
  | c :: a, d :: b, ha, hb => by
    rw [IsAscii, List.forall_mem_cons] at ha hb
    rw [List.map_cons, List.map_cons, List.cons_lt_cons_iff, List.cons_lt_cons_iff,
      map_toUInt8_lt_iff ha.2 hb.2, toUInt8_lt_iff ha.1 hb.1, toUInt8_inj ha.1 hb.1]

theorem bytes_lt_iff (ha : IsAscii a) (hb : IsAscii b) :
    bytes (String.ofList a) < bytes (String.ofList b) ↔ String.ofList a < String.ofList b := by
  rw [bytes_ofList ha, bytes_ofList hb, map_toUInt8_lt_iff ha hb, String.lt_iff_toList_lt,
    String.toList_ofList, String.toList_ofList]

theorem isAscii_cons : IsAscii (c :: a) ↔ c.toNat < 128 ∧ IsAscii a := List.forall_mem_cons

theorem isAscii_append : IsAscii (a ++ b) ↔ IsAscii a ∧ IsAscii b := List.forall_mem_append

theorem isAscii_digits : ∀ w n : ℕ, IsAscii (digits w n)
  | 0, _ => nofun
  | w + 1, n => by
    rw [digits, isAscii_append, isAscii_cons,
      Nat.toNat_digitChar_of_lt_ten (Nat.mod_lt n (by decide))]
    exact ⟨isAscii_digits w _, by omega, nofun⟩

theorem isAscii_fraction (f : ℕ) : IsAscii (fraction f) := by
  have hpoint : ∀ w n, IsAscii ('.' :: digits w n) := fun w n =>
    isAscii_cons.2 ⟨by decide, isAscii_digits w n⟩
  unfold fraction
  split
  · nofun
  · split
    · exact hpoint _ _
    · split <;> exact hpoint _ _

theorem isAscii_zone : IsAscii zone := by
  have hall : zone.all (fun c => decide (c.toNat < 128)) := rfl
  exact fun c hc => of_decide_eq_true (List.all_eq_true.1 hall c hc)

end Ascii

namespace DateTime

variable {t u : DateTime}

theorem day_lt (t : DateTime) : t.day < 10 ^ 2 :=
  (t.day_le.trans (daysInMonth_le _ _)).trans_lt (by decide)

theorem toRfc3339_lt_iff : t.toRfc3339 < u.toRfc3339 ↔ t.instant < u.instant := by
  have hmonth : ∀ t : DateTime, t.month < 10 ^ 2 := fun t => t.month_le.trans_lt (by decide)
  have hhour : ∀ t : DateTime, t.hour < 10 ^ 2 := fun t => t.hour_lt.trans (by decide)
  have hminute : ∀ t : DateTime, t.minute < 10 ^ 2 := fun t => t.minute_lt.trans (by decide)
  have hsecond : ∀ t : DateTime, t.second < 10 ^ 2 := fun t => t.second_lt.trans (by decide)
  have hmark : ∀ {c : Char} {x y : List Char}, c :: x < c :: y ↔ x < y := fun {c x y} => by
    rw [List.cons_lt_cons_iff]
    simp
  unfold toRfc3339
  rw [instant_lt_iff, String.lt_iff_toList_lt, String.toList_ofList, String.toList_ofList,
    digits_append_lt_iff t.year_lt u.year_lt, hmark,
    digits_append_lt_iff (hmonth t) (hmonth u), hmark, digits_append_lt_iff t.day_lt u.day_lt,
    hmark, digits_append_lt_iff (hhour t) (hhour u), hmark,
    digits_append_lt_iff (hminute t) (hminute u), hmark,
    digits_append_lt_iff (hsecond t) (hsecond u),
    fraction_lt_iff t.nanosecond_lt u.nanosecond_lt]
  simp only [fields, List.cons_lt_cons_iff, List.not_lt_nil, and_false, or_false]

/-- Timestamps are ordered as the instants they are of. -/
theorem toRfc3339_le_iff : t.toRfc3339 ≤ u.toRfc3339 ↔ t.instant ≤ u.instant := by
  rw [← not_lt, toRfc3339_lt_iff, not_lt]

theorem isAscii_toRfc3339 : IsAscii t.toRfc3339.toList := by
  unfold toRfc3339
  rw [String.toList_ofList]
  simp only [isAscii_append, isAscii_cons, isAscii_digits, isAscii_fraction, isAscii_zone, true_and,
    and_true]
  decide

theorem bytes_toRfc3339_lt_iff : bytes t.toRfc3339 < bytes u.toRfc3339 ↔ t.instant < u.instant := by
  have h := bytes_lt_iff (isAscii_toRfc3339 (t := t)) (isAscii_toRfc3339 (t := u))
  rwa [String.ofList_toList, String.ofList_toList, toRfc3339_lt_iff] at h

end DateTime

end Calendar
