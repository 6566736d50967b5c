import Mathlib.Data.List.DropRight

/-!
# Text as lists of characters

The string operations are those of Rust's `str`, on the characters of a string. A pattern is
never empty.
-/

namespace Text

/-- `str::trim_start_matches`: `pat` is taken off the front for as long as it is there. -/
def trimStartMatches (pat s : List Char) : List Char :=
  go s.length s
where
  go : ℕ → List Char → List Char
    | 0, s => s
    | n + 1, s =>
      match s.dropPrefix? pat with
      | some rest => go n rest
      | none => s

def trimEndMatches (pat s : List Char) : List Char :=
  (trimStartMatches pat.reverse s.reverse).reverse

def endsWith (pat s : List Char) : Bool :=
  pat.isSuffixOf s

/-- Unicode's `White_Space`. -/
def isWhitespace (c : Char) : Bool :=
  (9 ≤ c.toNat && c.toNat ≤ 13) || (0x2000 ≤ c.toNat && c.toNat ≤ 0x200a)
    || [0x20, 0x85, 0xa0, 0x1680, 0x2028, 0x2029, 0x202f, 0x205f, 0x3000].contains c.toNat

def trim (s : List Char) : List Char :=
  ((s.dropWhile isWhitespace).reverse.dropWhile isWhitespace).reverse

/-- `str::split_once`: what is before the first `pat`, and what is after it. -/
def splitOnce (pat : List Char) : List Char → Option (List Char × List Char)
  | [] => none
  | c :: s =>
    match (c :: s).dropPrefix? pat with
    | some rest => some ([], rest)
    | none => (splitOnce pat s).map fun p => (c :: p.1, p.2)

/-- `str::rsplit_once` at a character. -/
def rsplitOnce (c : Char) (s : List Char) : Option (List Char × List Char) :=
  (splitOnce [c] s.reverse).map fun p => (p.2.reverse, p.1.reverse)

theorem dropPrefix_eq_some {pat s rest : List Char} :
    s.dropPrefix? pat = some rest ↔ s = pat ++ rest := by
  simp [List.dropPrefix?_eq_some_iff]

section DropWhile

variable {p : Char → Bool} {c : Char} {x y : List Char}

theorem dropWhile_append_cons (hc : ¬ p c) :
    (x ++ c :: y).dropWhile p = x.dropWhile p ++ c :: y := by
  rw [List.dropWhile_append]
  split
  · rename_i h
    rw [List.isEmpty_iff.1 h, List.dropWhile_cons_of_neg hc, List.nil_append]
  · rfl

theorem rdropWhile_append_cons (hc : ¬ p c) :
    (x ++ c :: y).rdropWhile p = x ++ c :: y.rdropWhile p := by
  unfold List.rdropWhile
  rw [List.reverse_append, List.reverse_cons, List.append_assoc, List.singleton_append,
    dropWhile_append_cons hc, List.reverse_append, List.reverse_cons, List.reverse_reverse,
    List.append_assoc, List.singleton_append]

end DropWhile

section Trim

variable {s w a b : List Char} {c : Char}

theorem trim_append_left (hw : ∀ c ∈ w, isWhitespace c) : trim (w ++ s) = trim s := by
  unfold trim
  rw [List.dropWhile_append_of_pos hw]

theorem trim_append_right (hw : ∀ c ∈ w, isWhitespace c) : trim (s ++ w) = trim s := by
  have hw' : ∀ c ∈ w.reverse, isWhitespace c := fun c hc => hw c (List.mem_reverse.1 hc)
  unfold trim
  rw [List.dropWhile_append]
  split
  · rename_i h
    rw [List.isEmpty_iff.1 h, List.dropWhile_eq_nil_iff.2 hw]
  · rw [List.reverse_append, List.dropWhile_append_of_pos hw']

theorem trim_dropWhile (s : List Char) : trim (s.dropWhile isWhitespace) = trim s := by
  unfold trim
  rw [List.dropWhile_idempotent]

theorem trim_rdropWhile (s : List Char) : trim (s.rdropWhile isWhitespace) = trim s := by
  have hw : ∀ c ∈ s.rtakeWhile isWhitespace, isWhitespace c := fun c hc =>
    List.mem_rtakeWhile_imp hc
  calc trim (s.rdropWhile isWhitespace)
      = trim (s.rdropWhile isWhitespace ++ s.rtakeWhile isWhitespace) := (trim_append_right hw).symm
    _ = trim s := by rw [List.rdropWhile_append_rtakeWhile]

theorem trim_eq_self (h : ∀ c ∈ s, ¬ isWhitespace c) : trim s = s := by
  have hself : ∀ {l : List Char}, (∀ c ∈ l, ¬ isWhitespace c) → l.dropWhile isWhitespace = l := by
    intro l hl
    rcases l with _ | ⟨c, l⟩
    · rfl
    · exact List.dropWhile_cons_of_neg (hl c List.mem_cons_self)
  unfold trim
  rw [hself h, hself fun c hc => h c (List.mem_reverse.1 hc), List.reverse_reverse]

/-- Around a character that is not white space, each side is trimmed at its outer end. -/
theorem trim_append_cons (hc : ¬ isWhitespace c) :
    trim (a ++ c :: b) = a.dropWhile isWhitespace ++ c :: b.rdropWhile isWhitespace := by
  change ((a ++ c :: b).dropWhile isWhitespace).rdropWhile isWhitespace = _
  rw [dropWhile_append_cons hc, rdropWhile_append_cons hc]

end Trim

section TrimMatches

variable {pat : List Char}

theorem trimStartMatches_go (hpat : pat ≠ []) : ∀ (n m : ℕ) (s : List Char), s.length ≤ n →
    s.length ≤ m → trimStartMatches.go pat n s = trimStartMatches.go pat m s
  | 0, 0, _, _, _ => rfl
  | 0, m + 1, s, hn, _ => by
    obtain rfl := List.length_eq_zero_iff.1 (Nat.le_zero.1 hn)
    rcases pat with _ | ⟨c, pat⟩
    · exact absurd rfl hpat
    · rfl
  | n + 1, 0, s, _, hm => by
    obtain rfl := List.length_eq_zero_iff.1 (Nat.le_zero.1 hm)
    rcases pat with _ | ⟨c, pat⟩
    · exact absurd rfl hpat
    · rfl
  | n + 1, m + 1, s, hn, hm => by
    rcases h : s.dropPrefix? pat with _ | rest
    · simp only [trimStartMatches.go, h]
    · have hlen := congrArg List.length (dropPrefix_eq_some.1 h)
      have hpos := List.length_pos_iff.2 hpat
      rw [List.length_append] at hlen
      simp only [trimStartMatches.go, h]
      exact trimStartMatches_go hpat n m rest (by omega) (by omega)

theorem trimStartMatches_append (hpat : pat ≠ []) (s : List Char) :
    trimStartMatches pat (pat ++ s) = trimStartMatches pat s := by
  have hpos := List.length_pos_iff.2 hpat
  have hdrop : (pat ++ s).dropPrefix? pat = some s := dropPrefix_eq_some.2 rfl
  unfold trimStartMatches
  rcases hn : (pat ++ s).length with _ | n
  · rw [List.length_append] at hn
    omega
  · rw [List.length_append] at hn
    simp only [trimStartMatches.go, hdrop]
    exact trimStartMatches_go hpat _ _ s (by omega) le_rfl

theorem trimStartMatches_cons {c d : Char} {s : List Char} :
    trimStartMatches [c] (d :: s) = if d = c then trimStartMatches [c] s else d :: s := by
  split
  · rename_i h
    exact h ▸ trimStartMatches_append (by simp) s
  · rename_i h
    simp [trimStartMatches, trimStartMatches.go, List.dropPrefix?, h]

/-- Nothing is taken off a text without the pattern's first character. -/
theorem trimStartMatches_eq_self {c : Char} {s : List Char} (h : c ∉ s) :
    trimStartMatches (c :: pat) s = s := by
  rcases s with _ | ⟨d, s⟩
  · rfl
  · have hne : c ≠ d := fun hd => h (hd ▸ List.mem_cons_self)
    simp [trimStartMatches, trimStartMatches.go, List.dropPrefix?, hne.symm]

theorem trimStartMatches_singleton (c : Char) : ∀ s : List Char,
    trimStartMatches [c] s = s.dropWhile (· == c)
  | [] => rfl
  | d :: s => by
    rw [trimStartMatches_cons, List.dropWhile_cons, trimStartMatches_singleton c s]
    simp only [beq_iff_eq]

theorem trimEndMatches_singleton (c : Char) (s : List Char) :
    trimEndMatches [c] s = s.rdropWhile (· == c) := by
  unfold trimEndMatches List.rdropWhile
  rw [List.reverse_singleton, trimStartMatches_singleton]

end TrimMatches

section Split

variable {pat s a b : List Char}

theorem splitOnce_nil_of_prefix (hpat : pat ≠ []) : splitOnce pat (pat ++ b) = some ([], b) := by
  rcases h : pat ++ b with _ | ⟨c, s⟩
  · exact absurd (List.append_eq_nil_iff.1 h).1 hpat
  · rw [splitOnce, dropPrefix_eq_some.2 h.symm]

/-- Where `pat` is first does not depend on what comes after it. -/
theorem splitOnce_eq_some (hpat : pat ≠ []) : ∀ {s a b : List Char},
    splitOnce pat s = some (a, b) →
      s = a ++ pat ++ b ∧ ∀ b', splitOnce pat (a ++ pat ++ b') = some (a, b')
  | [], _, _, h => by simp [splitOnce] at h
  | c :: s, a, b, h => by
    rw [splitOnce] at h
    rcases hd : (c :: s).dropPrefix? pat with _ | rest <;> rw [hd] at h
    · obtain ⟨⟨a', b₁⟩, hs, heq⟩ := Option.map_eq_some_iff.1 h
      obtain ⟨rfl, rfl⟩ := Prod.mk.inj heq
      obtain ⟨rfl, hfirst⟩ := splitOnce_eq_some hpat hs
      refine ⟨rfl, fun b' => ?_⟩
      have hnot : (c :: (a' ++ pat ++ b')).dropPrefix? pat = none := by
        by_contra hne
        obtain ⟨rest, hrest⟩ := Option.ne_none_iff_exists'.1 hne
        have hpre : pat <+: c :: (a' ++ pat) := by
          have h₁ : pat <+: c :: (a' ++ pat ++ b') := ⟨rest, (dropPrefix_eq_some.1 hrest).symm⟩
          refine List.prefix_of_prefix_length_le h₁ ⟨b', rfl⟩ ?_
          simp only [List.length_cons, List.length_append]
          omega
        obtain ⟨t, ht⟩ := hpre
        have : (c :: (a' ++ pat ++ b₁)).dropPrefix? pat = some (t ++ b₁) :=
          dropPrefix_eq_some.2 (by rw [← List.append_assoc, ht, List.cons_append])
        rw [hd] at this
        cases this
      change splitOnce pat (c :: (a' ++ pat ++ b')) = _
      rw [splitOnce, hnot, hfirst]
      rfl
    · obtain ⟨rfl, rfl⟩ := Prod.mk.inj (Option.some.inj h)
      exact ⟨dropPrefix_eq_some.1 hd, fun b' => splitOnce_nil_of_prefix hpat⟩

theorem splitOnce_ne_none (hpat : pat ≠ []) : ∀ {s : List Char}, pat <:+: s →
    splitOnce pat s ≠ none
  | [], h => absurd (List.infix_nil.1 h) hpat
  | c :: s, h => by
    rw [splitOnce]
    rcases hd : (c :: s).dropPrefix? pat with _ | rest
    · rcases List.infix_cons_iff.1 h with ⟨t, ht⟩ | h
      · rw [dropPrefix_eq_some.2 ht.symm] at hd
        cases hd
      · simpa using splitOnce_ne_none hpat h
    · simp

theorem splitOnce_singleton {c : Char} : ∀ {a : List Char} (b : List Char), c ∉ a →
    splitOnce [c] (a ++ c :: b) = some (a, b)
  | [], b, _ => splitOnce_nil_of_prefix (by simp)
  | d :: a, b, h => by
    simp only [List.mem_cons, not_or] at h
    have hnot : (d :: (a ++ c :: b)).dropPrefix? [c] = none := by
      simp [List.dropPrefix?, Ne.symm h.1]
    rw [List.cons_append, splitOnce, hnot, splitOnce_singleton b h.2]
    rfl

theorem splitOnce_eq_none {c : Char} : ∀ {s : List Char}, c ∉ s → splitOnce [c] s = none
  | [], _ => rfl
  | d :: s, h => by
    simp only [List.mem_cons, not_or] at h
    have hnot : (d :: s).dropPrefix? [c] = none := by simp [List.dropPrefix?, Ne.symm h.1]
    rw [splitOnce, hnot, splitOnce_eq_none h.2]
    rfl

/-- What is after the last `c` does not depend on what is before the last but one. -/
theorem rsplitOnce_append_cons (c : Char) (x y : List Char) :
    ∃ z, rsplitOnce c (x ++ c :: y) = some (z, y.rtakeWhile (· != c)) := by
  unfold rsplitOnce List.rtakeWhile
  have hsplit := List.takeWhile_append_dropWhile (p := (· != c)) (l := y.reverse)
  have hnot : c ∉ y.reverse.takeWhile (· != c) := fun h => by
    simpa using List.mem_takeWhile_imp h
  rcases hd : y.reverse.dropWhile (· != c) with _ | ⟨d, rest⟩
  · rw [hd, List.append_nil] at hsplit
    have hrev : (x ++ c :: y).reverse = y.reverse ++ c :: x.reverse := by simp
    rw [hsplit] at hnot ⊢
    rw [hrev, splitOnce_singleton _ hnot]
    exact ⟨_, rfl⟩
  · obtain rfl : d = c := by
      have := List.head_dropWhile_not (· != c) (l := y.reverse) (by simp [hd])
      simpa [hd] using this
    have hrev : (x ++ d :: y).reverse
        = y.reverse.takeWhile (· != d) ++ d :: (rest ++ d :: x.reverse) := by
      rw [← List.cons_append, ← List.append_assoc, ← hd, hsplit]
      simp
    rw [hrev, splitOnce_singleton _ hnot]
    exact ⟨_, rfl⟩

/-- A piece between two separators has none. -/
theorem not_mem_of_mem_splitOn {c : Char} : ∀ {s p : List Char}, p ∈ s.splitOn c → c ∉ p
  | [], p, h => by
    rw [List.splitOn_nil, List.mem_singleton] at h
    rw [h]
    exact List.not_mem_nil
  | d :: s, p, h => by
    have ih : ∀ p ∈ s.splitOn c, c ∉ p := fun p => not_mem_of_mem_splitOn
    rw [List.splitOn_cons_eq_if_modifyHead] at h
    split at h
    · rcases List.mem_cons.1 h with hp | hp
      · rw [hp]
        exact List.not_mem_nil
      · exact ih p hp
    · rename_i hd
      rcases hs : s.splitOn c with _ | ⟨q, qs⟩
      · exact absurd hs (List.splitOn_ne_nil c s)
      · rw [hs, List.modifyHead_cons, List.mem_cons] at h
        rcases h with hp | hp
        · rw [hp, List.mem_cons, not_or]
          exact ⟨fun hc => hd (by simp [hc]), ih q (hs ▸ List.mem_cons_self)⟩
        · exact ih p (hs ▸ List.mem_cons_of_mem _ hp)

end Split

end Text
