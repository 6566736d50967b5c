import ForwardingRelayer.Auth
import ForwardingRelayer.Lib.Fallible

/-!
# What an endpoint spec says

Trimming an entry leaves its first `|` where it was, so the URL and the token of an entry are the
trimmed sides of the first `|` of the text between two commas. Parsing keeps both, redacting the
first alone.
-/

namespace ForwardingRelayer

/-- The text between two commas. -/
def pieces (spec : String) : List (List Char) := spec.toList.splitOn ','

def filledPieces (spec : String) : List (List Char) :=
  (pieces spec).filter (Text.trim · ≠ [])

/-- What is before the first `|`. -/
def urlOf (piece : List Char) : List Char := Text.trim (piece.takeWhile (· != '|'))

/-- What is after the first `|`. -/
def tokenOf (piece : List Char) : List Char := Text.trim (piece.dropWhile (· != '|')).tail

section Piece

variable {u t piece w : List Char} {c : Char}

theorem mem_of_mem_trim (h : c ∈ Text.trim piece) : c ∈ piece :=
  (List.dropWhile_suffix _).subset
    ((List.rdropWhile_prefix Text.isWhitespace (piece.dropWhile Text.isWhitespace)).subset h)

theorem ne_bar (hu : '|' ∉ u) : ∀ c ∈ u, (c != '|') = true := by
  intro c hc
  rw [bne_iff_ne]
  rintro rfl
  exact hu hc

theorem takeWhile_append_bar (hu : '|' ∉ u) :
    (u ++ '|' :: t).takeWhile (· != '|') = u := by
  rw [List.takeWhile_append_of_pos (ne_bar hu)]
  simp

theorem dropWhile_append_bar (hu : '|' ∉ u) :
    (u ++ '|' :: t).dropWhile (· != '|') = '|' :: t := by
  rw [List.dropWhile_append_of_pos (ne_bar hu)]
  simp

theorem urlOf_append (hu : '|' ∉ u) : urlOf (u ++ '|' :: t) = Text.trim u := by
  rw [urlOf, takeWhile_append_bar hu]

theorem tokenOf_append (hu : '|' ∉ u) : tokenOf (u ++ '|' :: t) = Text.trim t := by
  rw [tokenOf, dropWhile_append_bar hu, List.tail_cons]

theorem urlOf_of_not_mem (hu : '|' ∉ u) : urlOf u = Text.trim u := by
  rw [urlOf, List.takeWhile_eq_self_iff.2 (ne_bar hu)]

theorem tokenOf_of_not_mem (hu : '|' ∉ u) : tokenOf u = [] := by
  rw [tokenOf, List.dropWhile_eq_nil_iff.2 (ne_bar hu)]
  rfl

/-- A piece is its first `|` with what is around it, or it has none. -/
theorem bar_cases (piece : List Char) :
    '|' ∉ piece ∨ ∃ u t, '|' ∉ u ∧ piece = u ++ '|' :: t := by
  by_cases h : '|' ∈ piece
  · obtain ⟨u, t, rfl, hu⟩ := List.eq_append_cons_of_mem h
    exact .inr ⟨u, t, hu, rfl⟩
  · exact .inl h

theorem splitEntry_trim (piece : List Char) :
    splitEntry (Text.trim piece) = (urlOf piece, tokenOf piece) := by
  unfold splitEntry
  rcases bar_cases piece with h | ⟨u, t, hu, rfl⟩
  · rw [Text.splitOnce_eq_none fun hc => h (mem_of_mem_trim hc), urlOf_of_not_mem h,
      tokenOf_of_not_mem h]
  · have hu' : '|' ∉ u.dropWhile Text.isWhitespace := fun h =>
      hu ((List.dropWhile_suffix _).subset h)
    rw [Text.trim_append_cons (by decide), Text.splitOnce_singleton _ hu', urlOf_append hu,
      tokenOf_append hu]
    simp only [Text.trim_dropWhile, Text.trim_rdropWhile]

theorem entries_eq (spec : String) : entries spec = (filledPieces spec).map Text.trim := by
  unfold entries filledPieces pieces
  rw [List.filter_map]
  rfl

end Piece

section Parse

theorem AuthToken.fromStr_eq_ok_iff {s : String} {t : AuthToken} :
    AuthToken.fromStr s = .ok t ↔ t.asStr = s := by
  unfold AuthToken.fromStr
  obtain ⟨s', hne, hsafe⟩ := t
  constructor
  · intro h
    split at h
    · cases h
    · split at h
      · cases h
      · exact (congrArg AuthToken.asStr (Except.ok.inj h)).symm
  · rintro rfl
    rw [dif_neg hne]
    split
    · rename_i bad hbad
      have hmem := List.all_eq_true.1 hsafe bad (List.mem_of_find?_eq_some hbad)
      have := List.find?_some hbad
      rw [hmem] at this
      cases this
    · rfl

/-- The endpoint a piece stands for. -/
def Reads (piece : List Char) (spec : EndpointSpec) : Prop :=
  spec.url = String.ofList (urlOf piece)
    ∧ spec.token.map AuthToken.asStr
      = if tokenOf piece = [] then none else some (String.ofList (tokenOf piece))

theorem parseEntry_eq_ok_iff {piece : List Char} {spec : EndpointSpec} :
    parseEntry (Text.trim piece) = .ok spec ↔ Reads piece spec := by
  obtain ⟨url, token⟩ := spec
  unfold parseEntry Reads
  rw [splitEntry_trim]
  simp only []
  by_cases h : tokenOf piece = []
  · rw [if_pos h, if_pos h]
    rcases token with _ | t <;> simp [eq_comm]
  · rw [if_neg h, if_neg h]
    rcases ht : AuthToken.fromStr (String.ofList (tokenOf piece)) with e | t
    · have hno : ∀ t : AuthToken, t.asStr ≠ String.ofList (tokenOf piece) := fun t heq => by
        rw [AuthToken.fromStr_eq_ok_iff.2 heq] at ht
        cases ht
      simp [hno]
    · have hasStr := AuthToken.fromStr_eq_ok_iff.1 ht
      constructor
      · intro heq
        obtain ⟨rfl, rfl⟩ := EndpointSpec.mk.inj (Except.ok.inj heq)
        exact ⟨rfl, by rw [Option.map_some, hasStr]⟩
      · rintro ⟨rfl, htoken⟩
        obtain ⟨t', rfl, ht'⟩ := Option.map_eq_some_iff.1 htoken
        rw [AuthToken.fromStr_eq_ok_iff.2 ht'] at ht
        rw [← Except.ok.inj ht]

theorem exists_reads_iff {piece : List Char} :
    (∃ spec, Reads piece spec) ↔ (tokenOf piece).all isUrlSafe := by
  constructor
  · rintro ⟨⟨url, token⟩, -, htoken⟩
    split at htoken
    · rename_i h
      rw [h]
      rfl
    · obtain ⟨t, -, ht⟩ := Option.map_eq_some_iff.1 htoken
      have := t.urlSafe
      rwa [ht, String.toList_ofList] at this
  · intro h
    by_cases hnil : tokenOf piece = []
    · exact ⟨⟨_, none⟩, rfl, by rw [if_pos hnil]; rfl⟩
    · have hne : String.ofList (tokenOf piece) ≠ "" := fun h => hnil (by simpa using h)
      exact ⟨⟨_, some ⟨_, hne, by rwa [String.toList_ofList]⟩⟩, rfl, by rw [if_neg hnil]; rfl⟩

theorem parseEndpointSpecs_eq_ok_iff {spec : String} {specs : List EndpointSpec} :
    parseEndpointSpecs spec = .ok specs ↔ List.Forall₂ Reads (filledPieces spec) specs := by
  unfold parseEndpointSpecs
  rw [entries_eq, List.mapM_eq_ok_iff, List.forall₂_map_left_iff]
  simp only [parseEntry_eq_ok_iff]

end Parse

/-- A spec parses when every entry's token is one, or is left out. -/
theorem exists_parse_iff (spec : String) :
    (∃ specs, parseEndpointSpecs spec = .ok specs)
      ↔ ∀ p ∈ pieces spec, Text.trim p ≠ [] → (tokenOf p).all isUrlSafe := by
  simp only [parseEndpointSpecs_eq_ok_iff, List.exists_forall₂_iff, exists_reads_iff, filledPieces,
    List.mem_filter, decide_eq_true_eq, and_imp]

theorem map_of_reads {ps : List (List Char)} {specs : List EndpointSpec}
    (h : List.Forall₂ Reads ps specs) :
    specs.map (fun s => (s.url, s.token.map AuthToken.asStr)) = ps.map fun p =>
      (String.ofList (urlOf p),
        if tokenOf p = [] then none else some (String.ofList (tokenOf p))) := by
  induction h with
  | nil => rfl
  | cons hread _ ih => rw [List.map_cons, List.map_cons, ih, hread.1, hread.2]

theorem redactEndpointSpecs_eq (spec : String) :
    redactEndpointSpecs spec
      = ", ".intercalate ((filledPieces spec).map fun p => String.ofList (urlOf p)) := by
  unfold redactEndpointSpecs
  rw [entries_eq, List.map_map]
  simp only [Function.comp_def, splitEntry_trim]

/-- What a piece has after its first `|` may be another text. -/
def Rewritten (piece piece' : List Char) : Prop :=
  piece' = piece ∨ ∃ u t t', '|' ∉ u ∧ ',' ∉ t' ∧ piece = u ++ '|' :: t ∧ piece' = u ++ '|' :: t'

section Rewritten

variable {piece piece' : List Char} {ps qs : List (List Char)}

theorem Rewritten.not_mem (h : Rewritten piece piece') (hp : ',' ∉ piece) : ',' ∉ piece' := by
  rcases h with rfl | ⟨u, t, t', -, ht', rfl, rfl⟩
  · exact hp
  · simp only [List.mem_append, List.mem_cons, not_or] at hp ⊢
    exact ⟨hp.1, hp.2.1, ht'⟩

/-- A piece with a `|` is not blank, whatever comes after that. -/
theorem Rewritten.filled_iff (h : Rewritten piece piece') :
    Text.trim piece ≠ [] ↔ Text.trim piece' ≠ [] := by
  rcases h with rfl | ⟨u, t, t', -, -, rfl, rfl⟩
  · rfl
  · simp only [Text.trim_append_cons (c := '|') (by decide)]
    simp

theorem Rewritten.urlOf_eq (h : Rewritten piece piece') : urlOf piece' = urlOf piece := by
  rcases h with rfl | ⟨u, t, t', hu, -, rfl, rfl⟩
  · rfl
  · rw [urlOf_append hu, urlOf_append hu]

theorem map_urlOf_eq (h : List.Forall₂ Rewritten ps qs) :
    (qs.filter (Text.trim · ≠ [])).map urlOf = (ps.filter (Text.trim · ≠ [])).map urlOf := by
  induction h with
  | nil => rfl
  | @cons p q _ _ hpq _ ih =>
    by_cases hp : Text.trim p ≠ []
    · rw [List.filter_cons_of_pos (by simpa using hpq.filled_iff.1 hp),
        List.filter_cons_of_pos (by simpa using hp), List.map_cons, List.map_cons, hpq.urlOf_eq,
        ih]
    · rw [List.filter_cons_of_neg (by simpa using fun hq => hp (hpq.filled_iff.2 hq)),
        List.filter_cons_of_neg (by simpa using hp), ih]

end Rewritten

section RoundTrip

/-- A URL an endpoint list can carry. -/
structure Plain (url : List Char) : Prop where
  nonempty : url ≠ []
  trimmed : Text.trim url = url
  noComma : ',' ∉ url
  noBar : '|' ∉ url

/-- A way to write an endpoint, with white space around each of its parts. -/
inductive Renders : EndpointSpec → List Char → Prop
  | bare {url : String} {w₀ w₁ : List Char} (h₀ : ∀ c ∈ w₀, Text.isWhitespace c)
      (h₁ : ∀ c ∈ w₁, Text.isWhitespace c) : Renders ⟨url, none⟩ (w₀ ++ url.toList ++ w₁)
  | withToken {url : String} {token : AuthToken} {w₀ w₁ w₂ w₃ : List Char}
      (h₀ : ∀ c ∈ w₀, Text.isWhitespace c) (h₁ : ∀ c ∈ w₁, Text.isWhitespace c)
      (h₂ : ∀ c ∈ w₂, Text.isWhitespace c) (h₃ : ∀ c ∈ w₃, Text.isWhitespace c) :
      Renders ⟨url, some token⟩
        (w₀ ++ url.toList ++ w₁ ++ '|' :: (w₂ ++ token.asStr.toList ++ w₃))

variable {s w₀ w₁ : List Char} {c : Char}

theorem trim_around (h₀ : ∀ c ∈ w₀, Text.isWhitespace c) (h₁ : ∀ c ∈ w₁, Text.isWhitespace c) :
    Text.trim (w₀ ++ s ++ w₁) = Text.trim s := by
  rw [Text.trim_append_right h₁, Text.trim_append_left h₀]

theorem not_mem_around (h₀ : ∀ c ∈ w₀, Text.isWhitespace c) (h₁ : ∀ c ∈ w₁, Text.isWhitespace c)
    (hc : ¬ Text.isWhitespace c) (hs : c ∉ s) : c ∉ w₀ ++ s ++ w₁ := by
  simp only [List.mem_append, not_or]
  exact ⟨⟨fun h => hc (h₀ c h), hs⟩, fun h => hc (h₁ c h)⟩

theorem toNat_of_isAlphanum (h : c.isAlphanum) : 48 ≤ c.toNat ∧ c.toNat ≤ 122 := by
  unfold Char.isAlphanum Char.isAlpha Char.isUpper Char.isLower Char.isDigit at h
  simp only [Bool.or_eq_true, Bool.and_eq_true, decide_eq_true_eq, ge_iff_le,
    UInt32.le_iff_toNat_le] at h
  change 48 ≤ c.val.toNat ∧ c.val.toNat ≤ 122
  rcases h with (h | h) | h <;> exact ⟨le_trans (by decide) h.1, le_trans h.2 (by decide)⟩

theorem not_isWhitespace_of_isUrlSafe (h : isUrlSafe c) : ¬ Text.isWhitespace c := by
  unfold isUrlSafe at h
  simp only [Bool.or_eq_true, decide_eq_true_eq] at h
  rcases h with (((h | rfl) | rfl) | rfl) | rfl
  · have ⟨hlo, hhi⟩ := toNat_of_isAlphanum h
    unfold Text.isWhitespace
    simp only [List.contains_eq_mem, Bool.or_eq_true, Bool.and_eq_true, decide_eq_true_eq,
      List.mem_cons, List.not_mem_nil, or_false]
    omega
  all_goals decide

theorem AuthToken.trim_asStr (t : AuthToken) : Text.trim t.asStr.toList = t.asStr.toList :=
  Text.trim_eq_self fun c hc => not_isWhitespace_of_isUrlSafe (List.all_eq_true.1 t.urlSafe c hc)

theorem AuthToken.not_mem {c : Char} (t : AuthToken) (hc : ¬ isUrlSafe c) :
    c ∉ t.asStr.toList := fun h => hc (List.all_eq_true.1 t.urlSafe c h)

theorem Renders.reads {spec : EndpointSpec} {piece : List Char} (h : Renders spec piece)
    (hplain : Plain spec.url.toList) : Reads piece spec := by
  cases h with
  | @bare url w₀ w₁ h₀ h₁ =>
    have hbar : '|' ∉ w₀ ++ url.toList ++ w₁ := not_mem_around h₀ h₁ (by decide) hplain.noBar
    constructor
    · rw [urlOf_of_not_mem hbar, trim_around h₀ h₁, hplain.trimmed, String.ofList_toList]
    · rw [tokenOf_of_not_mem hbar]
      rfl
  | @withToken url token w₀ w₁ w₂ w₃ h₀ h₁ h₂ h₃ =>
    have hbar : '|' ∉ w₀ ++ url.toList ++ w₁ := not_mem_around h₀ h₁ (by decide) hplain.noBar
    have hne : token.asStr.toList ≠ [] := fun h => token.nonempty (by simpa using h)
    constructor
    · rw [urlOf_append hbar, trim_around h₀ h₁, hplain.trimmed, String.ofList_toList]
    · rw [tokenOf_append hbar, trim_around h₂ h₃, token.trim_asStr, if_neg hne,
        String.ofList_toList]
      rfl

theorem Renders.not_mem {spec : EndpointSpec} {piece : List Char} (h : Renders spec piece)
    (hplain : Plain spec.url.toList) : ',' ∉ piece := by
  cases h with
  | bare h₀ h₁ => exact not_mem_around h₀ h₁ (by decide) hplain.noComma
  | @withToken url token w₀ w₁ w₂ w₃ h₀ h₁ h₂ h₃ =>
    have hurl := not_mem_around h₀ h₁ (c := ',') (by decide) hplain.noComma
    have htoken := not_mem_around h₂ h₃ (c := ',') (by decide) (token.not_mem (by decide))
    rw [List.mem_append, List.mem_cons, not_or, not_or]
    exact ⟨hurl, by decide, htoken⟩

theorem Renders.filled {spec : EndpointSpec} {piece : List Char} (h : Renders spec piece)
    (hplain : Plain spec.url.toList) : Text.trim piece ≠ [] := by
  cases h with
  | bare h₀ h₁ =>
    rw [trim_around h₀ h₁, hplain.trimmed]
    exact hplain.nonempty
  | withToken h₀ h₁ h₂ h₃ =>
    rw [Text.trim_append_cons (by decide)]
    simp

/-- Entries without a comma are the pieces of their joined text, but for no entry at all. -/
theorem filledPieces_intercalate {ps : List (List Char)} (h : ∀ p ∈ ps, ',' ∉ p) :
    filledPieces (String.ofList ([','].intercalate ps)) = ps.filter (Text.trim · ≠ []) := by
  unfold filledPieces pieces
  rw [String.toList_ofList]
  rcases ps with _ | ⟨p, ps⟩
  · rfl
  · rw [List.splitOn_intercalate ',' h (by simp)]

theorem forall₂_reads {specs : List EndpointSpec} {ps : List (List Char)}
    (h : List.Forall₂ Renders specs ps) (hplain : ∀ spec ∈ specs, Plain spec.url.toList) :
    (∀ p ∈ ps, ',' ∉ p ∧ Text.trim p ≠ []) ∧ List.Forall₂ Reads ps specs := by
  induction h with
  | nil => exact ⟨by simp, .nil⟩
  | cons hr _ ih =>
    rw [List.forall_mem_cons] at hplain ⊢
    have ⟨hps, hreads⟩ := ih hplain.2
    exact ⟨⟨⟨hr.not_mem hplain.1, hr.filled hplain.1⟩, hps⟩, .cons (hr.reads hplain.1) hreads⟩

theorem parse_renders {specs : List EndpointSpec} {ps : List (List Char)}
    (h : List.Forall₂ Renders specs ps) (hplain : ∀ spec ∈ specs, Plain spec.url.toList) :
    parseEndpointSpecs (String.ofList ([','].intercalate ps)) = .ok specs := by
  have ⟨hps, hreads⟩ := forall₂_reads h hplain
  have hall : ps.filter (Text.trim · ≠ []) = ps :=
    List.filter_eq_self.2 fun p hp => by simpa using (hps p hp).2
  rw [parseEndpointSpecs_eq_ok_iff, filledPieces_intercalate fun p hp => (hps p hp).1, hall]
  exact hreads

end RoundTrip

theorem not_mem_of_rewritten {ps qs : List (List Char)} (h : List.Forall₂ Rewritten ps qs)
    (hps : ∀ p ∈ ps, ',' ∉ p) : ∀ q ∈ qs, ',' ∉ q := by
  induction h with
  | nil => exact hps
  | cons hpq _ ih =>
    rw [List.forall_mem_cons] at hps ⊢
    exact ⟨hpq.not_mem hps.1, ih hps.2⟩

theorem redact_rewritten {spec : String} {ps : List (List Char)}
    (h : List.Forall₂ Rewritten (pieces spec) ps) :
    redactEndpointSpecs (String.ofList ([','].intercalate ps)) = redactEndpointSpecs spec := by
  have hmem : ∀ p ∈ ps, ',' ∉ p := not_mem_of_rewritten h fun _ => Text.not_mem_of_mem_splitOn
  have hurls := congrArg (List.map String.ofList) (map_urlOf_eq h)
  rw [List.map_map, List.map_map] at hurls
  rw [redactEndpointSpecs_eq, redactEndpointSpecs_eq, filledPieces_intercalate hmem]
  exact congrArg ", ".intercalate hurls

theorem endpoint_specs_agree (spec : String) :
    ((∃ specs, parseEndpointSpecs spec = .ok specs)
        ↔ ∀ p ∈ pieces spec, Text.trim p ≠ [] → (tokenOf p).all isUrlSafe)
      ∧ (∀ specs, parseEndpointSpecs spec = .ok specs →
        specs.map (fun s => (s.url, s.token.map AuthToken.asStr)) = (filledPieces spec).map fun p =>
          (String.ofList (urlOf p),
            if tokenOf p = [] then none else some (String.ofList (tokenOf p))))
      ∧ redactEndpointSpecs spec
        = ", ".intercalate ((filledPieces spec).map fun p => String.ofList (urlOf p))
      ∧ (∀ ps, List.Forall₂ Rewritten (pieces spec) ps →
        redactEndpointSpecs (String.ofList ([','].intercalate ps)) = redactEndpointSpecs spec)
      ∧ ∀ specs ps, (∀ s ∈ specs, Plain s.url.toList) → List.Forall₂ Renders specs ps →
        parseEndpointSpecs (String.ofList ([','].intercalate ps)) = .ok specs :=
  ⟨exists_parse_iff spec, fun _ h => map_of_reads (parseEndpointSpecs_eq_ok_iff.1 h),
    redactEndpointSpecs_eq spec, fun _ h => redact_rewritten h,
    fun _ _ hplain h => parse_renders h hplain⟩

theorem endpoint_specs_agree_pair :
    redactEndpointSpecs "a:90 | tok, b:90" = redactEndpointSpecs "a:90 |x|y, b:90"
      ∧ parseEndpointSpecs "a:90 | tok, b:90"
        = .ok [⟨"a:90", some ⟨"tok", by decide, by decide⟩⟩, ⟨"b:90", none⟩] := by
  obtain ⟨-, -, -, hredact, hparse⟩ := endpoint_specs_agree "a:90 |x|y, b:90"
  refine ⟨(hredact ["a:90 | tok".toList, " b:90".toList] ?_), hparse _ ["a:90 | tok".toList,
    " b:90".toList] ?_ ?_⟩
  · have hpieces : pieces "a:90 |x|y, b:90" = ["a:90 |x|y".toList, " b:90".toList] := by decide
    rw [hpieces]
    exact .cons (.inr ⟨"a:90 ".toList, "x|y".toList, " tok".toList, by decide, by decide, rfl, rfl⟩)
      (.cons (.inl rfl) .nil)
  · simp only [List.forall_mem_cons]
    exact ⟨⟨by decide, by decide, by decide, by decide⟩,
      ⟨by decide, by decide, by decide, by decide⟩, by simp⟩
  · have hnil : ∀ c ∈ ([] : List Char), Text.isWhitespace c := fun c hc => nomatch hc
    have hblank : ∀ c ∈ [' '], Text.isWhitespace c := List.forall_mem_singleton.2 rfl
    exact .cons (@Renders.withToken "a:90" _ [] [' '] [' '] [] hnil hblank hblank hnil)
      (.cons (@Renders.bare "b:90" [' '] [] hblank hnil) .nil)

end ForwardingRelayer
