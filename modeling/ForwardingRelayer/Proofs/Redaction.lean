import ForwardingRelayer.Url

/-!
# What is logged of a WebSocket URL

The token stands behind the first `://`, and what comes before that is free of another one; so each
of the rewriters finds the same `://`, and the token between it and an `@` that no `/`, `?` or `#`
comes before. Up to the last `@` of the authority all is struck out, the token with it.
-/

namespace ForwardingRelayer

/-- No `://` begins in it, whatever comes after the one at its end. -/
def IsScheme (scheme : List Char) : Prop :=
  ∀ rest, Text.splitOnce schemeSeparator (scheme ++ schemeSeparator ++ rest) = some (scheme, rest)

/-- The scheme of the WebSocket URL. -/
def wsScheme (scheme : List Char) : List Char :=
  if scheme = "https".toList then "wss".toList
  else if scheme = "http".toList then "ws".toList
  else scheme

/-- A token in front of an authority, as userinfo. -/
def userinfo (token : List Char) (rest : List Char) : List Char := ':' :: token ++ '@' :: rest

section Scheme

variable {scheme rest base : List Char}

theorem isScheme_of_splitOnce {s : List Char}
    (h : Text.splitOnce schemeSeparator s = some (scheme, rest)) :
    s = scheme ++ schemeSeparator ++ rest ∧ IsScheme scheme :=
  Text.splitOnce_eq_some (by decide) h

theorem isScheme_of_nil
    (h : Text.splitOnce schemeSeparator (scheme ++ schemeSeparator) = some (scheme, [])) :
    IsScheme scheme := (isScheme_of_splitOnce h).2

theorem IsScheme.ws (h : IsScheme scheme) : IsScheme (wsScheme scheme) := by
  unfold wsScheme
  split
  · exact isScheme_of_nil (by decide)
  · split
    · exact isScheme_of_nil (by decide)
    · exact h

/-- A prefix that is a scheme is the scheme. -/
theorem dropPrefix_scheme {scheme' : List Char} (h : IsScheme scheme) (h' : IsScheme scheme') :
    (scheme ++ schemeSeparator ++ rest).dropPrefix? (scheme' ++ schemeSeparator)
      = if scheme = scheme' then some rest else none := by
  split
  · rename_i heq
    exact Text.dropPrefix_eq_some.2 (heq ▸ rfl)
  · rename_i hne
    by_contra hsome
    obtain ⟨rest', hrest⟩ := Option.ne_none_iff_exists'.1 hsome
    have hfirst := h rest
    rw [Text.dropPrefix_eq_some.1 hrest, h' rest'] at hfirst
    exact hne (Prod.mk.inj (Option.some.inj hfirst)).1.symm

end Scheme

section Rewrite

variable {scheme rest token : List Char}

/-- The trailing slashes come off behind the `@`, and the scheme alone changes. -/
theorem toList_deriveWsUrl (h : IsScheme scheme) :
    (deriveWsUrl (String.ofList (scheme ++ schemeSeparator ++ userinfo token rest))).toList
      = wsScheme scheme ++ schemeSeparator
        ++ userinfo token (rest.rdropWhile (· == '/') ++ "/websocket".toList) := by
  have hbase : Text.trimEndMatches ['/'] (scheme ++ schemeSeparator ++ userinfo token rest)
      = scheme ++ schemeSeparator ++ userinfo token (rest.rdropWhile (· == '/')) := by
    rw [Text.trimEndMatches_singleton]
    unfold userinfo
    rw [← List.append_assoc, Text.rdropWhile_append_cons (by decide), List.append_assoc]
  have hhttps : IsScheme "https".toList := isScheme_of_nil (by decide)
  have hhttp : IsScheme "http".toList := isScheme_of_nil (by decide)
  unfold deriveWsUrl wsScheme
  simp only [String.toList_ofList, hbase, dropPrefix_scheme h hhttps, dropPrefix_scheme h hhttp]
  by_cases h1 : scheme = "https".toList
  · rw [if_pos h1, if_pos h1]
    simp [userinfo, schemeSeparator]
  · rw [if_neg h1, if_neg h1]
    by_cases h2 : scheme = "http".toList
    · rw [if_pos h2, if_pos h2]
      simp [userinfo, schemeSeparator]
    · rw [if_neg h2, if_neg h2]
      simp [userinfo, schemeSeparator]

/-- Nothing of the token is left, nor of any userinfo after it. -/
theorem redactUserinfo_eq {url : String} (h : IsScheme scheme)
    (htoken : ∀ c ∈ token, endsAuthority c = false)
    (hurl : url.toList = scheme ++ schemeSeparator ++ userinfo token rest) :
    redactUserinfo url = String.ofList scheme ++ "://***@"
      ++ String.ofList ((rest.takeWhile (!endsAuthority ·)).rtakeWhile (· != '@'))
      ++ String.ofList (rest.dropWhile (!endsAuthority ·)) := by
  have hall : ∀ c ∈ ':' :: token ++ ['@'], (!endsAuthority c) = true := by
    intro c hc
    rw [List.mem_append, List.mem_cons, List.mem_singleton] at hc
    rcases hc with (rfl | hc) | rfl
    · decide
    · rw [htoken c hc]
      rfl
    · decide
  have hsplit : userinfo token rest = (':' :: token ++ ['@']) ++ rest := by simp [userinfo]
  obtain ⟨creds, hcreds⟩ := Text.rsplitOnce_append_cons '@' (':' :: token)
    (rest.takeWhile (!endsAuthority ·))
  have hauthority : (userinfo token rest).takeWhile (!endsAuthority ·)
      = ':' :: token ++ '@' :: rest.takeWhile (!endsAuthority ·) := by
    rw [hsplit, List.takeWhile_append_of_pos hall]
    simp
  have htail : (userinfo token rest).dropWhile (!endsAuthority ·)
      = rest.dropWhile (!endsAuthority ·) := by
    rw [hsplit, List.dropWhile_append_of_pos hall]
  unfold redactUserinfo
  rw [hurl, h]
  simp only [hauthority, htail, hcreds]

end Rewrite

theorem AuthToken.not_endsAuthority (t : AuthToken) :
    ∀ c ∈ t.asStr.toList, endsAuthority c = false := by
  intro c hc
  have hsafe := List.all_eq_true.1 t.urlSafe c hc
  rw [← Bool.not_eq_true]
  intro hends
  simp only [endsAuthority, Bool.or_eq_true, decide_eq_true_eq] at hends
  rcases hends with (rfl | rfl) | rfl <;> exact absurd hsafe (by decide)

/-- The token is there for the handshake, right behind the scheme's `://`. -/
def Carries (url : String) (t : AuthToken) : Prop :=
  ∃ scheme rest, Text.splitOnce schemeSeparator url.toList
    = some (scheme, userinfo t.asStr.toList rest)

/-- Whatever the URL, what is logged of its connection is the same for any two tokens, and the
connection has the token it was given. -/
theorem redaction_hides_token {url : String} (h : schemeSeparator <:+: url.toList)
    (t₁ t₂ : AuthToken) :
    ∃ u₁ u₂, withAuthToken url (some t₁.asStr) = .ok u₁ ∧ withAuthToken url (some t₂.asStr) = .ok u₂
      ∧ redactUserinfo (deriveWsUrl u₁) = redactUserinfo (deriveWsUrl u₂)
      ∧ (Carries u₁ t₁ ∧ Carries (deriveWsUrl u₁) t₁)
      ∧ (Carries u₂ t₂ ∧ Carries (deriveWsUrl u₂) t₂) := by
  obtain ⟨⟨scheme, rest⟩, hsplit⟩ :=
    Option.ne_none_iff_exists'.1 (Text.splitOnce_ne_none (by decide) h)
  obtain ⟨-, hscheme⟩ := isScheme_of_splitOnce hsplit
  have hconn : ∀ t : AuthToken, withAuthToken url (some t.asStr)
      = .ok (String.ofList (scheme ++ schemeSeparator ++ userinfo t.asStr.toList rest)) := by
    intro t
    simp only [withAuthToken, hsplit]
    refine congrArg Except.ok (String.toList_injective ?_)
    simp [userinfo, schemeSeparator]
  have hcarries : ∀ t : AuthToken, Carries
      (String.ofList (scheme ++ schemeSeparator ++ userinfo t.asStr.toList rest)) t :=
    fun t => ⟨scheme, rest, by rw [String.toList_ofList, hscheme]⟩
  have hws : ∀ t : AuthToken, Carries (deriveWsUrl
      (String.ofList (scheme ++ schemeSeparator ++ userinfo t.asStr.toList rest))) t :=
    fun t => ⟨_, _, by rw [toList_deriveWsUrl hscheme, hscheme.ws]⟩
  refine ⟨_, _, hconn t₁, hconn t₂, ?_, ⟨hcarries t₁, hws t₁⟩, ⟨hcarries t₂, hws t₂⟩⟩
  rw [redactUserinfo_eq hscheme.ws t₁.not_endsAuthority (toList_deriveWsUrl hscheme),
    redactUserinfo_eq hscheme.ws t₂.not_endsAuthority (toList_deriveWsUrl hscheme)]

def exampleToken : AuthToken := ⟨"abc123", by decide, by decide⟩

theorem redaction_hides_token_query : ∃ u₁ u₂,
    withAuthToken "https://rpc.example.com?to=a@b/" (some "abc123") = .ok u₁
      ∧ withAuthToken "https://rpc.example.com?to=a@b/" (some "~") = .ok u₂
      ∧ redactUserinfo (deriveWsUrl u₁) = redactUserinfo (deriveWsUrl u₂)
      ∧ Carries (deriveWsUrl u₁) exampleToken := by
  obtain ⟨u₁, u₂, h1, h2, heq, ⟨-, hc⟩, -⟩ := @redaction_hides_token
    "https://rpc.example.com?to=a@b/" ⟨"https".toList, "rpc.example.com?to=a@b/".toList, by decide⟩
    exampleToken ⟨"~", by decide, by decide⟩
  exact ⟨u₁, u₂, h1, h2, heq, hc⟩

end ForwardingRelayer
