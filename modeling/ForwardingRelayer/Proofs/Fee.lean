import ForwardingRelayer.Fee
import ForwardingRelayer.Proofs.Binding

/-!
# Whose quote a call uses

An entry of the fee cache is what the last call to fill it was answered, at the time it was. The
key leaves the hook out, so that call may have asked for another binding; and a query that fails
everywhere fills the entry with a fee of zero. A call that meets neither uses a fresh answer to
its own query.
-/

namespace ForwardingRelayer

open FeeCalls

section Cache

variable {cache : FeeCache} {key : FeeKey} {now : ℕ}
  {result : Except String QueryQuoteForwardingFeeResponse} {fee : Float}

theorem cached_eq_some_iff : cache.cached key now = some fee ↔
    ∃ at_, cache.lookup key = some (fee, at_) ∧ now - at_ < feeCacheTtl := by
  unfold FeeCache.cached
  rcases cache.lookup key with _ | ⟨fee', at_⟩
  · simp
  · simp only [Option.ite_none_right_eq_some, Option.some.injEq, Prod.mk.injEq]
    refine ⟨fun h => ⟨at_, ⟨h.2, rfl⟩, h.1⟩, ?_⟩
    rintro ⟨_, ⟨rfl, rfl⟩, h⟩
    exact ⟨h, rfl⟩

theorem fill_of_none (h : quotedFee result = none) : cache.fill key now result = cache := by
  unfold FeeCache.fill
  rw [h]

theorem fill_of_some (h : quotedFee result = some fee) :
    cache.fill key now result = cache.insert key (fee, now) := by
  unfold FeeCache.fill
  rw [h]

theorem cached_fill (h : quotedFee result = some fee) :
    (cache.fill key now result).cached key now = some fee := by
  rw [cached_eq_some_iff, fill_of_some h]
  refine ⟨now, AList.lookup_insert _, ?_⟩
  rw [Nat.sub_self]
  decide

end Cache

section Steps

variable {cfg : RelayerConfig} {s s' : FeeCalls} {log : List FeeCalls.Step}

theorem step_call {r : ForwardingRequest} :
    (feeCalls cfg).step s (.call r)
      = some { s with quoting := match s.cache.cached (feeKey r) s.now with
                | some _ => s.quoting
                | none => s.quoting ++ [(r, feeQuery cfg r)] } := by
  rcases h : s.cache.cached (feeKey r) s.now with _ | fee <;> simp only [feeCalls, h]

theorem step_reply_cases {i : ℕ} {result : Except String QueryQuoteForwardingFeeResponse}
    (h : (feeCalls cfg).step s (.reply i result) = some s') :
    ∃ r q, s.quoting[i]? = some (r, q)
      ∧ s' = { s with cache := s.cache.fill (feeKey r) s.now result
                      quoting := s.quoting.eraseIdx i } := by
  simp only [feeCalls] at h
  rcases hi : s.quoting[i]? with _ | ⟨r, q⟩ <;> rw [hi] at h
  · simp at h
  · exact ⟨r, q, rfl, (Option.some.inj h).symm⟩

def OwnQueries (cfg : RelayerConfig) (s : FeeCalls) : Prop :=
  ∀ p ∈ s.quoting, p.2 = feeQuery cfg p.1

theorem ownQueries_step {a : FeeCalls.Act} (hs : OwnQueries cfg s)
    (h : (feeCalls cfg).step s a = some s') : OwnQueries cfg s' := by
  cases a with
  | elapse d =>
    simp only [feeCalls, Option.some.injEq] at h
    exact h ▸ hs
  | call r =>
    rw [step_call, Option.some.injEq] at h
    subst h
    intro p hp
    simp only [] at hp
    split at hp
    · exact hs p hp
    · rcases List.mem_append.1 hp with hp | hp
      · exact hs p hp
      · rw [List.mem_singleton.1 hp]
  | reply i result =>
    obtain ⟨r, q, -, rfl⟩ := step_reply_cases h
    exact fun p hp => hs p (List.mem_of_mem_eraseIdx hp)

theorem ownQueries_of_run (h : (feeCalls cfg).Run log s) : OwnQueries cfg s := by
  refine h.reachable.invariant (I := OwnQueries cfg) ?_ fun _ _ _ hs => ownQueries_step hs
  rintro s ⟨-, hq⟩ p hp
  rw [hq] at hp
  cases hp

/-- An entry is the quote of the call that has just filled it, or it was there and still is. -/
theorem filled_step {a : FeeCalls.Act} {key : FeeKey} {fee : Float} {at_ : ℕ}
    (h : (feeCalls cfg).step s a = some s') (hl : s'.cache.lookup key = some (fee, at_)) :
    (filled ⟨s, a, s'⟩ = some key ∧ (∃ r, quoteUsed ⟨s, a, s'⟩ = some (r, fee)) ∧ s.now = at_)
      ∨ (filled ⟨s, a, s'⟩ ≠ some key ∧ s.cache.lookup key = some (fee, at_)) := by
  cases a with
  | elapse d =>
    simp only [feeCalls, Option.some.injEq] at h
    subst h
    exact .inr ⟨by simp [filled], hl⟩
  | call r =>
    rw [step_call, Option.some.injEq] at h
    subst h
    exact .inr ⟨by simp [filled], hl⟩
  | reply i result =>
    obtain ⟨r, q, hi, rfl⟩ := step_reply_cases h
    rcases hq : quotedFee result with _ | quoted
    · rw [fill_of_none hq] at hl
      exact .inr ⟨by simp [filled, quoteUsed, hi, hq], hl⟩
    · rw [fill_of_some hq] at hl
      by_cases hk : key = feeKey r
      · subst hk
        rw [AList.lookup_insert, Option.some.injEq, Prod.mk.injEq] at hl
        obtain ⟨rfl, rfl⟩ := hl
        exact .inl ⟨by simp [filled, quoteUsed, hi, hq], ⟨r, by simp [quoteUsed, hi, hq]⟩, rfl⟩
      · rw [AList.lookup_insert_ne hk] at hl
        refine .inr ⟨?_, hl⟩
        simp only [filled, quoteUsed, hi, hq, Option.map_some, ne_eq, Option.some.injEq]
        exact fun h => hk h.symm

/-- Every entry is the quote the last call to fill it used, at the time it did. -/
theorem filled_of_run (h : (feeCalls cfg).Run log s) {key : FeeKey} {fee : Float} {at_ : ℕ} :
    s.cache.lookup key = some (fee, at_) →
      Since (fun e => filled e = some key ∧ (∃ r, quoteUsed e = some (r, fee)) ∧ e.pre.now = at_)
        (fun e => filled e = some key) log := by
  refine h.since_of (I := fun s => s.cache.lookup key = some (fee, at_)) ?_ ?_
  · rintro s ⟨hc, -⟩ hl
    rw [hc, AList.lookup_empty] at hl
    cases hl
  · exact fun log s a s' _ => filled_step

end Steps

/-- The quote of a step's call, if it ends with one, is the chain's answer to that call's own
query, given at most the TTL earlier. -/
def Transparent (cfg : RelayerConfig) (log : List FeeCalls.Step) (e : FeeCalls.Step) : Prop :=
  ∀ r fee, quoteUsed e = some (r, fee) →
    ∃ e' ∈ e :: log, ∃ response, chainAnswer e' = some (feeQuery cfg r, response)
      ∧ quotedFee (.ok response) = some fee ∧ e.pre.now ≤ e'.pre.now + feeCacheTtl

/-- A call that finds a fresh quote finds its entry filled, last, by an answer to the query it
would have sent itself; a query in flight is answered by some endpoint. -/
def OwnQuote (cfg : RelayerConfig) (log : List FeeCalls.Step) (e : FeeCalls.Step) : Prop :=
  match e.act with
  | .elapse _ => True
  | .call r =>
    (e.pre.cache.cached (feeKey r) e.pre.now).isSome →
      Since (fun e' => filled e' = some (feeKey r)
          ∧ ∃ response, chainAnswer e' = some (feeQuery cfg r, response))
        (fun e' => filled e' = some (feeKey r)) log
  | .reply _ result => ∃ response, result = .ok response

theorem quotedFee_of_chainAnswer {e : FeeCalls.Step} {r : ForwardingRequest} {fee : Float}
    {q : QueryQuoteForwardingFeeRequest} {response : QueryQuoteForwardingFeeResponse}
    (ha : chainAnswer e = some (q, response)) (hu : quoteUsed e = some (r, fee)) :
    quotedFee (.ok response) = some fee := by
  obtain ⟨pre, act, post⟩ := e
  rcases act with d | r' | ⟨i, err | response'⟩ <;>
    simp only [chainAnswer, reduceCtorEq, Option.map_eq_some_iff, Prod.mk.injEq] at ha
  obtain ⟨p, hp, -, rfl⟩ := ha
  simp only [quoteUsed, hp] at hu
  split at hu
  · rename_i h
    rw [h]
    exact congrArg some (Prod.mk.inj (Option.some.inj hu)).2
  · cases hu

/-- In every run, a step that uses its own quote is transparent. -/
theorem fee_cache_transparent (cfg : RelayerConfig) {log : List FeeCalls.Step} {s : FeeCalls}
    (h : (feeCalls cfg).Run log s) {l₁ l₂ : List FeeCalls.Step} {e : FeeCalls.Step}
    (hlog : log = l₁ ++ e :: l₂) (hown : OwnQuote cfg l₂ e) : Transparent cfg l₂ e := by
  obtain ⟨hrun, -⟩ := h.of_mem hlog
  intro r fee hu
  obtain ⟨pre, act, post⟩ := e
  cases act with
  | elapse d => simp [quoteUsed] at hu
  | call r' =>
    simp only [quoteUsed, Option.map_eq_some_iff, Prod.mk.injEq] at hu
    obtain ⟨fee', hc, rfl, rfl⟩ := hu
    obtain ⟨at_, hl, hfresh⟩ := cached_eq_some_iff.1 hc
    have hsince := Since.and (fun _ h => h.1) (fun _ h => h.1) (filled_of_run hrun hl)
      (hown (by rw [hc]; rfl))
    obtain ⟨l₃, e', l₄, rfl, ⟨⟨-, ⟨r'', hu⟩, rfl⟩, -, response, ha⟩, -⟩ := Since.iff_split.1 hsince
    refine ⟨e', by simp, response, ha, quotedFee_of_chainAnswer ha hu, ?_⟩
    simp only []
    omega
  | reply i result =>
    obtain ⟨response, rfl⟩ := hown
    have hu' := hu
    simp only [quoteUsed] at hu
    split at hu
    · rename_i r' q fee' hi hq
      obtain ⟨rfl, rfl⟩ := Prod.mk.inj (Option.some.inj hu)
      have hown : q = feeQuery cfg r' := ownQueries_of_run hrun _ (List.mem_of_getElem? hi)
      have ha : chainAnswer ⟨pre, .reply i (.ok response), post⟩
          = some (feeQuery cfg r', response) := by
        simp [chainAnswer, hi, hown]
      exact ⟨_, List.mem_cons_self, response, ha, quotedFee_of_chainAnswer ha hu', by omega⟩
    · cases hu

def rowWithHook (hook : Option String) : ForwardingRequest :=
  { plainRow with customHookId := hook }

def utia105 : QueryQuoteForwardingFeeResponse := ⟨some ⟨"utia", "105"⟩⟩

theorem quotedFee_utia105 :
    quotedFee (.ok utia105) = some (Decimal.finite false 105 0).toFloat := by
  have h : Decimal.parse "105".toList = some (.finite false 105 0) := by decide +kernel
  change (Decimal.parse "105".toList).map Decimal.toFloat = _
  rw [h]
  rfl

section Answered

variable (cfg : RelayerConfig)

/-- The plain row's query in flight, and the cache once it has been answered. -/
def asked : FeeCalls := ⟨∅, 0, [(plainRow, feeQuery cfg plainRow)]⟩

def answered : FeeCalls := ⟨FeeCache.fill ∅ (feeKey plainRow) 0 (.ok utia105), 0, []⟩

def answeredLog : List FeeCalls.Step :=
  [⟨asked cfg, .reply 0 (.ok utia105), answered⟩, ⟨⟨∅, 0, []⟩, .call plainRow, asked cfg⟩]

theorem answeredLog_run : (feeCalls cfg).Run (answeredLog cfg) answered := by
  have hinit : (feeCalls cfg).init ⟨∅, 0, []⟩ := ⟨rfl, rfl⟩
  have hasked : (feeCalls cfg).step ⟨∅, 0, []⟩ (.call plainRow) = some (asked cfg) := rfl
  have hreply : (feeCalls cfg).step (asked cfg) (.reply 0 (.ok utia105)) = some answered := rfl
  exact ((Machine.Run.init hinit).step hasked).step hreply

theorem answered_call {r : ForwardingRequest} (hr : feeKey r = feeKey plainRow) :
    quoteUsed ⟨answered, .call r, answered⟩ = some (r, (Decimal.finite false 105 0).toFloat)
      ∧ (feeCalls cfg).Run (⟨answered, .call r, answered⟩ :: answeredLog cfg) answered := by
  have hc : answered.cache.cached (feeKey r) answered.now
      = some (Decimal.finite false 105 0).toFloat := by
    rw [hr]
    exact cached_fill quotedFee_utia105
  refine ⟨by simp only [quoteUsed, hc, Option.map_some], (answeredLog_run cfg).step ?_⟩
  rw [step_call, hc]

end Answered

theorem fee_cache_transparent_plain :
    Transparent (configWithHook none) (answeredLog (configWithHook none))
      ⟨answered, .call plainRow, answered⟩ := by
  refine fee_cache_transparent (configWithHook none) (answered_call _ rfl).2
    (List.nil_append _).symm fun _ => .inl ⟨?_, utia105, rfl⟩
  simp only [filled, quoteUsed, asked, List.getElem?_cons_zero, quotedFee_utia105, Option.map_some]

/-- A call for the same domain and token with a hook uses that answer too, though the chain was
never asked for a quote with the hook. -/
theorem fee_cache_ignores_hook :
    (feeCalls (configWithHook none)).Run
        (⟨answered, .call (rowWithHook boundArgs.customHookId), answered⟩
          :: answeredLog (configWithHook none)) answered
      ∧ ¬ Transparent (configWithHook none) (answeredLog (configWithHook none))
        ⟨answered, .call (rowWithHook boundArgs.customHookId), answered⟩ := by
  obtain ⟨hu, hrun⟩ := answered_call (configWithHook none)
    (r := rowWithHook boundArgs.customHookId) rfl
  refine ⟨hrun, fun h => ?_⟩
  obtain ⟨e', he', response, ha, -⟩ := h _ _ hu
  simp only [answeredLog, List.mem_cons, List.not_mem_nil, or_false] at he'
  rcases he' with rfl | rfl | rfl
  · cases ha
  · have hq : feeQuery (configWithHook none) plainRow
        = feeQuery (configWithHook none) (rowWithHook boundArgs.customHookId) :=
      (Prod.mk.inj (Option.some.inj ha)).1
    revert hq
    decide
  · cases ha

end ForwardingRelayer
