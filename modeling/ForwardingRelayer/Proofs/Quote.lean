import ForwardingRelayer.Proofs.Fee
import ForwardingRelayer.Proofs.System

/-!
# What a failed fee quote comes to

`query_igp_fee` turns a quote that failed on every endpoint into a fee of zero. So the attempt that
asked for it goes on: it submits with that fee, and leaves it in the cache for every request of the
domain and token.
-/

namespace ForwardingRelayer

/-- `forward_address` on its own, over any shared state; each step comes with the time. -/
def forwardAttempt (env : RelayerEnv) (addr : String) :
    Machine (RelayerState × Call) (ℕ × Call.Input) where
  init s := s.2 = .resolve
  step s a := Call.step env a.1 addr s.1 s.2 a.2

def zeroFee : Float := (Decimal.finite false 0 0).toFloat

theorem quotedFee_error (error : String) : quotedFee (.error error) = some zeroFee := by
  have h : Decimal.parse "0".toList = some (.finite false 0 0) := by decide
  change (Decimal.parse "0".toList).map Decimal.toFloat = _
  rw [h]
  rfl

namespace Attempt

abbrev Step := Event (RelayerState × Call) (ℕ × Call.Input)

/-- The request whose quote fails, at a step, on every endpoint. -/
def failedQuote (e : Step) : Option ForwardingRequest :=
  match e.pre.2, e.act.2 with
  | .quote request, .quoted (.error _) => some request
  | _, _ => none

/-- The message a step has submitted. -/
def submission (e : Step) : Option MsgForward :=
  match e.pre.2, e.act.2 with
  | .submit _ msg, .submitted _ => some msg
  | _, _ => none

def failures (addr : String) (s : RelayerState) : UInt32 :=
  ((s.retryState.lookup addr).map RetryState.failures).getD 0

/-- What a failed quote is to come to: nothing is submitted since, the fee cache is as it was, and
the address has a retry entry with one failure more. -/
def Contained (addr : String) (since : List Step) (e : Step) (s : RelayerState) : Prop :=
  (∀ x ∈ since, submission x = none) ∧ s.feeCache = e.pre.1.feeCache
    ∧ ∃ state, s.retryState.lookup addr = some state
      ∧ state.failures = failures addr e.pre.1 + 1

section Run

variable {env : RelayerEnv} {addr : String} {now : ℕ} {s s' : RelayerState} {call' : Call}
  {input : Call.Input}

theorem runOp_feeCache {now : ℤ} {stored : Bool} {op : RelayerState.Op} :
    (s.runOp now stored addr op).1.feeCache = s.feeCache := by
  cases op <;> simp only [RelayerState.runOp] <;> split <;> rfl

/-- Past its quote an attempt submits its message, or has, and the cache stays. -/
def Submits (cache : FeeCache) (msg : MsgForward) (since : List Step)
    (s : RelayerState × Call) : Prop :=
  s.1.feeCache = cache
    ∧ ((∃ request, s.2 = .submit request msg)
      ∨ (∃ x ∈ since, submission x = some msg)
        ∧ ((∃ status ops, s.2 = .close status ops) ∨ ∃ status, s.2 = .done status))

theorem submits_step {cache : FeeCache} {msg : MsgForward} {since : List Step} {call : Call}
    (hs : Submits cache msg since (s, call))
    (h : Call.Steps env now addr s call input s' call') :
    Submits cache msg (⟨(s, call), (now, input), (s', call')⟩ :: since) (s', call') := by
  obtain ⟨hcache, ⟨request, hcall⟩ | ⟨⟨x, hx, hsub⟩, hrest⟩⟩ := hs
  · simp only [] at hcall
    subst hcall
    have hnow : ∀ act, (∃ ok, act = Call.Input.submitted ok) →
        submission ⟨(s, .submit request msg), (now, act), (s', call')⟩ = some msg := by
      rintro _ ⟨ok, rfl⟩
      rfl
    cases h with
    | submitted | submitFailed =>
      exact ⟨hcache, .inr ⟨⟨_, List.mem_cons_self, hnow _ ⟨_, rfl⟩⟩, .inl ⟨_, _, rfl⟩⟩⟩
  · have hsince : ∃ y ∈ (⟨(s, call), (now, input), (s', call')⟩ : Step) :: since,
        submission y = some msg := ⟨x, List.mem_cons_of_mem _ hx, hsub⟩
    rcases hrest with ⟨status, ops, hcall⟩ | ⟨status, hcall⟩
    · simp only [] at hcall
      subst hcall
      cases h with
      | close =>
        exact ⟨runOp_feeCache.trans hcache, .inr ⟨hsince, .inl ⟨_, _, rfl⟩⟩⟩
      | closed => exact ⟨hcache, .inr ⟨hsince, .inr ⟨_, rfl⟩⟩⟩
    · simp only [] at hcall
      subst hcall
      cases h

theorem submits_of_run {l₁ l₂ : List Step} {e : Step} {last : RelayerState × Call}
    {request : ForwardingRequest} (h : (forwardAttempt env addr).Run (l₁ ++ e :: l₂) last)
    (he : failedQuote e = some request) :
    Submits (e.pre.1.feeCache.insert (feeKey request) (zeroFee, e.act.1))
      (forwardMessage env.config env.signerAddress addr (maxIgpFee env.config zeroFee) request)
      l₁ last := by
  obtain ⟨-, hstep⟩ := h.of_mem rfl
  refine h.after (I := Submits _ _) ?_ fun l s a s' _ hs hstep => submits_step hs
    (Call.steps_of_step hstep)
  obtain ⟨⟨s, call⟩, ⟨now, input⟩, ⟨s', call'⟩⟩ := e
  unfold failedQuote at he
  split at he
  · rename_i request' error hcall hinput
    simp only [] at hcall hinput
    rw [Option.some.injEq] at he
    subst hcall hinput he
    have hquote : Call.Steps env now addr s (.quote request') (.quoted (.error error)) s' call' :=
      Call.steps_of_step hstep
    cases hquote with
    | quoted hq =>
      obtain rfl := Option.some.inj ((quotedFee_error error).symm.trans hq)
      exact ⟨fill_of_some hq, .inl ⟨request', rfl⟩⟩
    | feeFailed hq =>
      rw [quotedFee_error] at hq
      cases hq
  · cases he

end Run

end Attempt

open Attempt

/-- An attempt whose quote failed on every endpoint submits a forward with a fee of zero, and any
request of its domain and token finds that fee in the cache until the TTL is over. -/
theorem failed_quote_never_contained {env : RelayerEnv} {addr : String} {l₁ l₂ : List Attempt.Step}
    {e : Attempt.Step} {s : RelayerState} {status : ForwardStatus} {request : ForwardingRequest}
    (h : (forwardAttempt env addr).Run (l₁ ++ e :: l₂) (s, .done status))
    (he : failedQuote e = some request) :
    ¬ Contained addr l₁ e s
      ∧ (∃ x ∈ l₁, submission x = some (forwardMessage env.config env.signerAddress addr
          (maxIgpFee env.config zeroFee) request))
      ∧ ∀ r t, feeKey r = feeKey request → t - e.act.1 < feeCacheTtl →
          s.feeCache.cached (feeKey r) t = some zeroFee := by
  obtain ⟨hcache, ⟨request', hcall⟩ | ⟨⟨x, hx, hsub⟩, -⟩⟩ := submits_of_run h he
  · cases hcall
  · refine ⟨fun hc => ?_, ⟨x, hx, hsub⟩, fun r t hr ht => ?_⟩
    · rw [hc.1 x hx] at hsub
      cases hsub
    · simp only [] at hcache
      rw [cached_eq_some_iff, hcache, hr]
      exact ⟨e.act.1, AList.lookup_insert _, ht⟩

section Example

/-- Its balance is there, the quote fails on every endpoint, and the submission succeeds. -/
def quoteFailing : List (ℕ × Call.Input) :=
  [(0, .go true), (0, .go true), (0, .balances (some [⟨"utia", "5"⟩])), (0, .go true),
    (0, .go true), (0, .go true), (0, .go true), (0, .go true), (0, .quoted (.error "timed out")),
    (0, .submitted true), (0, .go true), (0, .go true), (0, .go true), (0, .go true),
    (0, .go true), (0, .go true)]

def quoteFailingStart : RelayerState × Call :=
  ({ live := AList.insert "celestia1a" (Relayer.listed "celestia1a") ∅
     retryState := ∅
     lastActivity := ∅
     feeCache := ∅
     store := ⟨∅, ∅⟩ }, .resolve)

def isSubmitted : Call → Bool
  | .done .submitted => true
  | _ => false

theorem quoteFailing_run : ∃ l₁ e l₂ s,
    (forwardAttempt (Relayer.exampleEnv 60 60) "celestia1a").Run (l₁ ++ e :: l₂)
        (s, .done .submitted)
      ∧ failedQuote e = some (Relayer.listed "celestia1a")
      ∧ (∃ x ∈ l₁, (submission x).isSome = true)
      ∧ s.retryState.lookup "celestia1a" = none := by
  obtain ⟨log, ⟨s, call⟩, hrun, -, h⟩ := Machine.exists_run_of_exec
    (forwardAttempt (Relayer.exampleEnv 60 60) "celestia1a") quoteFailing quoteFailingStart
    (fun log s => (log[7]?).any (fun e => failedQuote e == some (Relayer.listed "celestia1a"))
      && (log.take 7).any (fun x => (submission x).isSome)
      && (s.1.retryState.lookup "celestia1a" == none)
      && isSubmitted s.2) rfl (by decide +kernel)
  simp only [Bool.and_eq_true, Option.any_eq_true, List.any_eq_true, beq_iff_eq] at h
  obtain ⟨⟨⟨⟨e, he, hfail⟩, hsub⟩, hretry⟩, hdone⟩ := h
  have hcall : call = .done .submitted := by
    unfold isSubmitted at hdone
    split at hdone
    · rfl
    · cases hdone
  subst hcall
  exact ⟨log.take 7, e, log.drop 8, s, by rwa [List.take_append_cons_drop he], hfail, hsub,
    hretry⟩

theorem failed_quote_never_contained_submitted : ∃ l₁ e l₂ s,
    (forwardAttempt (Relayer.exampleEnv 60 60) "celestia1a").Run (l₁ ++ e :: l₂)
        (s, .done .submitted)
      ∧ ¬ Contained "celestia1a" l₁ e s := by
  obtain ⟨l₁, e, l₂, s, hrun, hfail, -⟩ := quoteFailing_run
  exact ⟨l₁, e, l₂, s, hrun, (failed_quote_never_contained hrun hfail).1⟩

/-- The forward is submitted though no endpoint gave a quote, and no retry entry is left. -/
theorem failed_quote_submitted : ∃ l₁ e l₂ s,
    (forwardAttempt (Relayer.exampleEnv 60 60) "celestia1a").Run (l₁ ++ e :: l₂)
        (s, .done .submitted)
      ∧ failedQuote e = some (Relayer.listed "celestia1a")
      ∧ (∃ x ∈ l₁, (submission x).isSome = true)
      ∧ ¬ Contained "celestia1a" l₁ e s := by
  obtain ⟨l₁, e, l₂, s, hrun, hfail, hsub, hretry⟩ := quoteFailing_run
  refine ⟨l₁, e, l₂, s, hrun, hfail, hsub, fun hc => ?_⟩
  obtain ⟨state, hstate, -⟩ := hc.2.2
  rw [hretry] at hstate
  cases hstate

end Example

end ForwardingRelayer
