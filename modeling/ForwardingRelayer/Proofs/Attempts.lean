import ForwardingRelayer.Proofs.Exhaustive

/-!
# What a call has asked of the pool

The other calls may move the preference at any time, and an endpoint may answer one way now and
another way later. A call keeps to the order it has begun, from the preference it has loaded, so
that it asks each endpoint at most once and gives up after it has asked all of them.
-/

namespace ForwardingRelayer

namespace CelestiaClient

variable {T : Type}

/-- The endpoint that answers a call in a step, with its answer. -/
def heard (count k : ℕ) (e : Step T) : Option (ℕ × Except String T) :=
  match e.act with
  | .answer j result =>
    if j = k then ((e.pre.calls[k]?).bind (awaited count)).map fun idx => (idx, result) else none
  | _ => none

/-- What the endpoints have answered a call, the first one first. -/
def hearings (count k : ℕ) (log : List (Step T)) : List (ℕ × Except String T) :=
  Machine.trace (heard count k) log

/-- The endpoints up to the `i`th of the order have failed, the others have not been asked. -/
structure Refused (count start i : ℕ) (l : List (ℕ × Except String T)) : Prop where
  asked : l.map Prod.fst = (order count start).take i
  errors : ∀ r ∈ l, ∃ e, r.2 = .error e

/-- What a call has heard, and where it is. -/
inductive Trail (count : ℕ) (what : String) (start : ℕ) :
    List (ℕ × Except String T) → ClientCall T → Prop
  | attempt {i : ℕ} {l : List (ℕ × Except String T)} : i < count → Refused count start i l →
      Trail count what start l (.attempt what start i)
  | prefer {i : ℕ} {l : List (ℕ × Except String T)} {value : T} : i < count →
      Refused count start i l →
      Trail count what start (l ++ [((start + i) % count, .ok value)])
        (.prefer start ((start + i) % count) value)
  | succeeded {i : ℕ} {l : List (ℕ × Except String T)} {value : T} : i < count →
      Refused count start i l →
      Trail count what start (l ++ [((start + i) % count, .ok value)]) (.answered (.ok value))
  | failed {i : ℕ} {l : List (ℕ × Except String T)} {e : String} :
      Refused count start count (l ++ [((start + i) % count, .error e)]) →
      Trail count what start (l ++ [((start + i) % count, .error e)])
        (.answered (.error ⟨what ++ " failed on all gRPC endpoints", e⟩))

section Trail

variable {count k start i : ℕ} {what : String} {l : List (ℕ × Except String T)}
  {s s' : CelestiaClient T} {act : Act T} {call : ClientCall T}

theorem Refused.nil : Refused count start 0 ([] : List (ℕ × Except String T)) :=
  ⟨rfl, by simp⟩

theorem Refused.succ (h : Refused count start i l) (hi : i < count) (e : String) :
    Refused count start (i + 1) (l ++ [((start + i) % count, .error e)]) := by
  refine ⟨?_, fun r hr => ?_⟩
  · rw [List.map_append, h.asked, take_succ_order hi]
    rfl
  · rcases List.mem_append.1 hr with hr | hr
    · exact h.errors r hr
    · exact ⟨e, by rw [List.mem_singleton.1 hr]⟩

theorem Trail.not_submission (h : Trail count what start l call)
    (hk : s.calls[k]? = some call) (result : Except String String) :
    s.step count (.submission k result) = none := by
  cases h <;> cases result <;> simp only [CelestiaClient.step, hk]

theorem heard_of_not_own (hact : ¬ Own k act) : heard count k ⟨s, act, s'⟩ = none := by
  cases act with
  | answer j result =>
    refine if_neg ?_
    rintro rfl
    exact hact (.inl ⟨result, rfl⟩)
  | _ => rfl

theorem Trail.answer (h : Refused count start i l) (hi : i < count) (result : Except String T) :
    Trail count what start (l ++ [((start + i) % count, result)])
      (afterAnswer count what start i result) := by
  rcases result with e | value
  · have hrefused := h.succ hi e
    simp only [afterAnswer, ClientCall.next]
    split
    · rename_i hi'
      exact .attempt hi' hrefused
    · rename_i hi'
      obtain rfl : i + 1 = count := by omega
      exact .failed hrefused
  · simp only [afterAnswer]
    split
    · exact .succeeded hi h
    · exact .prefer hi h

/-- Whatever step is taken, a call stays on its trail. -/
theorem Trail.step (h : Trail count what start l call) (hk : s.calls[k]? = some call)
    (hs : s.step count act = some s') : ∃ call', s'.calls[k]? = some call'
      ∧ Trail count what start (l ++ (heard count k ⟨s, act, s'⟩).toList) call' := by
  obtain ⟨hlt, -⟩ := List.getElem?_eq_some_iff.1 hk
  by_cases hact : Own k act
  · rcases own_cases hk hs hact with ⟨what', start', i, result, rfl, rfl, rfl⟩ |
      ⟨start', idx, value, rfl, rfl, rfl⟩ | ⟨idx, e, rfl, -⟩
    · refine ⟨_, List.getElem?_set_self hlt, ?_⟩
      have hheard : heard count k ⟨s, .answer k result,
          { s with calls := s.calls.set k (afterAnswer count what' start' i result) }⟩
          = some ((start' + i) % count, result) := by
        simp [heard, hk, awaited]
      rw [hheard]
      cases h with
      | attempt hi hl => exact .answer hl hi result
    · refine ⟨_, List.getElem?_set_self hlt, ?_⟩
      have hheard : heard count k (⟨s, .store k, ⟨idx, s.calls.set k (.answered (.ok value))⟩⟩ :
          Step T) = none := rfl
      rw [hheard, Option.toList_none, List.append_nil]
      cases h with
      | prefer hi hl => exact .succeeded hi hl
    · cases h
  · have hsub : ∀ result, act ≠ .submission k result := by
      rintro result rfl
      rw [h.not_submission hk] at hs
      cases hs
    rw [heard_of_not_own hact, Option.toList_none, List.append_nil]
    exact ⟨call, (other_step hs hk hact hsub).1, h⟩

/-- The endpoints that have answered come first in the order. -/
theorem Trail.asked (h : Trail count what start l call) : l.map Prod.fst <+: order count start := by
  cases h with
  | attempt hi hl => exact hl.asked ▸ List.take_prefix _ _
  | prefer hi hl | succeeded hi hl =>
    rw [List.map_append, hl.asked, List.map_singleton, ← take_succ_order hi]
    exact List.take_prefix _ _
  | failed hl => exact hl.asked ▸ List.take_prefix _ _

theorem Trail.ne_panicked (h : Trail count what start l call) : call ≠ .panicked := by
  cases h <;> exact nofun

/-- All answers but the last are errors. -/
theorem Trail.errors (h : Trail count what start l call) :
    ∀ r ∈ l.dropLast, ∃ e, r.2 = .error e := by
  cases h with
  | attempt hi hl => exact fun r hr => hl.errors r (List.dropLast_subset l hr)
  | prefer hi hl | succeeded hi hl =>
    rw [List.dropLast_concat]
    exact hl.errors
  | failed hl => exact fun r hr => hl.errors r (List.dropLast_subset _ hr)

theorem Trail.of_ok {value : T} (h : Trail count what start l (.answered (.ok value))) :
    ∃ idx, l.getLast? = some (idx, .ok value) := by
  cases h with
  | succeeded => exact ⟨_, List.getLast?_concat⟩

theorem Trail.of_error {e : FailoverError}
    (h : Trail count what start l (.answered (.error e))) :
    l.map Prod.fst = order count start ∧ (∀ r ∈ l, ∃ e, r.2 = .error e)
      ∧ e.context = what ++ " failed on all gRPC endpoints"
      ∧ ∃ idx, l.getLast? = some (idx, .error e.source) := by
  cases h with
  | failed hl =>
    refine ⟨?_, hl.errors, rfl, _, List.getLast?_concat⟩
    rw [hl.asked, List.take_of_length_le (le_of_eq length_order)]

/-- Left to itself, a call is answered within a step for each endpoint and one more. -/
theorem Trail.finishes (h : Trail count what start l call) (hk : s.calls[k]? = some call)
    (outcome : ℕ → Except String T) (log : List (Step T)) :
    Finishes count outcome k (count + 1) log s := by
  cases h with
  | attempt hi => exact finishes_attempt hi (Nat.le_add_left _ _) hk
  | prefer => exact finishes_prefer hk
  | succeeded => exact .answered hk
  | failed => exact .answered hk

theorem trail_of_run {l₁ l₂ : List (Step T)} {e : Step T} (hcount : 0 < count)
    (h : (celestiaClient T count).Run (l₁ ++ e :: l₂) s) (he : e.act = .withFailover what)
    (hk : e.pre.calls.length = k) : ∃ call, s.calls[k]? = some call
      ∧ Trail count what e.pre.current (hearings count k l₁) call := by
  obtain ⟨-, hstep⟩ := h.of_mem rfl
  refine h.after (I := fun l s => ∃ call, s.calls[k]? = some call
    ∧ Trail count what e.pre.current (hearings count k l) call) ?_ ?_
  · obtain ⟨pre, act, post⟩ := e
    subst he hk
    simp only [celestiaClient, step, Option.some.injEq] at hstep
    subst hstep
    refine ⟨_, List.getElem?_concat_length, ?_⟩
    rw [ClientCall.next, if_pos hcount]
    exact .attempt hcount .nil
  · rintro l s act s' - ⟨call, hcall, htrail⟩ hs
    rw [hearings, Machine.trace_cons]
    exact htrail.step hcall hs

end Trail

/-- A `with_failover` call asks the endpoints in cyclic order from the preference it loads, each at
most once, until one succeeds, whatever the other calls do and whenever an endpoint fails: it
returns the first success, or it has heard an error of every endpoint and returns the last one. -/
theorem calls_tried {count : ℕ} (hcount : 0 < count) {k : ℕ} {what : String}
    {l₁ l₂ : List (Step T)} {e : Step T} {s : CelestiaClient T}
    (h : (celestiaClient T count).Run (l₁ ++ e :: l₂) s) (he : e.act = .withFailover what)
    (hk : e.pre.calls.length = k) :
    (order count e.pre.current).Nodup ∧ (∀ idx, idx ∈ order count e.pre.current ↔ idx < count)
      ∧ (hearings count k l₁).map Prod.fst <+: order count e.pre.current
      ∧ (∀ r ∈ (hearings count k l₁).dropLast, ∃ e, r.2 = .error e)
      ∧ (∀ outcome, Finishes count outcome k (count + 1) (l₁ ++ e :: l₂) s)
      ∧ ∃ call, s.calls[k]? = some call ∧ call ≠ .panicked
        ∧ (∀ value, call = .answered (.ok value) →
          ∃ idx, (hearings count k l₁).getLast? = some (idx, .ok value))
        ∧ ∀ err, call = .answered (.error err) →
          (hearings count k l₁).map Prod.fst = order count e.pre.current
            ∧ (∀ r ∈ hearings count k l₁, ∃ e, r.2 = .error e)
            ∧ err.context = what ++ " failed on all gRPC endpoints"
            ∧ ∃ idx, (hearings count k l₁).getLast? = some (idx, .error err.source) := by
  obtain ⟨call, hcall, htrail⟩ := trail_of_run hcount h he hk
  have hcur : e.pre.current < count := (valid_of_run hcount (h.of_mem rfl).1).1
  refine ⟨nodup_order, fun _ => mem_order hcur, htrail.asked, htrail.errors,
    fun outcome => htrail.finishes hcall outcome _, call, hcall, htrail.ne_panicked, ?_, ?_⟩
  · rintro value rfl
    exact htrail.of_ok
  · rintro err rfl
    exact htrail.of_error

/-- The second call fails over while the first is under way, and then the endpoint it has found goes
down too. -/
def allDown : List (Act Unit) :=
  [.withFailover "Balance query", .withFailover "Fee quote", .answer 0 (.error "unavailable"),
    .answer 1 (.error "unavailable"), .answer 1 (.ok ()), .store 1,
    .answer 0 (.error "unavailable"), .answer 0 (.error "timed out")]

theorem calls_tried_down : ∃ l e s, (celestiaClient Unit 3).Run (l ++ [e]) s
    ∧ s.current = 1
    ∧ s.calls[0]? = some (.answered (.error ⟨"Balance query failed on all gRPC endpoints",
      "timed out"⟩))
    ∧ (hearings 3 0 l).map Prod.fst = order 3 0 := by
  obtain ⟨⟨log, s⟩, hexec⟩ : ∃ r, (celestiaClient Unit 3).exec allDown [] ⟨0, []⟩ = some r :=
    ⟨_, rfl⟩
  have hrun := (Machine.Run.init (M := celestiaClient Unit 3) rfl).exec hexec
  obtain ⟨rfl, rfl⟩ := Prod.mk.inj (Option.some.inj hexec)
  obtain ⟨-, -, -, -, -, call, hcall, -, -, herror⟩ :=
    @calls_tried _ 3 (by decide) 0 _ [_, _, _, _, _, _, _] [] _ _ hrun rfl rfl
  obtain rfl := Option.some.inj hcall
  exact ⟨_, _, _, hrun, rfl, rfl, (herror _ rfl).1⟩

end CelestiaClient

end ForwardingRelayer
