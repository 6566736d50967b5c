import Mathlib.Data.List.Nodup
import Mathlib.Data.Nat.ModEq
import ForwardingRelayer.Proofs.Failover

/-!
# A call tries the whole pool

From its load on, a `with_failover` call is at the place in the cyclic order that all its answers so
far have failed up to. The other calls take their steps in between; as long as none of them changes
the preference, it is the one the call has loaded, until the call stores another.
-/

namespace ForwardingRelayer

namespace CelestiaClient

variable {T : Type}

/-- The endpoints, in cyclic order from `start`. -/
def order (count start : ℕ) : List ℕ := (List.range count).map fun i => (start + i) % count

def succeeds (outcome : ℕ → Except String T) (idx : ℕ) : Bool := (outcome idx).isOk

/-- The endpoints up to the first that succeeds. -/
def tried (count : ℕ) (outcome : ℕ → Except String T) (start : ℕ) : List ℕ :=
  (order count start).take ((order count start).findIdx (succeeds outcome) + 1)

/-- The endpoint an operation runs on. -/
def awaited (count : ℕ) : ClientCall T → Option ℕ
  | .attempt _ start i => some ((start + i) % count)
  | _ => none

/-- The endpoint a step of a call invokes its operation on. -/
def invoked (count k : ℕ) (e : Step T) : Option ℕ :=
  match e.act with
  | .withFailover _ =>
    if e.pre.calls.length = k then (e.post.calls[k]?).bind (awaited count) else none
  | .answer j _ => if j = k then (e.post.calls[k]?).bind (awaited count) else none
  | _ => none

/-- The endpoints a call has invoked its operation on, the first one first. -/
def invocations (count k : ℕ) (log : List (Step T)) : List ℕ :=
  Machine.trace (invoked count k) log

/-- No other call changes the preference. -/
def Quiet (k : ℕ) (e : Step T) : Prop :=
  ∀ j, e.act = .store j → j ≠ k → e.post.current = e.pre.current

/-- An endpoint answers the call as the outcome says. -/
def Answers (count : ℕ) (outcome : ℕ → Except String T) (k : ℕ) (e : Step T) : Prop :=
  ∀ result what start i, e.act = .answer k result →
    e.pre.calls[k]? = some (.attempt what start i) → result = outcome ((start + i) % count)

/-- The act is a step of the call. -/
def Own (k : ℕ) (act : Act T) : Prop := (∃ result, act = .answer k result) ∨ act = .store k

section Order

variable {count start i : ℕ}

@[simp] theorem length_order : (order count start).length = count := by
  rw [order, List.length_map, List.length_range]

theorem getElem_order (hi : i < (order count start).length) :
    (order count start)[i] = (start + i) % count := by
  simp only [order, List.getElem_map, List.getElem_range]

theorem nodup_order : (order count start).Nodup := by
  refine List.Nodup.map_on (fun i hi j hj h => ?_) List.nodup_range
  rw [List.mem_range] at hi hj
  have hmod : i ≡ j [MOD count] := Nat.ModEq.add_left_cancel' start h
  exact hmod.eq_of_lt_of_lt hi hj

theorem mem_order {idx : ℕ} (hstart : start < count) : idx ∈ order count start ↔ idx < count := by
  rw [order, List.mem_map]
  constructor
  · rintro ⟨i, -, rfl⟩
    exact Nat.mod_lt _ (by omega)
  · intro hidx
    refine ⟨(idx + (count - start)) % count, List.mem_range.2 (Nat.mod_lt _ (by omega)), ?_⟩
    rw [Nat.add_mod_mod, show start + (idx + (count - start)) = idx + count by omega,
      Nat.add_mod_right, Nat.mod_eq_of_lt hidx]

theorem take_succ_order (hi : i < count) :
    (order count start).take (i + 1) = (order count start).take i ++ [(start + i) % count] := by
  rw [List.take_succ_eq_append_getElem (by rwa [length_order]), getElem_order]

end Order

section Stage

variable {count start : ℕ} {outcome : ℕ → Except String T} {what : String}

/-- The first `i` endpoints of the order fail. -/
def Failing (count : ℕ) (outcome : ℕ → Except String T) (start i : ℕ) : Prop :=
  ∀ j < i, ∃ e, outcome ((start + j) % count) = .error e

/-- What a call has invoked, what the preference is and where the call is. -/
inductive Stage (count : ℕ) (outcome : ℕ → Except String T) (what : String) (start : ℕ) :
    List ℕ → ℕ → ClientCall T → Prop
  | attempt {i : ℕ} : i < count → Failing count outcome start i →
      Stage count outcome what start ((order count start).take (i + 1)) start
        (.attempt what start i)
  | prefer {i : ℕ} {value : T} : i < count → Failing count outcome start i →
      outcome ((start + i) % count) = .ok value →
      Stage count outcome what start ((order count start).take (i + 1)) start
        (.prefer start ((start + i) % count) value)
  | succeeded {i : ℕ} {value : T} : i < count → Failing count outcome start i →
      outcome ((start + i) % count) = .ok value →
      Stage count outcome what start ((order count start).take (i + 1)) ((start + i) % count)
        (.answered (.ok value))
  | failed {i : ℕ} {e : String} : i + 1 = count → Failing count outcome start (i + 1) →
      outcome ((start + i) % count) = .error e →
      Stage count outcome what start (order count start) start
        (.answered (.error ⟨what ++ " failed on all gRPC endpoints", e⟩))

theorem Failing.succ {i : ℕ} {e : String} (h : Failing count outcome start i)
    (he : outcome ((start + i) % count) = .error e) : Failing count outcome start (i + 1) := by
  intro j hj
  rcases Nat.lt_succ_iff_lt_or_eq.1 hj with hj | rfl
  · exact h j hj
  · exact ⟨e, he⟩

theorem Failing.not_succeeds {i j : ℕ} (h : Failing count outcome start i) (hj : j < i) :
    succeeds outcome ((start + j) % count) = false := by
  obtain ⟨e, he⟩ := h j hj
  rw [succeeds, he]
  rfl

theorem le_findIdx {i : ℕ} (hi : i < count) (h : Failing count outcome start i) :
    i ≤ (order count start).findIdx (succeeds outcome) := by
  refine List.le_findIdx_of_not (by rwa [length_order]) fun j hj => ?_
  rw [getElem_order, h.not_succeeds hj]

theorem findIdx_eq {i : ℕ} {value : T} (hi : i < count) (h : Failing count outcome start i)
    (hv : outcome ((start + i) % count) = .ok value) :
    (order count start).findIdx (succeeds outcome) = i := by
  rw [List.findIdx_eq (by rwa [length_order])]
  refine ⟨?_, fun j hj => ?_⟩
  · rw [getElem_order, succeeds, hv]
    rfl
  · rw [getElem_order, h.not_succeeds hj]

theorem not_succeeds_of_mem {idx : ℕ} (h : Failing count outcome start count)
    (hidx : idx ∈ order count start) : succeeds outcome idx = false := by
  obtain ⟨j, hj, rfl⟩ := List.mem_map.1 hidx
  exact h.not_succeeds (List.mem_range.1 hj)

theorem find?_eq_some {i : ℕ} {value : T} (hi : i < count) (h : Failing count outcome start i)
    (hv : outcome ((start + i) % count) = .ok value) :
    (order count start).find? (succeeds outcome) = some ((start + i) % count) := by
  rw [List.find?_eq_some_iff_getElem]
  refine ⟨by rw [succeeds, hv]; rfl, i, by rwa [length_order], getElem_order _, fun j hj => ?_⟩
  rw [getElem_order, h.not_succeeds hj]
  rfl

theorem find?_eq_none (h : Failing count outcome start count) :
    (order count start).find? (succeeds outcome) = none := by
  rw [List.find?_eq_none]
  intro idx hidx
  rw [not_succeeds_of_mem h hidx]
  exact Bool.false_ne_true

theorem take_eq_tried {i : ℕ} {value : T} (hi : i < count) (h : Failing count outcome start i)
    (hv : outcome ((start + i) % count) = .ok value) :
    (order count start).take (i + 1) = tried count outcome start := by
  rw [tried, findIdx_eq hi h hv]

theorem order_eq_tried (h : Failing count outcome start count) :
    order count start = tried count outcome start := by
  have hall : (order count start).findIdx (succeeds outcome) = (order count start).length :=
    List.findIdx_eq_length.2 fun idx => not_succeeds_of_mem h
  rw [tried, hall, List.take_of_length_le (Nat.le_succ _)]

theorem Stage.prefix_tried {l : List ℕ} {cur : ℕ} {call : ClientCall T}
    (h : Stage count outcome what start l cur call) : l <+: tried count outcome start := by
  cases h with
  | attempt hi hf => exact List.take_prefix_take_left (Nat.succ_le_succ (le_findIdx hi hf))
  | prefer hi hf hv => exact take_eq_tried hi hf hv ▸ List.prefix_rfl
  | succeeded hi hf hv => exact take_eq_tried hi hf hv ▸ List.prefix_rfl
  | failed hi hf =>
    subst hi
    exact order_eq_tried hf ▸ List.prefix_rfl

end Stage

section Step

variable {count k start : ℕ} {s s' : CelestiaClient T} {act : Act T} {call : ClientCall T}

/-- A step of another call leaves this one, and invokes nothing of it. -/
theorem other_step (h : s.step count act = some s') (hk : s.calls[k]? = some call)
    (hact : ¬ Own k act) (hsub : ∀ result, act ≠ .submission k result) :
    s'.calls[k]? = some call ∧ invoked count k ⟨s, act, s'⟩ = none := by
  obtain ⟨hlt, -⟩ := List.getElem?_eq_some_iff.1 hk
  have hset : ∀ {j call'}, j ≠ k → (s.calls.set j call')[k]? = some call := fun hj => by
    rwa [List.getElem?_set_ne hj]
  have happ : ∀ call', (s.calls ++ [call'])[k]? = some call := fun call' => by
    rwa [List.getElem?_append_left hlt]
  cases steps_of_step h with
  | load hload =>
    rcases hload with ⟨what, rfl⟩ | rfl
    · exact ⟨happ _, if_neg (Nat.ne_of_gt hlt)⟩
    · exact ⟨happ _, rfl⟩
  | answer hanswer =>
    rcases hanswer with ⟨result, rfl⟩ | ⟨result, rfl⟩
    · have hj := fun hj => hact (.inl ⟨result, congrArg (Act.answer · result) hj⟩)
      exact ⟨hset hj, if_neg hj⟩
    · exact ⟨hset fun hj => hsub result (congrArg (Act.submission · result) hj), rfl⟩
  | store => exact ⟨hset fun hj => hact (.inr (congrArg Act.store hj)), rfl⟩

/-- What the answer of the endpoint makes of an attempt. -/
def afterAnswer (count : ℕ) (what : String) (start i : ℕ) : Except String T → ClientCall T
  | .ok value =>
    if (start + i) % count = start then .answered (.ok value)
    else .prefer start ((start + i) % count) value
  | .error e => .next count what start (i + 1) (some e)

theorem step_answer {what : String} {start i : ℕ} (hk : s.calls[k]? = some (.attempt what start i))
    (result : Except String T) : s.step count (.answer k result)
      = some { s with calls := s.calls.set k (afterAnswer count what start i result) } := by
  rcases result with e | value <;> simp only [step, hk, afterAnswer]

theorem step_store {start idx : ℕ} {value : T} (hk : s.calls[k]? = some (.prefer start idx value)) :
    s.step count (.store k) = some ⟨idx, s.calls.set k (.answered (.ok value))⟩ := by
  simp only [step, hk]

/-- The steps of a call of its own. -/
theorem own_cases (hk : s.calls[k]? = some call) (h : s.step count act = some s')
    (hact : Own k act) :
    (∃ what start i result, call = .attempt what start i ∧ act = .answer k result
        ∧ s' = { s with calls := s.calls.set k (afterAnswer count what start i result) })
      ∨ (∃ start idx value, call = .prefer start idx value ∧ act = .store k
        ∧ s' = ⟨idx, s.calls.set k (.answered (.ok value))⟩)
      ∨ ∃ idx e, call = .rotate idx e ∧ act = .store k := by
  rcases hact with ⟨result, rfl⟩ | rfl
  · cases call with
    | attempt what start i =>
      rw [step_answer hk] at h
      exact .inl ⟨what, start, i, result, rfl, rfl, (Option.some.inj h).symm⟩
    | _ => simp [step, hk] at h
  · cases call with
    | prefer start idx value =>
      rw [step_store hk] at h
      exact .inr (.inl ⟨start, idx, value, rfl, rfl, (Option.some.inj h).symm⟩)
    | rotate idx e => exact .inr (.inr ⟨idx, e, rfl, rfl⟩)
    | _ => simp [step, hk] at h

theorem current_of_quiet (h : s.step count act = some s') (hq : Quiet k ⟨s, act, s'⟩)
    (hact : ¬ Own k act) : s'.current = s.current := by
  by_cases hstore : ∃ j, act = .store j
  · obtain ⟨j, rfl⟩ := hstore
    exact hq j rfl fun hj => hact (.inr (hj ▸ rfl))
  · rw [current_step (steps_of_step h)]
    cases act with
    | store j => exact absurd ⟨j, rfl⟩ hstore
    | withFailover | submitForward | answer | submission => rfl

end Step

section Stage

variable {count k start : ℕ} {outcome : ℕ → Except String T} {what : String} {l : List ℕ}
  {s s' : CelestiaClient T} {act : Act T} {call : ClientCall T}

theorem Stage.not_submission (h : Stage count outcome what start l s.current call)
    (hk : s.calls[k]? = some call) (result : Except String String) :
    s.step count (.submission k result) = none := by
  generalize s.current = cur at h
  cases h <;> cases result <;> simp only [CelestiaClient.step, hk]

/-- An attempt's answer leads to another attempt, or it is the one that counts. -/
theorem answered_stage {i : ℕ} (hi : i < count) (hf : Failing count outcome start i) :
    Stage count outcome what start ((order count start).take (i + 1)
        ++ (awaited count (afterAnswer count what start i (outcome ((start + i) % count)))).toList)
      start (afterAnswer count what start i (outcome ((start + i) % count))) := by
  rcases hv : outcome ((start + i) % count) with e | value
  · simp only [afterAnswer, ClientCall.next]
    split
    · rename_i hi'
      simp only [awaited, Option.toList_some]
      rw [← take_succ_order hi']
      exact .attempt hi' (hf.succ hv)
    · have hlast : i + 1 = count := by omega
      have hall : (order count start).take (i + 1) = order count start :=
        List.take_of_length_le (by rw [length_order, hlast])
      simp only [awaited, Option.toList_none, List.append_nil, hall]
      exact .failed hlast (hf.succ hv) hv
  · simp only [afterAnswer]
    split
    · rename_i heq
      simp only [awaited, Option.toList_none, List.append_nil]
      have hstage : Stage count outcome what start _ _ _ := .succeeded hi hf hv
      rwa [heq] at hstage
    · simp only [awaited, Option.toList_none, List.append_nil]
      exact .prefer hi hf hv

/-- Its own step takes the call to its next stage. -/
theorem Stage.own_step (h : Stage count outcome what start l s.current call)
    (hk : s.calls[k]? = some call) (hs : s.step count act = some s') (hact : Own k act)
    (ha : Answers count outcome k ⟨s, act, s'⟩) :
    ∃ call', s'.calls[k]? = some call'
      ∧ Stage count outcome what start (l ++ (invoked count k ⟨s, act, s'⟩).toList) s'.current
        call' := by
  obtain ⟨hlt, -⟩ := List.getElem?_eq_some_iff.1 hk
  generalize hcur : s.current = cur at h
  rcases own_cases hk hs hact with ⟨what', start', i, result, rfl, rfl, rfl⟩ |
    ⟨start', idx, value, rfl, rfl, rfl⟩ | ⟨idx, e, rfl, -⟩
  · obtain rfl := ha result what' start' i rfl hk
    refine ⟨_, List.getElem?_set_self hlt, ?_⟩
    simp only [invoked, if_true, List.getElem?_set_self hlt, Option.bind_some]
    cases h with
    | attempt hi hf =>
      rw [hcur]
      exact answered_stage hi hf
  · refine ⟨_, List.getElem?_set_self hlt, ?_⟩
    rw [show invoked count k _ = none from rfl, Option.toList_none, List.append_nil]
    cases h with
    | prefer hi hf hv => exact .succeeded hi hf hv
  · cases h

theorem Stage.step (h : Stage count outcome what start l s.current call)
    (hk : s.calls[k]? = some call) (hs : s.step count act = some s')
    (hq : Quiet k ⟨s, act, s'⟩) (ha : Answers count outcome k ⟨s, act, s'⟩) :
    ∃ call', s'.calls[k]? = some call'
      ∧ Stage count outcome what start (l ++ (invoked count k ⟨s, act, s'⟩).toList) s'.current
        call' := by
  by_cases hact : Own k act
  · exact h.own_step hk hs hact ha
  · have hsub : ∀ result, act ≠ .submission k result := by
      rintro result rfl
      rw [h.not_submission hk] at hs
      cases hs
    obtain ⟨hk', hnone⟩ := other_step hs hk hact hsub
    rw [hnone, Option.toList_none, List.append_nil, current_of_quiet hs hq hact]
    exact ⟨call, hk', h⟩

end Stage

section Exec

variable {count : ℕ} {outcome : ℕ → Except String T} {what : String} {s₀ s : CelestiaClient T}
  {acts : List (Act T)} {log : List (Step T)}

theorem stage_of_exec (hcount : 0 < count) (hcur : s₀.current < count)
    (h : (celestiaClient T count).exec (.withFailover what :: acts) [] s₀ = some (log, s))
    (hquiet : ∀ e ∈ log, Quiet s₀.calls.length e)
    (hanswers : ∀ e ∈ log, Answers count outcome s₀.calls.length e) :
    ∃ call, s.calls[s₀.calls.length]? = some call
      ∧ Stage count outcome what s₀.current (invocations count s₀.calls.length log) s.current
        call := by
  refine @Machine.exec_invariant _ _ (celestiaClient T count)
    (fun log s => (∀ e ∈ log, Quiet s₀.calls.length e) →
      (∀ e ∈ log, Answers count outcome s₀.calls.length e) →
      ∃ call, s.calls[s₀.calls.length]? = some call
        ∧ Stage count outcome what s₀.current (invocations count s₀.calls.length log) s.current
          call) acts ?_ _ _ _ _ ?_ h hquiet hanswers
  · intro act _ log s s' ih hs hquiet hanswers
    rw [List.forall_mem_cons] at hquiet hanswers
    obtain ⟨call, hk, hstage⟩ := ih hquiet.2 hanswers.2
    rw [invocations, Machine.trace_cons]
    exact hstage.step hk hs hquiet.1 hanswers.1
  · intro _ _
    have hcall : (ClientCall.next count what s₀.current 0 none : ClientCall T)
        = .attempt what s₀.current 0 := if_pos hcount
    have hfirst : (order count s₀.current).take 1 = [s₀.current] := by
      rw [take_succ_order hcount, List.take_zero, List.nil_append, Nat.add_zero,
        Nat.mod_eq_of_lt hcur]
    refine ⟨_, List.getElem?_concat_length, ?_⟩
    rw [hcall]
    have hstage : Stage count outcome what s₀.current ((order count s₀.current).take (0 + 1))
        s₀.current (.attempt what s₀.current 0) := .attempt hcount nofun
    simpa [invocations, Machine.trace, invoked, hcall, awaited, hfirst, Nat.mod_eq_of_lt hcur]
      using hstage

end Exec

/-- At most `m` steps of the call alone get it answered. -/
def Finishes (count : ℕ) (outcome : ℕ → Except String T) (k m : ℕ) (log : List (Step T))
    (s : CelestiaClient T) : Prop :=
  ∃ acts log' s' result, (celestiaClient T count).exec acts log s = some (log', s')
    ∧ acts.length ≤ m ∧ (∀ act ∈ acts, Own k act)
    ∧ (∀ e ∈ log', e ∈ log ∨ Answers count outcome k e)
    ∧ s'.calls[k]? = some (.answered result)

section Finishes

variable {count k m : ℕ} {outcome : ℕ → Except String T} {log : List (Step T)}
  {s s' : CelestiaClient T} {act : Act T}

theorem Finishes.answered {result : Except FailoverError T}
    (h : s.calls[k]? = some (.answered result)) : Finishes count outcome k m log s :=
  ⟨[], log, s, result, rfl, Nat.zero_le _, by simp, fun _ => .inl, h⟩

theorem Finishes.step (hs : s.step count act = some s') (hact : Own k act)
    (ha : Answers count outcome k ⟨s, act, s'⟩)
    (h : Finishes count outcome k m (⟨s, act, s'⟩ :: log) s') :
    Finishes count outcome k (m + 1) log s := by
  obtain ⟨acts, log', s'', result, hexec, hlen, hown, hanswers, hk⟩ := h
  refine ⟨act :: acts, log', s'', result, ?_, Nat.succ_le_succ hlen, ?_, fun e he => ?_, hk⟩
  · have hs' : (celestiaClient T count).step s act = some s' := hs
    rw [Machine.exec, hs']
    exact hexec
  · exact List.forall_mem_cons.2 ⟨hact, hown⟩
  · rcases hanswers e he with he | he
    · rcases List.mem_cons.1 he with rfl | he
      · exact .inr ha
      · exact .inl he
    · exact .inr he

theorem finishes_prefer {start idx : ℕ} {value : T}
    (hk : s.calls[k]? = some (.prefer start idx value)) :
    Finishes count outcome k (m + 1) log s := by
  obtain ⟨hlt, -⟩ := List.getElem?_eq_some_iff.1 hk
  have hanswers : ∀ s', Answers count outcome k ⟨s, .store k, s'⟩ := by
    intro s' result what start' i hact
    cases hact
  exact .step (step_store hk) (.inr rfl) (hanswers _) (.answered (List.getElem?_set_self hlt))

/-- What is left of the order is answered one endpoint at a time. -/
theorem finishes_attempt {what : String} {start : ℕ} : ∀ {m i : ℕ} {log : List (Step T)}
    {s : CelestiaClient T}, i < count → count ≤ i + m →
      s.calls[k]? = some (.attempt what start i) → Finishes count outcome k (m + 1) log s
  | 0, i, _, _, hi, hm, _ => by omega
  | m + 1, i, log, s, hi, hm, hk => by
    obtain ⟨hlt, -⟩ := List.getElem?_eq_some_iff.1 hk
    have hanswers : ∀ s', Answers count outcome k
        ⟨s, .answer k (outcome ((start + i) % count)), s'⟩ := by
      intro s' result what' start' i' hact hk'
      obtain ⟨-, rfl⟩ := Act.answer.inj hact
      obtain ⟨-, rfl, rfl⟩ := ClientCall.attempt.inj (Option.some.inj (hk.symm.trans hk'))
      rfl
    refine .step (step_answer hk _) (.inl ⟨_, rfl⟩) (hanswers _) ?_
    have hnext := List.getElem?_set_self hlt
      (a := afterAnswer count what start i (outcome ((start + i) % count)))
    generalize outcome ((start + i) % count) = result at hnext ⊢
    rcases result with e | value
    · by_cases hi' : i + 1 < count
      · exact finishes_attempt hi' (by omega) (hnext.trans (congrArg some (if_pos hi')))
      · exact .answered (hnext.trans (congrArg some (if_neg hi')))
    · by_cases heq : (start + i) % count = start
      · exact .answered (hnext.trans (congrArg some (if_pos heq)))
      · exact finishes_prefer (hnext.trans (congrArg some (if_neg heq)))

theorem Stage.finishes {what : String} {start : ℕ} {l : List ℕ} {cur : ℕ} {call : ClientCall T}
    (h : Stage count outcome what start l cur call) (hk : s.calls[k]? = some call) :
    Finishes count outcome k (count + 1) log s := by
  cases h with
  | attempt hi => exact finishes_attempt hi (Nat.le_add_left _ _) hk
  | prefer => exact finishes_prefer hk
  | succeeded => exact .answered hk
  | failed => exact .answered hk

end Finishes

section Result

variable {count start cur : ℕ} {outcome : ℕ → Except String T} {what : String} {l : List ℕ}

theorem succeeds_iff {idx : ℕ} : succeeds outcome idx ↔ ∃ value, outcome idx = .ok value := by
  unfold succeeds
  rcases outcome idx with e | value
  · exact ⟨nofun, nofun⟩
  · exact ⟨fun _ => ⟨value, rfl⟩, fun _ => rfl⟩

theorem Stage.ne_panicked {call : ClientCall T}
    (h : Stage count outcome what start l cur call) : call ≠ .panicked := by
  cases h <;> exact nofun

theorem Stage.of_ok {value : T}
    (h : Stage count outcome what start l cur (.answered (.ok value))) :
    l = tried count outcome start
      ∧ (order count start).find? (succeeds outcome) = some cur ∧ outcome cur = .ok value := by
  cases h with
  | succeeded hi hf hv => exact ⟨take_eq_tried hi hf hv, find?_eq_some hi hf hv, hv⟩

theorem Stage.of_error {e : FailoverError}
    (h : Stage count outcome what start l cur (.answered (.error e))) :
    l = order count start ∧ l = tried count outcome start
      ∧ (order count start).find? (succeeds outcome) = none ∧ cur = start
      ∧ e.context = what ++ " failed on all gRPC endpoints"
      ∧ outcome ((start + (count - 1)) % count) = .error e.source := by
  cases h with
  | failed hi hf hv =>
    subst hi
    exact ⟨rfl, order_eq_tried hf, find?_eq_none hf, rfl, rfl, hv⟩

end Result

/-- A call that no other call disturbs tries the endpoints in cyclic order up to the first that
succeeds; it is answered with that one's value and has made it the preference, or it has tried all
of them and left the preference. -/
theorem failover_exhaustive {count : ℕ} (hcount : 0 < count) {s₀ s : CelestiaClient T}
    (hcur : s₀.current < count) (outcome : ℕ → Except String T) {what : String}
    {acts : List (Act T)} {log : List (Step T)}
    (h : (celestiaClient T count).exec (.withFailover what :: acts) [] s₀ = some (log, s))
    (hquiet : ∀ e ∈ log, Quiet s₀.calls.length e)
    (hanswers : ∀ e ∈ log, Answers count outcome s₀.calls.length e) :
    (order count s₀.current).Nodup ∧ (∀ idx, idx ∈ order count s₀.current ↔ idx < count)
      ∧ invocations count s₀.calls.length log <+: tried count outcome s₀.current
      ∧ s.calls[s₀.calls.length]? ≠ some .panicked
      ∧ Finishes count outcome s₀.calls.length (count + 1) log s
      ∧ ∀ result, s.calls[s₀.calls.length]? = some (.answered result) →
        invocations count s₀.calls.length log = tried count outcome s₀.current
          ∧ ((∃ value, result = .ok value) ↔ ∃ idx < count, ∃ value, outcome idx = .ok value)
          ∧ (∀ value, result = .ok value →
            (order count s₀.current).find? (succeeds outcome) = some s.current
              ∧ outcome s.current = .ok value)
          ∧ ∀ e, result = .error e →
            invocations count s₀.calls.length log = order count s₀.current
              ∧ s.current = s₀.current
              ∧ e.context = what ++ " failed on all gRPC endpoints"
              ∧ outcome ((s₀.current + (count - 1)) % count) = .error e.source := by
  obtain ⟨call, hk, hstage⟩ := stage_of_exec hcount hcur h hquiet hanswers
  refine ⟨nodup_order, fun _ => mem_order hcur, hstage.prefix_tried, ?_, hstage.finishes hk, ?_⟩
  · rw [hk]
    exact fun hp => hstage.ne_panicked (Option.some.inj hp)
  · intro result hresult
    obtain rfl := Option.some.inj (hk.symm.trans hresult)
    rcases result with e | value
    · obtain ⟨hall, htried, hnone, hcurrent, hcontext, hlast⟩ := hstage.of_error
      refine ⟨htried, ⟨nofun, ?_⟩, nofun, fun e' he' => ?_⟩
      · rintro ⟨idx, hidx, hok⟩
        exact absurd (succeeds_iff.2 hok) (List.find?_eq_none.1 hnone idx ((mem_order hcur).2 hidx))
      · obtain rfl := Except.error.inj he'
        exact ⟨hall, hcurrent, hcontext, hlast⟩
    · obtain ⟨htried, hfind, hok⟩ := hstage.of_ok
      refine ⟨htried, ⟨fun _ => ⟨s.current, ?_, value, hok⟩, fun _ => ⟨value, rfl⟩⟩, ?_, nofun⟩
      · exact (mem_order hcur).1 (List.mem_of_find?_eq_some hfind)
      · intro value' hvalue'
        obtain rfl := Except.ok.inj hvalue'
        exact ⟨hfind, hok⟩

/-- The first endpoint of three is down, and so is the third, the preference; meanwhile another
call is submitted. -/
def secondServes : List (Act Unit) :=
  [.answer 1 (.error "unavailable"), .submission 0 (.ok "A1B2"), .answer 1 (.error "timed out"),
    .answer 1 (.ok ()), .store 1]

def secondUp : ℕ → Except String Unit
  | 0 => .error "timed out"
  | 1 => .ok ()
  | _ => .error "unavailable"

theorem failover_exhaustive_second : ∃ log s,
    (celestiaClient Unit 3).exec (.withFailover "Balance query" :: secondServes) []
        ⟨2, [.submit 2]⟩ = some (log, s)
      ∧ invocations 3 1 log = [2, 0, 1] ∧ s.current = 1 := by
  obtain ⟨⟨log, s⟩, hexec⟩ : ∃ r, (celestiaClient Unit 3).exec
    (.withFailover "Balance query" :: secondServes) [] ⟨2, [.submit 2]⟩ = some r := ⟨_, rfl⟩
  have hquiet : ∀ e ∈ log, Quiet 1 e := by
    obtain ⟨rfl, -⟩ := Prod.mk.inj (Option.some.inj hexec)
    simp only [List.forall_mem_cons]
    exact ⟨fun j hj hne => absurd (Act.store.inj hj).symm hne, nofun, nofun, nofun, nofun, nofun,
      nofun⟩
  have hanswers : ∀ e ∈ log, Answers 3 secondUp 1 e := by
    obtain ⟨rfl, -⟩ := Prod.mk.inj (Option.some.inj hexec)
    simp only [List.forall_mem_cons]
    refine ⟨nofun, ?_, ?_, nofun, ?_, nofun, nofun⟩ <;> rintro result what start i ⟨⟩ ⟨⟩ <;> rfl
  obtain ⟨-, -, -, -, -, hresult⟩ :=
    failover_exhaustive (by decide) (by decide) secondUp hexec hquiet hanswers
  obtain ⟨rfl, rfl⟩ := Prod.mk.inj (Option.some.inj hexec)
  obtain ⟨htried, -, hok, -⟩ := hresult _ rfl
  have hcur := (hok () rfl).1.symm.trans (by decide : _ = some 1)
  exact ⟨_, _, rfl, htried.trans (by decide), Option.some.inj hcur⟩

end CelestiaClient

end ForwardingRelayer
