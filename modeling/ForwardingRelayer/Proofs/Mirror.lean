import ForwardingRelayer.Lib.Mirror
import ForwardingRelayer.Proofs.Activity
import ForwardingRelayer.Proofs.Retry

/-!
# The maps and their tables

`retry_state` and `last_activity` are each mirrored to a table. A call writes the row before the
entry; the tick takes the entry of an address before its row, in `clear_retry_state` and
`clear_activity` as in its prunes. Nothing keeps the two apart, and a write that overlaps with a
removal of the same address leaves an entry without a row. Where none does, both maps are their
tables whenever nothing is between two halves, and a restart brings them back.
-/

namespace ForwardingRelayer

open RelayerState Half

def RetryRow.of (state : RetryState) : RetryRow := ⟨state.failures.toNat, some state.nextAttempt⟩

/-- One of the maps by the entry of an address, and its table by the row. -/
structure View (V : Type) where
  entry : RelayerState → String → Option V
  row : RelayerState → String → Option V
  /-- The rows the relayer writes. -/
  written : V → Prop
  half : Op → Half V
  /-- The decision by which a tick has pruned the map, and prunes the table next. -/
  pruned : Tick → Option Decision

/-- The tick has taken the entry of an address, and takes the row next. -/
def View.removing {V : Type} (W : View V) (a : String) : Tick → Bool
  | .clear _ _ addr ops _ => addr == a && ops.head?.any fun op => (W.half op).deletes
  | t => (W.pruned t).any fun d => decide (a ∉ d.kept)

def retryView : View RetryRow where
  entry s a := (s.retryState.lookup a).map RetryRow.of
  row s a := s.store.retryState.lookup a
  written row := ∃ state, row = .of state
  half
    | .storeRetry state => .store (.of state)
    | .insertRetry state => .insert (.of state)
    | .removeRetry => .remove
    | .deleteRetry => .delete
    | _ => .other
  pruned
    | .pruneActivity d _ | .pruneStore d _ => some d
    | _ => none

def activityView : View (Option ℤ) where
  entry s a := (s.lastActivity.lookup a).map some
  row s a := s.store.addressActivity.lookup a
  written row := row.isSome = true
  half
    | .storeActivity ts => .store (some ts)
    | .insertActivity ts => .insert (some ts)
    | .removeActivity => .remove
    | .deleteActivity => .delete
    | _ => .other
  pruned
    | .pruneStore d _ => some d
    | _ => none

/-- The writes of a tick's step go through. -/
def Tick.Act.through : Tick.Act → Bool
  | .clear stored => stored
  | .pruneStore leftRetry leftActivity => leftRetry.isEmpty && leftActivity.isEmpty
  | _ => true

section Laws

variable {V : Type} (W : View V)

/-- A step of the tick leaves the entry and the row, takes the entry, or takes the row it is to
take. -/
def View.TickEffect (a : String) (s : RelayerState) (t : Tick) (s' : RelayerState) (t' : Tick) :
    Prop :=
  (W.entry s' a = W.entry s a ∧ W.row s' a = W.row s a ∧ W.removing a t' = W.removing a t)
    ∨ (W.entry s' a = none ∧ W.row s' a = W.row s a ∧ W.removing a t' = true)
    ∨ (W.entry s' a = W.entry s a ∧ W.row s' a = none ∧ W.removing a t = true
      ∧ W.removing a t' = false)

variable {W} {a : String} {s s' : RelayerState} {t t' : Tick}

/-- A prune of the map. -/
theorem View.TickEffect.of_entry (kept : LiveSet)
    (hentry : W.entry s' a = if a ∈ kept then W.entry s a else none)
    (hrow : W.row s' a = W.row s a) (hbefore : W.removing a t = false)
    (hafter : W.removing a t' = decide (a ∉ kept)) : W.TickEffect a s t s' t' := by
  by_cases ha : a ∈ kept
  · exact .inl ⟨hentry.trans (if_pos ha), hrow, by rw [hbefore, hafter]; simpa using ha⟩
  · exact .inr (.inl ⟨hentry.trans (if_neg ha), hrow, by rw [hafter]; simpa using ha⟩)

/-- A prune of the table. -/
theorem View.TickEffect.of_row (kept : LiveSet) (hentry : W.entry s' a = W.entry s a)
    (hrow : W.row s' a = if a ∈ kept then W.row s a else none)
    (hbefore : W.removing a t = decide (a ∉ kept)) (hafter : W.removing a t' = false) :
    W.TickEffect a s t s' t' := by
  by_cases ha : a ∈ kept
  · exact .inl ⟨hentry, hrow.trans (if_pos ha), by rw [hbefore, hafter]; simpa using ha⟩
  · exact .inr (.inr ⟨hentry, hrow.trans (if_neg ha), by rw [hbefore]; simpa using ha, hafter⟩)

variable (W)

/-- What the ops and the prunes do, told by their halves. -/
structure View.Lawful : Prop where
  same : ∀ {a s s'}, SameFor a s s' → W.entry s' a = W.entry s a ∧ W.row s' a = W.row s a
  runOp : ∀ (now : ℤ) a (s : RelayerState) op,
    W.entry (s.runOp now true a op).1 a = (W.half op).entry (W.entry s a)
      ∧ W.row (s.runOp now true a op).1 a = (W.half op).row (W.row s a)
  next : ∀ (now : ℤ) a (s : RelayerState) op, (s.runOp now true a op).2 = []
    ∨ (W.half op = .other ∧ Whole ((s.runOp now true a op).2.map W.half))
  record : Whole (recordActivity.map W.half)
  note : Whole (noteFailure.map W.half)
  clear : (clearRetryState ++ clearActivity).map W.half = [.remove, .delete, .other, .other]
    ∨ (clearRetryState ++ clearActivity).map W.half = [.other, .other, .remove, .delete]
  prune : ∀ {env now a s t act s' t'}, Tick.Steps env now s t act s' t' →
    (∀ d newly addr ops rest, t ≠ .clear d newly addr ops rest) → act ≠ .retireNext →
    act.through = true → W.TickEffect a s t s' t'
  pruned : ∀ t d, W.pruned t = some d →
    (∃ newly, t = .pruneActivity d newly) ∨ ∃ newly, t = .pruneStore d newly
  store : ∀ op v, W.half op = .store v → W.written v
  load : ∀ store a, (∀ v ∈ W.row (.new store true true) a, W.written v) →
    W.entry (.new store true true) a = W.row (.new store true true) a
  rowNew : ∀ (s : RelayerState) r b a, W.row (.new s.store r b) a = W.row s a

end Laws

section Lawful

/-- A pruning statement that leaves no row of another address behind. -/
theorem lookup_retain_of_nil {β : Type} {kept : LiveSet} {left : List String} (h : left = [])
    (m : AList fun _ : String => β) (a : String) :
    (m.retain fun addr => decide (addr ∈ kept) || left.contains addr).lookup a
      = if a ∈ kept then m.lookup a else none := by
  subst h
  simp only [AList.lookup_retain, List.contains_nil, Bool.or_false, decide_eq_true_eq]

theorem of_injective : Function.Injective RetryRow.of := by
  rintro ⟨f, t⟩ ⟨f', t'⟩ h
  simp only [RetryRow.of, RetryRow.mk.injEq, Option.some.injEq] at h
  have hf : f.toNat = f'.toNat := by omega
  rw [UInt32.toNat_inj.1 hf, h.2]

theorem retryView_lawful : retryView.Lawful where
  same h := ⟨by simp only [retryView, h.retryState], h.stored⟩
  runOp now a s op := by
    cases op <;> simp [retryView, RelayerState.runOp, RetryStore.upsertActivity,
      RetryStore.removeActivity, RetryStore.upsert, RetryStore.remove, RetryRow.of]
  next now a s op := by
    cases op with
    | readActivityTime => exact .inr ⟨rfl, .other (.other .nil)⟩
    | countFailure => exact .inr ⟨rfl, .other .nil⟩
    | readFailureTime => exact .inr ⟨rfl, .write .nil⟩
    | _ => exact .inl rfl
  record := .other .nil
  note := .other .nil
  clear := .inl rfl
  prune := by
    intro env now a s t act s' t' h hc hne hth
    cases h with
    | @clear d newly addr op ops rest => exact absurd rfl (hc d newly addr (op :: ops) rest)
    | @delete d newly addr rest => exact absurd rfl (hc d newly addr [] rest)
    | retireNext => exact absurd rfl hne
    | @pruneRetry d newly =>
      refine .of_entry d.kept ?_ rfl rfl rfl
      simp only [retryView, AList.lookup_retain, decide_eq_true_eq]
      split <;> rfl
    | @pruneStore d newly leftRetry leftActivity =>
      simp only [Tick.Act.through, Bool.and_eq_true, List.isEmpty_iff] at hth
      exact .of_row d.kept rfl (lookup_retain_of_nil hth.1 _ a) rfl rfl
    | _ => exact .inl ⟨rfl, rfl, rfl⟩
  pruned t d h := by
    cases t <;> simp only [retryView, Option.some.injEq, reduceCtorEq] at h <;> subst h
    · exact .inl ⟨_, rfl⟩
    · exact .inr ⟨_, rfl⟩
  store op v h := by
    cases op <;> simp only [retryView, Half.store.injEq, reduceCtorEq] at h
    exact ⟨_, h.symm⟩
  load store a h := by
    simp only [retryView, RelayerState.new, if_true, RetryStore.load, AList.lookup_filterMap]
      at h ⊢
    rcases hrow : store.retryState.lookup a with _ | row
    · rfl
    · obtain ⟨state, rfl⟩ := h row hrow
      simp [RetryRow.of]
  rowNew s r b a := rfl

theorem activityView_lawful : activityView.Lawful where
  same h := ⟨by simp only [activityView, h.lastActivity], h.activityStored⟩
  runOp now a s op := by
    cases op <;> simp [activityView, RelayerState.runOp, RetryStore.upsertActivity,
      RetryStore.removeActivity, RetryStore.upsert, RetryStore.remove]
  next now a s op := by
    cases op with
    | readActivityTime => exact .inr ⟨rfl, .write .nil⟩
    | countFailure => exact .inr ⟨rfl, .other .nil⟩
    | readFailureTime => exact .inr ⟨rfl, .other (.other .nil)⟩
    | _ => exact .inl rfl
  record := .other .nil
  note := .other .nil
  clear := .inr rfl
  prune := by
    intro env now a s t act s' t' h hc hne hth
    cases h with
    | @clear d newly addr op ops rest => exact absurd rfl (hc d newly addr (op :: ops) rest)
    | @delete d newly addr rest => exact absurd rfl (hc d newly addr [] rest)
    | retireNext => exact absurd rfl hne
    | @pruneActivity d newly =>
      refine .of_entry d.kept ?_ rfl rfl rfl
      simp only [activityView, AList.lookup_retain, decide_eq_true_eq]
      split <;> rfl
    | @pruneStore d newly leftRetry leftActivity =>
      simp only [Tick.Act.through, Bool.and_eq_true, List.isEmpty_iff] at hth
      exact .of_row d.kept rfl (lookup_retain_of_nil hth.2 _ a) rfl rfl
    | _ => exact .inl ⟨rfl, rfl, rfl⟩
  pruned t d h := by
    cases t <;> simp only [activityView, Option.some.injEq, reduceCtorEq] at h
    subst h
    exact .inr ⟨_, rfl⟩
  store op v h := by
    cases op <;> simp only [activityView, Half.store.injEq, reduceCtorEq] at h
    exact h ▸ rfl
  load store a h := by
    simp only [activityView, RelayerState.new, if_true, RetryStore.loadActivity,
      AList.lookup_filterMap] at h ⊢
    rcases hrow : store.addressActivity.lookup a with _ | row
    · rfl
    · obtain ⟨ts, rfl⟩ := Option.isSome_iff_exists.1 (h row hrow)
      rfl
  rowNew s r b a := rfl

end Lawful

section Steps

variable {V : Type} {W : View V} {env : RelayerEnv} {now : ℕ} {a : String} {s s' : RelayerState}

theorem clear_cases {op : Op} {ops : List Op}
    (h : op :: ops <:+ clearRetryState ++ clearActivity) :
    (op = .removeRetry ∧ ops = [.deleteRetry, .removeActivity, .deleteActivity])
      ∨ (op = .deleteRetry ∧ ops = [.removeActivity, .deleteActivity])
      ∨ (op = .removeActivity ∧ ops = [.deleteActivity]) ∨ (op = .deleteActivity ∧ ops = []) := by
  simpa [clearRetryState, clearActivity, List.suffix_cons_iff] using h

theorem View.Lawful.pruned_eq_none (hW : W.Lawful) {t : Tick}
    (h1 : ∀ d newly, t ≠ .pruneActivity d newly) (h2 : ∀ d newly, t ≠ .pruneStore d newly) :
    W.pruned t = none := by
  rcases h : W.pruned t with _ | d
  · rfl
  · rcases hW.pruned t d h with ⟨newly, ht⟩ | ⟨newly, ht⟩
    · exact absurd ht (h1 d newly)
    · exact absurd ht (h2 d newly)

/-- Every step of the tick is told by its half. -/
theorem View.Lawful.tick (hW : W.Lawful) {t t' : Tick} {act : Tick.Act}
    (h : Tick.Steps env now s t act s' t') (hc : t.Clearing) (hth : act.through = true) :
    W.TickEffect a s t s' t' := by
  have hhalves : ∃ h1 h2 h3 h4, W.half .removeRetry = h1 ∧ W.half .deleteRetry = h2
      ∧ W.half .removeActivity = h3 ∧ W.half .deleteActivity = h4
      ∧ ([h1, h2, h3, h4] = [.remove, .delete, .other, .other]
        ∨ [h1, h2, h3, h4] = [.other, .other, .remove, .delete]) :=
    ⟨_, _, _, _, rfl, rfl, rfl, rfl, hW.clear⟩
  obtain ⟨h1, h2, h3, h4, e1, e2, e3, e4, hall⟩ := hhalves
  simp only [List.cons.injEq, and_true] at hall
  have hsteps := h
  cases h with
  | @retireNext d newly p rest =>
    have hpruned : W.pruned (.retire d newly (p :: rest)) = none :=
      hW.pruned_eq_none (by simp) (by simp)
    refine .inl ⟨rfl, rfl, ?_⟩
    rcases hall with ⟨rfl, -⟩ | ⟨rfl, -⟩ <;> simp [removing, hpruned, clearRetryState, deletes, e1]
  | @delete d newly addr rest =>
    have hpruned : W.pruned (.deleting d newly rest) = none :=
      hW.pruned_eq_none (by simp) (by simp)
    exact .inl ⟨rfl, rfl, by simp [removing, hpruned]⟩
  | @clear d newly addr op ops rest stored =>
    obtain rfl : stored = true := hth
    rw [Tick.runOp_clearing (hc.subset List.mem_cons_self), List.nil_append]
    unfold TickEffect
    by_cases ha : addr = a
    · subst ha
      obtain ⟨hentry, hrow⟩ := hW.runOp now addr s op
      rw [hentry, hrow]
      rcases hall with ⟨rfl, rfl, rfl, rfl⟩ | ⟨rfl, rfl, rfl, rfl⟩ <;>
        rcases clear_cases hc with ⟨rfl, rfl⟩ | ⟨rfl, rfl⟩ | ⟨rfl, rfl⟩ | ⟨rfl, rfl⟩ <;>
        simp [removing, deletes, e1, e2, e3, e4]
    · obtain ⟨hentry, hrow⟩ := hW.same (SameFor.runOp (s := s) (Ne.symm ha))
      exact .inl ⟨hentry, hrow, by simp [removing, beq_eq_false_iff_ne.2 ha]⟩
  | _ => exact hW.prune hsteps (by simp) (by simp) hth

/-- A step of a call, its write going through: an op of its own, or the beginning of others. -/
theorem Call.ops_cases {call call' : Call} {input : Call.Input}
    (h : Call.Steps env now a s call input s' call') (hth : input ≠ .go false) :
    (∃ op ops, call.ops = op :: ops ∧ s' = (s.runOp now true a op).1
        ∧ call'.ops = (s.runOp now true a op).2 ++ ops)
      ∨ (call.ops = [] ∧ SameFor a s s'
        ∧ call'.ops ∈ [[], recordActivity, clearRetryState, noteFailure,
          clearRetryState ++ recordActivity]) := by
  cases h with
  | @record _ op ops stored | @close _ op ops stored =>
    cases stored
    · exact absurd rfl hth
    · exact .inl ⟨op, ops, rfl, rfl, rfl⟩
  | quoted => exact .inr ⟨rfl, ⟨rfl, rfl, rfl, rfl, rfl⟩, by simp [forwardCall, ops]⟩
  | _ => exact .inr ⟨rfl, .rfl', by simp [forwardCall, ops]⟩

end Steps

namespace Relayer

/-- A process starts with what the last one has stored. -/
def loadsAll (e : Step) : Bool :=
  match e.act with
  | .crash retryLoaded activityLoaded => retryLoaded && activityLoaded
  | _ => true

theorem through_of_writesThrough {s s' : Relayer} {tact : Tick.Act}
    (h : writesThrough ⟨s, .tick tact, s'⟩ = true) : tact.through = true := by
  cases tact <;> exact h

end Relayer

section Runs

variable {V : Type} (W : View V)

/-- The halves the call for `a` has still to do. -/
def View.halves (a : String) (s : Relayer) : List (Half V) :=
  ((s.calls a).flatMap Call.ops).map W.half

/-- The call for `a` has stored a row, and the tick is between the halves of a removal. -/
def View.Overlaps (a : String) (s : Relayer) : Prop :=
  Overlap (W.halves a s) (W.removing a s.tick)

/-- Neither the call for `a` nor the tick is between two halves. -/
def View.Quiet (a : String) (s : Relayer) : Prop :=
  ¬ Midway (W.halves a s) ∧ W.removing a s.tick = false

structure View.Holds (a : String) (s : Relayer) : Prop where
  pending : Pending (W.halves a s)
  mirrored : Mirrored (W.entry s.shared a) (W.row s.shared a) (W.halves a s) (W.removing a s.tick)
  written : ∀ v ∈ W.row s.shared a, W.written v

variable {W} {env : RelayerEnv} {a : String} {s s' : Relayer} {act : Relayer.Act}

theorem View.Lawful.whole (hW : W.Lawful) {ops : List Op}
    (h : ops ∈ [[], recordActivity, clearRetryState, noteFailure,
      clearRetryState ++ recordActivity]) : Whole (ops.map W.half) := by
  have hclear : Whole (clearRetryState.map W.half) := by
    have hall := hW.clear
    simp only [clearRetryState, clearActivity, List.cons_append, List.nil_append, List.map_cons,
      List.map_nil, List.cons.injEq, and_true] at hall ⊢
    rcases hall with ⟨h1, h2, -⟩ | ⟨h1, h2, -⟩ <;> rw [h1, h2]
    · exact .removal .nil
    · exact .other (.other .nil)
  simp only [List.mem_cons, List.not_mem_nil, or_false] at h
  rcases h with rfl | rfl | rfl | rfl | rfl
  · exact .nil
  · exact hW.record
  · exact hclear
  · exact hW.note
  · rw [List.map_append]
    exact hclear.append hW.record

theorem View.Lawful.holds_new (hW : W.Lawful) {now : ℕ} {store : RetryStore} {height : Option ℤ}
    (hw : ∀ v ∈ W.row (.new store true true) a, W.written v) :
    W.Holds a (.new env now store height true true) where
  pending := .whole .nil
  mirrored := by
    have hnone : W.pruned .start = none := hW.pruned_eq_none (by simp) (by simp)
    have hidle : W.removing a .start = false := by simp [View.removing, hnone]
    change if W.removing a .start then _ else _
    rw [hidle]
    exact hW.load store a hw
  written := hw

theorem View.Lawful.written_row (hW : W.Lawful) {op : Op} {r : Option V}
    (hr : ∀ v ∈ r, W.written v) : ∀ v ∈ (W.half op).row r, W.written v := by
  intro v hv
  rcases hop : W.half op with w | w | _ | _ | _ <;> rw [hop] at hv
  · obtain rfl := Option.some.inj hv
    exact hW.store op w hop
  · exact hr v hv
  · exact hr v hv
  · cases hv
  · exact hr v hv

theorem View.Lawful.holds_step (hW : W.Lawful) (hr : (relayer env).Reachable s)
    (h : Relayer.Steps env s act s') (hth : Relayer.writesThrough ⟨s, act, s'⟩ = true)
    (hl : Relayer.loadsAll ⟨s, act, s'⟩ = true) (hpre : ¬ W.Overlaps a s)
    (hpost : ¬ W.Overlaps a s') (hs : W.Holds a s) : W.Holds a s' := by
  obtain ⟨hp, hm, hw⟩ := hs
  have hkeep : ∀ {t : Relayer}, SameFor a s.shared t.shared → t.tick = s.tick →
      W.halves a t = W.halves a s → W.Holds a t := by
    intro t hsame htick hhalves
    obtain ⟨hentry, hrow⟩ := hW.same hsame
    exact ⟨hhalves ▸ hp, by rw [hentry, hrow, hhalves, htick]; exact hm, by rwa [hrow]⟩
  cases Relayer.seen_of_steps hr h a with
  | @call i call call' input hact hat hcalls hcalls' hcall htick _ =>
    have hgo : input ≠ .go false := by
      rintro rfl
      simp [Relayer.writesThrough, hact] at hth
    have hhalves : W.halves a s = call.ops.map W.half := by simp [halves, hcalls]
    have hhalves' : W.halves a s' = call'.ops.map W.half := by simp [halves, hcalls']
    rw [hhalves] at hp hm
    rcases Call.ops_cases hcall hgo with ⟨op, ops, hops, hs', hops'⟩ | ⟨hops, hsame, hops'⟩
    · unfold View.Overlaps at hpre
      rw [hhalves, hops, List.map_cons] at hpre
      rw [hops, List.map_cons] at hp hm
      obtain ⟨hentry, hrow⟩ := hW.runOp s.now a s.shared op
      have hw' : ∀ v ∈ W.row s'.shared a, W.written v := by
        rw [hs', hrow]
        exact hW.written_row hw
      have hm' := hm.step hp hpre
      rw [← hentry, ← hrow, ← hs', ← htick] at hm'
      rcases hW.next s.now a s.shared op with hnil | ⟨hother, hnext⟩
      · rw [hnil, List.nil_append] at hops'
        rw [← hops', ← hhalves'] at hm'
        exact ⟨by rw [hhalves', hops']; exact hp.tail, hm', hw'⟩
      · rw [hother] at hp
        have hwhole : Whole (W.halves a s') := by
          rw [hhalves', hops', List.map_append]
          exact hnext.append hp.whole_of_other
        rw [hp.whole_of_other.mirrored] at hm'
        exact ⟨.whole hwhole, hwhole.mirrored.2 hm', hw'⟩
    · have hwhole : Whole (W.halves a s') := by
        rw [hhalves']
        exact hW.whole hops'
      obtain ⟨hentry, hrow⟩ := hW.same hsame
      rw [hops] at hm
      refine ⟨.whole hwhole, hwhole.mirrored.2 ?_, by rwa [hrow]⟩
      rw [hentry, hrow, htick]
      exact Whole.nil.mirrored.1 hm
  | start _ hcalls hcalls' hshared htick _ =>
    exact hkeep (hshared ▸ .rfl') htick (by simp [halves, hcalls, hcalls', Call.ops])
  | finish _ _ hcalls hcalls' hshared htick _ =>
    exact hkeep (hshared ▸ .rfl') htick (by simp [halves, hcalls, hcalls', Call.ops])
  | @tick tact hact ht hcalls _ =>
    have hthrough : tact.through = true := Relayer.through_of_writesThrough (hact ▸ hth)
    have hhalves : W.halves a s' = W.halves a s := by simp only [halves, hcalls]
    have heffect := hW.tick (a := a) ht (Relayer.clearing_of_reachable hr) hthrough
    unfold View.Overlaps at hpre hpost
    rw [hhalves] at hpost
    refine ⟨hhalves ▸ hp, ?_, ?_⟩
    · rw [hhalves]
      rcases heffect with ⟨h1, h2, h3⟩ | ⟨h1, h2, h3⟩ | ⟨h1, h2, h3, h4⟩
      · rwa [h1, h2, h3]
      · rw [h1, h2, h3]
        exact .remove (h3 ▸ hpost)
      · rw [h1, h2, h4]
        rw [h3] at hm hpre
        exact hm.delete hpre
    · rcases heffect with ⟨-, h2, -⟩ | ⟨-, h2, -⟩ | ⟨-, h2, -, -⟩ <;> rw [h2]
      · exact hw
      · exact hw
      · simp
  | other _ _ _ hsame hcalls htick _ => exact hkeep hsame htick (by simp only [halves, hcalls])
  | @crash r b hact hs' =>
    simp only [Relayer.loadsAll, hact, Bool.and_eq_true] at hl
    obtain ⟨rfl, rfl⟩ := hl
    subst hs'
    exact hW.holds_new (by rwa [hW.rowNew])

end Runs

/-- Every row of the store is one the relayer writes. -/
def RetryStore.Written (store : RetryStore) : Prop :=
  (∀ a, ∀ row ∈ store.retryState.lookup a, retryView.written row)
    ∧ ∀ a, ∀ row ∈ store.addressActivity.lookup a, activityView.written row

/-- The relayer, first started over a store it has written, with both loads succeeding. -/
def writtenRelayer (env : RelayerEnv) : Machine Relayer Relayer.Act where
  init s := ∃ now store height, store.Written ∧ s = .new env now store height true true
  step := Relayer.step env

namespace Relayer

section Runs

variable {env : RelayerEnv} {log : List Step} {s : Relayer} {a : String}

theorem run_of_written (h : (writtenRelayer env).Run log s) : (relayer env).Run log s := by
  refine h.mono ?_ fun _ _ => rfl
  rintro _ ⟨now, store, height, -, rfl⟩
  exact ⟨_, _, _, _, _, rfl⟩

theorem mirrored_of_run {V : Type} {W : View V} (hW : W.Lawful)
    (hinit : ∀ store : RetryStore, store.Written →
      ∀ v ∈ W.row (.new store true true) a, W.written v)
    (h : (writtenRelayer env).Run log s) (hth : ∀ e ∈ log, writesThrough e = true)
    (hl : ∀ e ∈ log, loadsAll e = true) (hno : ∀ e ∈ log, ¬ W.Overlaps a e.post) :
    W.Holds a s := by
  have hboth : W.Holds a s ∧ ¬ W.Overlaps a s := by
    revert hth hl hno
    refine h.invariant (I := fun log s => (∀ e ∈ log, writesThrough e = true) →
      (∀ e ∈ log, loadsAll e = true) → (∀ e ∈ log, ¬ W.Overlaps a e.post) →
      W.Holds a s ∧ ¬ W.Overlaps a s) ?_ ?_
    · rintro _ ⟨now, store, height, hw, rfl⟩ - - -
      refine ⟨hW.holds_new (hinit store hw), ?_⟩
      rintro ⟨-, v, l, hl⟩
      cases hl
    · intro log s act s' hr ih hs hth hl hno
      rw [List.forall_mem_cons] at hth hl hno
      obtain ⟨hholds, hpre⟩ := ih hth.2 hl.2 hno.2
      exact ⟨hW.holds_step (run_of_written hr).reachable (steps_of_step hs) hth.1 hl.1 hpre hno.1
        hholds, hno.1⟩
  exact hboth.1

/-- Whenever neither is between two halves the entry is the row, and a restart loads it. -/
theorem quiet_of_run {V : Type} {W : View V} (hW : W.Lawful)
    (hinit : ∀ store : RetryStore, store.Written →
      ∀ v ∈ W.row (.new store true true) a, W.written v)
    (h : (writtenRelayer env).Run log s) (hth : ∀ e ∈ log, writesThrough e = true)
    (hl : ∀ e ∈ log, loadsAll e = true) (hno : ∀ e ∈ log, ¬ W.Overlaps a e.post)
    (hq : W.Quiet a s) :
    W.entry s.shared a = W.row s.shared a
      ∧ W.entry (.new s.shared.store true true) a = W.entry s.shared a := by
  obtain ⟨-, hm, hw⟩ := mirrored_of_run hW hinit h hth hl hno
  rw [hq.2] at hm
  have heq := hm.eq hq.1
  have hrow := hW.rowNew s.shared true true a
  exact ⟨heq, (hW.load s.shared.store a (by rwa [hrow])).trans (hrow.trans heq.symm)⟩

end Runs

/-- Where no write of `a` overlaps with a removal by the tick, the row is the entry whenever
neither is between two halves, and a restart loads the entry that was there. -/
theorem maps_mirror_store {env : RelayerEnv} {log : List Step} {s : Relayer}
    (h : (writtenRelayer env).Run log s) (hth : ∀ e ∈ log, writesThrough e = true)
    (hl : ∀ e ∈ log, loadsAll e = true) (a : String) :
    ((∀ e ∈ log, ¬ retryView.Overlaps a e.post) → retryView.Quiet a s →
        s.shared.store.retryState.lookup a = (s.shared.retryState.lookup a).map RetryRow.of
          ∧ (RelayerState.new s.shared.store true true).retryState.lookup a
            = s.shared.retryState.lookup a)
      ∧ ((∀ e ∈ log, ¬ activityView.Overlaps a e.post) → activityView.Quiet a s →
        s.shared.store.addressActivity.lookup a = (s.shared.lastActivity.lookup a).map some
          ∧ (RelayerState.new s.shared.store true true).lastActivity.lookup a
            = s.shared.lastActivity.lookup a) := by
  constructor
  · intro hno hq
    obtain ⟨heq, hload⟩ :=
      quiet_of_run retryView_lawful (fun store hstore => hstore.1 a) h hth hl hno hq
    exact ⟨heq.symm, Option.map_injective of_injective hload⟩
  · intro hno hq
    obtain ⟨heq, hload⟩ :=
      quiet_of_run activityView_lawful (fun store hstore => hstore.2 a) h hth hl hno hq
    exact ⟨heq.symm, Option.map_injective (Option.some_injective _) hload⟩

section Example

theorem exampleStart_written (env : RelayerEnv) : (writtenRelayer env).init (exampleStart env) :=
  ⟨_, ⟨∅, ∅⟩, _, ⟨by simp, by simp⟩, rfl⟩

theorem maps_mirror_store_restarted : ∃ log s,
    (writtenRelayer (exampleEnv 3600 3600)).Run log s
      ∧ "celestia1a" ∈ s.shared.retryState
      ∧ s.shared.store.retryState.lookup "celestia1a"
        = (s.shared.retryState.lookup "celestia1a").map RetryRow.of := by
  obtain ⟨log, s, hrun, -, h⟩ := Machine.exists_run_of_exec
    (writtenRelayer (exampleEnv 3600 3600)) (failedThenRestarted true)
    (exampleStart (exampleEnv 3600 3600))
    (fun log s => decide ("celestia1a" ∈ s.shared.retryState) && s.dispatcher.tasks.isEmpty
      && !retryView.removing "celestia1a" s.tick
      && log.all fun e => writesThrough e && loadsAll e
        && !retryView.removing "celestia1a" e.post.tick)
    (exampleStart_written _) (by decide +kernel)
  simp only [Bool.and_eq_true, decide_eq_true_eq, List.all_eq_true, Bool.not_eq_true',
    List.isEmpty_iff] at h
  obtain ⟨⟨⟨hmem, htasks⟩, hidle⟩, hall⟩ := h
  have hcalls : s.calls "celestia1a" = [] := by simp [calls, htasks]
  refine ⟨log, s, hrun, hmem, ((maps_mirror_store hrun (fun e he => (hall e he).1.1)
    (fun e he => (hall e he).1.2) "celestia1a").1 (fun e he hover => ?_) ⟨?_, hidle⟩).1⟩
  · have hfree := (hall e he).2
    rw [hover.1] at hfree
    cases hfree
  · simp [View.halves, hcalls, Midway]

/-- A call's balance query fails; between its row and its entry a tick, given a list without the
address, prunes. -/
def prunedMidway : List Act :=
  listingTick [listed "celestia1a"] ["celestia1a"] ++ [.tick .probe] ++ startCall
    ++ [.forward 0 (.go true), .forward 0 (.go true), .forward 0 (.balances none),
      .forward 0 (.go true), .forward 0 (.go true), .forward 0 (.go true), .tick .probed,
      .tick (.collect []), .tick .finish, .tick .wake]
    ++ listingTick [] []
    ++ [.tick .probed, .tick (.collect []), .tick .finish, .forward 0 (.go true),
      .forward 0 (.go true), .finish 0, .dispatch (.remove 0), .dispatch (.release 0)]

/-- Every write has gone through and nothing is in progress, but the entry has no row. -/
theorem entry_without_row : ∃ log s, (writtenRelayer (exampleEnv 3600 3600)).Run log s
    ∧ (∀ e ∈ log, writesThrough e = true) ∧ (∀ e ∈ log, crashes e = false)
    ∧ s.dispatcher.tasks = [] ∧ (∀ a, retryView.Quiet a s ∧ activityView.Quiet a s)
    ∧ "celestia1a" ∈ s.shared.retryState
    ∧ s.shared.store.retryState.lookup "celestia1a" = none := by
  obtain ⟨log, s, hrun, -, h⟩ := Machine.exists_run_of_exec
    (writtenRelayer (exampleEnv 3600 3600)) prunedMidway (exampleStart (exampleEnv 3600 3600))
    (fun log s => decide ("celestia1a" ∈ s.shared.retryState) && s.dispatcher.tasks.isEmpty
      && (match s.tick with | .asleep => true | _ => false)
      && (s.shared.store.retryState.lookup "celestia1a" == none)
      && log.all fun e => writesThrough e && !crashes e)
    (exampleStart_written _) (by decide +kernel)
  simp only [Bool.and_eq_true, decide_eq_true_eq, List.all_eq_true, Bool.not_eq_true',
    List.isEmpty_iff, beq_iff_eq] at h
  obtain ⟨⟨⟨⟨hmem, htasks⟩, htick⟩, hrow⟩, hall⟩ := h
  have hasleep : s.tick = .asleep := by
    split at htick
    · assumption
    · cases htick
  have hquiet : ∀ {V : Type} (W : View V), W.Lawful → ∀ a, W.Quiet a s := by
    intro V W hW a
    have hnone : W.pruned .asleep = none := hW.pruned_eq_none (by simp) (by simp)
    exact ⟨by simp [View.halves, calls, htasks, Midway], by simp [View.removing, hasleep, hnone]⟩
  exact ⟨log, s, hrun, fun e he => (hall e he).1, fun e he => (hall e he).2, htasks,
    fun a => ⟨hquiet _ retryView_lawful a, hquiet _ activityView_lawful a⟩, hmem, hrow⟩

end Example

end Relayer

end ForwardingRelayer
