import ForwardingRelayer.Scanner

/-!
# What a step of the scanner does
-/

namespace ForwardingRelayer

namespace Scanner

inductive Steps (cfg : ScannerConfig) (s : Scanner) : Act → Scanner → Prop
  | loadPersisted {height : ℤ} : s.phase = .load → s.persisted = some height →
      Steps cfg s (.load true) { s with cursor := height.toNat, phase := .bootStore }
  | loadStart {height : ℕ} : s.phase = .load → s.persisted = none →
      cfg.startHeight = some height →
      Steps cfg s (.load true) { s with cursor := height - 1, phase := .bootStore }
  | loadTip {ok : Bool} : s.phase = .load → (ok = true → s.persisted = none) →
      Steps cfg s (.load ok) { s with phase := .bootTip }
  | bootTip {height : Height} : s.phase = .bootTip →
      Steps cfg s (.bootTip (some height)) { s with cursor := height.1, phase := .bootStore }
  | exit : s.phase = .bootTip → Steps cfg s (.bootTip none) { s with phase := .exited }
  | bootStore {stored : Bool} : s.phase = .bootStore →
      Steps cfg s (.bootStore stored) { s.storeHeight stored with phase := .connect }
  | connect : s.phase = .connect → Steps cfg s (.connect true) { s with phase := .status }
  | connectFailed : s.phase = .connect → Steps cfg s (.connect false) { s with phase := .failed }
  | tip {height : Height} : s.phase = .status →
      Steps cfg s (.tip (some height))
        { s with phase := .scan (height.1 - cfg.confirmationDepth) }
  | tipFailed : s.phase = .status → Steps cfg s (.tip none) { s with phase := .failed }
  | fetch {target : ℕ} {results : BlockResults} : s.phase = .scan target → s.cursor < target →
      s.cursor + 1 < 2 ^ 63 →
      Steps cfg s (.fetch (some results)) { s with phase := .fetched target results }
  | fetchFailed {target : ℕ} {results : Option BlockResults} : s.phase = .scan target →
      s.cursor < target → Steps cfg s (.fetch results) { s with phase := .failed }
  | caughtUp {target : ℕ} : s.phase = .scan target →
      Steps cfg s .caughtUp { s with phase := .follow }
  | matchLive {live : LiveSet} {target : ℕ} {results : BlockResults} :
      s.phase = .fetched target results →
      Steps cfg s (.matchLive live) { s with phase := .sending target (watched live results) }
  | send {target : ℕ} {r : String} {recipients : List String} :
      s.phase = .sending target (r :: recipients) →
      Steps cfg s .send { s with phase := .sending target recipients }
  | advance {target : ℕ} {stored : Bool} : s.phase = .sending target [] →
      Steps cfg s (.advance stored)
        { ({ s with cursor := s.cursor + 1 } : Scanner).storeHeight stored with
          phase := .scan target }
  | newBlock {height : Height} : s.phase = .follow →
      Steps cfg s (.event (.newBlock height))
        { s with phase := .scan (height.1 - cfg.confirmationDepth) }
  | otherEvent : s.phase = .follow → Steps cfg s (.event .other) s
  | eventError : s.phase = .follow → Steps cfg s (.event .error) { s with phase := .failed }
  | ended : s.phase = .follow →
      Steps cfg s (.event .ended) { s with pruned := none, phase := .reconnect }
  | recover {now now' : ℕ} : s.phase = .failed →
      Steps cfg s (.recover now now') (s.recover cfg now now')
  | evidence {elapsed : ℕ} {replies : List (Option NodeStatus)} {stored : Bool} :
      s.phase = .assess elapsed → replies.length = cfg.endpoints →
      Steps cfg s (.evidence replies stored)
        { s.judge cfg elapsed replies stored with phase := .reconnect }
  | reconnect : s.phase = .reconnect → Steps cfg s .reconnect { s with phase := .connect }
  | crash : Steps cfg s .crash (start s.persisted)

theorem steps_of_step {cfg : ScannerConfig} {s s' : Scanner} {act : Act}
    (h : s.step cfg act = some s') : Steps cfg s act s' := by
  cases act with
  | load ok =>
    simp only [step] at h
    split at h
    · rename_i hp
      rcases ok with _ | _ <;> simp only [Bool.false_eq_true, if_true, if_false] at h
      · exact Option.some.inj h ▸ .loadTip hp (by simp)
      · split at h <;> rw [Option.some.injEq] at h <;> subst h
        · exact .loadPersisted hp ‹_›
        · exact .loadStart hp ‹_› ‹_›
        · exact .loadTip hp fun _ => ‹_›
    · cases h
  | bootTip tip =>
    simp only [step] at h
    split at h <;> simp only [Option.some.injEq, reduceCtorEq] at h <;> subst h
    · exact .bootTip ‹_›
    · exact .exit ‹_›
  | bootStore stored =>
    simp only [step] at h
    split at h <;> simp only [Option.some.injEq, reduceCtorEq] at h
    exact h ▸ .bootStore ‹_›
  | connect ok =>
    simp only [step] at h
    split at h <;> simp only [Option.some.injEq, reduceCtorEq] at h
    subst h
    rcases ok with _ | _
    · exact .connectFailed ‹_›
    · exact .connect ‹_›
  | tip tip =>
    simp only [step] at h
    split at h <;> simp only [Option.some.injEq, reduceCtorEq] at h <;> subst h
    · exact .tip ‹_›
    · exact .tipFailed ‹_›
  | fetch results =>
    simp only [step] at h
    split at h
    · rename_i hp
      split at h
      · rename_i hlt
        split at h
        · split at h <;> rw [Option.some.injEq] at h <;> subst h
          · exact .fetch hp hlt ‹_›
          · exact .fetchFailed hp hlt
        · rw [Option.some.injEq] at h
          exact h ▸ .fetchFailed hp hlt
      · cases h
    · cases h
  | caughtUp =>
    simp only [step] at h
    split at h
    · rw [Option.ite_none_left_eq_some, Option.some.injEq] at h
      exact h.2 ▸ .caughtUp ‹_›
    · cases h
  | matchLive live =>
    simp only [step] at h
    split at h <;> simp only [Option.some.injEq, reduceCtorEq] at h
    exact h ▸ .matchLive ‹_›
  | send =>
    simp only [step] at h
    split at h <;> simp only [Option.some.injEq, reduceCtorEq] at h
    exact h ▸ .send ‹_›
  | advance stored =>
    simp only [step] at h
    split at h <;> simp only [Option.some.injEq, reduceCtorEq] at h
    exact h ▸ .advance ‹_›
  | event e =>
    simp only [step] at h
    split at h <;> simp only [Option.some.injEq, reduceCtorEq] at h <;> subst h
    · exact .newBlock ‹_›
    · exact .otherEvent ‹_›
    · exact .eventError ‹_›
    · exact .ended ‹_›
  | recover now now' =>
    simp only [step] at h
    split at h <;> simp only [Option.some.injEq, reduceCtorEq] at h
    exact h ▸ .recover ‹_›
  | evidence replies stored =>
    simp only [step] at h
    split at h
    · rw [Option.ite_none_right_eq_some, Option.some.injEq] at h
      exact h.2 ▸ .evidence ‹_› h.1
    · cases h
  | reconnect =>
    simp only [step] at h
    split at h <;> simp only [Option.some.injEq, reduceCtorEq] at h
    exact h ▸ .reconnect ‹_›
  | crash =>
    simp only [step, Option.some.injEq] at h
    exact h ▸ .crash

section Store

variable {s : Scanner} {stored : Bool}

@[simp] theorem storeHeight_cursor : (s.storeHeight stored).cursor = s.cursor := by
  unfold storeHeight
  split <;> rfl

@[simp] theorem storeHeight_pruned : (s.storeHeight stored).pruned = s.pruned := by
  unfold storeHeight
  split <;> rfl

theorem storeHeight_persisted (h : s.cursor < 2 ^ 63) :
    (s.storeHeight stored).persisted = if stored then some (s.cursor : ℤ) else s.persisted := by
  have hb : Int.bmod s.cursor (2 ^ 64) = s.cursor := by
    rw [Int.bmod_eq_of_le] <;> omega
  unfold storeHeight
  split
  · rw [hb]
  · rfl

end Store

section Verdict

variable {cfg : ScannerConfig} {s : Scanner} {replies : List (Option NodeStatus)}

theorem earliest_lt {stuck depth : ℕ} {e : HeightEvidence}
    (h : e ∈ gatherHeightEvidence stuck depth replies) : e.earliest < 2 ^ 63 ∧ stuck < 2 ^ 63 := by
  unfold gatherHeightEvidence at h
  split at h
  · obtain ⟨status, -, rfl⟩ := List.mem_map.1 h
    exact ⟨status.earliest.2, ‹_›⟩
  · cases h

/-- A pruned verdict moves the cursor past the stuck height, to a height that fits. -/
theorem lt_of_verdict_pruned {newCursor : ℕ} {unanimous : Bool}
    (h : s.verdict cfg replies = .pruned newCursor unanimous) :
    s.cursor < newCursor ∧ newCursor < 2 ^ 63 := by
  unfold verdict assessEvidence at h
  split at h
  · cases h
  · split at h
    · cases h
    · rename_i m hm
      obtain ⟨e, he, rfl⟩ := List.mem_map.1 (List.min?_mem hm)
      have hlt := (earliest_lt he).1
      split at h
      · simp only [PrunedVerdict.pruned.injEq] at h
        omega
      · split at h <;> cases h

theorem lt_of_verdict_unservable (h : s.verdict cfg replies = .unservable) :
    s.cursor + 1 < 2 ^ 63 := by
  unfold verdict assessEvidence at h
  split at h
  · cases h
  · split at h
    · cases h
    · rename_i m hm
      obtain ⟨e, he, -⟩ := List.mem_map.1 (List.min?_mem hm)
      exact (earliest_lt he).2

/-- What is judged leaves the scanner as it is, or skips to a later height that fits. -/
theorem judge_cases (cfg : ScannerConfig) (s : Scanner) (replies : List (Option NodeStatus))
    (elapsed : ℕ) (stored : Bool) :
    s.judge cfg elapsed replies stored = s
      ∨ ∃ newCursor, s.cursor < newCursor ∧ newCursor < 2 ^ 63
        ∧ s.judge cfg elapsed replies stored = s.skipTo newCursor stored := by
  unfold judge
  split
  · rename_i newCursor unanimous hv
    split
    · exact .inr ⟨newCursor, (lt_of_verdict_pruned hv).1, (lt_of_verdict_pruned hv).2, rfl⟩
    · exact .inl rfl
  · rename_i hv
    split
    · exact .inr ⟨s.cursor + 1, by omega, lt_of_verdict_unservable hv, rfl⟩
    · exact .inl rfl
  · exact .inl rfl

end Verdict

/-- The chain's tip in the example runs. -/
def exampleTip : Height := ⟨8, by decide⟩

end Scanner

end ForwardingRelayer
