import ForwardingRelayer.Proofs.Cursor
import ForwardingRelayer.Proofs.Exhaustive

/-!
# The turns of the RPC endpoints

A session that fails passes the turn to the next endpoint, and nothing else moves it: a session that
ends cleanly is followed by another on the same endpoint, and a skip of the cursor leaves the turn
where it is. So the endpoints fail in cyclic order from the primary on, and of as many failures in a
row as there are endpoints each endpoint has one.
-/

namespace ForwardingRelayer

namespace Scanner

/-- The endpoint a session fails on. -/
def failedOn (e : Step) : Option ℕ :=
  match e.act with
  | .recover _ _ => some e.pre.current
  | _ => none

def crashed (e : Step) : Bool :=
  match e.act with
  | .crash => true
  | _ => false

/-- The endpoints the sessions of this process have failed on, the first one first. -/
def failures (log : List Step) : List ℕ := Machine.trace failedOn (log.takeWhile (!crashed ·))

/-- The first `k` turns, from the primary on. -/
def turns (n k : ℕ) : List ℕ := (List.range k).map (· % n)

theorem take_drop_turns {n k j : ℕ} (h : j + n ≤ k) :
    ((turns n k).drop j).take n = CelestiaClient.order n j := by
  have hrange : ((List.range k).drop j).take n = (List.range n).map (j + ·) := by
    refine List.ext_getElem (by simp; omega) fun i hi hi' => ?_
    simp
  rw [turns, ← List.map_drop, ← List.map_take, hrange, CelestiaClient.order, List.map_map]
  rfl

/-- As many turns in a row as there are endpoints are one for each. -/
theorem turns_perm {n k j : ℕ} (hn : 0 < n) (h : j + n ≤ k) :
    (((turns n k).drop j).take n).Perm (List.range n) := by
  have horder : CelestiaClient.order n j = CelestiaClient.order n (j % n) := by
    unfold CelestiaClient.order
    simp only [Nat.mod_add_mod]
  rw [take_drop_turns h, horder,
    List.perm_ext_iff_of_nodup CelestiaClient.nodup_order List.nodup_range]
  intro idx
  rw [CelestiaClient.mem_order (Nat.mod_lt j hn), List.mem_range]

section Runs

variable {cfg : ScannerConfig} {s s' : Scanner} {act : Act} {log : List Step}

theorem judge_current (replies : List (Option NodeStatus)) (elapsed : ℕ) (stored : Bool) :
    (s.judge cfg elapsed replies stored).current = s.current := by
  rcases judge_cases cfg s replies elapsed stored with h | ⟨newCursor, -, -, h⟩
  · rw [h]
  · rw [h, skipTo, storeHeight]
    split <;> rfl

/-- A failure is the only step but a crash that passes the turn. -/
theorem current_cases (h : Steps cfg s act s') :
    (failedOn ⟨s, act, s'⟩ = some s.current ∧ crashed ⟨s, act, s'⟩ = false
        ∧ s'.current = if cfg.endpoints > 1 then (s.current + 1) % cfg.endpoints else s.current)
      ∨ (failedOn ⟨s, act, s'⟩ = none ∧ crashed ⟨s, act, s'⟩ = false ∧ s'.current = s.current)
      ∨ (act = .crash ∧ s'.current = 0) := by
  cases h with
  | recover => exact .inl ⟨rfl, rfl, rfl⟩
  | crash => exact .inr (.inr ⟨rfl, rfl⟩)
  | evidence => exact .inr (.inl ⟨rfl, rfl, judge_current _ _ _⟩)
  | bootStore | advance =>
    refine .inr (.inl ⟨rfl, rfl, ?_⟩)
    simp only [storeHeight]
    split <;> rfl
  | _ => exact .inr (.inl ⟨rfl, rfl, rfl⟩)

/-- The turn after so many failures, and which endpoints they were on. -/
def InTurn (cfg : ScannerConfig) (log : List Step) (s : Scanner) : Prop :=
  s.current = (failures log).length % cfg.endpoints
    ∧ failures log = turns cfg.endpoints (failures log).length

theorem failures_cons {e : Step} (h : crashed e = false) :
    failures (e :: log) = failures log ++ (failedOn e).toList := by
  rw [failures, List.takeWhile_cons_of_pos (by simp [h]), Machine.trace_cons]
  rfl

theorem inTurn_step (hn : 0 < cfg.endpoints) (h : Steps cfg s act s') (ht : InTurn cfg log s) :
    InTurn cfg (⟨s, act, s'⟩ :: log) s' := by
  obtain ⟨hcur, hturns⟩ := ht
  rcases current_cases h with ⟨hfail, hcrash, hnext⟩ | ⟨hfail, hcrash, hnext⟩ | ⟨rfl, hnext⟩
  · have hlist : failures (⟨s, act, s'⟩ :: log) = failures log ++ [s.current] := by
      rw [failures_cons hcrash, hfail, Option.toList_some]
    refine ⟨?_, ?_⟩
    · rw [hlist, List.length_append, List.length_singleton, hnext]
      split
      · rw [hcur, Nat.mod_add_mod]
      · have hone : cfg.endpoints = 1 := by omega
        rw [hcur, hone, Nat.mod_one, Nat.mod_one]
    · rw [hlist, List.length_append, List.length_singleton, turns, List.range_succ,
        List.map_append, List.map_singleton, ← hcur]
      exact congrArg (· ++ [s.current]) hturns
  · have hlist : failures (⟨s, act, s'⟩ :: log) = failures log := by
      rw [failures_cons hcrash, hfail, Option.toList_none, List.append_nil]
    rw [InTurn, hlist, hnext]
    exact ⟨hcur, hturns⟩
  · have hlist : failures (⟨s, .crash, s'⟩ :: log) = [] := by
      rw [failures, List.takeWhile_cons_of_neg (by simp [crashed])]
      rfl
    rw [InTurn, hlist, hnext]
    exact ⟨(Nat.zero_mod _).symm, rfl⟩

theorem inTurn_of_run (hn : 0 < cfg.endpoints) (h : (blockScanner cfg).Run log s) :
    InTurn cfg log s := by
  refine h.invariant (I := InTurn cfg) ?_ fun _ _ _ _ _ ht hs =>
    inTurn_step hn (steps_of_step hs) ht
  rintro _ ⟨_, -, rfl⟩
  exact ⟨(Nat.zero_mod _).symm, rfl⟩

end Runs

/-- The sessions of a process fail on its endpoints in turn: the next session is on the endpoint as
many places from the primary as sessions have failed, whatever else has happened, and of as many
failures in a row as there are endpoints each has one. -/
theorem sessions_in_turn {cfg : ScannerConfig} (hn : 0 < cfg.endpoints) {log : List Step}
    {s : Scanner} (h : (blockScanner cfg).Run log s) :
    s.current < cfg.endpoints ∧ s.current = (failures log).length % cfg.endpoints
      ∧ failures log = turns cfg.endpoints (failures log).length
      ∧ ∀ j, j + cfg.endpoints ≤ (failures log).length →
        (((failures log).drop j).take cfg.endpoints).Perm (List.range cfg.endpoints) := by
  obtain ⟨hcur, hturns⟩ := inTurn_of_run hn h
  refine ⟨hcur ▸ Nat.mod_lt _ hn, hcur, hturns, fun j hj => ?_⟩
  rw [hturns]
  exact turns_perm hn hj

def pairConfig : ScannerConfig where
  endpoints := 2
  startHeight := some 5
  confirmationDepth := 2
  timeout := 0

/-- A session fails to connect, and nobody answers for the height it is stuck on. -/
def failedSession : List Act :=
  [.connect false, .recover 0 0, .evidence [none, none] true, .reconnect]

/-- A session that follows the chain and whose subscription ends. -/
def cleanSession : List Act :=
  [.connect true, .tip (some ⟨3, by decide⟩), .caughtUp, .event .ended, .reconnect]

theorem sessions_in_turn_pair : ∃ log s, (blockScanner pairConfig).Run log s
    ∧ failures log = [0, 1, 0] ∧ s.current = 1
    ∧ (((failures log).drop 1).take 2).Perm (List.range 2) := by
  obtain ⟨log, s, hrun, -, h⟩ := Machine.exists_run_of_exec (blockScanner pairConfig)
    ([.load true, .bootStore true] ++ failedSession ++ failedSession ++ cleanSession
      ++ failedSession) (start none) (fun log _ => failures log == [0, 1, 0])
    ⟨none, by simp, rfl⟩ (by decide +kernel)
  rw [beq_iff_eq] at h
  obtain ⟨-, hcur, -, hperm⟩ := @sessions_in_turn pairConfig (by decide) _ _ hrun
  rw [h] at hcur
  refine ⟨log, s, hrun, h, hcur, hperm 1 ?_⟩
  rw [h]
  exact le_rfl

end Scanner

end ForwardingRelayer
