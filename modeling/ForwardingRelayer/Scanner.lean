import Mathlib.Data.Int.Notation
import Mathlib.Data.List.AList
import ForwardingRelayer.Lib.Machine
import ForwardingRelayer.Deposits

/-!
# The block scanner

`run_block_scanner` with its sessions (`scan_session`, `scan_to`) and `recover_pruned`. A step is
what the scanner does up to its next await or lock section. What it reads then, from a node, the
clock or the live list, comes with the action. A crash leaves the `scan_state` row only.
-/

namespace ForwardingRelayer

abbrev LiveSet := AList fun _ : String => ForwardingRequest

/-- A CometBFT block height. -/
abbrev Height := {h : ℕ // h < 2 ^ 63}

structure HeightEvidence where
  earliest : ℕ
  probe : Option Bool

/-- A node's status, with whether its `block_results` serves the stuck height. -/
structure NodeStatus where
  earliest : Height
  latest : Height
  serves : Bool

/-- What the endpoints that answered know about the stuck height. Only a node that retains it,
with its tip far enough past it, is probed. -/
def gatherHeightEvidence (stuck confirmationDepth : ℕ) (replies : List (Option NodeStatus)) :
    List HeightEvidence :=
  if stuck < 2 ^ 63 then
    replies.reduceOption.map fun status =>
      { earliest := status.earliest.1
        probe :=
          if status.earliest.1 ≤ stuck ∧ stuck + confirmationDepth ≤ status.latest.1 then
            some status.serves
          else none }
  else []

inductive PrunedVerdict
  | pruned (newCursor : ℕ) (unanimous : Bool)
  | unservable
  | wait
  deriving DecidableEq

def assessEvidence (evidence : List HeightEvidence) (totalEndpoints stuck : ℕ) : PrunedVerdict :=
  if evidence.any (·.probe == some true) then .wait
  else
    match (evidence.map HeightEvidence.earliest).min? with
    | none => .wait
    | some minEarliest =>
      if minEarliest > stuck then
        .pruned (minEarliest - 1) (evidence.length == totalEndpoints)
      else if evidence.any (·.probe == some false) then .unservable
      else .wait

/-- The stuck height, and the `Instant` it was first found stuck at. -/
structure Pruned where
  height : ℕ
  since : ℕ

structure ScannerConfig where
  /-- `CELESTIA_RPC`'s endpoints. -/
  endpoints : ℕ
  startHeight : Option ℕ
  confirmationDepth : ℕ
  /-- In nanoseconds. -/
  timeout : ℕ

namespace Scanner

inductive Phase
  | load
  /-- There is no height to start from; the chain tip is awaited. -/
  | bootTip
  /-- The cursor is set; it is persisted next. -/
  | bootStore
  | exited
  | connect
  | status
  /-- The head of `scan_to`'s loop. -/
  | scan (target : ℕ)
  /-- The block after the cursor is fetched; the lock section is next. -/
  | fetched (target : ℕ) (results : BlockResults)
  | sending (target : ℕ) (recipients : List String)
  /-- The subscription's next event is awaited. -/
  | follow
  | failed
  /-- The endpoints' evidence is awaited. -/
  | assess (elapsed : ℕ)
  | reconnect

inductive SubscriptionEvent
  | newBlock (height : Height)
  | other
  | error
  | ended

inductive Act
  | load (ok : Bool)
  | bootTip (tip : Option Height)
  | bootStore (stored : Bool)
  | connect (ok : Bool)
  | tip (tip : Option Height)
  | fetch (results : Option BlockResults)
  | caughtUp
  | matchLive (live : LiveSet)
  | send
  | advance (stored : Bool)
  | event (e : SubscriptionEvent)
  /-- The clock as the tracker is set, and as the time since is read. -/
  | recover (now now' : ℕ)
  | evidence (replies : List (Option NodeStatus)) (stored : Bool)
  | reconnect
  | crash

end Scanner

structure Scanner where
  /-- The `scan_state` row. -/
  persisted : Option ℤ
  cursor : ℕ
  /-- The endpoint of the next session. -/
  current : ℕ
  pruned : Option Pruned
  phase : Scanner.Phase

namespace Scanner

def start (persisted : Option ℤ) : Scanner where
  persisted := persisted
  cursor := 0
  current := 0
  pruned := none
  phase := .load

/-- `store_height`, which binds the height as an `i64` and may fail. -/
def storeHeight (s : Scanner) (stored : Bool) : Scanner :=
  if stored then { s with persisted := some (Int.bmod s.cursor (2 ^ 64)) } else s

def watched (live : LiveSet) (results : BlockResults) : List String :=
  ((extractDeposits results).filter fun deposit => deposit.recipient ∈ live).map Deposit.recipient

/-- `recover_pruned` up to its first await, after the failover to the next endpoint. -/
def recover (cfg : ScannerConfig) (s : Scanner) (now now' : ℕ) : Scanner :=
  let current := if cfg.endpoints > 1 then (s.current + 1) % cfg.endpoints else s.current
  let stuck := s.cursor + 1
  let since :=
    match s.pruned with
    | some p => if p.height = stuck then p.since else now
    | none => now
  { s with current := current, pruned := some ⟨stuck, since⟩, phase := .assess (now' - since) }

/-- `advance_cursor`, and the tracker's reset. -/
def skipTo (s : Scanner) (newCursor : ℕ) (stored : Bool) : Scanner :=
  ({ s with cursor := newCursor, pruned := none } : Scanner).storeHeight stored

def verdict (cfg : ScannerConfig) (s : Scanner) (replies : List (Option NodeStatus)) :
    PrunedVerdict :=
  assessEvidence (gatherHeightEvidence (s.cursor + 1) cfg.confirmationDepth replies) cfg.endpoints
    (s.cursor + 1)

/-- The rest of `recover_pruned`. -/
def judge (cfg : ScannerConfig) (s : Scanner) (elapsed : ℕ) (replies : List (Option NodeStatus))
    (stored : Bool) : Scanner :=
  match s.verdict cfg replies with
  | .pruned newCursor unanimous =>
    if unanimous ∨ elapsed ≥ cfg.timeout then s.skipTo newCursor stored else s
  | .unservable => if elapsed ≥ cfg.timeout then s.skipTo (s.cursor + 1) stored else s
  | .wait => s

def step (cfg : ScannerConfig) (s : Scanner) : Act → Option Scanner
  | .load ok =>
    match s.phase with
    | .load =>
      if ok then
        match s.persisted, cfg.startHeight with
        | some height, _ => some { s with cursor := height.toNat, phase := .bootStore }
        | none, some height => some { s with cursor := height - 1, phase := .bootStore }
        | none, none => some { s with phase := .bootTip }
      else some { s with phase := .bootTip }
    | _ => none
  | .bootTip tip =>
    match s.phase, tip with
    | .bootTip, some height => some { s with cursor := height.1, phase := .bootStore }
    | .bootTip, none => some { s with phase := .exited }
    | _, _ => none
  | .bootStore stored =>
    match s.phase with
    | .bootStore => some { s.storeHeight stored with phase := .connect }
    | _ => none
  | .connect ok =>
    match s.phase with
    | .connect => some { s with phase := if ok then .status else .failed }
    | _ => none
  | .tip tip =>
    match s.phase, tip with
    | .status, some height => some { s with phase := .scan (height.1 - cfg.confirmationDepth) }
    | .status, none => some { s with phase := .failed }
    | _, _ => none
  | .fetch results =>
    match s.phase with
    | .scan target =>
      if s.cursor < target then
        match results with
        | some results =>
          if s.cursor + 1 < 2 ^ 63 then some { s with phase := .fetched target results }
          else some { s with phase := .failed }
        | none => some { s with phase := .failed }
      else none
    | _ => none
  | .caughtUp =>
    match s.phase with
    | .scan target => if s.cursor < target then none else some { s with phase := .follow }
    | _ => none
  | .matchLive live =>
    match s.phase with
    | .fetched target results => some { s with phase := .sending target (watched live results) }
    | _ => none
  | .send =>
    match s.phase with
    | .sending target (_ :: recipients) => some { s with phase := .sending target recipients }
    | _ => none
  | .advance stored =>
    match s.phase with
    | .sending target [] =>
      let s' := ({ s with cursor := s.cursor + 1 } : Scanner).storeHeight stored
      some { s' with phase := .scan target }
    | _ => none
  | .event e =>
    match s.phase, e with
    | .follow, .newBlock height =>
      some { s with phase := .scan (height.1 - cfg.confirmationDepth) }
    | .follow, .other => some s
    | .follow, .error => some { s with phase := .failed }
    | .follow, .ended => some { s with pruned := none, phase := .reconnect }
    | _, _ => none
  | .recover now now' =>
    match s.phase with
    | .failed => some (s.recover cfg now now')
    | _ => none
  | .evidence replies stored =>
    match s.phase with
    | .assess elapsed =>
      if replies.length = cfg.endpoints then
        some { s.judge cfg elapsed replies stored with phase := .reconnect }
      else none
    | _ => none
  | .reconnect =>
    match s.phase with
    | .reconnect => some { s with phase := .connect }
    | _ => none
  | .crash => some (start s.persisted)

/-- The recipient a step sends to the dispatcher. -/
def sends (s : Scanner) (act : Act) : Option String :=
  match act, s.phase with
  | .send, .sending _ (r :: _) => some r
  | _, _ => none

end Scanner

def blockScanner (cfg : ScannerConfig) : Machine Scanner Scanner.Act where
  init s := ∃ persisted : Option ℤ, (∀ p ∈ persisted, p < 2 ^ 63) ∧ s = .start persisted
  step := Scanner.step cfg

end ForwardingRelayer
