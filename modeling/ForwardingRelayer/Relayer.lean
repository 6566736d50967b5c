import ForwardingRelayer.Chrono
import ForwardingRelayer.Lib.Table
import ForwardingRelayer.Fee
import ForwardingRelayer.Scanner

/-!
# The relayer's shared state

The maps behind `RelayerState`'s mutexes and the store they are mirrored to, with the critical
sections of `record_activity`, `clear_retry_state`, `clear_activity` and `note_failure`. Each of
these is a list of `Op`s, which a task works off one lock section or clock reading at a time. What
the clock reads, and what is kept of it, is an integer, the nanoseconds since the epoch.
-/

namespace ForwardingRelayer

/-- `DateTime::<Utc>::MAX_UTC`. -/
def maxUtc : ℕ := 8210266876799999999999

def retryBackoffScheduleSeconds : List ℕ := [30, 60, 300, 1800, 3600]

/-- In seconds. The schedule's last delay is used from there on. -/
def retryDelay (failures : UInt32) : ℕ :=
  retryBackoffScheduleSeconds.getD
    (min (failures.toNat - 1) (retryBackoffScheduleSeconds.length - 1)) 3600

structure RetryState where
  failures : UInt32
  nextAttempt : ℤ
  deriving DecidableEq

/-- A `retry_state` row; `nextAttempt` is what its text parses to, if it does. -/
structure RetryRow where
  failures : ℤ
  nextAttempt : Option ℤ
  deriving DecidableEq

/-- The tables of the store, but for the scanner's. -/
structure RetryStore where
  retryState : AList fun _ : String => RetryRow
  /-- The instant the text of a row parses to, if it does. -/
  addressActivity : AList fun _ : String => Option ℤ

namespace RetryStore

/-- The rows that parse. -/
def load (store : RetryStore) : AList fun _ : String => RetryState :=
  store.retryState.filterMap fun _ row =>
    row.nextAttempt.map fun nextAttempt => ⟨UInt32.ofNat row.failures.toNat, nextAttempt⟩

def loadActivity (store : RetryStore) : AList fun _ : String => ℤ :=
  store.addressActivity.filterMap fun _ lastActivity => lastActivity

def upsert (store : RetryStore) (addr : String) (state : RetryState) : RetryStore :=
  { store with
    retryState := store.retryState.insert addr ⟨state.failures.toNat, some state.nextAttempt⟩ }

def remove (store : RetryStore) (addr : String) : RetryStore :=
  { store with retryState := store.retryState.erase addr }

def upsertActivity (store : RetryStore) (addr : String) (ts : ℤ) : RetryStore :=
  { store with addressActivity := store.addressActivity.insert addr (some ts) }

def removeActivity (store : RetryStore) (addr : String) : RetryStore :=
  { store with addressActivity := store.addressActivity.erase addr }

/-- The rows of other addresses are deleted, up to those a failing statement has left. -/
def retain (store : RetryStore) (active : String → Bool) (leftRetry leftActivity : List String) :
    RetryStore where
  retryState := store.retryState.retain fun addr => active addr || leftRetry.contains addr
  addressActivity :=
    store.addressActivity.retain fun addr => active addr || leftActivity.contains addr

end RetryStore

structure RelayerState where
  live : LiveSet
  retryState : AList fun _ : String => RetryState
  lastActivity : AList fun _ : String => ℤ
  feeCache : FeeCache
  store : RetryStore

namespace RelayerState

/-- `Relayer::new` over a store. A load that fails starts fresh. -/
def new (store : RetryStore) (retryLoaded activityLoaded : Bool) : RelayerState where
  live := ∅
  retryState := if retryLoaded then store.load else ∅
  lastActivity := if activityLoaded then store.loadActivity else ∅
  feeCache := ∅
  store := store

/-- A lock section, or a reading of the clock, in one of the methods below. -/
inductive Op
  | readActivityTime
  | storeActivity (ts : ℤ)
  | insertActivity (ts : ℤ)
  | removeRetry
  | deleteRetry
  | removeActivity
  | deleteActivity
  | countFailure
  | readFailureTime (failures : UInt32)
  | storeRetry (state : RetryState)
  | insertRetry (state : RetryState)
  deriving DecidableEq

def recordActivity : List Op := [.readActivityTime]

def clearRetryState : List Op := [.removeRetry, .deleteRetry]

def clearActivity : List Op := [.removeActivity, .deleteActivity]

def noteFailure : List Op := [.countFailure]

/-- One op for an address at a time, and the ops that come next with what it has read. A write to
the store goes through or does not. -/
def runOp (s : RelayerState) (now : ℤ) (stored : Bool) (addr : String) :
    Op → RelayerState × List Op
  | .readActivityTime => (s, [.storeActivity now, .insertActivity now])
  | .storeActivity ts =>
    (if stored then { s with store := s.store.upsertActivity addr ts } else s, [])
  | .insertActivity ts => ({ s with lastActivity := s.lastActivity.insert addr ts }, [])
  | .removeRetry => ({ s with retryState := s.retryState.erase addr }, [])
  | .deleteRetry => (if stored then { s with store := s.store.remove addr } else s, [])
  | .removeActivity => ({ s with lastActivity := s.lastActivity.erase addr }, [])
  | .deleteActivity =>
    (if stored then { s with store := s.store.removeActivity addr } else s, [])
  | .countFailure =>
    (s, [.readFailureTime (((s.retryState.lookup addr).map RetryState.failures).getD 0 + 1)])
  | .readFailureTime failures =>
    let state := ⟨failures, now + retryDelay failures * 10 ^ 9⟩
    (s, [.storeRetry state, .insertRetry state])
  | .storeRetry state =>
    (if stored then { s with store := s.store.upsert addr state } else s, [])
  | .insertRetry state => ({ s with retryState := s.retryState.insert addr state }, [])

end RelayerState

/-- What the relayer is configured with, and the `chrono` it is built on. -/
structure RelayerEnv where
  config : RelayerConfig
  scanner : ScannerConfig
  signerAddress : String
  chrono : Chrono

end ForwardingRelayer
