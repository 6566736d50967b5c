import ForwardingRelayer.System

/-!
# The store's tables as they are on disk

`RetryStore` with its rows as SQLite holds them: a time is a text, written by `to_rfc3339` and read
by `parse_from_rfc3339` when a process loads the rows. `relayerOnDisk` is the relayer over these
tables.
-/

namespace ForwardingRelayer

open RelayerState

/-- A row of `retry_state`. -/
structure RetryText where
  failures : ℤ
  nextAttemptAt : String
  deriving DecidableEq

structure Database where
  retryState : AList fun _ : String => RetryText
  /-- The `last_activity_at` of each address. -/
  addressActivity : AList fun _ : String => String

namespace Database

/-- A text as the relayer's own time, in nanoseconds since the epoch. -/
def readTime (chrono : Chrono) (text : String) : Option ℤ :=
  (chrono.parseFromRfc3339 text).map UtcTime.toNanos

/-- The rows that parse. -/
def load (chrono : Chrono) (db : Database) : AList fun _ : String => RetryState :=
  db.retryState.filterMap fun _ row =>
    (readTime chrono row.nextAttemptAt).map fun ts => ⟨UInt32.ofNat row.failures.toNat, ts⟩

def loadActivity (chrono : Chrono) (db : Database) : AList fun _ : String => ℤ :=
  db.addressActivity.filterMap fun _ lastActivityAt => readTime chrono lastActivityAt

def upsert (chrono : Chrono) (db : Database) (addr : String) (state : RetryState) : Database :=
  { db with
    retryState := db.retryState.insert addr
      ⟨state.failures.toNat, chrono.toRfc3339 (.ofNanos state.nextAttempt)⟩ }

def remove (db : Database) (addr : String) : Database :=
  { db with retryState := db.retryState.erase addr }

def upsertActivity (chrono : Chrono) (db : Database) (addr : String) (ts : ℤ) : Database :=
  { db with addressActivity := db.addressActivity.insert addr (chrono.toRfc3339 (.ofNanos ts)) }

def removeActivity (db : Database) (addr : String) : Database :=
  { db with addressActivity := db.addressActivity.erase addr }

/-- The rows of other addresses are deleted, up to those a failing statement has left. -/
def retain (db : Database) (active : String → Bool) (leftRetry leftActivity : List String) :
    Database where
  retryState := db.retryState.retain fun addr => active addr || leftRetry.contains addr
  addressActivity :=
    db.addressActivity.retain fun addr => active addr || leftActivity.contains addr

/-- What an op writes, if its write goes through. -/
def runOp (chrono : Chrono) (db : Database) (stored : Bool) (addr : String) (op : Op) : Database :=
  if stored then
    match op with
    | .storeActivity ts => db.upsertActivity chrono addr ts
    | .deleteRetry => db.remove addr
    | .deleteActivity => db.removeActivity addr
    | .storeRetry state => db.upsert chrono addr state
    | _ => db
  else db

end Database

/-- The op a step of a call runs next. -/
def Call.op : Call → Option Op
  | .record _ (op :: _) | .close _ (op :: _) => some op
  | _ => none

structure RelayerOnDisk where
  relayer : Relayer
  database : Database

namespace RelayerOnDisk

/-- `Relayer::new`, with the maps loaded from the tables. -/
def restart (env : RelayerEnv) (s : RelayerOnDisk) (retryLoaded activityLoaded : Bool) : Relayer :=
  let r := Relayer.new env s.relayer.now s.relayer.shared.store s.relayer.scanner.persisted false
    false
  { r with
    shared := { r.shared with
      retryState := if retryLoaded then s.database.load env.chrono else ∅
      lastActivity := if activityLoaded then s.database.loadActivity env.chrono else ∅ } }

/-- What a step leaves in the tables. -/
def write (chrono : Chrono) (s : RelayerOnDisk) : Relayer.Act → Database
  | .forward i (.go stored) =>
    match s.relayer.dispatcher.tasks[i]? with
    | some ⟨addr, .running call⟩ =>
      match call.op with
      | some op => s.database.runOp chrono stored addr op
      | none => s.database
    | _ => s.database
  | .tick (.clear stored) =>
    match s.relayer.tick with
    | .clear _ _ addr (op :: _) _ => s.database.runOp chrono stored addr op
    | _ => s.database
  | .tick (.pruneStore leftRetry leftActivity) =>
    match s.relayer.tick with
    | .pruneStore d _ => s.database.retain (· ∈ d.kept) leftRetry leftActivity
    | _ => s.database
  | _ => s.database

def step (env : RelayerEnv) (s : RelayerOnDisk) : Relayer.Act → Option RelayerOnDisk
  | .crash retryLoaded activityLoaded =>
    some { s with relayer := s.restart env retryLoaded activityLoaded }
  | act => (s.relayer.step env act).map fun relayer => ⟨relayer, s.write env.chrono act⟩

end RelayerOnDisk

namespace Database

/-- A row's time is what its text is read as, if it is a time. -/
def rows (chrono : Chrono) (db : Database) : RetryStore where
  retryState := db.retryState.filterMap fun _ row =>
    some ⟨row.failures, readTime chrono row.nextAttemptAt⟩
  addressActivity := db.addressActivity.filterMap fun _ text => some (readTime chrono text)

/-- No text of the tables is read as a leap second. -/
def NoLeapSeconds (chrono : Chrono) (db : Database) : Prop :=
  (∀ e ∈ db.retryState.entries, ∀ t ∈ chrono.parseFromRfc3339 e.2.nextAttemptAt,
      t.nanos < 1000000000)
    ∧ ∀ e ∈ db.addressActivity.entries, ∀ t ∈ chrono.parseFromRfc3339 e.2, t.nanos < 1000000000

end Database

/-- The first process starts over any tables without leap seconds. -/
def relayerOnDisk (env : RelayerEnv) : Machine RelayerOnDisk Relayer.Act where
  init s := s.database.NoLeapSeconds env.chrono ∧ ∃ now height retryLoaded activityLoaded,
    s.relayer = .new env now (s.database.rows env.chrono) height retryLoaded activityLoaded
  step := RelayerOnDisk.step env

end ForwardingRelayer
