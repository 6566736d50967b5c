import Mathlib.Data.Int.Notation
import Mathlib.Data.Nat.Notation

/-!
# Instants, and the texts they are stored as

A `DateTime<Utc>` with its leap seconds, and what the relayer and the backend ask of `chrono`. The
clock itself has no leap seconds, so what it reads is an integer, the nanoseconds since the epoch.
-/

namespace ForwardingRelayer

/-- In a leap second the nanoseconds go on from 10⁹. -/
structure UtcTime where
  secs : ℤ
  nanos : ℕ
  nanos_lt : nanos < 2000000000
  deriving DecidableEq

namespace UtcTime

/-- What `Utc::now` gives for a reading of the clock. -/
def ofNanos (n : ℤ) : UtcTime where
  secs := n / 1000000000
  nanos := (n % 1000000000).toNat
  nanos_lt := by omega

/-- The nanoseconds since the epoch, of an instant outside the leap seconds. -/
def toNanos (t : UtcTime) : ℤ := t.secs * 1000000000 + t.nanos

def secondOfDay (t : UtcTime) : ℤ := t.secs % 86400

/-- `signed_duration_since`, in nanoseconds. A leap second is counted where the other time is later,
or earlier, in its own day. -/
def signedDurationSince (now t : UtcTime) : ℤ :=
  let leap :=
    if now.secondOfDay > t.secondOfDay ∧ t.nanos ≥ 1000000000 then 1
    else if now.secondOfDay < t.secondOfDay ∧ now.nanos ≥ 1000000000 then -1
    else 0
  (now.secs - t.secs + leap) * 1000000000 + (now.nanos - t.nanos)

end UtcTime

/-- The whole seconds from `t` to `now`, or none if `t` is later. -/
def secondsSince (t now : UtcTime) : ℤ := max ((now.signedDurationSince t).tdiv 1000000000) 0

/-- What `chrono` writes and reads. -/
structure Chrono where
  /-- `DateTime::<Utc>::to_rfc3339`. -/
  toRfc3339 : UtcTime → String
  /-- `DateTime::parse_from_rfc3339`, in UTC. -/
  parseFromRfc3339 : String → Option UtcTime

end ForwardingRelayer
