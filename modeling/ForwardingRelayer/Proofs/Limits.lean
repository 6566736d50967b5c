import ForwardingRelayer.Proofs.Activity

/-!
# The retention limits

`retirement_reason` compares the limits as `i64`s. One of 2⁶³ or more is negative there, so that an
address is retired which has outlived nothing; below, the comparison is that of the numbers. An
instant in a leap second counts as one second more until its day is over, so that at a midnight an
age may lose the second it has just gained.
-/

namespace ForwardingRelayer

/-- An instant from `DateTime::<Utc>::MIN_UTC` to `MAX_UTC`. -/
abbrev DateTimeUtc := {t : UtcTime // -8334601228800 ≤ t.secs ∧ t.secs ≤ 8210266876799}

theorem secondsSince_nonneg (t now : UtcTime) : 0 ≤ secondsSince t now := le_max_right _ _

theorem lt_secondsSince_iff {t now : UtcTime} {seconds : ℤ} (h : 0 ≤ seconds) :
    seconds < secondsSince t now ↔ (seconds + 1) * 1000000000 ≤ now.signedDurationSince t := by
  unfold secondsSince
  generalize now.signedDurationSince t = d
  rw [lt_max_iff, or_iff_left (not_lt.2 h)]
  by_cases hd : 0 ≤ d
  · rw [Int.tdiv_eq_ediv_of_nonneg hd]
    omega
  · have hle : d.tdiv 1000000000 ≤ 0 := by
      rw [show d = -(-d) by omega, Int.neg_tdiv, Int.tdiv_eq_ediv_of_nonneg (by omega)]
      omega
    omega

/-- The second by which a leap second is counted, and when. -/
theorem signedDurationSince_cases (now t : UtcTime) : ∃ leap : ℤ,
    now.signedDurationSince t
        = (now.secs - t.secs + leap) * 1000000000 + (now.nanos - t.nanos)
      ∧ ((leap = 1 ∧ t.secs % 86400 < now.secs % 86400 ∧ 1000000000 ≤ t.nanos)
        ∨ (leap = -1 ∧ now.secs % 86400 < t.secs % 86400 ∧ 1000000000 ≤ now.nanos)
        ∨ (leap = 0 ∧ (t.secs % 86400 < now.secs % 86400 → t.nanos < 1000000000)
          ∧ (now.secs % 86400 < t.secs % 86400 → now.nanos < 1000000000))) := by
  refine ⟨_, rfl, ?_⟩
  unfold UtcTime.secondOfDay
  split
  · omega
  · split <;> omega

theorem secondsSince_lt (t now : DateTimeUtc) : secondsSince t now < 2 ^ 63 := by
  by_contra hge
  have hexceeds := (@lt_secondsSince_iff _ _ (2 ^ 62) (by decide)).1
    (lt_of_lt_of_le (by decide) (not_lt.1 hge))
  obtain ⟨leap, hd, hleap⟩ := signedDurationSince_cases now.1 t.1
  have := t.2.1
  have := now.2.2
  have := now.1.nanos_lt
  omega

theorem toInt_toInt64_neg {x : UInt64} (h : 2 ^ 63 ≤ x.toNat) : x.toInt64.toInt < 0 := by
  have hlt := x.toNat_lt
  have hx : x.toBitVec.toNat = x.toNat := UInt64.toNat_toBitVec x
  change x.toBitVec.toInt < 0
  rw [BitVec.toInt_eq_toNat_cond, if_neg (by omega), hx]
  omega

/-- The comparison is that of the numbers just when the limit is an `i64`. -/
theorem exceeds_iff (t now : DateTimeUtc) (limit : UInt64) :
    (secondsSince t now > limit.toInt64.toInt ↔ secondsSince t now > limit.toNat)
      ↔ limit.toNat < 2 ^ 63 := by
  constructor
  · intro h
    by_contra hlimit
    have hneg := toInt_toInt64_neg (x := limit) (by omega)
    have hover := h.1 (hneg.trans_le (secondsSince_nonneg t now))
    have := secondsSince_lt t now
    omega
  · intro hlimit
    rw [toInt_toInt64 hlimit]

/-- The age from `t` comes down to `limit` again at the midnight `limit + 2` seconds after it: the
second which `t`'s leap second was counted as is gone with the day. -/
def DropsAtMidnight (t : UtcTime) (limit : ℤ) : Prop :=
  t.nanos > 1000000000 ∧ t.secondOfDay ≠ 86399 ∧ 0 ≤ limit
    ∧ (t.secs + limit + 2) % 86400 = 0 ∧ t.secs + limit + 2 ≤ 8210266876799

/-- Unless the age drops at a midnight, a reading of the clock past the limit is followed by such
only. -/
theorem exceeds_mono_iff (t : DateTimeUtc) (limit : ℤ) :
    (∀ now now' : DateTimeUtc, now.1.nanos < 1000000000 → now'.1.nanos < 1000000000 →
        now.1.toNanos ≤ now'.1.toNanos → secondsSince t now > limit → secondsSince t now' > limit)
      ↔ ¬ DropsAtMidnight t limit := by
  constructor
  · rintro hmono ⟨hleap, hday, hlimit, hmidnight, hmax⟩
    unfold UtcTime.secondOfDay at hday
    have hmin := t.2.1
    have hlt := t.1.nanos_lt
    -- the last nanosecond of a day, and the first one of the next
    have hdrop := hmono ⟨⟨t.1.secs + limit + 1, 999999999, by decide⟩, by dsimp only; omega⟩
      ⟨⟨t.1.secs + limit + 2, 0, by decide⟩, by dsimp only; omega⟩ (Nat.lt_succ_self _)
      (Nat.zero_lt_succ _)
      (by unfold UtcTime.toNanos; dsimp only; omega)
    rw [gt_iff_lt, gt_iff_lt, lt_secondsSince_iff hlimit, lt_secondsSince_iff hlimit] at hdrop
    obtain ⟨leap, hd, hcount⟩ := signedDurationSince_cases
      ⟨t.1.secs + limit + 1, 999999999, by decide⟩ t.1
    obtain ⟨leap', hd', hcount'⟩ := signedDurationSince_cases
      ⟨t.1.secs + limit + 2, 0, by decide⟩ t.1
    dsimp only at hd hd' hcount hcount' hdrop
    omega
  · intro hdrops now now' hclock hclock' hle hretired
    by_cases hlimit : 0 ≤ limit
    · rw [gt_iff_lt, lt_secondsSince_iff hlimit] at hretired ⊢
      obtain ⟨leap, hd, hcount⟩ := signedDurationSince_cases now.1 t.1
      obtain ⟨leap', hd', hcount'⟩ := signedDurationSince_cases now'.1 t.1
      have hmax := now'.2.2
      have hlt := t.1.nanos_lt
      unfold DropsAtMidnight UtcTime.secondOfDay at hdrops
      unfold UtcTime.toNanos at hle
      by_cases hleap : leap ≤ leap'
      · omega
      · -- a leap second that counts for `now` and not for `now'`, so the day is over between them
        obtain ⟨midnight, hmidnight⟩ : ∃ m, m = (now.1.secs / 86400 + 1) * 86400 := ⟨_, rfl⟩
        have hbefore : now.1.secs + 1 ≤ midnight := by omega
        have hafter : midnight ≤ now'.1.secs := by omega
        by_contra hkept
        have heq : t.1.secs + limit + 2 = midnight := by omega
        exact hdrops ⟨by omega, by omega, hlimit, by omega, by omega⟩
    · exact lt_of_lt_of_le (by omega) (secondsSince_nonneg _ _)

section Reason

variable (parseRfc3339 : String → Option DateTimeUtc) (createdAt : String)
  (lastActivity : Option DateTimeUtc) (now : DateTimeUtc)
  (maxRequestAgeSeconds maxAddressInactivitySeconds : UInt64)

/-- `retirement_reason` on instants that chrono has. -/
def reasonAt : Option RetireReason :=
  retirementReason (fun s => (parseRfc3339 s).map Subtype.val) createdAt
    (lastActivity.map Subtype.val) now.1 maxRequestAgeSeconds maxAddressInactivitySeconds

/-- The limit an address is on. -/
def limitOn : UInt64 :=
  if lastActivity.isSome then maxAddressInactivitySeconds else maxRequestAgeSeconds

/-- The whole seconds since the creation, or since the last activity, exceed the limit for it. -/
def Outlived (created : DateTimeUtc) : Prop :=
  (lastActivity = none ∧ secondsSince created.1 now.1 > maxRequestAgeSeconds.toNat)
    ∨ ∃ last, lastActivity = some last
      ∧ secondsSince last.1 now.1 > maxAddressInactivitySeconds.toNat

variable {parseRfc3339 createdAt} {created : DateTimeUtc}

theorem isSome_reasonAt (hparse : parseRfc3339 createdAt = some created) :
    (reasonAt parseRfc3339 createdAt lastActivity now maxRequestAgeSeconds
        maxAddressInactivitySeconds).isSome
      ↔ secondsSince (lastActivity.getD created).1 now.1
        > (limitOn lastActivity maxRequestAgeSeconds
          maxAddressInactivitySeconds).toInt64.toInt := by
  rcases lastActivity with _ | last
  · simp only [reasonAt, retirementReason, hparse, Option.map_none, Option.map_some]
    split <;> simp_all [limitOn]
  · simp only [reasonAt, retirementReason, Option.map_some]
    split <;> simp_all [limitOn]

theorem outlived_iff :
    Outlived lastActivity now maxRequestAgeSeconds maxAddressInactivitySeconds created
      ↔ secondsSince (lastActivity.getD created).1 now.1
        > (limitOn lastActivity maxRequestAgeSeconds maxAddressInactivitySeconds).toNat := by
  rcases lastActivity with _ | last <;> simp [Outlived, limitOn]

variable {maxRequestAgeSeconds maxAddressInactivitySeconds}

theorem limitOn_mono {age idle : UInt64} (hage : maxRequestAgeSeconds ≤ age)
    (hidle : maxAddressInactivitySeconds ≤ idle) :
    limitOn lastActivity maxRequestAgeSeconds maxAddressInactivitySeconds
      ≤ limitOn lastActivity age idle := by
  unfold limitOn
  split
  · exact hidle
  · exact hage

end Reason

/-- An address is retired for what it has outlived just when the limit it is on is an `i64`; a
higher limit keeps a kept address just when it still is one; and as the clock goes on a retired
address stays one just when the age from its creation, or its last activity, does not drop at a
midnight to its limit. -/
theorem retention_limits_iff {parseRfc3339 : String → Option DateTimeUtc} {createdAt : String}
    {created : DateTimeUtc} (hparse : parseRfc3339 createdAt = some created)
    (lastActivity : Option DateTimeUtc) (now : DateTimeUtc) (age idle : UInt64) :
    (((reasonAt parseRfc3339 createdAt lastActivity now age idle).isSome
          ↔ Outlived lastActivity now age idle created)
        ↔ (limitOn lastActivity age idle).toNat < 2 ^ 63)
      ∧ (∀ age' idle', age ≤ age' → idle ≤ idle' →
        reasonAt parseRfc3339 createdAt lastActivity now age idle = none →
        (reasonAt parseRfc3339 createdAt lastActivity now age' idle' = none
          ↔ (limitOn lastActivity age' idle').toNat < 2 ^ 63))
      ∧ ((∀ now now' : DateTimeUtc, now.1.nanos < 1000000000 → now'.1.nanos < 1000000000 →
          now.1.toNanos ≤ now'.1.toNanos →
          (reasonAt parseRfc3339 createdAt lastActivity now age idle).isSome →
          (reasonAt parseRfc3339 createdAt lastActivity now' age idle).isSome)
        ↔ ¬ DropsAtMidnight (lastActivity.getD created).1
          (limitOn lastActivity age idle).toInt64.toInt) := by
  refine ⟨?_, ?_, ?_⟩
  · rw [isSome_reasonAt _ _ _ _ hparse, outlived_iff]
    exact exceeds_iff _ now _
  · intro age' idle' hage hidle hkept
    have hle := UInt64.le_iff_toNat_le.1 (limitOn_mono lastActivity hage hidle)
    have hseconds := secondsSince_nonneg (lastActivity.getD created).1 now.1
    rw [← Option.not_isSome_iff_eq_none, isSome_reasonAt _ _ _ _ hparse, not_lt] at hkept ⊢
    have hlimit : (limitOn lastActivity age idle).toNat < 2 ^ 63 := by
      by_contra hlimit
      have := toInt_toInt64_neg (x := limitOn lastActivity age idle) (by omega)
      omega
    rw [toInt_toInt64 hlimit] at hkept
    constructor
    · intro hkept'
      by_contra hlimit'
      have := toInt_toInt64_neg (x := limitOn lastActivity age' idle') (by omega)
      omega
    · intro hlimit'
      rw [toInt_toInt64 hlimit']
      omega
  · rw [← exceeds_mono_iff]
    simp only [isSome_reasonAt _ _ _ _ hparse]

def epoch : DateTimeUtc := ⟨.ofNanos 0, by decide⟩

def dayLater : DateTimeUtc := ⟨.ofNanos (86400 * 10 ^ 9), by decide⟩

/-- A day after the creation, on a limit of an hour, of a day, and of a second more; and on that of
an hour from then on. -/
theorem retention_limits_iff_day :
    ((reasonAt (fun _ => some epoch) "1970-01-01T00:00:00+00:00" none dayLater 3600 604800).isSome
        ↔ Outlived none dayLater 3600 604800 epoch)
      ∧ reasonAt (fun _ => some epoch) "1970-01-01T00:00:00+00:00" none dayLater 86401 604800
        = none
      ∧ ∀ now : DateTimeUtc, now.1.nanos < 1000000000 → dayLater.1.toNanos ≤ now.1.toNanos →
        (reasonAt (fun _ => some epoch) "1970-01-01T00:00:00+00:00" none now 3600
          604800).isSome := by
  have h := @retention_limits_iff (fun _ => some epoch) "1970-01-01T00:00:00+00:00" epoch rfl none
    dayLater
  have hkept := (h 86400 604800).2.1 86401 604800 (by decide) (by decide) (by decide)
  have hlater := (h 3600 604800).2.2.2 fun hdrops => absurd hdrops.1 (by decide)
  exact ⟨(h 3600 604800).1.2 (by decide), hkept.2 (by decide),
    fun now hclock hle => hlater dayLater now (by decide) hclock hle (by decide)⟩

/-- The highest limit retires a request at its creation. -/
theorem wrapped_limit_retires :
    reasonAt (fun _ => some epoch) "1970-01-01T00:00:00+00:00" none epoch 18446744073709551615
        604800 = some (.unfunded 0)
      ∧ ¬ Outlived none epoch 18446744073709551615 604800 epoch := by
  refine ⟨by decide, ?_⟩
  rw [outlived_iff]
  decide

/-- `2025-01-01T00:00:60.7Z`, a second and seven tenths after the 59th second. -/
def leapSecond : DateTimeUtc := ⟨⟨1735689659, 1700000000, by decide⟩, by decide⟩

-- at the end of its day the request is due, at the next midnight it is not
example : (reasonAt (fun _ => some leapSecond) "2025-01-01T00:00:60.7Z" none
        ⟨⟨1735775999, 900000000, by decide⟩, by decide⟩ 86339 604800).isSome
      ∧ reasonAt (fun _ => some leapSecond) "2025-01-01T00:00:60.7Z" none
        ⟨⟨1735776000, 0, by decide⟩, by decide⟩ 86339 604800 = none := by
  decide

end ForwardingRelayer
