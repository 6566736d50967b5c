import ForwardingRelayer.Backend
import ForwardingRelayer.Lib.Rfc3339

/-!
# The oldest request comes first

A row keeps the text of the instant it was created at, and the statements order the rows by that
text; which is the order of the instants, however many digits their fractions have.
-/

namespace ForwardingRelayer

open Calendar

/-- A table that `create_request` has filled at instants of the years 0 to 9999. -/
inductive Stamped : BackendStorage → Prop
  | empty : Stamped .empty
  | create {db : BackendStorage} (t : DateTime) (req : CreateForwardingRequest) :
      Stamped db → Stamped (db.createRequest t.toRfc3339 req).2
  | remove {db : BackendStorage} (addr : String) : Stamped db → Stamped (db.removeByAddr addr).2

def CreatedAt (r : ForwardingRequest) (t : DateTime) : Prop := r.createdAt = t.toRfc3339

def OldestFirst (requests : List ForwardingRequest) : Prop :=
  requests.Pairwise fun a b => ∀ t u, CreatedAt a t → CreatedAt b u → t.instant ≤ u.instant

section Stamped

variable {db : BackendStorage}

theorem mem_createRequest {createdAt : String} {req : CreateForwardingRequest}
    {r : ForwardingRequest} (h : r ∈ (db.createRequest createdAt req).2.rows) :
    r ∈ db.rows ∨ r.createdAt = createdAt := by
  unfold BackendStorage.createRequest at h
  split at h
  · exact .inl h
  · rcases List.mem_append.1 h with h | h
    · exact .inl h
    · rw [List.mem_singleton.1 h]
      exact .inr rfl

theorem mem_removeByAddr {addr : String} {r : ForwardingRequest}
    (h : r ∈ (db.removeByAddr addr).2.rows) : r ∈ db.rows := by
  unfold BackendStorage.removeByAddr at h
  split at h
  · exact h
  · exact List.mem_of_mem_filter h

theorem Stamped.exists_createdAt (h : Stamped db) : ∀ r ∈ db.rows, ∃ t, CreatedAt r t := by
  induction h with
  | empty => exact fun r hr => absurd hr List.not_mem_nil
  | create t req _ ih =>
    intro r hr
    rcases mem_createRequest hr with hr | hr
    · exact ih r hr
    · exact ⟨t, hr⟩
  | remove addr _ ih => exact fun r hr => ih r (mem_removeByAddr hr)

/-- A `POST` leaves the table, or it is a call of `create_request`. -/
theorem stamped_of_run {C : Crypto} {log : List (Event BackendStorage Backend.Call)}
    (h : (backend C).Run log db)
    (hposts : ∀ e ∈ log, ∀ createdAt req, e.act = .post createdAt req →
      ∃ t : DateTime, createdAt = t.toRfc3339) : Stamped db := by
  refine h.invariant (I := fun log db => (∀ e ∈ log, ∀ createdAt req,
    e.act = .post createdAt req → ∃ t : DateTime, createdAt = t.toRfc3339) → Stamped db) ?_ ?_
    hposts
  · rintro _ rfl _
    exact .empty
  · intro log db call db' _ ih hs hposts
    rw [List.forall_mem_cons] at hposts
    have hdb := ih hposts.2
    cases call with
    | post createdAt req =>
      obtain ⟨t, rfl⟩ := hposts.1 createdAt req rfl
      obtain rfl := Option.some.inj hs
      unfold Backend.createRequest
      split
      · split
        · split <;> rename_i heq
          · exact congrArg Prod.snd heq ▸ .create t req hdb
          · exact congrArg Prod.snd heq ▸ .create t req hdb
        · exact hdb
      · exact hdb
    | delete addr =>
      obtain rfl := Option.some.inj hs
      unfold Backend.completeRequest
      split <;> rename_i heq <;> exact congrArg Prod.snd heq ▸ .remove addr hdb
    | list =>
      obtain rfl := Option.some.inj hs
      exact hdb

end Stamped

section Order

variable {db : BackendStorage}

theorem listRequests_oldestFirst : OldestFirst db.listRequests := by
  have hsorted : db.listRequests.Pairwise fun a b => a.createdAt ≤ b.createdAt :=
    List.pairwise_sortByKey ForwardingRequest.createdAt db.rows
  refine hsorted.imp fun {a b} hab t u ha hb => ?_
  rwa [ha, hb, DateTime.toRfc3339_le_iff] at hab

theorem listRequests_perm : db.listRequests.Perm db.rows :=
  List.sortByKey_perm ForwardingRequest.createdAt db.rows

theorem oldestCreatedAt_eq_none_iff :
    db.pendingMetricsSnapshot.oldestCreatedAt = none ↔ db.rows = [] := by
  rw [BackendStorage.pendingMetricsSnapshot, List.min?_eq_none_iff, List.map_eq_nil_iff]

theorem oldestCreatedAt_spec {text : String}
    (h : db.pendingMetricsSnapshot.oldestCreatedAt = some text) :
    ∃ r ∈ db.rows, r.createdAt = text ∧ ∀ t, CreatedAt r t →
      ∀ r' ∈ db.rows, ∀ u, CreatedAt r' u → t.instant ≤ u.instant := by
  obtain ⟨hmem, hle⟩ := List.min?_eq_some_iff.1 h
  obtain ⟨r, hr, rfl⟩ := List.mem_map.1 hmem
  refine ⟨r, hr, rfl, fun t ht r' hr' u hu => ?_⟩
  have hle' := hle r'.createdAt (List.mem_map_of_mem hr')
  rwa [ht, hu, DateTime.toRfc3339_le_iff] at hle'

end Order

/-- The order of the texts is the order of the instants; so a table that is filled with them is
listed oldest first, and its least text is the oldest request's. -/
theorem timestamps_chronological :
    (∀ t u : DateTime, (bytes t.toRfc3339 < bytes u.toRfc3339 ↔ t.instant < u.instant)
        ∧ (t.toRfc3339 ≤ u.toRfc3339 ↔ t.instant ≤ u.instant))
      ∧ ∀ db, Stamped db →
        (∀ r ∈ db.rows, ∃ t, CreatedAt r t)
          ∧ db.listRequests.Perm db.rows ∧ OldestFirst db.listRequests
          ∧ (db.pendingMetricsSnapshot.oldestCreatedAt = none ↔ db.rows = [])
          ∧ ∀ text, db.pendingMetricsSnapshot.oldestCreatedAt = some text →
            ∃ r ∈ db.rows, r.createdAt = text ∧ ∀ t, CreatedAt r t →
              ∀ r' ∈ db.rows, ∀ u, CreatedAt r' u → t.instant ≤ u.instant :=
  ⟨fun _ _ => ⟨DateTime.bytes_toRfc3339_lt_iff, DateTime.toRfc3339_le_iff⟩,
    fun _ h => ⟨h.exists_createdAt, listRequests_perm, listRequests_oldestFirst,
      oldestCreatedAt_eq_none_iff, fun _ => oldestCreatedAt_spec⟩⟩

/-- An instant of the first second of 2025. -/
def firstSecond (nanosecond : ℕ) (h : nanosecond < 10 ^ 9) : DateTime where
  year := 2025
  month := 1
  day := 1
  hour := 0
  minute := 0
  second := 0
  nanosecond := nanosecond
  year_lt := by decide
  month_le := by decide
  one_le_day := by decide
  day_le := by decide
  hour_lt := by decide
  minute_lt := by decide
  second_lt := by decide
  nanosecond_lt := h

/-- Two requests that are created half a second apart, of which the later one is stored first. -/
def halfSecondApart : BackendStorage :=
  let req : String → CreateForwardingRequest := fun addr => ⟨addr, 42161, "", "", none, none⟩
  let db := (BackendStorage.empty.createRequest (firstSecond (5 * 10 ^ 8) (by decide)).toRfc3339
    (req "celestia1b")).2
  (db.createRequest (firstSecond 0 (by decide)).toRfc3339 (req "celestia1a")).2

theorem timestamps_chronological_half : OldestFirst halfSecondApart.listRequests
    ∧ ∃ r ∈ halfSecondApart.rows, r.createdAt = "2025-01-01T00:00:00+00:00"
      ∧ ∀ t, CreatedAt r t → ∀ r' ∈ halfSecondApart.rows, ∀ u, CreatedAt r' u →
        t.instant ≤ u.instant := by
  have h : Stamped halfSecondApart := .create _ _ (.create _ _ .empty)
  obtain ⟨-, -, hlist, -, holdest⟩ := timestamps_chronological.2 _ h
  refine ⟨hlist, holdest _ ?_⟩
  decide +kernel

end ForwardingRelayer
