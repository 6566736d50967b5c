import ForwardingRelayer.Proofs.Server
import ForwardingRelayer.Proofs.Timestamps

/-!
# What the gauges show

In the years 0 to 9999 every creation time the server writes can be read back, so a refresh that has
its snapshot sets both gauges, and a process only exits when it cannot open or read the table, bind
its port or go on serving. What the gauges show is then the number of rows, and the age of the
oldest, at some time since the process started.
-/

namespace ForwardingRelayer

open BackendStorage Calendar Network

/-- The row has the text of this reading of the clock. -/
def CreatedOn (chrono : Chrono) (r : ForwardingRequest) (n : ℤ) : Prop :=
  InYears n ∧ r.createdAt = chrono.toRfc3339 (.ofNanos n)

/-- The age in whole seconds, at `now`, of the row that was created first, or 0 of no rows. -/
def IsOldestAge (chrono : Chrono) (db : BackendStorage) (now age : ℤ) : Prop :=
  (db.rows = [] ∧ age = 0)
    ∨ ∃ r ∈ db.rows, ∃ t, CreatedOn chrono r t ∧ age = max ((now - t).tdiv 1000000000) 0
      ∧ ∀ r' ∈ db.rows, ∃ u, CreatedOn chrono r' u ∧ t ≤ u

variable {C : Crypto} {chrono : Chrono}

theorem createdOn_of_createdAt (hformats : chrono.Formats) {r : ForwardingRequest} {t : DateTime}
    (h : CreatedAt r t) : CreatedOn chrono r t.timestamp :=
  ⟨inYears_timestamp t, h.trans (hformats t).symm⟩

theorem oldestAge_of_stamped (hformats : chrono.Formats) (htrips : chrono.RoundTrips)
    {db : BackendStorage} (h : Stamped db) (now : ℤ) :
    ∃ age, oldestPendingRequestAgeSeconds chrono db.pendingMetricsSnapshot.oldestCreatedAt now
        = .ok age
      ∧ IsOldestAge chrono db now age := by
  rcases holdest : db.pendingMetricsSnapshot.oldestCreatedAt with _ | text
  · exact ⟨0, rfl, .inl ⟨oldestCreatedAt_eq_none_iff.1 holdest, rfl⟩⟩
  · obtain ⟨r, hr, rfl, hle⟩ := oldestCreatedAt_spec holdest
    obtain ⟨t, ht⟩ := h.exists_createdAt r hr
    have hon := createdOn_of_createdAt hformats ht
    have hread : chrono.parseFromRfc3339 r.createdAt = some (.ofNanos t.timestamp) :=
      hon.2 ▸ htrips _ hon.1
    refine ⟨_, by rw [oldestPendingRequestAgeSeconds, hread],
      .inr ⟨r, hr, t.timestamp, hon, secondsSince_ofNanos _ _, fun r' hr' => ?_⟩⟩
    obtain ⟨u, hu⟩ := h.exists_createdAt r' hr'
    have := hle t ht r' hr' u hu
    refine ⟨u.timestamp, createdOn_of_createdAt hformats hu, ?_⟩
    unfold DateTime.timestamp
    omega

namespace Handler

theorem post_of_call {db : BackendStorage} {now : ℤ} {failing : Failure → Bool} {h : Handler}
    {createdAt : String} {req : CreateForwardingRequest}
    (hc : h.call chrono db now failing = some (.post createdAt req)) :
    createdAt = chrono.toRfc3339 (.ofNanos now) := by
  unfold call at hc
  split at hc
  · split at hc
    · cases hc
      rfl
    · cases hc
  · split at hc <;> cases hc
  · cases hc

end Handler

namespace Server

variable {en : Bool} {log : List Step} {s s' : Server} {act : Act}

def crashes (e : Step) : Bool :=
  match e.act with
  | .crash => true
  | _ => false

/-- What the process has done. -/
def ofProcess (log : List Step) : List Step := log.takeWhile fun e => !crashes e

/-- The reading of the clock in an event. -/
def clock (e : Step) : Option ℤ :=
  match e.act with
  | .boot now _ | .handle _ now _ | .refresh now _ => some now
  | _ => none

/-- The table is not opened, a statement of the process's start fails, the port is not bound, or the
serving ends. -/
def fails (e : Step) : Prop :=
  match e.act with
  | .load unopened failing => (∃ o ∈ openings, unopened o = true)
    ∨ ∃ f ∈ e.pre.storage.listStatements, failing f = true
  | .boot _ failing => e.pre.phase = .boot .start
    ∧ ∃ f ∈ [Failure.queryCount, .queryOldest], failing f = true
  | .bind ok => ok = false
  | .stop => True
  | _ => False

/-- The process has exited, or does so with its next step. -/
def Over (s : Server) : Prop := s.phase = .exited ∨ s.phase = .boot (.done false)

theorem stamped_of_clock (hformats : chrono.Formats) (h : (server C chrono en).Run log s)
    (hclock : ∀ e ∈ log, ∀ now, clock e = some now → InYears now) : Stamped s.storage := by
  refine stamped_of_run (backend_run h) fun e he createdAt req hact => ?_
  obtain ⟨e', he', hfollow⟩ := List.mem_filterMap.1 he
  obtain ⟨c, hc, rfl⟩ := Option.map_eq_some_iff.1 hfollow
  obtain rfl : c = .post createdAt req := hact
  unfold backendCall at hc
  split at hc
  · rename_i i now failing heq
    obtain ⟨x, -, hx⟩ := Option.bind_eq_some_iff.1 hc
    obtain ⟨t, ht⟩ := exists_timestamp_eq (hclock e' he' now (by simp [clock, heq]))
    exact ⟨t, (Handler.post_of_call hx).trans (ht ▸ hformats t)⟩
  · cases hc

/-- The gauges show what the table was at some event of the log. -/
structure Shown (chrono : Chrono) (log : List Step) (m : BackendMetrics) : Prop where
  pending : ∀ n, m.pendingRequests = some n → ∃ e ∈ log, n = e.pre.storage.rows.length
  age : ∀ age, m.oldestAge = some age →
    ∃ e ∈ log, ∃ e' ∈ log, ∃ now, clock e' = some now ∧ IsOldestAge chrono e.pre.storage now age

/-- The refreshes under way. -/
def refreshes (s : Server) : List Refresh :=
  (match s.phase with | .boot r => [r] | _ => []) ++ s.refresher.toList
    ++ s.exchanges.filterMap fun x => match x.handler with | .refresh r _ => some r | _ => none

/-- A snapshot was taken at an event of the log. -/
def Taken (log : List Step) : Refresh → Prop
  | .pending snapshot | .age snapshot =>
    ∃ e ∈ log, Stamped e.pre.storage ∧ snapshot = e.pre.storage.pendingMetricsSnapshot
  | _ => True

theorem Taken.mono {log' : List Step} {r : Refresh} (h : Taken log r) (hsub : log ⊆ log') :
    Taken log' r := by
  cases r with
  | start | done => trivial
  | pending | age =>
    obtain ⟨e, he, hs⟩ := h
    exact ⟨e, hsub he, hs⟩

theorem Shown.mono {log' : List Step} {m : BackendMetrics} (h : Shown chrono log m)
    (hsub : log ⊆ log') : Shown chrono log' m where
  pending := fun n hn => by
    obtain ⟨e, he, hrows⟩ := h.pending n hn
    exact ⟨e, hsub he, hrows⟩
  age := fun a ha => by
    obtain ⟨e, he, e', he', hnow⟩ := h.age a ha
    exact ⟨e, hsub he, e', hsub he', hnow⟩

theorem firstFailing_eq_none_iff {failing : Failure → Bool} {statements : List Failure} :
    firstFailing failing statements = none ↔ ¬ ∃ f ∈ statements, failing f = true := by
  simp [firstFailing]

/-- A refresh takes its snapshot of the table, and shows what it has taken. It only comes to
nothing where a statement fails. -/
theorem shown_refresh (hformats : chrono.Formats) (htrips : chrono.RoundTrips) {e : Step} {now : ℤ}
    {failing : Failure → Bool} {r : Refresh} {m : BackendMetrics} (he : e ∈ log)
    (hclock : clock e = some now) (hst : Stamped e.pre.storage) (ht : Taken log r)
    (hm : Shown chrono log m) :
    Taken log (r.step chrono e.pre.storage m now failing).2
      ∧ Shown chrono log (r.step chrono e.pre.storage m now failing).1
      ∧ ((r.step chrono e.pre.storage m now failing).2 = .done false
        ↔ r = .done false
          ∨ (r = .start ∧ ∃ f ∈ [Failure.queryCount, .queryOldest], failing f = true)) := by
  cases r with
  | start =>
    rw [Refresh.step, tryPendingMetricsSnapshot]
    rcases hf : firstFailing failing [.queryCount, .queryOldest] with _ | f
    · rw [firstFailing_eq_none_iff] at hf
      exact ⟨⟨e, he, hst, rfl⟩, hm, by simpa using hf⟩
    · refine ⟨trivial, hm, ?_⟩
      simp only [reduceCtorEq, false_or, true_and, true_iff]
      exact ⟨f, List.mem_of_find?_eq_some hf, List.find?_some hf⟩
  | pending snapshot =>
    obtain ⟨e₀, he₀, hst₀, rfl⟩ := ht
    refine ⟨⟨e₀, he₀, hst₀, rfl⟩, ⟨fun n hn => ?_, hm.age⟩, by simp [Refresh.step]⟩
    exact ⟨e₀, he₀, (Option.some.inj hn).symm⟩
  | age snapshot =>
    obtain ⟨e₀, he₀, hst₀, rfl⟩ := ht
    obtain ⟨age, hok, hage⟩ := oldestAge_of_stamped hformats htrips hst₀ now
    rw [Refresh.step, hok]
    refine ⟨trivial, ⟨hm.pending, fun a ha => ?_⟩, by simp⟩
    obtain rfl := Option.some.inj ha
    exact ⟨e₀, he₀, e, he, now, hclock, hage⟩
  | done ok => exact ⟨trivial, hm, by simp [Refresh.step]⟩

/-- The snapshots and the gauges are of the process's own time, and it is over just when something
has failed. -/
structure Fresh (chrono : Chrono) (log : List Step) (s : Server) : Prop where
  taken : ∀ r ∈ s.refreshes, Taken log r
  shown : Shown chrono log s.metrics
  ended : s.Over ↔ ∃ e ∈ log, fails e

theorem mem_refreshes {r : Refresh} : r ∈ s.refreshes ↔ s.phase = .boot r
    ∨ s.refresher = some r ∨ ∃ x ∈ s.exchanges, ∃ a, x.handler = .refresh r a := by
  have hphase : r ∈ (match s.phase with | .boot r => [r] | _ => []) ↔ s.phase = .boot r := by
    cases s.phase <;> simp [eq_comm]
  have hhandler : ∀ x : Exchange,
      (match x.handler with | .refresh r _ => some r | _ => none) = some r
        ↔ ∃ a, x.handler = .refresh r a := by
    intro x
    cases x.handler <;> simp
  simp only [refreshes, List.mem_append, hphase, Option.mem_toList, List.mem_filterMap,
    hhandler, or_assoc]

theorem Fresh.of {e : Step} {L : List Step} (h : Fresh chrono L s)
    (htaken : ∀ r ∈ s'.refreshes, r ∈ s.refreshes ∨ Taken (e :: L) r)
    (hshown : Shown chrono (e :: L) s'.metrics) (hover : s'.Over ↔ fails e ∨ s.Over) :
    Fresh chrono (e :: L) s' where
  taken := fun r hr => (htaken r hr).elim
    (fun hr => (h.taken r hr).mono (List.subset_cons_self _ _)) id
  shown := hshown
  ended := by
    rw [hover, h.ended, List.exists_mem_cons_iff]

theorem over_congr {e : Step} (hphase : s'.phase = s.phase) (hno : ¬ fails e) :
    s'.Over ↔ fails e ∨ s.Over := by
  rw [or_iff_right hno, Over, Over, hphase]

theorem fresh_handle (hformats : chrono.Formats) (htrips : chrono.RoundTrips) {i : ℕ} {now : ℤ}
    {failing : Failure → Bool} {x : Exchange} {l₁ l₂ : List Exchange} {db : BackendStorage}
    {m : BackendMetrics} {h' : Handler} {L : List Step} (hst : Stamped s.storage)
    (h : Fresh chrono L s) (hl : s.exchanges = l₁ ++ x :: l₂)
    (hx : Handler.Steps C chrono en now failing s.storage s.metrics x.request x.handler db m h')
    (hs' : s' = { s with
      storage := db, metrics := m, exchanges := l₁ ++ { x with handler := h' } :: l₂ }) :
    Fresh chrono (⟨s, .handle i now failing, s'⟩ :: L) s' := by
  have hsub : L ⊆ ⟨s, .handle i now failing, s'⟩ :: L := List.subset_cons_self _ _
  have hxmem : x ∈ s.exchanges := hl ▸ List.mem_append_right _ List.mem_cons_self
  rcases x with ⟨serial, request, h₀⟩
  have hnew : (∀ r a, h' = .refresh r a → Taken (⟨s, .handle i now failing, s'⟩ :: L) r)
      ∧ Shown chrono (⟨s, .handle i now failing, s'⟩ :: L) m := by
    cases hx with
    | validated => exact ⟨nofun, h.shown.mono hsub⟩
    | counted =>
      refine ⟨fun r a hr => ?_, h.shown.mono hsub⟩
      cases en <;> cases hr
    | answered => exact ⟨nofun, h.shown.mono hsub⟩
    | count =>
      refine ⟨fun r a hr => ?_, ⟨(h.shown.mono hsub).pending, (h.shown.mono hsub).age⟩⟩
      split at hr <;> cases hr
      trivial
    | @refresh _ r a =>
      have htaken := (h.taken r (mem_refreshes.2 (.inr (.inr ⟨_, hxmem, a, rfl⟩)))).mono hsub
      obtain ⟨htaken', hshown, -⟩ := @shown_refresh chrono _ hformats htrips
        ⟨s, .handle i now failing, s'⟩ now failing r s.metrics List.mem_cons_self rfl hst htaken
        (h.shown.mono hsub)
      refine ⟨fun r' a' hr' => ?_, hshown⟩
      cases hr'
      exact htaken'
    | refreshed => exact ⟨nofun, h.shown.mono hsub⟩
  subst hs'
  refine h.of (fun r hr => ?_) hnew.2 (over_congr rfl id)
  rcases mem_refreshes.1 hr with hr | hr | ⟨y, hy, a, ha⟩
  · exact .inl (mem_refreshes.2 (.inl hr))
  · exact .inl (mem_refreshes.2 (.inr (.inl hr)))
  · rcases List.mem_append.1 hy with hy | hy
    · exact .inl (mem_refreshes.2 (.inr (.inr ⟨y, hl ▸ List.mem_append_left _ hy, a, ha⟩)))
    rcases List.mem_cons.1 hy with rfl | hy
    · exact .inr (hnew.1 r a ha)
    · exact .inl (mem_refreshes.2 (.inr (.inr
        ⟨y, hl ▸ List.mem_append_right _ (List.mem_cons_of_mem _ hy), a, ha⟩)))

/-- A refresh outside a handler. -/
theorem fresh_refresh (hformats : chrono.Formats) (htrips : chrono.RoundTrips) {now : ℤ}
    {failing : Failure → Bool} {r : Refresh} {L : List Step} (hst : Stamped s.storage)
    (h : Fresh chrono L s) (hr : r ∈ s.refreshes) (hclock : clock ⟨s, act, s'⟩ = some now)
    (hmetrics : s'.metrics = (r.step chrono s.storage s.metrics now failing).1)
    (hrefresh : ∀ r' ∈ s'.refreshes, r' ∈ s.refreshes
      ∨ r' = (r.step chrono s.storage s.metrics now failing).2)
    (hover : ((r.step chrono s.storage s.metrics now failing).2 = .done false
        ↔ r = .done false
          ∨ (r = .start ∧ ∃ f ∈ [Failure.queryCount, .queryOldest], failing f = true)) →
      (s'.Over ↔ fails ⟨s, act, s'⟩ ∨ s.Over)) :
    Fresh chrono (⟨s, act, s'⟩ :: L) s' := by
  have hsub : L ⊆ ⟨s, act, s'⟩ :: L := List.subset_cons_self _ _
  obtain ⟨htaken, hshown, hdone⟩ := @shown_refresh chrono _ hformats htrips ⟨s, act, s'⟩ now failing
    r s.metrics List.mem_cons_self hclock hst ((h.taken r hr).mono hsub) (h.shown.mono hsub)
  refine h.of (fun r' hr' => ?_) (hmetrics ▸ hshown) (hover hdone)
  rcases hrefresh r' hr' with hr' | rfl
  · exact .inl hr'
  · exact .inr htaken

theorem fresh_step (hformats : chrono.Formats) (htrips : chrono.RoundTrips) {L : List Step}
    (hc : Consistent C s) (hst : Stamped s.storage) (h : Fresh chrono L s)
    (hstep : Steps C chrono en s act s') (hcrash : act ≠ .crash) :
    Fresh chrono (⟨s, act, s'⟩ :: L) s' := by
  have hsub : L ⊆ ⟨s, act, s'⟩ :: L := List.subset_cons_self _ _
  -- a step that only moves the phase on
  have hphase : ∀ p : ServerPhase, s' = { s with phase := p } →
      (∀ r, p = .boot r → r ∈ s.refreshes ∨ Taken (⟨s, act, s'⟩ :: L) r) →
      (s'.Over ↔ fails ⟨s, act, s'⟩ ∨ s.Over) → Fresh chrono (⟨s, act, s'⟩ :: L) s' := by
    rintro p rfl hboot hover
    refine h.of (fun r hr => ?_) (h.shown.mono hsub) hover
    rcases mem_refreshes.1 hr with hr | hr
    · exact hboot r hr
    · exact .inl (mem_refreshes.2 (.inr hr))
  cases hstep with
  | loaded hnew hopen hnone =>
    refine hphase _ rfl (fun r hr => ?_) ?_
    · cases en <;> cases hr
      exact .inr trivial
    · rw [firstFailing_eq_none_iff] at hnone
      have hopen' : ¬ ∃ o ∈ openings, _ = true := fun ho => by
        rw [List.any_eq_true.2 ho] at hopen
        cases hopen
      cases en <;> simp [Over, fails, hnew, hopen', hnone]
  | @loadFailed unopened failing hnew hf =>
    refine hphase _ rfl nofun ?_
    have hfails : fails ⟨s, .load unopened failing, { s with phase := .exited }⟩ :=
      hf.imp List.any_eq_true.1 fun hf => not_not.1 fun hno => hf (firstFailing_eq_none_iff.2 hno)
    exact ⟨fun _ => .inl hfails, fun _ => .inl rfl⟩
  | @boot r now failing hboot =>
    refine @fresh_refresh _ _ _ _ hformats htrips now failing r _ hst h
      (mem_refreshes.2 (.inl hboot)) rfl rfl (fun r' hr' => ?_) fun hdone => ?_
    · rcases mem_refreshes.1 hr' with hr' | hr'
      · exact .inr (ServerPhase.boot.inj hr').symm
      · exact .inl (mem_refreshes.2 (.inr hr'))
    · simp only [Over, fails, hboot, ServerPhase.boot.injEq, reduceCtorEq, false_or, hdone]
      exact or_comm
  | @booted ok _ _ hboot =>
    refine hphase _ rfl (fun r hr => ?_) ?_
    · cases ok <;> cases hr
    · cases ok <;> simp [Over, fails, hboot]
  | @bind ok hbind =>
    refine hphase _ rfl (fun r hr => ?_) ?_
    · cases ok <;> cases hr
    · cases ok <;> simp [Over, fails, hbind]
  | stop => exact hphase _ rfl nofun ⟨fun _ => .inl trivial, fun _ => .inl rfl⟩
  | accept =>
    refine h.of (fun r hr => .inl ?_) (h.shown.mono hsub) (over_congr rfl id)
    rcases mem_refreshes.1 hr with hr | hr | ⟨y, hy, a, ha⟩
    · exact mem_refreshes.2 (.inl hr)
    · exact mem_refreshes.2 (.inr (.inl hr))
    · rcases List.mem_append.1 hy with hy | hy
      · exact mem_refreshes.2 (.inr (.inr ⟨y, hy, a, ha⟩))
      · rw [List.mem_singleton.1 hy] at ha
        cases ha
  | handle _ hl hx =>
    have hof := (hc _ (hl ▸ List.mem_append_right _ List.mem_cons_self)).1
    exact fresh_handle hformats htrips hst h hl (Handler.steps_of_step hof hx) rfl
  | reply _ hl =>
    refine h.of (fun r hr => .inl ?_) (h.shown.mono hsub) (over_congr rfl id)
    rcases mem_refreshes.1 hr with hr | hr | ⟨y, hy, hy'⟩
    · exact mem_refreshes.2 (.inl hr)
    · exact mem_refreshes.2 (.inr (.inl hr))
    · refine mem_refreshes.2 (.inr (.inr ⟨y, hl ▸ ?_, hy'⟩))
      rcases List.mem_append.1 hy with hy | hy
      · exact List.mem_append_left _ hy
      · exact List.mem_append_right _ (List.mem_cons_of_mem _ hy)
  | wake =>
    refine h.of (fun r hr => ?_) (h.shown.mono hsub) (over_congr rfl id)
    rcases mem_refreshes.1 hr with hr | hr | hr
    · exact .inl (mem_refreshes.2 (.inl hr))
    · cases hr
      exact .inr trivial
    · exact .inl (mem_refreshes.2 (.inr (.inr hr)))
  | @refresh r now failing hrefresher =>
    refine @fresh_refresh _ _ _ _ hformats htrips now failing r _ hst h
      (mem_refreshes.2 (.inr (.inl hrefresher))) rfl rfl (fun r' hr' => ?_)
      fun _ => over_congr rfl id
    rcases mem_refreshes.1 hr' with hr' | hr' | hr'
    · exact .inl (mem_refreshes.2 (.inl hr'))
    · exact .inr (Option.some.inj hr').symm
    · exact .inl (mem_refreshes.2 (.inr (.inr hr')))
  | refreshed =>
    refine h.of (fun r hr => .inl ?_) (h.shown.mono hsub) (over_congr rfl id)
    rcases mem_refreshes.1 hr with hr | hr | hr
    · exact mem_refreshes.2 (.inl hr)
    · cases hr
    · exact mem_refreshes.2 (.inr (.inr hr))
  | crash => exact absurd rfl hcrash

theorem fresh_of_run (hformats : chrono.Formats) (htrips : chrono.RoundTrips)
    (h : (server C chrono en).Run log s)
    (hclock : ∀ e ∈ log, ∀ now, clock e = some now → InYears now) :
    Fresh chrono (ofProcess log) s := by
  have hstart : ∀ db n, Fresh chrono [] (start db n) := fun db n =>
    ⟨fun r hr => (by cases hr), ⟨nofun, nofun⟩, by simp [Over, start]⟩
  refine h.invariant (I := fun log s => (∀ e ∈ log, ∀ now, clock e = some now → InYears now) →
    Fresh chrono (ofProcess log) s) ?_ ?_ hclock
  · rintro _ rfl -
    exact hstart _ _
  · rintro log s act s' hr hs hstep hclock
    rw [List.forall_mem_cons] at hclock
    by_cases hcrash : act = .crash
    · subst hcrash
      cases hstep
      exact hstart _ _
    · have hcons : ofProcess (⟨s, act, s'⟩ :: log) = ⟨s, act, s'⟩ :: ofProcess log := by
        refine List.takeWhile_cons_of_pos ?_
        cases act with
        | crash => exact absurd rfl hcrash
        | _ => rfl
      rw [hcons]
      exact fresh_step hformats htrips (consistent_of_reachable hr.reachable)
        (stamped_of_clock hformats hr hclock.2) (hs hclock.2) (steps_of_step hstep) hcrash

/-- While the clock is in the years 0 to 9999, the gauges show the number of rows and the age of the
oldest, each at some time since the process started, and the process is over just when it has failed
to open its table, to read it at its start, to bind its port, or to serve on. -/
theorem gauges_show (hformats : chrono.Formats) (htrips : chrono.RoundTrips)
    (h : (server C chrono en).Run log s)
    (hclock : ∀ e ∈ log, ∀ now, clock e = some now → InYears now) :
    (∀ n, s.metrics.pendingRequests = some n →
        ∃ e ∈ ofProcess log, n = e.pre.storage.rows.length)
      ∧ (∀ age, s.metrics.oldestAge = some age → ∃ e ∈ ofProcess log, ∃ e' ∈ ofProcess log, ∃ now,
        clock e' = some now ∧ IsOldestAge chrono e.pre.storage now age)
      ∧ (s.Over ↔ ∃ e ∈ ofProcess log, fails e) :=
  have hfresh := fresh_of_run hformats htrips h hclock
  ⟨hfresh.shown.pending, hfresh.shown.age, hfresh.ended⟩

/-- A minute and a half after it is created, a request is the oldest one; then the serving ends. -/
theorem gauges_show_waiting : ∃ log s, (server .standard .standard true).Run log s
    ∧ s.metrics.pendingRequests = some 1 ∧ s.metrics.oldestAge = some 90
    ∧ (∃ e ∈ ofProcess log, ∃ e' ∈ ofProcess log, ∃ now,
      clock e' = some now ∧ IsOldestAge .standard e.pre.storage now 90)
    ∧ s.Over ∧ ∃ e ∈ ofProcess log, fails e := by
  obtain ⟨log, s, hrun, -, h⟩ := Machine.exists_run_of_exec (server .standard .standard true)
    (listens ++ serves (.post plainRequest) 3 ++ .wake
      :: List.replicate 3 (.refresh ((1735689600 + 90) * 10 ^ 9) noFailure) ++ [.stop])
    (.start .empty 0)
    (fun log s => s.metrics.pendingRequests == some 1 && s.metrics.oldestAge == some 90
      && (match s.phase with | .exited => true | _ => false)
      && log.all fun e => (clock e).all fun now => decide (InYears now))
    rfl (by decide +kernel)
  simp only [Bool.and_eq_true, beq_iff_eq, List.all_eq_true, Option.all_eq_true,
    decide_eq_true_eq] at h
  obtain ⟨⟨⟨hpending, hage⟩, hphase⟩, hclock⟩ := h
  have hover : s.Over := by
    split at hphase
    · exact .inl ‹_›
    · cases hphase
  obtain ⟨-, hshown, hfails⟩ :=
    gauges_show Chrono.standard_formats Chrono.standard_roundTrips hrun hclock
  exact ⟨log, s, hrun, hpending, hage, hshown 90 hage, hover, hfails.1 hover⟩

end Server

end ForwardingRelayer
