import ForwardingRelayer.Proofs.Scanner

/-!
# The scan cursor's account

Every height the cursor has passed was fetched and handed over, or skipped. The cursor moves by
one behind the sends of a block, and further only by a skip; what is persisted is a cursor, so a
restart goes on from a height that is accounted for. A target is a reported tip less the depth.
-/

namespace ForwardingRelayer

namespace Scanner

abbrev Step := Event Scanner Act

def boots (e : Step) : Option ℕ :=
  match e.pre.phase, e.post.phase with
  | .load, .bootStore | .bootTip, .bootStore => some e.post.cursor
  | _, _ => none

def fetches (e : Step) : Option ℕ :=
  match e.act with
  | .fetch _ => some (e.pre.cursor + 1)
  | _ => none

/-- The height `scan_to` has fetched, and its results. -/
def fetched (e : Step) : Option (ℕ × BlockResults) :=
  match e.post.phase with
  | .fetched _ results => some (e.pre.cursor + 1, results)
  | _ => none

def sent (e : Step) : Option String := e.pre.sends e.act

def reported (e : Step) : Option ℕ :=
  match e.act with
  | .tip (some height) | .event (.newBlock height) => some height.1
  | _ => none

/-- A session begins, or the process ends. -/
def cuts (e : Step) : Prop := e.act = .connect true ∨ e.act = .crash

/-- The block at `h` was fetched, then matched against the live list, and the recipient of every
deposit to an address in it was sent after that. -/
def HandedOver (log : List Step) (h : ℕ) : Prop :=
  ∃ l₁ m l₂ target results live, log = l₁ ++ m :: l₂
    ∧ m.act = .matchLive live ∧ m.pre.phase = .fetched target results ∧ m.pre.cursor + 1 = h
    ∧ (∃ f ∈ l₂, fetched f = some (h, results))
    ∧ ∀ d ∈ extractDeposits results, d.recipient ∈ live → ∃ e ∈ l₁, sent e = some d.recipient

/-- `recover_pruned` moved the cursor past `h`. -/
def Skipped (log : List Step) (h : ℕ) : Prop :=
  ∃ e ∈ log, (∃ replies stored, e.act = .evidence replies stored)
    ∧ e.pre.cursor < h ∧ h ≤ e.post.cursor

def Accounted (log : List Step) (h : ℕ) : Prop := HandedOver log h ∨ Skipped log h

theorem HandedOver.cons {log : List Step} {h : ℕ} (e : Step) :
    HandedOver log h → HandedOver (e :: log) h := by
  rintro ⟨l₁, m, l₂, target, results, live, rfl, h1, h2, h3, h4, h5⟩
  refine ⟨e :: l₁, m, l₂, target, results, live, rfl, h1, h2, h3, h4, fun d hd hlive => ?_⟩
  obtain ⟨x, hx, hs⟩ := h5 d hd hlive
  exact ⟨x, List.mem_cons_of_mem _ hx, hs⟩

theorem Skipped.cons {log : List Step} {h : ℕ} (e : Step) :
    Skipped log h → Skipped (e :: log) h := by
  rintro ⟨x, hx, hs⟩
  exact ⟨x, List.mem_cons_of_mem _ hx, hs⟩

theorem Accounted.cons {log : List Step} {h : ℕ} (e : Step) :
    Accounted log h → Accounted (e :: log) h :=
  Or.imp (HandedOver.cons e) (Skipped.cons e)

/-- The height the scanner has last fetched or passed. -/
def frontier (s : Scanner) : ℕ :=
  match s.phase with
  | .fetched _ _ | .sending _ _ => s.cursor + 1
  | _ => s.cursor

theorem cursor_le_frontier (s : Scanner) : s.cursor ≤ s.frontier := by
  unfold frontier
  split <;> omega

section Order

variable {cfg : ScannerConfig} {s s' : Scanner} {act : Act}

/-- What fits in an `i64` stays so. -/
structure Fits (s : Scanner) : Prop where
  frontier : s.frontier < 2 ^ 63
  persisted : ∀ p ∈ s.persisted, p < 2 ^ 63

theorem Fits.cursor (hs : Fits s) : s.cursor < 2 ^ 63 :=
  Nat.lt_of_le_of_lt (cursor_le_frontier s) hs.frontier

theorem persisted_storeHeight {stored : Bool} {p : ℤ} (h : s.cursor < 2 ^ 63)
    (hp : p ∈ (s.storeHeight stored).persisted) : p = s.cursor ∨ p ∈ s.persisted := by
  rw [storeHeight_persisted h] at hp
  split at hp
  · exact .inl (Option.some.inj hp).symm
  · exact .inr hp

theorem fits_step (hstart : ∀ h ∈ cfg.startHeight, h < 2 ^ 63) (hs : Fits s)
    (h : Steps cfg s act s') : Fits s' := by
  have hc := hs.cursor
  have hstore : ∀ {t : Scanner} {stored : Bool}, t.persisted = s.persisted → t.cursor < 2 ^ 63 →
      ∀ p ∈ (t.storeHeight stored).persisted, p < 2 ^ 63 := by
    intro t stored ht hct p hp
    rcases persisted_storeHeight hct hp with rfl | hp
    · exact_mod_cast hct
    · exact hs.persisted p (ht ▸ hp)
  cases h with
  | loadPersisted _ hp =>
    have := hs.persisted _ hp
    exact ⟨by simp only [Scanner.frontier]; omega, hs.persisted⟩
  | loadStart _ _ hh =>
    have := hstart _ hh
    exact ⟨by simp only [Scanner.frontier]; omega, hs.persisted⟩
  | @bootTip height _ => exact ⟨height.2, hs.persisted⟩
  | bootStore _ => exact ⟨by simpa [Scanner.frontier] using hc, hstore rfl hc⟩
  | @fetch target results _ _ hlt => exact ⟨hlt, hs.persisted⟩
  | matchLive hp | send hp =>
    have := hs.frontier
    simp only [Scanner.frontier, hp] at this
    exact ⟨this, hs.persisted⟩
  | advance hp =>
    have := hs.frontier
    simp only [Scanner.frontier, hp] at this
    exact ⟨by simpa [Scanner.frontier] using this, hstore rfl this⟩
  | @evidence elapsed replies stored _ _ =>
    rcases judge_cases cfg s replies elapsed stored with
      h | ⟨c, -, hc', h⟩ <;> rw [h]
    · exact ⟨by simpa [Scanner.frontier] using hc, hs.persisted⟩
    · exact ⟨by simpa [Scanner.frontier, skipTo] using hc', hstore rfl hc'⟩
  | crash => exact ⟨by simp [Scanner.frontier, start], hs.persisted⟩
  | otherEvent _ => exact hs
  | _ => exact ⟨by simpa [Scanner.frontier, recover] using hc, hs.persisted⟩

/-- The cursor is not behind what is persisted, once it is set. -/
structure Ordered (s : Scanner) : Prop where
  boot : s.phase = .load ∨ s.phase = .bootTip → s.cursor = 0
  tipless : s.phase = .bootTip → s.persisted = none
  le : s.phase ≠ .load → ∀ p ∈ s.persisted, p ≤ s.cursor

theorem ordered_step (hs : Fits s) (ho : Ordered s) (h : Steps cfg s act s')
    (hok : act ≠ .load false) : Ordered s' := by
  have hstore : ∀ {t : Scanner} {stored : Bool}, t.persisted = s.persisted → t.cursor < 2 ^ 63 →
      s.cursor ≤ t.cursor → s.phase ≠ .load →
      ∀ p ∈ (t.storeHeight stored).persisted, p ≤ t.cursor := by
    intro t stored ht hct hle hl p hp
    rcases persisted_storeHeight hct hp with rfl | hp
    · exact Int.le_refl _
    · have := ho.le hl p (ht ▸ hp)
      omega
  cases h with
  | @loadPersisted height _ hp =>
    refine ⟨by simp, by simp, fun _ p hp' => ?_⟩
    rw [show p = height from Option.some.inj (hp'.symm.trans hp)]
    simp only []
    omega
  | loadStart _ hp _ => exact ⟨by simp, by simp, fun _ p hp' => by simp [hp] at hp'⟩
  | @loadTip ok hp hn =>
    have hnone : s.persisted = none := by
      rcases ok with _ | _
      · exact absurd rfl hok
      · exact hn rfl
    exact ⟨fun _ => ho.boot (.inl hp), fun _ => hnone, fun _ p hp' => by simp [hnone] at hp'⟩
  | bootTip hp =>
    exact ⟨by simp, by simp, fun _ p hp' => by simp [ho.tipless hp] at hp'⟩
  | exit hp => exact ⟨by simp, by simp, fun _ => ho.le (by simp [hp])⟩
  | bootStore hp =>
    exact ⟨by simp, by simp, fun _ => by
      simpa using hstore rfl hs.cursor (Nat.le_refl _) (by simp [hp])⟩
  | advance hp =>
    have := hs.frontier
    simp only [Scanner.frontier, hp] at this
    exact ⟨by simp, by simp, fun _ => by
      simpa using hstore (t := { s with cursor := s.cursor + 1 }) rfl this (Nat.le_succ _)
        (by simp [hp])⟩
  | @evidence elapsed replies stored hp _ =>
    rcases judge_cases cfg s replies elapsed stored with
      h | ⟨c, hlt, hc, h⟩ <;> rw [h]
    · exact ⟨by simp, by simp, fun _ => ho.le (by simp [hp])⟩
    · exact ⟨by simp, by simp, fun _ => by
        simpa [skipTo] using hstore (t := { s with cursor := c, pruned := none }) rfl hc
          (Nat.le_of_lt hlt) (by simp [hp])⟩
  | crash => exact ⟨by simp [start], by simp [start], by simp [start]⟩
  | otherEvent _ => exact ho
  | _ hp => exact ⟨by simp [recover], by simp [recover], fun _ => ho.le (by simp [hp])⟩

theorem cursor_step (ho : Ordered s) (h : Steps cfg s act s') (hc : act ≠ .crash) :
    s.cursor ≤ s'.cursor ∧ s.frontier ≤ s'.frontier := by
  cases h with
  | loadPersisted hp _ | loadStart hp _ _ =>
    simp [frontier, hp, ho.boot (.inl hp)]
  | bootTip hp => simp [frontier, hp, ho.boot (.inr hp)]
  | bootStore hp => simp [frontier, hp]
  | advance hp => simp [frontier, hp]
  | @evidence elapsed replies stored hp _ =>
    rcases judge_cases cfg s replies elapsed stored with
      h | ⟨c, hlt, hc, h⟩ <;> rw [h]
    · simp [frontier, hp]
    · simp [frontier, hp, skipTo]
      omega
  | crash => exact absurd rfl hc
  | _ hp => simp [frontier, hp, recover]

end Order

/-- The block at `h` has been matched, and the recipients of its deposits to live addresses, all but
`rest`, were sent since. -/
def InHand (log : List Step) (h : ℕ) (rest : List String) : Prop :=
  ∃ l₁ m l₂ target results live, log = l₁ ++ m :: l₂
    ∧ m.act = .matchLive live ∧ m.pre.phase = .fetched target results ∧ m.pre.cursor + 1 = h
    ∧ (∃ f ∈ l₂, fetched f = some (h, results))
    ∧ ∀ d ∈ extractDeposits results, d.recipient ∈ live →
      d.recipient ∈ rest ∨ ∃ e ∈ l₁, sent e = some d.recipient

theorem mem_watched {live : LiveSet} {results : BlockResults} {d : Deposit}
    (hd : d ∈ extractDeposits results) (hlive : d.recipient ∈ live) :
    d.recipient ∈ watched live results :=
  List.mem_map_of_mem (List.mem_filter.2 ⟨hd, by simpa using hlive⟩)

theorem handedOver_of_inHand {log : List Step} {h : ℕ} (hh : InHand log h []) :
    HandedOver log h := by
  obtain ⟨l₁, m, l₂, target, results, live, hlog, h1, h2, h3, h4, h5⟩ := hh
  exact ⟨l₁, m, l₂, target, results, live, hlog, h1, h2, h3, h4, fun d hd hlive => by
    simpa using h5 d hd hlive⟩

theorem InHand.cons_send {log : List Step} {h : ℕ} {r : String} {rest : List String} {e : Step}
    (he : sent e = some r) (hh : InHand log h (r :: rest)) : InHand (e :: log) h rest := by
  obtain ⟨l₁, m, l₂, target, results, live, rfl, h1, h2, h3, h4, h5⟩ := hh
  refine ⟨e :: l₁, m, l₂, target, results, live, rfl, h1, h2, h3, h4, fun d hd hlive => ?_⟩
  rcases h5 d hd hlive with hx | ⟨y, hy, hs⟩
  · rcases List.mem_cons.1 hx with hx | hx
    · exact .inr ⟨e, List.mem_cons_self, he.trans (congrArg some hx.symm)⟩
    · exact .inl hx
  · exact .inr ⟨y, List.mem_cons_of_mem _ hy, hs⟩

/-- The heights past `c₀` up to the cursor, and up to what is persisted, are accounted for in
`log`, and so is what the scanner has in hand of the next one. -/
structure Account (c₀ : ℕ) (log : List Step) (s : Scanner) : Prop where
  persisted : ∀ p ∈ s.persisted, ∀ h, c₀ < h → (h : ℤ) ≤ p → Accounted log h
  cursor : ∀ h, c₀ < h → h ≤ s.cursor → Accounted log h
  fetched : ∀ target results, s.phase = .fetched target results →
    ∃ f ∈ log, fetched f = some (s.cursor + 1, results)
  sending : ∀ target rest, s.phase = .sending target rest → InHand log (s.cursor + 1) rest

section Account

variable {cfg : ScannerConfig} {s s' : Scanner} {act : Act} {c₀ : ℕ} {log : List Step}

/-- A step that leaves the cursor and the row, to a phase with nothing in hand. -/
theorem Account.keep (ha : Account c₀ log s) (e : Step) (hp : s'.persisted = s.persisted)
    (hc : s'.cursor = s.cursor) (hf : ∀ target results, s'.phase ≠ .fetched target results)
    (hs : ∀ target rest, s'.phase ≠ .sending target rest) : Account c₀ (e :: log) s' where
  persisted p hp' h h1 h2 := (ha.persisted p (hp ▸ hp') h h1 h2).cons e
  cursor h h1 h2 := (ha.cursor h h1 (hc ▸ h2)).cons e
  fetched target results h := absurd h (hf target results)
  sending target rest h := absurd h (hs target rest)

/-- A step that moves the cursor on, if the heights it passes are accounted for. -/
theorem Account.move {t : Scanner} {stored : Bool} (ha : Account c₀ log s) (e : Step)
    (ht : t.persisted = s.persisted) (hct : t.cursor < 2 ^ 63)
    (hnew : ∀ h, s.cursor < h → h ≤ t.cursor → Accounted (e :: log) h)
    (hp : s'.persisted = (t.storeHeight stored).persisted) (hc : s'.cursor = t.cursor)
    (hf : ∀ target results, s'.phase ≠ .fetched target results)
    (hs : ∀ target rest, s'.phase ≠ .sending target rest) : Account c₀ (e :: log) s' := by
  have hcur : ∀ h, c₀ < h → h ≤ t.cursor → Accounted (e :: log) h := by
    intro h h1 h2
    by_cases hlt : s.cursor < h
    · exact hnew h hlt h2
    · exact (ha.cursor h h1 (by omega)).cons e
  refine ⟨fun p hp' h h1 h2 => ?_, fun h h1 h2 => hcur h h1 (hc ▸ h2),
    fun target results h => absurd h (hf target results),
    fun target rest h => absurd h (hs target rest)⟩
  rw [hp] at hp'
  rcases persisted_storeHeight hct hp' with rfl | hp'
  · exact hcur h h1 (by omega)
  · exact (ha.persisted p (ht ▸ hp') h h1 h2).cons e

theorem account_step (hf : Fits s) (ho : Ordered s) (ha : Account c₀ log s)
    (h : Steps cfg s act s') (hre : (boots ⟨s, act, s'⟩).isSome → s.persisted.isSome) :
    Account c₀ (⟨s, act, s'⟩ :: log) s' := by
  have hc := hf.cursor
  cases h with
  | @loadPersisted height hp hh =>
    refine ⟨fun p hp' h h1 h2 => (ha.persisted p hp' h h1 h2).cons _, fun h h1 h2 => ?_,
      by simp, by simp⟩
    refine (ha.persisted height hh h h1 ?_).cons _
    simp only [] at h2
    omega
  | loadStart hp hn _ => simp [boots, hp, hn] at hre
  | bootTip hp => simp [boots, hp, ho.tipless hp] at hre
  | bootStore _ =>
    exact ha.move _ rfl hc (fun h h1 h2 => by omega) rfl (by simp) (by simp)
      (by simp)
  | @fetch target results _ _ _ =>
    refine ⟨fun p hp' h h1 h2 => (ha.persisted p hp' h h1 h2).cons _,
      fun h h1 h2 => (ha.cursor h h1 h2).cons _, fun t r hp => ?_, by simp⟩
    simp only [Phase.fetched.injEq] at hp
    obtain ⟨rfl, rfl⟩ := hp
    exact ⟨_, List.mem_cons_self, rfl⟩
  | @matchLive live target results hp =>
    refine ⟨fun p hp' h h1 h2 => (ha.persisted p hp' h h1 h2).cons _,
      fun h h1 h2 => (ha.cursor h h1 h2).cons _, by simp, fun t rest hp' => ?_⟩
    simp only [Phase.sending.injEq] at hp'
    obtain ⟨rfl, rfl⟩ := hp'
    exact ⟨[], _, log, target, results, live, rfl, rfl, hp, rfl, ha.fetched target results hp,
      fun d hd hlive => .inl (mem_watched hd hlive)⟩
  | @send target r rest hp =>
    refine ⟨fun p hp' h h1 h2 => (ha.persisted p hp' h h1 h2).cons _,
      fun h h1 h2 => (ha.cursor h h1 h2).cons _, by simp, fun t rest' hp' => ?_⟩
    simp only [Phase.sending.injEq] at hp'
    obtain ⟨rfl, rfl⟩ := hp'
    exact (ha.sending target _ hp).cons_send (by simp [sent, sends, hp])
  | @advance target stored hp =>
    have hlt := hf.frontier
    simp only [Scanner.frontier, hp] at hlt
    refine ha.move (t := { s with cursor := s.cursor + 1 }) _ rfl hlt ?_ rfl (by simp)
      (by simp) (by simp)
    intro h h1 h2
    -- the only new height is the one whose sends are all done
    rw [show h = s.cursor + 1 by simp only [] at h2; omega]
    exact .inl (HandedOver.cons _ (handedOver_of_inHand (ha.sending target [] hp)))
  | @evidence elapsed replies stored hp _ =>
    rcases judge_cases cfg s replies elapsed stored with
      h | ⟨c, hlt, hc', h⟩ <;> rw [h]
    · exact ha.keep _ rfl rfl (by simp) (by simp)
    · refine ha.move (t := { s with cursor := c, pruned := none }) _ rfl hc' ?_ rfl
        (by simp [skipTo]) (by simp) (by simp)
      intro h h1 h2
      exact .inr ⟨_, List.mem_cons_self, ⟨replies, stored, rfl⟩, h1, by simpa [skipTo] using h2⟩
  | crash =>
    exact ⟨fun p hp' h h1 h2 => (ha.persisted p hp' h h1 h2).cons _,
      fun h h1 h2 => by simp [start] at h2; omega, by simp [start], by simp [start]⟩
  | otherEvent hp => exact ha.keep _ rfl rfl (by simp [hp]) (by simp [hp])
  | _ hp => exact ha.keep _ rfl rfl (by simp [recover]) (by simp [recover])

end Account

theorem fetched_step {cfg : ScannerConfig} {s s' : Scanner} {act : Act} {height : ℕ}
    {results : BlockResults} (h : Steps cfg s act s')
    (hf : fetched ⟨s, act, s'⟩ = some (height, results)) : height = s'.frontier := by
  cases h with
  | fetch _ _ _ =>
    simp only [fetched, Option.some.injEq, Prod.mk.injEq] at hf
    exact hf.1.symm
  | otherEvent hp => simp [fetched, hp] at hf
  | _ => simp [fetched, start, recover] at hf

theorem fetches_step {cfg : ScannerConfig} {s s' : Scanner} {act : Act} {height : ℕ}
    (h : Steps cfg s act s') (hf : fetches ⟨s, act, s'⟩ = some height) :
    height = s.cursor + 1 ∧ ∃ target, s.phase = .scan target ∧ s.cursor < target := by
  cases h with
  | fetch hp hlt _ | fetchFailed hp hlt =>
    exact ⟨(Option.some.inj hf).symm, _, hp, hlt⟩
  | _ => simp [fetches] at hf

def scanTarget (s : Scanner) : Option ℕ :=
  match s.phase with
  | .scan target | .fetched target _ | .sending target _ => some target
  | _ => none

section Runs

variable {cfg : ScannerConfig} {s : Scanner} {log : List Step}

theorem fits_of_run (hstart : ∀ h ∈ cfg.startHeight, h < 2 ^ 63)
    (h : (blockScanner cfg).Run log s) : Fits s := by
  refine h.reachable.invariant (I := Fits) ?_ fun _ _ _ hs hstep =>
    fits_step hstart hs (steps_of_step hstep)
  rintro s ⟨persisted, hp, rfl⟩
  exact ⟨by simp [start, Scanner.frontier], hp⟩

theorem ordered_of_run (hstart : ∀ h ∈ cfg.startHeight, h < 2 ^ 63)
    (h : (blockScanner cfg).Run log s) (hload : ∀ e ∈ log, e.act ≠ .load false) : Ordered s := by
  revert hload
  refine h.invariant (I := fun log s => (∀ e ∈ log, e.act ≠ .load false) → Ordered s) ?_ ?_
  · rintro s ⟨persisted, hp, rfl⟩ -
    exact ⟨by simp [start], by simp [start], by simp [start]⟩
  · intro log s act s' hrun ih hstep hload
    rw [List.forall_mem_cons] at hload
    exact ordered_step (fits_of_run hstart hrun) (ih hload.2) (steps_of_step hstep) hload.1

theorem account_of_run (hstart : ∀ h ∈ cfg.startHeight, h < 2 ^ 63)
    {l₁ l₂ : List Step} {b : Step} {c₀ : ℕ} (h : (blockScanner cfg).Run (l₁ ++ b :: l₂) s)
    (hload : ∀ e ∈ l₁ ++ b :: l₂, e.act ≠ .load false) (hb : boots b = some c₀)
    (hre : ∀ e ∈ l₁, (boots e).isSome → e.pre.persisted.isSome) : Account c₀ l₁ s := by
  have ho : ∀ {l : List Step} {s : Scanner}, (blockScanner cfg).Run (l ++ b :: l₂) s →
      (∀ e ∈ l, e.act ≠ .load false) → Ordered s := by
    intro l s hrun hl
    refine ordered_of_run hstart hrun fun e he => ?_
    rcases List.mem_append.1 he with he | he
    · exact hl e he
    · exact hload e (List.mem_append_right _ he)
  have hl₁ : ∀ e ∈ l₁, e.act ≠ .load false := fun e he => hload e (List.mem_append_left _ he)
  refine h.after (I := fun l s => (∀ e ∈ l, e.act ≠ .load false) →
    (∀ e ∈ l, (boots e).isSome → e.pre.persisted.isSome) → Account c₀ l s) ?_ ?_ hl₁ hre
  · intro _ _
    obtain ⟨hrun, hstep⟩ := h.of_mem rfl
    have ho' := ho (l := []) (hrun.step hstep) (by simp)
    have hpost : b.post.phase = .bootStore ∧ b.post.cursor = c₀ := by
      unfold boots at hb
      split at hb
      · exact ⟨‹_›, Option.some.inj hb⟩
      · exact ⟨‹_›, Option.some.inj hb⟩
      · cases hb
    refine ⟨fun p hp h h1 h2 => ?_, fun h h1 h2 => ?_, by simp [hpost.1], by simp [hpost.1]⟩
    · have := ho'.le (by simp [hpost.1]) p hp
      omega
    · omega
  · intro l s act s' hrun ih hstep hl hre
    rw [List.forall_mem_cons] at hl hre
    exact account_step (fits_of_run hstart hrun) (ho hrun hl.2) (ih hl.2 hre.2)
      (steps_of_step hstep) hre.1

theorem le_frontier_of_fetched (hstart : ∀ h ∈ cfg.startHeight, h < 2 ^ 63)
    (h : (blockScanner cfg).Run log s) (hload : ∀ e ∈ log, e.act ≠ .load false) {height : ℕ}
    (hf : Since (fun e => ∃ results, fetched e = some (height, results))
      (fun e => e.act = .crash) log) : height ≤ s.frontier := by
  refine h.since (I := fun log s => (∀ e ∈ log, e.act ≠ .load false) → height ≤ s.frontier)
    ?_ ?_ hf hload
  · rintro log s act s' - hstep ⟨results, hf⟩ -
    rw [fetched_step (steps_of_step hstep) hf]
  · intro log s act s' hrun ih hstep hc hload
    rw [List.forall_mem_cons] at hload
    exact Nat.le_trans (ih hload.2)
      (cursor_step (ordered_of_run hstart hrun hload.2) (steps_of_step hstep) hc).2

theorem scanTarget_of_run (h : (blockScanner cfg).Run log s) {target : ℕ} :
    s.scanTarget = some target →
      Since (fun e => ∃ tip, reported e = some tip ∧ target ≤ tip - cfg.confirmationDepth) cuts
        log := by
  refine h.since_of (I := fun s => s.scanTarget = some target) ?_ ?_
  · rintro s ⟨persisted, hp, rfl⟩ ht
    simp [start, scanTarget] at ht
  · intro log s act s' _ hstep ht
    cases steps_of_step hstep with
    | @tip height hp | @newBlock height hp =>
      simp only [scanTarget, Option.some.injEq] at ht
      exact .inl ⟨height.1, rfl, by omega⟩
    | fetch hp | matchLive hp | send hp | advance hp =>
      refine .inr ⟨by simp [cuts], ?_⟩
      simpa [scanTarget, hp] using ht
    | otherEvent hp => simp [scanTarget, hp] at ht
    | _ => simp [scanTarget, start, recover] at ht

end Runs

/-- What is so of the cursor after a run with this log. -/
structure CursorAccount (cfg : ScannerConfig) (log : List Step) (s : Scanner) : Prop where
  /-- Within a process the cursor only moves on. -/
  monotone : ∀ e ∈ log, e.act ≠ .crash → e.pre.cursor ≤ e.post.cursor
  persisted : s.phase ≠ .load → ∀ p ∈ s.persisted, p ≤ s.cursor
  /-- From a process that starts at `c₀`, through restarts from the persisted height, every height
  up to the cursor or to what is persisted has been handed over or skipped. -/
  accounted : ∀ l₁ b l₂ c₀, log = l₁ ++ b :: l₂ → boots b = some c₀ →
    (∀ e ∈ l₁, (boots e).isSome → e.pre.persisted.isSome) →
    ∀ h, c₀ < h → (h ≤ s.cursor ∨ ∃ p ∈ s.persisted, (h : ℤ) ≤ p) →
      HandedOver l₁ h ∨ Skipped l₁ h
  /-- A process asks for no height it has fetched, nor for one below. -/
  increasing : ∀ l₁ e l₂ h h', log = l₁ ++ e :: l₂ → fetches e = some h →
    Since (fun e => ∃ results, fetched e = some (h', results)) (fun e => e.act = .crash) l₂ →
    h' < h
  /-- A height is asked for only that far behind one a node has reported to the session. -/
  confirmed : ∀ l₁ e l₂ h, log = l₁ ++ e :: l₂ → fetches e = some h →
    Since (fun e => ∃ tip, reported e = some tip ∧ h ≤ tip - cfg.confirmationDepth) cuts l₂

/-- Every run of the scanner in which no load of the height fails, the heights fitting in an
`i64`, keeps its account. -/
theorem scan_cursor_accounting (cfg : ScannerConfig) (hstart : ∀ h ∈ cfg.startHeight, h < 2 ^ 63)
    {log : List Step} {s : Scanner} (h : (blockScanner cfg).Run log s)
    (hload : ∀ e ∈ log, e.act ≠ .load false) : CursorAccount cfg log s := by
  have hsplit : ∀ {l₁ e l₂}, log = l₁ ++ e :: l₂ → (blockScanner cfg).Run l₂ e.pre
      ∧ Steps cfg e.pre e.act e.post ∧ ∀ x ∈ l₂, x.act ≠ .load false := by
    intro l₁ e l₂ hlog
    obtain ⟨hr, hs⟩ := h.of_mem hlog
    exact ⟨hr, steps_of_step hs, fun x hx => hload x (by simp [hlog, hx])⟩
  refine ⟨?_, (ordered_of_run hstart h hload).le, ?_, ?_, ?_⟩
  · intro e he hc
    obtain ⟨l₁, l₂, hlog⟩ := List.append_of_mem he
    obtain ⟨hr, hs, hl⟩ := hsplit hlog
    exact (cursor_step (ordered_of_run hstart hr hl) hs hc).1
  · rintro l₁ b l₂ c₀ rfl hb hre height h1 h2
    have ha := account_of_run hstart h hload hb hre
    rcases h2 with h2 | ⟨p, hp, h2⟩
    · exact ha.cursor height h1 h2
    · exact ha.persisted p hp height h1 h2
  · intro l₁ e l₂ height height' hlog he hf
    obtain ⟨hr, hs, hl⟩ := hsplit hlog
    obtain ⟨rfl, target, hp, -⟩ := fetches_step hs he
    have := le_frontier_of_fetched hstart hr hl hf
    simp only [frontier, hp] at this
    omega
  · intro l₁ e l₂ height hlog he
    obtain ⟨hr, hs, -⟩ := hsplit hlog
    obtain ⟨rfl, target, hp, hlt⟩ := fetches_step hs he
    have htarget : e.pre.scanTarget = some target := by simp [scanTarget, hp]
    refine (scanTarget_of_run hr htarget).mono ?_
    rintro x ⟨tip, hx, hle⟩
    exact ⟨tip, hx, by omega⟩

def depositBlock : BlockResults where
  txsResults := some [[⟨"transfer", [⟨some "recipient", some "celestia1a"⟩]⟩]]
  finalizeBlockEvents := []
  beginBlockEvents := none
  endBlockEvents := none

def watchedRow : ForwardingRequest where
  forwardAddr := "celestia1a"
  destDomain := 0
  destRecipient := ""
  tokenId := ""
  customHookId := none
  customHookMetadata := none
  createdAt := ""

def someConfig : ScannerConfig where
  endpoints := 1
  startHeight := some 5
  confirmationDepth := 2
  timeout := 1800 * 10 ^ 9

/-- The deposit's block is handed over, the write of its height fails, and the process is started
again. -/
def crashedRun : List Act :=
  [.load true, .bootStore true, .connect true, .tip (some exampleTip),
    .fetch (some depositBlock), .matchLive (AList.singleton "celestia1a" watchedRow), .send,
    .advance false, .crash, .load true, .bootStore true]

theorem scan_cursor_accounting_crashed : ∃ log s,
    (blockScanner someConfig).exec crashedRun [] (start none) = some (log, s)
      ∧ s.cursor = 4 ∧ CursorAccount someConfig log s := by
  obtain ⟨log, s, hrun, hexec, h⟩ := Machine.exists_run_of_exec (blockScanner someConfig)
    crashedRun (start none) (fun log s => s.cursor == 4 && log.all fun e =>
      match e.act with
      | .load ok => ok
      | _ => true) ⟨none, by simp, rfl⟩ (by decide +kernel)
  simp only [Bool.and_eq_true, beq_iff_eq, List.all_eq_true] at h
  refine ⟨log, s, hexec, h.1, scan_cursor_accounting someConfig (by decide) hrun ?_⟩
  intro e he hl
  have := h.2 e he
  rw [hl] at this
  cases this

end Scanner

end ForwardingRelayer
