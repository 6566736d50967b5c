import ForwardingRelayer.Deposits
import ForwardingRelayer.Lib.Dedup

/-!
# The recipients of a block

An event that carries its recipient key once at the most credits the value that key has, if it can
be read, wherever the attribute stands. The deposits of a block are the first one of each
recipient credited.
-/

namespace ForwardingRelayer

/-- The events in the order they are gone through. -/
def BlockResults.events (results : BlockResults) : List AbciEvent :=
  (results.txsResults.getD []).flatten ++ results.finalizeBlockEvents
    ++ results.beginBlockEvents.getD [] ++ results.endBlockEvents.getD []

def recipients (results : BlockResults) : List String :=
  (extractDeposits results).map Deposit.recipient

/-- The `receiver` of a `coin_received` event, the `recipient` of a `transfer`. -/
def AbciEvent.Names (event : AbciEvent) (attr : EventAttribute) : Prop :=
  (event.kind = "coin_received" ∧ attr.keyStr = some "receiver")
    ∨ (event.kind = "transfer" ∧ attr.keyStr = some "recipient")

instance (event : AbciEvent) : DecidablePred event.Names :=
  fun _ => inferInstanceAs (Decidable (_ ∨ _))

/-- The readable values an event's recipient key has. -/
def credits (event : AbciEvent) : List String :=
  event.attributes.filterMap fun attr => if event.Names attr then attr.valueStr else none

/-- The recipient key is not repeated. -/
def AbciEvent.NamesOnce (event : AbciEvent) : Prop :=
  (event.attributes.filter (event.Names ·)).length ≤ 1

section Event

variable {event event' : AbciEvent} {key : String} {attr : EventAttribute}

theorem names_iff : event.Names attr ↔ ∃ key ∈ recipientKey event, attr.keyStr = some key := by
  unfold AbciEvent.Names recipientKey
  split
  · simp [*]
  · split <;> simp [*]

theorem names_of_key (h : recipientKey event = some key) :
    event.Names attr ↔ attr.keyStr = some key := by
  rw [names_iff, h]
  simp

/-- Of the attributes with the key the last one counts. -/
theorem fst_foldl_readAttribute (key : String) : ∀ (attributes : List EventAttribute)
    (read : Option String × Option String),
    (attributes.foldl (readAttribute key) read).1
      = (attributes.filter (·.keyStr = some key)).foldl (fun _ attr => attr.valueStr) read.1
  | [], _ => rfl
  | attr :: attributes, read => by
    rw [List.foldl_cons, fst_foldl_readAttribute key attributes]
    by_cases h : attr.keyStr = some key
    · rw [List.filter_cons_of_pos (by simpa using h), List.foldl_cons, readAttribute, if_pos h]
    · rw [List.filter_cons_of_neg (by simpa using h), readAttribute, if_neg h]
      split <;> rfl

theorem credits_eq_filterMap : credits event
    = (event.attributes.filter (event.Names ·)).filterMap EventAttribute.valueStr := by
  unfold credits
  rw [List.filterMap_filter]
  refine List.filterMap_congr fun attr _ => ?_
  simp only [decide_eq_true_eq]

theorem credits_eq (h : event.NamesOnce) :
    credits event = ((depositOf event).map Deposit.recipient).toList := by
  rw [credits_eq_filterMap]
  unfold AbciEvent.NamesOnce at h
  unfold depositOf
  rcases hkey : recipientKey event with _ | key
  · rw [List.filter_eq_nil_iff.2 fun attr _ => by simp [names_iff, hkey]]
    rfl
  · have hfst := fst_foldl_readAttribute key event.attributes (none, none)
    simp only [names_of_key hkey] at h ⊢
    rcases hread : event.attributes.foldl (readAttribute key) (none, none) with ⟨recipient, amount⟩
    rw [hread] at hfst
    rcases hattrs : event.attributes.filter (·.keyStr = some key) with _ | ⟨attr, rest⟩
    · rw [hattrs] at hfst ⊢
      obtain rfl : recipient = none := hfst
      rfl
    · rw [hattrs, List.length_cons] at h
      obtain rfl : rest = [] := List.length_eq_zero_iff.1 (by omega)
      rw [hattrs] at hfst ⊢
      obtain rfl : recipient = attr.valueStr := hfst
      rw [List.filterMap_cons]
      rcases attr.valueStr with _ | r <;> rfl

theorem mem_credits {r : String} :
    r ∈ credits event ↔ ∃ attr ∈ event.attributes, event.Names attr ∧ attr.valueStr = some r := by
  simp [credits, List.mem_filterMap]

theorem credits_eq_of_perm (h : event.NamesOnce) (hkind : event.kind = event'.kind)
    (hp : event.attributes.Perm event'.attributes) :
    credits event = credits event' := by
  have hnames : event.Names = event'.Names := by
    unfold AbciEvent.Names
    rw [hkind]
  have hlen : (credits event).length ≤ 1 := by
    rw [credits_eq h]
    rcases depositOf event with _ | d <;> simp
  have hperm : (credits event).Perm (credits event') := by
    unfold credits
    simp only [hnames]
    exact hp.filterMap _
  rcases hc : credits event with _ | ⟨r, rest⟩
  · rw [hc] at hperm
    exact hperm.nil_eq
  · rw [hc, List.length_cons] at hlen
    obtain rfl : rest = [] := List.length_eq_zero_iff.1 (by omega)
    rw [hc] at hperm
    exact (List.perm_singleton.1 hperm.symm).symm

end Event

theorem depositsFromEvents_eq (events : List AbciEvent) :
    depositsFromEvents events
      = (events.filterMap depositOf).foldl (List.pushNew Deposit.recipient) [] := by
  unfold depositsFromEvents
  rw [List.foldl_filterMap]
  refine List.foldl_ext _ _ _ fun deposits event _ => ?_
  unfold pushDeposit
  rcases depositOf event with _ | deposit <;> rfl

/-- The recipients are the first occurrences of what the events credit. -/
theorem recipients_eq {results : BlockResults} (h : ∀ e ∈ results.events, e.NamesOnce) :
    recipients results = (results.events.flatMap credits).eraseDups := by
  have hcredits : (results.events.filterMap depositOf).map Deposit.recipient
      = results.events.flatMap credits := by
    rw [List.map_filterMap, List.filterMap_eq_flatMap_toList]
    exact List.flatMap_congr fun e he => (credits_eq (h e he)).symm
  change (depositsFromEvents results.events).map Deposit.recipient = _
  rw [depositsFromEvents_eq, List.map_foldl_pushNew _ (by simp), hcredits, List.map_nil,
    List.nil_append]

/-- What may differ between two blocks that have the same recipients. -/
inductive Varied : List AbciEvent → List AbciEvent → Prop
  | attributeOrder {events events' : List AbciEvent} :
      List.Forall₂ (fun e e' => e.kind = e'.kind ∧ e.attributes.Perm e'.attributes)
        events events' → Varied events events'
  | otherEvent {before after : List AbciEvent} {e : AbciEvent} :
      e.kind ≠ "coin_received" → e.kind ≠ "transfer" →
      Varied (before ++ after) (before ++ e :: after)
  | otherAttribute {before after : List AbciEvent} {kind : String} {attr : EventAttribute}
      {as bs : List EventAttribute} :
      ¬ AbciEvent.Names ⟨kind, as ++ bs⟩ attr →
      Varied (before ++ ⟨kind, as ++ bs⟩ :: after) (before ++ ⟨kind, as ++ attr :: bs⟩ :: after)
  | repeated {before after : List AbciEvent} {e : AbciEvent} :
      (∀ r ∈ credits e, ∃ e' ∈ before, r ∈ credits e') →
      Varied (before ++ after) (before ++ e :: after)

theorem Varied.eraseDups_credits {events events' : List AbciEvent} (h : Varied events events')
    (hnames : ∀ e ∈ events, e.NamesOnce) :
    (events.flatMap credits).eraseDups = (events'.flatMap credits).eraseDups := by
  cases h with
  | attributeOrder h =>
    refine congrArg List.eraseDups ?_
    induction h with
    | nil => rfl
    | cons he _ ih =>
      rw [List.forall_mem_cons] at hnames
      rw [List.flatMap_cons, List.flatMap_cons, ih hnames.2,
        credits_eq_of_perm hnames.1 he.1 he.2]
  | @otherEvent before after e hreceived htransfer =>
    have hnil : credits e = [] := by simp [credits, AbciEvent.Names, hreceived, htransfer]
    simp [List.flatMap_append, hnil]
  | @otherAttribute before after kind attr as bs h =>
    have heq : credits ⟨kind, as ++ attr :: bs⟩ = credits ⟨kind, as ++ bs⟩ := by
      have hother : ¬ AbciEvent.Names ⟨kind, as ++ attr :: bs⟩ attr := h
      simp only [credits, List.filterMap_append, List.filterMap_cons, if_neg hother]
      rfl
    simp [List.flatMap_append, heq]
  | @repeated before after e h =>
    rw [List.flatMap_append, List.flatMap_append, List.flatMap_cons]
    refine List.eraseDups_append_congr ?_
    have hnil : (credits e).filter (· ∉ before.flatMap credits) = [] := by
      refine List.filter_eq_nil_iff.2 fun r hr => ?_
      simpa [List.mem_flatMap] using h r hr
    rw [List.filter_append, hnil, List.nil_append]

/-- The recipients of a block are the readable values of the recipient keys of its `coin_received`
and `transfer` events, each once, in the order they come first, and nothing else of the block
changes them. -/
theorem deposits_complete {results : BlockResults} (h : ∀ e ∈ results.events, e.NamesOnce) :
    (recipients results).Nodup
      ∧ (∀ r, r ∈ recipients results ↔ ∃ e ∈ results.events, ∃ attr ∈ e.attributes,
        ((e.kind = "coin_received" ∧ attr.keyStr = some "receiver")
          ∨ (e.kind = "transfer" ∧ attr.keyStr = some "recipient")) ∧ attr.valueStr = some r)
      ∧ recipients results = (results.events.flatMap credits).eraseDups
      ∧ ∀ results' : BlockResults, (∀ e ∈ results'.events, e.NamesOnce) →
        Varied results.events results'.events → recipients results' = recipients results := by
  refine ⟨?_, fun r => ?_, recipients_eq h, fun results' h' hv => ?_⟩
  · rw [recipients_eq h]
    exact List.nodup_eraseDups _
  · rw [recipients_eq h, List.mem_eraseDups, List.mem_flatMap]
    simp only [mem_credits, AbciEvent.Names]
  · rw [recipients_eq h, recipients_eq h', hv.eraseDups_credits h]

/-- A transfer as the bank module emits it, with the debit and the paired credit. -/
def transferBlock : BlockResults where
  txsResults := some [[⟨"coin_spent", [⟨some "spender", some "celestia1b"⟩]⟩,
    ⟨"coin_received", [⟨some "receiver", some "celestia1a"⟩, ⟨some "amount", some "5utia"⟩]⟩,
    ⟨"transfer", [⟨some "recipient", some "celestia1a"⟩, ⟨some "sender", some "celestia1b"⟩]⟩]]
  finalizeBlockEvents := []
  beginBlockEvents := none
  endBlockEvents := some [⟨"coin_received", [⟨some "receiver", none⟩]⟩]

theorem deposits_complete_transfer :
    recipients transferBlock = ["celestia1a"] ∧ "celestia1b" ∉ recipients transferBlock := by
  have hnames : ∀ e ∈ transferBlock.events, e.NamesOnce := by
    unfold AbciEvent.NamesOnce
    decide
  obtain ⟨-, -, heq, -⟩ := deposits_complete hnames
  rw [heq]
  decide

end ForwardingRelayer
