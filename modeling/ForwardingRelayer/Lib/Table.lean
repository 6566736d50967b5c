import Mathlib.Data.List.AList
import Mathlib.Tactic.Tauto

/-!
# Finite maps

Maps are Mathlib's `AList`s. `filterMap` keeps, of the entries of a map, those that `f` gives a
value, with that value; a `retain` is one that leaves the values as they are.
-/

namespace AList

variable {α : Type*} {β γ : Type*}

section FilterMap

variable (f : α → β → Option γ)

def entryMap (e : Sigma fun _ : α => β) : Option (Sigma fun _ : α => γ) :=
  (f e.1 e.2).map (⟨e.1, ·⟩)

theorem keys_filterMap_sublist : ∀ l : List (Sigma fun _ : α => β),
    (l.filterMap (entryMap f)).keys.Sublist l.keys
  | [] => by simp
  | e :: l => by
    rw [List.filterMap_cons]
    rcases h : entryMap f e with _ | e'
    · exact (keys_filterMap_sublist l).cons e.1
    · obtain ⟨c, -, rfl⟩ := Option.map_eq_some_iff.1 h
      exact (keys_filterMap_sublist l).cons_cons e.1

def filterMap (m : AList fun _ : α => β) : AList fun _ : α => γ where
  entries := m.entries.filterMap (entryMap f)
  nodupKeys := List.Nodup.sublist (keys_filterMap_sublist f m.entries) m.nodupKeys

variable [DecidableEq α]

theorem dlookup_filterMap {a : α} : ∀ {l : List (Sigma fun _ : α => β)}, l.NodupKeys →
    (l.filterMap (entryMap f)).dlookup a = (l.dlookup a).bind (f a)
  | [], _ => rfl
  | ⟨b, v⟩ :: l, hl => by
    have ih := dlookup_filterMap (a := a) (List.nodupKeys_of_nodupKeys_cons hl)
    rw [List.filterMap_cons]
    by_cases hab : a = b
    · subst hab
      have hnone : l.dlookup a = none :=
        List.dlookup_eq_none.2 (List.notMem_keys_of_nodupKeys_cons hl)
      rcases h : f a v with _ | c
      · simp [entryMap, h, ih, hnone]
      · simp [entryMap, h]
    · rw [List.dlookup_cons_ne _ _ hab, ← ih]
      rcases h : f b v with _ | c
      · simp [entryMap, h]
      · rw [show entryMap f ⟨b, v⟩ = some ⟨b, c⟩ by simp [entryMap, h]]
        exact List.dlookup_cons_ne _ (⟨b, c⟩ : Sigma fun _ : α => γ) hab

@[simp] theorem lookup_filterMap (m : AList fun _ : α => β) (a : α) :
    (m.filterMap f).lookup a = (m.lookup a).bind (f a) :=
  dlookup_filterMap f m.nodupKeys

theorem kerase_filterMap {a : α} : ∀ {l : List (Sigma fun _ : α => β)}, l.NodupKeys →
    (l.filterMap (entryMap f)).kerase a = (l.kerase a).filterMap (entryMap f)
  | [], _ => rfl
  | e :: l, hl => by
    have ih := kerase_filterMap (a := a) (List.nodupKeys_of_nodupKeys_cons hl)
    by_cases hae : a = e.1
    · have hnot : a ∉ (l.filterMap (entryMap f)).keys := fun hmem =>
        List.notMem_keys_of_nodupKeys_cons hl (hae ▸ (keys_filterMap_sublist f l).subset hmem)
      rw [List.kerase_cons_eq hae, List.filterMap_cons]
      rcases h : entryMap f e with _ | e'
      · exact List.kerase_of_notMem_keys hnot
      · obtain ⟨c, -, rfl⟩ := Option.map_eq_some_iff.1 h
        exact List.kerase_cons_eq hae
    · rw [List.kerase_cons_ne hae, List.filterMap_cons, List.filterMap_cons, ← ih]
      rcases h : entryMap f e with _ | e'
      · rfl
      · obtain ⟨c, -, rfl⟩ := Option.map_eq_some_iff.1 h
        exact List.kerase_cons_ne hae

theorem filterMap_erase (m : AList fun _ : α => β) (a : α) :
    (m.erase a).filterMap f = (m.filterMap f).erase a :=
  ext (kerase_filterMap f m.nodupKeys).symm

/-- What is inserted stays, with the value `f` gives it. -/
theorem filterMap_insert (m : AList fun _ : α => β) {a : α} {b : β} {c : γ} (h : f a b = some c) :
    (m.insert a b).filterMap f = (m.filterMap f).insert a c := by
  refine ext ?_
  have hentry : entryMap f ⟨a, b⟩ = some ⟨a, c⟩ := by simp [entryMap, h]
  change (⟨a, b⟩ :: m.entries.kerase a).filterMap (entryMap f)
    = ⟨a, c⟩ :: (m.entries.filterMap (entryMap f)).kerase a
  rw [List.filterMap_cons_some hentry, kerase_filterMap f m.nodupKeys]

end FilterMap

theorem filterMap_filterMap {δ : Type*} (f : α → β → Option γ) (g : α → γ → Option δ)
    (m : AList fun _ : α => β) :
    (m.filterMap f).filterMap g = m.filterMap fun a b => (f a b).bind (g a) := by
  refine ext ?_
  change (m.entries.filterMap (entryMap f)).filterMap (entryMap g) = m.entries.filterMap _
  rw [List.filterMap_filterMap]
  refine List.filterMap_congr fun e _ => ?_
  unfold entryMap
  rcases h : f e.1 e.2 with _ | c <;> simp [h]

/-- `HashMap::retain` by the key. -/
def retain (p : α → Bool) (m : AList fun _ : α => β) : AList fun _ : α => β :=
  m.filterMap fun a b => if p a then some b else none

theorem length_retain_le (p : α → Bool) (m : AList fun _ : α => β) :
    (m.retain p).entries.length ≤ m.entries.length := List.length_filterMap_le _ _

/-- The number of entries whose value is in `p`. -/
def countValues (p : β → Bool) (m : AList fun _ : α => β) : ℕ := m.entries.countP fun e => p e.2

theorem filterMap_retain (f : α → β → Option γ) (p : α → Bool) (m : AList fun _ : α => β) :
    (m.retain p).filterMap f = (m.filterMap f).retain p := by
  rw [retain, retain, filterMap_filterMap, filterMap_filterMap]
  congr 1
  funext a b
  by_cases hp : p a
  · simp [hp]
  · simp [hp]

variable [DecidableEq α]

theorem lookup_retain (p : α → Bool) (m : AList fun _ : α => β) (a : α) :
    (m.retain p).lookup a = if p a then m.lookup a else none := by
  rw [retain, lookup_filterMap]
  rcases m.lookup a with _ | b <;> by_cases h : p a <;> simp [h]

/-- The keys of a map built from a list, of each key the last. -/
theorem mem_foldl_insert (key : β → α) {a : α} : ∀ (l : List β) (m : AList fun _ : α => β),
    a ∈ l.foldl (fun m b => m.insert (key b) b) m ↔ a ∈ m ∨ a ∈ l.map key
  | [], m => by simp
  | b :: l, m => by
    rw [List.foldl_cons, mem_foldl_insert key l, mem_insert, List.map_cons, List.mem_cons]
    tauto

theorem of_lookup_foldl_insert (key : β → α) {a : α} {b : β} : ∀ {l : List β}
    {m : AList fun _ : α => β}, (l.foldl (fun m b => m.insert (key b) b) m).lookup a = some b →
      m.lookup a = some b ∨ (b ∈ l ∧ key b = a)
  | [], _, h => .inl h
  | c :: l, m, h => by
    rw [List.foldl_cons] at h
    rcases of_lookup_foldl_insert key h with h | ⟨hb, hkey⟩
    · by_cases hc : a = key c
      · subst hc
        rw [lookup_insert] at h
        obtain rfl := Option.some.inj h
        exact .inr ⟨List.mem_cons_self, rfl⟩
      · rw [lookup_insert_ne hc] at h
        exact .inl h
    · exact .inr ⟨List.mem_cons_of_mem _ hb, hkey⟩

section Size

variable {m : AList fun _ : α => β} {a : α} {b : β} {p : β → Bool}

theorem length_erase_le : (m.erase a).entries.length ≤ m.entries.length :=
  (List.kerase_sublist a m.entries).length_le

theorem length_insert_le : (m.insert a b).entries.length ≤ m.entries.length + 1 := by
  rw [entries_insert, List.length_cons]
  exact Nat.succ_le_succ length_erase_le

theorem countValues_erase_le : (m.erase a).countValues p ≤ m.countValues p :=
  (List.kerase_sublist a m.entries).countP_le

theorem countValues_insert_le :
    (m.insert a b).countValues p ≤ m.countValues p + if p b then 1 else 0 := by
  rw [countValues, entries_insert, List.countP_cons]
  exact Nat.add_le_add_right countValues_erase_le _

theorem countValues_erase (h : m.lookup a = some b) (hb : p b) :
    (m.erase a).countValues p + 1 = m.countValues p := by
  have hmem : ⟨a, b⟩ ∈ m.entries := mem_lookup_iff.1 h
  obtain ⟨b', l₁, l₂, -, heq, herase⟩ := List.exists_of_kerase (List.mem_keys_of_mem hmem)
  obtain rfl : b = b' := m.nodupKeys.eq_of_mk_mem hmem (by simp [heq])
  have hrest : (m.erase a).entries = l₁ ++ l₂ := herase
  simp only [countValues, heq, hrest, List.countP_append, List.countP_cons, hb, if_true]
  omega

end Size

end AList
