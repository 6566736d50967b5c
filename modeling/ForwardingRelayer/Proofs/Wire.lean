import ForwardingRelayer.Proofs.Network
import ForwardingRelayer.Wire

/-!
# What is sent is what is read

A record is read from the fields it is written as, in any order and with any others among them. So
a relayer is given the table's rows as they are, a listed row can be posted as it is, and the
`DELETE` for it comes to its own row, its address being one of the alphabet of bech32.
-/

namespace ForwardingRelayer

open Json Network

section Fields

variable {fields known : List (String × Json)} {names : List String} {name : String} {v : Json}

/-- A field of the known ones is found among all, wherever it stands. -/
theorem filter_of_known (h : (fields.filter fun f => names.contains f.1).Perm known)
    (hname : name ∈ names) :
    (fields.filter fun f => f.1 == name).Perm (known.filter fun f => f.1 == name) := by
  have hsub : (fields.filter fun f => f.1 == name)
      = (fields.filter fun f => names.contains f.1).filter fun f => f.1 == name := by
    rw [List.filter_filter]
    refine List.filter_congr fun f _ => ?_
    rcases hf : f.1 == name with _ | _
    · rfl
    · simpa [beq_iff_eq.1 hf] using hname
  rw [hsub]
  exact h.filter _

theorem required_of_known {α : Type} {read : Json → Option α}
    (h : (fields.filter fun f => names.contains f.1).Perm known) (hname : name ∈ names)
    (hv : (known.filter fun f => f.1 == name) = [(name, v)]) :
    required read fields name = read v := by
  have hperm := filter_of_known h hname
  rw [hv, List.perm_singleton] at hperm
  rw [required, hperm]

/-- An optional field may be left out or be null. -/
theorem defaulted_of_known {s : Option String}
    (h : (fields.filter fun f => names.contains f.1).Perm known) (hname : name ∈ names)
    (hv : (known.filter fun f => f.1 == name) = skipped name s
      ∨ (known.filter fun f => f.1 == name) = [(name, nullable s)]) :
    defaulted fields name = some s := by
  have hperm := filter_of_known h hname
  rcases hv with hv | hv <;> rw [hv] at hperm <;> rcases s with _ | s
  · rw [defaulted, List.perm_nil.1 hperm]
  · rw [defaulted, List.perm_singleton.1 hperm]
    rfl
  · rw [defaulted, List.perm_singleton.1 hperm]
    rfl
  · rw [defaulted, List.perm_singleton.1 hperm]
    rfl

theorem filter_skipped (name : String) (s : Option String) :
    (skipped name s).filter (fun f => f.1 == name) = skipped name s := by
  cases s <;> simp [skipped]

theorem filter_skipped_of_ne {other : String} (h : other ≠ name) (s : Option String) :
    (skipped other s).filter (fun f => f.1 == name) = [] := by
  cases s <;> simp [skipped, h]

theorem asU32_toNat (n : UInt32) : asU32 (.number n.toNat) = some n := by
  have hlt := n.toNat_lt
  rw [asU32, if_pos ⟨by omega, by omega⟩, Int.toNat_natCast, UInt32.ofNat_toNat]

end Fields

namespace ForwardingRequest

def fieldNames : List String :=
  ["forward_addr", "dest_domain", "dest_recipient", "token_id", "custom_hook_id",
    "custom_hook_metadata", "created_at"]

variable {r : ForwardingRequest} {fields : List (String × Json)}

/-- A record is read from its fields in any order, whatever else there is. -/
theorem fromJson_of_perm
    (h : (fields.filter fun f => fieldNames.contains f.1).Perm r.jsonFields) :
    fromJson (.object fields) = some r := by
  rw [fromJson, @required_of_known _ _ _ _ (.string r.forwardAddr) _ _ h (by decide) ?_,
    @required_of_known _ _ _ _ (.number r.destDomain.toNat) _ _ h (by decide) ?_,
    @required_of_known _ _ _ _ (.string r.destRecipient) _ _ h (by decide) ?_,
    @required_of_known _ _ _ _ (.string r.tokenId) _ _ h (by decide) ?_,
    @defaulted_of_known _ _ _ _ r.customHookId h (by decide) (.inl ?_),
    @defaulted_of_known _ _ _ _ r.customHookMetadata h (by decide) (.inl ?_),
    @required_of_known _ _ _ _ (.string r.createdAt) _ _ h (by decide) ?_, asU32_toNat]
  · rfl
  all_goals
    simp [jsonFields, List.filter_append, filter_skipped, filter_skipped_of_ne]

theorem fromJson_toJson (r : ForwardingRequest) : fromJson r.toJson = some r := by
  refine fromJson_of_perm (List.Perm.of_eq (List.filter_eq_self.2 fun f hf => ?_))
  have hskipped : ∀ name s, f ∈ skipped name s → f.1 = name := by
    rintro name (_ | s) h
    · cases h
    · rw [List.mem_singleton.1 h]
  simp only [jsonFields, List.mem_append, List.mem_cons, List.not_mem_nil, or_false] at hf
  rcases hf with (((rfl | rfl | rfl | rfl) | hf) | hf) | rfl
  case inl.inl.inr => rw [hskipped _ _ hf]; rfl
  case inl.inr => rw [hskipped _ _ hf]; rfl
  all_goals rfl

theorem mapM_fromJson : ∀ rows : List ForwardingRequest,
    (rows.map toJson).mapM fromJson = some rows
  | [] => rfl
  | r :: rows => by
    rw [List.map_cons, List.mapM_cons, fromJson_toJson, mapM_fromJson rows]
    rfl

end ForwardingRequest

namespace CreateForwardingRequest

def fieldNames : List String :=
  ["forward_addr", "dest_domain", "dest_recipient", "token_id", "custom_hook_id",
    "custom_hook_metadata"]

/-- What posts a row again. -/
def ofRow (r : ForwardingRequest) : CreateForwardingRequest :=
  ⟨r.forwardAddr, r.destDomain, r.destRecipient, r.tokenId, r.customHookId, r.customHookMetadata⟩

variable {r : ForwardingRequest} {req : CreateForwardingRequest} {fields : List (String × Json)}

theorem fromJson_of_known {names : List String} {known : List (String × Json)}
    (h : (fields.filter fun f => names.contains f.1).Perm known) (hnames : fieldNames ⊆ names)
    (haddr : (known.filter fun f => f.1 == "forward_addr")
      = [("forward_addr", .string req.forwardAddr)])
    (hdomain : (known.filter fun f => f.1 == "dest_domain")
      = [("dest_domain", .number req.destDomain.toNat)])
    (hrecipient : (known.filter fun f => f.1 == "dest_recipient")
      = [("dest_recipient", .string req.destRecipient)])
    (htoken : (known.filter fun f => f.1 == "token_id") = [("token_id", .string req.tokenId)])
    (hhook : (known.filter fun f => f.1 == "custom_hook_id")
        = skipped "custom_hook_id" req.customHookId
      ∨ (known.filter fun f => f.1 == "custom_hook_id")
        = [("custom_hook_id", nullable req.customHookId)])
    (hmetadata : (known.filter fun f => f.1 == "custom_hook_metadata")
        = skipped "custom_hook_metadata" req.customHookMetadata
      ∨ (known.filter fun f => f.1 == "custom_hook_metadata")
        = [("custom_hook_metadata", nullable req.customHookMetadata)]) :
    fromJson (.object fields) = some req := by
  have hmem : ∀ name, name ∈ fieldNames → name ∈ names := fun name hname => hnames hname
  rw [fromJson, required_of_known h (hmem _ (by decide)) haddr,
    required_of_known h (hmem _ (by decide)) hdomain,
    required_of_known h (hmem _ (by decide)) hrecipient,
    required_of_known h (hmem _ (by decide)) htoken,
    defaulted_of_known h (hmem _ (by decide)) hhook,
    defaulted_of_known h (hmem _ (by decide)) hmetadata, asU32_toNat]
  rfl

theorem fromJson_of_perm
    (h : (fields.filter fun f => fieldNames.contains f.1).Perm req.jsonFields) :
    fromJson (.object fields) = some req :=
  fromJson_of_known h (fun _ h => h) rfl rfl rfl rfl (.inr rfl) (.inr rfl)

/-- A row's own fields are read as what posts it again. -/
theorem fromJson_of_row
    (h : (fields.filter fun f => ForwardingRequest.fieldNames.contains f.1).Perm r.jsonFields) :
    fromJson (.object fields) = some (ofRow r) := by
  refine fromJson_of_known h (by decide) ?_ ?_ ?_ ?_ (.inl ?_) (.inl ?_)
  all_goals
    simp [ForwardingRequest.jsonFields, List.filter_append, filter_skipped, filter_skipped_of_ne,
      ofRow]

end CreateForwardingRequest

section Route

theorem stripPrefix_append (s : List Char) : ∀ p : List Char, stripPrefix p (p ++ s) = some s
  | [] => rfl
  | c :: p => by rw [List.cons_append, stripPrefix, if_pos rfl, stripPrefix_append s p]

/-- A `DELETE` comes to the address its path ends in. -/
theorem route_completePath {percentDecode : String → Option String}
    (hdecode : ∀ s, '%' ∉ s.toList → percentDecode s = some s) {addr : String}
    (hne : addr.toList ≠ []) (hslash : '/' ∉ addr.toList) (hpercent : '%' ∉ addr.toList)
    (body : Body) :
    route percentDecode .delete (completePath addr) body = some (.delete addr) := by
  have hpath : (completePath addr).toList = "/forwarding-requests/".toList ++ addr.toList :=
    String.toList_append
  rw [route, hpath, stripPrefix_append, Option.bind_eq_bind, Option.bind_some,
    if_pos ⟨hne, hslash⟩, String.ofList_toList, hdecode addr hpercent]
  rfl

end Route

section Address

/-- The documented format of a digest, which has 32 bytes, and of twenty bytes in bech32: behind the
prefix and a `1` come 38 characters of the alphabet, six of them the checksum. -/
structure Crypto.Formats (C : Crypto) : Prop where
  length_sha256 : ∀ data, (C.sha256 data).length = 32
  bech32 : ∀ bytes, bytes.length = 20 → ∃ chars : List Char,
    (C.bech32 bytes).toList = "celestia".toList ++ ['1'] ++ chars
      ∧ chars.length = 38 ∧ ∀ c ∈ chars, c ∈ Bech32.charset

theorem Crypto.standard_formats : Crypto.standard.Formats := by
  refine ⟨Sha256.length_digest, fun bytes hbytes => ?_⟩
  obtain ⟨chars, heq, hlength, hchars⟩ := Bech32.exists_encode_eq "celestia".toList bytes
  have hgroups := @Bech32.length_regroup bytes 0 0 (by decide)
  exact ⟨chars, heq, by omega, hchars⟩

variable {C : Crypto}

/-- A derived address is the encoding of twenty bytes. -/
theorem bech32_of_derive (hC : C.Formats) {a : DeriveArgs} {addr : String}
    (h : a.derive C = .ok addr) : ∃ bytes, bytes.length = 20 ∧ addr = C.bech32 bytes := by
  obtain ⟨c, -, rfl⟩ := DeriveArgs.derive_eq_ok_iff.1 h
  refine ⟨_, List.length_take_of_le ?_, rfl⟩
  exact le_of_le_of_eq (by decide) (hC.length_sha256 _).symm

/-- None of an encoding's 47 characters has a meaning of its own in a path. -/
theorem isLower_or_isDigit (hC : C.Formats) {bytes : List UInt8} (hbytes : bytes.length = 20) :
    (C.bech32 bytes).toList.length = 47
      ∧ ∀ c ∈ (C.bech32 bytes).toList, c.isLower ∨ c.isDigit := by
  have hplain : ∀ l : List Char, (l.all fun c => c.isLower || c.isDigit) = true →
      ∀ c ∈ l, c.isLower ∨ c.isDigit := by
    intro l hl c hcl
    rw [← Bool.or_eq_true]
    exact List.all_eq_true.1 hl c hcl
  obtain ⟨chars, heq, hlength, hchars⟩ := hC.bech32 bytes hbytes
  rw [heq]
  refine ⟨by rw [List.length_append, hlength]; rfl, fun c hc => ?_⟩
  rcases List.mem_append.1 hc with hc | hc
  · exact hplain _ (by decide) c hc
  · exact hplain _ (by decide) c (hchars c hc)

end Address

section Table

/-- The rows of a list. -/
def Answer.listed : Answer → Option (List ForwardingRequest)
  | .requests rows => some rows
  | _ => none

variable {C : Crypto} {db : BackendStorage}

/-- In every table the calls can lead to, a row's address encodes twenty bytes, in 47 lower case
letters and digits. The `DELETE` for it, whose path holds it as it is, is routed to this address,
and removes this row and no other. -/
theorem rows_addressed {percentDecode : String → Option String} (hC : C.Formats)
    (h : (backend C).Reachable db)
    (hdecode : ∀ s, '%' ∉ s.toList → percentDecode s = some s) :
    ∀ r ∈ db.rows, (∃ bytes, bytes.length = 20 ∧ r.forwardAddr = C.bech32 bytes)
      ∧ r.forwardAddr.toList.length = 47
      ∧ (∀ c ∈ r.forwardAddr.toList, c.isLower ∨ c.isDigit)
      ∧ (∀ body, route percentDecode .delete (completePath r.forwardAddr) body
          = some (.delete r.forwardAddr))
      ∧ ∃ db', Backend.completeRequest db r.forwardAddr = (.removed r, db')
          ∧ ∀ r', r' ∈ db'.rows ↔ r' ∈ db.rows ∧ r' ≠ r := by
  intro r hr
  obtain ⟨bytes, hbytes, haddr⟩ := bech32_of_derive hC (derived_of_reachable C h r hr)
  obtain ⟨hlength, hchars⟩ := isLower_or_isDigit hC hbytes
  rw [← haddr] at hlength hchars
  refine ⟨⟨bytes, hbytes, haddr⟩, hlength, hchars, ?_, ?_⟩
  · have hno : ∀ c, ¬ (c.isLower ∨ c.isDigit) → c ∉ r.forwardAddr.toList := fun c hc hmem =>
      hc (hchars c hmem)
    exact route_completePath hdecode (List.ne_nil_of_length_pos (by omega)) (hno '/' (by decide))
      (hno '%' (by decide))
  · rcases completeRequest_cases db r.forwardAddr with ⟨r', hr', ha, db', hdel⟩ | ⟨hno, -⟩
    · rw [db.eq_of_forwardAddr_eq hr' hr ha] at hdel
      exact ⟨db', hdel⟩
    · exact absurd (List.mem_map_of_mem hr) hno

theorem rows_addressed_plain : ∃ db, (backend .standard).Reachable db ∧ plainRow ∈ db.rows
    ∧ plainRow.forwardAddr.toList.length = 47
    ∧ route some .delete (completePath plainRow.forwardAddr) .empty
      = some (.delete plainRow.forwardAddr)
    ∧ ∃ db', Backend.completeRequest db plainRow.forwardAddr = (.removed plainRow, db') := by
  have hrun : (backend .standard).Run [⟨.empty, .post "2024-01-15T10:30:00+00:00" plainRequest, _⟩]
      (Backend.createRequest .standard "2024-01-15T10:30:00+00:00" .empty plainRequest).2 :=
    .step (.init rfl) rfl
  have hmem : plainRow ∈
      (Backend.createRequest .standard "2024-01-15T10:30:00+00:00" .empty plainRequest).2.rows := by
    rw [plainRequest_created.2]
    exact List.mem_singleton_self _
  obtain ⟨-, hlength, -, hroute, db', hdel, -⟩ :=
    rows_addressed Crypto.standard_formats hrun.reachable (fun _ _ => rfl) plainRow hmem
  exact ⟨_, hrun.reachable, hmem, hlength, hroute _, db', hdel⟩

/-- The relayer reads the rows of a list, in their order, and takes no other answer for one. A row,
its fields in any order and with any others among them, is a `POST` that is answered with the row
and leaves the table as it is. -/
theorem rows_read (h : (backend C).Reachable db) :
    (∀ a : Answer, fetchForwardingRequests (some (a.statusCode, a.body)) = a.listed)
      ∧ ∀ r ∈ db.rows, ∀ fields,
        (fields.filter fun f => ForwardingRequest.fieldNames.contains f.1).Perm r.jsonFields →
        ∀ percentDecode, ∃ req,
          route percentDecode .post "/forwarding-requests" (.json (.object fields))
            = some (.post req)
          ∧ ∀ createdAt, Backend.createRequest C createdAt db req = (.existing r, db) := by
  refine ⟨fun a => ?_, fun r hr fields hfields percentDecode => ⟨.ofRow r, ?_, fun createdAt => ?_⟩⟩
  · cases a with
    | requests rows => exact ForwardingRequest.mapM_fromJson rows
    | response r => cases r <;> rfl
    | internalServerError error => cases error <;> rfl
    | _ => rfl
  · rw [route, if_pos rfl]
    exact congrArg (Option.map Request.post) (CreateForwardingRequest.fromJson_of_row hfields)
  · have hvalid : (CreateForwardingRequest.ofRow r).Valid C := derived_of_reachable C h r hr
    rcases createRequest_cases C createdAt db (.ofRow r) with
      ⟨hno, -⟩ | ⟨-, r', hr', ha, hpost⟩ | ⟨-, hno, -⟩
    · exact absurd hvalid hno
    · rwa [db.eq_of_forwardAddr_eq hr' hr ha] at hpost
    · exact absurd (List.mem_map_of_mem hr) hno

theorem rows_read_plain : ∃ db, (backend .standard).Reachable db ∧ plainRow ∈ db.rows
    ∧ ∃ req, route some .post "/forwarding-requests" (.json plainRow.toJson) = some (.post req)
      ∧ (Backend.createRequest .standard "2025-01-01T00:00:00+00:00" db req).1
        = .existing plainRow := by
  have hrun : (backend .standard).Run [⟨.empty, .post "2024-01-15T10:30:00+00:00" plainRequest, _⟩]
      (Backend.createRequest .standard "2024-01-15T10:30:00+00:00" .empty plainRequest).2 :=
    .step (.init rfl) rfl
  have hmem : plainRow ∈
      (Backend.createRequest .standard "2024-01-15T10:30:00+00:00" .empty plainRequest).2.rows := by
    rw [plainRequest_created.2]
    exact List.mem_singleton_self _
  obtain ⟨-, hread⟩ := rows_read hrun.reachable
  obtain ⟨req, hroute, hpost⟩ := hread plainRow hmem plainRow.jsonFields (.of_eq rfl) some
  exact ⟨_, hrun.reachable, hmem, req, hroute, congrArg Prod.fst (hpost _)⟩

end Table

end ForwardingRelayer
