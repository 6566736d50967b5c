import ForwardingRelayer.Server

/-!
# Requests and answers on the wire

The JSON of the records, as `serde` writes and reads it, the bodies of the answers, the routes of
the server, and what the relayer makes of an answer. A value is what `serde_json` has parsed.
-/

namespace ForwardingRelayer

inductive Json
  | null
  | bool (b : Bool)
  | number (n : ℤ)
  /-- A number with a fraction or an exponent. -/
  | decimal (text : String)
  | string (s : String)
  | array (elements : List Json)
  | object (fields : List (String × Json))

namespace Json

def asString : Json → Option String
  | .string s => some s
  | _ => none

def asU32 : Json → Option UInt32
  | .number n => if 0 ≤ n ∧ n < 2 ^ 32 then some (UInt32.ofNat n.toNat) else none
  | _ => none

def asOptionString : Json → Option (Option String)
  | .null => some none
  | .string s => some (some s)
  | _ => none

variable {α : Type}

/-- A field of an object. Given twice, it is an error. -/
def required (read : Json → Option α) (fields : List (String × Json)) (name : String) : Option α :=
  match fields.filter fun field => field.1 == name with
  | [(_, value)] => read value
  | _ => none

/-- A field under `#[serde(default)]`. -/
def defaulted (fields : List (String × Json)) (name : String) : Option (Option String) :=
  match fields.filter fun field => field.1 == name with
  | [] => some none
  | [(_, value)] => value.asOptionString
  | _ => none

def nullable : Option String → Json
  | some s => .string s
  | none => .null

/-- A field that is skipped if it is `None`. -/
def skipped (name : String) : Option String → List (String × Json)
  | some s => [(name, .string s)]
  | none => []

end Json

open Json

namespace ForwardingRequest

def jsonFields (r : ForwardingRequest) : List (String × Json) :=
  [("forward_addr", .string r.forwardAddr), ("dest_domain", .number r.destDomain.toNat),
    ("dest_recipient", .string r.destRecipient), ("token_id", .string r.tokenId)]
    ++ skipped "custom_hook_id" r.customHookId
    ++ skipped "custom_hook_metadata" r.customHookMetadata
    ++ [("created_at", .string r.createdAt)]

def toJson (r : ForwardingRequest) : Json := .object r.jsonFields

/-- An object, with any other fields besides, or the fields' values in their order. -/
def fromJson : Json → Option ForwardingRequest
  | .object fields => do
    let forwardAddr ← required asString fields "forward_addr"
    let destDomain ← required asU32 fields "dest_domain"
    let destRecipient ← required asString fields "dest_recipient"
    let tokenId ← required asString fields "token_id"
    let customHookId ← defaulted fields "custom_hook_id"
    let customHookMetadata ← defaulted fields "custom_hook_metadata"
    let createdAt ← required asString fields "created_at"
    some { forwardAddr, destDomain, destRecipient, tokenId, customHookId, customHookMetadata,
           createdAt }
  | .array [forwardAddr, destDomain, destRecipient, tokenId, customHookId, customHookMetadata,
      createdAt] => do
    let forwardAddr ← forwardAddr.asString
    let destDomain ← destDomain.asU32
    let destRecipient ← destRecipient.asString
    let tokenId ← tokenId.asString
    let customHookId ← customHookId.asOptionString
    let customHookMetadata ← customHookMetadata.asOptionString
    let createdAt ← createdAt.asString
    some { forwardAddr, destDomain, destRecipient, tokenId, customHookId, customHookMetadata,
           createdAt }
  | _ => none

end ForwardingRequest

namespace CreateForwardingRequest

def jsonFields (req : CreateForwardingRequest) : List (String × Json) :=
  [("forward_addr", .string req.forwardAddr), ("dest_domain", .number req.destDomain.toNat),
    ("dest_recipient", .string req.destRecipient), ("token_id", .string req.tokenId),
    ("custom_hook_id", nullable req.customHookId),
    ("custom_hook_metadata", nullable req.customHookMetadata)]

def toJson (req : CreateForwardingRequest) : Json := .object req.jsonFields

/-- The values that are given in the place of their fields, if they are not defaulted. -/
def fromElements (forwardAddr destDomain destRecipient tokenId customHookId
    customHookMetadata : Json) : Option CreateForwardingRequest := do
  let forwardAddr ← forwardAddr.asString
  let destDomain ← destDomain.asU32
  let destRecipient ← destRecipient.asString
  let tokenId ← tokenId.asString
  let customHookId ← customHookId.asOptionString
  let customHookMetadata ← customHookMetadata.asOptionString
  some { forwardAddr, destDomain, destRecipient, tokenId, customHookId, customHookMetadata }

def fromJson : Json → Option CreateForwardingRequest
  | .object fields => do
    let forwardAddr ← required asString fields "forward_addr"
    let destDomain ← required asU32 fields "dest_domain"
    let destRecipient ← required asString fields "dest_recipient"
    let tokenId ← required asString fields "token_id"
    let customHookId ← defaulted fields "custom_hook_id"
    let customHookMetadata ← defaulted fields "custom_hook_metadata"
    some { forwardAddr, destDomain, destRecipient, tokenId, customHookId, customHookMetadata }
  | .array [a, b, c, d] => fromElements a b c d .null .null
  | .array [a, b, c, d, e] => fromElements a b c d e .null
  | .array [a, b, c, d, e, f] => fromElements a b c d e f
  | _ => none

end CreateForwardingRequest

inductive Body
  | empty
  | text (s : String)
  | json (value : Json)

namespace Answer

def body : Answer → Body
  | .response (.created request) | .response (.existing request)
    | .response (.removed request) => .json request.toJson
  | .response (.addressMismatch error expected got) =>
    .json (.object [("error", .string error), ("expected", .string expected), ("got", .string got)])
  | .response (.invalidParams error) | .badRequest error =>
    .json (.object [("error", .string error)])
  | .response .notFound => .empty
  | .requests rows => .json (.array (rows.map ForwardingRequest.toJson))
  | .address derived => .json (.object [("address", .string derived)])
  | .healthy => .text "OK"
  | .internalServerError (some error) => .text error
  | .internalServerError none => .empty

end Answer

inductive Method
  | get
  | post
  | delete

/-- What comes after a prefix. -/
def stripPrefix : List Char → List Char → Option (List Char)
  | [], s => some s
  | c :: cs, d :: s => if c = d then stripPrefix cs s else none
  | _ :: _, [] => none

/-- The request a call is routed to, by the router and the extractors of its handler. The path is
without its query; that of `GET /forwarding-address` is not read here. `percentDecode` is that of
the path's parameter. -/
def route (percentDecode : String → Option String) (method : Method) (path : String)
    (body : Body) : Option Request :=
  match method with
  | .get =>
    if path = "/health" then some .health
    else if path = "/forwarding-requests" then some .list
    else none
  | .post =>
    if path = "/forwarding-requests" then
      match body with
      | .json value => (CreateForwardingRequest.fromJson value).map .post
      | _ => none
    else none
  | .delete => do
    let segment ← stripPrefix "/forwarding-requests/".toList path.toList
    if segment ≠ [] ∧ '/' ∉ segment then
      let addr ← percentDecode (String.ofList segment)
      some (.delete addr)
    else none

/-- The path `complete_request` calls, at a backend without a path of its own. -/
def completePath (forwardAddr : String) : String := "/forwarding-requests/" ++ forwardAddr

def isSuccess (statusCode : ℕ) : Bool := 200 ≤ statusCode && statusCode < 300

/-- `fetch_forwarding_requests`, from the answer if there is one. -/
def fetchForwardingRequests (answer : Option (ℕ × Body)) : Option (List ForwardingRequest) :=
  match answer with
  | some (statusCode, .json (.array elements)) =>
    if isSuccess statusCode then elements.mapM ForwardingRequest.fromJson else none
  | _ => none

end ForwardingRelayer
