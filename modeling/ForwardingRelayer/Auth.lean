import ForwardingRelayer.Lib.Text

/-!
# Endpoint specs

`CELESTIA_GRPC` and `CELESTIA_RPC` are comma-separated lists of `url|token` or `url`. A slice of one
is the list of its characters.
-/

namespace ForwardingRelayer

def isUrlSafe (c : Char) : Bool :=
  c.isAlphanum || c = '-' || c = '_' || c = '.' || c = '~'

/-- A gateway auth token restricted to URL-safe characters. -/
structure AuthToken where
  asStr : String
  nonempty : asStr ≠ ""
  urlSafe : asStr.toList.all isUrlSafe
  deriving DecidableEq

inductive AuthTokenError
  | empty
  | unsupported (bad : Char)
  deriving DecidableEq

/-- The error's text, with `{:?}` for a character. -/
def AuthTokenError.message (debug : Char → String) : AuthTokenError → String
  | empty => "must not be empty"
  | unsupported bad =>
    "contains unsupported character " ++ debug bad ++ "; only URL-safe characters are "
      ++ "allowed (ASCII alphanumerics and - _ . ~)"

def AuthToken.fromStr (s : String) : Except AuthTokenError AuthToken :=
  if hs : s = "" then .error .empty
  else
    match h : s.toList.find? (!isUrlSafe ·) with
    | some bad => .error (.unsupported bad)
    | none => .ok ⟨s, hs, by simpa [List.find?_eq_none] using h⟩

/-- One configured endpoint. -/
structure EndpointSpec where
  url : String
  token : Option AuthToken
  deriving DecidableEq

structure EndpointSpecError where
  context : String
  source : AuthTokenError
  deriving DecidableEq

def entries (spec : String) : List (List Char) :=
  ((spec.toList.splitOn ',').map Text.trim).filter (· ≠ [])

def splitEntry (entry : List Char) : List Char × List Char :=
  match Text.splitOnce ['|'] entry with
  | some (u, t) => (Text.trim u, Text.trim t)
  | none => (entry, [])

def parseEntry (entry : List Char) : Except EndpointSpecError EndpointSpec :=
  let (url, token) := splitEntry entry
  if token = [] then .ok ⟨String.ofList url, none⟩
  else
    match AuthToken.fromStr (String.ofList token) with
    | .ok token => .ok ⟨String.ofList url, some token⟩
    | .error e => .error ⟨"invalid auth token for endpoint " ++ String.ofList url, e⟩

def parseEndpointSpecs (spec : String) : Except EndpointSpecError (List EndpointSpec) :=
  (entries spec).mapM parseEntry

/-- For logging, without the tokens. -/
def redactEndpointSpecs (spec : String) : String :=
  ", ".intercalate ((entries spec).map fun entry => String.ofList (splitEntry entry).1)

end ForwardingRelayer
