import ForwardingRelayer.Auth

/-!
# The RPC URLs

An endpoint's token is spliced into its URL for the connection, the WebSocket URL is derived from
that one, and what is logged of it has the userinfo struck out.
-/

namespace ForwardingRelayer

/-- `://`. -/
def schemeSeparator : List Char := [':', '/', '/']

/-- From an HTTP or HTTPS URL. -/
def deriveWsUrl (rpcUrl : String) : String :=
  let base := Text.trimEndMatches ['/'] rpcUrl.toList
  let ws :=
    match base.dropPrefix? ("https".toList ++ schemeSeparator) with
    | some rest => "wss://" ++ String.ofList rest
    | none =>
      match base.dropPrefix? ("http".toList ++ schemeSeparator) with
      | some rest => "ws://" ++ String.ofList rest
      | none => String.ofList base
  ws ++ "/websocket"

/-- The authority ends at the first of these. -/
def endsAuthority (c : Char) : Bool := c = '/' || c = '?' || c = '#'

def redactUserinfo (url : String) : String :=
  match Text.splitOnce schemeSeparator url.toList with
  | none => url
  | some (scheme, rest) =>
    let authority := rest.takeWhile (!endsAuthority ·)
    let tail := rest.dropWhile (!endsAuthority ·)
    match Text.rsplitOnce '@' authority with
    | some (_, host) =>
      String.ofList scheme ++ "://***@" ++ String.ofList host ++ String.ofList tail
    | none => url

/-- The token goes into the password field, after an empty username. -/
def withAuthToken (url : String) (token : Option String) : Except String String :=
  match token with
  | none => .ok url
  | some token =>
    match Text.splitOnce schemeSeparator url.toList with
    | some (scheme, rest) =>
      .ok (String.ofList scheme ++ "://:" ++ token ++ "@" ++ String.ofList rest)
    | none => .error ("Invalid CometBFT RPC URL (expected scheme://host): " ++ url)

end ForwardingRelayer
