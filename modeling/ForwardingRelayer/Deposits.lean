import ForwardingRelayer.Lib.Text
import ForwardingRelayer.Request

/-!
# Deposits in a block

`extract_deposits` reads a block's results for the bank events that credit an address, and gives
one deposit a recipient.
-/

namespace ForwardingRelayer

/-- What `key_str` and `value_str` read of an attribute; bytes that are not UTF-8 read as none. -/
structure EventAttribute where
  keyStr : Option String
  valueStr : Option String

structure AbciEvent where
  kind : String
  attributes : List EventAttribute

structure BlockResults where
  /-- The events of each transaction. -/
  txsResults : Option (List (List AbciEvent))
  finalizeBlockEvents : List AbciEvent
  beginBlockEvents : Option (List AbciEvent)
  endBlockEvents : Option (List AbciEvent)

structure Deposit where
  recipient : String
  /-- Informational; a forward reads the balance itself. -/
  coins : List Balance
  deriving DecidableEq

/-- One coin of a list such as `1000utia,500uatom`. -/
def parseCoin (token : List Char) : Option Balance :=
  let token := Text.trim token
  let amount := token.takeWhile Char.isDigit
  let denom := token.dropWhile Char.isDigit
  if denom = [] ∨ amount = [] then none
  else some { denom := String.ofList denom, amount := String.ofList amount }

def parseCoins (amount : String) : List Balance :=
  (amount.toList.splitOn ',').filterMap parseCoin

/-- The attribute that names the credited address; other events are passed over. -/
def recipientKey (event : AbciEvent) : Option String :=
  if event.kind = "coin_received" then some "receiver"
  else if event.kind = "transfer" then some "recipient"
  else none

/-- The recipient and the amount read so far, and one attribute more. The last one counts. -/
def readAttribute (recipientKey : String) (read : Option String × Option String)
    (attr : EventAttribute) : Option String × Option String :=
  if attr.keyStr = some recipientKey then (attr.valueStr, read.2)
  else if attr.keyStr = some "amount" then (read.1, attr.valueStr)
  else read

def depositOf (event : AbciEvent) : Option Deposit :=
  match recipientKey event with
  | none => none
  | some key =>
    match event.attributes.foldl (readAttribute key) (none, none) with
    | (some recipient, amount) => some ⟨recipient, (amount.map parseCoins).getD []⟩
    | (none, _) => none

/-- The first deposit of each recipient stays. -/
def pushDeposit (deposits : List Deposit) (event : AbciEvent) : List Deposit :=
  match depositOf event with
  | none => deposits
  | some deposit =>
    if deposit.recipient ∈ deposits.map Deposit.recipient then deposits
    else deposits ++ [deposit]

def depositsFromEvents (events : List AbciEvent) : List Deposit :=
  events.foldl pushDeposit []

def extractDeposits (results : BlockResults) : List Deposit :=
  depositsFromEvents <|
    (results.txsResults.getD []).flatten ++ results.finalizeBlockEvents
      ++ results.beginBlockEvents.getD [] ++ results.endBlockEvents.getD []

end ForwardingRelayer
