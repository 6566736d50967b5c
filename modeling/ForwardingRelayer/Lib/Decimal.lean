import Mathlib.Data.Int.Notation
import Mathlib.Data.List.Basic

/-!
# Decimal floats

`Decimal.parse` reads what Rust's `str::parse::<f64>` accepts, and `toFloat` rounds it.
-/

inductive Decimal
  /-- `digits` is the number without its point, which `exponent` accounts for. -/
  | finite (neg : Bool) (digits : ℕ) (exponent : ℤ)
  | infinite (neg : Bool)
  | nan
  deriving DecidableEq

namespace Decimal

def natOf (digits : List Char) : ℕ :=
  digits.foldl (fun n c => 10 * n + (c.toNat - '0'.toNat)) 0

def signed : List Char → Bool × List Char
  | '-' :: rest => (true, rest)
  | '+' :: rest => (false, rest)
  | s => (false, s)

/-- `('e' | 'E') Sign? Digit+`, or nothing. -/
def parseExponent : List Char → Option ℤ
  | [] => some 0
  | c :: rest =>
    let (neg, digits) := signed rest
    if (c = 'e' ∨ c = 'E') ∧ digits ≠ [] ∧ digits.all Char.isDigit then
      some (if neg then -natOf digits else natOf digits)
    else none

/-- `(Digit+ | Digit+ '.' Digit* | Digit* '.' Digit+) Exp?`. -/
def parseNumber (neg : Bool) (s : List Char) : Option Decimal :=
  let (int, rest) := s.span Char.isDigit
  let (frac, rest) :=
    match rest with
    | '.' :: r => r.span Char.isDigit
    | r => ([], r)
  if int = [] ∧ frac = [] then none
  else (parseExponent rest).map fun e => .finite neg (natOf (int ++ frac)) (e - frac.length)

def parse (s : List Char) : Option Decimal :=
  let (neg, rest) := signed s
  let lower := rest.map Char.toLower
  if lower = ['i', 'n', 'f'] ∨ lower = ['i', 'n', 'f', 'i', 'n', 'i', 't', 'y'] then
    some (.infinite neg)
  else if lower = ['n', 'a', 'n'] then some .nan
  else parseNumber neg rest

def toFloat : Decimal → Float
  | finite neg digits exponent =>
    let x :=
      match exponent with
      | .ofNat e => Float.ofScientific digits false e
      | .negSucc e => Float.ofScientific digits true (e + 1)
    if neg then -x else x
  | infinite neg => if neg then -(1.0 / 0.0) else 1.0 / 0.0
  | nan => 0.0 / 0.0

example : [['1', '0', '5'], ['-', '.', '5', 'e', '3'], ['.'], []].map parse
    = [some (.finite false 105 0), some (.finite true 5 2), none, none] := by
  decide

end Decimal
