import HalLink.Toml.Reader
import HalLink.Toml.Strings
import HalLink.Toml.Value

/-!
TOML integers and floating-point numbers. Underscores may stand between digits. Integers fit 64 bits
with a sign; a float too large for double precision is no float, unless it is negative.
-/

set_option autoImplicit false

namespace HalLink.Toml

def digitsOf (p : Char → Bool) : Reader (List Char) := do
  let first ← satisfy p
  let others ← many do
    let _ ← optional (expect '_')
    satisfy p
  return first :: others

def digits : Reader (List Char) := digitsOf Char.isDigit

def decimalDigits : Reader (List Char) :=
  (do expect '0'; return ['0']) <|> (do
    let first ← satisfy fun c => c.isDigit && c != '0'
    let others ← many do
      let _ ← optional (expect '_')
      satisfy Char.isDigit
    return first :: others)

/-- Whether there is a minus sign; a plus sign says the same as no sign. -/
def sign : Reader Bool :=
  (do expect '-'; return true) <|> (do expect '+'; return false) <|> return false

def valueIn (base : Nat) (digits : List Char) : Nat :=
  digits.foldl (fun n c => base * n + (hexDigit? c).getD 0) 0

def signed (negative : Bool) (n : Nat) : Int := if negative then -n else n

def decimalInteger : Reader Int := do
  let negative ← sign
  let n := signed negative (valueIn 10 (← decimalDigits))
  if Int64.minValue.toInt ≤ n ∧ n ≤ Int64.maxValue.toInt then return n else failure

/-- Digits of another base after a zero and the letter of that base; they take no sign. -/
def basedInteger (letter : Char) (base : Nat) : Reader Int := do
  expectAll ['0', letter]
  let n := valueIn base (← digitsOf fun c => (hexDigit? c).any (· < base))
  if n ≤ Int64.maxValue.toInt then return n else failure

def integer : Reader Int :=
  basedInteger 'x' 16 <|> basedInteger 'o' 8 <|> basedInteger 'b' 2 <|> decimalInteger

/-- The least number that rounds to infinity in double precision: half a unit in the last place
above the largest finite number. -/
def overflowBound : Nat := Nat.pow 2 1024 - Nat.pow 2 970

/-- Whether `coefficient · 10 ^ exponent` reaches the bound. The number of digits settles this for
exponents of any size before a power is taken. -/
def overflows (coefficient : Nat) (exponent : Int) : Bool :=
  let places := (Nat.toDigits 10 coefficient).length + exponent
  if coefficient = 0 ∨ places < 300 then false
  else if 310 < places then true
  else overflowBound * Nat.pow 10 (-exponent).toNat ≤ coefficient * Nat.pow 10 exponent.toNat

def fraction : Reader (List Char) := do
  expect '.'
  digits

def exponent : Reader Int := do
  let _ ← satisfy fun c => c == 'e' || c == 'E'
  let negative ← sign
  return signed negative (valueIn 10 (← digits))

def finiteNumber : Reader Number := do
  let negative ← sign
  let whole ← decimalDigits
  let (part, power) ←
    (do return ([], ← exponent)) <|> (do return (← fraction, (← optional exponent).getD 0))
  let coefficient := valueIn 10 (whole ++ part)
  let power := power - part.length
  if !negative && overflows coefficient power then failure
  return .finite negative coefficient power

def specialNumber : Reader Number := do
  let negative ← sign
  (do expectAll ['i', 'n', 'f']; return .infinity negative) <|>
    (do expectAll ['n', 'a', 'n']; return .nan)

def number : Reader Number := finiteNumber <|> specialNumber

end HalLink.Toml
