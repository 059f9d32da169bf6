import HalLink.Toml.Reader
import HalLink.Toml.Strings
import HalLink.Toml.Value

set_option autoImplicit false

namespace HalLink.Toml

def fixedDigits : (count value : Nat) → Reader Nat
  | 0, value => pure value
  | count + 1, value => do
    let c ← satisfy Char.isDigit
    fixedDigits count (10 * value + (c.toNat - '0'.toNat))

def twoDigits (low high : Nat) : Reader Nat := do
  let n ← fixedDigits 2 0
  if low ≤ n ∧ n ≤ high then return n else failure

def isLeapYear (year : Nat) : Bool := year % 4 = 0 && (year % 100 ≠ 0 || year % 400 = 0)

def daysIn (year month : Nat) : Nat :=
  if month = 2 then if isLeapYear year then 29 else 28
  else if month ∈ [4, 6, 9, 11] then 30
  else 31

def date : Reader Date := do
  let year ← fixedDigits 4 0
  expect '-'
  let month ← twoDigits 1 12
  expect '-'
  let day ← twoDigits 1 (daysIn year month)
  return ⟨year, month, day⟩

def secondFraction : Reader (List Char) := do
  expect '.'
  let first ← satisfy Char.isDigit
  return first :: (← run Char.isDigit)

def time : Reader Time := do
  let hour ← twoDigits 0 23
  expect ':'
  let minute ← twoDigits 0 59
  expect ':'
  let second ← twoDigits 0 60
  return ⟨hour, minute, second, (← optional secondFraction).getD []⟩

def offset : Reader Int :=
  (do let _ ← satisfy fun c => c == 'Z' || c == 'z'; return 0) <|> (do
    let sign ← satisfy fun c => c == '+' || c == '-'
    let hours ← twoDigits 0 23
    expect ':'
    let minutes ← twoDigits 0 59
    let east : Int := 60 * hours + minutes
    return if sign = '-' then -east else east)

def timeOfDate : Reader (Time × Option Int) := do
  let _ ← satisfy fun c => c == 'T' || c == 't' || c == ' '
  return (← time, ← optional offset)

def dateTime : Reader DateTime :=
  (do
    let d ← date
    match ← optional timeOfDate with
    | some (t, o) => return ⟨some d, some t, o⟩
    | none => return ⟨some d, none, none⟩) <|>
  (do return ⟨none, some (← time), none⟩)

end HalLink.Toml
