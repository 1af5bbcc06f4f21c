import CrossMesh.Decimal.Shortest
import CrossMesh.Json.Basic

/-!
# JSON numbers

Reads a number in full, for a message that names it.  Digits are taken into a 64-bit number as long as they fit; the
digits of the whole part that do not fit count as powers of ten, and those of the fraction are dropped.  Only a whole
number of that range, written without fraction and exponent, is an integer.
-/

namespace CrossMesh

namespace Json

/-- A number as it is written. -/
structure Numeral where
  negative : Bool
  whole : List Nat
  fraction : Option (List Nat) := none
  /-- The sign of the exponent and its digits. -/
  exponent : Option (Bool × List Nat) := none

/-! ### Form -/

/-- The digits at the start of the text, and what stands behind them. -/
def spanDigits (s : List Char) : List Nat × List Char :=
  ((s.takeWhile Char.isDigit).map fun c => c.toNat - 48, s.dropWhile Char.isDigit)

/-- Reads one digit or more. -/
def readDigits (s : List Char) : Except ReadError (List Nat × List Char) :=
  match s with
  | [] => .error .ended
  | c :: _ => if c.isDigit then .ok (spanDigits s) else .error .malformed

/-- Reads the whole part of a number, in which only a zero alone starts with zero. -/
def readWhole (s : List Char) : Except ReadError (List Nat × List Char) := do
  let (digits, r) ← readDigits s
  match digits with
  | 0 :: _ :: _ => .error .malformed
  | _ => .ok (digits, r)

/-- Reads a fraction, if one comes next. -/
def readFraction : List Char → Except ReadError (Option (List Nat) × List Char)
  | '.' :: r => (readDigits r).map fun d => (some d.1, d.2)
  | s => .ok (none, s)

/-- Reads an exponent, if one comes next. -/
def readExponent : List Char → Except ReadError (Option (Bool × List Nat) × List Char)
  | [] => .ok (none, [])
  | c :: r =>
    if c = 'e' ∨ c = 'E' then
      match r with
      | '-' :: r => (readDigits r).map fun d => (some (true, d.1), d.2)
      | '+' :: r => (readDigits r).map fun d => (some (false, d.1), d.2)
      | r => (readDigits r).map fun d => (some (false, d.1), d.2)
    else .ok (none, c :: r)

/-- Reads a number, from behind its sign. -/
def readNumeral (negative : Bool) (s : List Char) : Except ReadError Numeral := do
  let (whole, s) ← readWhole s
  let (fraction, s) ← readFraction s
  let (exponent, _) ← readExponent s
  return { negative, whole, fraction, exponent }

/-! ### Value -/

/-- The greatest 64-bit number. -/
def maxWord : Nat := 0xffffffffffffffff

/-- The greatest exponent. -/
def maxExponent : Nat := 0x7fffffff

/-- Appends digits to `n` as long as the number fits in 64 bits, and answers also with how many are left. -/
def appendDigits (n : Nat) : List Nat → Nat × Nat
  | [] => (n, 0)
  | d :: digits => if 10 * n + d ≤ maxWord then appendDigits (10 * n + d) digits else (n, digits.length + 1)

/-- The significant digits of a number and the power of ten that its whole part and fraction give. -/
def Numeral.significand (x : Numeral) : Nat × Int :=
  let (n, left) := appendDigits 0 x.whole
  match x.fraction with
  | none => (n, left)
  | some digits =>
    let (n, dropped) := appendDigits n digits
    (n, (left : Int) - (digits.length - dropped : Nat))

def powerOfTen (e : Nat) : Float := Float.ofScientific 1 false e

/-- Divides by a power of ten, in steps of at most `10^308`. -/
def divideByPower (x : Float) (e : Nat) : Float :=
  if e ≤ 308 then x / powerOfTen e
  else if x == 0 then x
  else divideByPower (x / powerOfTen 308) (e - 308)
termination_by e

/-- Multiplies by a power of ten, unless the result is too large. -/
def multiplyByPower? (x : Float) (e : Nat) : Option Float :=
  if e ≤ 308 then
    let y := x * powerOfTen e
    if y.isInf then none else some y
  else if x == 0 then some x
  else none

/-- The magnitude of a number; none if it is too large. -/
def Numeral.magnitude? (x : Numeral) : Option Float :=
  let (n, e) := x.significand
  match x.exponent with
  | none => scale? n e
  | some (negative, digits) =>
    let given := digits.foldl (fun n d => 10 * n + d) 0
    if maxExponent < given then if n ≠ 0 ∧ !negative then none else some 0
    else scale? n (clamp (if negative then e - given else e + given))
where
  /-- The nearest exponent in range. -/
  clamp (e : Int) : Int := max (-(maxExponent : Int) - 1) (min maxExponent e)
  scale? (n : Nat) (e : Int) : Option Float :=
    if 0 ≤ e then multiplyByPower? (Float.ofNat n) e.toNat else some (divideByPower (Float.ofNat n) (-e).toNat)

/-- The number as an integer of 64 bits, if it is written as one. -/
def Numeral.integer? (x : Numeral) : Option Int :=
  match x.fraction, x.exponent with
  | none, none =>
    let (n, left) := appendDigits 0 x.whole
    if left ≠ 0 then none
    else if !x.negative then some n
    else if 0 < n ∧ n ≤ 0x8000000000000000 then some (-n)
    else none
  | _, _ => none

/-- What a message says of the number.  One that is too large is refused. -/
def Numeral.found (x : Numeral) : Except ReadError Found :=
  match x.integer? with
  | some n => .ok (.integer n)
  | none =>
    match x.magnitude? with
    | some y => .ok (.decimal (finiteText (if x.negative then -y else y)))
    | none => .error .malformed

end Json

end CrossMesh
