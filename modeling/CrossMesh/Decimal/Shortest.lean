/-!
# Shortest decimals

The decimal with the fewest digits that still reads back to a given binary number.  A finite binary number is
`m · 2^q`; the decimals that read back to it lie between the halfway points to its neighbours, ends included when `m`
is even.  `Binary.shortest` tries the decimal grids from coarse to fine and takes the nearest point of the first grid
that has one inside, of two nearest the even one.
-/

namespace CrossMesh

/-- A positive number `m · 2^q`.  Below a power of two the neighbour is half as far away as above it. -/
structure Binary where
  m : Nat
  q : Int
  narrowBelow : Bool

/-- A number `digits · 10^exp`. -/
structure Decimal where
  digits : Nat
  exp : Int
  deriving DecidableEq

namespace Binary

/-- The magnitude of a finite number by its bits. -/
def ofBits (bits : UInt64) : Binary :=
  let exponent := ((bits >>> 52) &&& 0x7ff).toNat
  let fraction := (bits &&& 0xfffffffffffff).toNat
  if exponent = 0 then ⟨fraction, -1074, false⟩
  else ⟨0x10000000000000 + fraction, (exponent : Int) - 1075, fraction = 0 && 1 < exponent⟩

/-- The numerator of `n · 2^e` over the denominator that makes both powers whole: `2^(-e) · 10^(-k)`. -/
def scaled (n : Nat) (e k : Int) : Nat := n * Nat.pow 2 e.toNat * Nat.pow 10 (-k).toNat

/-- The numerator of `n · 10^k` over the same denominator. -/
def gridPoint (n : Nat) (e k : Int) : Nat := n * Nat.pow 10 k.toNat * Nat.pow 2 (-e).toNat

/-- Whether `n · 10^k` reads back to the number. -/
def readsBack (x : Binary) (n : Nat) (k : Int) : Bool :=
  let e := x.q - 2
  let low := scaled (if x.narrowBelow then 4 * x.m - 1 else 4 * x.m - 2) e k
  let high := scaled (4 * x.m + 2) e k
  let point := gridPoint n e k
  if x.m % 2 = 0 then low ≤ point && point ≤ high else low < point && point < high

/-- The point of the grid `10^k` next to the number that reads back to it, if there is one. -/
def onGrid? (x : Binary) (k : Int) : Option Nat :=
  let e := x.q - 2
  let value := scaled (4 * x.m) e k
  let unit := gridPoint 1 e k
  let below := value / unit
  let rest := value % unit
  let upper := 2 * rest > unit || (2 * rest = unit && below % 2 = 1)
  let near := if upper then below + 1 else below
  let far := if upper then below else below + 1
  if x.readsBack near k then some near else if x.readsBack far k then some far else none

/-- The first grid point met when the exponent goes down from `k`. -/
def searchFrom (x : Binary) (k : Int) : Nat → Decimal
  | 0 => ⟨scaled x.m x.q k, k⟩
  | steps + 1 =>
    match x.onGrid? k with
    | some n => ⟨n, k⟩
    | none => x.searchFrom (k - 1) steps

/-- The decimal with the fewest digits that reads back to the number. -/
def shortest (x : Binary) : Decimal := x.searchFrom 309 700

end Binary

/-- The text of an exponent, always with its sign. -/
def exponentText (e : Int) : String := if e < 0 then "e" ++ toString e else "e+" ++ toString e

/-- The digits of a decimal, positional as long as its leading digit stands between the places `-5` and `15`, and with
an exponent otherwise. -/
def Decimal.text (d : Decimal) : String :=
  let digits := Nat.toDigits 10 d.digits
  let point : Int := digits.length + d.exp
  let zeros (n : Int) := List.replicate n.toNat '0'
  String.ofList <|
    if 0 ≤ d.exp ∧ point ≤ 16 then digits ++ zeros d.exp ++ ['.', '0']
    else if 0 < point ∧ point ≤ 16 then digits.take point.toNat ++ '.' :: digits.drop point.toNat
    else if -5 < point ∧ point ≤ 0 then '0' :: '.' :: zeros (-point) ++ digits
    else
      digits.take 1 ++ (if digits.length = 1 then [] else '.' :: digits.drop 1) ++ (exponentText (point - 1)).toList

/-- The shortest text of a finite number. -/
def finiteText (x : Float) : String :=
  let bits := x.toBits
  let magnitude := bits &&& 0x7fffffffffffffff
  (if magnitude = bits then "" else "-") ++
    if magnitude = 0 then "0.0" else (Binary.ofBits magnitude).shortest.text

end CrossMesh
