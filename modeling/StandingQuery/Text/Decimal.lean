/-! Floating-point numbers as decimals.

A finite number is a whole number times a power of two. The decimals that lie nearer to
it than half the way to its neighbours read back as the number. `shortest?` is the one
of them with the fewest digits, and of two such the nearer one. All comparisons are of
whole numbers. -/
namespace StandingQuery.Text

/-- The number `digits * 10 ^ exponent`. -/
structure Decimal where
  digits : Nat
  exponent : Int
deriving DecidableEq

/-- The number `mantissa * 2 ^ exponent`. -/
structure Dyadic where
  mantissa : Nat
  exponent : Int
  /-- The number below is only half as far away as the number above. -/
  narrow : Bool
deriving DecidableEq

namespace Dyadic

/-- The number of 64 bits, without its sign. -/
def ofBits (bits : Nat) : Dyadic :=
  let fraction : Nat := bits % (1 <<< 52)
  let power : Nat := (bits >>> 52) % (1 <<< 11)
  if power = 0 then ⟨fraction, -1074, false⟩
  else ⟨(1 <<< 52) + fraction, (power : Int) - 1075, fraction = 0 && 1 < power⟩

/-- A number of quarters of the last binary place, to be compared with `ofDecimal`. -/
def quarters (b : Dyadic) (k : Int) (n : Nat) : Nat :=
  (n <<< (b.exponent - 2).toNat) * Nat.pow 10 (-k).toNat

/-- The unit `10 ^ k` of a decimal, to be compared with `quarters`. -/
def unit (b : Dyadic) (k : Int) : Nat := Nat.pow 10 k.toNat <<< (2 - b.exponent).toNat

/-- A number of units `10 ^ k` reads back as `b`. Ends of the interval do if `b` is even. -/
def readsBack (b : Dyadic) (k : Int) (n : Nat) : Bool :=
  let low := b.quarters k (4 * b.mantissa - if b.narrow then 1 else 2)
  let high := b.quarters k (4 * b.mantissa + 2)
  let x := n * b.unit k
  if b.mantissa % 2 = 0 then low ≤ x && x ≤ high else low < x && x < high

/-- The number of units `10 ^ k` nearest to `b`, if one reads back. -/
def nearest? (b : Dyadic) (k : Int) : Option Nat :=
  let value := b.quarters k (4 * b.mantissa)
  let below := value / b.unit k
  let above := below + 1
  match b.readsBack k below, b.readsBack k above with
  | false, false => none
  | true, false => some below
  | false, true => some above
  | true, true =>
    let down := value - below * b.unit k
    let up := above * b.unit k - value
    some (if down < up ∨ (down = up ∧ below % 2 = 0) then below else above)

/-- The decimal with the fewest digits that reads back, unless the number is zero. -/
def shortest? (b : Dyadic) : Option Decimal :=
  if b.mantissa = 0 then none
  else
    (List.range 700).findSome? fun i : Nat =>
      let k : Int := 310 - (i : Int)
      (b.nearest? k).map (⟨·, k⟩)

end Dyadic

namespace Decimal

/-- A decimal as it is written: with a point if it has at most sixteen places before it
and at most four noughts behind it, and with an exponent and its sign otherwise. -/
def written (d : Decimal) : String :=
  let digits := (toString d.digits).toList
  let before : Int := digits.length + d.exponent
  let noughts (n : Int) := List.replicate n.toNat '0'
  let text :=
    if 0 ≤ d.exponent ∧ before ≤ 16 then digits ++ noughts d.exponent ++ ['.', '0']
    else if 0 < before ∧ before ≤ 16 then
      digits.take before.toNat ++ '.' :: digits.drop before.toNat
    else if -5 < before ∧ before ≤ 0 then ['0', '.'] ++ noughts (-before) ++ digits
    else
      let point := if digits.length = 1 then [] else ['.']
      let plus := if 0 < before then ['+'] else []
      digits.take 1 ++ point ++ digits.drop 1 ++ 'e' :: plus ++ (toString (before - 1)).toList
  .ofList text

end Decimal

/-- A finite floating-point number, not below zero, as a decimal. -/
def floatText (x : Float) : String :=
  match (Dyadic.ofBits x.toBits.toNat).shortest? with
  | some d => d.written
  | none => "0.0"

end StandingQuery.Text
