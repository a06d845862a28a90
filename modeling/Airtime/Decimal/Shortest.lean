/-!
The shortest decimal that names a binary64 number: of the decimals that round to it, those with the
fewest digits, and of these the nearest. All steps are exact, on naturals.
-/

namespace Airtime.Decimal

def tens (n : Nat) : Nat := Nat.pow 10 n

structure Binary where
  mantissa : Nat
  exponent : Int

def Binary.ofBits? (bits : UInt64) : Option Binary :=
  let fraction := bits.toNat % (1 <<< 52)
  let field : Nat := (bits >>> 52).toNat % (1 <<< 11)
  if field = 2047 then none
  else if field = 0 then
    if fraction = 0 then none else some ⟨fraction, -1074⟩
  else some ⟨(1 <<< 52) + fraction, (field : Int) - 1075⟩

/-- The reals that round to a number, as multiples of `1 / den`: from `low` to `high`, the ends
included when `closed`. -/
structure Interval where
  low : Nat
  value : Nat
  high : Nat
  den : Nat
  closed : Bool

/-- Half a unit to each side; a quarter below a power of two, whose lower neighbours are closer. -/
def Binary.interval (b : Binary) : Interval :=
  let below := if b.mantissa = 1 <<< 52 ∧ b.exponent ≠ -1074 then 1 else 2
  let up := 1 <<< (b.exponent - 2).toNat
  { low := (4 * b.mantissa - below) * up
    value := 4 * b.mantissa * up
    high := (4 * b.mantissa + 2) * up
    den := 1 <<< (2 - b.exponent).toNat
    closed := b.mantissa % 2 = 0 }

def Interval.holds (c : Interval) (num den : Nat) : Bool :=
  let x := num * c.den
  if c.closed then c.low * den ≤ x && x ≤ c.high * den else c.low * den < x && x < c.high * den

def leading (num den : Nat) : Int :=
  let guess : Int := (Nat.toDigits 10 num).length - (Nat.toDigits 10 den).length
  if den * tens guess.toNat ≤ num * tens (-guess).toNat then guess else guess - 1

structure Scaled where
  digits : Nat
  exponent : Int
  deriving DecidableEq, Repr

/-- The point of the grid `10 ^ e` in the cell that lies nearest to its value, if there is one. -/
def Interval.onGrid? (c : Interval) (e : Int) : Option Scaled :=
  let up := tens e.toNat
  let down := tens (-e).toNat
  let lower := c.value * down / (c.den * up)
  let inside (n : Nat) : Bool := n != 0 && c.holds (n * up) down
  let nearLower := 2 * (c.value * down) ≤ (2 * lower + 1) * (c.den * up)
  match inside lower, inside (lower + 1) with
  | true, true => some ⟨if nearLower then lower else lower + 1, e⟩
  | true, false => some ⟨lower, e⟩
  | false, true => some ⟨lower + 1, e⟩
  | false, false => none

/-- The grids of one digit, two digits and so on; seventeen digits name every number. -/
def shortest (b : Binary) : Scaled :=
  let c := b.interval
  let top := leading c.value c.den
  ((List.range 17).findSome? fun (n : Nat) => c.onGrid? (top - n)).getD ⟨0, 0⟩

def Scaled.positional (s : Scaled) : String :=
  if 0 ≤ s.exponent then toString (s.digits * tens s.exponent.toNat)
  else
    let places := (-s.exponent).toNat
    let fraction := Nat.toDigits 10 (s.digits % tens places)
    let padded := List.replicate (places - fraction.length) '0' ++ fraction
    let kept := (padded.reverse.dropWhile (· == '0')).reverse
    let whole := toString (s.digits / tens places)
    if kept.isEmpty then whole else whole ++ "." ++ String.ofList kept

def text (x : Float) : String :=
  let bits := x.toBits
  if x.isNaN then "NaN"
  else
    let sign := if bits >>> 63 = 1 then "-" else ""
    if x.isInf then sign ++ "inf"
    else match Binary.ofBits? bits with
      | none => sign ++ "0"
      | some b => sign ++ (shortest b).positional

end Airtime.Decimal
