/-!
Decimal numerals read as binary64 numbers, rounded to nearest.
-/

namespace Airtime.Decimal

structure Numeral where
  negative : Bool
  digits : Nat
  exponent : Int
  deriving DecidableEq, Repr

/-- Below `10 ^ -400` everything rounds to zero and above `10 ^ 400` to infinity; between, the
quotient is rounded exactly. -/
def Numeral.toFloat (n : Numeral) : Float :=
  let top : Int := (Nat.toDigits 10 n.digits).length + n.exponent
  let magnitude : Float :=
    if n.digits = 0 ∨ top < -400 then 0
    else if 400 < top then 1 / 0
    else Float.ofScientific n.digits (n.exponent < 0) n.exponent.natAbs
  if n.negative then -magnitude else magnitude

def digitsValue? (base : Nat) (cs : List Char) : Option Nat :=
  cs.foldlM (fun n c => do
    let d ←
      if '0' ≤ c ∧ c ≤ '9' then some (c.toNat - '0'.toNat)
      else if 'a' ≤ c ∧ c ≤ 'f' then some (c.toNat - 'a'.toNat + 10)
      else if 'A' ≤ c ∧ c ≤ 'F' then some (c.toNat - 'A'.toNat + 10)
      else none
    if d < base then some (n * base + d) else none) 0

def natural? (base : Nat) (cs : List Char) : Option Nat :=
  if cs.isEmpty then none else digitsValue? base cs

def splitSign : List Char → Bool × List Char
  | '-' :: rest => (true, rest)
  | '+' :: rest => (false, rest)
  | cs => (false, cs)

/-- Digits with an optional point among or beside them and an optional exponent; a digit must stand
on one side of the point. -/
def Numeral.ofChars? (cs : List Char) : Option Numeral := do
  let (negative, cs) := splitSign cs
  let whole := cs.takeWhile Char.isDigit
  let rest := cs.dropWhile Char.isDigit
  let (fraction, rest) := match rest with
    | '.' :: r => (r.takeWhile Char.isDigit, r.dropWhile Char.isDigit)
    | r => ([], r)
  let digits ← natural? 10 (whole ++ fraction)
  let scale : Int ← match rest with
    | [] => some 0
    | e :: r =>
      if e = 'e' ∨ e = 'E' then
        let (minus, r) := splitSign r
        (natural? 10 r).map fun n => if minus then -(n : Int) else n
      else none
  return ⟨negative, digits, scale - fraction.length⟩

end Airtime.Decimal
