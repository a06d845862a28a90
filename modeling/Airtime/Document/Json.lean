import Airtime.Document.Basic

/-!
Documents read from JSON. A number without point and exponent is an integer when it fits in 64 bits,
every other number is real. Real numbers are scaled in binary64 arithmetic: the digits that fit in 64
bits, then one product or quotient with a power of ten. So the last bit may differ from the nearest
number's.
-/

namespace Airtime.Document.Json

def skipBlank (cs : List Char) : List Char :=
  cs.dropWhile fun c => c = ' ' || c = '\n' || c = '\r' || c = '\t'

def unit? : List Char → Option (Nat × List Char)
  | a :: b :: c :: d :: rest => (Decimal.natural? 16 [a, b, c, d]).map (·, rest)
  | _ => none

/-- What follows a `u` escape: a code point, or a high and a low surrogate that name one. -/
def codePoint? (cs : List Char) : Option (Char × List Char) := do
  let (high, rest) ← unit? cs
  if 0xD800 ≤ high ∧ high < 0xDC00 then
    match rest with
    | '\\' :: 'u' :: rest =>
      let (low, rest) ← unit? rest
      if 0xDC00 ≤ low ∧ low < 0xE000 then
        return (Char.ofNat (0x10000 + (high - 0xD800) * 0x400 + (low - 0xDC00)), rest)
      else none
    | _ => none
  else if 0xDC00 ≤ high ∧ high < 0xE000 then none
  else return (Char.ofNat high, rest)

def simpleEscapes : List (Char × Char) :=
  [('"', '"'), ('\\', '\\'), ('/', '/'), ('b', '\x08'), ('f', '\x0c'), ('n', '\n'), ('r', '\r'),
    ('t', '\t')]

/-- The rest of a string after its opening quote; `read` holds what was read, last first. -/
def string? : Nat → List Char → List Char → Option (String × List Char)
  | 0, _, _ => none
  | _ + 1, _, [] => none
  | _ + 1, read, '"' :: rest => some (String.ofList read.reverse, rest)
  | n + 1, read, '\\' :: 'u' :: rest => do
    let (c, rest) ← codePoint? rest
    string? n (c :: read) rest
  | n + 1, read, '\\' :: c :: rest => do string? n ((← simpleEscapes.lookup c) :: read) rest
  | n + 1, read, c :: rest => if c.toNat < 32 then none else string? n (c :: read) rest

structure Significand where
  digits : Nat
  exponent : Int

/-- Integer digits that no longer fit count as powers of ten. -/
def Significand.whole (cs : List Char) : Significand :=
  let step (state : Significand × Bool) (c : Char) : Significand × Bool :=
    let (s, full) := state
    let next := s.digits * 10 + (c.toNat - '0'.toNat)
    if full || UInt64.size ≤ next then (⟨s.digits, s.exponent + 1⟩, true) else (⟨next, s.exponent⟩, false)
  (cs.foldl step (⟨0, 0⟩, false)).1

/-- Fraction digits end with the first one that no longer fits. -/
def Significand.fraction : Significand → List Char → Significand
  | s, [] => s
  | s, c :: cs =>
    let next := s.digits * 10 + (c.toNat - '0'.toNat)
    if UInt64.size ≤ next then s else fraction ⟨next, s.exponent - 1⟩ cs

def maxPower : Nat := 308

def power (n : Nat) : Float := Float.ofScientific 1 false n

/-- Tiny numbers take more than one quotient; numbers beyond the range are refused. -/
def scale? (x : Float) (exponent : Int) : Option Float :=
  if 0 ≤ exponent then
    if x == 0 then some x
    else if exponent.toNat ≤ maxPower then
      let y := x * power exponent.toNat
      if y.isInf then none else some y
    else none
  else
    let down := exponent.natAbs
    if down ≤ maxPower then some (x / power down)
    else if down ≤ 3 * maxPower then
      let y := x / power maxPower
      let down := down - maxPower
      some (if down ≤ maxPower then y / power down
        else y / power maxPower / power (down - maxPower))
    else some 0

def number? (cs : List Char) : Option (Document × List Char) := do
  let (negative, cs) := match cs with
    | '-' :: rest => (true, rest)
    | cs => (false, cs)
  let whole := cs.takeWhile Char.isDigit
  let rest := cs.drop whole.length
  if whole.isEmpty ∨ (whole.head? = some '0' ∧ whole.length ≠ 1) then none
  else
    let (fraction, rest) := match rest with
      | '.' :: rest => (some (rest.takeWhile Char.isDigit), rest.dropWhile Char.isDigit)
      | rest => (none, rest)
    let (exponent, rest) := match rest with
      | e :: rest =>
        if e = 'e' ∨ e = 'E' then
          let (minus, rest) := Decimal.splitSign rest
          (some (minus, rest.takeWhile Char.isDigit), rest.dropWhile Char.isDigit)
        else (none, e :: rest)
      | [] => (none, [])
    if fraction = some [] then none
    else
      let power : Int ← match exponent with
        | none => some 0
        | some (minus, ds) => (Decimal.natural? 10 ds).map fun n => if minus then -(n : Int) else n
      let s := (Significand.whole whole).fraction (fraction.getD [])
      let small := s.exponent = 0 ∧ (¬negative ∨ (0 < s.digits ∧ s.digits ≤ 1 <<< 63))
      if fraction.isNone ∧ exponent.isNone ∧ small then
        return (.integer (if negative then -(s.digits : Int) else s.digits), rest)
      else
        let x ← scale? (Float.ofNat s.digits) (s.exponent + power)
        return (.real (if negative then -x else x), rest)

def words : List (List Char × Document) :=
  [("null".toList, .null), ("true".toList, .bool true), ("false".toList, .bool false)]

mutual

def value? : Nat → List Char → Option (Document × List Char)
  | 0, _ => none
  | n + 1, cs =>
    match skipBlank cs with
    | '"' :: rest => (string? n [] rest).map fun (s, rest) => (.text s, rest)
    | '[' :: rest =>
      match skipBlank rest with
      | ']' :: rest => some (.list [], rest)
      | rest => (items? n rest).map fun (ds, rest) => (.list ds, rest)
    | '\x7b' :: rest =>
      match skipBlank rest with
      | '\x7d' :: rest => some (.record [], rest)
      | rest => (fields? n rest).map fun (fs, rest) => (.record fs, rest)
    | cs =>
      match words.find? fun w => w.1.isPrefixOf cs with
      | some (w, d) => some (d, cs.drop w.length)
      | none => number? cs

def items? : Nat → List Char → Option (List Document × List Char)
  | 0, _ => none
  | n + 1, cs => do
    let (d, rest) ← value? n cs
    match skipBlank rest with
    | ',' :: rest => (items? n rest).map fun (ds, rest) => (d :: ds, rest)
    | ']' :: rest => some ([d], rest)
    | _ => none

def fields? : Nat → List Char → Option (List (String × Document) × List Char)
  | 0, _ => none
  | n + 1, cs => do
    match skipBlank cs with
    | '"' :: rest =>
      let (name, rest) ← string? n [] rest
      match skipBlank rest with
      | ':' :: rest =>
        let (d, rest) ← value? n rest
        match skipBlank rest with
        | ',' :: rest => (fields? n rest).map fun (fs, rest) => ((name, d) :: fs, rest)
        | '\x7d' :: rest => some ([(name, d)], rest)
        | _ => none
      | _ => none
    | _ => none

end

def read? (s : String) : Option Document := do
  let cs := s.toList
  let (d, rest) ← value? (2 * cs.length + 2) cs
  if (skipBlank rest).isEmpty then some d else none

end Airtime.Document.Json
