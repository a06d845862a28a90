import Airtime.Decimal.Reading

/-!
Structured data as it stands in a scenario file or in a message: scalars, lists and records. A plain
scalar, written without quotes in a format that has no types, is whatever its reader asks for.
-/

namespace Airtime

inductive Document where
  | null
  | bool (b : Bool)
  | integer (n : Int)
  | real (x : Float)
  | text (s : String)
  | plain (s : String)
  | list (items : List Document)
  | record (fields : List (String × Document))
  deriving Inhabited

namespace Document

def nullWords : List String := ["", "~", "null", "Null", "NULL"]
def trueWords : List String := ["true", "True", "TRUE"]
def falseWords : List String := ["false", "False", "FALSE"]
def infinityWords : List String := [".inf", ".Inf", ".INF"]
def nanWords : List String := [".nan", ".NaN", ".NAN"]

/-- Digits after the mark of their base, or decimal digits that do not start with an idle zero. -/
def magnitude? : List Char → Option Nat
  | '0' :: 'x' :: cs => Decimal.natural? 16 cs
  | '0' :: 'o' :: cs => Decimal.natural? 8 cs
  | '0' :: 'b' :: cs => Decimal.natural? 2 cs
  | '0' :: c :: cs => if (c :: cs).all Char.isDigit then none else Decimal.natural? 10 ('0' :: c :: cs)
  | cs => Decimal.natural? 10 cs

/-- A number without a sign, or after a plus sign. Nothing that is read from plain scalars is
negative. -/
def plainNatural? (s : String) : Option Nat :=
  match s.toList with
  | '+' :: cs => magnitude? cs
  | cs => magnitude? cs

/-- A numeral that is finite as a binary64 number, or one of the words for infinity and NaN. -/
def plainReal? (s : String) : Option Float :=
  let unsigned := match s.toList with
    | '+' :: rest => rest
    | cs => cs
  if infinityWords.contains (String.ofList unsigned) then some (1 / 0)
  else if infinityWords.any fun w => s == "-" ++ w then some (-1 / 0)
  else if nanWords.contains s then some (0 / 0)
  else if unsigned.head? = some '+' ∨ (unsigned.length ≠ s.length ∧ unsigned.head? = some '-') then
    none
  else
    match Decimal.Numeral.ofChars? unsigned with
    | none => none
    | some n => let x := n.toFloat; if x.isFinite then some x else none

def isNull : Document → Bool
  | null => true
  | plain s => nullWords.contains s
  | _ => false

def bool? : Document → Option Bool
  | bool b => some b
  | plain s =>
    if trueWords.contains s then some true
    else if falseWords.contains s then some false
    else none
  | _ => none

def integer? : Document → Option Int
  | integer n => some n
  | plain s => (plainNatural? s).map Int.ofNat
  | _ => none

def real? : Document → Option Float
  | real x => some x
  | integer n => some (Float.ofInt n)
  | plain s => plainReal? s
  | _ => none

def text? : Document → Option String
  | text s => some s
  | plain s => some s
  | _ => none

/-- A plain null is an empty list. -/
def list? : Document → Option (List Document)
  | list items => some items
  | plain s => if nullWords.contains s then some [] else none
  | _ => none

inductive Entry where
  | given (d : Document)
  | absent
  | ended

def lookup (name : String) : List (String × Document) → Entry
  | [] => .absent
  | (n, d) :: rest => if n = name then .given d else lookup name rest

def lookupAt (name : String) : List String → List Document → Entry
  | n :: names, d :: items => if n = name then .given d else lookupAt name names items
  | _, _ => .ended

/-- The fields of a record with the given names. Fields of other names are left aside, a field given
twice spoils the record. A list gives the fields in the order of `names`, and a plain null gives
none. -/
def entries? (names : List String) : Document → Option (String → Entry)
  | record fields =>
    if names.all fun n => (fields.countP fun f => f.1 == n) ≤ 1 then
      some fun n => lookup n fields
    else none
  | list items =>
    if items.length ≤ names.length then some fun n => lookupAt n names items else none
  | plain s => if nullWords.contains s then some fun _ => .absent else none
  | _ => none

end Document

end Airtime
