import Airtime.Document.Basic

/-!
Scalars of TOML: strings of four kinds, numbers, booleans and dates. Each reader takes the text that is
left and gives the value with what follows it.
-/

namespace Airtime.Document.Toml

def isBlank (c : Char) : Bool := c = ' ' || c = '\t'

def isVisible (c : Char) : Bool := c = '\t' || (32 ≤ c.toNat && c.toNat ≠ 127)

def newline? : List Char → Option (List Char)
  | '\n' :: rest => some rest
  | '\r' :: '\n' :: rest => some rest
  | _ => none

def escapes : List (Char × Char) :=
  [('b', '\x08'), ('t', '\t'), ('n', '\n'), ('f', '\x0c'), ('r', '\x0d'), ('\x22', '\x22'),
    ('\\', '\\')]

def coded? (k : Nat) (cs : List Char) : Option (Char × List Char) := do
  let n ← if cs.length < k then none else Decimal.natural? 16 (cs.take k)
  if n < 0xD800 ∨ (0xE000 ≤ n ∧ n < 0x110000) then some (Char.ofNat n, cs.drop k) else none

def escaped? : List Char → Option (Char × List Char)
  | 'u' :: rest => coded? 4 rest
  | 'U' :: rest => coded? 8 rest
  | c :: rest => (escapes.lookup c).map (·, rest)
  | [] => none

/-- The rest of a string on one line, after the quote that opens it; `read` is what was read, last
character first. Only double quotes allow escapes. -/
def line? (quote : Char) : Nat → (read : List Char) → List Char → Option (String × List Char)
  | 0, _, _ => none
  | _ + 1, _, [] => none
  | n + 1, read, c :: rest =>
    if c = quote then some (String.ofList read.reverse, rest)
    else if c = '\\' ∧ quote = '\x22' then
      match escaped? rest with
      | none => none
      | some (e, rest) => line? quote n (e :: read) rest
    else if isVisible c then line? quote n (c :: read) rest
    else none

def skipBreaks : List Char → List Char
  | '\r' :: '\n' :: rest => skipBreaks rest
  | c :: rest => if isBlank c || c = '\n' then skipBreaks rest else c :: rest
  | [] => []

/-- What is left after a backslash at the end of a line: it joins the lines. -/
def joined? (cs : List Char) : Option (List Char) :=
  (newline? (cs.dropWhile isBlank)).map skipBreaks

/-- The rest of a string on many lines, after the three quotes that open it. One or two quotes stand
for themselves, even before the three that close the string. -/
def lines? (quote : Char) : Nat → (read : List Char) → List Char → Option (String × List Char)
  | 0, _, _ => none
  | _ + 1, _, [] => none
  | n + 1, read, c :: rest =>
    if c = quote then
      let quotes := (c :: rest).takeWhile (· = quote)
      let kept := if quotes.length < 3 then quotes else (quotes.drop 3).take 2
      let rest := (c :: rest).drop (min quotes.length 5)
      if quotes.length < 3 then lines? quote n (kept ++ read) rest
      else some (String.ofList (kept ++ read).reverse, rest)
    else if c = '\\' ∧ quote = '\x22' then
      match joined? rest with
      | some rest => lines? quote n read rest
      | none =>
        match escaped? rest with
        | none => none
        | some (e, rest) => lines? quote n (e :: read) rest
    else
      match newline? (c :: rest) with
      | some rest => lines? quote n ('\n' :: read) rest
      | none => if isVisible c then lines? quote n (c :: read) rest else none

def string? : List Char → Option (String × List Char)
  | [] => none
  | quote :: rest =>
    let n := rest.length + 1
    if quote ≠ '\x22' ∧ quote ≠ '\x27' then none
    else
      match rest with
      | a :: b :: body =>
        if a = quote ∧ b = quote then lines? quote n [] ((newline? body).getD body)
        else line? quote n [] rest
      | _ => line? quote n [] rest

def sign : List Char → List Char × List Char
  | '+' :: rest => (['+'], rest)
  | '-' :: rest => (['-'], rest)
  | cs => ([], cs)

/-- Digits of which single underscores may keep two apart; at least one. -/
def digits? (base : Nat) : List Char → Option (List Char × List Char)
  | [] => none
  | c :: rest =>
    if (Decimal.digitsValue? base [c]).isNone then none
    else
      let more := match rest with
        | '_' :: rest => digits? base rest
        | rest => some ((digits? base rest).getD ([], rest))
      more.map fun (ds, rest) => (c :: ds, rest)

/-- A decimal integer in front of a point or an exponent: no idle zero. -/
def whole? (cs : List Char) : Option (List Char × List Char) :=
  let (s, rest) := sign cs
  match rest with
  | '0' :: rest => some (s ++ ['0'], rest)
  | rest => (digits? 10 rest).map fun (ds, rest) => (s ++ ds, rest)

/-- A fraction, or an exponent, or both. A numeral too large for binary64 is refused unless it is
negative. -/
def float? (cs : List Char) : Option (Float × List Char) := do
  let (whole, rest) ← whole? cs
  let (fraction, rest) ← match rest with
    | '.' :: rest => (digits? 10 rest).map fun (ds, rest) => ('.' :: ds, rest)
    | rest => some ([], rest)
  let (exponent, rest) ← match rest with
    | e :: rest =>
      if e = 'e' ∨ e = 'E' then
        let (s, rest) := sign rest
        (digits? 10 rest).map fun (ds, rest) => ('e' :: s ++ ds, rest)
      else some ([], e :: rest)
    | [] => some ([], [])
  if fraction.isEmpty ∧ exponent.isEmpty then none
  else
    let numeral ← Decimal.Numeral.ofChars? (whole ++ fraction ++ exponent)
    let x := numeral.toFloat
    if x.isInf ∧ 0 < x then none else some (x, rest)

def specialFloat? (cs : List Char) : Option (Float × List Char) :=
  let (s, rest) := sign cs
  let signed (x : Float) : Float := if s = ['-'] then -x else x
  match rest with
  | 'i' :: 'n' :: 'f' :: rest => some (signed (1 / 0), rest)
  | 'n' :: 'a' :: 'n' :: rest => some (signed (0 / 0), rest)
  | _ => none

def integer? (cs : List Char) : Option (Int × List Char) := do
  let based (base : Nat) (rest : List Char) : Option (Int × List Char) := do
    let (ds, rest) ← digits? base rest
    return ((← Decimal.natural? base ds : Nat), rest)
  let (n, rest) ← match cs with
    | '0' :: 'x' :: rest => based 16 rest
    | '0' :: 'o' :: rest => based 8 rest
    | '0' :: 'b' :: rest => based 2 rest
    | cs => do
      let (ds, rest) ← whole? cs
      let (negative, ds) := Decimal.splitSign ds
      let n ← Decimal.natural? 10 ds
      some (if negative then -(n : Int) else n, rest)
  if Int64.minValue.toInt ≤ n ∧ n ≤ Int64.maxValue.toInt then some (n, rest) else none

def field? (k low high : Nat) (cs : List Char) : Option (Nat × List Char) := do
  let ds := cs.take k
  if ds.length = k ∧ ds.all Char.isDigit then
    let n ← Decimal.natural? 10 ds
    if low ≤ n ∧ n ≤ high then some (n, cs.drop k) else none
  else none

def char? (c : Char) : List Char → Option (List Char)
  | d :: rest => if d = c then some rest else none
  | [] => none

def daysOf (year month : Nat) : Nat :=
  let leap := year % 4 = 0 ∧ (year % 100 ≠ 0 ∨ year % 400 = 0)
  if month = 2 then if leap then 29 else 28
  else if [4, 6, 9, 11].contains month then 30
  else 31

def date? (cs : List Char) : Option (List Char) := do
  let (year, rest) ← field? 4 0 9999 cs
  let (month, rest) ← field? 2 1 12 (← char? '-' rest)
  let (_, rest) ← field? 2 1 (daysOf year month) (← char? '-' rest)
  return rest

def time? (cs : List Char) : Option (List Char) := do
  let (_, rest) ← field? 2 0 23 cs
  let (_, rest) ← field? 2 0 59 (← char? ':' rest)
  let (_, rest) ← field? 2 0 60 (← char? ':' rest)
  match rest with
  | '.' :: rest =>
    let ds := rest.takeWhile Char.isDigit
    if ds.isEmpty then none else some (rest.drop ds.length)
  | rest => some rest

def offset? : List Char → Option (List Char)
  | 'Z' :: rest => some rest
  | 'z' :: rest => some rest
  | c :: rest =>
    if c = '+' ∨ c = '-' then do
      let (_, rest) ← field? 2 0 23 rest
      let (_, rest) ← field? 2 0 59 (← char? ':' rest)
      return rest
    else some (c :: rest)
  | [] => some []

def moment? (cs : List Char) : Option (List Char) :=
  match date? cs with
  | none => time? cs
  | some (c :: rest) =>
    if c = 'T' ∨ c = 't' ∨ c = ' ' then
      match time? rest with
      | some rest => offset? rest
      | none => some (c :: rest)
    else some (c :: rest)
  | some [] => some []

/-- The value a date has for a reader that does not ask for dates: a record without known fields. -/
def moment : Document := .record [("", .null)]

def number? (cs : List Char) : Option (Document × List Char) :=
  match moment? cs, float? cs, specialFloat? cs with
  | some rest, _, _ => some (moment, rest)
  | none, some (x, rest), _ => some (.real x, rest)
  | none, none, some (x, rest) => some (.real x, rest)
  | none, none, none => (integer? cs).map fun (n, rest) => (.integer n, rest)

def words : List (List Char × Document) :=
  [("true".toList, .bool true), ("false".toList, .bool false)]

def scalar? (cs : List Char) : Option (Document × List Char) :=
  match string? cs with
  | some (s, rest) => some (.text s, rest)
  | none =>
    match words.find? fun w => w.1.isPrefixOf cs with
    | some (w, d) => some (d, cs.drop w.length)
    | none => number? cs

end Airtime.Document.Toml
