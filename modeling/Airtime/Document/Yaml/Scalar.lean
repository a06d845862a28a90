import Airtime.Decimal.Reading

/-!
Scalars of YAML: plain ones, quoted ones, and blocks of lines. Inside a scalar a line break folds to a
blank, and a break followed by empty lines to those lines.
-/

namespace Airtime.Document.Yaml

structure Place where
  rest : List Char
  column : Nat

def isBlank (c : Char) : Bool := c = ' ' || c = '\t'

def isBreak (c : Char) : Bool := c = '\n'

def atGap : List Char → Bool
  | [] => true
  | c :: _ => isBlank c || isBreak c

def isPrintable (c : Char) : Bool :=
  let n := c.toNat
  n = 9 || n = 10 || n = 13 || (32 ≤ n && n ≤ 126) || n = 0x85 || (0xA0 ≤ n && n != 0xFEFF && n != 0xFFFE && n != 0xFFFF)

def normalizeBreaks : List Char → List Char
  | [] => []
  | '\r' :: '\n' :: rest => '\n' :: normalizeBreaks rest
  | '\r' :: rest => '\n' :: normalizeBreaks rest
  | c :: rest => c :: normalizeBreaks rest

def atMarker (p : Place) : Bool :=
  p.column = 0 && match p.rest with
    | '-' :: '-' :: '-' :: rest => atGap rest
    | '.' :: '.' :: '.' :: rest => atGap rest
    | _ => false

/-- Passes blanks, breaks and comments. `fresh` says that no token stands on the line yet: then a tab
is refused, outside brackets. Also gives whether the next token starts a line. -/
def skip (flow : Bool) : (comment fresh : Bool) → (column : Nat) → List Char → Option (Place × Bool)
  | _, fresh, column, [] => some (⟨[], column⟩, fresh)
  | true, fresh, column, c :: rest =>
    if isBreak c then skip flow false true 0 rest else skip flow true fresh (column + 1) rest
  | false, fresh, column, c :: rest =>
    if isBreak c then skip flow false true 0 rest
    else if c = ' ' then skip flow false fresh (column + 1) rest
    else if c = '\t' then
      if flow || !fresh then skip flow false fresh (column + 1) rest else none
    else if c = '#' then skip flow true fresh (column + 1) rest
    else some (⟨c :: rest, column⟩, fresh)

def Place.skip (p : Place) (flow fresh : Bool) : Option (Place × Bool) :=
  Yaml.skip flow false (fresh || p.column = 0) p.column p.rest

def flowIndicators : List Char := [',', '[', ']', '\x7b', '\x7d']

def indicators : List Char :=
  flowIndicators ++
    ['#', '&', '*', '!', '|', '>', '\x27', '\x22', '%', '@', '\x60']

def startsPlain (flow : Bool) : List Char → Bool
  | [] => false
  | '-' :: rest => match rest with
    | [] => false
    | c :: _ => !isBlank c && !isBreak c
  | c :: rest =>
    if c = '?' || c = ':' then !flow && !atGap rest
    else !isBlank c && !isBreak c && !indicators.contains c

/-- The part of a plain scalar on one line, last character first, with trailing blanks left out.
`gap` holds blanks that may turn out to be trailing. Inside brackets a colon before an indicator is
refused. -/
def plainLine (flow : Bool) (text gap : List Char) (column : Nat) :
    List Char → Option (List Char × Place)
  | [] => some (text, ⟨gap.reverse, column - gap.length⟩)
  | c :: rest =>
    let stop := some (text, ⟨gap.reverse ++ c :: rest, column - gap.length⟩)
    if isBreak c then stop
    else if c = '#' && !gap.isEmpty then stop
    else if c = ':' && atGap rest then stop
    else if flow && c = ':' && (rest.head?.any fun n => n = '?' || flowIndicators.contains n) then none
    else if flow && flowIndicators.contains c then stop
    else if isBlank c then plainLine flow text (c :: gap) (column + 1) rest
    else plainLine flow (c :: gap ++ text) [] (column + 1) rest

/-- The breaks before the next line that is not empty, and that line's first place; `none` when a
comment or the end comes first. -/
def nextLine (breaks : Nat) (column : Nat) : List Char → Option (Nat × Place)
  | [] => none
  | c :: rest =>
    if isBreak c then nextLine (breaks + 1) 0 rest
    else if isBlank c then nextLine breaks (column + 1) rest
    else if c = '#' || breaks = 0 then none
    else some (breaks, ⟨c :: rest, column⟩)

def folded (breaks : Nat) : List Char :=
  if breaks ≤ 1 then [' '] else List.replicate (breaks - 1) '\n'

/-- The lines of a plain scalar after its first: those indented more than `indent`, or all of them
inside brackets. A key may not stand on them. -/
def plainLines (flow : Bool) (indent : Int) : Nat → List Char → Place → Option (List Char × Place)
  | 0, _, _ => none
  | n + 1, chars, p =>
    match nextLine 0 p.column p.rest with
    | none => some (chars, p)
    | some (breaks, q) =>
      let starts := match q.rest with
        | c :: rest => !(flow && flowIndicators.contains c) && !(c = ':' && atGap rest)
        | [] => false
      if (!flow && (q.column : Int) ≤ indent) || atMarker q || !starts then some (chars, p)
      else
        match plainLine flow (folded breaks ++ chars) [] q.column q.rest with
        | none => none
        | some (line, r) => plainLines flow indent n line r

def escapes : List (Char × Char) :=
  [('0', '\x00'), ('a', '\x07'), ('b', '\x08'), ('t', '\t'), ('\t', '\t'), ('n', '\n'),
    ('v', '\x0b'), ('f', '\x0c'), ('r', '\x0d'), ('e', '\x1b'), (' ', ' '), ('\x22', '\x22'),
    ('/', '/'), ('\\', '\\'), ('N', '\u0085'), ('_', '\u00a0'), ('L', '\u2028'), ('P', '\u2029')]

def codeEscapes : List (Char × Nat) := [('x', 2), ('u', 4), ('U', 8)]

def coded? (digits : List Char) : Option Char := do
  let n ← Decimal.natural? 16 digits
  if n < 0xD800 ∨ (0xE000 ≤ n ∧ n < 0x110000) then some (Char.ofNat n) else none

/-- A quoted scalar while it is read. -/
structure Quoted where
  text : List Char := []
  /-- Blanks that vanish if a break follows. -/
  gap : List Char := []
  breaks : Nat := 0
  /-- Whether the first of the breaks was escaped, so that it leaves no blank. -/
  joined : Bool := false

namespace Quoted

def settle (q : Quoted) : List Char :=
  if q.joined then List.replicate (q.breaks - 1) '\n' ++ q.text
  else if q.breaks = 0 then q.gap ++ q.text
  else folded q.breaks ++ q.text

def push (q : Quoted) (c : Char) : Quoted := { text := c :: q.settle }

def blank (q : Quoted) (c : Char) : Quoted := if q.breaks = 0 then { q with gap := c :: q.gap } else q

def break_ (q : Quoted) : Quoted := { q with breaks := q.breaks + 1 }

def finish (q : Quoted) : String := String.ofList q.settle.reverse

end Quoted

def doubleQuoted : Nat → Quoted → Place → Option (String × Place)
  | 0, _, _ => none
  | n + 1, q, p =>
    if atMarker p then none
    else match p.rest with
      | [] => none
      | '\x22' :: rest => some (q.finish, ⟨rest, p.column + 1⟩)
      | '\\' :: '\n' :: rest =>
        doubleQuoted n { text := q.settle, breaks := 1, joined := true } ⟨rest, 0⟩
      | '\\' :: c :: rest =>
        match escapes.lookup c, codeEscapes.lookup c with
        | some e, _ => doubleQuoted n (q.push e) ⟨rest, p.column + 2⟩
        | none, some k =>
          if rest.length < k then none
          else match coded? (rest.take k) with
            | none => none
            | some e => doubleQuoted n (q.push e) ⟨rest.drop k, p.column + 2 + k⟩
        | none, none => none
      | c :: rest =>
        if isBreak c then doubleQuoted n q.break_ ⟨rest, 0⟩
        else if isBlank c then doubleQuoted n (q.blank c) ⟨rest, p.column + 1⟩
        else doubleQuoted n (q.push c) ⟨rest, p.column + 1⟩

def singleQuoted : Nat → Quoted → Place → Option (String × Place)
  | 0, _, _ => none
  | n + 1, q, p =>
    if atMarker p then none
    else match p.rest with
      | [] => none
      | '\x27' :: '\x27' :: rest => singleQuoted n (q.push '\x27') ⟨rest, p.column + 2⟩
      | '\x27' :: rest => some (q.finish, ⟨rest, p.column + 1⟩)
      | c :: rest =>
        if isBreak c then singleQuoted n q.break_ ⟨rest, 0⟩
        else if isBlank c then singleQuoted n (q.blank c) ⟨rest, p.column + 1⟩
        else singleQuoted n (q.push c) ⟨rest, p.column + 1⟩

inductive Chomping where
  | strip
  | clip
  | keep
  deriving DecidableEq

/-- The marks after the introducing character: chomping and indentation, each at most once. -/
def blockMarks (chomping : Option Chomping) (step : Option Nat) :
    List Char → Option Chomping × Option Nat × List Char
  | '+' :: rest =>
    if chomping.isNone then blockMarks (some .keep) step rest else (chomping, step, '+' :: rest)
  | '-' :: rest =>
    if chomping.isNone then blockMarks (some .strip) step rest else (chomping, step, '-' :: rest)
  | c :: rest =>
    if step.isNone ∧ '1' ≤ c ∧ c ≤ '9' then
      blockMarks chomping (some (c.toNat - '0'.toNat)) rest
    else (chomping, step, c :: rest)
  | [] => (chomping, step, [])

def afterHeader (cs : List Char) : Option (List Char) :=
  let rest := cs.dropWhile isBlank
  let rest := if rest.head? = some '#' ∧ rest.length < cs.length then rest.dropWhile (!isBreak ·) else rest
  match rest with
  | [] => some []
  | c :: rest => if isBreak c then some rest else none

def lines (current : List Char) : List Char → List (List Char)
  | [] => if current.isEmpty then [] else [current.reverse]
  | c :: rest => if isBreak c then current.reverse :: lines [] rest else lines (c :: current) rest

def leadingBlanks (line : List Char) : Nat := (line.takeWhile (· = ' ')).length

/-- The indentation of the first line that is not empty, or the longest run of blanks before it. -/
def detectIndent (longest : Nat) : List (List Char) → Nat
  | [] => longest
  | line :: rest =>
    let n := max longest (leadingBlanks line)
    if line.length = leadingBlanks line then detectIndent n rest else n

/-- Joins lines as they are, or folds breaks between lines that start with no blank. -/
def joinLines (fold : Bool) (text : List Char) (empty : Nat) (last : List Char) :
    List (List Char) → List Char
  | [] => text
  | line :: rest =>
    if line.isEmpty then joinLines fold text (empty + 1) last rest
    else
      let spaced (l : List Char) : Bool := l.head?.any isBlank
      let breaks := empty + 1
      let joint :=
        if last.isEmpty then List.replicate empty '\n'
        else if fold && !spaced last && !spaced line then folded breaks
        else List.replicate breaks '\n'
      joinLines fold (text ++ joint ++ line) 0 line rest

def blockScalar (fold : Bool) (indent : Int) (cs : List Char) : Option (String × Place) := do
  let (chomping, step, rest) := blockMarks none none cs
  let rest ← afterHeader rest
  let all := lines [] rest
  let width : Nat := match step with
    | some n => (max indent 0).toNat + n
    | none => max (detectIndent 0 all) (max (indent + 1) 1).toNat
  let taken := all.takeWhile fun l => width ≤ leadingBlanks l || l.length = leadingBlanks l
  let after := rest.drop (taken.foldl (fun n l => n + l.length + 1) 0)
  let block := taken.map (·.drop width)
  let empty := (block.reverse.takeWhile List.isEmpty).length
  let text := joinLines fold [] 0 [] block
  let unbroken := empty = 0 ∧ taken.length = all.length ∧ rest.getLast? ≠ some '\n'
  let breaks :=
    if text.isEmpty then if chomping = some .keep then empty else 0
    else match chomping.getD .clip with
      | .strip => 0
      | .clip => if unbroken then 0 else 1
      | .keep => if unbroken then 0 else empty + 1
  return (String.ofList (text ++ List.replicate breaks '\n'), ⟨after, 0⟩)

end Airtime.Document.Yaml
