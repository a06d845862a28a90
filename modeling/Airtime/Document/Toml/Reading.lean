import Airtime.Document.Toml.Scalar
import Airtime.Document.Toml.Tables

/-!
Documents read from TOML: lines of key and value under headers of tables.
-/

namespace Airtime.Document.Toml

def skipComment : List Char → List Char
  | '#' :: rest => rest.dropWhile isVisible
  | cs => cs

def skipSpace : Nat → List Char → List Char
  | 0, cs => cs
  | n + 1, cs =>
    match newline? (skipComment (cs.dropWhile isBlank)) with
    | some rest => skipSpace n rest
    | none => cs.dropWhile isBlank

def lineEnd? (cs : List Char) : Option (List Char) :=
  match skipComment (cs.dropWhile isBlank) with
  | [] => some []
  | rest => newline? rest

def isBareChar (c : Char) : Bool :=
  c.toNat < 128 && (c.isAlphanum || c = '-' || c = '_')

def keyPart? (cs : List Char) : Option (String × List Char) :=
  match cs with
  | '\x22' :: rest => line? '\x22' cs.length [] rest
  | '\x27' :: rest => line? '\x27' cs.length [] rest
  | cs =>
    let name := cs.takeWhile isBareChar
    if name.isEmpty then none else some (String.ofList name, cs.drop name.length)

def key? : Nat → List Char → Option (List String × List Char)
  | 0, _ => none
  | n + 1, cs => do
    let (part, rest) ← keyPart? (cs.dropWhile isBlank)
    match rest.dropWhile isBlank with
    | '.' :: rest => (key? n rest).map fun (parts, rest) => (part :: parts, rest)
    | rest => some ([part], rest)

def put (key : List String) (d : Document) (t : Tree) : Option Tree :=
  match key.getLast? with
  | none => none
  | some name => t.add name d key.dropLast

mutual

def value? : Nat → List Char → Option (Document × List Char)
  | 0, _ => none
  | n + 1, cs =>
    match cs with
    | '[' :: rest => items? n [] rest
    | '\x7b' :: rest =>
      match rest.dropWhile isBlank with
      | '\x7d' :: rest => some (.record [], rest)
      | rest => fields? n [] rest
    | cs => scalar? cs

/-- The items of a list after those read, up to the closing bracket. The last one may have a comma
after it. -/
def items? : Nat → List Document → List Char → Option (Document × List Char)
  | 0, _, _ => none
  | n + 1, done, cs =>
    match skipSpace cs.length cs with
    | ']' :: rest => some (.list done.reverse, rest)
    | rest => do
      let (d, rest) ← value? n rest
      match skipSpace rest.length rest with
      | ',' :: rest => items? n (d :: done) rest
      | ']' :: rest => some (.list (d :: done).reverse, rest)
      | _ => none

def fields? : Nat → Tree → List Char → Option (Document × List Char)
  | 0, _, _ => none
  | n + 1, t, cs => do
    let (key, rest) ← key? cs.length cs
    let (d, rest) ← value? n ((← char? '=' rest).dropWhile isBlank)
    let t ← put key d t
    match rest.dropWhile isBlank with
    | ',' :: rest => fields? n t rest
    | '\x7d' :: rest => some (t.toDocument, rest)
    | _ => none

end

abbrev Setting := List String × Document

/-- The settings under a header after those read, up to the next header. -/
def settings? : Nat → List Setting → List Char → Option (List Setting × List Char)
  | 0, _, _ => none
  | n + 1, done, cs =>
    match cs.dropWhile isBlank with
    | [] => some (done.reverse, [])
    | '[' :: rest => some (done.reverse, '[' :: rest)
    | c :: rest =>
      match lineEnd? (c :: rest) with
      | some rest => settings? n done rest
      | none => do
        let (key, rest) ← key? (cs.length + 1) (c :: rest)
        let (d, rest) ← value? (2 * cs.length + 2) ((← char? '=' rest).dropWhile isBlank)
        settings? n ((key, d) :: done) (← lineEnd? rest)

def fill (settings : List Setting) (t : Tree) : Option Tree :=
  settings.foldlM (fun t s => put s.1 s.2 t) t

/-- The header of a table, or of one more table of a list: `true` marks the latter. -/
def header? (cs : List Char) : Option ((Bool × List String) × List Char) :=
  match cs with
  | '[' :: '[' :: rest => do
    let (key, rest) ← key? (cs.length + 1) rest
    return ((true, key), ← lineEnd? (← char? ']' (← char? ']' rest)))
  | '[' :: rest => do
    let (key, rest) ← key? (cs.length + 1) rest
    return ((false, key), ← lineEnd? (← char? ']' rest))
  | _ => none

/-- The tables that headers name, added to those read. -/
def sections? : Nat → Tree → List Char → Option Tree
  | 0, _, _ => none
  | _ + 1, t, [] => some t
  | n + 1, t, cs => do
    let ((listed, key), rest) ← header? cs
    let (settings, rest) ← settings? (cs.length + 1) [] rest
    let name ← key.getLast?
    let change := if listed then Tree.append name (fill settings) else Tree.define name (fill settings)
    sections? n (← t.reach change key.dropLast) rest

def read? (s : String) : Option Document := do
  let cs := match s.toList with
    | '\ufeff' :: rest => rest
    | cs => cs
  let (settings, rest) ← settings? (cs.length + 1) [] cs
  let t ← sections? (cs.length + 1) (← fill settings []) rest
  return t.toDocument

end Airtime.Document.Toml
