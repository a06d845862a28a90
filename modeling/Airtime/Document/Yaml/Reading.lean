import Airtime.Document.Basic
import Airtime.Document.Yaml.Scalar

/-!
Documents read from YAML: block and flow collections, scalars of every style, anchors and comments.
Plain scalars stay plain, since what they mean is up to their reader. A text holds one document; an
empty text is a plain null. Keys are scalars on one line.
-/

namespace Airtime.Document.Yaml

/-- How far the text was read, and the values that were given names. -/
structure Reader extends Place where
  anchors : List (String × Document) := []

namespace Reader

def goto (r : Reader) (p : Place) : Reader := { r with toPlace := p }

def pass (r : Reader) (n : Nat) : Reader := r.goto ⟨r.rest.drop n, r.column + n⟩

/-- Passes blanks, breaks and comments, inside brackets or not; also gives whether the next token
starts a line. -/
def skipWhere (r : Reader) (flow fresh : Bool) : Option (Reader × Bool) :=
  (r.toPlace.skip flow fresh).map fun (p, fresh) => (r.goto p, fresh)

def skip (r : Reader) : Option (Reader × Bool) := r.skipWhere false false

def skipFresh (r : Reader) : Option (Reader × Bool) := r.skipWhere false true

def skipInside (r : Reader) : Option Reader := (r.skipWhere true false).map Prod.fst

end Reader

def missing : Document := .plain ""

def quoted? (r : Reader) : Option (Option (String × Reader)) :=
  let n := r.rest.length + 1
  match r.rest with
  | '\x22' :: _ => (doubleQuoted n {} (r.pass 1).toPlace).map fun (s, p) => some (s, r.goto p)
  | '\x27' :: _ => (singleQuoted n {} (r.pass 1).toPlace).map fun (s, p) => some (s, r.goto p)
  | _ => some none

def isWordChar (c : Char) : Bool := c.isAlphanum || c = '-' || c = '_'

def anchorName? (r : Reader) : Option (String × Reader) :=
  let name := (r.rest.drop 1).takeWhile isWordChar
  let r := r.pass (name.length + 1)
  let ends := match r.rest with
    | [] => true
    | c :: _ => isBlank c || isBreak c || ['?', ':', ',', ']', '\x7d', '%', '@', '\x60'].contains c
  if name.isEmpty || !ends then none else some (String.ofList name, r)

def alias? (r : Reader) : Option (Document × Reader) := do
  let (name, r) ← anchorName? r
  return (← r.anchors.lookup name, r)

/-- Anchor and tag in front of a node; tags carry no meaning here. Gives the name of the anchor and
whether the node starts a line. -/
def properties (flow : Bool) : Nat → Option String → Bool → Reader → Option (Option String × Bool × Reader)
  | 0, _, _, _ => none
  | n + 1, anchor, fresh, r =>
    match r.rest with
    | '&' :: _ =>
      if anchor.isSome then none
      else match anchorName? r with
        | none => none
        | some (name, r) =>
          match r.skipWhere flow false with
          | none => none
          | some (r, crossed) => properties flow n (some name) (fresh && crossed || crossed) r
    | '!' :: _ =>
      let tag := r.rest.takeWhile fun c => !atGap [c] && !(flow && flowIndicators.contains c)
      match (r.pass tag.length).skipWhere flow false with
      | none => none
      | some (r, crossed) => properties flow n anchor (crossed || fresh && tag.isEmpty) r
    | _ => some (anchor, fresh, r)

def remember (anchor : Option String) (d : Document) (r : Reader) : Reader :=
  match anchor with
  | none => r
  | some name => { r with anchors := (name, d) :: r.anchors }

def keyText? : Document → Option String
  | .plain s => some s
  | .text s => some s
  | _ => none

mutual

def flowNode : Nat → Reader → Option (Document × Reader)
  | 0, _ => none
  | n + 1, r => do
    let (anchor, _, r) ← properties true (n + 1) none false r
    let (d, r) ← match r.rest with
      | '*' :: _ => if anchor.isSome then none else alias? r
      | '[' :: _ => flowItems n [] (r.pass 1)
      | '\x7b' :: _ => flowFields n [] (r.pass 1)
      | cs =>
        match ← quoted? r with
        | some (s, r) => some (.text s, r)
        | none =>
          if startsPlain true cs then do
            let (line, p) ← plainLine true [] [] r.column cs
            let (lines, p) ← plainLines true 0 (n + 1) line p
            some (.plain (String.ofList lines.reverse), r.goto p)
          else if anchor.isSome then some (missing, r)
          else none
    some (d, remember anchor d r)

def flowItems : Nat → List Document → Reader → Option (Document × Reader)
  | 0, _, _ => none
  | n + 1, done, r => do
    let r ← r.skipInside
    match r.rest with
    | ']' :: _ => some (.list done.reverse, r.pass 1)
    | _ =>
      let (d, r) ← flowNode n r
      let r ← r.skipInside
      let (d, r) ← match r.rest with
        | ':' :: _ => do
          let key ← keyText? d
          let (value, r) ← flowValue n (r.pass 1)
          let r ← r.skipInside
          some (.record [(key, value)], r)
        | _ => some (d, r)
      match r.rest with
      | ',' :: _ => flowItems n (d :: done) (r.pass 1)
      | ']' :: _ => some (.list (d :: done).reverse, r.pass 1)
      | _ => none

def flowFields : Nat → List (String × Document) → Reader → Option (Document × Reader)
  | 0, _, _ => none
  | n + 1, done, r => do
    let r ← r.skipInside
    match r.rest with
    | '\x7d' :: _ => some (.record done.reverse, r.pass 1)
    | _ =>
      let (key, r) ← flowNode n r
      let key ← keyText? key
      let r ← r.skipInside
      let (value, r) ← match r.rest with
        | ':' :: _ => flowValue n (r.pass 1)
        | _ => some (missing, r)
      let r ← r.skipInside
      match r.rest with
      | ',' :: _ => flowFields n ((key, value) :: done) (r.pass 1)
      | '\x7d' :: _ => some (.record ((key, value) :: done).reverse, r.pass 1)
      | _ => none

def flowValue : Nat → Reader → Option (Document × Reader)
  | 0, _ => none
  | n + 1, r => do
    let r ← r.skipInside
    match r.rest with
    | ',' :: _ => some (missing, r)
    | ']' :: _ => some (missing, r)
    | '\x7d' :: _ => some (missing, r)
    | _ => flowNode n r

end

def atItem (r : Reader) : Bool :=
  match r.rest with
  | '-' :: rest => atGap rest
  | _ => false

def afterColon? (r : Reader) : Option Reader :=
  let gap := (r.rest.takeWhile isBlank).length
  match r.rest.drop gap with
  | ':' :: rest => if atGap rest then some (r.pass (gap + 1)) else none
  | _ => none

/-- A node that one line can hold: in brackets, quoted, an alias, or the first line of a plain
scalar, which is marked by `true`. -/
def atom (n : Nat) (r : Reader) : Option (Document × Bool × Reader) :=
  match r.rest with
  | '*' :: _ => (alias? r).map fun (d, r) => (d, false, r)
  | '[' :: _ => (flowNode n r).map fun (d, r) => (d, false, r)
  | '\x7b' :: _ => (flowNode n r).map fun (d, r) => (d, false, r)
  | cs =>
    match quoted? r with
    | none => none
    | some (some (s, r)) => some (.text s, false, r)
    | some none =>
      if startsPlain false cs then
        (plainLine false [] [] r.column cs).map fun (lines, p) =>
          (.plain (String.ofList lines.reverse), true, r.goto p)
      else none

mutual

/-- A node of a collection indented by `indent`. It starts here; `fresh` says that a collection may
start here too. -/
def blockNode : Nat → Int → Bool → Reader → Option (Document × Reader)
  | 0, _, _, _ => none
  | n + 1, indent, fresh, r => do
    let (anchor, fresh, r) ← properties false (n + 1) none fresh r
    if r.rest.isEmpty || atMarker r.toPlace || (fresh && (r.column : Int) ≤ indent) then
      some (missing, remember anchor missing r)
    else
      let (d, r) ← match r.rest with
        | '|' :: rest => do
          let (s, p) ← blockScalar false indent rest
          some (.text s, r.goto p)
        | '>' :: rest => do
          let (s, p) ← blockScalar true indent rest
          some (.text s, r.goto p)
        | _ =>
          if atItem r then
            if fresh then blockItems n r.column [] r else none
          else do
            let column := r.column
            let (d, isPlain, after) ← atom n r
            match afterColon? after, d, isPlain with
            | some after, d, _ => do
              if !fresh then none
              else
                let key ← keyText? d
                let (value, after) ← fieldValue n column after
                blockFields n column [(key, value)] after
            | none, .plain s, true => do
              let (lines, p) ← plainLines false indent (n + 1) s.toList.reverse after.toPlace
              some (.plain (String.ofList lines.reverse), after.goto p)
            | none, d, _ => some (d, after)
      some (d, remember anchor d r)

def blockItems : Nat → Nat → List Document → Reader → Option (Document × Reader)
  | 0, _, _, _ => none
  | n + 1, column, done, r => do
    let (next, fresh) ← r.skip
    if fresh && next.column = column && atItem next && !atMarker next.toPlace || done.isEmpty then
      let dash := next.pass 1
      let (value, crossed) ← dash.skipFresh
      let (d, r) ←
        if value.column = 0 || value.rest.isEmpty || (value.column ≤ column && crossed) then
          some (missing, dash)
        else blockNode n column true value
      blockItems n column (d :: done) r
    else some (.list done.reverse, r)

def blockFields : Nat → Nat → List (String × Document) → Reader → Option (Document × Reader)
  | 0, _, _, _ => none
  | n + 1, column, done, r => do
    let (next, fresh) ← r.skip
    if next.rest.isEmpty || atMarker next.toPlace || (fresh && next.column < column) then
      some (.record done.reverse, r)
    else if !fresh || next.column ≠ column then none
    else if atItem next then some (.record done.reverse, r)
    else
      let (anchor, _, next) ← properties false (n + 1) none false next
      let (key, _, next) ← atom n next
      let key ← keyText? key
      let next := remember anchor (.plain key) (← afterColon? next)
      let (value, r) ← fieldValue n column next
      blockFields n column ((key, value) :: done) r

def fieldValue : Nat → Nat → Reader → Option (Document × Reader)
  | 0, _, _ => none
  | n + 1, column, r => do
    let (value, fresh) ← r.skip
    if value.rest.isEmpty || atMarker value.toPlace then some (missing, r)
    else if !fresh then blockNode n column false value
    else if column < value.column then blockNode n column true value
    else if value.column = column && atItem value then blockItems n column [] value
    else some (missing, r)

end

/-- The lines that may stand before the mark of a document: the version of the format, and
abbreviations for tags. -/
def isDirective (line : List Char) : Bool :=
  let tag := "%TAG".toList
  let versions := ["%YAML 1.1".toList, "%YAML 1.2".toList]
  (tag.isPrefixOf line && (line.drop tag.length).head?.any isBlank) ||
    versions.any fun v => v.isPrefixOf line && atGap (line.drop v.length)

def skipDirectives : Nat → Bool → Reader → Option (Reader × Bool)
  | 0, _, _ => none
  | n + 1, found, r => do
    let (r, _) ← r.skipFresh
    match r.rest with
    | '%' :: _ =>
      let line := r.rest.takeWhile (!isBreak ·)
      if r.column = 0 && isDirective line then
        skipDirectives n true (r.goto ⟨r.rest.drop line.length, 1⟩)
      else none
    | _ => some (r, found)

def endsAfter (r : Reader) : Option Bool := do
  let (r, fresh) ← r.skip
  match r.rest with
  | [] => some true
  | '.' :: _ =>
    if fresh && atMarker r.toPlace then
      let (r, _) ← (r.pass 3).skip
      some r.rest.isEmpty
    else some false
  | _ => some false

def read? (s : String) : Option Document := do
  let cs := match s.toList with
    | '\ufeff' :: rest => rest
    | cs => cs
  if !cs.all isPrintable then none
  else
    let cs := normalizeBreaks cs
    let n := 4 * cs.length + 8
    let (r, directed) ← skipDirectives n false { rest := cs, column := 0 }
    let _ ← guard (!directed || (atMarker r.toPlace && r.rest.head? = some '-'))
    let (d, r) ← match r.rest with
      | [] => some (missing, r)
      | '-' :: _ =>
        if atMarker r.toPlace then do
          let after := r.pass 3
          let (next, fresh) ← after.skip
          if next.rest.isEmpty || atMarker next.toPlace then some (missing, after)
          else blockNode n (-1) fresh next
        else blockNode n (-1) true r
      | _ => blockNode n (-1) true r
    if ← endsAfter r then some d else none

end Airtime.Document.Yaml
