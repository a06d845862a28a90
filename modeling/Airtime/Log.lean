import Airtime.Decimal.Reading

/-!
Log lines and the filter that picks those to be shown. A filter is a list of levels, each for all parts
of the program or for those whose names begin with a given text.
-/

namespace Airtime

inductive Level where
  | error
  | warn
  | info
  | debug
  | trace
  deriving DecidableEq, Repr

namespace Level

def name : Level → String
  | error => "ERROR"
  | warn => "WARN"
  | info => "INFO"
  | debug => "DEBUG"
  | trace => "TRACE"

def rank : Level → Nat
  | error => 1
  | warn => 2
  | info => 3
  | debug => 4
  | trace => 5

end Level

inductive Part where
  | session
  | simulator
  deriving DecidableEq, Repr

def Part.name : Part → String
  | session => "nr_mac_sim"
  | simulator => "nr_mac_sim::sim"

structure LogLine where
  level : Level
  part : Part
  text : String
  deriving DecidableEq, Repr

def LogLine.show (l : LogLine) : String := l.level.name ++ " " ++ l.text

structure Directive where
  target : String
  rank : Nat
  deriving DecidableEq, Repr

structure LogFilter where
  directives : List Directive
  deriving DecidableEq, Repr

namespace LogFilter

def rankNames : List (String × Nat) :=
  [("off", 0), ("error", 1), ("warn", 2), ("info", 3), ("debug", 4), ("trace", 5)]

def rank? (s : String) : Option Nat :=
  let ds := match s.toList with
    | '+' :: ds => ds
    | ds => ds
  match Decimal.natural? 10 ds with
  | some n => if n ≤ 5 then some n else none
  | none => rankNames.lookup s.toLower

/-- Letters outside ASCII are not told from other characters there. -/
def isTargetChar (c : Char) : Bool :=
  c.isAlphanum || c = '_' || c = ':' || c = '-' || 128 ≤ c.toNat

def target? (s : String) : Option String :=
  if !s.isEmpty && s.toList.all isTargetChar then some s else none

/-- A level, or a target, or both with an equals sign between them. A target alone shows all. -/
def directive? (s : String) : Option Directive :=
  match s.splitOn "=" with
  | [s] =>
    match rank? s with
    | some n => some ⟨"", n⟩
    | none => (target? s).map (⟨·, Level.trace.rank⟩)
  | [target, level] => do
    let target ← target? target
    if level.isEmpty then some ⟨target, Level.trace.rank⟩ else return ⟨target, ← rank? level⟩
  | _ => none

/-- The filter that a text describes, and the parts of the text that say nothing. A filter of no
directives shows errors. -/
def read (s : String) : LogFilter × List String :=
  let parts := (s.splitOn ",").filter (!·.isEmpty)
  let directives := parts.filterMap directive?
  let ignored := parts.filter fun p => (directive? p).isNone
  (⟨if directives.isEmpty then [⟨"", Level.error.rank⟩] else directives⟩, ignored)

def ignoredText (part : String) : String :=
  "ignoring \x60" ++ part ++ "\x60: invalid filter directive"

/-- The directive with the longest matching target decides, the last one of those. -/
def deciding (f : LogFilter) (part : Part) : Option Directive :=
  let apply (best : Option Directive) (d : Directive) : Option Directive :=
    if !part.name.startsWith d.target then best
    else match best with
      | none => some d
      | some b => if b.target.length ≤ d.target.length then some d else some b
  f.directives.foldl apply none

def shows (f : LogFilter) (l : LogLine) : Bool :=
  (f.deciding l.part).any fun d => l.level.rank ≤ d.rank

end LogFilter

end Airtime
