import Airtime.Arithmetic

/-!
The command line of the simulator. An option stands as `--name value`, `--name=value`, or with its letter
as `-n value`, `-nvalue` or `-n=value`. A value that follows its option is looked at only when the next
option begins or the line ends, so an argument nobody knows is reported first.
-/

namespace Airtime.CommandLine

inductive Name where
  | config
  | logLevel
  | slots
  | realtime
  | trace
  | help
  | version
  deriving DecidableEq, Repr

namespace Name

def all : List Name := [config, logLevel, slots, realtime, trace, help, version]

def long : Name → String
  | config => "config"
  | logLevel => "log-level"
  | slots => "slots"
  | realtime => "realtime"
  | trace => "trace"
  | help => "help"
  | version => "version"

def letter? : Name → Option Char
  | config => some 'c'
  | logLevel => some 'l'
  | slots => some 's'
  | realtime => none
  | trace => none
  | help => some 'h'
  | version => some 'V'

/-- What the value of an option is called; none for flags. -/
def value? : Name → Option String
  | config => some "CONFIG"
  | logLevel => some "LOG_LEVEL"
  | slots => some "SLOTS"
  | trace => some "TRACE"
  | realtime => none
  | help => none
  | version => none

def ofLong? (s : String) : Option Name := all.find? fun n => n.long == s

def ofLetter? (c : Char) : Option Name := all.find? fun n => n.letter? == some c

def label (n : Name) : String :=
  "--" ++ n.long ++ (n.value?.elim "" fun v => " <" ++ v ++ ">")

end Name

structure Options where
  config : Option String := none
  logLevel : Option String := none
  slots : UInt64 := 10000
  realtime : Bool := false
  trace : Option String := none
  deriving DecidableEq, Repr

inductive NumberError where
  | empty
  | badDigit
  | tooLarge
  deriving DecidableEq, Repr

def NumberError.message : NumberError → String
  | .empty => "cannot parse integer from empty string"
  | .badDigit => "invalid digit found in string"
  | .tooLarge => "number too large to fit in target type"

inductive UsageError where
  | unexpected (argument : String)
  | badValue (option : Name) (value : String) (why : NumberError)
  | repeated (option : Name)
  | missingValue (option : Name)
  | needlessValue (option : Name) (value : String)
  deriving DecidableEq, Repr

def quote (s : String) : String := "\x27" ++ s ++ "\x27"

def UsageError.message : UsageError → String
  | unexpected a => "unexpected argument " ++ quote a ++ " found"
  | badValue o v why => "invalid value " ++ quote v ++ " for " ++ quote o.label ++ ": " ++ why.message
  | repeated o => "the argument " ++ quote o.label ++ " cannot be used multiple times"
  | missingValue o => "a value is required for " ++ quote o.label ++ " but none was supplied"
  | needlessValue o v =>
    "unexpected value " ++ quote v ++ " for " ++ quote o.label ++ " found; no more were expected"

def UsageError.report (e : UsageError) : String := "error: " ++ e.message

def UsageError.code : UInt32 := 2

def versionText : String := "nr-mac-sim 0.1.0"

inductive Request where
  | simulate (o : Options)
  | help
  | version
  deriving DecidableEq, Repr

/-- Digits from the left, up to the first one that is none or makes the number too large. -/
def digits (n : Nat) : List Char → Except NumberError UInt64
  | [] => .ok (UInt64.ofNat n)
  | c :: cs =>
    if !c.isDigit then .error .badDigit
    else
      let next := n * 10 + (c.toNat - '0'.toNat)
      if next < Word.size UInt64 then digits next cs else .error .tooLarge

/-- A decimal number; a plus sign may stand before its digits. -/
def number (s : String) : Except NumberError UInt64 :=
  match s.toList with
  | [] => .error .empty
  | ['+'] => .error .badDigit
  | '+' :: cs => digits 0 cs
  | cs => digits 0 cs

structure State where
  options : Options := {}
  given : List Name := []
  /-- An option whose value follows it, with the value once it was seen. -/
  pending : Option (Name × Option String) := none
  ended : Bool := false

namespace State

def assign (s : State) (n : Name) (value : String) : Except UsageError State :=
  if s.given.contains n then .error (.repeated n)
  else
    let put (options : Options) : State := { s with options, given := n :: s.given }
    match n with
    | .slots =>
      match number value with
      | .ok slots => .ok (put { s.options with slots })
      | .error e => .error (.badValue n value e)
    | .logLevel => .ok (put { s.options with logLevel := some value })
    | .config =>
      if value.isEmpty then .error (.missingValue n)
      else .ok (put { s.options with config := some value })
    | .trace =>
      if value.isEmpty then .error (.missingValue n)
      else .ok (put { s.options with trace := some value })
    | .realtime => .ok (put { s.options with realtime := true })
    | .help => .ok s
    | .version => .ok s

def settle (s : State) : Except UsageError State :=
  match s.pending with
  | none => .ok s
  | some (n, none) => .error (.missingValue n)
  | some (n, some value) => assign { s with pending := none } n value

end State

/-- Reading ends early with an error, or with a request for information. -/
inductive Step where
  | next (s : State)
  | stop (r : Except UsageError Request)

namespace Step

def ofExcept : Except UsageError State → Step
  | .ok s => .next s
  | .error e => .stop (.error e)

end Step

def begin (s : State) (n : Name) : Step :=
  match s.settle with
  | .error e => .stop (.error e)
  | .ok s =>
    match n with
    | .help => .stop (.ok .help)
    | .version => .stop (.ok .version)
    | .realtime => .ofExcept (s.assign n "")
    | _ => .next { s with pending := some (n, none) }

def attach (s : State) (n : Name) (value : String) : Step :=
  if n.value?.isNone then .stop (.error (.needlessValue n value))
  else .ofExcept (s.settle >>= (·.assign n value))

def longArgument (s : State) (cs : List Char) : Step :=
  let name := cs.takeWhile (· ≠ '=')
  match Name.ofLong? (String.ofList name), cs.drop name.length with
  | none, _ => .stop (.error (.unexpected ("--" ++ String.ofList name)))
  | some n, '=' :: value => attach s n (String.ofList value)
  | some n, _ => begin s n

/-- An argument after its dash: the letter of an option, with what is attached to it. -/
def shortArgument (s : State) (c : Char) (cs : List Char) : Step :=
  match Name.ofLetter? c with
  | none => .stop (.error (.unexpected ("-" ++ String.singleton c)))
  | some n =>
    if n.value?.isNone then begin s n
    else match cs with
      | [] => begin s n
      | '=' :: value => attach s n (String.ofList value)
      | value => attach s n (String.ofList value)

def take (s : State) (a : String) : Step :=
  if s.ended then .stop (.error (.unexpected a))
  else
    match a.toList with
    | ['-', '-'] => .next { s with ended := true }
    | '-' :: '-' :: cs => longArgument s cs
    | '-' :: c :: cs => shortArgument s c cs
    | _ =>
      match s.pending with
      | some (n, none) => .next { s with pending := some (n, some a) }
      | _ => .stop (.error (.unexpected a))

def readFrom (s : State) : List String → Except UsageError Request
  | [] => s.settle.map fun s => .simulate s.options
  | a :: rest =>
    match take s a with
    | .stop r => r
    | .next s => readFrom s rest

def read (arguments : List String) : Except UsageError Request := readFrom {} arguments

end Airtime.CommandLine
