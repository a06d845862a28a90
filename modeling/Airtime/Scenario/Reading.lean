import Airtime.Document.Toml.Reading
import Airtime.Document.Yaml.Reading
import Airtime.Scenario.Codec

/-!
Scenarios read from texts and files. The format of a file shows in the extension of its name.
-/

namespace Airtime

def Format.read? : Format → String → Option Document
  | yaml, s => Document.Yaml.read? s
  | toml, s => Document.Toml.read? s

/-- The extension of the last name in a path: what follows its last dot, unless the name starts with
that dot. -/
def extension? (path : String) : Option String :=
  let parts := (path.splitOn "/").filter fun p => p ≠ "" && p ≠ "."
  match parts.getLast? with
  | none => none
  | some name =>
    let cs := name.toList.reverse
    let last := cs.takeWhile (· ≠ '.')
    if name = ".." ∨ cs.length ≤ last.length + 1 then none else some (String.ofList last.reverse)

def Format.ofPath? (path : String) : Option Format :=
  match extension? path with
  | some "yml" => some .yaml
  | some "yaml" => some .yaml
  | some "toml" => some .toml
  | _ => none

namespace Scenario

def read (format : Format) (text : String) : Except ScenarioError Scenario :=
  match format.read? text >>= decode with
  | none => .error (.malformed format)
  | some s => do
    s.check
    return s

def load (path : String) (content : Option String) : Except ScenarioError Scenario :=
  match content with
  | none => .error (.unreadable path)
  | some text =>
    match Format.ofPath? path with
    | none => .error (.unknownFormat path)
    | some format => read format text

end Scenario

end Airtime
