import Airtime.Document.Basic
import Airtime.Identity

/-!
Values written as documents and read back. Reading what was written gives the value.
-/

namespace Airtime

class Codec (α : Type) where
  encode : α → Document
  decode : Document → Option α

export Codec (encode decode)

namespace Document

def word? {ω : Type} [Word ω] (d : Document) : Option ω := do
  match ← d.integer? with
  | .ofNat n => if n < Word.size ω then some (Word.ofNat n) else none
  | .negSucc _ => none

def ofWord {ω : Type} [Word ω] (w : ω) : Document := .integer (Word.toNat w)

/-- One of a list of named values, given by its name or as a record of that name with nothing in
it. -/
def named? {α : Type} (names : List (String × α)) (d : Document) : Option α :=
  match d with
  | text s => names.lookup s
  | plain s => names.lookup s
  | record [(s, null)] => names.lookup s
  | _ => none

abbrev Fields := String → Entry

namespace Fields

variable {α : Type} [Codec α]

def required (fs : Fields) (name : String) : Option α :=
  match fs name with
  | .given d => decode d
  | _ => none

/-- A field that counts as `none` when a record leaves it out. -/
def optional (fs : Fields) (name : String) : Option (Option α) :=
  match fs name with
  | .given d => if d.isNull then some none else (decode d).map some
  | .absent => some none
  | .ended => none

def withDefault (fs : Fields) (name : String) (default : α) : Option α :=
  match fs name with
  | .given d => decode d
  | _ => some default

end Fields

end Document

instance {ω : Type} [Word ω] : Codec ω := ⟨Document.ofWord, Document.word?⟩

instance : Codec Bool := ⟨.bool, Document.bool?⟩

instance : Codec Float := ⟨.real, Document.real?⟩

instance : Codec String := ⟨.text, Document.text?⟩

instance {α : Type} [Codec α] : Codec (Option α) where
  encode
    | none => .null
    | some a => encode a
  decode d := if d.isNull then some none else (decode d).map some

instance {α : Type} [Codec α] : Codec (List α) where
  encode l := .list (l.map encode)
  decode d := do (← d.list?).mapM decode

instance {α β : Type} [Codec α] [Codec β] : Codec (α × β) where
  encode p := .list [encode p.1, encode p.2]
  decode d := do
    match ← d.list? with
    | [a, b] => return (← decode a, ← decode b)
    | _ => none

instance : Codec Rnti := ⟨fun r => encode r.value, fun d => Rnti.mk <$> decode d⟩
instance : Codec BeamId := ⟨fun b => encode b.value, fun d => BeamId.mk <$> decode d⟩
instance : Codec DestinationId :=
  ⟨fun i => encode i.value, fun d => DestinationId.mk <$> decode d⟩

end Airtime
