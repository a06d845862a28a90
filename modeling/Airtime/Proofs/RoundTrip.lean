import Airtime.Document.Messages
import Airtime.Proofs.Word
import Mathlib.Data.List.Nodup

/-! Reading what was written. A record names each of its fields once, so its reader finds every field that
was written. A field that was left out is absent, and a configuration then has its default there. -/

namespace Airtime

open Document

/-- Reading what was written gives the value. -/
class LawfulCodec (α : Type) [Codec α] : Prop where
  decode_encode : ∀ a : α, decode (encode a) = some a

/-- Nothing is written as null. -/
class SolidCodec (α : Type) [Codec α] : Prop where
  isNull_encode : ∀ a : α, (encode a).isNull = false

export LawfulCodec (decode_encode)
export SolidCodec (isNull_encode)

section Scalars

variable {ω : Type} [Word ω]

instance : LawfulCodec ω where
  decode_encode w := by
    change word? (.integer (Word.toNat w)) = some w
    simp only [word?, integer?, Option.bind_eq_bind, Option.bind_some]
    rw [if_pos (Word.toNat_lt w), Word.toNat_inj _ _ (Word.toNat_ofNat _ (Word.toNat_lt w))]

instance : SolidCodec ω := ⟨fun _ => rfl⟩

instance : LawfulCodec Bool := ⟨fun _ => rfl⟩

theorem map_decode_encode {α β : Type} [Codec α] [LawfulCodec α] (f : α → β) (a : α) :
    f <$> (decode (encode a) : Option α) = some (f a) := by
  rw [decode_encode]
  rfl

instance : LawfulCodec Rnti := ⟨fun r => map_decode_encode Rnti.mk r.value⟩
instance : LawfulCodec BeamId := ⟨fun b => map_decode_encode BeamId.mk b.value⟩
instance : LawfulCodec DestinationId := ⟨fun i => map_decode_encode DestinationId.mk i.value⟩

end Scalars

section Containers

variable {α β : Type} [Codec α] [Codec β] [LawfulCodec α] [LawfulCodec β]

instance [SolidCodec α] : LawfulCodec (Option α) where
  decode_encode
    | none => rfl
    | some a => by
      change (if (encode a).isNull then some none else (decode (encode a)).map some) = _
      rw [isNull_encode, decode_encode]
      rfl

theorem mapM_decode_encode (l : List α) : (l.map encode).mapM decode = some l := by
  induction l with
  | nil => rfl
  | cons a l ih =>
    rw [List.map_cons, List.mapM_cons, decode_encode, ih]
    rfl

instance : LawfulCodec (List α) := ⟨mapM_decode_encode⟩

instance : LawfulCodec (α × β) where
  decode_encode p := by
    change (do return (← decode (encode p.1), ← decode (encode p.2))) = some p
    rw [decode_encode, decode_encode]
    rfl

end Containers

instance : LawfulCodec Direction := ⟨fun d => by cases d <;> rfl⟩
instance : LawfulCodec ChannelDirection := ⟨fun d => by cases d <;> rfl⟩
instance : LawfulCodec SubcarrierSpacing := ⟨fun s => by cases s <;> rfl⟩
instance : LawfulCodec Scheme := ⟨fun s => by cases s <;> rfl⟩
instance : LawfulCodec PolicyKind := ⟨fun k => by cases k <;> rfl⟩

theorem formatOf?_formatName (d : Direction) : formatOf? (.text (formatName d)) = some d := by
  cases d <;> rfl

namespace Document

variable {α : Type} {names : List String} {fields : List (String × Document)} {name : String}

theorem entries?_record (h : (fields.map Prod.fst).Nodup) :
    (record fields).entries? names = some fun n => lookup n fields := by
  refine if_pos (List.all_eq_true.mpr fun n _ => decide_eq_true ?_)
  have hcount := List.nodup_iff_count_le_one.mp h n
  rwa [List.count_eq_countP, List.countP_map] at hcount

/-- A reader of a record whose fields have different names. -/
theorem read_record {read : Fields → Option α} {a : α} (h : (fields.map Prod.fst).Nodup)
    (hread : read (fun n => lookup n fields) = some a) :
    (record fields).entries? names >>= read = some a := by
  rw [entries?_record h]
  exact hread

/-- The document with some of its fields only. -/
def retain (keep : String → Bool) : Document → Document
  | record fields => record (fields.filter fun f => keep f.1)
  | d => d

theorem lookup_filter (keep : String → Bool) (name : String) (fields : List (String × Document)) :
    lookup name (fields.filter fun f => keep f.1) =
      if keep name then lookup name fields else .absent := by
  induction fields with
  | nil => simp [lookup]
  | cons f fields ih =>
    obtain ⟨n, d⟩ := f
    rw [List.filter_cons, lookup]
    by_cases hname : n = name
    · subst hname
      by_cases hkeep : keep n = true
      · rw [if_pos hkeep, if_pos hkeep, lookup, if_pos rfl, if_pos rfl]
      · rw [if_neg hkeep, if_neg hkeep, ih, if_neg hkeep]
    · rw [if_neg hname, ← ih]
      by_cases hkeep : keep n = true
      · rw [if_pos hkeep, lookup, if_neg hname]
      · rw [if_neg hkeep]

namespace Fields

variable [Codec α]

theorem optional_of_given [LawfulCodec α] [SolidCodec α] {fs : Fields} {a : Option α}
    (h : fs name = .given (encode a)) : fs.optional name = some a := by
  rw [optional, h]
  exact decode_encode a

/-- A field that was written, and then left out or not. -/
theorem withDefault_retained [LawfulCodec α] {keep : String → Bool} {a default : α}
    (h : lookup name fields = .given (encode a)) :
    withDefault (fun n => lookup n (fields.filter fun f => keep f.1)) name default =
      some (if keep name then a else default) := by
  rw [withDefault, lookup_filter, h]
  by_cases hkeep : keep name = true
  · rw [if_pos hkeep, if_pos hkeep]
    exact decode_encode a
  · rw [if_neg hkeep, if_neg hkeep]

end Fields

end Document

instance : LawfulCodec SlotTime :=
  ⟨fun t => read_record (by simp) (by simp [Fields.required, lookup, decode_encode])⟩

instance : SolidCodec SlotTime := ⟨fun _ => rfl⟩

instance : LawfulCodec ChannelRequest :=
  ⟨fun r => read_record (by simp) (by simp [Fields.required, lookup, decode_encode])⟩

instance : LawfulCodec SidelinkRequest :=
  ⟨fun r => read_record (by simp) (by simp [Fields.required, lookup, decode_encode])⟩

instance {κ : Type} [Codec κ] [LawfulCodec κ] : LawfulCodec (BufferReport κ) :=
  ⟨fun r => read_record (by simp) (by simp [Fields.required, lookup, decode_encode])⟩

instance : LawfulCodec GroupReport :=
  ⟨fun r => read_record (by simp) (by simp [Fields.required, lookup, decode_encode])⟩

instance : LawfulCodec Feedback :=
  ⟨fun f => read_record (by simp) (by simp [Fields.required, lookup, decode_encode])⟩

instance : LawfulCodec QualityReport :=
  ⟨fun r => read_record (by simp) (by simp [Fields.required, lookup, decode_encode])⟩

instance : LawfulCodec Assignment :=
  ⟨fun a => read_record (by simp)
    (by simp [Fields.required, lookup, decode_encode, formatOf?_formatName])⟩

instance : LawfulCodec Pdu :=
  ⟨fun p => read_record (by simp) (by simp [Fields.required, lookup, decode_encode])⟩

instance : LawfulCodec SlotAllocation where
  decode_encode a := by
    refine read_record (by simp) ?_
    rw [Fields.optional_of_given (a := a.time) rfl]
    simp [Fields.required, lookup, decode_encode]

instance : LawfulCodec Candidate :=
  ⟨fun c => read_record (by simp) (by simp [Fields.required, lookup, decode_encode])⟩

instance : LawfulCodec Grant :=
  ⟨fun g => read_record (by simp) (by simp [Fields.required, lookup, decode_encode])⟩

/-- The configuration with some of its fields only, and defaults in place of the others. -/
def CellConfig.retain (keep : String → Bool) (c : CellConfig) : CellConfig :=
  let default : CellConfig := {}
  { scheme := if keep "scheme" then c.scheme else default.scheme
    policy := if keep "policy" then c.policy else default.policy
    groups := if keep "bandwidth_rbg" then c.groups else default.groups
    blocksPerGroup := if keep "rb_per_rbg" then c.blocksPerGroup else default.blocksPerGroup
    symbols := if keep "symbols_per_slot" then c.symbols else default.symbols
    downlinkControl := if keep "dl_ctrl_symbols" then c.downlinkControl else default.downlinkControl
    uplinkControl := if keep "ul_ctrl_symbols" then c.uplinkControl else default.uplinkControl
    processes := if keep "harq_processes" then c.processes else default.processes
    maxTransmissions := if keep "max_tx" then c.maxTransmissions else default.maxTransmissions
    fixedDownlinkMcs := if keep "fixed_dl_mcs" then c.fixedDownlinkMcs else default.fixedDownlinkMcs
    fixedUplinkMcs := if keep "fixed_ul_mcs" then c.fixedUplinkMcs else default.fixedUplinkMcs
    initialMcs := if keep "initial_mcs" then c.initialMcs else default.initialMcs }

@[inherit_doc CellConfig.retain]
def SidelinkConfig.retain (keep : String → Bool) (c : SidelinkConfig) : SidelinkConfig :=
  let default : SidelinkConfig := {}
  { fixedMcs := if keep "fixed_mcs" then c.fixedMcs else default.fixedMcs
    initialMcs := if keep "initial_mcs" then c.initialMcs else default.initialMcs
    blocksPerSubchannel := if keep "rb_per_subchannel" then c.blocksPerSubchannel
      else default.blocksPerSubchannel
    processes := if keep "harq_processes" then c.processes else default.processes
    maxTransmissions := if keep "max_tx" then c.maxTransmissions else default.maxTransmissions }

section Retain

variable {keep : String → Bool}

theorem Document.nodup_filter {fields : List (String × Document)}
    (h : (fields.map Prod.fst).Nodup) :
    ((fields.filter fun f => keep f.1).map Prod.fst).Nodup :=
  h.sublist (List.filter_sublist.map _)

theorem CellConfig.decode_retain (c : CellConfig) :
    decode ((encode c).retain keep) = some (c.retain keep) := by
  refine read_record (nodup_filter (by simp)) ?_
  dsimp only
  rw [Fields.withDefault_retained (a := c.scheme) rfl,
    Fields.withDefault_retained (a := c.policy) rfl,
    Fields.withDefault_retained (a := c.groups) rfl,
    Fields.withDefault_retained (a := c.blocksPerGroup) rfl,
    Fields.withDefault_retained (a := c.symbols) rfl,
    Fields.withDefault_retained (a := c.downlinkControl) rfl,
    Fields.withDefault_retained (a := c.uplinkControl) rfl,
    Fields.withDefault_retained (a := c.processes) rfl,
    Fields.withDefault_retained (a := c.maxTransmissions) rfl,
    Fields.withDefault_retained (a := c.fixedDownlinkMcs) rfl,
    Fields.withDefault_retained (a := c.fixedUplinkMcs) rfl,
    Fields.withDefault_retained (a := c.initialMcs) rfl]
  rfl

theorem SidelinkConfig.decode_retain (c : SidelinkConfig) :
    decode ((encode c).retain keep) = some (c.retain keep) := by
  refine read_record (nodup_filter (by simp)) ?_
  dsimp only
  rw [Fields.withDefault_retained (a := c.fixedMcs) rfl,
    Fields.withDefault_retained (a := c.initialMcs) rfl,
    Fields.withDefault_retained (a := c.blocksPerSubchannel) rfl,
    Fields.withDefault_retained (a := c.processes) rfl,
    Fields.withDefault_retained (a := c.maxTransmissions) rfl]
  rfl

instance : LawfulCodec CellConfig := ⟨@CellConfig.decode_retain fun _ => true⟩
instance : LawfulCodec SidelinkConfig := ⟨@SidelinkConfig.decode_retain fun _ => true⟩

end Retain

/-- A document read as a value and written again. -/
def Document.rewritten (α : Type) [Codec α] (d : Document) : Option Document :=
  (decode d : Option α).map encode

/-- Values come back as they were written, and what was read and written is read and written the same
again. -/
structure RoundTrips (α : Type) [Codec α] : Prop where
  read : ∀ a : α, decode (encode a) = some a
  idempotent : ∀ d d' : Document, d.rewritten α = some d' → d'.rewritten α = some d'

theorem roundTrips (α : Type) [Codec α] [LawfulCodec α] : RoundTrips α where
  read := decode_encode
  idempotent d d' h := by
    obtain ⟨a, -, rfl⟩ := Option.map_eq_some_iff.mp h
    rw [rewritten, decode_encode]
    rfl

/-- All messages and configurations survive being written and read. Whatever fields a configuration
leaves out, it is read as if they had been written with their defaults. -/
theorem messages_round_trip :
    (RoundTrips ChannelRequest ∧ RoundTrips SidelinkRequest ∧
      (∀ (κ : Type) [Codec κ], RoundTrips κ → RoundTrips (BufferReport κ)) ∧
      RoundTrips (BufferReport Rnti) ∧ RoundTrips (BufferReport DestinationId) ∧
      RoundTrips GroupReport ∧ RoundTrips Feedback ∧ RoundTrips QualityReport ∧
      RoundTrips Assignment ∧ RoundTrips Pdu ∧ RoundTrips SlotAllocation ∧ RoundTrips Candidate ∧
      RoundTrips Grant ∧ RoundTrips SubcarrierSpacing ∧ RoundTrips CellConfig ∧
      RoundTrips SidelinkConfig) ∧
    (∀ (keep : String → Bool) (c : CellConfig),
      decode ((encode c).retain keep) = some (c.retain keep)) ∧
    ∀ (keep : String → Bool) (c : SidelinkConfig),
      decode ((encode c).retain keep) = some (c.retain keep) := by
  refine ⟨⟨roundTrips _, roundTrips _, fun κ _ h => ?_, roundTrips _, roundTrips _, roundTrips _,
    roundTrips _, roundTrips _, roundTrips _, roundTrips _, roundTrips _, roundTrips _, roundTrips _,
    roundTrips _, roundTrips _, roundTrips _⟩, fun _ => CellConfig.decode_retain,
    fun _ => SidelinkConfig.decode_retain⟩
  have : LawfulCodec κ := ⟨h.read⟩
  exact roundTrips _

/-- Only the policy is written, and the sixty-six groups of the default are read. -/
theorem messages_round_trip_sample :
    (encode ({ policy := .maxRate, groups := 7 } : CellConfig)).retain (· = "policy") =
        .record [("policy", .text "max_rate")] ∧
      decode (.record [("policy", .text "max_rate")]) =
        some ({ policy := .maxRate, groups := 66 } : CellConfig) ∧
      decode (encode (BufferReport.newData 7 4 100 : BufferReport UInt32)) =
        some (BufferReport.newData 7 4 100 : BufferReport UInt32) := by
  obtain ⟨⟨-, -, hreport, -⟩, hcell, -⟩ := messages_round_trip
  exact ⟨rfl, hcell (· = "policy") { policy := .maxRate, groups := 7 },
    (hreport UInt32 (roundTrips UInt32)).read _⟩

end Airtime
