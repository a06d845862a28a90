import Airtime.Proofs.Schemes
import Airtime.Proofs.SidelinkAtomic

/-! The coding scheme towards a destination follows the configuration and the last quality report at
the time of a trigger. A destination keeps the scheme of its last block. -/

namespace Airtime

def SidelinkConfig.schemeDue (config : SidelinkConfig) (link : LinkModel)
    (quality : Option UInt8) : UInt8 :=
  match config.fixedMcs, quality with
  | true, _ | false, none => config.initialMcs
  | false, some cqi => min (link.mcsOfCqi cqi) link.maxMcs

/-- The last report towards a destination after one more operation. There is no destination in
`none`, and one without a report in `some none`. -/
def SidelinkOperation.quality (op : SidelinkOperation) (id : DestinationId)
    (last : Option (Option UInt8)) : Option (Option UInt8) :=
  match op with
  | .configureChannel r => if r.destination = id then some last.join else last
  | .reportQuality id' cqi => if id' = id then last.map fun _ => some cqi else last
  | _ => last

theorem SidelinkConfig.initialMcs_le {config : SidelinkConfig} {link : LinkModel}
    (h : config.problem? link.maxMcs = none) : config.initialMcs ≤ link.maxMcs := by
  unfold problem? at h
  split at h
  · cases h
  · next hle => exact UInt8.not_lt.mp hle

theorem SidelinkConfig.schemeDue_le {config : SidelinkConfig} {link : LinkModel}
    (h : config.problem? link.maxMcs = none) (quality : Option UInt8) :
    config.schemeDue link quality ≤ link.maxMcs := by
  unfold schemeDue
  split
  · exact initialMcs_le h
  · exact initialMcs_le h
  · exact Std.min_le_right

theorem SidelinkConfig.schemeDue_plain {config : SidelinkConfig} {link : LinkModel}
    {quality : Option UInt8} (h : config.fixedMcs = true ∨ quality = none) :
    config.schemeDue link quality = config.initialMcs := by
  unfold schemeDue
  split
  · rfl
  · rfl
  · next hadaptive =>
    rcases h with hfixed | hnone
    · rw [hadaptive] at hfixed
      cases hfixed
    · cases hnone

/-- The last report, and the scheme of the last block. -/
def Destination.rating (d : Destination) : Option UInt8 × UInt8 := (d.cqi, d.mcs)

namespace Sidelink

def lastQuality (id : DestinationId) (events : List SidelinkEvent) : Option (Option UInt8) :=
  events.foldl (fun last e => e.operation.quality id last) none

def lastOf (id : DestinationId) (granted : List Grant) : Option Grant :=
  (granted.filter (·.destination = id)).getLast?

variable {s s' : Sidelink} {id : DestinationId}

def rating? (s : Sidelink) (id : DestinationId) : Option (Option UInt8 × UInt8) :=
  (s.destination? id).map Destination.rating

theorem rating?_of_destination {d : Destination} (hd : s.destination? id = some d) :
    s.rating? id = some d.rating := by
  rw [rating?, hd, Option.map_some]

theorem rating?_put (s : Sidelink) (id' : DestinationId) (d : Destination) (id : DestinationId) :
    (s.put id' d).rating? id = if id' = id then some d.rating else s.rating? id := by
  rw [rating?, destination?_put]
  by_cases h : id' = id
  · rw [if_pos h, if_pos h.symm, Option.map_some]
  · rw [if_neg h, if_neg (Ne.symm h)]
    rfl

theorem rating?_put_same {id' : DestinationId} {d d' : Destination}
    (hd : s.destination? id' = some d) (h : d'.rating = d.rating) (id : DestinationId) :
    (s.put id' d').rating? id = s.rating? id := by
  rw [rating?_put, h]
  split
  · next he => rw [← he, rating?_of_destination hd]
  · rfl

theorem rating?_configureChannel (s : Sidelink) (r : SidelinkRequest) (id : DestinationId) :
    (s.configureChannel r).1.rating? id =
      if r.destination = id then some ((s.rating? id).getD (none, s.config.initialMcs))
      else s.rating? id := by
  have hput : ∀ d : Destination, d.rating = ((s.destination? r.destination).getD
      (.fresh s.config.initialMcs)).rating → (s.put r.destination d).rating? id =
        if r.destination = id then some ((s.rating? id).getD (none, s.config.initialMcs))
        else s.rating? id := by
    intro d hd
    rw [rating?_put, hd]
    split
    · next he =>
      rw [he, rating?]
      cases s.destination? id <;> rfl
    · rfl
  unfold Sidelink.configureChannel
  simp only
  split
  · exact hput _ rfl
  · split
    · exact hput _ rfl
    · exact hput _ rfl

theorem rating?_reportBuffer (s : Sidelink) (r : BufferReport DestinationId)
    (id : DestinationId) : (s.reportBuffer r).1.rating? id = s.rating? id := by
  unfold Sidelink.reportBuffer
  split
  · rfl
  · next d hd =>
    split
    · rfl
    · refine rating?_put_same hd ?_ id
      rfl

theorem rating?_reportQuality (s : Sidelink) (id' : DestinationId) (cqi : UInt8)
    (id : DestinationId) : (s.reportQuality id' cqi).1.rating? id =
      if id' = id then (s.rating? id).map fun x => (some cqi, x.2) else s.rating? id := by
  unfold Sidelink.reportQuality
  split
  · next hnone =>
    split
    · next he => rw [← he, rating?, hnone, Option.map_none, Option.map_none]
    · rfl
  · next d hd =>
    rw [rating?_put]
    split
    · next he => rw [← he, rating?_of_destination hd, Option.map_some]; rfl
    · rfl

theorem mcs_of_plan {d : Destination} {bytes : UInt32} {cs : List Candidate} {p : Plan}
    (h : s.plan d bytes cs = .ok p) : p.mcs = s.selectMcs d := by
  unfold plan at h
  obtain ⟨ordered, -, h⟩ := bind_ok_iff.mp h
  obtain rfl := pure_ok_iff.mp h
  rfl

theorem mcs_of_mem_grants {chosen : List Candidate} {first g : Grant}
    (h : g ∈ grants chosen first) : g.mcs = first.mcs := by
  obtain ⟨⟨c, n⟩, -, rfl⟩ := List.mem_map.mp h
  rfl

theorem mcs_of_trigger {cs : List Candidate} {granted : List Grant} {d : Destination}
    (h : s.trigger id cs = .ok (s', .ok (some granted))) (hd : s.destination? id = some d) :
    ∀ g ∈ granted, g.mcs = s.selectMcs d := by
  rw [trigger_eq, hd] at h
  obtain ⟨backlog, -, h⟩ := bind_ok_iff.mp h
  split at h
  · cases h
  · obtain ⟨p, hp, h⟩ := bind_ok_iff.mp h
    split at h
    · cases h
    · split at h
      · cases h
      · obtain ⟨⟨content, groups⟩, -, h⟩ := bind_ok_iff.mp h
        cases h
        intro g hg
        exact (mcs_of_mem_grants hg).trans (mcs_of_plan hp)

theorem lastOf_grants {chosen : List Candidate} {first : Grant} (h : chosen ≠ [])
    (id : DestinationId) : (lastOf id (grants chosen first)).map Grant.mcs =
      if first.destination = id then some first.mcs else none := by
  rw [lastOf]
  split
  · next he =>
    have hall : (grants chosen first).filter (·.destination = id) = grants chosen first := by
      rw [List.filter_eq_self]
      intro g hg
      simp [(of_mem_grants hg).1, he]
    have hlast := List.getLast?_eq_some_getLast (grants_ne_nil h first)
    rw [hall, hlast, Option.map_some, mcs_of_mem_grants (List.mem_of_getLast? hlast)]
  · next hne =>
    have hnone : (grants chosen first).filter (·.destination = id) = [] := by
      rw [List.filter_eq_nil_iff]
      intro g hg
      simp [(of_mem_grants hg).1, hne]
    rw [hnone]
    rfl

/-- A trigger leaves the ratings alone, or sends a block of the scheme that is selected. -/
theorem rating?_trigger {id' : DestinationId} {cs : List Candidate}
    {outcome : Except Refusal (Option (List Grant))}
    (h : s.trigger id' cs = .ok (s', outcome)) :
    s' = s ∧ handedOut outcome = [] ∨
      ∃ d, s.destination? id' = some d ∧
        (∀ g ∈ handedOut outcome, g.destination = id' ∧ g.mcs = s.selectMcs d) ∧
        ∀ id, s'.rating? id = (s.rating? id).map fun x =>
          (x.1, ((lastOf id (handedOut outcome)).map Grant.mcs).getD x.2) := by
  rcases trigger_cases h with ⟨rfl, rfl | ⟨why, rfl⟩⟩ | ⟨chosen, first, hchosen, -, rfl, hsent⟩
  · exact .inl ⟨rfl, rfl⟩
  · exact .inl ⟨rfl, rfl⟩
  · obtain ⟨d, harq, groups, hd, -, -, -, rfl⟩ := hsent.stored
    refine .inr ⟨d, hd, fun g hg => ?_, fun id => ?_⟩
    · exact ⟨(of_mem_grants hg).1.trans hsent.destination, mcs_of_trigger h hd g hg⟩
    · rw [rating?_put]
      change _ = (s.rating? id).map fun x =>
        (x.1, ((lastOf id (grants chosen first)).map Grant.mcs).getD x.2)
      rw [lastOf_grants hchosen, hsent.destination]
      split
      · next he =>
        subst he
        rw [rating?_of_destination hd]
        rfl
      · simp only [Option.getD_none, Option.map_id_fun', id_eq]
        rfl

theorem mcs_of_perform {op : SidelinkOperation} {granted : List Grant}
    (h : s.perform op = .ok (s', granted)) {g : Grant} (hg : g ∈ granted) :
    ∃ d, s.destination? g.destination = some d ∧ g.mcs = s.selectMcs d := by
  cases op with
  | trigger id' cs =>
    simp only [Sidelink.perform, bind_ok_iff, pure_ok_iff, Prod.mk.injEq] at h
    obtain ⟨⟨s₁, outcome⟩, htrigger, rfl, rfl⟩ := h
    rcases rating?_trigger htrigger with ⟨-, hnone⟩ | ⟨d, hd, hgrants, -⟩
    · rw [hnone] at hg
      cases hg
    · obtain ⟨rfl, hmcs⟩ := hgrants g hg
      exact ⟨d, hd, hmcs⟩
  | _ =>
    cases h
    cases hg

/-- Where the rating of a destination comes from: the last report towards it, and its last grant. -/
structure Rated (s : Sidelink) (id : DestinationId) (last : Option (Option UInt8))
    (granted : Option Grant) : Prop where
  rating : s.rating? id =
    last.map fun quality => (quality, (granted.map Grant.mcs).getD s.config.initialMcs)
  unknown : last = none → granted = none
  plain : s.config.fixedMcs = true ∨ last.join = none →
    (granted.map Grant.mcs).getD s.config.initialMcs = s.config.initialMcs

namespace Rated

variable {last : Option (Option UInt8)} {granted : Option Grant}

theorem congr (h : s.Rated id last granted) (hrating : s'.rating? id = s.rating? id)
    (hconfig : s'.config = s.config) : s'.Rated id last granted := by
  refine ⟨?_, h.unknown, ?_⟩
  · rw [hrating, hconfig, h.rating]
  · rw [hconfig]
    exact h.plain

theorem of_destination (h : s.Rated id last granted) {d : Destination}
    (hd : s.destination? id = some d) : ∃ quality, last = some quality ∧ d.cqi = quality ∧
      d.mcs = (granted.map Grant.mcs).getD s.config.initialMcs := by
  have hrating := h.rating
  rw [rating?_of_destination hd, eq_comm, Option.map_eq_some_iff] at hrating
  obtain ⟨quality, hlast, heq⟩ := hrating
  obtain ⟨hcqi, hmcs⟩ := Prod.mk.inj heq
  exact ⟨quality, hlast, hcqi.symm, hmcs.symm⟩

/-- What is selected is what the last report calls for. -/
theorem selectMcs_eq (h : s.Rated id last granted) {d : Destination}
    (hd : s.destination? id = some d) : ∃ quality, last = some quality ∧
      s.selectMcs d = s.config.schemeDue s.linkModel quality := by
  obtain ⟨quality, rfl, hcqi, hmcs⟩ := h.of_destination hd
  refine ⟨quality, rfl, ?_⟩
  unfold selectMcs SidelinkConfig.schemeDue
  cases hfixed : s.config.fixedMcs with
  | true => rfl
  | false =>
    rw [hcqi]
    cases quality with
    | some cqi => rfl
    | none =>
      rw [if_neg Bool.false_ne_true]
      exact hmcs.trans (h.plain (.inr rfl))

theorem configureChannel (h : s.Rated id last granted) (r : SidelinkRequest)
    (hconfig : (s.configureChannel r).1.config = s.config) :
    (s.configureChannel r).1.Rated id
      ((SidelinkOperation.configureChannel r).quality id last) granted := by
  by_cases hid : r.destination = id
  · rw [SidelinkOperation.quality, if_pos hid]
    refine ⟨?_, fun hnone => (nomatch hnone), ?_⟩
    · rw [rating?_configureChannel, if_pos hid, h.rating, hconfig]
      cases last with
      | none =>
        rw [h.unknown rfl]
        rfl
      | some quality => rfl
    · rw [hconfig]
      exact h.plain
  · rw [SidelinkOperation.quality, if_neg hid]
    refine h.congr ?_ hconfig
    rw [rating?_configureChannel, if_neg hid]

theorem reportQuality (h : s.Rated id last granted) (id' : DestinationId) (cqi : UInt8)
    (hconfig : (s.reportQuality id' cqi).1.config = s.config) :
    (s.reportQuality id' cqi).1.Rated id
      ((SidelinkOperation.reportQuality id' cqi).quality id last) granted := by
  by_cases hid : id' = id
  · rw [SidelinkOperation.quality, if_pos hid]
    refine ⟨?_, fun hnone => h.unknown (Option.map_eq_none_iff.mp hnone), fun hplain => ?_⟩
    · rw [rating?_reportQuality, if_pos hid, h.rating, hconfig, Option.map_map, Option.map_map]
      rfl
    · rw [hconfig] at hplain ⊢
      rcases hplain with hfixed | hnone
      · exact h.plain (.inl hfixed)
      · cases last with
        | none => exact h.plain (.inr rfl)
        | some quality => cases hnone
  · rw [SidelinkOperation.quality, if_neg hid]
    refine h.congr ?_ hconfig
    rw [rating?_reportQuality, if_neg hid]

theorem trigger (h : s.Rated id last granted) {id' : DestinationId} {cs : List Candidate}
    {outcome : Except Refusal (Option (List Grant))}
    (htrigger : s.trigger id' cs = .ok (s', outcome)) (hconfig : s'.config = s.config) :
    s'.Rated id last ((lastOf id (handedOut outcome)).or granted) := by
  rcases rating?_trigger htrigger with ⟨rfl, hnone⟩ | ⟨d, hd, hgrants, hrating⟩
  · rw [hnone]
    exact h
  · have hscheme : (((lastOf id (handedOut outcome)).or granted).map Grant.mcs).getD
        s.config.initialMcs = ((lastOf id (handedOut outcome)).map Grant.mcs).getD
          ((granted.map Grant.mcs).getD s.config.initialMcs) := by
      cases lastOf id (handedOut outcome) <;> rfl
    have hrated : s'.rating? id = last.map fun quality =>
        (quality, (((lastOf id (handedOut outcome)).or granted).map Grant.mcs).getD
          s'.config.initialMcs) := by
      rw [hrating, hconfig, hscheme, h.rating, Option.map_map]
      rfl
    cases hlast : lastOf id (handedOut outcome) with
    | none =>
      rw [hlast] at hrated
      exact ⟨hrated, h.unknown, by rw [hconfig]; exact h.plain⟩
    | some g =>
      obtain ⟨hg, hdest⟩ := List.mem_filter.mp (List.mem_of_getLast? hlast)
      obtain ⟨hid, hmcs⟩ := hgrants g hg
      obtain rfl : id' = id := hid.symm.trans (of_decide_eq_true hdest)
      obtain ⟨quality, rfl, hselect⟩ := h.selectMcs_eq hd
      rw [hlast] at hrated
      refine ⟨hrated, fun hnone => (nomatch hnone), fun hplain => ?_⟩
      rw [hconfig] at hplain ⊢
      change g.mcs = s.config.initialMcs
      rw [hmcs, hselect]
      exact SidelinkConfig.schemeDue_plain hplain

theorem perform (h : s.Rated id last granted) {op : SidelinkOperation} {more : List Grant}
    (hperform : s.perform op = .ok (s', more)) (hconfig : s'.config = s.config) :
    s'.Rated id (op.quality id last) ((lastOf id more).or granted) := by
  cases op with
  | configureChannel r =>
    cases hperform
    exact h.configureChannel r hconfig
  | reportBuffer r =>
    cases hperform
    exact h.congr (rating?_reportBuffer s r id) hconfig
  | reportQuality id' cqi =>
    cases hperform
    exact h.reportQuality id' cqi hconfig
  | trigger id' cs =>
    simp only [Sidelink.perform, bind_ok_iff, pure_ok_iff, Prod.mk.injEq] at hperform
    obtain ⟨⟨s₁, outcome⟩, htrigger, rfl, rfl⟩ := hperform
    exact h.trigger htrigger hconfig
  | addPacket id' channel process packet =>
    cases hperform
    refine h.congr ?_ hconfig
    unfold Sidelink.addPacket
    split <;> rfl
  | feedback id' process =>
    cases hperform
    refine h.congr ?_ hconfig
    unfold Sidelink.feedback
    split <;> rfl

end Rated

theorem Step.frame {op : SidelinkOperation} {p : Progress}
    {answer : Except Refusal (Option (List Grant))} (h : s.Step op p answer) :
    p.scheduler.config = s.config ∧ p.scheduler.linkModel = s.linkModel := by
  cases h with
  | sent _ hsent =>
    obtain ⟨d, harq, groups, -, -, -, -, rfl⟩ := hsent.stored
    exact ⟨rfl, rfl⟩
  | _ => exact ⟨rfl, rfl⟩

def lastGrant (id : DestinationId) (events : List SidelinkEvent) : Option Grant :=
  lastOf id (events.flatMap SidelinkEvent.grants)

theorem lastOf_append (id : DestinationId) (earlier later : List Grant) :
    lastOf id (earlier ++ later) = (lastOf id later).or (lastOf id earlier) := by
  rw [lastOf, List.filter_append, List.getLast?_append]
  rfl

/-- The coding schemes of a run that led through some events to a sidelink scheduler. -/
structure CodedByReports (s : Sidelink) (config : SidelinkConfig) (link : LinkModel)
    (events : List SidelinkEvent) : Prop where
  /-- A destination has the scheme of the last block, or the initial one. -/
  destination : ∀ id d, s.destination? id = some d → ∃ quality,
    lastQuality id events = some quality ∧ d.cqi = quality ∧
    d.mcs = ((lastGrant id events).map Grant.mcs).getD config.initialMcs ∧
    (config.fixedMcs = true ∨ quality = none → d.mcs = config.initialMcs) ∧ d.mcs ≤ link.maxMcs
  granted : ∀ before e after, events = before ++ e :: after → ∀ g ∈ e.grants,
    g.mcs ≤ link.maxMcs ∧ ∃ quality, lastQuality g.destination before = some quality ∧
      g.mcs = config.schemeDue link quality

end Sidelink

namespace SidelinkRun

variable {config : SidelinkConfig} {link : LinkModel} {confirming : Bool}
  {events : List SidelinkEvent} {s : Sidelink}

theorem frame (h : SidelinkRun config link confirming events s) :
    s.config = config ∧ s.linkModel = link ∧ config.problem? link.maxMcs = none := by
  induction h with
  | start h =>
    obtain ⟨hvalid, rfl⟩ := Sidelink.of_create h
    exact ⟨rfl, rfl, hvalid⟩
  | step run h ih =>
    obtain ⟨p, answer, hstep, rfl, -⟩ := Sidelink.step_of_perform run.sound h
    rw [hstep.frame.1, hstep.frame.2]
    exact ih

theorem rated (h : SidelinkRun config link confirming events s) (id : DestinationId) :
    s.Rated id (Sidelink.lastQuality id events) (Sidelink.lastGrant id events) := by
  induction h with
  | start h =>
    obtain ⟨-, rfl⟩ := Sidelink.of_create h
    exact ⟨rfl, fun _ => rfl, fun _ => rfl⟩
  | @step events s s' op more run h ih =>
    have hconfig : s'.config = s.config := by
      obtain ⟨p, answer, hstep, rfl, -⟩ := Sidelink.step_of_perform run.sound h
      exact hstep.frame.1
    have hrated := ih.perform h hconfig
    rw [Sidelink.lastQuality, List.foldl_append, Sidelink.lastGrant, List.flatMap_append,
      Sidelink.lastOf_append, List.flatMap_singleton]
    exact hrated

theorem scheme_of_grant (h : SidelinkRun config link confirming events s)
    {before after : List SidelinkEvent} {e : SidelinkEvent}
    (hevents : events = before ++ e :: after) {g : Grant} (hg : g ∈ e.grants) : ∃ quality,
      Sidelink.lastQuality g.destination before = some quality ∧
      g.mcs = config.schemeDue link quality := by
  obtain ⟨hrun, hperform⟩ := h.at_event hevents
  obtain ⟨d, hd, hmcs⟩ := Sidelink.mcs_of_perform hperform hg
  obtain ⟨quality, hquality, hselect⟩ := (hrun.rated g.destination).selectMcs_eq hd
  rw [hrun.frame.1, hrun.frame.2.1] at hselect
  exact ⟨quality, hquality, hmcs.trans hselect⟩

theorem coded (h : SidelinkRun config link confirming events s) :
    s.CodedByReports config link events := by
  have hgranted : ∀ before e after, events = before ++ e :: after → ∀ g ∈ e.grants,
      g.mcs ≤ link.maxMcs ∧ ∃ quality, Sidelink.lastQuality g.destination before = some quality ∧
        g.mcs = config.schemeDue link quality := by
    intro before e after hevents g hg
    obtain ⟨quality, hquality, hmcs⟩ := h.scheme_of_grant hevents hg
    exact ⟨hmcs ▸ SidelinkConfig.schemeDue_le h.frame.2.2 quality, quality, hquality, hmcs⟩
  refine ⟨fun id d hd => ?_, hgranted⟩
  have hrated := h.rated id
  obtain ⟨quality, hquality, hcqi, hmcs⟩ := hrated.of_destination hd
  have hplain := hrated.plain
  rw [h.frame.1] at hmcs hplain
  refine ⟨quality, hquality, hcqi, hmcs, fun h => hmcs.trans (hplain ?_), ?_⟩
  · rw [hquality]
    exact h
  · rw [hmcs]
    cases hlast : Sidelink.lastGrant id events with
    | none => exact SidelinkConfig.initialMcs_le h.frame.2.2
    | some g =>
      obtain ⟨hg, -⟩ := List.mem_filter.mp (List.mem_of_getLast? hlast)
      obtain ⟨e, he, hg⟩ := List.mem_flatMap.mp hg
      obtain ⟨before, after, hevents⟩ := List.append_of_mem he
      exact (hgranted before e after hevents g hg).1

end SidelinkRun

/-- In every run of a cell the scheme of a user is the fixed one of the direction, else what the last
report since it was created calls for, else the initial one. A new block carries the scheme that its
user has in that slot, and a repeated one that of its first transmission. In every run of a sidelink
scheduler a grant carries the scheme that is due at its trigger, and a destination has that of its
last grant. No scheme is beyond the table of the link model. -/
theorem schemes_follow_reports :
    (∀ (config : CellConfig) (link : LinkModel) (confirming : Bool) (events : List Event)
      (c : Cell), Run config link confirming events c → c.CodedByReports config link events) ∧
    ∀ (config : SidelinkConfig) (link : LinkModel) (confirming : Bool)
      (events : List SidelinkEvent) (s : Sidelink),
      SidelinkRun config link confirming events s → s.CodedByReports config link events :=
  ⟨fun _ _ _ _ _ h => h.coded, fun _ _ _ _ _ h => h.coded⟩

/-- A report beyond the table, between the loss of a block and its repetition, and one between two
triggers. -/
theorem schemes_follow_reports_sample :
    ∃ (events : List Event) (c : Cell) (granted : List SidelinkEvent) (s : Sidelink),
      Run sampleConfig (.proportional 10) false events c ∧
      (events.flatMap fun e => e.slot.elim [] SlotAllocation.downlink).map
        (fun a => (a.rnti, a.newData, a.mcs)) =
          [(⟨1⟩, true, 2), (⟨1⟩, false, 2), (⟨2⟩, true, 2), (⟨1⟩, true, 10)] ∧
      c.CodedByReports sampleConfig (.proportional 10) events ∧
      SidelinkRun { initialMcs := 2 } (.proportional 10) true granted s ∧
      (granted.flatMap SidelinkEvent.grants).map Grant.mcs = [2, 10] ∧
      s.CodedByReports { initialMcs := 2 } (.proportional 10) granted := by
  have hcell : (sampleCell.performAll (sampleOperations ++
      [.reportQuality ⟨⟨1⟩, .downlink, 12⟩, .slot ⟨0, 0, 1, 0⟩,
        .feedback ⟨⟨1⟩, 0, .downlink, true⟩, .slot ⟨0, 0, 2, 0⟩])).toOption.any (fun x =>
      (x.1.flatMap fun e => e.slot.elim [] SlotAllocation.downlink).map
        (fun a => (a.rnti, a.newData, a.mcs)) =
          [(⟨1⟩, true, 2), (⟨1⟩, false, 2), (⟨2⟩, true, 2), (⟨1⟩, true, 10)]) = true := by
    decide +kernel
  have hsidelink : (sampleSidelink.performAll (sampleSidelinkOperations ++
      [.reportQuality ⟨255⟩ 12, .trigger ⟨255⟩ [⟨⟨0, 1, 4, 0⟩, 0, 1, 2⟩]])).toOption.any (fun x =>
      (x.1.flatMap SidelinkEvent.grants).map Grant.mcs = [2, 10]) = true := by
    decide +kernel
  obtain ⟨⟨events, c⟩, hops, hsent⟩ := exists_ok_of_any hcell
  obtain ⟨⟨granted, s⟩, hops', hgranted⟩ := exists_ok_of_any hsidelink
  simp only [decide_eq_true_eq] at hsent hgranted
  exact ⟨events, c, granted, s, run_sample hops, hsent,
    schemes_follow_reports.1 _ _ _ _ _ (run_sample hops), sidelinkRun_sample hops', hgranted,
    schemes_follow_reports.2 _ _ _ _ _ (sidelinkRun_sample hops')⟩

end Airtime
