import Airtime.Proofs.Fill
import Airtime.Proofs.Pool
import Airtime.Proofs.Sound
import Airtime.Sidelink

/-! Runs of a sidelink scheduler: any operations in any order, from its creation on. Refused operations
count with the state that they leave behind; a trigger that leaves the range of a computation ends the
run. In every state of a run the channels of each destination are in their places, and the pool of
processes is consistent. -/

namespace Airtime

inductive SidelinkOperation where
  | configureChannel (r : SidelinkRequest)
  | reportBuffer (r : BufferReport DestinationId)
  | reportQuality (id : DestinationId) (cqi : UInt8)
  | trigger (id : DestinationId) (candidates : List Candidate)
  | addPacket (id : DestinationId) (channel : ChannelId) (process : ProcessId) (packet : Packet)
  | feedback (id : DestinationId) (process : ProcessId)

/-- The grants that a trigger hands out; there are none if it is refused or sends no block. -/
def Sidelink.handedOut : Except Refusal (Option (List Grant)) → List Grant
  | .ok (some grants) => grants
  | _ => []

/-- The state that an operation leaves behind, and the grants if it is a trigger. -/
def Sidelink.perform (s : Sidelink) : SidelinkOperation → Except Fault (Sidelink × List Grant)
  | .configureChannel r => .ok ((s.configureChannel r).1, [])
  | .reportBuffer r => .ok ((s.reportBuffer r).1, [])
  | .reportQuality id cqi => .ok ((s.reportQuality id cqi).1, [])
  | .trigger id candidates => do
    let (s, outcome) ← s.trigger id candidates
    return (s, handedOut outcome)
  | .addPacket id channel process packet => .ok ((s.addPacket id channel process packet).1, [])
  | .feedback id process => .ok ((s.feedback id process).1, [])

structure SidelinkEvent where
  before : Sidelink
  operation : SidelinkOperation
  grants : List Grant
  after : Sidelink

inductive SidelinkRun (config : SidelinkConfig) (link : LinkModel) (confirming : Bool) :
    List SidelinkEvent → Sidelink → Prop
  | start {s : Sidelink} (h : Sidelink.create config link confirming = .ok s) :
      SidelinkRun config link confirming [] s
  | step {events : List SidelinkEvent} {s s' : Sidelink} {op : SidelinkOperation}
      {grants : List Grant} (run : SidelinkRun config link confirming events s)
      (h : s.perform op = .ok (s', grants)) :
      SidelinkRun config link confirming (events ++ [⟨s, op, grants, s'⟩]) s'

def Sidelink.Reachable (s : Sidelink) : Prop :=
  ∃ config link confirming events, SidelinkRun config link confirming events s

/-- The channels of every destination are in their places, and so are the processes. -/
structure Sidelink.Sound (s : Sidelink) : Prop where
  groups : ∀ id d, s.destination? id = some d → d.groups.WellFormed
  harq : s.harq.WellFormed

/-- A block towards a destination takes the next free process and what the channels give. -/
structure Sidelink.Sent (s : Sidelink) (id : DestinationId) (first : Grant) (s' : Sidelink) :
    Prop where
  destination : first.destination = id
  size_ne : first.blockSize ≠ 0
  stored : ∃ d harq groups, s.destination? id = some d ∧
    (∃ n, d.backlog = .ok n ∧ n ≠ 0) ∧
    s.harq.assign id = .ok (first.process, harq) ∧
    d.groups.fill first.blockSize = .ok (first.content, groups) ∧
    s' = { s with harq }.put id { d with groups, mcs := first.mcs }

namespace Sidelink

variable {s s' : Sidelink}

theorem destination?_put (s : Sidelink) (id : DestinationId) (d : Destination)
    (id' : DestinationId) :
    (s.put id d).destination? id' = if id' = id then some d else s.destination? id' :=
  Table.get?_insert_if s.destinations id id' d

/-- A trigger leaves everything as it is, or it sends a block on some of the candidates. -/
theorem trigger_cases {id : DestinationId} {candidates : List Candidate}
    {outcome : Except Refusal (Option (List Grant))}
    (h : s.trigger id candidates = .ok (s', outcome)) :
    s' = s ∧ (outcome = .ok none ∨ ∃ why, outcome = .error why) ∨
      ∃ chosen first, chosen ≠ [] ∧ chosen.length ≤ 255 ∧
        outcome = .ok (some (grants chosen first)) ∧ s.Sent id first s' := by
  unfold trigger at h
  split at h
  · cases h
    exact .inl ⟨rfl, .inr ⟨_, rfl⟩⟩
  · next d hd =>
    obtain ⟨backlog, hbacklog, h⟩ := bind_ok_iff.mp h
    split at h
    · cases h
      exact .inl ⟨rfl, .inl rfl⟩
    · next hready =>
      simp only [not_or] at hready
      obtain ⟨ordered, -, h⟩ := bind_ok_iff.mp h
      generalize hcount : (if d.repeated = true then s.config.maxTransmissions.toNat else 1) = count
        at h
      simp only at h
      split at h
      · cases h
        exact .inl ⟨rfl, .inl rfl⟩
      · next hsize =>
        split at h
        · cases h
          exact .inl ⟨rfl, .inr ⟨_, rfl⟩⟩
        · next process harq hassign =>
          obtain ⟨⟨content, groups⟩, hfill, h⟩ := bind_ok_iff.mp h
          obtain ⟨rfl, rfl⟩ := Prod.mk.inj (Except.ok.inj h)
          refine .inr ⟨_, _, ?_, ?_, rfl, rfl, hsize, d, harq, groups, hd,
            ⟨backlog, hbacklog, hready.1⟩, hassign, hfill, rfl⟩
          · -- Without a candidate there is no subchannel, and then no byte.
            intro hnone
            rw [hnone] at hsize
            exact hsize rfl
          · have := s.config.maxTransmissions.toNat_lt
            have hle : (ordered.take count).length ≤ count := List.length_take_le ..
            split at hcount <;> omega

theorem Sound.put (hs : s.Sound) (id : DestinationId) {d : Destination}
    (hd : d.groups.WellFormed) : (s.put id d).Sound where
  groups id' d' hd' := by
    rw [destination?_put] at hd'
    split at hd'
    · cases hd'
      exact hd
    · exact hs.groups id' d' hd'
  harq := hs.harq

theorem Sound.withHarq (hs : s.Sound) {harq : HarqTable DestinationId Packet}
    (wf : harq.WellFormed) : Sound { s with harq } := ⟨hs.groups, wf⟩

theorem of_create {config : SidelinkConfig} {link : LinkModel} {confirming : Bool}
    (h : create config link confirming = .ok s) : config.problem? link.maxMcs = none ∧
      s = ⟨config, link, ∅, .ofCapacity config.processes, confirming⟩ := by
  unfold create at h
  split at h
  · cases h
  · next hvalid =>
    obtain ⟨harq, hharq, h⟩ := bind_ok_iff.mp h
    obtain ⟨-, rfl⟩ := HarqTable.wellFormed_unsized.setup_ok_iff.mp (lift_harq_ok_iff.mp hharq)
    exact ⟨hvalid, (pure_ok_iff.mp h).symm⟩

theorem sound_create {config : SidelinkConfig} {link : LinkModel} {confirming : Bool}
    (h : create config link confirming = .ok s) : s.Sound := by
  obtain ⟨-, rfl⟩ := of_create h
  exact ⟨fun id d hd => (by cases hd), HarqTable.wellFormed_ofCapacity _⟩

theorem Sound.ensured (hs : s.Sound) (id : DestinationId) :
    ((s.destination? id).getD (.fresh s.config.initialMcs)).groups.WellFormed := by
  cases hd : s.destination? id with
  | none => exact Groups.wellFormed_empty
  | some d => exact hs.groups id d hd

theorem Sound.configureChannel (hs : s.Sound) (r : SidelinkRequest) :
    (s.configureChannel r).1.Sound := by
  have wf := hs.ensured r.destination
  unfold Sidelink.configureChannel
  simp only
  split
  · exact hs.put _ wf
  · next hnone =>
    split
    · exact hs.put _ (Groups.ensure_group wf r.group rfl).1
    · next hinsert =>
      refine hs.put _ (Groups.add_channel wf rfl (fun who hwho heq => ?_) hinsert).1
      exact absurd heq (Groups.holding?_none hnone who hwho)

theorem Sound.reportBuffer (hs : s.Sound) (r : BufferReport DestinationId) :
    (s.reportBuffer r).1.Sound := by
  unfold Sidelink.reportBuffer
  split
  · exact hs
  · next d hd =>
    split
    · exact hs
    · next hupdate => exact hs.put _ ((hs.groups _ d hd).updates hupdate)

theorem Sound.reportQuality (hs : s.Sound) (id : DestinationId) (cqi : UInt8) :
    (s.reportQuality id cqi).1.Sound := by
  unfold Sidelink.reportQuality
  split
  · exact hs
  · next d hd => exact hs.put id (hs.groups id d hd)

theorem Sound.sent (hs : s.Sound) {id : DestinationId} {first : Grant} (h : s.Sent id first s') :
    s'.Sound := by
  obtain ⟨d, harq, groups, hd, -, hassign, hfill, rfl⟩ := h.stored
  exact (hs.withHarq (HarqTable.wellFormed_assign hs.harq hassign)).put id
    (Groups.filled_of_fill (hs.groups id d hd) hfill).wellFormed

theorem Sound.addPacket (hs : s.Sound) (id : DestinationId) (channel : ChannelId)
    (process : ProcessId) (packet : Packet) : (s.addPacket id channel process packet).1.Sound := by
  unfold Sidelink.addPacket
  split
  · exact hs
  · next hadd => exact hs.withHarq (HarqTable.wellFormed_addPacket hs.harq hadd)

theorem Sound.feedback (hs : s.Sound) (id : DestinationId) (process : ProcessId) :
    (s.feedback id process).1.Sound := by
  unfold Sidelink.feedback
  split
  · exact hs
  · next hrelease => exact hs.withHarq (HarqTable.wellFormed_release hs.harq hrelease)

theorem Sound.perform {op : SidelinkOperation} {grants : List Grant} (hs : s.Sound)
    (h : s.perform op = .ok (s', grants)) : s'.Sound := by
  cases op with
  | configureChannel r =>
    cases h
    exact hs.configureChannel r
  | reportBuffer r =>
    cases h
    exact hs.reportBuffer r
  | reportQuality id cqi =>
    cases h
    exact hs.reportQuality id cqi
  | trigger id candidates =>
    simp only [Sidelink.perform, bind_ok_iff, pure_ok_iff, Prod.mk.injEq] at h
    obtain ⟨⟨s₁, outcome⟩, htrigger, rfl, -⟩ := h
    rcases trigger_cases htrigger with ⟨rfl, -⟩ | ⟨chosen, first, -, -, -, hsent⟩
    · exact hs
    · exact hs.sent hsent
  | addPacket id channel process packet =>
    cases h
    exact hs.addPacket id channel process packet
  | feedback id process =>
    cases h
    exact hs.feedback id process

end Sidelink

theorem SidelinkRun.sound {config : SidelinkConfig} {link : LinkModel} {confirming : Bool}
    {events : List SidelinkEvent} {s : Sidelink}
    (h : SidelinkRun config link confirming events s) : s.Sound := by
  induction h with
  | start h => exact Sidelink.sound_create h
  | step _ h ih => exact ih.perform h

theorem Sidelink.Reachable.sound {s : Sidelink} (h : s.Reachable) : s.Sound := by
  obtain ⟨config, link, confirming, events, hrun⟩ := h
  exact hrun.sound

theorem SidelinkRun.at_event {config : SidelinkConfig} {link : LinkModel} {confirming : Bool}
    {events before after : List SidelinkEvent} {s : Sidelink} {e : SidelinkEvent}
    (h : SidelinkRun config link confirming events s) (hevents : events = before ++ e :: after) :
    SidelinkRun config link confirming before e.before ∧
      e.before.perform e.operation = .ok (e.after, e.grants) := by
  induction h generalizing after with
  | start h => simp at hevents
  | step run h ih =>
    rcases split_of_concat hevents with ⟨rfl, rfl, -⟩ | ⟨between, hsplit, -⟩
    · exact ⟨run, h⟩
    · exact ih hsplit

def Sidelink.performAll (s : Sidelink) :
    List SidelinkOperation → Except Fault (List SidelinkEvent × Sidelink)
  | [] => .ok ([], s)
  | op :: ops => do
    let (s', grants) ← s.perform op
    let (events, last) ← s'.performAll ops
    return (⟨s, op, grants, s'⟩ :: events, last)

theorem SidelinkRun.performAll {config : SidelinkConfig} {link : LinkModel} {confirming : Bool}
    {events more : List SidelinkEvent} {s s' : Sidelink} {ops : List SidelinkOperation}
    (h : SidelinkRun config link confirming events s) (hops : s.performAll ops = .ok (more, s')) :
    SidelinkRun config link confirming (events ++ more) s' := by
  induction ops generalizing events more s with
  | nil =>
    cases hops
    rwa [List.append_nil]
  | cons op ops ih =>
    simp only [Sidelink.performAll, bind_ok_iff, pure_ok_iff, Prod.mk.injEq] at hops
    obtain ⟨⟨s₁, grants⟩, hstep, ⟨rest, last⟩, hrest, rfl, rfl⟩ := hops
    have := ih (h.step hstep) hrest
    rwa [List.append_assoc, List.singleton_append] at this

def sampleSidelink : Sidelink := ⟨{ initialMcs := 2 }, .proportional 10, ∅, .ofCapacity 4, true⟩

/-- Two channels of different groups towards one destination. A block takes the bytes of the first
one and some of the second one's. -/
def sampleSidelinkOperations : List SidelinkOperation :=
  let channel (channel : ChannelId) (group : GroupId) : SidelinkOperation :=
    .configureChannel { destination := ⟨255⟩, channel, group, priority := 1, delayBudget := 20,
                        repeated := false }
  let report (channel : ChannelId) (tx : UInt32) : SidelinkOperation :=
    .reportBuffer (.newData ⟨255⟩ channel tx)
  [channel 4 3, channel 5 2, report 4 10, report 5 90,
    .trigger ⟨255⟩ [⟨⟨0, 0, 4, 0⟩, 0, 1, 2⟩]]

theorem sidelinkRun_sample {ops : List SidelinkOperation} {events : List SidelinkEvent}
    {s : Sidelink} (h : sampleSidelink.performAll ops = .ok (events, s)) :
    SidelinkRun { initialMcs := 2 } (.proportional 10) true events s :=
  SidelinkRun.performAll (.start rfl) h

end Airtime
