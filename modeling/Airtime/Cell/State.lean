import Airtime.Cell.Config
import Airtime.Layout

/-!
A cell and what can be asked of its scheduler between two slots. Each operation gives the state that
it leaves behind together with its outcome, so that a refusal shows what it changed.
-/

namespace Airtime

structure Cell where
  config : CellConfig
  linkModel : LinkModel
  users : Table Rnti User
  /-- Whether somebody waits for confirmations. -/
  confirming : Bool

namespace Cell

def create (config : CellConfig) (linkModel : LinkModel) (confirming : Bool := false) :
    Except Refusal Cell :=
  match config.problem? linkModel.maxMcs with
  | some e => .error (.config e)
  | none => .ok ⟨config, linkModel, ∅, confirming⟩

def policy (c : Cell) : Policy := c.config.policy.policy

def user? (c : Cell) (rnti : Rnti) : Option User := c.users.get? rnti

def put (c : Cell) (u : User) : Cell := { c with users := c.users.insert u.rnti u }

def freshUser (c : Cell) (rnti : Rnti) (beam : BeamId) : User :=
  .fresh rnti beam c.config.processes (c.config.firstMcs .downlink) (c.config.firstMcs .uplink)

def ensureUser (c : Cell) (rnti : Rnti) (beam : BeamId) : User × Cell :=
  match c.user? rnti with
  | some u => (u, c)
  | none => let u := c.freshUser rnti beam; (u, c.put u)

def configureUser (c : Cell) (rnti : Rnti) (beam : BeamId) : Cell :=
  let (u, c) := c.ensureUser rnti beam
  c.put { u with beam }

def moveUser (c : Cell) (rnti : Rnti) (beam : BeamId) : Cell × Except Refusal Unit :=
  match c.user? rnti with
  | none => (c, .error (.unknownUser rnti))
  | some u => (c.put { u with beam }, .ok ())

def removeUser (c : Cell) (rnti : Rnti) : Cell × Except Refusal Unit :=
  match c.user? rnti with
  | none => (c, .error (.unknownUser rnti))
  | some _ => ({ c with users := c.users.erase rnti }, .ok ())

def addDownlink (gs : Groups) (r : ChannelRequest) : Groups × Except Refusal Unit :=
  match gs.holding? r.channel with
  | some (_, g) => (gs, .error (.duplicateChannel g.id r.channel))
  | none =>
    let g := (gs.get? r.group).getD (.empty r.group)
    match g.insert (.fresh r.channel r.group r.priority) with
    | .error e => (gs.insert r.group g, .error e)
    | .ok g => (gs.insert r.group g, .ok ())

/-- Adds an uplink group. It holds one channel, which has the number of the group, since users report
their uplink by group. -/
def addUplink (gs : Groups) (r : ChannelRequest) : Groups × Except Refusal Unit :=
  let g := (gs.get? r.group).getD (.empty r.group)
  if g.contains r.group then (gs.insert r.group g, .ok ())
  else
    match g.insert (.fresh r.group r.group r.priority) with
    | .error e => (gs.insert r.group g, .error e)
    | .ok g => (gs.insert r.group g, .ok ())

def addChannel (u : User) (d : Direction) (r : ChannelRequest) : User × Except Refusal Unit :=
  if r.direction.carries d then
    let s := u.link d
    let (groups, outcome) := match d with
      | .downlink => addDownlink s.groups r
      | .uplink => addUplink s.groups r
    (u.setLink d { s with groups }, outcome)
  else (u, .ok ())

/-- Sets up a channel, creating the user and the group on first use; the downlink comes first. -/
def configureChannel (c : Cell) (r : ChannelRequest) :
    Cell × Except Refusal (Option Confirmation) :=
  let (u, c) := c.ensureUser r.rnti ⟨0⟩
  match addChannel u .downlink r with
  | (u, .error e) => (c.put u, .error e)
  | (u, .ok ()) =>
    match addChannel u .uplink r with
    | (u, .error e) => (c.put u, .error e)
    | (u, .ok ()) => (c.put u, .ok (if c.confirming then some ⟨r.group, r.channel⟩ else none))

def reportBuffer (c : Cell) (r : BufferReport Rnti) : Cell × Except Refusal Unit :=
  match c.user? r.destination with
  | none => (c, .error (.unknownUser r.destination))
  | some u =>
    match u.downlink.groups.update r with
    | .error e => (c, .error e)
    | .ok (_, groups) => (c.put (u.modify .downlink ({ · with groups })), .ok ())

def reportGroup (c : Cell) (r : GroupReport) : Cell × Except Refusal Unit :=
  match c.user? r.rnti with
  | none => (c, .error (.unknownUser r.rnti))
  | some u =>
    match u.uplink.groups.get? r.group with
    | none => (c, .error (.unknownGroup r.group))
    | some g =>
      match g.update (.newData r.rnti r.group r.bytes) with
      | .error e => (c, .error e)
      | .ok g =>
        let groups := u.uplink.groups.insert r.group g
        (c.put (u.modify .uplink ({ · with groups })), .ok ())

def reportQuality (c : Cell) (r : QualityReport) : Cell × Except Refusal Unit :=
  match c.user? r.rnti with
  | none => (c, .error (.unknownUser r.rnti))
  | some u =>
    let mcs := c.linkModel.adapted r.cqi
    let u := u.modify r.direction fun s =>
      { s with
        cqi := some r.cqi
        mcs := if (c.config.fixedMcs r.direction).isNone then mcs else s.mcs }
    (c.put u, .ok ())

/-- Success, or loss of a block that was sent `maxTransmissions` times, releases the process; any
other loss asks for the block again. -/
def feedback (c : Cell) (f : Feedback) : Cell × Except Refusal Unit :=
  match c.user? f.rnti with
  | none => (c, .error (.unknownUser f.rnti))
  | some u =>
    let s := u.link f.direction
    let block := s.inFlight.get? f.process
    let retry := block.filter fun b =>
      !f.success && b.transmissions < c.config.maxTransmissions
    match retry with
    | some b =>
      let s := { s with inFlight := s.inFlight.insert f.process { b with lost := true } }
      (c.put (u.setLink f.direction s), .ok ())
    | none =>
      let s := { s with inFlight := s.inFlight.erase f.process }
      match s.harq.release f.rnti f.process with
      | .error e => (c.put (u.setLink f.direction s), .error (.harq e))
      | .ok harq => (c.put (u.setLink f.direction { s with harq }), .ok ())

end Cell

end Airtime
