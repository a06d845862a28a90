import Airtime.Cell.State
import Airtime.Allocation.Tdma
import Airtime.Allocation.Ofdma

/-!
Scheduling of one slot. In each direction lost blocks are sent again first, one after the other in
time; the symbols that are left go to new data.
-/

namespace Airtime

structure Draft where
  cursor : Cursor
  left : UInt32
  assignments : List Assignment
  used : BeamSymbols

namespace Draft

def start (c : CellConfig) (d : Direction) : Except Fault Draft := do
  return ⟨⟨0, c.control d⟩, ← Word.sub c.symbols (c.control d), [], ∅⟩

/-- Sends a lost block again if it fits; `units` counts what the user's repeated blocks take. -/
def resend (beam : BeamId) : Draft × UInt32 → ProcessId → Block →
    Except Fault ((Draft × UInt32) × Block)
  | (draft, units), _, b => do
    if !b.lost || draft.left < b.assignment.numSym then return ((draft, units), b)
    else
      let (a, cursor) ← draft.cursor.placeAgain b.assignment beam b.transmissions
      let left ← Word.sub draft.left a.numSym
      let used ← draft.used.give beam a.numSym
      let units ← Word.add units (← Word.mul a.numRbg a.numSym)
      let transmissions ← Word.add b.transmissions 1
      return ((⟨cursor, left, draft.assignments ++ [a], used⟩, units), ⟨a, transmissions, false⟩)

def resendUser (draft : Draft) (d : Direction) (u : User) : Except Fault (Draft × User) := do
  let s := u.link d
  let ((draft, retxRbg), inFlight) ← s.inFlight.walk (resend u.beam) (draft, s.retxRbg)
  return (draft, u.setLink d { s with retxRbg, inFlight })

end Draft

namespace Cell

/-- The users that can send new data: with bytes waiting and a free process, and nothing sent again
or waiting to be. -/
def contenders (c : Cell) (d : Direction) : Except Fault Contenders := do
  let all ← c.users.values.mapM fun u => do
    return { user := u, backlog := ← (u.link d).backlog : Contender }
  return .ofList <| all.filter fun k =>
    let s := k.user.link d
    k.backlog != 0 && s.harq.available != 0 && s.retxRbg == 0 && !s.hasLost

def sharesBand (c : Cell) (d : Direction) : Bool :=
  d = .downlink && c.config.scheme = .ofdma

def allocate (c : Cell) (d : Direction) (symbols : UInt32) (active : Contenders) :
    Except Fault (BeamSymbols × Contenders) :=
  let { groups, blocksPerGroup, .. } := c.config
  if c.sharesBand d then assignOfdma c.linkModel blocksPerGroup c.policy symbols groups active
  else assignTdma ⟨d, c.linkModel, blocksPerGroup⟩ c.policy symbols groups active

/-- Moves the bytes of a block from the channels into its process, where they wait for feedback. -/
def commit (s : LinkState) (a : Assignment) : Except Failure LinkState := do
  let (pdus, groups) ← s.groups.fill a.blockSize
  let harq : Except Refusal (HarqTable Rnti Pdu) :=
    pdus.foldlM (fun t (p : Pdu) => t.addPacket a.rnti p.channel a.process p) s.harq
  let harq ← harq
  return { s with groups, harq, inFlight := s.inFlight.insert a.process ⟨a, 1, false⟩ }

def serve (c : Cell) (d : Direction) (draft : Draft) (u : User) : Except Failure (Draft × User) := do
  let s ← (u.link d).sized c.linkModel c.config.blocksPerGroup
  if s.blockSize = 0 then return (draft, u.setLink d s)
  else
    match s.harq.assign u.rnti with
    | .error _ => return (draft, u.setLink d { s with blockSize := 0 })
    | .ok (process, harq) =>
      let s := { s with harq }
      let u := u.setLink d s
      let (a, cursor) ←
        if c.sharesBand d then draft.cursor.placeRange u d process
        else draft.cursor.placeBand u d c.config.groups process
      let s ← commit s a
      return ({ draft with cursor, assignments := draft.assignments ++ [a] }, u.setLink d s)

/-- Lays out the users of one beam, and then moves past the beam if it has symbols of its own. -/
def serveBeam (c : Cell) (d : Direction) (split : BeamSymbols) (draft : Draft) (beam : BeamId)
    (cs : List Contender) : Except Failure (Draft × List User) := do
  let (draft, users) ← cs.foldlM (fun (draft, users) k => do
    let (draft, u) ← c.serve d draft k.user
    return (draft, users ++ [u])) (draft, ([] : List User))
  if c.sharesBand d then
    let cursor ← draft.cursor.nextBeam ((split.get? beam).getD 0)
    return ({ draft with cursor }, users)
  else return (draft, users)

def addNewData (c : Cell) (d : Direction) (draft : Draft) : Except Failure (Cell × Draft) := do
  let active ← c.contenders d
  if active.isEmpty then return (c, draft)
  else
    let (split, active) ← c.allocate d draft.left active
    let (draft, served) ← active.walk (c.serveBeam d split) draft
    let used ← split.entries.foldlM (fun t e => BeamSymbols.give t e.1 e.2) draft.used
    return (served.values.flatten.foldl put c, { draft with used })

def scheduleDirection (c : Cell) (d : Direction) : Except Failure (Cell × Draft) := do
  let c := { c with users := c.users.map fun (u : User) => u.modify d LinkState.newSlot }
  let draft ← Draft.start c.config d
  let (draft, users) ← c.users.walk (fun (draft : Draft) _ u => draft.resendUser d u) draft
  let c := { c with users }
  if draft.left = 0 then return (c, draft) else c.addNewData d draft

def scheduleSlot (c : Cell) (time : SlotTime) : Except Failure (Cell × SlotAllocation) := do
  let (c, down) ← c.scheduleDirection .downlink
  let (c, up) ← c.scheduleDirection .uplink
  return (c, {
    time := some time
    downlink := down.assignments
    uplink := up.assignments
    downlinkSymbols := down.used.entries
    uplinkSymbols := up.used.entries })

end Cell

end Airtime
