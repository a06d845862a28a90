import Airtime.Refusal

/-!
A pool of numbered processes, each free or held by one holder. A held process keeps packets until
feedback releases it, at most one packet for each channel. Free processes queue: the one that has
been free longest is taken first.
-/

namespace Airtime

structure Process (κ π : Type) where
  holder : Option κ
  channels : KeySet ChannelId
  packets : List π

def Process.empty {κ π : Type} : Process κ π := ⟨none, ∅, []⟩

/-- Processes are numbered by their place in `processes`; `free` lists the free ones, oldest
first. -/
structure HarqTable (κ π : Type) where
  free : List ProcessId
  processes : List (Process κ π)

namespace HarqTable

variable {κ π : Type}

def unsized : HarqTable κ π := ⟨[], []⟩

def ofCapacity (n : UInt8) : HarqTable κ π :=
  ⟨(List.range n.toNat).map UInt8.ofNat, List.replicate n.toNat .empty⟩

def setup (t : HarqTable κ π) (n : UInt8) : Except HarqError (HarqTable κ π) :=
  if t.free.isEmpty && t.processes.isEmpty then .ok (ofCapacity n) else .error .alreadySized

def capacity (t : HarqTable κ π) : Nat := t.processes.length

def available (t : HarqTable κ π) : Nat := t.free.length

def isFree (t : HarqTable κ π) (id : ProcessId) : Bool := t.free.contains id

def holder? (t : HarqTable κ π) (id : ProcessId) : Option κ :=
  t.processes[id.toNat]?.bind Process.holder

def put (t : HarqTable κ π) (id : ProcessId) (p : Process κ π) : HarqTable κ π :=
  { t with processes := t.processes.set id.toNat p }

/-- Binds the process that has been free longest. -/
def assign (t : HarqTable κ π) (holder : κ) : Except HarqError (ProcessId × HarqTable κ π) :=
  match t.free with
  | [] => .error .allBusy
  | id :: rest =>
    let processes := t.processes.modify id.toNat fun p => { p with holder := some holder }
    .ok (id, ⟨rest, processes⟩)

variable [DecidableEq κ] [Holder κ]

def held (t : HarqTable κ π) (holder : κ) (id : ProcessId) : Except HarqError (Process κ π) :=
  match t.processes[id.toNat]? with
  | none => .error (.unknownProcess id)
  | some p =>
    if p.holder = some holder then .ok p else .error (.wrongHolder id (Holder.label holder))

/-- Stores a packet. Channels and packets grow together, so a channel stores one packet only. -/
def addPacket (t : HarqTable κ π) (holder : κ) (channel : ChannelId) (id : ProcessId)
    (packet : π) : Except HarqError (HarqTable κ π) := do
  let p ← t.held holder id
  let channels := p.channels.insert channel ()
  let packets := p.packets ++ [packet]
  if channels.size = packets.length then .ok (t.put id { p with channels, packets })
  else .error (.payloadMismatch id channels.size packets.length)

/-- Feedback empties the process and puts it last among the free ones. -/
def release (t : HarqTable κ π) (holder : κ) (id : ProcessId) :
    Except HarqError (HarqTable κ π) := do
  if t.capacity ≤ id.toNat then .error (.unknownProcess id)
  else if t.isFree id then .error (.alreadyFree id)
  else
    let _ ← t.held holder id
    .ok { t.put id .empty with free := t.free ++ [id] }

def packets (t : HarqTable κ π) (holder : κ) (id : ProcessId) : Except HarqError (List π) :=
  Process.packets <$> t.held holder id

def channels (t : HarqTable κ π) (holder : κ) (id : ProcessId) :
    Except HarqError (List ChannelId) :=
  (·.channels.keys) <$> t.held holder id

end HarqTable

/-- Transmissions of a block cycle through four redundancy versions. -/
def redundancyVersion (transmission : UInt8) : UInt8 :=
  match transmission.toNat % 4 with
  | 0 => 0
  | 1 => 2
  | 2 => 3
  | _ => 1

end Airtime
