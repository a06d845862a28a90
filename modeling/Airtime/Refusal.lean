import Airtime.Arithmetic
import Airtime.Identity

/-!
Why a request is refused. Apart from running out of processes, a refusal means that the caller broke
the rules: it named what was never set up, or asked out of turn.
-/

namespace Airtime

inductive HarqError where
  | alreadySized
  | allBusy
  | unknownProcess (id : ProcessId)
  | wrongHolder (id : ProcessId) (holder : String)
  | alreadyFree (id : ProcessId)
  /-- Storing a packet would leave as many channels and packets as given. -/
  | payloadMismatch (id : ProcessId) (channels packets : Nat)
  deriving DecidableEq, Repr

namespace HarqError

def message : HarqError → String
  | alreadySized => "HARQ buffers not empty, can not initialize"
  | allBusy => "All the HARQ processes are busy"
  | unknownProcess id => "HARQ id " ++ toString id.toNat ++ " does not exist"
  | wrongHolder id holder =>
    "HARQ id " ++ toString id.toNat ++ " does not belong to destination " ++ holder
  | alreadyFree id =>
    "Can not receive feedback for already available HARQ id " ++ toString id.toNat
  | payloadMismatch id channels packets =>
    "Mismatch between " ++ toString channels ++ " LCIDs and " ++ toString packets ++
      " packets for HARQ id " ++ toString id.toNat

def breaksRules : HarqError → Bool
  | allBusy => false
  | _ => true

end HarqError

inductive ConfigError where
  | emptyBand (groups blocksPerGroup : UInt32)
  | noDataSymbol (control symbols : UInt32)
  | noProcess
  | mcsAboveMaximum (mcs maximum : UInt8)
  | sidelinkMcsAboveMaximum (mcs maximum : UInt8)
  | sidelinkEmpty
  deriving DecidableEq, Repr

def ConfigError.message : ConfigError → String
  | .emptyBand groups blocks =>
    "empty band: " ++ toString groups.toNat ++ " RBGs of " ++ toString blocks.toNat ++ " RBs"
  | .noDataSymbol control symbols =>
    toString control.toNat ++ " control symbols leave no data symbol out of " ++
      toString symbols.toNat
  | .noProcess => "at least one HARQ process and one transmission are needed"
  | .mcsAboveMaximum mcs maximum =>
    "MCS " ++ toString mcs.toNat ++ " above the maximum " ++ toString maximum.toNat
  | .sidelinkMcsAboveMaximum mcs maximum =>
    "sidelink MCS " ++ toString mcs.toNat ++ " above the maximum " ++ toString maximum.toNat
  | .sidelinkEmpty => "sidelink needs HARQ processes, transmissions and RBs per subchannel"

inductive Refusal where
  | unknownUser (rnti : Rnti)
  | unknownDestination (destination : DestinationId)
  | unknownChannel (channel : ChannelId)
  | unknownGroup (group : GroupId)
  | duplicateChannel (group : GroupId) (channel : ChannelId)
  | groupMismatch (channel : ChannelId) (ofChannel ofGroup : GroupId)
  | config (e : ConfigError)
  | harq (e : HarqError)
  deriving DecidableEq, Repr

namespace Refusal

def message : Refusal → String
  | unknownUser rnti => "UE " ++ rnti.text ++ " not found"
  | unknownDestination d => "Destination " ++ d.text ++ " not found"
  | unknownChannel c => "Logical channel " ++ toString c.toNat ++ " does not exist"
  | unknownGroup g => "Logical channel group " ++ toString g.toNat ++ " does not exist"
  | duplicateChannel g c =>
    "Logical channel " ++ toString c.toNat ++ " already configured in group " ++ toString g.toNat
  | groupMismatch c ofChannel ofGroup =>
    "Logical channel " ++ toString c.toNat ++ " belongs to group " ++ toString ofChannel.toNat ++
      ", not to group " ++ toString ofGroup.toNat
  | config e => "Invalid configuration: " ++ e.message
  | harq e => "HARQ error: " ++ e.message

def breaksRules : Refusal → Bool
  | harq e => e.breaksRules
  | _ => true

end Refusal

/-- A run ends early with a refusal, or because a computation left its range. -/
inductive Failure where
  | refused (why : Refusal)
  | fault (f : Fault)
  deriving DecidableEq, Repr

instance : MonadLift (Except Fault) (Except Failure) := ⟨Except.mapError Failure.fault⟩
instance : MonadLift (Except Refusal) (Except Failure) := ⟨Except.mapError Failure.refused⟩
instance : MonadLift (Except HarqError) (Except Refusal) := ⟨Except.mapError Refusal.harq⟩

/-- State and value of an operation that was not refused. -/
def accepted {σ α : Type} (r : σ × Except Refusal α) : Except Refusal (σ × α) :=
  r.2.map fun a => (r.1, a)

end Airtime
