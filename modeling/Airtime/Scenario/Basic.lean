import Airtime.Carrier
import Airtime.Cell.Config
import Airtime.Decimal.Shortest
import Airtime.Sidelink

/-!
Scenarios of the simulator: a carrier, a scheduler, users and sidelink destinations with their traffic,
and what goes wrong on the air. Every part has defaults.
-/

namespace Airtime

structure CarrierSetup where
  cellId : UInt16 := 1
  bandwidthMhz : UInt32 := 20
  spacingKhz : UInt16 := 30
  deriving DecidableEq, Repr

structure LinkSetup where
  maxMcs : UInt8 := 28
  baseEfficiency : Float := 0.2
  efficiencyStep : Float := 0.2

structure UserSetup where
  rnti : Rnti
  beam : BeamId := ⟨0⟩
  channel : ChannelId := 1
  group : GroupId := 1
  /-- Downlink bytes that arrive in each slot. -/
  downlinkRate : UInt32 := 0
  uplinkRate : UInt32 := 0
  cqi : Option UInt8 := none
  deriving DecidableEq, Repr

structure DestinationSetup where
  destination : DestinationId
  channel : ChannelId := 1
  group : GroupId := 1
  repeated : Bool := false
  rate : UInt32 := 0
  cqi : Option UInt8 := none
  deriving DecidableEq, Repr

structure SidelinkSetup where
  scheduler : SidelinkConfig := {}
  subchannels : UInt16 := 10
  symbols : UInt16 := 9
  period : UInt32 := 4
  candidates : UInt32 := 4
  destinations : List DestinationSetup := []
  deriving DecidableEq, Repr

structure ChannelSetup where
  errorRate : Float := 0.1
  seed : Option UInt64 := none

structure LogSetup where
  level : String := "info"
  /-- Slots between two reports of the counters; none for 0. -/
  reportPeriod : UInt64 := 1000
  traceFile : Option String := none
  deriving DecidableEq, Repr

structure Scenario where
  carrier : CarrierSetup := {}
  /-- The band of the scheduler follows from the carrier, whatever is given here. -/
  scheduler : CellConfig := {}
  link : LinkSetup := {}
  users : List UserSetup := []
  sidelink : Option SidelinkSetup := none
  channel : ChannelSetup := {}
  log : LogSetup := {}

inductive Format where
  | yaml
  | toml
  deriving DecidableEq, Repr

def Format.name : Format → String
  | yaml => "YAML"
  | toml => "TOML"

inductive ScenarioError where
  | unreadable (path : String)
  | unknownFormat (path : String)
  | malformed (format : Format)
  | bandwidth (mhz : UInt32)
  | spacing (khz : UInt16)
  | errorRate (rate : Float)
  | duplicateUser

def ScenarioError.message : ScenarioError → String
  | .unreadable path => "Failed to read " ++ path
  | .unknownFormat path => "Unknown configuration format: " ++ path
  | .malformed format => "Invalid " ++ format.name ++ " configuration"
  | .bandwidth mhz => "Invalid bandwidth: " ++ toString mhz.toNat ++ " MHz"
  | .spacing khz => "Invalid subcarrier spacing: " ++ toString khz.toNat ++ " kHz"
  | .errorRate rate => "BLER must be within [0, 1], got " ++ Decimal.text rate
  | .duplicateUser => "Duplicate RNTI in UE list"

namespace CarrierSetup

def bandwidth (c : CarrierSetup) : Except ScenarioError Bandwidth :=
  match Bandwidth.ofMhz? c.bandwidthMhz with
  | some b => .ok b
  | none => .error (.bandwidth c.bandwidthMhz)

def spacing (c : CarrierSetup) : Except ScenarioError SubcarrierSpacing :=
  match SubcarrierSpacing.ofKhz? c.spacingKhz with
  | some s => .ok s
  | none => .error (.spacing c.spacingKhz)

end CarrierSetup

namespace Scenario

/-- Checks the values that the format of a scenario leaves open; the first thing wrong is reported. -/
def check (s : Scenario) : Except ScenarioError Unit := do
  let _ ← s.carrier.bandwidth
  let _ ← s.carrier.spacing
  let rate := s.channel.errorRate
  if !(0 ≤ rate && rate ≤ 1) then .error (.errorRate rate)
  else if (s.users.map UserSetup.rnti).Nodup then .ok ()
  else .error .duplicateUser

end Scenario

end Airtime
