import Airtime.LinkModel
import Airtime.Policy

/-!
The configuration of a cell's scheduler.
-/

namespace Airtime

inductive Scheme where
  | tdma
  /-- In the downlink, symbols for each beam and ranges of the band inside a beam. -/
  | ofdma
  deriving DecidableEq, Repr

inductive PolicyKind where
  | roundRobin
  | proportionalFair
  | maxRate
  deriving DecidableEq, Repr

def PolicyKind.policy : PolicyKind → Policy
  | roundRobin => .roundRobin
  | proportionalFair => .fairDefault
  | maxRate => .maxRate

structure CellConfig where
  scheme : Scheme := .tdma
  policy : PolicyKind := .roundRobin
  groups : UInt32 := 66
  blocksPerGroup : UInt32 := 1
  symbols : UInt32 := 14
  downlinkControl : UInt32 := 1
  uplinkControl : UInt32 := 1
  processes : UInt8 := 16
  maxTransmissions : UInt8 := 4
  fixedDownlinkMcs : Option UInt8 := none
  fixedUplinkMcs : Option UInt8 := none
  initialMcs : UInt8 := 0
  deriving DecidableEq, Repr

namespace CellConfig

def control (c : CellConfig) : Direction → UInt32
  | .downlink => c.downlinkControl
  | .uplink => c.uplinkControl

def fixedMcs (c : CellConfig) : Direction → Option UInt8
  | .downlink => c.fixedDownlinkMcs
  | .uplink => c.fixedUplinkMcs

/-- The coding scheme of a user that reported nothing yet. -/
def firstMcs (c : CellConfig) (d : Direction) : UInt8 := (c.fixedMcs d).getD c.initialMcs

/-- The first thing that is wrong with a configuration, for a table up to `maxMcs`. -/
def problem? (c : CellConfig) (maxMcs : UInt8) : Option ConfigError :=
  if c.groups = 0 ∨ c.blocksPerGroup = 0 then some (.emptyBand c.groups c.blocksPerGroup)
  else
    let control := [c.downlinkControl, c.uplinkControl].find? (c.symbols ≤ ·)
    let schemes := c.fixedDownlinkMcs.toList ++ c.fixedUplinkMcs.toList ++ [c.initialMcs]
    match control with
    | some n => some (.noDataSymbol n c.symbols)
    | none =>
      if c.processes = 0 ∨ c.maxTransmissions = 0 then some .noProcess
      else (schemes.find? (maxMcs < ·)).map (.mcsAboveMaximum · maxMcs)

end CellConfig

end Airtime
