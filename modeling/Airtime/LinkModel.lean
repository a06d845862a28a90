import Airtime.Carrier
import Airtime.Decimal.Shortest

/-!
Link adaptation: how many bytes a block of resources carries, and which coding scheme a channel
quality report calls for. Schedulers take any `LinkModel`.
-/

namespace Airtime

/-- One unit is one resource block for one symbol. -/
structure LinkModel where
  blockSize : (mcs : UInt8) → (units : UInt32) → UInt32
  mcsOfCqi : UInt8 → UInt8
  maxMcs : UInt8

def LinkModel.adapted (link : LinkModel) (cqi : UInt8) : UInt8 :=
  min (link.mcsOfCqi cqi) link.maxMcs

structure LinearLink where
  maxMcs : UInt8
  baseEfficiency : Float
  efficiencyStep : Float

namespace LinearLink

inductive Error where
  | noScheme
  | badEfficiency (base step : Float)

def Error.message : Error → String
  | .noScheme => "Invalid configuration: max MCS must be positive"
  | .badEfficiency base step =>
    "Invalid configuration: invalid efficiency model: base=" ++ Decimal.text base ++
      " step=" ++ Decimal.text step

/-- A NaN is below nothing, so it passes. -/
def create (maxMcs : UInt8) (base step : Float) : Except Error LinearLink :=
  if maxMcs = 0 then .error .noScheme
  else if base < 0 || step ≤ 0 then .error (.badEfficiency base step)
  else .ok ⟨maxMcs, base, step⟩

def default : LinearLink := ⟨28, 0.2, 0.2⟩

def efficiency (l : LinearLink) (mcs : UInt8) : Float :=
  l.baseEfficiency + l.efficiencyStep * (min mcs l.maxMcs).toFloat

/-- Whole bytes: the fraction is dropped, a result beyond 32 bits is the largest word, and NaN is
zero. -/
def blockSize (l : LinearLink) (mcs : UInt8) (units : UInt32) : UInt32 :=
  (l.efficiency mcs * (units.toFloat * subcarriersPerBlock.toFloat) / 8).toUInt32

def maxCqi : Nat := 15

/-- Quality 1 to 15 spread evenly over the table; 0 means out of range. -/
def mcsOfCqi (l : LinearLink) (cqi : UInt8) : UInt8 :=
  UInt8.ofNat ((min cqi.toNat maxCqi - 1) * l.maxMcs.toNat / (maxCqi - 1))

def toModel (l : LinearLink) : LinkModel := ⟨l.blockSize, l.mcsOfCqi, l.maxMcs⟩

end LinearLink

def LinkModel.proportional (maxMcs : UInt8) : LinkModel where
  blockSize mcs units := Word.mulSat mcs.toUInt32 units
  mcsOfCqi cqi := cqi
  maxMcs

end Airtime
