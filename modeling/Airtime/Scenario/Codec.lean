import Airtime.Document.Messages
import Airtime.Scenario.Basic

/-!
How scenarios are written. Every field may be left out, apart from the names of users and destinations.
-/

namespace Airtime

open Document

instance : Codec CarrierSetup where
  encode c := .record [("cell_id", encode c.cellId), ("bandwidth_mhz", encode c.bandwidthMhz),
    ("scs_khz", encode c.spacingKhz)]
  decode d := do
    let fs : Fields ← d.entries? ["cell_id", "bandwidth_mhz", "scs_khz"]
    let c : CarrierSetup := {}
    return {
      cellId := ← fs.withDefault "cell_id" c.cellId
      bandwidthMhz := ← fs.withDefault "bandwidth_mhz" c.bandwidthMhz
      spacingKhz := ← fs.withDefault "scs_khz" c.spacingKhz }

instance : Codec LinkSetup where
  encode l := .record [("max_mcs", encode l.maxMcs), ("base_efficiency", encode l.baseEfficiency),
    ("efficiency_step", encode l.efficiencyStep)]
  decode d := do
    let fs : Fields ← d.entries? ["max_mcs", "base_efficiency", "efficiency_step"]
    let l : LinkSetup := {}
    return {
      maxMcs := ← fs.withDefault "max_mcs" l.maxMcs
      baseEfficiency := ← fs.withDefault "base_efficiency" l.baseEfficiency
      efficiencyStep := ← fs.withDefault "efficiency_step" l.efficiencyStep }

instance : Codec UserSetup where
  encode u := .record [("rnti", encode u.rnti), ("beam", encode u.beam),
    ("lc_id", encode u.channel), ("lcg_id", encode u.group),
    ("dl_bytes_per_slot", encode u.downlinkRate), ("ul_bytes_per_slot", encode u.uplinkRate),
    ("cqi", encode u.cqi)]
  decode d := do
    let fs : Fields ← d.entries? ["rnti", "beam", "lc_id", "lcg_id", "dl_bytes_per_slot",
      "ul_bytes_per_slot", "cqi"]
    let u : UserSetup := { rnti := ← fs.required "rnti" }
    return {
      rnti := u.rnti
      beam := ← fs.withDefault "beam" u.beam
      channel := ← fs.withDefault "lc_id" u.channel
      group := ← fs.withDefault "lcg_id" u.group
      downlinkRate := ← fs.withDefault "dl_bytes_per_slot" u.downlinkRate
      uplinkRate := ← fs.withDefault "ul_bytes_per_slot" u.uplinkRate
      cqi := ← fs.withDefault "cqi" u.cqi }

instance : Codec DestinationSetup where
  encode s := .record [("dst", encode s.destination), ("lc_id", encode s.channel),
    ("lcg_id", encode s.group), ("harq_enabled", encode s.repeated),
    ("bytes_per_slot", encode s.rate), ("cqi", encode s.cqi)]
  decode d := do
    let fs : Fields ← d.entries? ["dst", "lc_id", "lcg_id", "harq_enabled", "bytes_per_slot", "cqi"]
    let s : DestinationSetup := { destination := ← fs.required "dst" }
    return {
      destination := s.destination
      channel := ← fs.withDefault "lc_id" s.channel
      group := ← fs.withDefault "lcg_id" s.group
      repeated := ← fs.withDefault "harq_enabled" s.repeated
      rate := ← fs.withDefault "bytes_per_slot" s.rate
      cqi := ← fs.withDefault "cqi" s.cqi }

instance : Codec SidelinkSetup where
  encode s := .record [("scheduler", encode s.scheduler), ("subchannels", encode s.subchannels),
    ("symbols", encode s.symbols), ("trigger_period_slots", encode s.period),
    ("candidates", encode s.candidates), ("destinations", encode s.destinations)]
  decode d := do
    let fs : Fields ← d.entries? ["scheduler", "subchannels", "symbols", "trigger_period_slots",
      "candidates", "destinations"]
    let s : SidelinkSetup := {}
    return {
      scheduler := ← fs.withDefault "scheduler" s.scheduler
      subchannels := ← fs.withDefault "subchannels" s.subchannels
      symbols := ← fs.withDefault "symbols" s.symbols
      period := ← fs.withDefault "trigger_period_slots" s.period
      candidates := ← fs.withDefault "candidates" s.candidates
      destinations := ← fs.withDefault "destinations" s.destinations }

instance : Codec ChannelSetup where
  encode c := .record [("bler", encode c.errorRate), ("seed", encode c.seed)]
  decode d := do
    let fs : Fields ← d.entries? ["bler", "seed"]
    let c : ChannelSetup := {}
    return {
      errorRate := ← fs.withDefault "bler" c.errorRate
      seed := ← fs.withDefault "seed" c.seed }

instance : Codec LogSetup where
  encode l := .record [("level", encode l.level), ("stats_period_slots", encode l.reportPeriod),
    ("trace_file", encode l.traceFile)]
  decode d := do
    let fs : Fields ← d.entries? ["level", "stats_period_slots", "trace_file"]
    let l : LogSetup := {}
    return {
      level := ← fs.withDefault "level" l.level
      reportPeriod := ← fs.withDefault "stats_period_slots" l.reportPeriod
      traceFile := ← fs.withDefault "trace_file" l.traceFile }

instance : Codec Scenario where
  encode s := .record [("cell", encode s.carrier), ("scheduler", encode s.scheduler),
    ("amc", encode s.link), ("ues", encode s.users), ("sidelink", encode s.sidelink),
    ("channel", encode s.channel), ("log", encode s.log)]
  decode d := do
    let fs : Fields ← d.entries? ["cell", "scheduler", "amc", "ues", "sidelink", "channel", "log"]
    let s : Scenario := {}
    return {
      carrier := ← fs.withDefault "cell" s.carrier
      scheduler := ← fs.withDefault "scheduler" s.scheduler
      link := ← fs.withDefault "amc" s.link
      users := ← fs.withDefault "ues" s.users
      sidelink := ← fs.withDefault "sidelink" s.sidelink
      channel := ← fs.withDefault "channel" s.channel
      log := ← fs.withDefault "log" s.log }

end Airtime
