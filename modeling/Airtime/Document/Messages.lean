import Airtime.Cell.Config
import Airtime.Document.Codec
import Airtime.Message
import Airtime.Sidelink

/-!
How messages and scheduler configurations are written. Every field is written; a configuration may
leave fields out when it is read, and then they have their default values.
-/

namespace Airtime

open Document

instance : Codec Direction where
  encode
    | .downlink => .text "dl"
    | .uplink => .text "ul"
  decode := named? [("dl", .downlink), ("ul", .uplink)]

instance : Codec ChannelDirection where
  encode
    | .downlink => .text "dl"
    | .uplink => .text "ul"
    | .both => .text "both"
  decode := named? [("dl", .downlink), ("ul", .uplink), ("both", .both)]

instance : Codec SubcarrierSpacing where
  encode s := .text s.name
  decode := named? (SubcarrierSpacing.all.map fun s => (s.name, s))

instance : Codec Scheme where
  encode
    | .tdma => .text "tdma"
    | .ofdma => .text "ofdma"
  decode := named? [("tdma", .tdma), ("ofdma", .ofdma)]

instance : Codec PolicyKind where
  encode
    | .roundRobin => .text "round_robin"
    | .proportionalFair => .text "proportional_fair"
    | .maxRate => .text "max_rate"
  decode := named? [("round_robin", .roundRobin), ("proportional_fair", .proportionalFair),
    ("max_rate", .maxRate)]

/-- Assignments name their direction as a format. -/
def formatName : Direction → String
  | .downlink => "Dl"
  | .uplink => "Ul"

def formatOf? : Document → Option Direction :=
  named? [("Dl", .downlink), ("Ul", .uplink)]

instance : Codec SlotTime where
  encode t := .record [("frame", encode t.frame), ("subframe", encode t.subframe),
    ("slot", encode t.slot), ("numerology", encode t.numerology)]
  decode d := do
    let fs : Fields ← d.entries? ["frame", "subframe", "slot", "numerology"]
    return {
      frame := ← fs.required "frame"
      subframe := ← fs.required "subframe"
      slot := ← fs.required "slot"
      numerology := ← fs.required "numerology" }

instance : Codec ChannelRequest where
  encode r := .record [("rnti", encode r.rnti), ("lc_id", encode r.channel),
    ("lcg_id", encode r.group), ("direction", encode r.direction), ("priority", encode r.priority)]
  decode d := do
    let fs : Fields ← d.entries? ["rnti", "lc_id", "lcg_id", "direction", "priority"]
    return {
      rnti := ← fs.required "rnti"
      channel := ← fs.required "lc_id"
      group := ← fs.required "lcg_id"
      direction := ← fs.required "direction"
      priority := ← fs.required "priority" }

instance : Codec SidelinkRequest where
  encode r := .record [("dst", encode r.destination), ("lc_id", encode r.channel),
    ("lcg_id", encode r.group), ("priority", encode r.priority), ("pdb_ms", encode r.delayBudget),
    ("harq_enabled", encode r.repeated)]
  decode d := do
    let fs : Fields ← d.entries? ["dst", "lc_id", "lcg_id", "priority", "pdb_ms", "harq_enabled"]
    return {
      destination := ← fs.required "dst"
      channel := ← fs.required "lc_id"
      group := ← fs.required "lcg_id"
      priority := ← fs.required "priority"
      delayBudget := ← fs.required "pdb_ms"
      repeated := ← fs.required "harq_enabled" }

instance {κ : Type} [Codec κ] : Codec (BufferReport κ) where
  encode r := .record [("destination", encode r.destination), ("lc_id", encode r.channel),
    ("tx_queue_size", encode r.tx), ("tx_queue_hol_delay", encode r.txDelay),
    ("retx_queue_size", encode r.retx), ("retx_queue_hol_delay", encode r.retxDelay),
    ("status_pdu_size", encode r.status)]
  decode d := do
    let fs : Fields ← d.entries? ["destination", "lc_id", "tx_queue_size", "tx_queue_hol_delay",
      "retx_queue_size", "retx_queue_hol_delay", "status_pdu_size"]
    return {
      destination := ← fs.required "destination"
      channel := ← fs.required "lc_id"
      tx := ← fs.required "tx_queue_size"
      txDelay := ← fs.required "tx_queue_hol_delay"
      retx := ← fs.required "retx_queue_size"
      retxDelay := ← fs.required "retx_queue_hol_delay"
      status := ← fs.required "status_pdu_size" }

instance : Codec GroupReport where
  encode r := .record [("rnti", encode r.rnti), ("lcg_id", encode r.group),
    ("buffer_size", encode r.bytes)]
  decode d := do
    let fs : Fields ← d.entries? ["rnti", "lcg_id", "buffer_size"]
    return {
      rnti := ← fs.required "rnti"
      group := ← fs.required "lcg_id"
      bytes := ← fs.required "buffer_size" }

instance : Codec Feedback where
  encode f := .record [("rnti", encode f.rnti), ("harq_id", encode f.process),
    ("direction", encode f.direction), ("success", encode f.success)]
  decode d := do
    let fs : Fields ← d.entries? ["rnti", "harq_id", "direction", "success"]
    return {
      rnti := ← fs.required "rnti"
      process := ← fs.required "harq_id"
      direction := ← fs.required "direction"
      success := ← fs.required "success" }

instance : Codec QualityReport where
  encode r := .record [("rnti", encode r.rnti), ("direction", encode r.direction),
    ("cqi", encode r.cqi)]
  decode d := do
    let fs : Fields ← d.entries? ["rnti", "direction", "cqi"]
    return {
      rnti := ← fs.required "rnti"
      direction := ← fs.required "direction"
      cqi := ← fs.required "cqi" }

instance : Codec Assignment where
  encode a := .record [("rnti", encode a.rnti), ("beam_id", encode a.beam),
    ("format", .text (formatName a.direction)), ("harq_id", encode a.process),
    ("start_rbg", encode a.startRbg), ("num_rbg", encode a.numRbg),
    ("start_sym", encode a.startSym), ("num_sym", encode a.numSym), ("mcs", encode a.mcs),
    ("tb_size", encode a.blockSize), ("ndi", encode a.newData), ("rv", encode a.redundancy)]
  decode d := do
    let fs : Fields ← d.entries? ["rnti", "beam_id", "format", "harq_id", "start_rbg", "num_rbg",
      "start_sym", "num_sym", "mcs", "tb_size", "ndi", "rv"]
    let format ← match fs "format" with
      | .given d => formatOf? d
      | _ => none
    return {
      rnti := ← fs.required "rnti"
      beam := ← fs.required "beam_id"
      direction := format
      process := ← fs.required "harq_id"
      startRbg := ← fs.required "start_rbg"
      numRbg := ← fs.required "num_rbg"
      startSym := ← fs.required "start_sym"
      numSym := ← fs.required "num_sym"
      mcs := ← fs.required "mcs"
      blockSize := ← fs.required "tb_size"
      newData := ← fs.required "ndi"
      redundancy := ← fs.required "rv" }

instance : Codec Pdu where
  encode p := .record [("lcg_id", encode p.group), ("lc_id", encode p.channel),
    ("size", encode p.size)]
  decode d := do
    let fs : Fields ← d.entries? ["lcg_id", "lc_id", "size"]
    return {
      group := ← fs.required "lcg_id"
      channel := ← fs.required "lc_id"
      size := ← fs.required "size" }

instance : Codec SlotAllocation where
  encode a := .record [("sfn_sf", encode a.time), ("dl_dcis", encode a.downlink),
    ("ul_dcis", encode a.uplink), ("dl_sym_per_beam", encode a.downlinkSymbols),
    ("ul_sym_per_beam", encode a.uplinkSymbols)]
  decode d := do
    let fs : Fields ← d.entries? ["sfn_sf", "dl_dcis", "ul_dcis", "dl_sym_per_beam",
      "ul_sym_per_beam"]
    return {
      time := ← fs.optional "sfn_sf"
      downlink := ← fs.required "dl_dcis"
      uplink := ← fs.required "ul_dcis"
      downlinkSymbols := ← fs.required "dl_sym_per_beam"
      uplinkSymbols := ← fs.required "ul_sym_per_beam" }

instance : Codec Candidate where
  encode c := .record [("sfn_sf", encode c.time), ("subchannel_start", encode c.start),
    ("subchannel_count", encode c.subchannels), ("num_symbols", encode c.symbols)]
  decode d := do
    let fs : Fields ← d.entries? ["sfn_sf", "subchannel_start", "subchannel_count", "num_symbols"]
    return {
      time := ← fs.required "sfn_sf"
      start := ← fs.required "subchannel_start"
      subchannels := ← fs.required "subchannel_count"
      symbols := ← fs.required "num_symbols" }

instance : Codec Grant where
  encode g := .record [("sfn_sf", encode g.time), ("dst", encode g.destination),
    ("subchannel_start", encode g.start), ("subchannel_count", encode g.subchannels),
    ("mcs", encode g.mcs), ("harq_id", encode g.process), ("rv", encode g.redundancy),
    ("ndi", encode g.newData), ("tx_num", encode g.transmission), ("tb_size", encode g.blockSize),
    ("lc_pdus", encode g.content)]
  decode d := do
    let fs : Fields ← d.entries? ["sfn_sf", "dst", "subchannel_start", "subchannel_count", "mcs",
      "harq_id", "rv", "ndi", "tx_num", "tb_size", "lc_pdus"]
    return {
      time := ← fs.required "sfn_sf"
      destination := ← fs.required "dst"
      start := ← fs.required "subchannel_start"
      subchannels := ← fs.required "subchannel_count"
      mcs := ← fs.required "mcs"
      process := ← fs.required "harq_id"
      redundancy := ← fs.required "rv"
      newData := ← fs.required "ndi"
      transmission := ← fs.required "tx_num"
      blockSize := ← fs.required "tb_size"
      content := ← fs.required "lc_pdus" }

instance : Codec CellConfig where
  encode c := .record [("scheme", encode c.scheme), ("policy", encode c.policy),
    ("bandwidth_rbg", encode c.groups), ("rb_per_rbg", encode c.blocksPerGroup),
    ("symbols_per_slot", encode c.symbols), ("dl_ctrl_symbols", encode c.downlinkControl),
    ("ul_ctrl_symbols", encode c.uplinkControl), ("harq_processes", encode c.processes),
    ("max_tx", encode c.maxTransmissions), ("fixed_dl_mcs", encode c.fixedDownlinkMcs),
    ("fixed_ul_mcs", encode c.fixedUplinkMcs), ("initial_mcs", encode c.initialMcs)]
  decode d := do
    let fs : Fields ← d.entries? ["scheme", "policy", "bandwidth_rbg", "rb_per_rbg",
      "symbols_per_slot", "dl_ctrl_symbols", "ul_ctrl_symbols", "harq_processes", "max_tx",
      "fixed_dl_mcs", "fixed_ul_mcs", "initial_mcs"]
    let c : CellConfig := {}
    return {
      scheme := ← fs.withDefault "scheme" c.scheme
      policy := ← fs.withDefault "policy" c.policy
      groups := ← fs.withDefault "bandwidth_rbg" c.groups
      blocksPerGroup := ← fs.withDefault "rb_per_rbg" c.blocksPerGroup
      symbols := ← fs.withDefault "symbols_per_slot" c.symbols
      downlinkControl := ← fs.withDefault "dl_ctrl_symbols" c.downlinkControl
      uplinkControl := ← fs.withDefault "ul_ctrl_symbols" c.uplinkControl
      processes := ← fs.withDefault "harq_processes" c.processes
      maxTransmissions := ← fs.withDefault "max_tx" c.maxTransmissions
      fixedDownlinkMcs := ← fs.withDefault "fixed_dl_mcs" c.fixedDownlinkMcs
      fixedUplinkMcs := ← fs.withDefault "fixed_ul_mcs" c.fixedUplinkMcs
      initialMcs := ← fs.withDefault "initial_mcs" c.initialMcs }

instance : Codec SidelinkConfig where
  encode c := .record [("fixed_mcs", encode c.fixedMcs), ("initial_mcs", encode c.initialMcs),
    ("rb_per_subchannel", encode c.blocksPerSubchannel), ("harq_processes", encode c.processes),
    ("max_tx", encode c.maxTransmissions)]
  decode d := do
    let fs : Fields ← d.entries? ["fixed_mcs", "initial_mcs", "rb_per_subchannel",
      "harq_processes", "max_tx"]
    let c : SidelinkConfig := {}
    return {
      fixedMcs := ← fs.withDefault "fixed_mcs" c.fixedMcs
      initialMcs := ← fs.withDefault "initial_mcs" c.initialMcs
      blocksPerSubchannel := ← fs.withDefault "rb_per_subchannel" c.blocksPerSubchannel
      processes := ← fs.withDefault "harq_processes" c.processes
      maxTransmissions := ← fs.withDefault "max_tx" c.maxTransmissions }

end Airtime
