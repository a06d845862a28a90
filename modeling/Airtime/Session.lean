import Airtime.CommandLine
import Airtime.Log
import Airtime.Simulator.Step

/-!
A simulation as the command line runs it, with what it logs. Each stage gives its log lines also when it
fails.
-/

namespace Airtime

inductive SessionError where
  | noSlots
  | start (e : StartError)
  | trace (path : String)
  | refused (e : Refusal)
  | fault (f : Fault)

namespace SessionError

def ofFailure : Failure → SessionError
  | .refused e => refused e
  | .fault f => fault f

def ofStart : StartError → SessionError
  | .failed e => ofFailure e
  | e => start e

end SessionError

def StartError.message : StartError → String
  | .scenario e => e.message
  | .link e => e.message
  | .failed (.refused e) => e.message
  | .failed (.fault f) => f.message

def SessionError.message : SessionError → String
  | .noSlots => "Nothing to simulate: --slots is 0"
  | .start e => e.message
  | .trace path => "Failed to create trace file " ++ path
  | .refused e => e.message
  | .fault f => f.message

def SessionError.report : SessionError → String
  | .fault f => f.message
  | e => "Error: " ++ e.message

/-- The exit code; a computation that left its range has one of its own. -/
def SessionError.code : SessionError → UInt32
  | .fault _ => 101
  | _ => 1

structure Session where
  simulator : Simulator
  done : UInt64
  /-- Slots between two reports of the counters; none for 0. -/
  reportPeriod : UInt64

namespace Session

def info (part : Part) (text : String) : LogLine := ⟨.info, part, text⟩

def channelText (layer : String) (c : Confirmation) : String :=
  layer ++ ": LC " ++ toString c.channel.toNat ++ " configured in LCG " ++ toString c.group.toNat

def startLine : StartEvent → LogLine
  | .carrier setup groups =>
    info .simulator ("Cell " ++ toString setup.cellId.toNat ++ ": " ++
      toString setup.bandwidthMhz.toNat ++ " MHz, " ++ toString setup.spacingKhz.toNat ++ " kHz, " ++
      toString groups.toNat ++ " RBGs")
  | .channel c => ⟨.debug, .simulator, channelText "MAC" c⟩
  | .sidelinkChannel c => ⟨.debug, .simulator, channelText "SL MAC" c⟩

def outcomeLine (a : Awaited) : LogLine :=
  let f := a.feedback
  ⟨.trace, .simulator, "UE " ++ f.rnti.text ++ " " ++ f.direction.text ++ " HARQ id " ++
    toString f.process.toNat ++ ": " ++ if f.success then "ACK" else "NACK"⟩

def userLine (rnti : Rnti) (c : Counters) : LogLine :=
  info .simulator ("UE " ++ rnti.text ++ ": DL " ++ toString c.downlinkBytes.toNat ++ " B, UL " ++
    toString c.uplinkBytes.toNat ++ " B, " ++ toString c.newBlocks.toNat ++ " new TBs, " ++
    toString c.resent.toNat ++ " retransmissions, " ++ toString c.losses.toNat ++ " NACKs")

def destinationLine (id : DestinationId) (c : SidelinkCounters) : LogLine :=
  info .simulator ("Sidelink " ++ id.text ++ ": " ++ toString c.bytes.toNat ++ " B in " ++
    toString c.blocks.toNat ++ " TBs, " ++ toString c.transmissions.toNat ++ " transmissions, " ++
    toString c.missed.toNat ++ " triggers without grant")

def counterLines (s : Simulator) : List LogLine :=
  s.counters.entries.map (fun e => userLine e.1 e.2) ++
    (s.sidelink.elim [] fun t => t.counters.entries.map fun e => destinationLine e.1 e.2)

/-- The length of a slot in the largest unit that makes it a whole number. -/
def slotLength (s : SubcarrierSpacing) : String :=
  let micros := s.slotMicros.toNat
  if micros % 1000 = 0 then toString (micros / 1000) ++ "ms" else toString micros ++ "µs"

def traceLine (path : String) : LogLine := info .session ("Writing slot trace to " ++ path)

/-- The filter for a session's log, and the parts of its description that say nothing. -/
def filter (o : CommandLine.Options) (s : Scenario) : LogFilter × List String :=
  LogFilter.read (o.logLevel.getD s.log.level)

def tracePath? (o : CommandLine.Options) (s : Scenario) : Option String :=
  o.trace <|> s.log.traceFile

def greeting (o : CommandLine.Options) : List LogLine :=
  [info .session "Starting NR MAC scheduler simulator",
    info .session (match o.config with
      | some path => "Configuration file: " ++ path
      | none => "No configuration file, using defaults")]

/-- Sets up the simulation that the options ask for. -/
def start (o : CommandLine.Options) (s : Scenario) : List LogLine × Except SessionError Session :=
  if o.slots = 0 then (greeting o, .error .noSlots)
  else
    let warnings : List LogLine :=
      if s.users.isEmpty && s.sidelink.isNone then
        [⟨.warn, .session, "Scenario has neither UEs nor sidelink destinations"⟩]
      else []
    let (events, r) := Simulator.start s
    let lines := greeting o ++ warnings ++ events.map startLine
    match r with
    | .error e => (lines, .error (.ofStart e))
    | .ok simulator =>
      let last := [
        info .session (toString simulator.cell.users.size ++ " UEs connected"),
        info .session ("Simulating " ++ toString o.slots.toNat ++ " slots of " ++
          slotLength simulator.spacing ++ if o.realtime then " in real time" else "")]
      (lines ++ last, .ok { simulator, done := 0, reportPeriod := s.log.reportPeriod })

def report (s : Session) : List LogLine :=
  if s.reportPeriod ≠ 0 ∧ s.done % s.reportPeriod = 0 then
    info .simulator ("Statistics after " ++ toString s.done.toNat ++ " slots (" ++
      s.simulator.time.text ++ "):") :: counterLines s.simulator
  else []

def advance (chance : Chance) (s : Session) :
    List LogLine × Except SessionError (Session × SlotAllocation) :=
  match s.simulator.stepCell chance with
  | .error e => ([], .error (.ofFailure e))
  | .ok (simulator, a) =>
    let outcomes := simulator.pending.map outcomeLine
    match simulator.stepSidelink chance with
    | .error e => (outcomes, .error (.ofFailure e))
    | .ok simulator =>
      let s := { s with simulator, done := s.done + 1 }
      (outcomes ++ s.report, .ok (s, a))

def summary (s : Session) : List LogLine :=
  info .session ("Final statistics after " ++ toString s.done.toNat ++ " slots:") ::
    counterLines s.simulator ++ [info .session "Simulation complete"]

end Session

end Airtime
