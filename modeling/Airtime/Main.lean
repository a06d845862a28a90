import Airtime.Document.Compact
import Airtime.Scenario.Reading
import Airtime.Session

/-!
The program: reads its options and a scenario, simulates, and prints the log. Exit code 2 stands for bad
usage, 1 for an error and 101 for a computation that left its range.
-/

namespace Airtime

def helpText : String := "\n".intercalate [
  "Simulates the slot scheduler of one cell and the sidelink scheduler of one user.",
  "",
  "Usage: nr_mac_sim [OPTIONS]",
  "",
  "Options:",
  "  -c, --config <CONFIG>        Scenario file (.yml, .yaml or .toml)",
  "  -l, --log-level <LOG_LEVEL>  Log level, overrides the scenario",
  "  -s, --slots <SLOTS>          Number of slots to simulate [default: 10000]",
  "      --realtime               Pace the slots on their real duration",
  "      --trace <TRACE>          Write every slot allocation to this file as JSON lines",
  "  -h, --help                   Print help",
  "  -V, --version                Print version"]

def printLines (f : LogFilter) (lines : List LogLine) : IO Unit := do
  for l in lines do
    if f.shows l then IO.println l.show

def quit (e : SessionError) : IO UInt32 := do
  IO.eprintln e.report
  return e.code

/-- Waits until `slots` slots of a real clock have passed since `start`. -/
def pace (start : Nat) (spacing : SubcarrierSpacing) (slots : UInt64) : IO Unit := do
  let due := start + slots.toNat * spacing.slotMicros.toNat * 1000
  let now ← IO.monoNanosNow
  if now < due then IO.sleep (UInt32.ofNat ((due - now + 999999) / 1000000))

/-- Simulates slots until all are done, and then prints the final report. -/
partial def simulate (o : CommandLine.Options) (f : LogFilter) (chance : Chance)
    (trace : Option IO.FS.Handle) (start : Nat) (s : Session) : IO UInt32 := do
  if o.slots ≤ s.done then
    trace.forM (·.flush)
    printLines f s.summary
    return 0
  else
    if o.realtime then pace start s.simulator.spacing s.done
    let (lines, r) := s.advance chance
    match r with
    | .error e =>
      printLines f lines
      quit e
    | .ok (s, a) =>
      trace.forM (·.putStrLn (encode a).compact)
      printLines f lines
      simulate o f chance trace start s

def runSession (o : CommandLine.Options) (scenario : Scenario) : IO UInt32 := do
  let (f, ignored) := Session.filter o scenario
  for part in ignored do
    IO.eprintln (LogFilter.ignoredText part)
  let (lines, r) := Session.start o scenario
  printLines f lines
  match r with
  | .error e => quit e
  | .ok s =>
    let seed ← match scenario.channel.seed with
      | some seed => pure seed
      | none => UInt64.ofNat <$> IO.rand 0 (UInt64.size - 1)
    let start ← IO.monoNanosNow
    match Session.tracePath? o scenario with
    | none => simulate o f (.seeded seed) none start s
    | some path =>
      match ← (IO.FS.Handle.mk path .write).toBaseIO with
      | .error _ => quit (.trace path)
      | .ok file =>
        printLines f [Session.traceLine path]
        simulate o f (.seeded seed) (some file) start s

def runProgram (arguments : List String) : IO UInt32 := do
  match CommandLine.read arguments with
  | .error e =>
    IO.eprintln (e.report ++ "\n\nFor more information, try \x27--help\x27.")
    return CommandLine.UsageError.code
  | .ok .help =>
    IO.println helpText
    return 0
  | .ok .version =>
    IO.println CommandLine.versionText
    return 0
  | .ok (.simulate o) =>
    let scenario ← match o.config with
      | none => pure (.ok {})
      | some path => do
        let content ← (IO.FS.readFile path).toBaseIO
        pure (Scenario.load path content.toOption)
    match scenario with
    | .error e => quit (.start (.scenario e))
    | .ok scenario => runSession o scenario

end Airtime

def main (arguments : List String) : IO UInt32 := Airtime.runProgram arguments
