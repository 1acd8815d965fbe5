import Std.Time.DateTime.Timestamp
import WorldClock.Engine.Run
import WorldClock.NoticeLine

/-!
# The command

The command runs an engine under the real clock until its standard input ends. The environment
variable `WORLDTICK_CONFIG` names the settings file. There is no way to a message server or a
database from here, so settings that name one end the engine.
-/

namespace WorldClock.Command

def variableNames : List String :=
  ["WORLDTICK_CONFIG", "NATS_URL", "DATABASE_URL", "WEATHER_SUBJECT", "RUST_LOG"]

def environment : IO (List (String × String)) :=
  variableNames.filterMapM fun name => do return (← IO.getEnv name).map fun value => (name, value)

def settingsFile (path : String) : IO SettingsFile := do
  try
    return .holding (← IO.FS.readBinFile path).data.toList
  catch
    | .noFileOrDirectory .. => return .absent
    | e => return .unreadable (toString e)

def host : IO EngineHost := do
  let given ← environment
  let path := (given.lookup "WORLDTICK_CONFIG").getD "worldtick-config.yaml"
  let now ← Std.Time.Timestamp.now
  return {
    environment := fun name => given.lookup name
    settingsFile := ← settingsFile path
    connectFailure := some "no network"
    flushFailure := none
    publish := ⟨[]⟩
    request := ⟨[]⟩
    startedAt := Instant.clamp now.toNanosecondsSinceUnixEpoch.val }

def writeNotices (e : Engine) : IO Engine := do
  let (notices, e) := e.takeNotices
  if let some logging := e.logging then
    for n in notices do
      if n.passes logging.filter then IO.println (n.line logging.format)
  return e

/-- Reads the input to its end. -/
partial def drain (input : IO.FS.Stream) : IO Unit := do
  unless (← input.getLine).isEmpty do drain input

/-- Lets an engine go along with the real clock until the input ends. -/
partial def follow (begun : Nat) (input : Task (Except IO.Error Unit)) (e : Engine) :
    IO Engine := do
  let e ← writeNotices (e.sleep ((← IO.monoMsNow) - begun - e.elapsed))
  if ← IO.hasFinished input then return e
  IO.sleep 5
  follow begun input e

def fail (error : EngineError) (e : Engine) : IO UInt32 := do
  let _ ← writeNotices e
  IO.eprintln ("Error: " ++ error.message)
  return 1

end WorldClock.Command

open WorldClock in
def main : IO UInt32 := do
  let host ← Command.host
  match EngineStep.start host Engine.idle with
  | .error error e => Command.fail error e
  | .ok settings e =>
    let input ← IO.asTask (Command.drain (← IO.getStdin))
    let e ← Command.follow (← IO.monoMsNow) input e
    match EngineStep.shutDown host settings e with
    | .error error e => Command.fail error e
    | .ok () e =>
      let _ ← Command.writeNotices e
      return 0
