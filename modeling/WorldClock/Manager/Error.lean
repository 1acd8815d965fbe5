import WorldClock.Projection
import WorldClock.Registry
import WorldClock.Settings.Fault

/-!
# Why a manager fails

The causes for which a spawn, a stop or a look at a world's status may fail.
-/

namespace WorldClock

/-- Why a manager does not do what it is asked for. -/
inductive ManagerError where
  | alreadyRunning (world : WorldId)
  | notRunning (world : WorldId)
  | notFound (world : WorldId)
  | invalidDilation (dilation : Binary64)
  | retired (world : WorldId)
  | settings (error : SettingsError)
  | calendar (error : CalendarError)
  | registry (error : RegistryError)
  | log (error : LogError)
  | replay (error : ReplayError)
deriving DecidableEq

def ManagerError.message : ManagerError → String
  | .alreadyRunning world => "ticker for world " ++ world.text ++ " is already running"
  | .notRunning world => "ticker for world " ++ world.text ++ " is not running"
  | .notFound world => "world " ++ world.text ++ " not found"
  | .invalidDilation dilation => "invalid dilation factor " ++ Layout.message.text dilation
  | .retired world => "world " ++ world.text ++ " is stopped and cannot be spawned"
  | .settings e => "invalid clock configuration: " ++ e.message
  | .calendar e => "calendar error: " ++ e.message
  | .registry e => "registry error: " ++ e.message
  | .log e => "event log error: " ++ e.message
  | .replay e => "replay error: " ++ e.message

end WorldClock
