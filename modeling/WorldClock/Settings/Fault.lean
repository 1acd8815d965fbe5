import WorldClock.Decimal.Layout
import WorldClock.Settings.Clock

/-!
# Settings that cannot be used

Settings may be unreadable, malformed, or out of range. A range fault is reported for the first
clock setting that is zero, and after those for the first world with an unusable dilation.
-/

namespace WorldClock

/-- A value that is out of range. -/
inductive SettingsFault where
  | zeroClockSetting (name : String)
  | badDilation (world : String) (dilation : Binary64)
deriving DecidableEq

def SettingsFault.message : SettingsFault → String
  | .zeroClockSetting name => "clock." ++ name ++ " must be at least 1"
  | .badDilation world dilation =>
    "world " ++ world ++ " has non-positive dilation_factor " ++ Layout.message.text dilation

/-- Why settings cannot be used. -/
inductive SettingsError where
  | unreadable (reason : String)
  | malformed (reason : String)
  | invalid (fault : SettingsFault)
deriving DecidableEq

def SettingsError.message : SettingsError → String
  | .unreadable reason => "failed to read config file: " ++ reason
  | .malformed reason => "failed to parse config YAML: " ++ reason
  | .invalid fault => "invalid configuration: " ++ fault.message

namespace ClockSettings

def fault? (c : ClockSettings) : Option SettingsFault :=
  c.zeroSetting?.map .zeroClockSetting

end ClockSettings

end WorldClock
