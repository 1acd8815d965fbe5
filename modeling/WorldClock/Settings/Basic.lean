import WorldClock.Identifier
import WorldClock.Settings.Fault

/-!
# Settings

Settings say how clocks run, where the services around them are found, how log lines are written,
and which worlds are started. Everything has a default. The environment may name other services.
-/

namespace WorldClock

/-- Where services are found. A service that is not named is not used. -/
structure ServiceSettings where
  natsUrl : Option String
  databaseUrl : Option String
  weatherSubject : Option String
deriving DecidableEq, Inhabited

namespace ServiceSettings

def standard : ServiceSettings := ⟨none, none, none⟩

/-- The services, as far as the environment does not name others. -/
def override (s : ServiceSettings) (environment : String → Option String) : ServiceSettings where
  natsUrl := environment "NATS_URL" <|> s.natsUrl
  databaseUrl := environment "DATABASE_URL" <|> s.databaseUrl
  weatherSubject := environment "WEATHER_SUBJECT" <|> s.weatherSubject

end ServiceSettings

/-- How log lines are written. -/
inductive LogFormat where
  | pretty
  | json
deriving DecidableEq, Repr, Inhabited

def LogFormat.ofName? : String → Option LogFormat
  | "pretty" => some .pretty
  | "json" => some .json
  | _ => none

/-- Which log lines are written, and how. -/
structure LogSettings where
  level : String
  format : LogFormat
deriving DecidableEq, Inhabited

/-- Lines of information and warnings, as text. -/
def LogSettings.standard : LogSettings := ⟨"info", .pretty⟩

/-- A world that is started. -/
structure WorldSettings where
  id : WorldId
  name : String
  dilation : Binary64
deriving DecidableEq

/-- Settings of an engine. -/
structure Settings where
  clock : ClockSettings
  services : ServiceSettings
  log : LogSettings
  worlds : List WorldSettings
deriving DecidableEq

namespace Settings

def standard : Settings := ⟨.standard, .standard, .standard, []⟩

def worldFault? (w : WorldSettings) : Option SettingsFault :=
  if w.dilation.isFinite && w.dilation.isPositive then none
  else some (.badDilation w.name w.dilation)

/-- The first fault: that of the clock settings, or else of the first world that has one. -/
def fault? (s : Settings) : Option SettingsFault :=
  s.clock.fault? <|> s.worlds.findSome? worldFault?

/-- The settings, as far as the environment does not name other services. -/
def override (s : Settings) (environment : String → Option String) : Settings :=
  { s with services := s.services.override environment }

def checked (s : Settings) : Except SettingsError Settings :=
  match s.fault? with
  | some fault => .error (.invalid fault)
  | none => .ok s

end Settings

end WorldClock
