import WorldClock.Instant.Text
import WorldClock.Settings.Basic
import WorldClock.Text.Utf8
import WorldClock.Yaml.Record

/-!
# Settings files

Settings are kept as a YAML record with the members `clock`, `infrastructure`, `logging` and
`worlds`. Each of them may be missing, and so may all of their members, except that a world has an
identifier and a name.
-/

namespace WorldClock

open Yaml (Record Value)

def ClockSettings.ofYaml? (v : Value) : Option ClockSettings := do
  let standard := ClockSettings.standard
  let r ← Record.ofValue? (["emit_created_on_resume", "calendar_epoch"] ++
    standard.positiveSettings.map (·.1)) v
  return {
    tickIntervalMillis := ← r.defaulted "tick_interval_ms" standard.tickIntervalMillis Value.count?
    dayHours := ← r.defaulted "day_length_hours" standard.dayHours Value.count?
    seasonDays := ← r.defaulted "season_length_days" standard.seasonDays Value.count?
    weatherMinutes := ← r.defaulted "weather_interval_minutes" standard.weatherMinutes Value.count?
    yieldEvery := ← r.defaulted "catch_up_yield_every" standard.yieldEvery Value.count?
    timeoutMillis := ← r.defaulted "side_effect_timeout_ms" standard.timeoutMillis Value.count?
    announceResume := ← r.defaulted "emit_created_on_resume" standard.announceResume Value.truth?
    epoch := ← r.defaulted "calendar_epoch" standard.epoch fun v => v.text?.bind Utc.ofText? }

def ServiceSettings.ofYaml? (v : Value) : Option ServiceSettings := do
  let r ← Record.ofValue? ["nats_url", "postgres_url", "weather_subject"] v
  return {
    natsUrl := ← r.defaulted "nats_url" none Value.optionalText?
    databaseUrl := ← r.defaulted "postgres_url" none Value.optionalText?
    weatherSubject := ← r.defaulted "weather_subject" none Value.optionalText? }

def LogSettings.ofYaml? (v : Value) : Option LogSettings := do
  let standard := LogSettings.standard
  let r ← Record.ofValue? ["level", "format"] v
  return {
    level := ← r.defaulted "level" standard.level Value.text?
    format := ← r.defaulted "format" standard.format fun v => v.name?.bind LogFormat.ofName? }

def WorldSettings.ofYaml? (v : Value) : Option WorldSettings := do
  let r ← Record.ofValue? ["id", "name", "dilation_factor"] v
  return {
    id := ← r.required "id" fun v => v.text?.bind WorldId.ofText?
    name := ← r.required "name" Value.text?
    dilation := ← r.defaulted "dilation_factor" Binary64.one Value.real? }

/-- What is found where the settings file should be. -/
inductive SettingsFile where
  | absent
  | unreadable (reason : String)
  | holding (bytes : Bytes)
deriving DecidableEq, Inhabited

namespace Settings

def ofYaml? (v : Value) : Option Settings := do
  let r ← Record.ofValue? ["clock", "infrastructure", "logging", "worlds"] v
  return {
    clock := ← r.defaulted "clock" .standard ClockSettings.ofYaml?
    services := ← r.defaulted "infrastructure" .standard ServiceSettings.ofYaml?
    log := ← r.defaulted "logging" .standard LogSettings.ofYaml?
    worlds := ← r.defaulted "worlds" [] fun v => v.items? WorldSettings.ofYaml? }

def ofText (environment : String → Option String) (text : String) : Except SettingsError Settings :=
  match (Value.ofText? text).bind ofYaml? with
  | none => .error (.malformed "unexpected content")
  | some s => (s.override environment).checked

/-- The settings of a file in an environment. Its bytes must be UTF-8. -/
def ofFile (environment : String → Option String) : SettingsFile → Except SettingsError Settings
  | .absent => .error (.unreadable "no such file")
  | .unreadable reason => .error (.unreadable reason)
  | .holding bytes =>
    match Text.ofBytes? bytes with
    | none => .error (.unreadable "not UTF-8")
    | some text => ofText environment text

/-- The settings that an engine starts with: those of its file, or the standard ones if there is no
file. -/
def forStart (environment : String → Option String) : SettingsFile → Except SettingsError Settings
  | .absent => .ok (standard.override environment)
  | file => ofFile environment file

end Settings

end WorldClock
