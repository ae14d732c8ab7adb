import TableQuery.Calendar.Zone
import TableQuery.Config.Log
import TableQuery.Error

/-!
# Engine settings

What is fixed for the lifetime of an engine.
-/

namespace TableQuery

open Calendar

/-- The settings of an engine. -/
structure EngineConfig where
  /-- Into how many chunks a join may be split; the machine decides unless given. -/
  cpu : Option Nat := none
  /-- Layouts of dates and times that are tried before the built-in ones. -/
  datetimeFormats : List String := []
  timezone : String := "Local"
  log : Option LogConfig := none

namespace EngineConfig

/-- The zone of the settings. -/
def zone (c : EngineConfig) : Except QueryError Zone :=
  match Zone.parse? c.timezone with
  | some zone => .ok zone
  | none => .error (.unknownZone c.timezone)

/-- How an engine with these settings reads dates and times. -/
def clock (c : EngineConfig) : Except QueryError Clock := do
  return .ofUserLayouts c.datetimeFormats (← c.zone)

/-- The settings that a document holds. Fields that it does not have keep their defaults. -/
def ofDocument? (d : Document) : Option EngineConfig := do
  guard (d.holdsFields 4)
  let cpu ← d.setting? "cpu" 0 (fun v => v.count?.map some) none
  let datetimeFormats ← d.setting? "datetime_formats" 1 Document.texts? []
  let timezone ← d.setting? "timezone" 2 Document.text? "Local"
  let log ← d.setting? "log" 3 Document.optionalLogConfig? none
  return { cpu, datetimeFormats, timezone, log }

end EngineConfig

end TableQuery
