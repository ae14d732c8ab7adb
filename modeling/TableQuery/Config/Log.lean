import TableQuery.Config.Document

/-!
# Log settings

What an engine writes to its log, where and how.
-/

namespace TableQuery

/-- Where a log is written. -/
inductive LogOutput where
  | stdout
  | file (path : String)
  | both (path : String)
  deriving DecidableEq, Repr

/-- How the lines of a log are laid out. -/
inductive LogFormat where
  | pretty
  | compact
  deriving DecidableEq, Repr

/-- The settings of a log. -/
structure LogConfig where
  /-- The least level that is written, or a filter of levels by part of the engine. -/
  level : String := "info"
  output : LogOutput := .stdout
  format : LogFormat := .pretty
  deriving DecidableEq, Repr

namespace LogConfig

def info : LogConfig := {}

def debug : LogConfig := { level := "debug" }

def trace : LogConfig := { level := "trace" }

def warn : LogConfig := { level := "warn" }

def withFile (c : LogConfig) (path : String) : LogConfig :=
  { c with output := .file path }

def withBoth (c : LogConfig) (path : String) : LogConfig :=
  { c with output := .both path }

def withFormat (c : LogConfig) (format : LogFormat) : LogConfig :=
  { c with format }

def withLevel (c : LogConfig) (level : String) : LogConfig :=
  { c with level }

end LogConfig

namespace Document

/-- The output that a value names. -/
def logOutput? (d : Document) : Option LogOutput := do
  match ← d.choice? with
  | ("Stdout", rest) => if isEmptyChoice rest then some .stdout else none
  | ("File", rest) => return .file (← (← rest).text?)
  | ("Both", rest) => return .both (← (← rest).text?)
  | _ => none

/-- The format that a value names. -/
def logFormat? (d : Document) : Option LogFormat := do
  match ← d.choice? with
  | ("Pretty", rest) => if isEmptyChoice rest then some .pretty else none
  | ("Compact", rest) => if isEmptyChoice rest then some .compact else none
  | _ => none

/-- The log settings that a value holds. -/
def logConfig? (d : Document) : Option LogConfig := do
  guard (d.holdsFields 3)
  let level ← d.setting? "level" 0 text? "info"
  let output ← d.setting? "output" 1 logOutput? .stdout
  let format ← d.setting? "format" 2 logFormat? .pretty
  return { level, output, format }

/-- The log settings that a value holds, if it is not null. -/
def optionalLogConfig? : Document → Option (Option LogConfig)
  | null => some none
  | d => d.logConfig?.map some

end Document

end TableQuery
