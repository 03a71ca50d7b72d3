/-!
What is reported on the way.
-/
namespace PointStyle

namespace Log

/-- How much a record matters. -/
inductive Level where
  | trace
  | debug
  | info
  | warn
deriving DecidableEq, Repr

structure Record where
  level : Level
  text : String
deriving DecidableEq, Repr

def Level.name : Level → String
  | .trace => "TRACE"
  | .debug => "DEBUG"
  | .info => "INFO"
  | .warn => "WARN"

def Record.line (r : Record) : String :=
  r.level.name ++ " " ++ r.text

end Log

/-- The records made so far, the oldest first. -/
abbrev Log := List Log.Record

end PointStyle
