import Wiring.Json.Written

/-!
The configuration of tracing: the greatest level shown, the form of the output and the filter.
-/

namespace Wiring

/-- The levels of an event, the gravest first. -/
inductive Level where
  | error
  | warn
  | info
  | debug
  | trace
deriving DecidableEq, Repr

namespace Level

/-- The name of a level. -/
def name : Level → String
  | .error => "ERROR"
  | .warn => "WARN"
  | .info => "INFO"
  | .debug => "DEBUG"
  | .trace => "TRACE"

/-- All levels. -/
def all : List Level := [.error, .warn, .info, .debug, .trace]

/-- The number of a level: one for the gravest, five for the least grave. -/
def rank : Level → Nat
  | .error => 1
  | .warn => 2
  | .info => 3
  | .debug => 4
  | .trace => 5

/-- The number that digits stand for; a plus sign may come before them. -/
def number? (text : String) : Option Nat :=
  let digits :=
    match text.toList with
    | '+' :: rest => rest
    | characters => characters
  if digits.isEmpty || !digits.all Char.isDigit then none
  else some (digits.foldl (fun number digit => number * 10 + (digit.toNat - '0'.toNat)) 0)

/-- The level with the given name, in any case, or with the given number. -/
def ofName? (name : String) : Option Level :=
  all.find? fun level => level.name == name.toUpper || number? name == some level.rank

end Level

/-- The forms in which traces are written. -/
inductive TracingFormat where
  | pretty
  | compact
  | json
deriving DecidableEq, Repr

namespace TracingFormat

/-- The name of a format in a configuration. -/
def name : TracingFormat → String
  | .pretty => "pretty"
  | .compact => "compact"
  | .json => "json"

/-- The name of a format in an event. -/
def title : TracingFormat → String
  | .pretty => "Pretty"
  | .compact => "Compact"
  | .json => "Json"

/-- All formats, in the order in which messages list them. -/
def all : List TracingFormat := [.pretty, .compact, .json]

/-- The format with the given name. -/
def ofName? (name : String) : Option TracingFormat :=
  all.find? fun format => format.name == name

end TracingFormat

/-- The settings of tracing; each has a default. -/
structure TracingConfig where
  level : Level := .info
  format : TracingFormat := .pretty
  envFilter : Option String := none
  spanEvents : Bool := false
deriving DecidableEq, Repr

/-- The filter in force: the one that was set, and otherwise the level. -/
def TracingConfig.directives (config : TracingConfig) : String :=
  config.envFilter.getD config.level.name

end Wiring
