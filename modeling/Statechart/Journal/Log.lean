import Statechart.Journal
import Statechart.Value.Printer

/-! How a machine without services of its own shows what it does: as lines of a log.

    Logged values always become lines. Reports, messages and withdrawn messages do if no one else takes
    them, and notices do for the listener that is the log itself. -/

namespace Statechart

/-- How much a line matters. -/
inductive LogLevel where
  | debug
  | info
  | warn
  deriving DecidableEq

/-- The word for a level. -/
def LogLevel.word : LogLevel → String
  | .debug => "DEBUG"
  | .info => "INFO"
  | .warn => "WARN"

/-- What part of a machine a line comes from. -/
inductive LogChannel where
  | content
  | services
  | notices
  deriving DecidableEq

/-- A line of the log. -/
structure LogLine where
  level : LogLevel
  channel : LogChannel
  fields : Object

/-- The line for a notice. -/
def Notice.logLine : Notice → LogLine
  | .entered n => ⟨.debug, .notices, [("message", .string "enter"), ("state", .string n.id)]⟩
  | .exited n => ⟨.debug, .notices, [("message", .string "exit"), ("state", .string n.id)]⟩
  | .taken a b _ event =>
    ⟨.info, .notices, [("event", .string (event.getD "")), ("from", .string a.id),
      ("message", .string "transition"), ("to", .string b.id)]⟩

/-- The line for a message. -/
def SendRequest.logLine (r : SendRequest) : LogLine :=
  ⟨.info, .services, [("delay_ms", .ofNat r.delay), ("kind", .string (r.kind.getD "")),
    ("message", .string ("send " ++ r.event)), ("send_id", .string (r.id.getD "")),
    ("target", .string (r.target.getD ""))]⟩

/-- The line for a logged value; a value is written as its text. -/
def contentLine (label : Option String) (value : Value) : LogLine :=
  ⟨.info, .content, [("label", .string (label.getD "")), ("message", .string value.text)]⟩

/-- The line for an entry that the log takes when no one else does. -/
def Entry.logLine? : Entry → Option LogLine
  | .noticed .log notice => some notice.logLine
  | .noticed (.named _) _ => none
  | .fault code detail place =>
    some ⟨.warn, .services, [("code", .string code.word), ("message", .string detail),
      ("node", .string (place.getD "/"))]⟩
  | .sent request => some request.logLine
  | .withdrawn id =>
    some ⟨.info, .services, [("message", .string "cancel send"), ("send_id", .string id)]⟩
  | .logged label value => some (contentLine label value)
  | .called .. | .delivered .. => none

end Statechart
