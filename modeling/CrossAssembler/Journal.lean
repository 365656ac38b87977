/-!
# The journal

The parts of the assembler tell what they do in messages of graded severity.
The messages are data: each part says which events a piece of work gives rise
to, and whoever runs the part decides which of them to show.

## Main definitions

* `Level` — how severe a message is, or how much of the journal is shown.
* `Event` — a message with its level.
* `visible` — the part of a journal that a threshold lets through.
-/

namespace CrossAssembler

/-- The severity of a message.  As a threshold, a level lets through the messages
of its own severity and of every greater one; `off` lets nothing through. -/
inductive Level where
  /-- Nothing at all.  No message has this level. -/
  | off
  /-- The work cannot go on. -/
  | error
  /-- Something is wrong with the input. -/
  | warn
  /-- What a user asked to see. -/
  | info
  /-- The state after each piece of work. -/
  | debug
  /-- Every single piece of work. -/
  | trace
  deriving DecidableEq, Repr

namespace Level

/-- All levels, from the most to the least severe. -/
def all : List Level := [off, error, warn, info, debug, trace]

/-- The rank of a level: the greater, the less severe. -/
def rank : Level → Nat
  | off => 0
  | error => 1
  | warn => 2
  | info => 3
  | debug => 4
  | trace => 5

/-- The name of a level in the journal. -/
def label : Level → String
  | off => "OFF"
  | error => "ERROR"
  | warn => "WARN"
  | info => "INFO"
  | debug => "DEBUG"
  | trace => "TRACE"

/-- The name of a level on the command line. -/
def name : Level → String
  | off => "off"
  | error => "error"
  | warn => "warn"
  | info => "info"
  | debug => "debug"
  | trace => "trace"

/-- The level with the given command line name. -/
def ofName? (name : String) : Option Level := all.find? fun l => l.name == name

end Level

/-- A message of the journal. -/
structure Event where
  /-- How severe it is. -/
  level : Level
  /-- What it says. -/
  message : String
  deriving DecidableEq, Repr

namespace Event

/-- The text of an event: its level and its message. -/
def text (e : Event) : String := e.level.label ++ " " ++ e.message

/-- The events of a journal that a threshold lets through, in order. -/
def visible (threshold : Level) (journal : List Event) : List Event :=
  journal.filter fun e => e.level.rank ≤ threshold.rank

end Event

end CrossAssembler
