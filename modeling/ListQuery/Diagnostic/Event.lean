import ListQuery.Json.Value
import ListQuery.Text.Quoted

/-!
# Diagnostic events

An event says that something happened that a caller may want to know: its level says how much it
matters, its target which part of the library speaks, and its fields what it is about.
-/

namespace ListQuery.Diagnostic

open Json (Value)

/-! ## §1 Levels -/

/-- How much an event matters. -/
inductive Level where
  | error
  | warn
  | info
  | debug
  | trace
  deriving DecidableEq, Repr

namespace Level

def name : Level → String
  | .error => "ERROR"
  | .warn => "WARN"
  | .info => "INFO"
  | .debug => "DEBUG"
  | .trace => "TRACE"

/-- The rank of a level; the more an event matters, the lower its rank. -/
def rank : Level → Nat
  | .error => 1
  | .warn => 2
  | .info => 3
  | .debug => 4
  | .trace => 5

end Level

/-! ## §2 Events -/

/-- The content of a field. -/
inductive FieldValue where
  | number (n : Int)
  | flag (b : Bool)
  /-- A text that is shown as it is. -/
  | text (s : String)
  /-- A text that is shown in quotes. -/
  | quoted (s : String)
  deriving DecidableEq

namespace FieldValue

/-- What is shown of the field on a log line. -/
def shown : FieldValue → String
  | .number n => toString n
  | .flag true => "true"
  | .flag false => "false"
  | .text s => s
  | .quoted s => Text.quoted s

/-- The JSON form of a field. A number stands for itself if JSON has it. -/
def document : FieldValue → Value
  | .number n => Value.ofInt? n |>.getD .null
  | .flag b => .bool b
  | .text s | .quoted s => .string s

end FieldValue

/-- Something that happened. -/
structure Event where
  level : Level
  target : String
  message : String
  fields : List (String × FieldValue)
  deriving DecidableEq

namespace Event

/-- The JSON form of an event, which leaves the target out. -/
def document (e : Event) : Value :=
  .object [
    ("level", .string e.level.name),
    ("message", .string e.message),
    ("fields", .object (e.fields.map fun f => (f.1, f.2.document)))]

/-- The log line of an event: the level in five columns, the target, the message and the fields. -/
def line (e : Event) : String :=
  String.ofList (List.replicate (5 - e.level.name.length) ' ') ++ e.level.name ++ " " ++
    e.target ++ ": " ++ e.message ++
    String.join (e.fields.map fun f => " " ++ f.1 ++ "=" ++ f.2.shown)

end Event

end ListQuery.Diagnostic
