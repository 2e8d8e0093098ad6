import ListQuery.Json.Record
import ListQuery.Relation.Policy
import ListQuery.Request.Wire
import ListQuery.Toml.Document

/-!
# Settings

The reading policy for relation lists can be configured. In a settings file it is two entries of a
TOML document, both of them required:

    nested_parse_mode = "strict"
    max_nested_depth = 16

Other entries are passed over. On the wire the policy is a JSON record with the same two fields. A
mode is its name, or a table (on the wire an object) with the name as its only key and nothing under
it. A settings file must allow at least one level.
-/

namespace ListQuery.Relation

open Json (Reader RecordField Fault)
open Nat (pow)

/-! ## §1 Errors -/

/-- Why a settings file was refused. -/
inductive SettingsError where
  /-- It is no settings file. -/
  | unreadable
  /-- It allows no levels. -/
  | noLevels
  deriving DecidableEq, Repr

/-- The error's text. Of an unreadable file no reason is given, and a star stands in its place. -/
def SettingsError.message : SettingsError → String
  | .unreadable => "Failed to read configuration: *"
  | .noLevels => "Invalid value for max_nested_depth: 0 - must be at least 1"

/-- The mode with a name. -/
def Mode.ofName? : String → Option Mode
  | "lenient" => some .lenient
  | "strict" => some .strict
  | _ => none

namespace Policy

/-- A policy has to allow at least one level. -/
def validate (p : Policy) : Except SettingsError Unit :=
  if p.maxDepth = 0 then .error .noLevels else .ok ()

/-! ## §2 Settings files -/

/-- Whether there is nothing in a list or a table. -/
def isVacant : Toml.Value → Bool
  | .array items => items.isEmpty
  | .table _ members => members.isEmpty
  | .tables rows => rows.isEmpty
  | _ => false

/-- The mode that a value stands for. -/
def modeOfToml? : Toml.Value → Option Mode
  | .string name => Mode.ofName? name
  -- A mode carries no data, so nothing may stand under its name.
  | .table _ [(name, v)] => if isVacant v then Mode.ofName? name else none
  | _ => none

/-- The number of levels that a value stands for. -/
def depthOfToml? : Toml.Value → Option Nat
  | .integer n => if 0 ≤ n then some n.toNat else none
  | _ => none

/-- The policy that a table holds. -/
def ofMembers? (members : Toml.Members) : Option Policy := do
  let mode ← modeOfToml? (← members.lookup "nested_parse_mode")
  let maxDepth ← depthOfToml? (← members.lookup "max_nested_depth")
  return { mode, maxDepth }

/-- The policy that a settings file holds. -/
def ofToml (text : String) : Except SettingsError Policy :=
  match (Toml.read? text).bind ofMembers? with
  | some p => p.validate.map fun _ => p
  | none => .error .unreadable

/-- The settings file of a policy, if its number of levels is one that the format can hold. -/
def toToml? (p : Policy) : Option String :=
  if p.maxDepth < pow 2 63 then
    some ("nested_parse_mode = \"" ++ p.mode.name ++ "\"\nmax_nested_depth = " ++
      toString p.maxDepth ++ "\n")
  else none

/-! ## §3 The wire form -/

/-- The wire form of a policy. A number of levels beyond the exact integers has none. -/
def document (p : Policy) : Json.Value :=
  .object [
    ("nested_parse_mode", .string p.mode.name),
    ("max_nested_depth", (Json.Value.ofInt? p.maxDepth).getD .null)]

end Policy

variable {ε : Type}

/-- A mode by its name. -/
def Mode.nameReader : Reader ε Mode := fun s => do
  let (name, rest) ← Json.string s
  let mode ← Json.orMalformed (Mode.ofName? name)
  .ok (mode, rest)

def Mode.reader : (depth : Nat) → Reader ε Mode := fun depth s =>
  match Json.skipSpace s with
  | '\x7b' :: rest =>
    if depth = 0 then Json.malformed
    else do
      let (mode, rest) ← Mode.nameReader rest
      let rest ← Json.colon rest
      -- A mode carries no data, so only null may stand under its name.
      let rest ← Json.word ['n', 'u', 'l', 'l'] (Json.skipSpace rest)
      match Json.skipSpace rest with
      | '\x7d' :: rest => .ok (mode, rest)
      | _ => Json.malformed
  | s => Mode.nameReader s

def Policy.fields : List (RecordField ε (Option Mode × Option Nat)) := [
  .of "nested_parse_mode" Mode.reader fun draft mode => (some mode, draft.2),
  .of "max_nested_depth" (fun _ => Json.natural) fun draft maxDepth => (draft.1, some maxDepth)]

def Policy.reader : (depth : Nat) → Reader ε Policy :=
  Json.completeRecord Policy.fields (none, none) fun draft => do
    return { mode := ← draft.1, maxDepth := ← draft.2 }

end ListQuery.Relation

namespace ListQuery

/-! ## §4 Errors of the library -/

/-- Why a request or a settings file was refused. -/
inductive QueryError where
  | decode (error : DecodeError)
  | settings (error : Relation.SettingsError)
  deriving DecidableEq

def QueryError.message : QueryError → String
  | .decode error => "Decode error: " ++ error.message
  | .settings error => "Config error: " ++ error.message

end ListQuery
