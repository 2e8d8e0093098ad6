import ListQuery.Json.Printer
import ListQuery.Relation.Forest
import ListQuery.Relation.Paths
import ListQuery.Relation.Printer

/-!
# Tracing relation lists

The tracer shows how a relation list is read: its paths, its relations as a JSON document, and the
list written anew. It reads leniently unless `--strict` is among its arguments; the first other
argument is the list. Without one it says how it is used.
-/

namespace ListQuery.Trace

open ListQuery.Relation (Policy)

/-- What a run of the tracer writes, and its exit code. -/
structure Outcome where
  stdout : String := ""
  stderr : String := ""
  code : UInt32 := 0
  deriving DecidableEq

/-- Lines of a text, each of them ended. -/
def lines (ls : List String) : String :=
  String.join (ls.map (· ++ "\n"))

def usage : String :=
  lines [
    "Usage: cargo run --bin trace_nested [--strict] '<nested-dsl>'",
    "",
    "Example:",
    "  cargo run --bin trace_nested " ++
      "'author\x7bprofile\x7d,posts\x7b \x7b\"limit\":5\x7d, comments \x7d'"]

def heading (policy : Policy) (input : String) : String :=
  lines [
    "╔═══════════════════════════════════════════════════════════════",
    "║ NESTED DSL TRACER (" ++ policy.mode.name ++ ")",
    "╚═══════════════════════════════════════════════════════════════",
    "",
    "📝 INPUT:",
    input,
    ""]

def pathsPart (paths : List String) : String :=
  lines (("📂 FLAT PATHS (" ++ toString paths.length ++ "):") ::
    paths.map ("  " ++ ·) ++ [""])

/-- The relations of the list, and the list written anew. -/
def relationsPart (relations : List Relation) : String :=
  lines [
    "🌳 TREE:",
    (Json.Value.array (Relation.documents relations)).indentedText,
    "",
    "🔁 PRETTY PRINTED:",
    Relation.listText relations]

def failure (stdout : String) (e : Relation.ParseError) : Outcome :=
  { stdout, stderr := lines ["❌ " ++ e.message], code := 1 }

def traceList (policy : Policy) (input : String) : Outcome :=
  let shown := heading policy input
  match policy.readPaths input with
  | .error e => failure shown e
  | .ok paths =>
    let shown := shown ++ pathsPart paths
    match policy.readForest input with
    | .error e => failure shown e
    | .ok relations => { stdout := shown ++ relationsPart relations }

/-- Run the tracer on its arguments. -/
def run (arguments : List String) : Outcome :=
  match arguments.find? (· ≠ "--strict") with
  | none => { stderr := usage, code := 1 }
  | some input =>
    traceList (if arguments.contains "--strict" then .strict else .lenient) input

end ListQuery.Trace
