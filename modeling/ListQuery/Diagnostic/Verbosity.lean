import ListQuery.Diagnostic.Event
import ListQuery.Text.Split

/-!
# Verbosity

Which events reach the log is written as directives between commas. A directive is a level
(`debug`), which concerns every target, a target with a level (`web::list=trace`), or a bare target,
which then shows everything. Levels are words in any case, or their ranks from `0`, which is `off`,
to `5`. Directives that cannot be read are passed over, and without any only errors are shown.

A directive concerns the targets that start with its own. Of those that concern an event the one
with the longest target decides, and of two with one target the later. An event that no directive
concerns is not shown.
-/

namespace ListQuery.Diagnostic

open Text (split)

/-- A directive: events of these targets are shown up to a rank. -/
structure Directive where
  target : List Char
  rank : Nat
  deriving DecidableEq, Repr

/-- The rank that a word for a level stands for. -/
def rankOfWord? (word : List Char) : Option Nat :=
  match String.ofList (word.map Char.toLower) with
  | "off" | "0" => some 0
  | "error" | "1" => some 1
  | "warn" | "2" => some 2
  | "info" | "3" => some 3
  | "debug" | "4" => some 4
  | "trace" | "5" => some 5
  | _ => none

def isTarget (s : List Char) : Bool :=
  !s.isEmpty && s.all fun c => c.isAlphanum || c = '_' || c = ':' || c = '-'

namespace Directive

/-- The directive that a text writes. -/
def ofText? (s : List Char) : Option Directive :=
  match split '=' s with
  | [word] =>
    match rankOfWord? word with
    | some rank => some ⟨[], rank⟩
    -- A word that is no level is a target, of which everything is shown.
    | none => if isTarget word then some ⟨word, Level.trace.rank⟩ else none
  | [target, word] =>
    if isTarget target then
      -- An equals sign with nothing behind it is as good as none.
      if word.isEmpty then some ⟨target, Level.trace.rank⟩
      else (rankOfWord? word).map fun rank => ⟨target, rank⟩
    else none
  | _ => none

def concerns (d : Directive) (target : List Char) : Bool :=
  d.target.isPrefixOf target

end Directive

/-- Which events are shown. -/
structure Verbosity where
  directives : List Directive
  deriving DecidableEq, Repr

namespace Verbosity

/-- The verbosity that a text writes. -/
def ofText (text : String) : Verbosity :=
  match (split ',' text.toList).filterMap Directive.ofText? with
  -- The empty target starts every target.
  | [] => ⟨[⟨[], Level.error.rank⟩]⟩
  | directives => ⟨directives⟩

/-- The directive that decides about a target. -/
def deciding? (v : Verbosity) (target : String) : Option Directive :=
  v.directives.foldl (fun found d =>
    if d.concerns target.toList then
      match found with
      -- Targets that concern one event start each other; of equally long ones the later wins.
      | some best => if best.target.length ≤ d.target.length then some d else found
      | none => some d
    else found) none

def shows (v : Verbosity) (e : Event) : Bool :=
  match v.deciding? e.target with
  | some d => e.level.rank ≤ d.rank
  | none => false

def log (v : Verbosity) (events : List Event) : List String :=
  (events.filter v.shows).map Event.line

end Verbosity

end ListQuery.Diagnostic
