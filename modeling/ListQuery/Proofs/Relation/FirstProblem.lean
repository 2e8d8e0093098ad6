import ListQuery.Proofs.Relation.Accept
import ListQuery.Relation.Forest
import ListQuery.Relation.Paths
import Mathlib.Data.List.TakeWhile

/-!
# Strict readings end with the first problem

A strict reading is the lenient reading of the same list up to its first problem. It leaves what the
lenient reading leaves before that problem and ends with the problem as its error; if there is no
problem, the two readings are the same. A lenient reading always has a result.

`Follows` says this of two readings. Every way of putting readings together keeps it, so it goes up
from `Policy.meet`, the only step at which the modes part, to whole relation lists. What a lenient
reading does after a problem never matters, as a strict one has ended by then.

## Main statements

- `Follows.bind`: one reading after another;
- `Policy.follows_meet`: the two modes of meeting a problem;
- `Policy.follows_readLevel`, `Policy.follows_traceLevel`: the two modes of reading a level;
- `strict_ends_with_first_problem`: the two modes of reading a relation list.
-/

namespace ListQuery.Relation

namespace Trail

variable {ω ω' α β : Type} {error? : ω → Option ParseError}

/-! ## §1 Up to the first problem -/

/-- The reading up to the first problem in its trail, which becomes its error. -/
def stopped (error? : ω → Option ParseError) (t : Trail ω α) : Trail ω α where
  log := t.log.takeWhile fun entry => (error? entry).isNone
  result := match t.log.findSome? error? with
    | some e => .error e
    | none => t.result

/-- A reading without a problem goes on to its end. -/
theorem stopped_of_none {t : Trail ω α} (h : t.log.findSome? error? = none) :
    t.stopped error? = t := by
  have hlog : t.log.takeWhile (fun entry => (error? entry).isNone) = t.log := by
    rw [List.takeWhile_eq_self_iff]
    intro entry hentry
    rw [List.findSome?_eq_none_iff.1 h entry hentry]
    rfl
  unfold stopped
  rw [hlog, h]

/-- A reading with a problem ends there, however it goes on. -/
theorem stopped_of_some {t : Trail ω α} {e : ParseError} (h : t.log.findSome? error? = some e) :
    t.stopped error? = ⟨t.log.takeWhile fun entry => (error? entry).isNone, .error e⟩ := by
  unfold stopped
  rw [h]

/-- What follows the first problem is not looked at. -/
theorem takeWhile_append_of_some {log : List ω} {e : ParseError}
    (h : log.findSome? error? = some e) (rest : List ω) :
    (log ++ rest).takeWhile (fun entry => (error? entry).isNone) =
      log.takeWhile fun entry => (error? entry).isNone := by
  obtain ⟨before, entry, after, rfl, hentry, hbefore⟩ := List.findSome?_eq_some_iff.1 h
  have hall : ∀ x ∈ before, (error? x).isNone = true := fun x hx => by rw [hbefore x hx]; rfl
  have hstop : ¬(error? entry).isNone = true := by simp [hentry]
  rw [List.append_assoc, List.takeWhile_append_of_pos hall, List.takeWhile_append_of_pos hall,
    List.cons_append, List.takeWhile_cons, List.takeWhile_cons, if_neg hstop, if_neg hstop]

/-- Stopping a sequence of two readings is stopping each of them. -/
theorem stopped_bind (t : Trail ω α) (next : α → Trail ω β) :
    (t >>= next).stopped error? = t.stopped error? >>= fun a => (next a).stopped error? := by
  obtain ⟨log, result⟩ := t
  cases hproblem : log.findSome? error? with
  | none =>
    rw [stopped_of_none (t := ⟨log, result⟩) hproblem]
    cases result with
    | error e =>
      rw [bind_error, bind_error]
      exact stopped_of_none hproblem
    | ok a =>
      have hall : ∀ entry ∈ log, (error? entry).isNone = true := by
        intro entry hentry
        rw [List.findSome?_eq_none_iff.1 hproblem entry hentry]
        rfl
      rw [bind_ok, bind_ok]
      unfold stopped
      rw [List.takeWhile_append_of_pos hall, List.findSome?_append, hproblem, Option.none_or]
  | some e =>
    -- The first reading has the first problem, and nothing of the second one is left.
    rw [stopped_of_some (t := ⟨log, result⟩) hproblem, bind_error]
    cases result with
    | error e' =>
      rw [bind_error]
      exact stopped_of_some hproblem
    | ok a =>
      rw [bind_ok]
      unfold stopped
      rw [takeWhile_append_of_some hproblem, List.findSome?_append, hproblem, Option.some_or]

/-! ## §2 The two modes of a reading -/

/-- A strict and a lenient reading of the same text: the lenient one has a result, and the strict
    one is the lenient one up to its first problem. -/
structure Follows (error? : ω → Option ParseError) (strict lenient : Trail ω α) : Prop where
  tolerant : ∃ a, lenient.result = .ok a
  eq_stopped : strict = lenient.stopped error?

theorem follows_pure (a : α) : Follows error? (Pure.pure a : Trail ω α) (Pure.pure a) :=
  ⟨⟨a, rfl⟩, rfl⟩

/-- What is no problem is left in both modes. -/
theorem follows_leave {entry : ω} (h : error? entry = none) :
    Follows error? (leave entry) (leave entry) := by
  refine ⟨⟨(), rfl⟩, (stopped_of_none ?_).symm⟩
  simp [leave, h]

theorem Follows.bind {s l : Trail ω α} {f g : α → Trail ω β} (h : Follows error? s l)
    (hnext : ∀ a, Follows error? (f a) (g a)) : Follows error? (s >>= f) (l >>= g) := by
  obtain ⟨⟨a, ha⟩, rfl⟩ := h
  constructor
  · -- The lenient reading goes on after its first part, and has a result there too.
    obtain ⟨b, hb⟩ := (hnext a).tolerant
    obtain ⟨log, result⟩ := l
    obtain rfl : result = .ok a := ha
    exact ⟨b, hb⟩
  · rw [stopped_bind, funext fun a => (hnext a).eq_stopped]

/-- A step that is taken only sometimes, and what comes after it. -/
theorem Follows.step {c : Prop} [Decidable c] {s l : Trail ω Unit} {f g : Unit → Trail ω β}
    (h : Follows error? s l) (hnext : Follows error? (f ()) (g ())) :
    Follows error? (if c then s >>= f else f ()) (if c then l >>= g else g ()) := by
  split
  · exact h.bind fun _ => hnext
  · exact hnext

/-- A trail of another kind has its problems in the same places. -/
theorem Follows.mapLog {error?' : ω' → Option ParseError} {f : ω → ω'}
    (hf : ∀ entry, error?' (f entry) = error? entry) {s l : Trail ω α} (h : Follows error? s l) :
    Follows error?' (s.mapLog f) (l.mapLog f) := by
  obtain ⟨htolerant, rfl⟩ := h
  refine ⟨htolerant, ?_⟩
  have herror : error?' ∘ f = error? := funext hf
  unfold Trail.mapLog stopped
  simp only [List.takeWhile_map, List.findSome?_map, herror, Function.comp_def, hf]

theorem Follows.gather {f g : α → Trail ω (Option β)} (h : ∀ a, Follows error? (f a) (g a))
    (as : List α) : Follows error? (Trail.gather f as) (Trail.gather g as) := by
  induction as with
  | nil => exact follows_pure []
  | cons a rest ih => exact (h a).bind fun _ => ih.bind fun _ => follows_pure _

theorem Follows.forEach {f g : α → Trail ω Unit} (h : ∀ a, Follows error? (f a) (g a))
    (as : List α) : Follows error? (Trail.forEach f as) (Trail.forEach g as) := by
  induction as with
  | nil => exact follows_pure ()
  | cons a rest ih => exact (h a).bind fun _ => ih

namespace Follows

variable {s l : Trail ω α}

/-- Without a problem the modes make no difference. -/
theorem eq_of_no_problem (h : Follows error? s l) (hnone : l.log.filterMap error? = []) :
    s = l := by
  rw [h.eq_stopped]
  apply stopped_of_none
  rw [← List.head?_filterMap, hnone]
  rfl

/-- A strict reading with a result met no problem. -/
theorem eq_of_ok (h : Follows error? s l) {a : α} (ha : s.result = .ok a) : s = l := by
  rw [h.eq_stopped] at ha ⊢
  cases hproblem : l.log.findSome? error? with
  | none => exact stopped_of_none hproblem
  | some e =>
    rw [stopped_of_some hproblem] at ha
    cases ha

/-- The first problem is the error of the strict reading. -/
theorem result_of_problem (h : Follows error? s l) {e : ParseError} {rest : List ParseError}
    (hproblems : l.log.filterMap error? = e :: rest) : s.result = .error e := by
  rw [h.eq_stopped, stopped_of_some]
  rw [← List.head?_filterMap, hproblems]
  rfl

/-- What a strict reading leaves is what the lenient one leaves first. -/
theorem log_prefix (h : Follows error? s l) : s.log <+: l.log := by
  rw [h.eq_stopped]
  exact List.takeWhile_prefix _

end Follows

end Trail

/-! ## §3 Entries -/

/-- A notice is of a problem. -/
def Notice.error? (n : Notice) : Option ParseError :=
  some n.error

/-- The problem that a finding is of, if it is a notice. -/
def Finding.error? (f : Finding) : Option ParseError :=
  f.notice?.map Notice.error

open Trail

namespace Policy

variable (maxDepth : Nat)

/-- The only step at which the modes part. -/
theorem follows_meet (problem : Problem) (offset : Nat) (effect : Effect) :
    Follows Notice.error? ((Policy.mk .strict maxDepth).meet problem offset effect)
      ((Policy.mk .lenient maxDepth).meet problem offset effect) :=
  ⟨⟨(), rfl⟩, rfl⟩

theorem follows_checkBlock (e : Entry) (b : Block) :
    Follows Notice.error? ((Policy.mk .strict maxDepth).checkBlock e b)
      ((Policy.mk .lenient maxDepth).checkBlock e b) := by
  unfold checkBlock
  refine Follows.step (follows_meet maxDepth _ _ _) ?_
  dsimp only
  split
  · exact follows_meet maxDepth _ _ _
  · exact follows_pure ()

theorem follows_enterBlock (levels : Nat) (relation : String) (b : Block) :
    Follows Notice.error? ((Policy.mk .strict maxDepth).enterBlock levels relation b)
      ((Policy.mk .lenient maxDepth).enterBlock levels relation b) := by
  unfold enterBlock
  split
  · exact (follows_meet maxDepth _ _ _).bind fun _ => follows_pure none
  · exact follows_pure (some b)

theorem follows_accept (levels : Nat) (e : Entry) :
    Follows Notice.error? ((Policy.mk .strict maxDepth).accept levels e)
      ((Policy.mk .lenient maxDepth).accept levels e) := by
  obtain ⟨name, block, trailing, strayClose⟩ := e
  have hrest : Follows Notice.error?
      ((Policy.mk .strict maxDepth).accept levels ⟨name, block, trailing, none⟩)
      ((Policy.mk .lenient maxDepth).accept levels ⟨name, block, trailing, none⟩) := by
    unfold accept
    dsimp only
    split
    · exact (follows_meet maxDepth _ _ _).bind fun _ => follows_pure none
    · cases block with
      | none => exact follows_pure _
      | some b =>
        exact (follows_checkBlock maxDepth _ b).bind fun _ =>
          (follows_enterBlock maxDepth levels _ b).bind fun _ => follows_pure _
  cases strayClose with
  | none => exact hrest
  | some offset =>
    rw [accept_of_strayClose ⟨.strict, maxDepth⟩ levels rfl,
      accept_of_strayClose ⟨.lenient, maxDepth⟩ levels rfl]
    exact (follows_meet maxDepth _ _ _).bind fun _ => hrest

/-! ## §4 Relations -/

theorem follows_readRequest (relation : String) (object : Span) :
    Follows Notice.error? ((Policy.mk .strict maxDepth).readRequest relation object)
      ((Policy.mk .lenient maxDepth).readRequest relation object) := by
  unfold readRequest
  split
  · exact follows_pure _
  · exact (follows_meet maxDepth _ _ _).bind fun _ => follows_pure none

theorem follows_levelBehind (after : Span) :
    Follows Notice.error? ((Policy.mk .strict maxDepth).levelBehind after)
      ((Policy.mk .lenient maxDepth).levelBehind after) := by
  unfold levelBehind
  dsimp only
  split
  · exact follows_pure none
  · split
    · exact follows_pure _
    · exact (follows_meet maxDepth _ _ _).bind fun _ => follows_pure _

theorem follows_splitBlock (relation : String) (b : Block) :
    Follows Notice.error? ((Policy.mk .strict maxDepth).splitBlock relation b)
      ((Policy.mk .lenient maxDepth).splitBlock relation b) := by
  unfold splitBlock
  dsimp only
  split
  · split
    · exact (follows_meet maxDepth _ _ _).bind fun _ => follows_pure _
    · exact (follows_readRequest maxDepth relation _).bind fun _ =>
        (follows_levelBehind maxDepth _).bind fun _ => follows_pure _
  · exact follows_pure _

theorem follows_readEntry (levels : Nat) {f g : Span → Trail Notice (List Relation)}
    (h : ∀ inside, Follows Notice.error? (f inside) (g inside)) (e : Entry) :
    Follows Notice.error? ((Policy.mk .strict maxDepth).readEntry levels f e)
      ((Policy.mk .lenient maxDepth).readEntry levels g e) := by
  unfold readEntry
  refine (follows_accept maxDepth levels e).bind fun accepted => ?_
  split
  · exact follows_pure none
  · exact follows_pure _
  · refine (follows_splitBlock maxDepth _ _).bind fun parts => ?_
    dsimp only
    split
    · exact (h _).bind fun _ => follows_pure _
    · exact (follows_pure []).bind fun _ => follows_pure _

/-- The strict reading of a level is the lenient one up to its first problem. -/
theorem follows_readLevel (levels : Nat) (level : Span) :
    Follows Notice.error? ((Policy.mk .strict maxDepth).readLevel levels level)
      ((Policy.mk .lenient maxDepth).readLevel levels level) := by
  -- One level less is left inside a block.
  induction levels generalizing level with
  | zero => exact Follows.gather (follows_readEntry maxDepth 0 fun _ => follows_pure []) _
  | succ levels ih => exact Follows.gather (follows_readEntry maxDepth (levels + 1) ih) _

/-! ## §5 Paths -/

theorem follows_traceEntry (levels : Nat) {f g : String → Span → Trail Finding Unit}
    (h : ∀ path inside, Follows Finding.error? (f path inside) (g path inside))
    (outer : Option String) (e : Entry) :
    Follows Finding.error? ((Policy.mk .strict maxDepth).traceEntry levels f outer e)
      ((Policy.mk .lenient maxDepth).traceEntry levels g outer e) := by
  unfold traceEntry
  have haccept : Follows Finding.error?
      (((Policy.mk .strict maxDepth).accept levels e).mapLog .notice)
      (((Policy.mk .lenient maxDepth).accept levels e).mapLog .notice) :=
    (follows_accept maxDepth levels e).mapLog (f := Finding.notice) fun _ => rfl
  refine haccept.bind fun accepted => ?_
  split
  · exact follows_pure ()
  · -- The path is found before a problem in the block can be met.
    refine (follows_leave rfl).bind fun _ => ?_
    split
    · exact follows_pure ()
    · exact h _ _

/-- The strict reading of the paths of a level is the lenient one up to its first problem. -/
theorem follows_traceLevel (levels : Nat) (outer : Option String) (level : Span) :
    Follows Finding.error? ((Policy.mk .strict maxDepth).traceLevel levels outer level)
      ((Policy.mk .lenient maxDepth).traceLevel levels outer level) := by
  induction levels generalizing outer level with
  | zero => exact Follows.forEach (follows_traceEntry maxDepth 0 (fun _ _ => follows_pure ()) _) _
  | succ levels ih =>
    exact Follows.forEach
      (follows_traceEntry maxDepth (levels + 1) (fun path inside => ih (some path) inside) _) _

end Policy

/-! ## §6 Relation lists -/

/-- The problems that a reading of relations goes past, in the order in which it meets them. -/
def Policy.forestProblems (policy : Policy) (source : String) : List ParseError :=
  (policy.traceForest source).log.map Notice.error

/-- The problems that a reading of paths goes past, in the order in which it meets them. -/
def Policy.pathProblems (policy : Policy) (source : String) : List ParseError :=
  (noticesIn (policy.tracePaths source).log).map Notice.error

theorem filterMap_error?_notices (log : List Notice) :
    log.filterMap Notice.error? = log.map Notice.error := by
  rw [← List.filterMap_eq_map]
  rfl

theorem filterMap_error?_findings (log : List Finding) :
    log.filterMap Finding.error? = (noticesIn log).map Notice.error := by
  unfold noticesIn
  rw [List.map_filterMap]
  rfl

/-- **A strict reading ends with the first problem**: a lenient reading always has a result; the
    strict reading of the same list has the same result if the lenient one meets no problem, and
    ends with the first problem as its error if it meets any. The paths that the strict reading has
    found by then come first among those of the lenient one. -/
theorem strict_ends_with_first_problem (maxDepth : Nat) (source : String) :
    (∃ rs, (Policy.mk .lenient maxDepth).readForest source = .ok rs ∧
      (Policy.mk .strict maxDepth).readForest source =
        match (Policy.mk .lenient maxDepth).forestProblems source with
        | [] => .ok rs
        | problem :: _ => .error problem) ∧
    ∃ paths, (Policy.mk .lenient maxDepth).readPaths source = .ok paths ∧
      (Policy.mk .strict maxDepth).readPaths source =
        (match (Policy.mk .lenient maxDepth).pathProblems source with
        | [] => .ok paths
        | problem :: _ => .error problem) ∧
      pathsIn ((Policy.mk .strict maxDepth).tracePaths source).log <+: paths := by
  constructor
  · have hfollows := Policy.follows_readLevel maxDepth maxDepth (outermost source.toList)
    obtain ⟨rs, hrs⟩ := hfollows.tolerant
    refine ⟨rs, hrs, ?_⟩
    have hproblems := filterMap_error?_notices
      ((Policy.mk .lenient maxDepth).traceForest source).log
    unfold Policy.forestProblems
    cases hcase : ((Policy.mk .lenient maxDepth).traceForest source).log.map Notice.error with
    | nil => exact (congrArg result (hfollows.eq_of_no_problem (hproblems.trans hcase))).trans hrs
    | cons problem rest => exact hfollows.result_of_problem (hproblems.trans hcase)
  · have hfollows := Policy.follows_traceLevel maxDepth maxDepth none (outermost source.toList)
    obtain ⟨⟨⟩, hunit⟩ := hfollows.tolerant
    have hpaths : (Policy.mk .lenient maxDepth).readPaths source =
        .ok (pathsIn ((Policy.mk .lenient maxDepth).tracePaths source).log) :=
      congrArg (Except.map _) hunit
    refine ⟨_, hpaths, ?_, hfollows.log_prefix.filterMap _⟩
    have hproblems := filterMap_error?_findings
      ((Policy.mk .lenient maxDepth).tracePaths source).log
    unfold Policy.pathProblems
    cases hcase : (noticesIn ((Policy.mk .lenient maxDepth).tracePaths source).log).map
        Notice.error with
    | nil =>
      have heq := hfollows.eq_of_no_problem (hproblems.trans hcase)
      exact (congrArg (fun t => t.result.map fun _ => pathsIn t.log) heq).trans hpaths
    | cons problem rest =>
      exact congrArg (Except.map _) (hfollows.result_of_problem (hproblems.trans hcase))

end ListQuery.Relation
