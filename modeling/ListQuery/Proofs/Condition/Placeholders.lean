import ListQuery.Check
import ListQuery.Proofs.Condition.Combinators
import ListQuery.Proofs.Condition.Operators
import ListQuery.Proofs.Condition.Reference
import ListQuery.Sample

/-!
# Placeholders and arguments

A question mark in a condition is bound to the next of its arguments, so one too many would bind
every later argument to the wrong place. The condition of an operator has a placeholder for each of
its operands, since the reference before it has none. Parentheses and connectives have none either,
and whatever puts texts one behind the other puts the arguments in the same way. So clauses with as
many placeholders as arguments are kept by everything that a recorder does.

## Main definitions

- `Recorder.Matched`: as many placeholders as arguments in every clause.

## Main statements

- `Constraint.matches_condition`: the condition of an operator;
- `Recorder.Matched.and`, `….or`, `….not`: the combinators;
- `Construction.matched_recorder`: recorders that are made of matched conditions;
- `Recorder.matched_apply`: applying a filter;
- `Recorder.placeholders_apply`: the condition that is rendered has as many placeholders as
  arguments.
-/

namespace ListQuery

open Json (Value)

/-! ## §1 Texts -/

/-- The number of placeholders in a text. -/
def placeholders (text : String) : Nat :=
  text.toList.count '?'

theorem placeholdersMatch_iff {text : String} {n : Nat} :
    placeholdersMatch text n = true ↔ placeholders text = n :=
  decide_eq_true_iff

theorem placeholders_append (s t : String) :
    placeholders (s ++ t) = placeholders s + placeholders t := by
  unfold placeholders
  rw [String.toList_append, List.count_append]

/-- Tokens with as many placeholders as there are arguments. -/
def Matches (ts : List Token) (args : List Value) : Prop :=
  placeholders (Token.textOf ts) = args.length

theorem matches_nil : Matches [] [] := rfl

theorem Matches.append {ts us : List Token} {args more : List Value} (hts : Matches ts args)
    (hus : Matches us more) : Matches (ts ++ us) (args ++ more) := by
  unfold Matches at hts hus ⊢
  rw [Token.textOf_append, placeholders_append, hts, hus, List.length_append]

/-- A mark is a token without placeholders. -/
theorem matches_mark {t : Token} (h : placeholders t.text = 0) : Matches [t] [] := by
  unfold Matches
  rw [Token.textOf_singleton]
  exact h

theorem Matches.grouped {ts : List Token} {args : List Value} (h : Matches ts args) :
    Matches (Token.grouped ts) args := by
  have hopening : Matches [Token.opening] [] := matches_mark rfl
  have hclosing : Matches [Token.closing] [] := matches_mark rfl
  have hgrouped := hopening.append (h.append hclosing)
  rwa [List.append_nil] at hgrouped

theorem Matches.connected {t : Token} (ht : placeholders t.text = 0) {ts us : List Token}
    {args more : List Value} (hts : Matches ts args) (hus : Matches us more) :
    Matches (ts ++ t :: us) (args ++ more) :=
  hts.append ((matches_mark ht).append hus)

/-! ## §2 Conditions of operators -/

theorem Reference.placeholders_cast (ref : Reference) (sample? : Option Value) :
    placeholders (ref.cast sample?) = 0 := by
  unfold Reference.cast
  split
  · split <;> rfl
  · rfl

namespace Constraint

/-- What stands behind the reference has a placeholder for each argument: none in a test for null,
    two for the ends of a range, and one otherwise, also for a list of values. -/
theorem placeholders_suffix (k : Constraint) : placeholders k.suffix = k.arguments.length := by
  cases k with
  | eq v | ne v => cases v <;> simp [suffix, arguments, placeholders]
  | present b | null b => cases b <;> simp [suffix, arguments, placeholders]
  | _ => simp [suffix, arguments, placeholders]

theorem matches_condition {ref : Reference} (h : placeholders ref.text = 0) (k : Constraint) :
    Matches [.atom (k.condition ref)] (k.condition ref).args := by
  unfold Matches
  rw [Token.textOf_singleton]
  show placeholders (ref.text ++ ref.cast k.sample? ++ k.suffix) = k.arguments.length
  rw [placeholders_append, placeholders_append, h, ref.placeholders_cast, k.placeholders_suffix,
    Nat.zero_add]

end Constraint

/-! ## §3 Recorders -/

namespace Recorder

/-- Every clause has as many placeholders as arguments. -/
def Matched (r : Recorder) : Prop :=
  ∀ c ∈ r.clauses, Matches c.tokens c.args

theorem matched_isolated (r : Recorder) : r.isolated.Matched :=
  nofun

end Recorder

theorem Clause.matches_tokensBeside {c : Clause} (h : Matches c.tokens c.args) (beside : Bool) :
    Matches (c.tokensBeside beside) c.args := by
  unfold tokensBeside
  split
  · exact h.grouped
  · exact h

theorem matches_conjoined {cs : List Clause} (h : ∀ c ∈ cs, Matches c.tokens c.args)
    (beside : Bool) :
    Matches (conjoined (cs.map (Clause.tokensBeside beside))) (cs.flatMap Clause.args) := by
  induction cs with
  | nil => exact matches_nil
  | cons c cs ih =>
    have hfirst := Clause.matches_tokensBeside (h c List.mem_cons_self) beside
    have hrest := ih fun d hd => h d (List.mem_cons_of_mem c hd)
    cases cs with
    | nil =>
      rw [List.flatMap_singleton]
      exact hfirst
    | cons d cs => exact hfirst.connected rfl hrest

namespace Recorder

namespace Matched

variable {r sub : Recorder}

theorem rendered (h : r.Matched) : Matches r.rendered.tokens r.rendered.args :=
  matches_conjoined h _

theorem push (h : r.Matched) {ts : List Token} {args : List Value} (hts : Matches ts args) :
    (r.push ts args).Matched := by
  intro c hc
  rcases List.mem_append.1 hc with hc | hc
  · exact h c hc
  · obtain rfl := List.mem_singleton.1 hc
    exact hts

theorem condition (h : r.Matched) {a : Atom} (ha : Matches [.atom a] a.args) :
    (r.condition a).Matched :=
  h.push ha

theorem and (h : r.Matched) (hsub : sub.Matched) : (r.and sub).Matched := by
  unfold Recorder.and
  split
  · exact h
  · exact h.push hsub.rendered.grouped

theorem not (h : r.Matched) (hsub : sub.Matched) : (r.not sub).Matched := by
  unfold Recorder.not
  split
  · exact h
  · exact h.push ((matches_mark rfl).append hsub.rendered.grouped)

theorem or (h : r.Matched) (hsub : sub.Matched) : (r.or sub).Matched := by
  unfold Recorder.or
  split
  · exact h
  · split
    · exact h.push hsub.rendered.grouped
    · -- The left side has its placeholders whether it is put in parentheses or not.
      have hleft : Matches
          (if 1 < r.clauses.length then Token.grouped r.rendered.tokens else r.rendered.tokens)
          r.rendered.args := by
        split
        · exact h.rendered.grouped
        · exact h.rendered
      intro c hc
      obtain rfl := List.mem_singleton.1 hc
      exact hleft.connected rfl hsub.rendered.grouped

/-- What keeps clauses matched step by step keeps them matched in a fold. -/
theorem foldl {α : Type} {step : Recorder → α → Recorder} {as : List α}
    (hstep : ∀ {r : Recorder} {a : α}, a ∈ as → r.Matched → (step r a).Matched) (h : r.Matched) :
    (as.foldl step r).Matched := by
  induction as generalizing r with
  | nil => exact h
  | cons a as ih =>
    have hfirst := hstep List.mem_cons_self h
    exact ih (fun ha => hstep (List.mem_cons_of_mem a ha)) hfirst

end Matched

end Recorder

/-! ## §4 Constructions -/

namespace Construction

/-- The conditions that are recorded, in nested recorders as well. -/
def recorded : Construction → List Atom
  | start _ _ | isolated _ => []
  | condition b a => b.recorded ++ [a]
  | and b sub | or b sub | not b sub => b.recorded ++ sub.recorded

/-- However a recorder is made, its clauses have as many placeholders as arguments if the conditions
    that were recorded have. -/
theorem matched_recorder (b : Construction)
    (h : ∀ a ∈ b.recorded, placeholdersMatch a.text a.args.length = true) :
    b.recorder.Matched := by
  induction b with
  | start table relations => exact nofun
  | isolated b _ => exact b.recorder.matched_isolated
  | condition b a ih =>
    have ha := placeholdersMatch_iff.1 (h a (by simp [recorded]))
    refine (ih fun a' ha' => h a' (List.mem_append_left _ ha')).condition ?_
    unfold Matches
    rw [Token.textOf_singleton]
    exact ha
  | and b sub ih ihSub =>
    exact (ih fun a ha => h a (List.mem_append_left _ ha)).and
      (ihSub fun a ha => h a (List.mem_append_right _ ha))
  | or b sub ih ihSub =>
    exact (ih fun a ha => h a (List.mem_append_left _ ha)).or
      (ihSub fun a ha => h a (List.mem_append_right _ ha))
  | not b sub ih ihSub =>
    exact (ih fun a ha => h a (List.mem_append_left _ ha)).not
      (ihSub fun a ha => h a (List.mem_append_right _ ha))

end Construction

namespace Recorder

/-! ## §5 Filters -/

theorem placeholders_reference {r : Recorder} {path : String} (htable : '?' ∉ r.table.toList)
    (hpath : '?' ∉ path.toList) : placeholders (r.reference path).text = 0 := by
  unfold placeholders Reference.text
  rw [List.count_eq_zero, String.toList_ofList]
  intro hmem
  exact (mem_of_mem_reference (by decide) (by decide) hmem).elim htable hpath

/-- Applying a filter keeps the clauses matched, if no placeholder comes in through the table or the
    path of a field. -/
theorem matched_apply {r : Recorder} {f : Filter} (h : r.Matched) (htable : '?' ∉ r.table.toList)
    (hpaths : ∀ e ∈ f.walk, '?' ∉ e.1.toList) : (r.apply f).Matched := by
  induction f using Filter.induction generalizing r with
  | node f ih =>
    have hparts : ∀ fs : List Filter, (∀ g ∈ fs, g ∈ f.parts) →
        ∀ sub ∈ fs.map r.isolated.apply, sub.Matched := by
      intro fs hfs sub hsub
      obtain ⟨g, hg, rfl⟩ := List.mem_map.1 hsub
      exact ih g (hfs g hg) r.matched_isolated htable fun e he =>
        hpaths e (Filter.mem_walk.2 (Or.inr ⟨g, hfs g hg, he⟩))
    have hown : ∀ a ∈ r.ownConditions f, Matches [.atom a] a.args := by
      intro a ha
      obtain ⟨e, he, ha⟩ := List.mem_flatMap.1 ha
      obtain ⟨k, -, hk⟩ := List.mem_filterMap.1 ha
      have hpath := hpaths e (Filter.mem_walk.2 (Or.inl he))
      rw [Constraint.condition?_eq] at hk
      split at hk
      · cases hk
      · exact Option.some.inj hk ▸ k.matches_condition (placeholders_reference htable hpath)
    rw [apply_eq]
    refine Matched.foldl (fun hsub hr => hr.not (hparts f.not.toList ?_ _ hsub)) <|
      Matched.foldl (fun hsub hr => hr.or (hparts f.or ?_ _ hsub)) <|
      Matched.foldl (fun hsub hr => hr.and (hparts f.and ?_ _ hsub)) <|
      Matched.foldl (fun ha hr => hr.condition (hown _ ha)) h
    · exact fun g hg => Filter.mem_parts.2 (Or.inr (Or.inr (Option.mem_toList.1 hg)))
    · exact fun g hg => Filter.mem_parts.2 (Or.inr (Or.inl hg))
    · exact fun g hg => Filter.mem_parts.2 (Or.inl hg)

/-- **Every placeholder has an argument.** A filter is applied to a recorder whose table has no
    placeholder and each of whose clauses has as many placeholders as arguments. If no path of a
    field in the tree has a placeholder, then the condition that is rendered has exactly as many
    placeholders as it has arguments, whatever the operators and their operands. -/
theorem placeholders_apply (r : Recorder) (f : Filter) (htable : '?' ∉ r.table.toList)
    (hclauses : ∀ c ∈ r.clauses,
      placeholdersMatch (Token.textOf c.tokens) c.args.length = true)
    (hpaths : ∀ e ∈ f.walk, '?' ∉ e.1.toList) :
    placeholdersMatch (r.apply f).rendered.text (r.apply f).rendered.args.length = true := by
  have hmatched : r.Matched := fun c hc => placeholdersMatch_iff.1 (hclauses c hc)
  exact placeholdersMatch_iff.2 (matched_apply hmatched htable hpaths).rendered

/-- A recorder in which a disjunction of two conditions is recorded beside a third one, which takes
    no argument. -/
def busyRecorder : Recorder :=
  let oldest := Sample.usersRecorder.condition ⟨"age > ?", [.ofInt64 90]⟩
  let either := oldest.or (Sample.usersRecorder.condition ⟨"age BETWEEN ? AND ?",
    [.ofInt64 18, .ofInt64 21]⟩)
  either.condition ⟨"deleted IS NULL", []⟩

theorem placeholders_apply_busyRecorder :
    (busyRecorder.apply Sample.mixedFilter).rendered.args.length = 9 ∧
      placeholdersMatch (busyRecorder.apply Sample.mixedFilter).rendered.text 9 = true := by
  have hargs : (busyRecorder.apply Sample.mixedFilter).rendered.args.length = 9 := by
    decide +kernel
  have hmatch := placeholders_apply busyRecorder Sample.mixedFilter (by decide +kernel)
    (by decide +kernel) (by decide +kernel)
  rw [hargs] at hmatch
  exact ⟨hargs, hmatch⟩

end Recorder

end ListQuery
