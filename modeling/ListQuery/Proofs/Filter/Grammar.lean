import ListQuery.Proofs.Filter.RoundTrip

/-!
# The values that are filters

Only the combinators decide whether a value is a filter. They are judged in the order of their keys,
and the filters of a list one after another, so that the error is always about the first thing that
is wrong. Here the grammar of filters and what is wrong with any other value are stated without the
reader, as relations over the value, and the reader is shown to decide both.

## Main definitions

- `FilterError.report`: what an error tells;
- `Filter.IsFilter`: the values that are filters;
- `Filter.Refused`: the values that are none, each with the report of what is wrong first.

## Main statements

- `Filter.error?_ofValue_object`: the errors of the combinators, in the order of their keys;
- `Filter.ofValue_accepts_or_reports`: the values that are read, and the reports on the others.
-/

namespace ListQuery

open Json (Value Kind)

/-! ## §1 Reports -/

namespace FilterError

/-- What an error tells: the kind of a value that is no object, or a combinator together with the
    reason why its value is not accepted. -/
inductive Report where
  | notObject (found : Kind)
  | invalid (combinator : Combinator) (reason : String)

def Report.message : Report → String
  | .notObject found => "Expected a JSON object for filter, got " ++ found.name
  | .invalid combinator reason => "Invalid value for " ++ combinator.key ++ ": " ++ reason

def report : FilterError → Report
  | .notObject found => .notObject found
  | .notList combinator found =>
    .invalid combinator ("expected an array of filters, got " ++ found.name)
  -- The error inside is told by its message.
  | .inside combinator cause => .invalid combinator cause.message

/-- The message of an error is that of its report. -/
theorem message_eq (e : FilterError) : e.message = e.report.message := by
  cases e with
  | notObject found => rfl
  | notList combinator found =>
    have hcut : ": expected an array of filters, got " =
        ": " ++ "expected an array of filters, got " := by simp
    have hmessage : ∀ front back : String,
        front ++ ": expected an array of filters, got " ++ back =
          front ++ ": " ++ ("expected an array of filters, got " ++ back) := by
      intro front back
      rw [hcut]
      simp only [String.append_assoc]
    exact hmessage _ found.name
  | inside combinator cause => rfl

end FilterError

namespace Filter

/-! ## §2 The grammar -/

mutual

/-- The values that are filters: the objects whose combinators hold filters. -/
inductive IsFilter : Value → Prop where
  | object {members : List (String × Value)}
      (h : ∀ c : Combinator, HoldsFilters c (Value.member? c.key members)) :
      IsFilter (.object members)

/-- What an object may hold under the key of a combinator. -/
inductive HoldsFilters : Combinator → Option Value → Prop where
  | absent (c : Combinator) : HoldsFilters c none
  | null (c : Combinator) : HoldsFilters c (some .null)
  | list {c : Combinator} {items : List Value} (hc : c ≠ .not) (h : ∀ v ∈ items, IsFilter v) :
      HoldsFilters c (some (.array items))
  | negated {v : Value} (h : IsFilter v) : HoldsFilters .not (some v)

end

mutual

/-- The values that are no filters, with the report of the first thing that is wrong. -/
inductive Refused : Value → FilterError.Report → Prop where
  | notObject {v : Value} (h : v.isObject = false) : Refused v (.notObject v.kind)
  /-- Every combinator with a smaller key holds filters. -/
  | combinator {members : List (String × Value)} {c : Combinator} {v : Value} {reason : String}
      (hearlier : ∀ c' : Combinator, c'.key < c.key →
        HoldsFilters c' (Value.member? c'.key members))
      (hmember : Value.member? c.key members = some v) (h : RefusedUnder c v reason) :
      Refused (.object members) (.invalid c reason)

/-- The values that are not accepted under a combinator, with the reason. -/
inductive RefusedUnder : Combinator → Value → String → Prop where
  | notList {c : Combinator} {v : Value} (hc : c ≠ .not) (hnull : v ≠ .null)
      (harray : ∀ items, v ≠ .array items) :
      RefusedUnder c v ("expected an array of filters, got " ++ v.kind.name)
  /-- Every item in front is a filter. -/
  | item {c : Combinator} {front back : List Value} {v : Value} {p : FilterError.Report}
      (hc : c ≠ .not) (hfront : ∀ w ∈ front, IsFilter w) (h : Refused v p) :
      RefusedUnder c (.array (front ++ v :: back)) p.message
  | negated {v : Value} {p : FilterError.Report} (hnull : v ≠ .null) (h : Refused v p) :
      RefusedUnder .not v p.message

end

theorem holdsFilters_array_iff {c : Combinator} (hc : c ≠ .not) {items : List Value} :
    HoldsFilters c (some (.array items)) ↔ ∀ v ∈ items, IsFilter v := by
  constructor
  · intro h
    cases h with
    | list _ h => exact h
    | negated _ => contradiction
  · exact .list hc

theorem holdsFilters_not_iff {v : Value} (hnull : v ≠ .null) :
    HoldsFilters .not (some v) ↔ IsFilter v := by
  constructor
  · intro h
    cases h with
    | null => contradiction
    | list hc _ => contradiction
    | negated h => exact h
  · exact .negated

theorem not_holdsFilters {c : Combinator} (hc : c ≠ .not) {v : Value} (hnull : v ≠ .null)
    (harray : ∀ items, v ≠ .array items) : ¬ HoldsFilters c (some v) := by
  intro h
  cases h with
  | null => exact hnull rfl
  | list _ _ => exact harray _ rfl
  | negated _ => exact hc rfl

theorem refusedUnder_array_iff {c : Combinator} (hc : c ≠ .not) {items : List Value}
    {reason : String} :
    RefusedUnder c (.array items) reason ↔ ∃ front v back p, items = front ++ v :: back ∧
      (∀ w ∈ front, IsFilter w) ∧ Refused v p ∧ reason = p.message := by
  constructor
  · intro h
    cases h with
    | notList _ _ harray => exact absurd rfl (harray items)
    | item _ hfront h => exact ⟨_, _, _, _, rfl, hfront, h, rfl⟩
    | negated _ _ => contradiction
  · rintro ⟨front, v, back, p, rfl, hfront, h, rfl⟩
    exact .item hc hfront h

theorem refusedUnder_not_iff {v : Value} (hnull : v ≠ .null) {reason : String} :
    RefusedUnder .not v reason ↔ ∃ p, Refused v p ∧ reason = p.message := by
  constructor
  · intro h
    cases h with
    | notList hc _ _ => contradiction
    | item hc _ _ => contradiction
    | negated _ h => exact ⟨_, h, rfl⟩
  · rintro ⟨p, h, rfl⟩
    exact .negated hnull h

theorem refusedUnder_notList_iff {c : Combinator} (hc : c ≠ .not) {v : Value} (hnull : v ≠ .null)
    (harray : ∀ items, v ≠ .array items) {reason : String} :
    RefusedUnder c v reason ↔ reason = "expected an array of filters, got " ++ v.kind.name := by
  constructor
  · intro h
    cases h with
    | notList _ _ _ => rfl
    | item _ _ _ => exact absurd rfl (harray _)
    | negated _ _ => contradiction
  · rintro rfl
    exact .notList hc hnull harray

theorem not_refusedUnder_null {c : Combinator} {reason : String} :
    ¬ RefusedUnder c .null reason := by
  intro h
  cases h with
  | notList _ hnull _ => exact hnull rfl
  | negated hnull _ => exact hnull rfl

/-! ## §3 Errors in order -/

/-- The combinators in the order of their keys. -/
def judged : List Combinator :=
  [.and, .not, .or]

theorem mem_judged (c : Combinator) : c ∈ judged := by
  cases c <;> decide

theorem pairwise_judged : judged.Pairwise fun c c' => c.key < c'.key := by
  decide

/-- The first combinator that has something is the one such that none with a smaller key has. -/
theorem findSome?_judged_eq_some_iff {α : Type} {g : Combinator → Option α} {a : α} :
    judged.findSome? g = some a ↔
      ∃ c, g c = some a ∧ ∀ c' : Combinator, c'.key < c.key → g c' = none := by
  rw [List.findSome?_eq_some_iff]
  constructor
  · rintro ⟨front, c, back, hjudged, hc, hfront⟩
    refine ⟨c, hc, fun c' hlt => hfront c' ?_⟩
    have horder := pairwise_judged
    have hmem := mem_judged c'
    rw [hjudged] at horder hmem
    rcases List.mem_append.1 hmem with hmem | hmem
    · exact hmem
    · -- The combinators from `c` on have no smaller key.
      rcases List.mem_cons.1 hmem with rfl | hback
      · exact absurd hlt (String.lt_irrefl _)
      · have hgt := (List.pairwise_cons.1 (List.pairwise_append.1 horder).2.1).1 c' hback
        exact absurd (String.lt_trans hlt hgt) (String.lt_irrefl _)
  · rintro ⟨c, hc, hearlier⟩
    obtain ⟨front, back, hjudged⟩ := List.append_of_mem (mem_judged c)
    refine ⟨front, c, back, hjudged, hc, fun c' hc' => hearlier c' ?_⟩
    have horder := pairwise_judged
    rw [hjudged] at horder
    exact (List.pairwise_append.1 horder).2.2 c' hc' c List.mem_cons_self

/-- The error in what an object holds under the key of a combinator, if there is one. -/
def fault? (c : Combinator) : Option Value → Option FilterError
  | none | some .null => none
  | some v =>
    match c with
    | .not => (error? (ofValue v)).map (.inside .not)
    | c => error? (ofList c v)

theorem error?_ofItems (items : List Value) :
    error? (ofItems items) = items.findSome? fun v => error? (ofValue v) := by
  induction items with
  | nil => rfl
  | cons v rest ih =>
    rw [ofItems, List.findSome?_cons, ← ih]
    cases ofValue v <;> cases ofItems rest <;> rfl

theorem fault?_array {c : Combinator} (hc : c ≠ .not) (items : List Value) :
    fault? c (some (.array items)) =
      (items.findSome? fun v => error? (ofValue v)).map (.inside c) := by
  rw [← error?_ofItems, ← error?_mapError]
  cases c with
  | not => contradiction
  | _ => rfl

theorem fault?_notList {c : Combinator} (hc : c ≠ .not) {v : Value} (hnull : v ≠ .null)
    (harray : ∀ items, v ≠ .array items) : fault? c (some v) = some (.notList c v.kind) := by
  cases c with
  | not => contradiction
  | _ =>
    cases v with
    | null => contradiction
    | array items => exact absurd rfl (harray items)
    | _ => rfl

theorem fault?_not {v : Value} (hnull : v ≠ .null) :
    fault? .not (some v) = (error? (ofValue v)).map (.inside .not) := by
  cases v with
  | null => contradiction
  | _ => rfl

theorem error?_list {c : Combinator} (hc : c ≠ .not) (o : Option Value) :
    error? ((o.map (ofList c)).getD (.ok [])) = fault? c o := by
  cases o with
  | none => rfl
  | some v =>
    cases c with
    | not => contradiction
    | _ => cases v <;> rfl

theorem error?_negated (o : Option Value) :
    error? ((o.map fun v => if v = .null then .ok none
      else ((ofValue v).mapError (.inside .not)).map some).getD (.ok none)) = fault? .not o := by
  cases o with
  | none => rfl
  | some v =>
    by_cases hnull : v = .null
    · rw [hnull]
      rfl
    · rw [fault?_not hnull, Option.map_some, Option.getD_some, if_neg hnull, error?_map,
        error?_mapError]

theorem error?_finish (d : Draft) :
    error? d.finish = ((error? d.and).or (error? d.not)).or (error? d.or) := by
  obtain ⟨and, not, or, fields⟩ := d
  cases and <;> cases not <;> cases or <;> rfl

/-- The error of an object is that of the first combinator with one. -/
theorem error?_ofValue_object (members : List (String × Value)) :
    error? (ofValue (.object members)) =
      judged.findSome? fun c => fault? c (Value.member? c.key members) := by
  have hand : error? (ofMembers {} members).and = fault? .and (Value.member? "$and" members) := by
    rw [ofMembers_part Draft.enter_and]
    exact error?_list (by decide) _
  have hor : error? (ofMembers {} members).or = fault? .or (Value.member? "$or" members) := by
    rw [ofMembers_part Draft.enter_or]
    exact error?_list (by decide) _
  have hnot : error? (ofMembers {} members).not = fault? .not (Value.member? "$not" members) := by
    rw [ofMembers_part Draft.enter_not]
    exact error?_negated _
  rw [ofValue, error?_finish, hand, hnot, hor]
  simp only [judged, List.findSome?_cons, List.findSome?_nil, Combinator.key]
  cases fault? .and (Value.member? "$and" members) <;>
    cases fault? .not (Value.member? "$not" members) <;>
    cases fault? .or (Value.member? "$or" members) <;> rfl

/-! ## §4 The reader decides -/

/-- Whether reading a value accepts it as the grammar does, and reports what the grammar reports. -/
structure Settled (v : Value) : Prop where
  accepted : error? (ofValue v) = none ↔ IsFilter v
  refused : ∀ p, (∃ e, error? (ofValue v) = some e ∧ e.report = p) ↔ Refused v p

/-- Whether reading settles a value and, if it is a list, its items. -/
def SettledWithItems (v : Value) : Prop :=
  Settled v ∧ ∀ items, v = .array items → ∀ w ∈ items, Settled w

theorem fault?_eq_none_iff {c : Combinator} {o : Option Value} (h : ∀ v ∈ o, SettledWithItems v) :
    fault? c o = none ↔ HoldsFilters c o := by
  cases o with
  | none => exact ⟨fun _ => .absent c, fun _ => rfl⟩
  | some v =>
    obtain ⟨hv, hitems⟩ := h v rfl
    by_cases hnull : v = .null
    · subst hnull
      exact ⟨fun _ => .null c, fun _ => rfl⟩
    by_cases hc : c = .not
    · subst hc
      rw [fault?_not hnull, holdsFilters_not_iff hnull, Option.map_eq_none_iff, hv.accepted]
    by_cases harray : ∃ items, v = .array items
    · obtain ⟨items, rfl⟩ := harray
      rw [fault?_array hc, holdsFilters_array_iff hc, Option.map_eq_none_iff,
        List.findSome?_eq_none_iff]
      exact forall₂_congr fun w hw => (hitems items rfl w hw).accepted
    · have harray' : ∀ items, v ≠ .array items := fun items heq => harray ⟨items, heq⟩
      rw [fault?_notList hc hnull harray']
      exact ⟨nofun, fun hholds => absurd hholds (not_holdsFilters hc hnull harray')⟩

/-- What is wrong under a combinator is reported as the grammar reports it. -/
theorem exists_fault?_iff {c : Combinator} {v : Value} (h : SettledWithItems v)
    {p : FilterError.Report} :
    (∃ e, fault? c (some v) = some e ∧ e.report = p) ↔
      ∃ reason, p = .invalid c reason ∧ RefusedUnder c v reason := by
  obtain ⟨hv, hitems⟩ := h
  by_cases hnull : v = .null
  · subst hnull
    exact ⟨nofun, fun ⟨_, _, hrefused⟩ => absurd hrefused not_refusedUnder_null⟩
  by_cases hc : c = .not
  · subst hc
    simp only [fault?_not hnull, refusedUnder_not_iff hnull, Option.map_eq_some_iff]
    constructor
    · rintro ⟨_, ⟨e, he, rfl⟩, rfl⟩
      exact ⟨e.message, rfl, e.report, (hv.refused _).1 ⟨e, he, rfl⟩, e.message_eq⟩
    · rintro ⟨_, rfl, p, hp, rfl⟩
      obtain ⟨e, he, rfl⟩ := (hv.refused p).2 hp
      exact ⟨_, ⟨e, he, rfl⟩, congrArg _ e.message_eq⟩
  by_cases harray : ∃ items, v = .array items
  · obtain ⟨items, rfl⟩ := harray
    simp only [fault?_array hc, refusedUnder_array_iff hc, Option.map_eq_some_iff,
      List.findSome?_eq_some_iff]
    constructor
    · rintro ⟨_, ⟨e, ⟨front, w, back, heq, he, hfront⟩, rfl⟩, rfl⟩
      have hitem : ∀ w' ∈ front ++ w :: back, Settled w' := heq ▸ hitems items rfl
      simp only [List.forall_mem_append, List.forall_mem_cons] at hitem
      exact ⟨e.message, rfl, front, w, back, e.report, heq,
        fun w' hw' => (hitem.1 w' hw').accepted.1 (hfront w' hw'),
        (hitem.2.1.refused _).1 ⟨e, he, rfl⟩, e.message_eq⟩
    · rintro ⟨_, rfl, front, w, back, p, heq, hfront, hp, rfl⟩
      have hitem : ∀ w' ∈ front ++ w :: back, Settled w' := heq ▸ hitems items rfl
      simp only [List.forall_mem_append, List.forall_mem_cons] at hitem
      obtain ⟨e, he, rfl⟩ := (hitem.2.1.refused p).2 hp
      exact ⟨_, ⟨e, ⟨front, w, back, heq, he, fun w' hw' =>
        (hitem.1 w' hw').accepted.2 (hfront w' hw')⟩, rfl⟩, congrArg _ e.message_eq⟩
  · have harray' : ∀ items, v ≠ .array items := fun items heq => harray ⟨items, heq⟩
    simp only [fault?_notList hc hnull harray', refusedUnder_notList_iff hc hnull harray']
    constructor
    · rintro ⟨_, ⟨⟩, rfl⟩
      exact ⟨_, rfl, rfl⟩
    · rintro ⟨_, rfl, rfl⟩
      exact ⟨_, rfl, rfl⟩

theorem sizeOf_lt_of_member? {members : List (String × Value)} {k : String} {v : Value}
    (h : Value.member? k members = some v) : sizeOf v < sizeOf (Value.object members) := by
  have hlt := List.sizeOf_lt_of_mem (mem_of_member? h)
  simp only [Prod.mk.sizeOf_spec, Value.object.sizeOf_spec] at hlt ⊢
  omega

/-- An object is settled if everything smaller is. -/
theorem settled_object {members : List (String × Value)}
    (h : ∀ w : Value, sizeOf w < sizeOf (Value.object members) → Settled w) :
    Settled (.object members) := by
  have hmember : ∀ c : Combinator, ∀ v ∈ Value.member? c.key members, SettledWithItems v := by
    intro c v hv
    have hlt := sizeOf_lt_of_member? hv
    refine ⟨h v hlt, ?_⟩
    rintro items rfl w hw
    have hitem := List.sizeOf_lt_of_mem hw
    rw [Value.array.sizeOf_spec] at hlt
    exact h w (by omega)
  constructor
  · rw [error?_ofValue_object, List.findSome?_eq_none_iff]
    constructor
    · intro hnone
      exact .object fun c => (fault?_eq_none_iff (hmember c)).1 (hnone c (mem_judged c))
    · rintro ⟨hholds⟩ c -
      exact (fault?_eq_none_iff (hmember c)).2 (hholds c)
  · intro p
    simp only [error?_ofValue_object, findSome?_judged_eq_some_iff]
    constructor
    · rintro ⟨e, ⟨c, hc, hearlier⟩, hp⟩
      cases hv : Value.member? c.key members with
      | none =>
        rw [hv] at hc
        cases hc
      | some v =>
        rw [hv] at hc
        obtain ⟨reason, rfl, hrefused⟩ := (exists_fault?_iff (hmember c v hv)).1 ⟨e, hc, hp⟩
        exact .combinator (fun c' hlt => (fault?_eq_none_iff (hmember c')).1 (hearlier c' hlt)) hv
          hrefused
    · intro hrefused
      cases hrefused with
      | notObject hobject => cases hobject
      | @combinator _ c v reason hearlier hv hrefused =>
        obtain ⟨e, he, hp⟩ := (exists_fault?_iff (hmember c v hv)).2 ⟨reason, rfl, hrefused⟩
        exact ⟨e, ⟨c, hv ▸ he, fun c' hlt => (fault?_eq_none_iff (hmember c')).2 (hearlier c' hlt)⟩,
          hp⟩

theorem settled_of_not_object {v : Value} (h : v.isObject = false) : Settled v := by
  have herror : error? (ofValue v) = some (.notObject v.kind) := by
    cases v with
    | object members => cases h
    | _ => rfl
  constructor
  · rw [herror]
    refine ⟨nofun, ?_⟩
    rintro ⟨-⟩
    cases h
  · intro p
    rw [herror]
    constructor
    · rintro ⟨e, ⟨⟩, rfl⟩
      exact .notObject h
    · intro hrefused
      cases hrefused with
      | notObject _ => exact ⟨_, rfl, rfl⟩
      | combinator _ _ _ => cases h

/-- Reading settles every value: the values in its combinators are smaller. -/
theorem settled (v : Value) : Settled v := by
  induction v using (measure (sizeOf : Value → Nat)).wf.induction with
  | h v ih =>
    by_cases hobject : v.isObject = true
    · cases v with
      | object members => exact settled_object ih
      | _ => contradiction
    · exact settled_of_not_object (by simpa using hobject)

/-- **The values that are read are those of the grammar, and the error of any other value is about
    the first combinator that is wrong**: the first one in the order of the keys, and in a list the
    first item that is no filter, whose message is the reason. -/
theorem ofValue_accepts_or_reports (v : Value) :
    ((∃ f, ofValue v = .ok f) ↔ IsFilter v) ∧
      ∀ p, (∃ e, ofValue v = .error e ∧ e.report = p ∧ e.message = p.message) ↔ Refused v p := by
  obtain ⟨haccepted, hrefused⟩ := settled v
  refine ⟨error?_eq_none.symm.trans haccepted, fun p => (Iff.trans ?_ (hrefused p))⟩
  constructor
  · rintro ⟨e, he, hp, -⟩
    exact ⟨e, error?_eq_some.2 he, hp⟩
  · rintro ⟨e, he, rfl⟩
    exact ⟨e, error?_eq_some.1 he, rfl, e.message_eq⟩

end Filter

end ListQuery
