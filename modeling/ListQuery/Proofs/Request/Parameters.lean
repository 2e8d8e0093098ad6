import ListQuery.Proofs.Request.RoundTrip

/-!
# The last parameter of a name stays

Query parameters are entered one after another. Whether one of them is read does not depend on the
ones before it, so the first that is not read on its own ends the reading with its error. When all
are read, every member of the request is what the last text under its key writes, and the default
if there is none; parameters that are empty or of no known name change nothing.

There are three rules for texts: `where`, `sort` and `select` are JSON texts or `null`, which stands
for the default, `limit`, `skip` and `page` are JSON integers and never `null`, and `nested` is taken
as it is.

## Main definitions

- `Request.Part.read`: what a text alone writes for a member;
- `Request.Part.given`: what parameters say about a member.

## Main statements

- `Request.error?_enterParameter`: the error of entering one parameter;
- `Request.given_cons`: what one parameter changes;
- `Request.ofParameters_takes_last`: the request that parameters write, and their first error.
-/

namespace ListQuery

namespace Request

open Json (Reader Fault)

/-! ## §1 Members and their texts -/

namespace Part

/-- What requests have for a member. -/
abbrev Content : Part → Type
  | .filter => Filter
  | .order => List Order
  | .select => List String
  | .nested => String
  | .limit | .offset | .page => Option Int64

def content (r : Request) : (part : Part) → part.Content
  | .filter => r.filter
  | .order => r.order
  | .select => r.select
  | .nested => r.nested
  | .limit => r.limit
  | .offset => r.offset
  | .page => r.page

/-- The request with this content for a member, in place of its own. -/
def put (r : Request) : (part : Part) → part.Content → Request
  | .filter, f => { r with filter := f }
  | .order, terms => { r with order := terms }
  | .select, columns => { r with select := columns }
  | .nested, text => { r with nested := text }
  | .limit, n => { r with limit := n }
  | .offset, n => { r with offset := n }
  | .page, n => { r with page := n }

/-- A text of JSON or `null`, which stands for the default. -/
def readNullable {α : Type} (name : String) (reader : Reader FilterError α) (default : α)
    (raw : String) : Except DecodeError α :=
  (parameter name (Json.nullable reader) raw).map fun a => a.getD default

/-- A text of a JSON integer. -/
def readInteger (name raw : String) : Except DecodeError (Option Int64) :=
  (parameter name Json.int64 raw).map some

/-- The content that the text of a parameter writes for a member. -/
def read : (part : Part) → (raw : String) → Except DecodeError part.Content
  | .filter, raw => readNullable "where" (Filter.reader Json.depthLimit) {} raw
  | .order, raw => readNullable "sort" (Json.array Order.reader Json.depthLimit) [] raw
  | .select, raw => readNullable "select" (textsReader Json.depthLimit) [] raw
  | .nested, raw => .ok raw
  | .limit, raw => readInteger "limit" raw
  | .offset, raw => readInteger "skip" raw
  | .page, raw => readInteger "page" raw

theorem content_put_self (r : Request) (part : Part) (a : part.Content) :
    part.content (part.put r a) = a := by
  cases part <;> rfl

theorem content_put_of_ne (r : Request) {part part' : Part} (h : part' ≠ part) (a : part.Content) :
    part'.content (part.put r a) = part'.content r := by
  cases part <;> cases part' <;> first | rfl | exact absurd rfl h

/-- Entering a text puts what it writes into the request. -/
theorem enter_eq (draft : Request) (part : Part) (raw : String) :
    part.enter draft raw = (part.read raw).map (part.put draft) := by
  cases part with
  | nested => rfl
  | filter | order | select =>
    simp only [enter, read, readNullable, map_map]
    rfl
  | limit | offset | page =>
    simp only [enter, read, readInteger, map_map]
    rfl

/-- A text that is not read is reported under the key of its member. -/
theorem error?_read (part : Part) (raw : String) :
    ∀ e ∈ error? (part.read raw), ∃ fault, e = .invalidParameter part.key fault := by
  have hparameter {α β : Type} (name : String) (reader : Reader FilterError α) (g : α → β) :
      ∀ e ∈ error? ((parameter name reader raw).map g), ∃ fault, e = .invalidParameter name fault := by
    intro e he
    unfold parameter at he
    rw [error?_map, error?_mapError] at he
    obtain ⟨fault, -, rfl⟩ := Option.map_eq_some_iff.1 he
    exact ⟨fault, rfl⟩
  cases part with
  | nested => exact nofun
  | filter => exact hparameter _ _ _
  | order => exact hparameter _ _ _
  | select => exact hparameter _ _ _
  | limit => exact hparameter _ _ _
  | offset => exact hparameter _ _ _
  | page => exact hparameter _ _ _

end Part

/-! ## §2 One parameter -/

/-- Whether a parameter writes a member: it has the key of the member and is not empty. -/
def Writes (p : String × String) (part : Part) : Prop :=
  p.1 = part.key ∧ p.2 ≠ ""

instance (p : String × String) (part : Part) : Decidable (Writes p part) :=
  inferInstanceAs (Decidable (_ ∧ _))

/-- Whether a parameter is read on its own: it writes no member, or its text is one that its member
    can have. -/
def Readable (p : String × String) : Prop :=
  ∀ part, Writes p part → ∃ a, part.read p.2 = .ok a

theorem Writes.unique {p : String × String} {part part' : Part} (h : Writes p part)
    (h' : Writes p part') : part = part' :=
  Part.key_injective (h.1.symm.trans h'.1)

theorem enterParameter_of_writes (r : Request) {p : String × String} {part : Part}
    (h : Writes p part) : r.enterParameter p.1 p.2 = (part.read p.2).map (part.put r) := by
  have hraw : p.2.isEmpty = false := by simpa using h.2
  rw [h.1, enterParameter_key r part hraw, Part.enter_eq]

/-- A parameter that writes no member is passed over. -/
theorem enterParameter_of_not_writes (r : Request) {p : String × String}
    (h : ∀ part, ¬Writes p part) : r.enterParameter p.1 p.2 = .ok r := by
  by_cases hraw : p.2 = ""
  · rw [hraw]
    rfl
  · have hkey (part : Part) : p.1 ≠ part.key := fun hkey => h part ⟨hkey, hraw⟩
    have hempty : ¬p.2.isEmpty = true := by simpa using hraw
    -- The name is compared with every key.
    exact (if_neg hempty).trans <| (if_neg (hkey .filter)).trans <| (if_neg (hkey .select)).trans <|
      (if_neg (hkey .order)).trans <| (if_neg (hkey .limit)).trans <| (if_neg (hkey .offset)).trans <|
      (if_neg (hkey .page)).trans (if_neg (hkey .nested))

/-- A parameter is entered if it is read on its own, whatever was entered before. -/
theorem exists_enterParameter_iff (r : Request) (p : String × String) :
    (∃ s, r.enterParameter p.1 p.2 = .ok s) ↔ Readable p := by
  by_cases h : ∃ part, Writes p part
  · obtain ⟨part, hp⟩ := h
    rw [enterParameter_of_writes r hp]
    constructor
    · rintro ⟨s, hs⟩ part' hp'
      obtain rfl := hp.unique hp'
      obtain ⟨a, ha, -⟩ := map_eq_ok.1 hs
      exact ⟨a, ha⟩
    · intro hread
      obtain ⟨a, ha⟩ := hread part hp
      exact ⟨_, map_eq_ok.2 ⟨a, ha, rfl⟩⟩
  · rw [not_exists] at h
    exact iff_of_true ⟨r, enterParameter_of_not_writes r h⟩ fun part hp => absurd hp (h part)

theorem enterParameter_eq_error_iff (r : Request) {p : String × String} {e : DecodeError} :
    r.enterParameter p.1 p.2 = .error e ↔ ∃ part, Writes p part ∧ part.read p.2 = .error e := by
  by_cases h : ∃ part, Writes p part
  · obtain ⟨part, hp⟩ := h
    rw [enterParameter_of_writes r hp, ← error?_eq_some, error?_map, error?_eq_some]
    constructor
    · intro he
      exact ⟨part, hp, he⟩
    · rintro ⟨part', hp', he⟩
      obtain rfl := hp.unique hp'
      exact he
  · rw [not_exists] at h
    rw [enterParameter_of_not_writes r h]
    exact iff_of_false nofun fun ⟨part, hp, _⟩ => h part hp

/-- The error of a parameter that is not read. -/
def fault? (p : String × String) : Option DecodeError :=
  error? (enterParameter {} p.1 p.2)

theorem fault?_eq_none_iff {p : String × String} : fault? p = none ↔ Readable p :=
  error?_eq_none.trans (exists_enterParameter_iff {} p)

theorem fault?_eq_some_iff {p : String × String} {e : DecodeError} :
    fault? p = some e ↔ ∃ part, Writes p part ∧ part.read p.2 = .error e :=
  error?_eq_some.trans (enterParameter_eq_error_iff {})

/-- Whether a parameter is read does not depend on the ones before it. -/
theorem error?_enterParameter (r : Request) (p : String × String) :
    error? (r.enterParameter p.1 p.2) = fault? p := by
  ext e
  rw [error?_eq_some, fault?_eq_some_iff, enterParameter_eq_error_iff]

/-- A parameter that is entered changes the member that it writes, and no other. -/
theorem content_of_enterParameter {r s : Request} {p : String × String}
    (h : r.enterParameter p.1 p.2 = .ok s) (part : Part) :
    .ok (part.content s) = if Writes p part then part.read p.2 else .ok (part.content r) := by
  by_cases hex : ∃ part, Writes p part
  · obtain ⟨part', hp⟩ := hex
    rw [enterParameter_of_writes r hp] at h
    obtain ⟨a, ha, rfl⟩ := map_eq_ok.1 h
    by_cases hne : part = part'
    · subst hne
      rw [if_pos hp, ha, Part.content_put_self]
    · rw [if_neg fun hp' => hne (hp'.unique hp), Part.content_put_of_ne r hne]
  · rw [not_exists] at hex
    rw [enterParameter_of_not_writes r hex] at h
    rw [if_neg (hex part), Except.ok.inj h]

/-! ## §3 Lists of parameters -/

/-- What parameters say about a member of a request that they are entered into: the last of those
    that write the member decides, and without one it stays. -/
def Part.given (part : Part) (r : Request) (ps : List (String × String)) :
    Except DecodeError part.Content :=
  match (ps.filter fun p => Writes p part).getLast? with
  | none => .ok (part.content r)
  | some p => part.read p.2

/-- The first parameter is as good as the request that it is entered into. -/
theorem given_cons {r s : Request} {p : String × String} (h : r.enterParameter p.1 p.2 = .ok s)
    (part : Part) (ps : List (String × String)) :
    part.given r (p :: ps) = part.given s ps := by
  have hcontent := content_of_enterParameter h part
  unfold Part.given
  by_cases hp : Writes p part
  · rw [if_pos hp] at hcontent
    rw [List.filter_cons_of_pos (by simpa using hp), List.getLast?_cons]
    cases (ps.filter fun p => Writes p part).getLast? with
    | none => exact hcontent.symm
    | some q => rfl
  · rw [if_neg hp] at hcontent
    rw [List.filter_cons_of_neg (by simpa using hp), hcontent]

/-- The first parameter that is not read ends the reading with its error. -/
theorem error?_foldlM_enterParameter (r : Request) (ps : List (String × String)) :
    error? (ps.foldlM (fun r p => r.enterParameter p.1 p.2) r) = ps.findSome? fault? := by
  induction ps generalizing r with
  | nil => rfl
  | cons p ps ih =>
    rw [List.foldlM_cons, List.findSome?_cons, ← error?_enterParameter r p]
    cases r.enterParameter p.1 p.2 with
    | error e => rfl
    | ok s => exact ih s

/-- Members of the request that parameters are entered into. -/
theorem given_of_foldlM {r s : Request} {ps : List (String × String)}
    (h : ps.foldlM (fun r p => r.enterParameter p.1 p.2) r = .ok s) (part : Part) :
    part.given r ps = .ok (part.content s) := by
  induction ps generalizing r with
  | nil =>
    obtain rfl := Except.ok.inj h
    rfl
  | cons p ps ih =>
    obtain ⟨r', hr', hs⟩ := bind_eq_ok.1 h
    rw [given_cons hr', ih hs]

/-! ## §4 The value `null` -/

/-- Whether a text is JSON `null`, with spaces around it. -/
def IsNull (raw : String) : Prop :=
  ∃ u v, (∀ c ∈ u, Json.isSpace c) ∧ (∀ c ∈ v, Json.isSpace c) ∧
    raw.toList = u ++ ['n', 'u', 'l', 'l'] ++ v

theorem skipSpace_of_isNull {raw : String} (h : IsNull raw) :
    ∃ v, Json.skipSpace v = [] ∧ Json.skipSpace raw.toList = 'n' :: 'u' :: 'l' :: 'l' :: v := by
  obtain ⟨u, v, hu, hv, hraw⟩ := h
  refine ⟨v, List.dropWhile_eq_nil_iff.2 hv, ?_⟩
  rw [hraw, List.append_assoc, Json.skipSpace, List.dropWhile_append_of_pos hu]
  rfl

/-- Where `null` is read, it stands for the default. -/
theorem readNullable_of_isNull {α : Type} {raw : String} (h : IsNull raw) (name : String)
    (reader : Reader FilterError α) (default : α) :
    Part.readNullable name reader default raw = .ok default := by
  obtain ⟨v, hv, hskip⟩ := skipSpace_of_isNull h
  have hread : Json.nullable reader raw.toList = .ok (none, v) := by
    unfold Json.nullable
    rw [hskip]
    rfl
  have hwhole : Json.whole (Json.nullable reader) raw.toList = .ok none := by
    unfold Json.whole
    rw [hread]
    exact if_pos hv
  unfold Part.readNullable parameter
  rw [hwhole]
  rfl

/-- An integer is never `null`. -/
theorem readInteger_of_isNull {raw : String} (h : IsNull raw) (name : String) :
    Part.readInteger name raw = .error (.invalidParameter name .malformed) := by
  obtain ⟨v, -, hskip⟩ := skipSpace_of_isNull h
  have hread : (Json.int64 raw.toList : Except (Fault FilterError) (Int64 × List Char)) =
      .error .malformed := by
    unfold Json.int64 Json.integerFrom
    rw [hskip]
    rfl
  unfold Part.readInteger parameter Json.whole
  rw [hread]
  rfl

/-! ## §5 The request that parameters write -/

/-- **The last parameter of a name stays, and the first that is not read is reported.** Parameters
    write a request if and only if each of them is read on its own. Every member is then what the
    last text under its key that is not empty writes, and the default without one. Otherwise the
    error names the key of the first parameter that is not read. `null` is read as the default of
    the members that are no integers, the bare text apart, and is no integer. -/
theorem ofParameters_takes_last (ps : List (String × String)) :
    ((∃ r, ofParameters ps = .ok r) ↔ ∀ p ∈ ps, Readable p) ∧
      (∀ r, ofParameters ps = .ok r → ∀ part : Part, part.given {} ps = .ok (part.content r)) ∧
      (∀ e, ofParameters ps = .error e ↔
        ∃ front back raw fault, ∃ part : Part, ps = front ++ (part.key, raw) :: back ∧
          (∀ p ∈ front, Readable p) ∧ raw ≠ "" ∧ part.read raw = .error e ∧
          e = .invalidParameter part.key fault) ∧
      ∀ raw, IsNull raw →
        (∀ part ∈ [Part.filter, .order, .select], part.read raw = .ok (part.content {})) ∧
        ∀ part ∈ [Part.limit, .offset, .page], ∃ e, part.read raw = .error e := by
  refine ⟨?_, fun r hr part => given_of_foldlM hr part, fun e => ?_, fun raw hraw => ⟨?_, ?_⟩⟩
  · rw [← error?_eq_none, ofParameters, error?_foldlM_enterParameter, List.findSome?_eq_none_iff]
    simp only [fault?_eq_none_iff]
  · rw [← error?_eq_some, ofParameters, error?_foldlM_enterParameter, List.findSome?_eq_some_iff]
    simp only [fault?_eq_none_iff, fault?_eq_some_iff]
    constructor
    · rintro ⟨front, ⟨name, raw⟩, back, rfl, ⟨part, ⟨rfl, hraw⟩, he⟩, hfront⟩
      obtain ⟨fault, hfault⟩ := part.error?_read raw e (error?_eq_some.2 he)
      exact ⟨front, back, raw, fault, part, rfl, hfront, hraw, he, hfault⟩
    · rintro ⟨front, back, raw, fault, part, rfl, hfront, hraw, he, -⟩
      exact ⟨front, _, back, rfl, ⟨part, ⟨rfl, hraw⟩, he⟩, hfront⟩
  · simp only [List.forall_mem_cons]
    exact ⟨readNullable_of_isNull hraw _ _ _, readNullable_of_isNull hraw _ _ _,
      readNullable_of_isNull hraw _ _ _, nofun⟩
  · simp only [List.forall_mem_cons]
    exact ⟨⟨_, readInteger_of_isNull hraw _⟩, ⟨_, readInteger_of_isNull hraw _⟩,
      ⟨_, readInteger_of_isNull hraw _⟩, nofun⟩

/-- The last `null` takes the columns back, the unknown and the empty parameter change nothing, and
    the last limit stays. -/
example : (ofParameters [("limit", "5"), ("select", "[\"id\"]"), ("lang", "en"), ("select", " null "),
    ("limit", "7"), ("limit", "")]).toOption = some { limit := some 7 } := by
  decide +kernel

end Request

end ListQuery
