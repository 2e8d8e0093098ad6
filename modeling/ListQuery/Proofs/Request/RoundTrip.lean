import ListQuery.Proofs.Filter.Text
import ListQuery.Request.Wire
import ListQuery.Sample

/-!
# Requests survive both of their forms

A request is written as a JSON object of its members, and it can be given as query parameters. In
both forms a member that is unset or empty is left out, and what is left out is the default when the
request is read. So it does not matter in which order the members come.

Each member is a `Part` of the request. Reading it copies this part of the written request into the
draft, and a draft into which all parts that are set were copied is the written request again.

## Main definitions

- `Request.Part`: the members of a request;
- `Request.parameters`: the query parameters of a request.

## Main statements

- `Request.Part.foldl_copy`: a request is made up of the parts that are set;
- `Request.readsAs_part`, `Request.enterParameter_part`: each part is read as it was written;
- `Request.ofJson_and_ofParameters`: a request comes back from its text and from its parameters.
-/

namespace ListQuery

open Json (Value ReadsAs Reader BeginsOtherThan)

variable {ε : Type}

/-! ## §1 Parts of a request -/

namespace Request

/-- A member of a request. -/
inductive Part where
  | filter
  | order
  | select
  | nested
  | limit
  | offset
  | page
  deriving DecidableEq

namespace Part

/-- All members, in declaration order. -/
def all : List Part :=
  [.filter, .order, .select, .nested, .limit, .offset, .page]

theorem mem_all (part : Part) : part ∈ all := by
  cases part <;> decide

/-- The wire key of a member. -/
def key : Part → String
  | .filter => "where"
  | .order => "sort"
  | .select => "select"
  | .nested => "nested"
  | .limit => "limit"
  | .offset => "skip"
  | .page => "page"

theorem key_injective {part part' : Part} (h : part.key = part'.key) : part = part' := by
  cases part <;> cases part' <;> first | rfl | exact absurd h (by decide)

/-- Whether a request has a member. -/
def isSet (r : Request) : Part → Bool
  | .filter => !r.filter.isEmpty
  | .order => !r.order.isEmpty
  | .select => !r.select.isEmpty
  | .nested => !r.nested.isEmpty
  | .limit => r.limit.isSome
  | .offset => r.offset.isSome
  | .page => r.page.isSome

/-- Take over a member of one request into another. -/
def copy (r : Request) (part : Part) (draft : Request) : Request :=
  match part with
  | .filter => { draft with filter := r.filter }
  | .order => { draft with order := r.order }
  | .select => { draft with select := r.select }
  | .nested => { draft with nested := r.nested }
  | .limit => { draft with limit := r.limit }
  | .offset => { draft with offset := r.offset }
  | .page => { draft with page := r.page }

theorem copy_copy (r : Request) (part : Part) (draft : Request) :
    copy r part (copy r part draft) = copy r part draft := by
  cases part <;> rfl

theorem copy_comm (r : Request) (part part' : Part) (draft : Request) :
    copy r part (copy r part' draft) = copy r part' (copy r part draft) := by
  cases part <;> cases part' <;> rfl

/-- A member that a request does not have is that of the empty request. -/
theorem copy_empty {r : Request} {part : Part} (h : part.isSet r = false) :
    copy r part {} = {} := by
  unfold copy
  cases part with
  | filter => rw [Filter.eq_empty_of_isEmpty (f := r.filter) (by simpa [isSet] using h)]
  | order => rw [show r.order = [] by simpa [isSet] using h]
  | select => rw [show r.select = [] by simpa [isSet] using h]
  | nested => rw [show r.nested = "" by simpa [isSet] using h]
  | limit => rw [show r.limit = none by simpa [isSet] using h]
  | offset => rw [show r.offset = none by simpa [isSet] using h]
  | page => rw [show r.page = none by simpa [isSet] using h]

theorem eq_of_copy_eq {r draft : Request} (h : ∀ part, copy r part draft = draft) : draft = r := by
  obtain ⟨filter, order, select, nested, limit, offset, page⟩ := r
  obtain ⟨filter', order', select', nested', limit', offset', page'⟩ := draft
  have hfilter : filter = filter' := congrArg Request.filter (h .filter)
  have horder : order = order' := congrArg Request.order (h .order)
  have hselect : select = select' := congrArg Request.select (h .select)
  have hnested : nested = nested' := congrArg Request.nested (h .nested)
  have hlimit : limit = limit' := congrArg Request.limit (h .limit)
  have hoffset : offset = offset' := congrArg Request.offset (h .offset)
  have hpage : page = page' := congrArg Request.page (h .page)
  rw [hfilter, horder, hselect, hnested, hlimit, hoffset, hpage]

/-- Copying keeps a member that was copied before. -/
theorem copy_foldl_of_eq {r : Request} {part : Part} {draft : Request}
    (h : copy r part draft = draft) (parts : List Part) :
    copy r part (parts.foldl (fun draft part => copy r part draft) draft) =
      parts.foldl (fun draft part => copy r part draft) draft := by
  induction parts generalizing draft with
  | nil => exact h
  | cons part' rest ih => exact ih (by rw [copy_comm, h])

theorem copy_foldl_of_mem {r : Request} {part : Part} {parts : List Part} (h : part ∈ parts)
    (draft : Request) :
    copy r part (parts.foldl (fun draft part => copy r part draft) draft) =
      parts.foldl (fun draft part => copy r part draft) draft := by
  induction parts generalizing draft with
  | nil => exact absurd h List.not_mem_nil
  | cons part' rest ih =>
    rcases List.mem_cons.1 h with rfl | h
    · exact copy_foldl_of_eq (copy_copy r part draft) rest
    · exact ih h (copy r part' draft)

/-- A request is made up of the members that it has, in whatever order these are copied. -/
theorem foldl_copy {r : Request} {parts : List Part} (h : ∀ part, isSet r part = true → part ∈ parts) :
    parts.foldl (fun draft part => copy r part draft) {} = r := by
  apply eq_of_copy_eq
  intro part
  cases hset : isSet r part with
  | true => exact copy_foldl_of_mem (h part hset) {}
  | false => exact copy_foldl_of_eq (copy_empty hset) parts

/-- The wire form of a member, where the request has it. -/
def document (r : Request) : Part → Value
  | .filter => r.filter.document
  | .order => .array (r.order.map Order.document)
  | .select => .array (r.select.map .string)
  | .nested => .string r.nested
  | .limit => (r.limit.map .ofInt64).getD .null
  | .offset => (r.offset.map .ofInt64).getD .null
  | .page => (r.page.map .ofInt64).getD .null

/-- The text of a member as a query parameter, where the request has it. -/
def raw (r : Request) : Part → String
  | .filter => r.filter.document.text
  | .order => (Value.array (r.order.map Order.document)).text
  | .select => (Value.array (r.select.map .string)).text
  | .nested => r.nested
  | .limit => (r.limit.map fun n => toString n.toInt).getD ""
  | .offset => (r.offset.map fun n => toString n.toInt).getD ""
  | .page => (r.page.map fun n => toString n.toInt).getD ""

/-- The members that a request has, in declaration order. -/
def setIn (r : Request) : List Part :=
  all.filter (isSet r)

theorem mem_setIn {r : Request} {part : Part} : part ∈ setIn r ↔ isSet r part = true := by
  rw [setIn, List.mem_filter]
  exact and_iff_right part.mem_all

theorem nodup_keys_setIn (r : Request) : ((setIn r).map key).Nodup := by
  have hall : (all.map key).Nodup := by decide
  exact (List.filter_sublist.map key).nodup hall

theorem map_setIn {γ : Type} (r : Request) (g : Part → γ) :
    (setIn r).map g = all.flatMap fun part => if isSet r part then [g part] else [] := by
  unfold setIn
  induction all with
  | nil => rfl
  | cons part rest ih =>
    rw [List.filter_cons, List.flatMap_cons, ← ih]
    split <;> rfl

end Part

/-- An object lists the members that a request has. -/
theorem document_eq (r : Request) :
    r.document = .object ((Part.setIn r).map fun part => (part.key, part.document r)) := by
  have hmember : ∀ (isEmpty : Bool) (k : String) (v : Value),
      memberUnless isEmpty k v = if !isEmpty then [(k, v)] else [] := by
    intro isEmpty k v
    cases isEmpty <;> rfl
  have hoptional : ∀ (k : String) (o : Option Int64), optionalMember k o =
      if o.isSome then [(k, (o.map Value.ofInt64).getD .null)] else [] := by
    intro k o
    cases o <;> rfl
  rw [Part.map_setIn]
  unfold document
  simp only [hmember, hoptional, Part.all, List.flatMap_cons, List.flatMap_nil, List.append_nil,
    List.append_assoc]
  rfl

/-- The query parameters of a request: those members that it has. -/
def parameters (r : Request) : List (String × String) :=
  (if r.filter.isEmpty then [] else [("where", r.filter.document.text)]) ++
    (if r.order.isEmpty then [] else [("sort", (Value.array (r.order.map Order.document)).text)]) ++
    (if r.select.isEmpty then [] else [("select", (Value.array (r.select.map .string)).text)]) ++
    (if r.nested.isEmpty then [] else [("nested", r.nested)]) ++
    (r.limit.toList.map fun n => ("limit", toString n.toInt)) ++
    (r.offset.toList.map fun n => ("skip", toString n.toInt)) ++
    (r.page.toList.map fun n => ("page", toString n.toInt))

theorem parameters_eq (r : Request) :
    r.parameters = (Part.setIn r).map fun part => (part.key, part.raw r) := by
  have hunless : ∀ (isEmpty : Bool) (k raw : String),
      (if isEmpty then [] else [(k, raw)]) = if !isEmpty then [(k, raw)] else [] := by
    intro isEmpty k raw
    cases isEmpty <;> rfl
  have hoptional : ∀ (k : String) (o : Option Int64),
      (o.toList.map fun n => (k, toString n.toInt)) =
        if o.isSome then [(k, (o.map fun n => toString n.toInt).getD "")] else [] := by
    intro k o
    cases o <;> rfl
  rw [Part.map_setIn]
  unfold parameters
  simp only [hunless, hoptional, Part.all, List.flatMap_cons, List.flatMap_nil, List.append_nil,
    List.append_assoc]
  rfl

end Request

/-! ## §2 Terms of an order -/

theorem Direction.readsAs_reader (d : Direction) :
    ReadsAs (Direction.reader : Reader ε Direction) (Json.literal d.word) d := by
  have hbegin : BeginsOtherThan 'n' (Json.literal d.word) :=
    Json.beginsOtherThan_cons rfl (by decide) _
  have hword : ((some d.word).map Direction.ofWord).getD .ascending = d := by
    cases d <;> decide
  have hread := ((Json.readsAs_string (ε := ε) d.word).nullable hbegin).map fun word =>
    (word.map Direction.ofWord).getD .ascending
  rwa [hword] at hread

/-- What reading a member of a written term does to a draft of the term. -/
def Order.enter (o : Order) (m : String × Value) (draft : Option String × Direction) :
    Option String × Direction :=
  if m.1 = "field" then (some o.field, draft.2) else (draft.1, o.direction)

theorem Order.readsAs_reader (o : Order) (depth : Nat) :
    ReadsAs (Order.reader (depth + 1) : Reader ε Order) o.document.render o := by
  have hfield : ReadsAs (Json.string : Reader ε String) (Value.string o.field).render o.field :=
    Json.readsAs_string o.field
  have hdir : ReadsAs (Direction.reader : Reader ε Direction) (Value.string o.direction.word).render
      o.direction := o.direction.readsAs_reader
  have hrecord : ReadsAs (Json.record (ε := ε) Order.fields (none, .ascending) (depth + 1))
      o.document.render (some o.field, o.direction) := by
    let members := [("field", Value.string o.field), ("dir", Value.string o.direction.word)]
    have hkeys : (members.map Prod.fst).Nodup := by
      show ["field", "dir"].Nodup
      decide
    have hmembers : ∀ m ∈ members, ∃ field, (Order.fields (ε := ε)).find? (·.key = m.1) = some field ∧
        ∀ draft, ReadsAs (field.read depth draft) m.2.render (o.enter m draft) := by
      refine List.forall_mem_cons.2 ⟨⟨_, rfl, fun draft => ?_⟩, List.forall_mem_singleton.2
        ⟨_, rfl, fun draft => ?_⟩⟩
      · exact ReadsAs.field hfield rfl
      · exact ReadsAs.field hdir rfl
    exact Json.readsAs_record members id o.enter hkeys hmembers (none, .ascending)
  exact hrecord.complete rfl

/-! ## §3 Contents of members -/

/-- A parameter holds what its text is read as. -/
theorem parameter_of_readsAs {α : Type} {reader : Reader FilterError α} {text : List Char} {a : α}
    (h : ReadsAs reader text a) (name : String) :
    parameter name reader (String.ofList text) = .ok a := by
  unfold parameter
  rw [String.toList_ofList, h.whole]
  rfl

theorem isEmpty_of_beginsOtherThan {c : Char} {text : List Char} (h : BeginsOtherThan c text) :
    (String.ofList text).isEmpty = false := by
  obtain ⟨d, t, rfl, -, -⟩ := h
  rw [Bool.eq_false_iff]
  intro hempty
  have hchars := congrArg String.toList (String.isEmpty_iff.1 hempty)
  rw [String.toList_ofList] at hchars
  cases hchars

theorem Filter.beginsOtherThan_document (f : Filter) : BeginsOtherThan 'n' f.document.render := by
  rw [Filter.document_eq]
  exact Json.beginsOtherThan_cons rfl (by decide) _

theorem beginsOtherThan_array (vs : List Value) : BeginsOtherThan 'n' (Value.array vs).render :=
  Json.beginsOtherThan_cons rfl (by decide) _

theorem beginsOtherThan_renderInt (n : Int64) : BeginsOtherThan 'n' (Json.renderInt n.toInt) :=
  Json.Number.Rereads.beginsOtherThan (Json.Number.rereads_integer
    ⟨n.le_toInt, Int.lt_trans n.toInt_lt (by decide)⟩) (by decide)

/-- An integer is read from its decimals. -/
theorem readsAs_integer {o : Option Int64} (h : o.isSome = true) :
    ReadsAs (Json.nullable (Json.int64 (ε := ε))) ((o.map Value.ofInt64).getD .null).render o := by
  obtain ⟨n, rfl⟩ := Option.isSome_iff_exists.1 h
  exact (Json.readsAs_int64 n).nullable (beginsOtherThan_renderInt n)

theorem readsAs_order (os : List Order) (depth : Nat) :
    ReadsAs (Json.array (Order.reader (ε := ε)) (depth + 2))
      (Value.array (os.map Order.document)).render os := by
  have hread : ReadsAs (Json.array (Order.reader (ε := ε)) (depth + 2))
      (Value.array (os.map Order.document)).render (os.map id) :=
    Json.readsAs_array os Order.document id
      (fun o _ => Json.beginsOtherThan_cons rfl (by decide) _) (fun o _ => o.readsAs_reader depth)
  rwa [List.map_id] at hread

theorem readsAs_texts (texts : List String) (depth : Nat) :
    ReadsAs (textsReader (ε := ε) (depth + 1)) (Value.array (texts.map .string)).render texts := by
  have hread : ReadsAs (textsReader (ε := ε) (depth + 1))
      (Value.array (texts.map .string)).render (texts.map id) :=
    Json.readsAs_array texts Value.string id
      (fun text _ => Json.beginsOtherThan_cons rfl (by decide) _)
      (fun text _ => Json.readsAs_string text)
  rwa [List.map_id] at hread

/-! ## §4 Members are read back -/

namespace Request

variable {r : Request} {part : Part} {depth : Nat}

/-- Reading a member that a request has copies this member. -/
theorem readsAs_part
    (hfilter : part = .filter →
      ReadsAs (Filter.reader (depth + 2)) r.filter.document.render r.filter)
    (hset : part.isSet r = true) :
    ∃ field, Request.fields.find? (·.key = part.key) = some field ∧ ∀ draft,
      ReadsAs (field.read (depth + 2) draft) (part.document r).render (Part.copy r part draft) := by
  cases part with
  | filter =>
    have hread := (hfilter rfl).nullable r.filter.beginsOtherThan_document
    exact ⟨_, rfl, fun draft => hread.field rfl⟩
  | order =>
    have hread := (readsAs_order (ε := FilterError) r.order depth).nullable
      (beginsOtherThan_array _)
    exact ⟨_, rfl, fun draft => hread.field rfl⟩
  | select =>
    have hread := (readsAs_texts (ε := FilterError) r.select (depth + 1)).nullable
      (beginsOtherThan_array _)
    exact ⟨_, rfl, fun draft => hread.field rfl⟩
  | nested =>
    have hread := (Json.readsAs_string (ε := FilterError) r.nested).nullable
      (Json.beginsOtherThan_cons rfl (by decide) _)
    exact ⟨_, rfl, fun draft => hread.field rfl⟩
  | limit => exact ⟨_, rfl, fun draft => (readsAs_integer hset).field rfl⟩
  | offset => exact ⟨_, rfl, fun draft => (readsAs_integer hset).field rfl⟩
  | page => exact ⟨_, rfl, fun draft => (readsAs_integer hset).field rfl⟩

/-- Enter a parameter that is not empty into the member that it is for. -/
def Part.enter (draft : Request) (raw : String) : Part → Except DecodeError Request
  | .filter => (parameter "where" (Json.nullable (Filter.reader Json.depthLimit)) raw).map fun f =>
    { draft with filter := f.getD {} }
  | .order =>
    (parameter "sort" (Json.nullable (Json.array Order.reader Json.depthLimit)) raw).map
      fun order => { draft with order := order.getD [] }
  | .select => (parameter "select" (Json.nullable (textsReader Json.depthLimit)) raw).map
    fun select => { draft with select := select.getD [] }
  | .nested => .ok { draft with nested := raw }
  | .limit => (parameter "limit" Json.int64 raw).map fun n => { draft with limit := some n }
  | .offset => (parameter "skip" Json.int64 raw).map fun n => { draft with offset := some n }
  | .page => (parameter "page" Json.int64 raw).map fun n => { draft with page := some n }

theorem enterParameter_key (draft : Request) (part : Part) {raw : String}
    (hraw : raw.isEmpty = false) : draft.enterParameter part.key raw = part.enter draft raw := by
  unfold enterParameter
  rw [hraw]
  cases part <;> rfl

theorem isEmpty_raw (hset : part.isSet r = true) : (part.raw r).isEmpty = false := by
  have hinteger : ∀ o : Option Int64, o.isSome = true →
      ((o.map fun n => toString n.toInt).getD "").isEmpty = false := by
    intro o ho
    obtain ⟨n, rfl⟩ := Option.isSome_iff_exists.1 ho
    rw [Option.map_some, Option.getD_some, ← Json.ofList_renderInt]
    exact isEmpty_of_beginsOtherThan (beginsOtherThan_renderInt n)
  cases part with
  | filter => exact isEmpty_of_beginsOtherThan r.filter.beginsOtherThan_document
  | order => exact isEmpty_of_beginsOtherThan (beginsOtherThan_array _)
  | select => exact isEmpty_of_beginsOtherThan (beginsOtherThan_array _)
  | nested => exact Bool.not_eq_true' _ ▸ hset
  | limit => exact hinteger r.limit hset
  | offset => exact hinteger r.offset hset
  | page => exact hinteger r.page hset

theorem parameter_integer {o : Option Int64} (h : o.isSome = true) (name : String) :
    (parameter name Json.int64 ((o.map fun n => toString n.toInt).getD "")).map some = .ok o := by
  obtain ⟨n, rfl⟩ := Option.isSome_iff_exists.1 h
  rw [Option.map_some, Option.getD_some, ← Json.ofList_renderInt,
    parameter_of_readsAs (Json.readsAs_int64 n)]
  rfl

/-- Entering the parameter of a member that a request has copies this member. -/
theorem enterParameter_part
    (hfilter : part = .filter →
      ReadsAs (Filter.reader Json.depthLimit) r.filter.document.render r.filter)
    (hset : part.isSet r = true) (draft : Request) :
    draft.enterParameter part.key (part.raw r) = .ok (Part.copy r part draft) := by
  rw [enterParameter_key draft part (isEmpty_raw hset)]
  cases part with
  | filter =>
    have hread := (hfilter rfl).nullable r.filter.beginsOtherThan_document
    exact map_eq_ok.2 ⟨_, parameter_of_readsAs hread _, rfl⟩
  | order =>
    have hread := (readsAs_order (ε := FilterError) r.order 125).nullable (beginsOtherThan_array _)
    exact map_eq_ok.2 ⟨_, parameter_of_readsAs hread _, rfl⟩
  | select =>
    have hread := (readsAs_texts (ε := FilterError) r.select 126).nullable (beginsOtherThan_array _)
    exact map_eq_ok.2 ⟨_, parameter_of_readsAs hread _, rfl⟩
  | nested => rfl
  | limit =>
    obtain ⟨n, hn, heq⟩ := map_eq_ok.1 (parameter_integer hset "limit")
    exact map_eq_ok.2 ⟨n, hn, by rw [heq]; rfl⟩
  | offset =>
    obtain ⟨n, hn, heq⟩ := map_eq_ok.1 (parameter_integer hset "skip")
    exact map_eq_ok.2 ⟨n, hn, by rw [heq]; rfl⟩
  | page =>
    obtain ⟨n, hn, heq⟩ := map_eq_ok.1 (parameter_integer hset "page")
    exact map_eq_ok.2 ⟨n, hn, by rw [heq]; rfl⟩

/-! ## §5 Requests are read back -/

/-- A request is read from its document, if its filter is read from the filter's document. -/
theorem readsAs_document (depth : Nat)
    (hfilter : r.filter.isEmpty = false →
      ReadsAs (Filter.reader (depth + 2)) r.filter.document.render r.filter) :
    ReadsAs (Request.reader (depth + 3)) r.document.render r := by
  have hparts : ∀ part ∈ Part.setIn r, ∃ field,
      Request.fields.find? (·.key = part.key) = some field ∧ ∀ draft,
        ReadsAs (field.read (depth + 2) draft) (part.document r).render
          (Part.copy r part draft) := by
    intro part hpart
    have hset := Part.mem_setIn.1 hpart
    refine readsAs_part ?_ hset
    rintro rfl
    exact hfilter (Bool.not_eq_true' _ ▸ hset)
  rw [document_eq]
  have hread : ReadsAs (Request.reader (depth + 3))
      (Value.object ((Part.setIn r).map fun part => (part.key, part.document r))).render
      ((Part.setIn r).foldl (fun draft part => Part.copy r part draft) {}) :=
    Json.readsAs_record (Part.setIn r) (fun part => (part.key, part.document r)) (Part.copy r)
      (Part.nodup_keys_setIn r) hparts {}
  rwa [Part.foldl_copy fun part => Part.mem_setIn.2] at hread

/-- Parameters of members that a request has copy these members one after another. -/
theorem foldlM_enterParameter
    (hfilter : r.filter.isEmpty = false →
      ReadsAs (Filter.reader Json.depthLimit) r.filter.document.render r.filter)
    {ps : List (String × String)}
    (hps : ∀ q ∈ ps, ∃ part : Part, part.isSet r = true ∧ q = (part.key, part.raw r))
    (draft : Request) :
    ∃ parts : List Part, (∀ part, (Part.key part, part.raw r) ∈ ps → part ∈ parts) ∧
      ps.foldlM (fun draft q => enterParameter draft q.1 q.2) draft =
        .ok (parts.foldl (fun draft part => Part.copy r part draft) draft) := by
  induction ps generalizing draft with
  | nil => exact ⟨[], fun part hpart => absurd hpart List.not_mem_nil, rfl⟩
  | cons q rest ih =>
    obtain ⟨part, hset, rfl⟩ := hps q List.mem_cons_self
    obtain ⟨parts, hmem, hfold⟩ := ih (fun q hq => hps q (List.mem_cons_of_mem _ hq))
      (Part.copy r part draft)
    refine ⟨part :: parts, fun part' hpart' => ?_, ?_⟩
    · rcases List.mem_cons.1 hpart' with heq | hpart'
      · exact List.mem_cons.2 (Or.inl (Part.key_injective (Prod.mk.inj heq).1))
      · exact List.mem_cons_of_mem _ (hmem part' hpart')
    · have henter : draft.enterParameter part.key (part.raw r) = .ok (Part.copy r part draft) := by
        refine enterParameter_part ?_ hset draft
        rintro rfl
        exact hfilter (Bool.not_eq_true' _ ▸ hset)
      rw [List.foldlM_cons, henter]
      exact hfold

/-- A request is read from its parameters in any order, if its filter is read from the filter's
    document. -/
theorem ofParameters_perm
    (hfilter : r.filter.isEmpty = false →
      ReadsAs (Filter.reader Json.depthLimit) r.filter.document.render r.filter)
    {ps : List (String × String)} (hps : ps.Perm r.parameters) : ofParameters ps = .ok r := by
  have hmem : ∀ q, q ∈ ps ↔ ∃ part : Part, part.isSet r = true ∧ (part.key, part.raw r) = q := by
    intro q
    rw [hps.mem_iff, parameters_eq, List.mem_map]
    exact exists_congr fun part => and_congr_left' Part.mem_setIn
  obtain ⟨parts, hparts, hfold⟩ := foldlM_enterParameter hfilter (fun q hq => by
    obtain ⟨part, hset, heq⟩ := (hmem q).1 hq
    exact ⟨part, hset, heq.symm⟩) {}
  unfold ofParameters
  rw [hfold, Part.foldl_copy fun part hset => hparts part ((hmem _).2 ⟨part, hset, rfl⟩)]

/-- The filter of a request stands one level down in the request's document. -/
theorem nesting_filter_lt (h : r.filter.isEmpty = false) :
    r.filter.document.nesting < r.document.nesting := by
  have hset : Part.isSet r .filter = true := by
    unfold Part.isSet
    rw [h]
    rfl
  rw [document_eq]
  refine Nat.lt_succ_of_le (Value.nestingMembers_le_iff.1 (le_refl _) ("where", _) ?_)
  exact List.mem_map.2 ⟨.filter, Part.mem_setIn.2 hset, rfl⟩

/-- A request comes back from its text and from its parameters in any order, if its filter was read
    from a value, its text is not too deep and the numbers in its filter are read back. -/
theorem ofJson_and_ofParameters (hfilter : ∃ v : Value, v.Canonical ∧ Filter.ofValue v = .ok r.filter)
    (hdepth : r.document.nesting ≤ Json.depthLimit)
    (hnumbers : ∀ n ∈ r.filter.document.numbers, n.Rereads) :
    Request.ofJson r.document.text = .ok r ∧
      ∀ ps : List (String × String), ps.Perm r.parameters → ofParameters ps = .ok r := by
  obtain ⟨v, hv, hread⟩ := hfilter
  have hlevel : r.filter.isEmpty = false → r.filter.document.nesting ≤ 126 := fun h =>
    Nat.le_of_lt_succ ((nesting_filter_lt h).trans_le hdepth)
  constructor
  · have hdocument : ReadsAs (Request.reader Json.depthLimit) r.document.render r :=
      readsAs_document 124 fun h =>
        Filter.readsAs_document hv hread hnumbers (hlevel h)
    unfold Request.ofJson Request.ofChars Value.text
    rw [String.toList_ofList, hdocument.whole]
    rfl
  · intro ps hps
    exact ofParameters_perm (fun h =>
      Filter.readsAs_document hv hread hnumbers (Nat.le_succ_of_le (hlevel h))) hps

/-- A request with all of its members. -/
def fullRequest : Request :=
  { filter := Sample.mixedFilter
    order := [{ field := "created_at", direction := .descending }, { field := "name" }]
    select := ["id", "name"]
    nested := "author \x7b profile \x7d"
    limit := some 10
    offset := some 20
    page := some 3 }

theorem ofJson_and_ofParameters_fullRequest :
    Filter.ofValue fullRequest.filter.toValue = .ok fullRequest.filter ∧
      Request.ofJson fullRequest.document.text = .ok fullRequest ∧
      ofParameters fullRequest.parameters.reverse = .ok fullRequest := by
  have hcanonical : fullRequest.filter.toValue.Canonical := by decide +kernel
  have hread : Filter.ofValue fullRequest.filter.toValue = .ok fullRequest.filter :=
    Filter.WireNormal.ofValue_toValue (by decide +kernel)
  have hdepth : fullRequest.document.nesting ≤ Json.depthLimit := by decide +kernel
  have hnumbers : ∀ n ∈ fullRequest.filter.document.numbers, n.Rereads := by decide +kernel
  obtain ⟨htext, hparameters⟩ :=
    ofJson_and_ofParameters ⟨_, hcanonical, hread⟩ hdepth hnumbers
  exact ⟨hread, htext, hparameters _ (List.reverse_perm _)⟩

/-- A comparison with the number that is nearest to `1.7325e+27`. These are its shortest digits, but
    they are read as the number below it. -/
def roundedTwice : Request :=
  { filter := .comparing "a" (.number (.float ⟨false, 5014305583919277945, by decide⟩)) }

/-- Without the condition on numbers, a request that was read need not come back from its text. -/
theorem ofJson_roundedTwice :
    Request.ofJson "\x7b\"where\":\x7b\"a\":1732500e21\x7d\x7d" = .ok roundedTwice ∧
      (∃ v : Value, v.Canonical ∧ Filter.ofValue v = .ok roundedTwice.filter) ∧
      roundedTwice.document.nesting ≤ Json.depthLimit ∧
      Request.ofJson roundedTwice.document.text ≠ .ok roundedTwice := by
  refine ⟨toOption_eq_some.1 (by decide +kernel), ?_, by decide +kernel, fun h => ?_⟩
  · exact ⟨roundedTwice.filter.toValue, by decide +kernel,
      Filter.WireNormal.ofValue_toValue (by decide +kernel)⟩
  · exact absurd (toOption_eq_some.2 h) (by decide +kernel)

end Request

end ListQuery
