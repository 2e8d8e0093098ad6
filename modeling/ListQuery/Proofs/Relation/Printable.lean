import ListQuery.Proofs.Relation.Grammar
import ListQuery.Relation.Printer

/-!
# Printable relations

A relation is *printable* when its text says everything about it: its name and the names inside it
can stand in a relation list, and every request in it is read back from its own JSON text.

The *height* of a relation is the number of blocks that stand inside one another in its text. A
relation with a request or with relations inside it has a block of its own, whose text is made of
the parts between its commas (`blockParts`).

## Main statements

- `render_leaf`, `render_block`: the text of a relation without and with a block;
- `Printable.head?_render`, `Printable.getLast?_render`: no blanks stand around it.
-/

namespace ListQuery

namespace Relation

/-! ## §1 Printable relations -/

/-- A relation whose text can be read back. -/
inductive Printable : Relation → Prop
  | intro {name : String} {query : Option Request} {children : List Relation}
      (hname : IsName name)
      (hquery : ∀ q ∈ query, Request.ofJson q.document.text = .ok q)
      (hchildren : ∀ r ∈ children, Printable r) :
      Printable ⟨name, query, children⟩

mutual

/-- The number of blocks that stand inside one another in the text of a relation. -/
def height : Relation → Nat
  | ⟨_, query, children⟩ =>
    if query.isNone && children.isEmpty then 0 else heightAll children + 1

/-- The greatest height of several relations. -/
def heightAll : List Relation → Nat
  | [] => 0
  | r :: rest => max r.height (heightAll rest)

end

theorem heightAll_le_iff {rs : List Relation} {n : Nat} :
    heightAll rs ≤ n ↔ ∀ r ∈ rs, r.height ≤ n := by
  induction rs with
  | nil => simp [heightAll]
  | cons r rest ih => rw [heightAll, Nat.max_le, ih, List.forall_mem_cons]

/-! ## §2 The text of a relation -/

/-- The texts between the commas of a block with a request and relations. -/
def blockParts (query : Option Request) (children : List Relation) : List (List Char) :=
  (query.map fun q => q.document.render).toList ++ children.map render

theorem render_leaf (name : String) : render ⟨name, none, []⟩ = name.toList := by
  simp [render]

theorem render_block (name : String) {query : Option Request} {children : List Relation}
    (h : query.isSome ∨ children ≠ []) :
    render ⟨name, query, children⟩ =
      name.toList ++ ('{' :: Text.join [','] (blockParts query children) ++ ['}']) := by
  have hblock : ¬(query.isNone && children.isEmpty) := by
    cases query <;> cases children <;> simp_all
  rw [render, if_neg hblock, renderAll_eq_map]
  simp [blockParts]

-- The two cases are those of `render_leaf` and `render_block`.
theorem height_block (name : String) {query : Option Request} {children : List Relation}
    (h : query.isSome ∨ children ≠ []) :
    height ⟨name, query, children⟩ = heightAll children + 1 := by
  have hblock : ¬(query.isNone && children.isEmpty) := by
    cases query <;> cases children <;> simp_all
  rw [height, if_neg hblock]

/-- The blocks inside a relation's own block nest less deep than those around it. -/
theorem heightAll_lt_of_mem {rs : List Relation} {n : Nat} (h : heightAll rs ≤ n) {name : String}
    {query : Option Request} {children : List Relation} (hr : ⟨name, query, children⟩ ∈ rs)
    (hblock : query.isSome ∨ children ≠ []) : heightAll children < n := by
  have hle := heightAll_le_iff.1 h _ hr
  rw [height_block name hblock] at hle
  exact hle

theorem leaf_or_block (query : Option Request) (children : List Relation) :
    (query = none ∧ children = []) ∨ (query.isSome ∨ children ≠ []) := by
  cases query <;> cases children <;> simp

theorem exists_render_document (q : Request) :
    ∃ body, Balanced body ∧ q.document.render = '{' :: body ++ ['}'] :=
  ⟨_, balanced_renderMembers _, rfl⟩

/-- What holds of the text of a request and of the texts of the relations inside holds of every part
    of a block. -/
theorem forall_mem_blockParts {P : List Char → Prop} (query : Option Request)
    {children : List Relation} (hdocument : ∀ q : Request, P q.document.render)
    (hrender : ∀ r ∈ children, P r.render) : ∀ s ∈ blockParts query children, P s := by
  intro s hs
  rcases List.mem_append.1 hs with hs | hs
  · obtain ⟨q, -, rfl⟩ := Option.map_eq_some_iff.1 (Option.mem_toList.1 hs)
    exact hdocument q
  · obtain ⟨r, hr, rfl⟩ := List.mem_map.1 hs
    exact hrender r hr

/-! ## §3 The pieces of a request -/

theorem pieces_render_document (q : Request) :
    ∃ body, q.document.render = '{' :: body ++ ['}'] ∧
      pieces q.document.render = [.block body] := by
  obtain ⟨body, hbody, hrender⟩ := exists_render_document q
  refine ⟨body, hrender, ?_⟩
  rw [hrender, pieces_block hbody, pieces_nil]

theorem isEntryText_render_document (q : Request) : IsEntryText q.document.render := by
  obtain ⟨body, hrender, hpieces⟩ := pieces_render_document q
  refine ⟨?_, ?_, ?_⟩
  · rw [hrender]
    simp
  · rw [hpieces]
    simp
  · rw [hpieces]
    simp

/-! ## §4 The text of several relations -/

theorem Printable.render_ne_nil {r : Relation} (h : Printable r) : r.render ≠ [] := by
  obtain @⟨name, query, children, hname, -, -⟩ := h
  rcases leaf_or_block query children with ⟨rfl, rfl⟩ | hblock
  · rw [render_leaf]
    exact hname.toList_ne_nil
  · rw [render_block name hblock]
    simp

/-- The text of a printable relation begins with a character of its name. -/
theorem Printable.head?_render {r : Relation} (h : Printable r) :
    ∀ c ∈ r.render.head?, Text.isBlank c = false := by
  obtain @⟨name, query, children, hname, -, -⟩ := h
  have hhead : (render ⟨name, query, children⟩).head? = name.toList.head? := by
    obtain ⟨c, s, hcs⟩ := List.exists_cons_of_ne_nil hname.toList_ne_nil
    rcases leaf_or_block query children with ⟨rfl, rfl⟩ | hblock
    · rw [render_leaf]
    · rw [render_block name hblock, hcs]
      rfl
  rw [hhead]
  exact hname.first

/-- The text of a printable relation ends in a character of its name or in a brace. -/
theorem Printable.getLast?_render {r : Relation} (h : Printable r) :
    ∀ c ∈ r.render.getLast?, Text.isBlank c = false := by
  obtain @⟨name, query, children, hname, -, -⟩ := h
  rcases leaf_or_block query children with ⟨rfl, rfl⟩ | hblock
  · rw [render_leaf]
    exact hname.last
  · rw [render_block name hblock, ← List.append_assoc, List.getLast?_concat]
    rintro c ⟨⟩
    decide

/-- The text of several relations as it stands in a block or at the outermost level. -/
def levelText (rs : List Relation) : List Char :=
  Text.join [','] (rs.map render)

theorem levelText_cons_cons (r s : Relation) (rest : List Relation) :
    levelText (r :: s :: rest) = r.render ++ ',' :: levelText (s :: rest) := by
  simp [levelText, Text.join]

theorem head?_levelText {rs : List Relation} (h : ∀ r ∈ rs, Printable r) :
    ∀ c ∈ (levelText rs).head?, Text.isBlank c = false := by
  cases rs with
  | nil => simp [levelText, Text.join]
  | cons r rest =>
    have hr := h r List.mem_cons_self
    cases rest with
    | nil => exact hr.head?_render
    | cons s rest =>
      have hhead := hr.head?_render
      obtain ⟨c, t, hct⟩ := List.exists_cons_of_ne_nil hr.render_ne_nil
      rw [levelText_cons_cons, hct]
      rwa [hct] at hhead

theorem getLast?_levelText {rs : List Relation} (h : ∀ r ∈ rs, Printable r) :
    ∀ c ∈ (levelText rs).getLast?, Text.isBlank c = false := by
  induction rs with
  | nil => simp [levelText, Text.join]
  | cons r rest ih =>
    have hrest := ih fun s hs => h s (List.mem_cons_of_mem _ hs)
    cases rest with
    | nil => exact (h r List.mem_cons_self).getLast?_render
    | cons s rest =>
      rw [levelText_cons_cons, List.getLast?_append, List.getLast?_cons]
      -- The last character is that of the rest, or the comma if the rest is empty.
      rintro c ⟨⟩
      cases hlast : (levelText (s :: rest)).getLast? with
      | none => decide
      | some d => exact hrest d hlast

end Relation

end ListQuery
