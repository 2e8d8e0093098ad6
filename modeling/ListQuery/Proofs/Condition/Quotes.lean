import ListQuery.Proofs.Condition.Reference
import ListQuery.Proofs.Filter.Visits

/-!
# Quotes in references

Quoted text ends at the first quote that is not doubled, and a doubled quote inside it stands for
one. A name between double quotes has its quotes doubled, so that any name is read back as one
identifier. The keys of a document reference stand between single quotes as they are in the path. So
the reference is read as intended if and only if the path has its single quotes doubled there, and
otherwise the literal ends inside the path and what follows is read as something else.

## Main definitions

- `Text.doubled`, `Text.readQuoted`: writing and reading quotes between quotes;
- `lexemes`: a text as identifiers, literals and marks;
- `ReferenceForm`: what references are to be read as.

## Main statements

- `Text.readQuoted_eq_some_iff`, `Text.readQuoted_eq_none_iff`: where quoted text ends;
- `Reference.exists_form_iff`: the references that are read as one of the forms;
- `Recorder.existsUnique_form_iff`: the paths whose references are.
-/

namespace ListQuery

/-! ## §1 Doubled quotes -/

namespace Text

/-- A text with every quote written twice. -/
def doubled (quote : Char) (s : List Char) : List Char :=
  s.flatMap fun c => if c = quote then [quote, quote] else [c]

/-- The text in front of the first quote that is not doubled, with one quote for each doubled one,
    and what is behind that quote. -/
def readQuoted (quote : Char) : List Char → Option (List Char × List Char)
  | [] => none
  | [c] => if c = quote then some ([], []) else none
  | c :: d :: s =>
    if c = quote then
      if d = quote then (readQuoted quote s).map (Prod.map (quote :: ·) id)
      else some ([], d :: s)
    else (readQuoted quote (d :: s)).map (Prod.map (c :: ·) id)

variable {quote : Char}

theorem doubled_cons_self (s : List Char) :
    doubled quote (quote :: s) = quote :: quote :: doubled quote s := by
  simp [doubled]

theorem doubled_cons_of_ne {c : Char} (h : c ≠ quote) (s : List Char) :
    doubled quote (c :: s) = c :: doubled quote s := by
  simp [doubled, h]

theorem readQuoted_cons_of_ne {c : Char} (h : c ≠ quote) (s : List Char) :
    readQuoted quote (c :: s) = (readQuoted quote s).map (Prod.map (c :: ·) id) := by
  cases s <;> simp [readQuoted, h]

theorem readQuoted_quote {s : List Char} (h : s.head? ≠ some quote) :
    readQuoted quote (quote :: s) = some ([], s) := by
  cases s <;> simp_all [readQuoted]

theorem readQuoted_quote_quote (s : List Char) :
    readQuoted quote (quote :: quote :: s) =
      (readQuoted quote s).map (Prod.map (quote :: ·) id) := by
  simp [readQuoted]

/-- Doubled quotes are read as one, up to where the reading ends. -/
theorem readQuoted_doubled_append (t s : List Char) :
    readQuoted quote (doubled quote t ++ s) = (readQuoted quote s).map (Prod.map (t ++ ·) id) := by
  induction t with
  | nil => exact Option.map_id.symm ▸ rfl
  | cons c t ih =>
    have hmap : (readQuoted quote (doubled quote t ++ s)).map (Prod.map (c :: ·) id) =
        (readQuoted quote s).map (Prod.map (c :: t ++ ·) id) := by
      rw [ih, Option.map_map]
      rfl
    rcases eq_or_ne c quote with rfl | hc
    · rw [doubled_cons_self, List.cons_append, List.cons_append, readQuoted_quote_quote, hmap]
    · rw [doubled_cons_of_ne hc, List.cons_append, readQuoted_cons_of_ne hc, hmap]

/-- Doubled quotes have no end. -/
theorem readQuoted_doubled (t : List Char) : readQuoted quote (doubled quote t) = none := by
  have h : readQuoted quote (doubled quote t ++ []) = _ := readQuoted_doubled_append t []
  rwa [List.append_nil] at h

/-- A text either has its quotes doubled, or has a first one that is not. -/
theorem exists_doubled (quote : Char) (s : List Char) :
    (∃ t, s = doubled quote t) ∨
      ∃ t rest, s = doubled quote t ++ quote :: rest ∧ rest.head? ≠ some quote := by
  -- The reader has the cases that matter: it looks at one character, or at two if the first one is
  -- a quote.
  fun_induction readQuoted quote s with
  | case1 => exact Or.inl ⟨[], rfl⟩
  | case2 => exact Or.inr ⟨[], [], rfl, nofun⟩
  | case3 c hc => exact Or.inl ⟨[c], by simp [doubled, hc]⟩
  | case4 s ih =>
    rcases ih with ⟨t, rfl⟩ | ⟨t, rest, rfl, hrest⟩
    · exact Or.inl ⟨quote :: t, (doubled_cons_self t).symm⟩
    · exact Or.inr ⟨quote :: t, rest, by rw [doubled_cons_self]; rfl, hrest⟩
  | case5 d s hd => exact Or.inr ⟨[], d :: s, rfl, by simpa using hd⟩
  | case6 c d s hc ih =>
    rcases ih with ⟨t, ht⟩ | ⟨t, rest, ht, hrest⟩
    · exact Or.inl ⟨c :: t, by rw [doubled_cons_of_ne hc, ht]⟩
    · exact Or.inr ⟨c :: t, rest, by rw [doubled_cons_of_ne hc, ht]; rfl, hrest⟩

/-- Quoted text ends at the first quote that is not doubled. -/
theorem readQuoted_eq_some_iff {s t rest : List Char} :
    readQuoted quote s = some (t, rest) ↔
      s = doubled quote t ++ quote :: rest ∧ rest.head? ≠ some quote := by
  constructor
  · intro h
    rcases exists_doubled quote s with ⟨u, rfl⟩ | ⟨u, rest', rfl, hrest⟩
    · rw [readQuoted_doubled] at h
      cases h
    · rw [readQuoted_doubled_append, readQuoted_quote hrest] at h
      simp only [Option.map_some, Prod.map, List.append_nil, id, Option.some.injEq,
        Prod.mk.injEq] at h
      obtain ⟨rfl, rfl⟩ := h
      exact ⟨rfl, hrest⟩
  · rintro ⟨rfl, hrest⟩
    rw [readQuoted_doubled_append, readQuoted_quote hrest]
    simp

example : readQuoted '\'' "it''s' here".toList = some ("it's".toList, " here".toList) := by decide

/-- Quoted text has no end if and only if all quotes are doubled. -/
theorem readQuoted_eq_none_iff {s : List Char} :
    readQuoted quote s = none ↔ ∃ t, s = doubled quote t := by
  constructor
  · intro h
    refine (exists_doubled quote s).resolve_right ?_
    rintro ⟨t, rest, hs⟩
    rw [readQuoted_eq_some_iff.2 hs] at h
    cases h
  · rintro ⟨t, rfl⟩
    exact readQuoted_doubled t

theorem length_lt_of_readQuoted {s t rest : List Char} (h : readQuoted quote s = some (t, rest)) :
    rest.length < s.length := by
  rw [(readQuoted_eq_some_iff.1 h).1, List.length_append, List.length_cons]
  omega

/-- Characters other than quotes can be replaced by others without changing which quotes are
    doubled. -/
theorem exists_eq_doubled_map_iff {f : Char → Char} (hf : ∀ c, f c = quote ↔ c = quote)
    {s : List Char} :
    (∃ t, s.map f = doubled quote t) ↔ ∃ t, s = doubled quote t := by
  have hmap (t : List Char) : (doubled quote t).map f = doubled quote (t.map f) := by
    induction t with
    | nil => rfl
    | cons c t ih =>
      rcases eq_or_ne c quote with rfl | hc
      · simp [doubled_cons_self, (hf c).2 rfl, ih]
      · simp [doubled_cons_of_ne hc, doubled_cons_of_ne (mt (hf c).1 hc), ih]
  constructor
  · intro h
    refine (exists_doubled quote s).resolve_right ?_
    rintro ⟨t, rest, rfl, hrest⟩
    -- A quote that stands alone would still stand alone after the replacement.
    have hlone : ((rest.map f).head? ≠ some quote) := by
      rw [List.head?_map]
      cases hd : rest.head? with
      | none => simp
      | some c => simpa [hf] using fun hc : c = quote => hrest (hc ▸ hd)
    rw [List.map_append, List.map_cons, hmap, (hf quote).2 rfl] at h
    rw [← readQuoted_eq_none_iff, readQuoted_eq_some_iff.2 ⟨rfl, hlone⟩] at h
    cases h
  · rintro ⟨t, rfl⟩
    exact ⟨t.map f, hmap t⟩

end Text

/-! ## §2 Lexemes -/

/-- A piece of a text with quotes. -/
inductive Lexeme where
  | identifier (name : List Char)
  | literal (content : List Char)
  /-- A character outside quotes. -/
  | mark (c : Char)
  deriving DecidableEq

/-- What a quote opens. -/
def Lexeme.ofQuote? : Char → Option (List Char → Lexeme)
  | '"' => some .identifier
  | '\'' => some .literal
  | _ => none

/-- A text as lexemes; none if a quote is left open. -/
def lexemes : List Char → Option (List Lexeme)
  | [] => some []
  | c :: s =>
    match Lexeme.ofQuote? c with
    | none => (lexemes s).map (.mark c :: ·)
    | some quoted =>
      match h : Text.readQuoted c s with
      | none => none
      | some (content, rest) =>
        have : rest.length < s.length := Text.length_lt_of_readQuoted h
        (lexemes rest).map (quoted content :: ·)
termination_by s => s.length

theorem lexemes_cons_mark {c : Char} (h : Lexeme.ofQuote? c = none) (s : List Char) :
    lexemes (c :: s) = (lexemes s).map (.mark c :: ·) := by
  rw [lexemes]
  simp only [h]

theorem lexemes_cons_quote {c : Char} {quoted : List Char → Lexeme}
    (h : Lexeme.ofQuote? c = some quoted) (s : List Char) :
    lexemes (c :: s) =
      (Text.readQuoted c s).bind fun read => (lexemes read.2).map (quoted read.1 :: ·) := by
  rw [lexemes]
  simp only [h]
  split
  · rename_i hread
    rw [hread, Option.bind_none]
  · rename_i hread
    rw [hread, Option.bind_some]

/-- A quoted name is read back as one identifier. -/
theorem lexemes_quoteIdentifier_append (name : List Char) {s : List Char}
    (hs : s.head? ≠ some '"') :
    lexemes (quoteIdentifier name ++ s) = (lexemes s).map (.identifier name :: ·) := by
  have htext : quoteIdentifier name ++ s = '"' :: (Text.doubled '"' name ++ '"' :: s) := by
    simp [quoteIdentifier, Text.doubled]
  rw [htext, lexemes_cons_quote rfl, Text.readQuoted_eq_some_iff.2 ⟨rfl, hs⟩]
  rfl

/-- Lexemes that begin with a mark are those of a text that begins with it. -/
theorem exists_cons_of_lexemes {s : List Char} {c : Char} {ls : List Lexeme}
    (h : lexemes s = some (.mark c :: ls)) : ∃ t, s = c :: t ∧ lexemes t = some ls := by
  cases s with
  | nil => simp [lexemes] at h
  | cons d s =>
    cases hd : Lexeme.ofQuote? d with
    | none =>
      rw [lexemes_cons_mark hd] at h
      obtain ⟨ls', hls, h⟩ := Option.map_eq_some_iff.1 h
      obtain ⟨⟨rfl⟩, rfl⟩ := List.cons.inj h
      exact ⟨s, rfl, hls⟩
    | some quoted =>
      -- A quote opens an identifier or a literal, which is no mark.
      rw [lexemes_cons_quote hd] at h
      obtain ⟨read, -, h⟩ := Option.bind_eq_some_iff.1 h
      obtain ⟨ls', -, h⟩ := Option.map_eq_some_iff.1 h
      have hmark := (List.cons.inj h).1
      unfold Lexeme.ofQuote? at hd
      split at hd <;> cases hd <;> cases hmark

theorem eq_nil_of_lexemes {s : List Char} (h : lexemes s = some []) : s = [] := by
  cases s with
  | nil => rfl
  | cons c s =>
    cases hc : Lexeme.ofQuote? c with
    | none => simp [lexemes_cons_mark hc] at h
    | some quoted =>
      rw [lexemes_cons_quote hc] at h
      obtain ⟨read, -, h⟩ := Option.bind_eq_some_iff.1 h
      simp at h

/-! ## §3 Forms -/

/-- What references are to be read as. -/
inductive ReferenceForm where
  | identifier (name : List Char)
  /-- Two identifiers joined by a dot. -/
  | qualified (table name : List Char)
  /-- An identifier and one literal with the path operator between them, in parentheses. -/
  | document (base content : List Char)

namespace ReferenceForm

def lexemes : ReferenceForm → List Lexeme
  | .identifier name => [.identifier name]
  | .qualified table name => [.identifier table, .mark '.', .identifier name]
  | .document base content =>
    [.mark '(', .identifier base, .mark ' ', .mark '#', .mark '>', .mark '>', .mark ' ',
      .literal content, .mark ')']

theorem lexemes_injective : Function.Injective lexemes := by
  intro f g h
  cases f <;> cases g <;> simp_all [lexemes]

end ReferenceForm

namespace Reference

theorem lexemes_column (name : List Char) :
    lexemes (column name).chars = some (ReferenceForm.identifier name).lexemes := by
  have h := lexemes_quoteIdentifier_append name (s := []) (by simp)
  rw [List.append_nil, lexemes] at h
  exact h

theorem lexemes_qualified (table name : List Char) :
    lexemes (qualified table name).chars = some (ReferenceForm.qualified table name).lexemes := by
  have hname : lexemes (quoteIdentifier name) = some [.identifier name] := lexemes_column name
  rw [chars, lexemes_quoteIdentifier_append table (by simp), lexemes_cons_mark rfl, hname]
  rfl

/-- The text behind the base of a document reference, from the opening quote on. -/
def path (keys : List (List Char)) : List Char :=
  '\'' :: '{' :: (Text.join [','] keys ++ ['}', '\'', ')'])

theorem lexemes_document (base : List Char) (keys : List (List Char)) :
    lexemes (document base keys).chars =
      (lexemes (path keys)).map ([.mark '(', .identifier base, .mark ' ', .mark '#', .mark '>',
        .mark '>', .mark ' '] ++ ·) := by
  have hchars : (document base keys).chars =
      '(' :: (quoteIdentifier base ++ ' ' :: '#' :: '>' :: '>' :: ' ' :: path keys) := by
    simp [chars, path]
  rw [hchars, lexemes_cons_mark rfl, lexemes_quoteIdentifier_append base (by simp),
    lexemes_cons_mark rfl, lexemes_cons_mark rfl, lexemes_cons_mark rfl, lexemes_cons_mark rfl,
    lexemes_cons_mark rfl]
  simp [Function.comp_def]

/-- Keys with doubled quotes are read as one literal. -/
theorem lexemes_path_of_doubled {keys : List (List Char)} {t : List Char}
    (h : Text.join [','] keys = Text.doubled '\'' t) :
    lexemes (path keys) = some [.literal ('{' :: t ++ ['}']), .mark ')'] := by
  have hread : Text.readQuoted '\'' ('{' :: (Text.doubled '\'' t ++ ['}', '\'', ')'])) =
      some ('{' :: t ++ ['}'], [')']) :=
    Text.readQuoted_eq_some_iff.2 ⟨by simp [Text.doubled], by simp⟩
  rw [path, h, lexemes_cons_quote rfl, hread, Option.bind_some, lexemes_cons_mark rfl, lexemes]
  rfl

/-- The literal ends at the first quote of the keys that is not doubled, and then it is not followed
    by the closing parenthesis alone. -/
theorem doubled_of_lexemes_path {keys : List (List Char)} {content : List Char}
    (h : lexemes (path keys) = some [.literal content, .mark ')']) :
    ∃ t, Text.join [','] keys = Text.doubled '\'' t := by
  refine (Text.exists_doubled '\'' _).resolve_right ?_
  rintro ⟨t, rest, hkeys, hrest⟩
  have hread : Text.readQuoted '\'' ('{' :: (Text.join [','] keys ++ ['}', '\'', ')'])) =
      some ('{' :: t, rest ++ ['}', '\'', ')']) := by
    rw [hkeys, Text.readQuoted_eq_some_iff]
    refine ⟨by simp [Text.doubled], ?_⟩
    cases rest <;> simp_all
  -- At least three characters are left behind the literal, and the form has one.
  rw [path, lexemes_cons_quote rfl, hread, Option.bind_some] at h
  obtain ⟨ls, hls, h⟩ := Option.map_eq_some_iff.1 h
  obtain ⟨-, rfl⟩ := List.cons.inj h
  obtain ⟨t', hcons, ht'⟩ := exists_cons_of_lexemes hls
  have hlength := congrArg List.length (eq_nil_of_lexemes ht' ▸ hcons)
  simp at hlength

/-- References are read as one of the forms, but for document references whose keys have a quote
    that is not doubled. -/
theorem exists_form_iff (ref : Reference) :
    (∃ form : ReferenceForm, lexemes ref.chars = some form.lexemes) ↔
      ∀ base keys, ref = document base keys → ∃ t, Text.join [','] keys = Text.doubled '\'' t := by
  cases ref with
  | column name => exact ⟨fun _ => nofun, fun _ => ⟨_, lexemes_column name⟩⟩
  | qualified table name => exact ⟨fun _ => nofun, fun _ => ⟨_, lexemes_qualified table name⟩⟩
  | document base keys =>
    constructor
    · rintro ⟨form, hform⟩ _ _ ⟨⟩
      rw [lexemes_document] at hform
      obtain ⟨ls, hls, hform⟩ := Option.map_eq_some_iff.1 hform
      -- The parenthesis in front leaves only one form.
      cases form with
      | identifier | qualified => simp [ReferenceForm.lexemes] at hform
      | document base' content =>
        simp only [ReferenceForm.lexemes, List.cons_append, List.nil_append, List.cons.injEq,
          true_and] at hform
        exact doubled_of_lexemes_path (hform.2 ▸ hls)
    · intro h
      obtain ⟨t, ht⟩ := h base keys rfl
      refine ⟨.document base ('{' :: t ++ ['}']), ?_⟩
      rw [lexemes_document, lexemes_path_of_doubled ht]
      rfl

end Reference

/-! ## §4 Paths -/

/-- Splitting at one separator and joining with another one replaces the separators. -/
theorem Text.join_split_eq_map (sep other : Char) (s : List Char) :
    join [other] (split sep s) = s.map fun c => if c = sep then other else c := by
  induction s with
  | nil => rfl
  | cons c s ih =>
    obtain ⟨part, parts, hparts⟩ := List.exists_cons_of_ne_nil (split_ne_nil sep s)
    rw [List.map_cons, ← ih, split, hparts]
    rcases eq_or_ne c sep with rfl | hc
    · rw [if_pos rfl, if_pos rfl]
      rfl
    · rw [if_neg hc, if_neg hc]
      cases parts <;> rfl

namespace Recorder

/-- A path leads into a document below what is in front of its first dot, if that is no declared
    relation. -/
theorem reference_eq_document_iff (r : Recorder) (path : String) (base : List Char)
    (keys : List (List Char)) :
    r.reference path = .document base keys ↔
      ∃ first rest, path = first ++ "." ++ rest ∧ '.' ∉ first.toList ∧
        r.isRelation first = false ∧ base = first.toList ∧ keys = Text.split '.' rest.toList := by
  have hdotted (first rest : String) (hfirst : '.' ∉ first.toList)
      (hrelation : r.isRelation first = false) : r.reference (first ++ "." ++ rest) =
        .document first.toList (Text.split '.' rest.toList) := by
    have hpath : (first ++ "." ++ rest).toList = first.toList ++ '.' :: rest.toList := by simp
    obtain ⟨key, keys, hkeys⟩ :=
      List.exists_cons_of_ne_nil (Text.split_ne_nil '.' rest.toList)
    rw [reference, hpath, Text.split_append_cons hfirst, hkeys]
    simp [hrelation]
  constructor
  · intro h
    have hdocument : (r.reference path).isDocument = true := by rw [h]; rfl
    obtain ⟨first, hsome, hrelation⟩ := (r.isDocument_reference_iff path).1 hdocument
    obtain ⟨rest, rfl, hfirst⟩ := Filter.relationOfPath?_eq_some_iff.1 hsome
    rw [hdotted first rest hfirst hrelation] at h
    obtain ⟨rfl, rfl⟩ := Reference.document.inj h
    exact ⟨first, rest, rfl, hfirst, hrelation, rfl, rfl⟩
  · rintro ⟨first, rest, rfl, hfirst, hrelation, rfl, rfl⟩
    exact hdotted first rest hfirst hrelation

/-- A reference is read as exactly one of the forms if and only if the path does not lead into a
    document or has all single quotes doubled behind its first dot. -/
theorem existsUnique_form_iff (r : Recorder) (path : String) :
    (∃! form : ReferenceForm, lexemes (r.reference path).text.toList = some form.lexemes) ↔
      ∀ first rest, path = first ++ "." ++ rest → '.' ∉ first.toList →
        r.isRelation first = false → ∃ t, rest.toList = Text.doubled '\'' t := by
  -- A reading is of one form at most, so that only existence is left to decide.
  have hunique : (∃! form : ReferenceForm,
      lexemes (r.reference path).text.toList = some form.lexemes) ↔
        ∃ form : ReferenceForm, lexemes (r.reference path).chars = some form.lexemes := by
    rw [Reference.text, String.toList_ofList]
    refine ⟨ExistsUnique.exists, fun ⟨form, hform⟩ => ⟨form, hform, fun other hother => ?_⟩⟩
    exact ReferenceForm.lexemes_injective (Option.some.inj (hother.symm.trans hform))
  -- The keys are the path behind the first dot, with commas for the other dots.
  have hkeys (rest : String) : (∃ t, Text.join [','] (Text.split '.' rest.toList) =
      Text.doubled '\'' t) ↔ ∃ t, rest.toList = Text.doubled '\'' t := by
    rw [Text.join_split_eq_map]
    refine Text.exists_eq_doubled_map_iff fun c => ?_
    split
    · simp_all
    · rfl
  rw [hunique, Reference.exists_form_iff]
  simp only [reference_eq_document_iff]
  constructor
  · intro h first rest hpath hfirst hrelation
    exact (hkeys rest).1 (h _ _ ⟨first, rest, hpath, hfirst, hrelation, rfl, rfl⟩)
  · rintro h _ _ ⟨first, rest, hpath, hfirst, hrelation, rfl, rfl⟩
    exact (hkeys rest).2 (h first rest hpath hfirst hrelation)

/-- A quote in a path can end the literal, and what is behind it is read as a condition. -/
theorem not_existsUnique_form_of_lone_quote :
    lexemes (reference {} "a.b\x7d' OR '1'='1").text.toList =
      some [.mark '(', .identifier ['a'], .mark ' ', .mark '#', .mark '>', .mark '>', .mark ' ',
        .literal ['{', 'b', '}'], .mark ' ', .mark 'O', .mark 'R', .mark ' ', .literal ['1'],
        .mark '=', .literal ['1', '}'], .mark ')'] ∧
    ¬ ∃! form : ReferenceForm,
      lexemes (reference {} "a.b\x7d' OR '1'='1").text.toList = some form.lexemes := by
  have hread : lexemes (reference {} "a.b\x7d' OR '1'='1").text.toList =
      some [.mark '(', .identifier ['a'], .mark ' ', .mark '#', .mark '>', .mark '>', .mark ' ',
        .literal ['{', 'b', '}'], .mark ' ', .mark 'O', .mark 'R', .mark ' ', .literal ['1'],
        .mark '=', .literal ['1', '}'], .mark ')'] := by cbv
  refine ⟨hread, ?_⟩
  rintro ⟨form, hform, -⟩
  cases form <;> simp [hread, ReferenceForm.lexemes] at hform

end Recorder

end ListQuery
