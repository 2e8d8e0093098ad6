import ListQuery.Condition.Operators
import ListQuery.Proofs.Filter.Visits
import ListQuery.Sample

/-!
# What is met while a filter is applied

Applying a filter goes through the tree with a builder in hand, and a walk goes through it without
one. To compare them, operations are *watched*: a watched operation does what it did before, and of
every field that is to be applied a note is taken first. Whatever the operations and their effects
are, applying a filter with watched ones has the effects and the result it has without the watching,
and the notes are those of the walk, in its order (`Filter.notes_apply`).

## Main definitions

- `BuilderOps.watched`: the operations with notes taken of fields;
- `BuilderOps.Notes`: what a run with notes does.
-/

namespace ListQuery

variable {m : Type → Type} {β σ : Type} [Monad m]

namespace BuilderOps

/-! ## §1 Taking notes -/

attribute [ext] BuilderOps

/-- The operations with a note of every field taken before the field is applied. -/
def watched (note : σ → String × Constraints → σ) (ops : BuilderOps m β) :
    BuilderOps (StateT σ m) β where
  field b path c := do
    modify fun notes => note notes (path, c)
    ops.field b path c
  and b sub := ops.and b sub
  or b sub := ops.or b sub
  not b sub := ops.not b sub
  isolate b := ops.isolate b

/-- The operations that write the fields to be applied into a list. -/
def logged (ops : BuilderOps m β) : BuilderOps (StateT (List (String × Constraints)) m) β :=
  ops.watched fun log e => log ++ [e]

/-- The run with notes does what `plain` does, and notes are taken of the entries in their order. -/
def Notes (note : σ → String × Constraints → σ) (run : StateT σ m β) (plain : m β)
    (entries : List (String × Constraints)) : Prop :=
  ∀ notes, run.run notes = (fun b => (b, entries.foldl note notes)) <$> plain

variable [LawfulMonad m] {note : σ → String × Constraints → σ}

theorem notes_pure (b : β) : Notes note (pure b : StateT σ m β) (pure b) [] := by
  intro notes
  simp

theorem notes_lift (plain : m β) : Notes note (plain : StateT σ m β) plain [] := by
  intro notes
  simp

theorem notes_field (ops : BuilderOps m β) (b : β) (path : String) (c : Constraints) :
    Notes note ((ops.watched note).field b path c) (ops.field b path c) [(path, c)] := by
  intro notes
  simp [watched]

theorem Notes.bind {run : StateT σ m β} {plain : m β} {next : β → StateT σ m β}
    {plainNext : β → m β} {entries rest : List (String × Constraints)}
    (h : Notes note run plain entries) (hnext : ∀ b, Notes note (next b) (plainNext b) rest) :
    Notes note (run >>= next) (plain >>= plainNext) (entries ++ rest) := by
  intro notes
  rw [StateT.run_bind, h, bind_map_left, map_bind]
  congr 1
  funext b
  rw [hnext b, List.foldl_append]

end BuilderOps

namespace Filter

open BuilderOps (Notes notes_pure notes_lift notes_field)

variable [LawfulMonad m] {note : σ → String × Constraints → σ} {ops : BuilderOps m β}

/-! ## §2 Applying with notes -/

theorem notes_applyFields (b : β) (entries : List (String × Constraints)) :
    Notes note (applyFields (ops.watched note) b entries) (applyFields ops b entries) entries := by
  induction entries generalizing b with
  | nil => exact notes_pure b
  | cons e rest ih => exact (notes_field ops b e.1 e.2).bind ih

/-- A part is applied to a builder of its own, which is then combined with the node's. -/
theorem notes_part {f : Filter} (combine : β → β → m β)
    (h : ∀ b, Notes note (f.apply (ops.watched note) b) (f.apply ops b) f.walk) (b : β) :
    Notes note
      (do combine b (← f.apply (ops.watched note) (← (ops.watched note).isolate b)))
      (do combine b (← f.apply ops (← ops.isolate b))) f.walk := by
  -- No note is taken where the part's builder is made and where it is combined.
  have hcombine (own : β) := (h own).bind fun sub => notes_lift (combine b sub)
  rw [List.append_nil] at hcombine
  exact (notes_lift (ops.isolate b)).bind hcombine

theorem notes_applyAll {fs : List Filter} (combine : β → β → m β)
    (h : ∀ f ∈ fs, ∀ b, Notes note (f.apply (ops.watched note) b) (f.apply ops b) f.walk) (b : β) :
    Notes note (applyAll (ops.watched note) (fun b sub => (combine b sub : StateT σ m β)) b fs)
      (applyAll ops combine b fs) (walkAll fs) := by
  induction fs generalizing b with
  | nil =>
    rw [applyAll, applyAll]
    exact notes_pure b
  | cons f rest ih =>
    have hrest := ih fun g hg => h g (List.mem_cons_of_mem f hg)
    have hboth := (notes_part combine (h f List.mem_cons_self) b).bind hrest
    rw [applyAll, applyAll, walkAll]
    simpa only [bind_assoc] using hboth

theorem notes_applyOption {o : Option Filter}
    (h : ∀ f ∈ o, ∀ b, Notes note (f.apply (ops.watched note) b) (f.apply ops b) f.walk) (b : β) :
    Notes note (applyOption (ops.watched note) b o) (applyOption ops b o) (walkOption o) := by
  cases o with
  | none =>
    rw [applyOption, applyOption]
    exact notes_pure b
  | some f =>
    rw [applyOption, applyOption]
    exact notes_part ops.not (h f rfl) b

/-- Applying a filter takes notes of its walk. -/
theorem notes_apply (f : Filter) (b : β) :
    Notes note (f.apply (ops.watched note) b) (f.apply ops b) f.walk := by
  induction f using Filter.induction generalizing b with
  | node f ih =>
    obtain ⟨and, or, not, fields⟩ := f
    have hand := notes_applyAll ops.and fun g hg => ih g (mem_parts.2 (Or.inl hg))
    have hor := notes_applyAll ops.or fun g hg => ih g (mem_parts.2 (Or.inr (Or.inl hg)))
    have hnot := notes_applyOption fun g hg => ih g (mem_parts.2 (Or.inr (Or.inr hg)))
    -- The fields are followed by one stretch of notes for each of the three combinators.
    rw [apply, apply, walk, List.append_assoc, List.append_assoc]
    exact (notes_applyFields b fields.entries).bind fun b =>
      (hand b).bind fun b => (hor b).bind hnot

/-! ## §3 The fields that are applied -/

/-- The fields handed to the operations are those of the walk, in its order, whatever the operations
    do: each field of each node once. The relations of the filter are therefore the texts in front
    of the first dot of the paths handed over, in increasing order and without repetition. -/
theorem apply_follows_walk (ops : BuilderOps m β) (b : β) (f : Filter) :
    ((f.apply ops.logged b).run [] = (fun applied => (applied, f.walk)) <$> f.apply ops b ∧
      f.visits.map Prod.snd = f.walk ∧
      (∀ address e, (address, e) ∈ f.visits ↔
        ∃ g, f.node? address = some g ∧ e ∈ g.fields.entries) ∧
      (f.visits.map fun visit => (visit.1, visit.2.1)).Nodup) ∧
    f.relations.Pairwise (· < ·) ∧
      ∀ name, name ∈ f.relations ↔
        ∃ e ∈ f.walk, ∃ rest, e.1 = name ++ "." ++ rest ∧ '.' ∉ name.toList := by
  have hlog (entries log : List (String × Constraints)) :
      entries.foldl (fun log e => log ++ [e]) log = log ++ entries := by
    simp [List.foldl_append_eq_append, ← List.flatMap_def]
  have hrun : (f.apply ops.logged b).run [] = _ := notes_apply f b []
  rw [hlog, List.nil_append] at hrun
  exact ⟨⟨hrun, map_snd_visits f, fun _ _ => mem_visits, nodup_visits f⟩, pairwise_relations f,
    fun _ => mem_relations⟩

theorem apply_follows_walk_mixedFilter :
    ((Sample.mixedFilter.apply Recorder.ops.logged Sample.usersRecorder).run []).run.2.map Prod.fst =
        ["age", "status", "role", "author.name", "meta.flags.banned"] ∧
      "meta" ∈ Sample.mixedFilter.relations := by
  obtain ⟨⟨hrun, -⟩, -, hrelations⟩ :=
    apply_follows_walk Recorder.ops Sample.usersRecorder Sample.mixedFilter
  constructor
  · rw [hrun]
    decide
  · rw [hrelations]
    exact ⟨("meta.flags.banned", .equalTo (.bool true)), by decide, "flags.banned", by decide⟩

end Filter

end ListQuery
