import ListQuery.Relation.Problem

/-!
# Readings with a trail

A reading ends with a result or with an error, and leaves a trail: what it found on its way, in the
order of the text. The trail is kept when the reading fails.

`Policy.meet` is the one place where the two modes differ.
-/

namespace ListQuery.Relation

/-- A reading of an `α` that leaves a trail of `ω`s. -/
structure Trail (ω α : Type) where
  log : List ω
  result : Except ParseError α

namespace Trail

variable {ω ω' α β γ : Type}

/-! ## §1 Sequencing -/

/-- The reading that finds `a` and leaves nothing. -/
def pure (a : α) : Trail ω α :=
  ⟨[], .ok a⟩

/-- One reading after another; an error ends it. -/
def bind (t : Trail ω α) (next : α → Trail ω β) : Trail ω β :=
  match t.result with
  | .ok a => ⟨t.log ++ (next a).log, (next a).result⟩
  | .error e => ⟨t.log, .error e⟩

instance : Monad (Trail ω) where
  pure := Trail.pure
  bind := Trail.bind

theorem pure_eq (a : α) : (Pure.pure a : Trail ω α) = ⟨[], .ok a⟩ := rfl

theorem bind_ok (log : List ω) (a : α) (next : α → Trail ω β) :
    (⟨log, .ok a⟩ : Trail ω α) >>= next = ⟨log ++ (next a).log, (next a).result⟩ := rfl

theorem bind_error (log : List ω) (e : ParseError) (next : α → Trail ω β) :
    (⟨log, .error e⟩ : Trail ω α) >>= next = ⟨log, .error e⟩ := rfl

/-- A reading after another one has a result if both have one. -/
theorem result_bind_eq_ok_iff {t : Trail ω α} {next : α → Trail ω β} {b : β} :
    (t >>= next).result = .ok b ↔ ∃ a, t.result = .ok a ∧ (next a).result = .ok b := by
  obtain ⟨log, result⟩ := t
  cases result with
  | error e => simp [bind_error]
  | ok a => simp [bind_ok]

theorem bind_assoc (t : Trail ω α) (f : α → Trail ω β) (g : β → Trail ω γ) :
    t >>= f >>= g = t >>= fun a => f a >>= g := by
  obtain ⟨log, result⟩ := t
  cases result with
  | error e => rfl
  | ok a =>
    rw [bind_ok, bind_ok]
    cases h : (f a).result with
    | error e => simp [Bind.bind, Trail.bind, h]
    | ok b => simp [Bind.bind, Trail.bind, h]

instance : LawfulMonad (Trail ω) :=
  LawfulMonad.mk' (Trail ω)
    (by
      rintro α ⟨log, result⟩
      cases result <;> simp [Functor.map, Trail.bind, Trail.pure])
    (fun a next => by simp [pure_eq, bind_ok])
    bind_assoc

/-! ## §2 Readings -/

def fail (e : ParseError) : Trail ω α :=
  ⟨[], .error e⟩

def leave (entry : ω) : Trail ω Unit :=
  ⟨[entry], .ok ()⟩

/-- The reading with a trail of another kind. -/
def mapLog (f : ω → ω') (t : Trail ω α) : Trail ω' α :=
  ⟨t.log.map f, t.result⟩

/-- Read the items of a list one after another, and gather what is found. -/
def gather (f : α → Trail ω (Option β)) : List α → Trail ω (List β)
  | [] => pure []
  | a :: as => do
    let found ← f a
    let rest ← gather f as
    return found.toList ++ rest

/-- Read the items of a list one after another. -/
def forEach (f : α → Trail ω Unit) : List α → Trail ω Unit
  | [] => pure ()
  | a :: as => do
    f a
    forEach f as

end Trail

/-! ## §3 Problems -/

/-- Meet a problem: a strict reading ends with it, and a lenient one leaves a notice of what it does
    about it. -/
def Policy.meet (policy : Policy) (problem : Problem) (offset : Nat)
    (effect : Effect := .tolerated) : Trail Notice Unit :=
  match policy.mode with
  | .strict => .fail ⟨problem, offset⟩
  | .lenient => .leave ⟨⟨problem, offset⟩, effect⟩

end ListQuery.Relation
