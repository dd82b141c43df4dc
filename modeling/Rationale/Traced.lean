/-!
# Traced computations

A traced computation leaves notes and then succeeds or fails.  A callback
is one, so what a callback does besides answering can be read off the
notes.  One computation after another leaves the notes of both, in order,
and after a failure nothing more is run.  Traced computations form a
lawful monad.
-/

namespace Rationale

/-- A computation that leaves notes and succeeds or fails. -/
structure Traced (ν ε α : Type) where
  /-- What the computation left behind, oldest first. -/
  notes : List ν
  /-- The answer, or the failure. -/
  outcome : Except ε α

namespace Traced

variable {ν ε α β : Type}

/-- Answers at once. -/
def answer (a : α) : Traced ν ε α := ⟨[], .ok a⟩

/-- Fails at once. -/
def fail (e : ε) : Traced ν ε α := ⟨[], .error e⟩

/-- Leaves one note. -/
def note (n : ν) : Traced ν ε Unit := ⟨[n], .ok ()⟩

/-- Takes over an outcome. -/
def ofExcept (x : Except ε α) : Traced ν ε α := ⟨[], x⟩

/-- Runs one computation after another, unless the first one fails. -/
def andThen (x : Traced ν ε α) (f : α → Traced ν ε β) : Traced ν ε β :=
  match x.outcome with
  | .ok a => ⟨x.notes ++ (f a).notes, (f a).outcome⟩
  | .error e => ⟨x.notes, .error e⟩

/-- Answering at once and going on is going on. -/
@[simp]
theorem answer_andThen (a : α) (f : α → Traced ν ε β) :
    (answer a).andThen f = f a := by
  simp [andThen, answer]

/-- Going on with an answer changes nothing. -/
@[simp]
theorem andThen_answer (x : Traced ν ε α) : x.andThen answer = x := by
  obtain ⟨notes, outcome⟩ := x
  cases outcome <;> simp [andThen, answer]

/-- After a failure nothing is run. -/
@[simp]
theorem fail_andThen (e : ε) (f : α → Traced ν ε β) :
    (fail e).andThen f = fail e := rfl

/-- Computations may be bracketed either way. -/
theorem andThen_assoc {γ : Type} (x : Traced ν ε α) (f : α → Traced ν ε β)
    (g : β → Traced ν ε γ) :
    (x.andThen f).andThen g = x.andThen fun a => (f a).andThen g := by
  obtain ⟨notes, outcome⟩ := x
  cases outcome with
  | error e => rfl
  | ok a =>
    simp only [andThen]
    cases (f a).outcome <;> simp

instance : Monad (Traced ν ε) where
  pure := answer
  bind := andThen

instance : LawfulMonad (Traced ν ε) :=
  LawfulMonad.mk' (Traced ν ε) andThen_answer answer_andThen andThen_assoc

/-- Changes the failure. -/
def mapError {ε' : Type} (f : ε → ε') (x : Traced ν ε α) : Traced ν ε' α :=
  ⟨x.notes, x.outcome.mapError f⟩

/-- Runs a computation for each member of a list in order, up to and
including the first one whose answer satisfies `stop`. -/
def runUntil {ι : Type} (stop : β → Bool) (run : ι → Traced ν ε β) :
    List ι → Traced ν ε (List β)
  | [] => answer []
  | i :: rest =>
    (run i).andThen fun b =>
      if stop b then answer [b]
      else (runUntil stop run rest).andThen fun bs => answer (b :: bs)

/-- Runs a computation for each member of a list, in order. -/
def runAll {ι : Type} (run : ι → Traced ν ε β) : List ι → Traced ν ε (List β) :=
  runUntil (fun _ => false) run

end Traced

end Rationale
