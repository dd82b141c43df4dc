import Rationale.Proofs.Trace

/-!
# Attribution of failures

A failing evaluation reports the first callback that fails.  An error that
the callback passes on is the report itself.  Anything else that it raises
is the cause of one failure, which names the statement and the role of the
owner.

What was raised may hold failures already, since an error of its own may
have another evaluation's error behind it.  `failures` lists them.  The
report keeps them and adds at most the failure of the owner.

`Error.foldr_ofRaised` says that further layers add nothing to an error,
and `Built.calls_tell` that a specification that can be built fails only
through its callbacks, and with the error of the first one that fails.
-/

namespace Rationale

/-! ## The failures in an error -/

/-- The failure that was raised, if a failure was raised by itself. -/
def Raised.failure? : Raised → Option Failure
  | .failure f => some f
  | .plain _ | .caused .. | .error _ => none

/-- The failures in what was raised: the one that it is and those behind
it, outermost first. -/
def Raised.failures (raised : Raised) : List Failure :=
  (raised :: raised.sources).filterMap failure?

/-- The failures in an error, outermost first. -/
def Error.failures (e : Error) : List Failure :=
  e.sources.filterMap Raised.failure?

namespace Error

/-- An error that is passed on holds the failures that it held. -/
theorem failures_raised (e : Error) : (Raised.error e).failures = e.failures :=
  rfl

/-- Behind a failed evaluation there are its failure, what the callback
raised, and what that rests on. -/
theorem sources_evaluation (failure : Failure) :
    (evaluation failure).sources =
      .failure failure :: failure.raised :: failure.raised.sources := by
  obtain ⟨statement, role, raised⟩ := failure
  rfl

/-- A failed evaluation holds its own failure and those in what the
callback raised. -/
theorem failures_evaluation (failure : Failure) :
    (evaluation failure).failures = failure :: failure.raised.failures := by
  rw [failures, sources_evaluation]
  rfl

/-- The code of a failure is that of the role. -/
theorem code_evaluation (failure : Failure) :
    (evaluation failure).detail.code = failure.role.failureCode := by
  obtain ⟨statement, role, raised⟩ := failure
  rfl

/-- What is not an error yet becomes the cause of a failure. -/
theorem ofRaised_of_ne {raised : Raised} (h : ∀ x, raised ≠ .error x)
    (statement : String) (role : Role) :
    ofRaised statement role raised = .evaluation ⟨statement, role, raised⟩ := by
  cases raised with
  | error x => exact absurd rfl (h x)
  | plain _ | caused _ _ | failure _ => rfl

/-- An error that passes through any number of further layers stays as it
is. -/
theorem foldr_ofRaised (layers : List (String × Role)) (e : Error) :
    layers.foldr (fun layer inner => ofRaised layer.1 layer.2 (.error inner))
      e = e := by
  induction layers with
  | nil => rfl
  | cons layer rest ih =>
    rw [List.foldr_cons, ih]
    rfl

end Error

/-! ## Reports -/

namespace Specification

variable {τ ν : Type} {M : Type} [Metadata τ] {s : Specification τ ν M}

/-- The trace of a specification that can be built tells how its evaluation
ends. -/
theorem Built.calls_tell (h : s.Built) (position place : Place) (m : M) :
    (∃ r, (s.evaluate place m).outcome = .ok r ∧
        ∀ call ∈ s.calls position place m, call.failure = none) ∨
      ∃ e, (s.evaluate place m).outcome = .error e ∧
        FailsWith (s.calls position place m) e := by
  have htells := tells_evaluate s position place m
  rw [Traced.Tells, notes_evaluate_marked,
    (refines_evaluate s position place m).1] at htells
  cases houtcome : (s.evaluate place m).outcome with
  | ok r => exact Or.inl ⟨r, rfl, htells.1 r houtcome⟩
  | error e =>
    rcases htells.2 e houtcome with hfails | ⟨hnot, -⟩
    · exact Or.inr ⟨e, rfl, hfails⟩
    · exact absurd h.wellFormed hnot

/-- A specification that can be built succeeds when no callback fails. -/
theorem Built.evaluate_eq_ok_iff_calls (h : s.Built) (position place : Place)
    (m : M) :
    (∃ r, (s.evaluate place m).outcome = .ok r) ↔
      ∀ call ∈ s.calls position place m, call.failure = none := by
  rcases h.calls_tell position place m with ⟨r, hr, hnone⟩ | ⟨e, he, hfails⟩
  · exact ⟨fun _ => hnone, fun _ => ⟨r, hr⟩⟩
  · obtain ⟨before, call, raised, hcalls, -, hcall, -⟩ := hfails
    constructor
    · rintro ⟨r, hr⟩
      rw [he] at hr
      cases hr
    · intro hnone
      have := hnone call (by simp [hcalls])
      rw [hcall] at this
      cases this

/-- If a callback fails, the evaluation ends there.  The report is what the
callback raised if that is an error already.  Otherwise it is a failure
under the statement and the role of the owner, with what was raised as its
cause.  Nothing around the owner changes it, so it holds the failures in
what was raised and at most that one more. -/
theorem evaluate_eq_error_of_call (hbuilt : s.Built) (position place : Place)
    (m : M)
    (hfails : ∃ call ∈ s.calls position place m, call.failure ≠ none) :
    ∃ before call raised e,
      s.calls position place m = before ++ [call] ∧
      (∀ c ∈ before, c.failure = none) ∧ call.failure = some raised ∧
      (s.evaluate place m).outcome = .error e ∧
      (∀ x, raised = .error x → e = x ∧ e.failures = raised.failures) ∧
      ((∀ x, raised ≠ .error x) →
        ∃ failure, e = .evaluation failure ∧
          failure.statement = call.callback.statement ∧
          failure.role = call.callback.role ∧ failure.raised = raised ∧
          e.detail.code = call.callback.role.failureCode ∧
          e.sources = .failure failure :: raised :: raised.sources ∧
          e.failures = failure :: raised.failures) ∧
      ∀ layers : List (String × Role),
        layers.foldr (fun layer inner =>
          Error.ofRaised layer.1 layer.2 (.error inner)) e = e := by
  obtain ⟨call', hmem, hcall'⟩ := hfails
  rcases hbuilt.calls_tell position place m with ⟨r, -, hnone⟩ | ⟨e, he, h⟩
  · exact absurd (hnone call' hmem) hcall'
  · obtain ⟨before, call, raised, hcalls, hbefore, hcall, herror⟩ := h
    refine ⟨before, call, raised, e, hcalls, hbefore, hcall, he, ?_, ?_,
      fun layers => Error.foldr_ofRaised layers e⟩
    · rintro x rfl
      have hpassed : e = x := herror.symm
      exact ⟨hpassed, hpassed ▸ (Error.failures_raised e).symm⟩
    · intro hraised
      rw [Error.ofRaised_of_ne hraised] at herror
      subst herror
      exact ⟨_, rfl, rfl, rfl, rfl, Error.code_evaluation _,
        Error.sources_evaluation _, Error.failures_evaluation _⟩

/-- A probe whose predicate always fails. -/
def reachable : Specification String Unit Nat :=
  .atomic ⟨.root 3, "reachable", {}⟩ (fun _ => .fail (.plain "no route")) none

/-- A probe that fails, under a negation and an alternative. -/
def brokenProbe : Specification String Unit Nat :=
  combine (.root 0) .orElse
    (.atomic ⟨.root 1, "zero", {}⟩ (fun n => pure (n == 0)) none)
    (negation (.root 2) reachable)

theorem built_brokenProbe : brokenProbe.Built :=
  .combine _ (by decide) (.atomic (by decide) _)
    (.negation _ (.atomic (by decide) _))

/-- The report names the predicate below the negation. -/
theorem evaluate_brokenProbe :
    brokenProbe.Built ∧
      (∃ call ∈ brokenProbe.calls (.root 4) (.root 5) 1,
        call.failure ≠ none) ∧
      ∃ e, (brokenProbe.evaluate (.root 5) 1).outcome = .error e ∧
        e = .evaluation ⟨"reachable", .predicate, "no route"⟩ := by
  have hfails : ∃ call ∈ brokenProbe.calls (.root 4) (.root 5) 1,
      call.failure ≠ none := by decide
  obtain ⟨before, call, raised, e, -, -, -, he, -⟩ :=
    evaluate_eq_error_of_call built_brokenProbe (.root 4) (.root 5) 1 hfails
  exact ⟨built_brokenProbe, hfails, e, he, Except.error.inj (he.symm.trans rfl)⟩

/-- Asks another probe and raises an error of its own if that one fails. -/
def relay (n : Nat) : Traced Unit Raised Bool := do
  let r ← (reachable.evaluate (.root 4) n).mapError fun e =>
    .caused "no answer" (.error e)
  return r.satisfied

/-- A probe that relays, behind one that may settle the outcome. -/
def relayedProbe : Specification String Unit Nat :=
  combine (.root 0) .orElse
    (.atomic ⟨.root 1, "zero", {}⟩ (fun n => pure (n == 0)) none)
    (.atomic ⟨.root 2, "relayed", {}⟩ relay none)

/-- A predicate that would fail changes nothing where it is not asked.  Where
it is asked, the report holds the failure that it relays besides its own. -/
theorem relayedProbe_unasked_and_nested :
    relayedProbe.Built ∧
      (∃ raised, (relay 0).outcome = .error raised) ∧
      (∃ r, (relayedProbe.evaluate (.root 5) 0).outcome = .ok r) ∧
      ∃ e, (relayedProbe.evaluate (.root 5) 1).outcome = .error e ∧
        e.failures =
          [⟨"relayed", .predicate, .caused "no answer" (.error (.evaluation
              ⟨"reachable", .predicate, "no route"⟩))⟩,
            ⟨"reachable", .predicate, "no route"⟩] :=
  ⟨.combine _ (by decide) (.atomic (by decide) _) (.atomic (by decide) _),
    ⟨_, rfl⟩, ⟨_, rfl⟩, _, rfl, rfl⟩

end Specification

end Rationale
