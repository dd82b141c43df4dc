import Rationale.Proofs.Evaluation
import Rationale.Proofs.Renaming

/-!
# Pure callbacks

A callback is pure if it does not depend on where results are made.  A
function that makes results may make them at the place that it is told and
may hand out results that it has known before; it is pure if telling it
another place only moves the new ones.  There are three groups.

* Purity.  `Specification.Pure` says it of all callbacks, for the places
  `known` of the results that they have known before.
* Mapped computations.  `Traced.Maps` says that a computation answers what
  another one does up to a function, and passes from parts to the whole.
* Moved evaluations.  `maps_evaluate` says that evaluating at another place
  only moves the result.
-/

namespace Rationale

/-! ## Purity -/

/-- Whether a renaming leaves some places alone. -/
def Place.Fixes (ρ : Equiv.Perm Place) (known : Set Place) : Prop :=
  ∀ p ∈ known, ρ p = p

section Purity

variable {τ ν : Type} {M : Type} (known : Set Place)

/-- Whether the values do not depend on where results were made. -/
def Factory.Pure : Factory τ ν M → Prop
  | .constant _ | .constants _ | .model _ | .modelMany _ => True
  | .result f => ∀ ρ, Place.Fixes ρ known → ∀ m r,
    (f m (Node.rename ρ r)).outcome = (f m r).outcome
  | .resultMany f => ∀ ρ, Place.Fixes ρ known → ∀ m r,
    (f m (Node.rename ρ r)).outcome = (f m r).outcome

/-- The snapshot with its results moved. -/
def Snapshot.rename {I : Type} (ρ : Place → Place) (s : Snapshot τ I) :
    Snapshot τ I :=
  { s with results := s.results.map (Node.rename ρ) }

/-- Whether the values do not depend on where results were made. -/
def SnapshotFactory.Pure {I : Type} : SnapshotFactory τ ν I → Prop
  | .constant _ | .constants _ => True
  | .snapshot f => ∀ ρ, Place.Fixes ρ known → ∀ s,
    (f (s.rename ρ)).outcome = (f s).outcome
  | .snapshotMany f => ∀ ρ, Place.Fixes ρ known → ∀ s,
    (f (s.rename ρ)).outcome = (f s).outcome

/-- Whether no callback depends on where results are made, known places
apart. -/
def Specification.Pure : {M : Type} → Specification τ ν M → Prop
  | _, .atomic _ _ branches => ∀ pair ∈ branches, ∀ satisfied,
    (pair.taken satisfied).Pure known
  | _, .wrapper _ inner branches =>
    inner.Pure ∧ ∀ pair ∈ branches, ∀ satisfied,
      (pair.taken satisfied).Pure known
  | _, .computed _ function branches =>
    (∀ ρ, Place.Fixes ρ known → ∀ p q, Place.Shifts ρ p q → ∀ m,
      (function q m).outcome =
        (function p m).outcome.map (Node.rename ρ)) ∧
      ∀ pair ∈ branches, ∀ satisfied, (pair.taken satisfied).Pure known
  | _, .composite _ _ _ operands => ∀ i, (operands i).Pure
  | _, .quantified _ _ item branches =>
    item.Pure ∧ ∀ pair ∈ branches, ∀ satisfied,
      (pair.taken satisfied).Pure known

end Purity

/-! ## Mapped computations -/

namespace Traced

variable {ν ε α β γ δ : Type}

/-- Whether the second computation answers what the first one does, up to
`f`. -/
def Maps (f : α → β) (x : Traced ν ε α) (y : Traced ν ε β) : Prop :=
  y.outcome = x.outcome.map f

theorem maps_pure {f : α → β} {a : α} {b : β} (h : f a = b) :
    Maps f (pure a : Traced ν ε α) (pure b) := by
  rw [← h]
  rfl

theorem maps_id {x y : Traced ν ε α} (h : y.outcome = x.outcome) :
    Maps id x y := by
  rw [Maps, h]
  cases x.outcome <;> rfl

/-- What is made of an answer depends on the outcome only. -/
theorem outcome_bind_pure {x y : Traced ν ε α} (h : y.outcome = x.outcome)
    (f : α → β) :
    (y >>= fun a => pure (f a)).outcome =
      (x >>= fun a => pure (f a)).outcome := by
  obtain ⟨notes, outcome⟩ := x
  obtain ⟨notes', outcome'⟩ := y
  obtain rfl : outcome' = outcome := h
  cases outcome' <;> rfl

theorem Maps.raisedBy {f : α → β} {x : Traced ν Raised α}
    {y : Traced ν Raised β} (h : Maps f x y) (statement : String)
    (role : Role) :
    Maps f (x.raisedBy statement role) (y.raisedBy statement role) := by
  show y.outcome.mapError _ = (x.outcome.mapError _).map f
  rw [h]
  cases x.outcome <;> rfl

/-- A sequence maps to a sequence part by part. -/
theorem Maps.bind {f : α → β} {g : γ → δ} {x : Traced ν ε α}
    {y : Traced ν ε β} {k : α → Traced ν ε γ} {l : β → Traced ν ε δ}
    (h : Maps f x y) (hrest : ∀ a, Maps g (k a) (l (f a))) :
    Maps g (x >>= k) (y >>= l) := by
  rw [Maps] at h
  cases hx : x.outcome with
  | error e =>
    rw [hx] at h
    rw [bind_of_error hx, bind_of_error h]
    rfl
  | ok a =>
    rw [hx] at h
    rw [bind_of_ok hx, bind_of_ok h]
    exact hrest a

/-- A run maps to a run member by member. -/
theorem Maps.runUntil {ι : Type} {f : α → β} {run : ι → Traced ν ε α}
    {run' : ι → Traced ν ε β} (h : ∀ i, Maps f (run i) (run' i))
    {stop : α → Bool} {stop' : β → Bool} (hstop : ∀ a, stop' (f a) = stop a)
    (xs : List ι) :
    Maps (List.map f) (Traced.runUntil stop run xs)
      (Traced.runUntil stop' run' xs) := by
  induction xs with
  | nil => exact maps_pure rfl
  | cons i rest ih =>
    rw [runUntil_cons, runUntil_cons]
    refine (h i).bind fun a => ?_
    rw [hstop]
    split
    · exact maps_pure rfl
    · exact ih.bind fun as => maps_pure rfl

end Traced

/-! ## Moved evaluations -/

namespace Specification

variable {τ ν : Type} {M : Type} {known : Set Place} {ρ : Equiv.Perm Place}

theorem outcome_resolve {factory : Factory τ ν M}
    (hpure : factory.Pure known) (hρ : Place.Fixes ρ known) (m : M)
    (underlying : Option (Result τ)) :
    (factory.resolve m (underlying.map (Node.rename ρ))).outcome =
      (factory.resolve m underlying).outcome := by
  cases factory with
  | constant value => rfl
  | constants values => rfl
  | model f => rfl
  | modelMany f => rfl
  | result f =>
    cases underlying with
    | none => rfl
    | some r => exact Traced.outcome_bind_pure (hpure ρ hρ m r) _
  | resultMany f =>
    cases underlying with
    | none => rfl
    | some r => exact hpure ρ hρ m r

theorem outcome_resolve_snapshot {I : Type} {factory : SnapshotFactory τ ν I}
    (hpure : factory.Pure known) (hρ : Place.Fixes ρ known)
    (s : Snapshot τ I) :
    (factory.resolve (s.rename ρ)).outcome = (factory.resolve s).outcome := by
  cases factory with
  | constant value => rfl
  | constants values => rfl
  | snapshot f => exact Traced.outcome_bind_pure (hpure ρ hρ s) _
  | snapshotMany f => exact hpure ρ hρ s

/-- Declarations agree if what their factories make does. -/
theorem maps_declareBy {φ : Type} {heading : Heading} {satisfied : Bool}
    {branches : Option φ} {making making' : φ → Traced ν Raised (List τ)}
    {make : List τ → Declaration τ} {bare : Declaration τ}
    (h : ∀ pair ∈ branches, (making' pair).outcome = (making pair).outcome) :
    Traced.Maps id (declareBy heading satisfied (branches.map making) make bare)
      (declareBy heading satisfied (branches.map making') make bare) := by
  cases branches with
  | none => exact Traced.maps_id rfl
  | some pair =>
    exact Traced.Maps.bind (f := id) ((Traced.maps_id (h pair rfl)).raisedBy ..)
      fun values => Traced.maps_id rfl

variable [Metadata τ]

theorem maps_declare {heading : Heading}
    {branches : Option (Branches (Factory τ ν M))}
    (hpure : ∀ pair ∈ branches, ∀ satisfied,
      (pair.taken satisfied).Pure known)
    (hρ : Place.Fixes ρ known) (m : M) (satisfied : Bool)
    (underlying : Option (Result τ)) :
    Traced.Maps id (declare heading branches m satisfied underlying)
      (declare heading branches m satisfied
        (underlying.map (Node.rename ρ))) := by
  have hvalues := fun pair hpair =>
    outcome_resolve (hpure pair hpair satisfied) hρ m underlying
  rw [declare_eq, declare_eq]
  cases underlying <;> exact maps_declareBy hvalues

theorem maps_declareSnapshot {I : Type} {heading : Heading}
    {branches : Option (Branches (SnapshotFactory τ ν I))}
    (hpure : ∀ pair ∈ branches, ∀ satisfied,
      (pair.taken satisfied).Pure known)
    (hρ : Place.Fixes ρ known) (satisfied : Bool) (s : Snapshot τ I) :
    Traced.Maps id (declareSnapshot heading branches satisfied s)
      (declareSnapshot heading branches satisfied (s.rename ρ)) := by
  rw [declareSnapshot_eq, declareSnapshot_eq]
  exact maps_declareBy fun pair hpair =>
    outcome_resolve_snapshot (hpure pair hpair satisfied) hρ s

theorem maps_wrap {heading : Heading}
    {branches : Option (Branches (Factory τ ν M))}
    (hpure : ∀ pair ∈ branches, ∀ satisfied,
      (pair.taken satisfied).Pure known)
    (hρ : Place.Fixes ρ known) {p q : Place} (hpq : ρ p = q) (m : M)
    (inner : Result τ) :
    Traced.Maps (Node.rename ρ) (wrap heading branches p m inner)
      (wrap heading branches q m (Node.rename ρ inner)) := by
  rw [wrap_eq, wrap_eq, Result.satisfied_rename]
  refine (maps_declare hpure hρ m _ (some inner)).bind fun declaration => ?_
  refine Traced.maps_pure ?_
  rw [wrapped, wrapped, Node.rename_mk, hpq, Result.satisfied_rename]
  rfl

/-- An evaluation at another place answers the moved result. -/
theorem maps_evaluate {s : Specification τ ν M} (hpure : s.Pure known)
    (hρ : Place.Fixes ρ known) {p q : Place} (hpq : Place.Shifts ρ p q)
    (m : M) :
    Traced.Maps (Node.rename ρ) (s.evaluate p m) (s.evaluate q m) := by
  induction s generalizing p q with
  | atomic heading predicate branches =>
    refine Traced.Maps.bind (f := id) ((Traced.maps_id rfl).raisedBy ..)
      fun satisfied => ?_
    refine (maps_declare hpure hρ m satisfied none).bind fun declaration => ?_
    refine Traced.maps_pure ?_
    rw [Result.atomic, Result.atomic, Node.rename_mk, hpq.eq]
    rfl
  | wrapper heading inner branches ih =>
    exact (ih hpure.1 hpq m).bind fun result => maps_wrap hpure.2 hρ hpq.eq m _
  | computed heading function branches =>
    refine Traced.Maps.bind (f := Node.rename ρ)
      (Traced.Maps.raisedBy (hpure.1 ρ hρ p q hpq m) ..) fun result => ?_
    exact maps_wrap hpure.2 hρ hpq.eq m _
  | composite heading op count operands ih =>
    refine (Traced.Maps.runUntil (fun i => ih i (hpure i) (hpq.child i) m)
      (fun r => ?_) _).bind fun results => ?_
    · rw [Result.satisfied_rename]
    · rw [← hpq.eq]
      exact Result.fromOperator_rename ..
  | quantified heading quantifier item branches ih =>
    rw [evaluate_quantified, evaluate_quantified]
    refine (Traced.Maps.runUntil (fun entry : _ × Nat =>
      ih hpure.1 (hpq.child entry.2) entry.1) (fun _ => rfl) _).bind
        fun results => ?_
    rw [Result.map_satisfied_rename]
    refine (maps_declareSnapshot hpure.2 hρ _ _).bind fun declaration => ?_
    refine Traced.maps_pure ?_
    simp only [judged, id, Result.map_satisfied_rename, ← hpq.eq,
      Result.ofPositions_rename]

end Specification

end Rationale
