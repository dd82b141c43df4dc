import Rationale.Proofs.Built
import Rationale.Proofs.Evaluation

/-!
# Calls of callbacks

Which callbacks an evaluation invokes is made visible by marking: a marked
callback answers as before and leaves one note, its `Call`, which names
the callback and holds what it left and raised.  There are three groups.

* Marking.  `Traced.marked` marks a computation, and `Specification.marked`
  marks every callback of a specification by its position and its role.
* Marks are faithful.  `Traced.Refines` says that a marked computation
  answers the same and that its calls hold the notes of the original.
* Calls tell of failures.  `Traced.Tells` says that a computation fails
  right after the first call that fails, with the error of its owner.

The last two pass from the parts of a computation to the whole, by one
lemma for a sequence and one for a run over a list.
-/

namespace Rationale

/-! ## Marking -/

/-- A callback of a specification. -/
structure Callback where
  /-- Where in the specification its owner stands. -/
  position : Place
  /-- The statement of its owner. -/
  statement : String
  /-- The part that it plays there. -/
  role : Role
deriving DecidableEq

/-- One invocation of a callback. -/
structure Call (ν : Type) where
  /-- The callback that is invoked. -/
  callback : Callback
  /-- What the callback left behind. -/
  notes : List ν
  /-- What the callback raised, if it failed. -/
  failure : Option Raised
deriving DecidableEq

/-- The invocation of a callback that does a computation. -/
def Traced.call {ν α : Type} (x : Traced ν Raised α) (callback : Callback) :
    Call ν :=
  match x.outcome with
  | .ok _ => ⟨callback, x.notes, none⟩
  | .error raised => ⟨callback, x.notes, some raised⟩

@[simp]
theorem Traced.call_callback {ν α : Type} (x : Traced ν Raised α)
    (callback : Callback) : (x.call callback).callback = callback := by
  rw [call]
  split <;> rfl

/-- The computation of a callback, with its invocation as the only note. -/
def Traced.marked {ν α : Type} (x : Traced ν Raised α) (callback : Callback) :
    Traced (Call ν) Raised α :=
  ⟨[x.call callback], x.outcome⟩

/-- Marks the callback of a factory. -/
def Factory.marked {τ ν M : Type} (callback : Callback) :
    Factory τ ν M → Factory τ (Call ν) M
  | .constant value => .constant value
  | .constants values => .constants values
  | .model f => .model fun m => (f m).marked callback
  | .modelMany f => .modelMany fun m => (f m).marked callback
  | .result f => .result fun m r => (f m r).marked callback
  | .resultMany f => .resultMany fun m r => (f m r).marked callback

/-- Marks the callback of a factory. -/
def SnapshotFactory.marked {τ ν I : Type} (callback : Callback) :
    SnapshotFactory τ ν I → SnapshotFactory τ (Call ν) I
  | .constant value => .constant value
  | .constants values => .constants values
  | .snapshot f => .snapshot fun s => (f s).marked callback
  | .snapshotMany f => .snapshotMany fun s => (f s).marked callback

/-- Marks are kept where a snapshot is taken for the model. -/
theorem SnapshotFactory.marked_toFactory {τ ν I : Type} (callback : Callback)
    (factory : SnapshotFactory τ ν I) :
    (factory.marked callback).toFactory =
      factory.toFactory.marked callback := by
  cases factory <;> rfl

/-- Changes both branches, each by its role. -/
def Branches.mapRole {φ ψ : Type} (f : Role → φ → ψ) (pair : Branches φ) :
    Branches ψ :=
  ⟨f .whenTrue pair.whenTrue, f .whenFalse pair.whenFalse⟩

@[simp]
theorem Branches.taken_mapRole {φ ψ : Type} (f : Role → φ → ψ)
    (pair : Branches φ) (satisfied : Bool) :
    (pair.mapRole f).taken satisfied =
      f (Role.ofOutcome satisfied) (pair.taken satisfied) := by
  cases satisfied <;> rfl

/-- The factories of the owner at a position, marked. -/
def markedBranches {τ ν M : Type} (position : Place) (heading : Heading)
    (branches : Option (Branches (Factory τ ν M))) :
    Option (Branches (Factory τ (Call ν) M)) :=
  branches.map <| Branches.mapRole fun role =>
    Factory.marked ⟨position, heading.statement, role⟩

/-- The factories of the quantifier at a position, marked. -/
def markedSnapshotBranches {τ ν I : Type} (position : Place)
    (heading : Heading) (branches : Option (Branches (SnapshotFactory τ ν I))) :
    Option (Branches (SnapshotFactory τ (Call ν) I)) :=
  branches.map <| Branches.mapRole fun role =>
    SnapshotFactory.marked ⟨position, heading.statement, role⟩

/-- Marks every callback of a specification that stands at a position. -/
def Specification.marked {τ ν : Type} : {M : Type} → Specification τ ν M →
    Place → Specification τ (Call ν) M
  | _, .atomic heading predicate branches, position =>
    .atomic heading
      (fun m =>
        (predicate m).marked ⟨position, heading.statement, .predicate⟩)
      (markedBranches position heading branches)
  | _, .wrapper heading inner branches, position =>
    .wrapper heading (inner.marked (position.child 0))
      (markedBranches position heading branches)
  | _, .computed heading function branches, position =>
    .computed heading
      (fun place m =>
        (function place m).marked ⟨position, heading.statement, .predicate⟩)
      (markedBranches position heading branches)
  | _, .composite heading op count operands, position =>
    .composite heading op count fun i =>
      (operands i).marked (position.child i)
  | _, .quantified heading quantifier item branches, position =>
    .quantified heading quantifier (item.marked (position.child 0))
      (markedSnapshotBranches position heading branches)

/-! ## Marks are faithful -/

namespace Traced

variable {ν ε α β : Type}

/-- The first computation leaves calls that hold the notes of the second
one, and both answer the same. -/
def Refines (x : Traced (Call ν) ε α) (y : Traced ν ε α) : Prop :=
  x.outcome = y.outcome ∧ y.notes = x.notes.flatMap Call.notes

theorem refines_pure (a : α) :
    (pure a : Traced (Call ν) ε α).Refines (pure a) := ⟨rfl, rfl⟩

theorem refines_ofExcept (x : Except ε α) :
    (ofExcept x : Traced (Call ν) ε α).Refines (ofExcept x) := ⟨rfl, rfl⟩

theorem refines_marked (x : Traced ν Raised α) (callback : Callback) :
    (x.marked callback).Refines x := by
  refine ⟨rfl, ?_⟩
  rw [marked, call]
  cases x.outcome <;> simp

theorem Refines.raisedBy {x : Traced (Call ν) Raised α}
    {y : Traced ν Raised α} (h : x.Refines y) (statement : String)
    (role : Role) :
    (x.raisedBy statement role).Refines (y.raisedBy statement role) :=
  ⟨congrArg (Except.mapError _) h.1, h.2⟩

/-- A sequence refines a sequence part by part. -/
theorem Refines.bind {x : Traced (Call ν) ε α} {y : Traced ν ε α}
    {f : α → Traced (Call ν) ε β} {g : α → Traced ν ε β} (h : x.Refines y)
    (hrest : ∀ a, (f a).Refines (g a)) : (x >>= f).Refines (y >>= g) := by
  obtain ⟨houtcome, hnotes⟩ := h
  cases hy : y.outcome with
  | error e =>
    rw [bind_of_error hy, bind_of_error (houtcome.trans hy)]
    exact ⟨rfl, hnotes⟩
  | ok a =>
    rw [bind_of_ok hy, bind_of_ok (houtcome.trans hy)]
    refine ⟨(hrest a).1, ?_⟩
    show y.notes ++ (g a).notes = _
    rw [hnotes, (hrest a).2, List.flatMap_append]

/-- A run refines a run member by member. -/
theorem Refines.runUntil {ι : Type} {run : ι → Traced (Call ν) ε β}
    {run' : ι → Traced ν ε β} (h : ∀ i, (run i).Refines (run' i))
    (stop : β → Bool) (xs : List ι) :
    (runUntil stop run xs).Refines (Traced.runUntil stop run' xs) := by
  induction xs with
  | nil => exact refines_pure []
  | cons i rest ih =>
    rw [runUntil_cons, runUntil_cons]
    refine (h i).bind fun b => ?_
    split
    · exact refines_pure [b]
    · exact ih.bind fun bs => refines_pure (b :: bs)

end Traced

namespace Specification

variable {τ ν : Type} {M : Type}

theorem refines_resolve (factory : Factory τ ν M) (callback : Callback)
    (m : M) (underlying : Option (Result τ)) :
    ((factory.marked callback).resolve m underlying).Refines
      (factory.resolve m underlying) := by
  have hlift {x : Traced ν Raised τ} :
      (do return [← x.marked callback] :
        Traced (Call ν) Raised (List τ)).Refines (do return [← x]) :=
    (x.refines_marked callback).bind fun a => Traced.refines_pure [a]
  cases factory with
  | constant value => exact Traced.refines_pure [value]
  | constants values => exact Traced.refines_pure values
  | model f => exact hlift
  | modelMany f => exact (f m).refines_marked callback
  | result f =>
    cases underlying with
    | none => exact ⟨rfl, rfl⟩
    | some r => exact hlift
  | resultMany f =>
    cases underlying with
    | none => exact ⟨rfl, rfl⟩
    | some r => exact (f m r).refines_marked callback

theorem refines_resolve_snapshot {I : Type} (factory : SnapshotFactory τ ν I)
    (callback : Callback) (s : Snapshot τ I) :
    ((factory.marked callback).resolve s).Refines (factory.resolve s) := by
  rw [← SnapshotFactory.resolve_toFactory, ← SnapshotFactory.resolve_toFactory,
    SnapshotFactory.marked_toFactory]
  exact refines_resolve ..

/-- Declarations refine each other if the factories do. -/
theorem refines_declareBy {φ : Type} {heading : Heading} {satisfied : Bool}
    {branches : Option φ} {making : φ → Traced (Call ν) Raised (List τ)}
    {making' : φ → Traced ν Raised (List τ)} {make : List τ → Declaration τ}
    {bare : Declaration τ} (h : ∀ pair, (making pair).Refines (making' pair)) :
    (declareBy heading satisfied (branches.map making) make bare).Refines
      (declareBy heading satisfied (branches.map making') make bare) := by
  cases branches with
  | none => exact Traced.refines_pure bare
  | some pair =>
    exact ((h pair).raisedBy ..).bind fun values => Traced.refines_pure _

variable [Metadata τ]

theorem refines_declare (position : Place) (heading : Heading)
    (branches : Option (Branches (Factory τ ν M))) (m : M) (satisfied : Bool)
    (underlying : Option (Result τ)) :
    (declare heading (markedBranches position heading branches) m satisfied
      underlying).Refines
      (declare heading branches m satisfied underlying) := by
  simp only [declare_eq, markedBranches, Option.map_map, Function.comp_def,
    Branches.taken_mapRole]
  exact refines_declareBy fun pair => refines_resolve ..

theorem refines_declareSnapshot {I : Type} (position : Place)
    (heading : Heading) (branches : Option (Branches (SnapshotFactory τ ν I)))
    (satisfied : Bool) (snapshot : Snapshot τ I) :
    (declareSnapshot heading
      (markedSnapshotBranches position heading branches) satisfied
      snapshot).Refines
        (declareSnapshot heading branches satisfied snapshot) := by
  simp only [declareSnapshot_eq, markedSnapshotBranches, Option.map_map,
    Function.comp_def, Branches.taken_mapRole]
  exact refines_declareBy fun pair => refines_resolve_snapshot ..

theorem refines_wrap (position : Place) (heading : Heading)
    (branches : Option (Branches (Factory τ ν M))) (place : Place) (m : M)
    (inner : Result τ) :
    (wrap heading (markedBranches position heading branches) place m
      inner).Refines (wrap heading branches place m inner) :=
  (refines_declare ..).bind fun _ => Traced.refines_ofExcept _

/-- Marking changes neither the outcome of an evaluation nor its notes. -/
theorem refines_evaluate (s : Specification τ ν M) (position place : Place)
    (m : M) :
    ((s.marked position).evaluate place m).Refines (s.evaluate place m) := by
  induction s generalizing position place with
  | atomic heading predicate branches =>
    refine ((Traced.refines_marked ..).raisedBy ..).bind fun satisfied => ?_
    exact (refines_declare ..).bind fun _ => Traced.refines_pure _
  | wrapper heading inner branches ih =>
    exact (ih _ place m).bind fun result => refines_wrap ..
  | computed heading function branches =>
    refine ((Traced.refines_marked ..).raisedBy ..).bind fun result => ?_
    exact refines_wrap ..
  | composite heading op count operands ih =>
    refine (Traced.Refines.runUntil (fun i => ih i _ _ m) _ _).bind ?_
    exact fun _ => Traced.refines_ofExcept _
  | quantified heading quantifier item branches ih =>
    have hitems := Traced.Refines.runUntil
      (fun entry => ih (position.child 0) (place.child (Prod.snd entry))
        (Prod.fst entry)) (fun _ => false) m.zipIdx
    refine hitems.bind fun results => ?_
    refine (refines_declareSnapshot ..).bind fun _ => ?_
    exact Traced.refines_ofExcept _

end Specification

/-! ## Calls tell of failures -/

/-- The last call fails, the other ones do not, and the error is that of
the last call. -/
def FailsWith {ν : Type} (calls : List (Call ν)) (e : Error) : Prop :=
  ∃ before call raised, calls = before ++ [call] ∧
    (∀ c ∈ before, c.failure = none) ∧ call.failure = some raised ∧
    Error.ofRaised call.callback.statement call.callback.role raised = e

namespace Traced

variable {ν α β : Type} {P Q : Prop}

/-- A computation that succeeds has no call that fails, and one that fails
fails with its last call, unless it is refused for another reason. -/
def Tells (refused : Prop) (x : Traced (Call ν) Error α) : Prop :=
  (∀ a, x.outcome = .ok a → ∀ c ∈ x.notes, c.failure = none) ∧
    ∀ e, x.outcome = .error e →
      FailsWith x.notes e ∨ refused ∧ ∀ c ∈ x.notes, c.failure = none

theorem Tells.mono {x : Traced (Call ν) Error α} (h : x.Tells P)
    (himp : P → Q) : x.Tells Q :=
  ⟨h.1, fun e he => (h.2 e he).imp_right fun hp => ⟨himp hp.1, hp.2⟩⟩

/-- Only the last call can fail. -/
theorem Tells.of_mem_dropLast {x : Traced (Call ν) Error α} (h : x.Tells P) :
    ∀ c ∈ x.notes.dropLast, c.failure = none := by
  intro c hc
  cases hx : x.outcome with
  | ok a => exact h.1 a hx c (List.dropLast_subset _ hc)
  | error e =>
    rcases h.2 e hx with ⟨before, call, raised, hcalls, hbefore, -⟩ | ⟨-, hnone⟩
    · rw [hcalls, List.dropLast_concat] at hc
      exact hbefore c hc
    · exact hnone c (List.dropLast_subset _ hc)

theorem tells_pure (a : α) :
    (pure a : Traced (Call ν) Error α).Tells P := by
  refine ⟨fun _ _ c hc => ?_, fun e he => ?_⟩
  · cases hc
  · cases he

/-- A computation without calls may be refused. -/
theorem tells_fail (hrefused : P) (e : Error) :
    (fail e : Traced (Call ν) Error α).Tells P := by
  refine ⟨fun _ _ c hc => ?_, fun e' _ => Or.inr ⟨hrefused, fun c hc => ?_⟩⟩
  · cases hc
  · cases hc

/-- One callback tells of its failure. -/
theorem tells_marked (x : Traced ν Raised α) (callback : Callback) :
    ((x.marked callback).raisedBy callback.statement callback.role).Tells
      P := by
  constructor
  · intro a ha c hc
    have hx : x.outcome = .ok a := raisedBy_eq_ok_iff.1 ha
    obtain rfl := List.mem_singleton.1 hc
    rw [call, hx]
  · intro e he
    obtain ⟨raised, hx, rfl⟩ := raisedBy_eq_error_iff.1 he
    have hx : x.outcome = .error raised := hx
    have hcall : x.call callback = ⟨callback, x.notes, some raised⟩ := by
      rw [call, hx]
    exact Or.inl ⟨[], ⟨callback, x.notes, some raised⟩, raised,
      congrArg (fun c => [c]) hcall, fun _ hc => (nomatch hc), rfl, rfl⟩

/-- A sequence tells of its failures if its parts do. -/
theorem Tells.bind {x : Traced (Call ν) Error α}
    {f : α → Traced (Call ν) Error β} (h : x.Tells P)
    (hrest : ∀ a, x.outcome = .ok a → (f a).Tells P) : (x >>= f).Tells P := by
  cases hx : x.outcome with
  | error e =>
    rw [bind_of_error hx]
    refine ⟨fun b hb => (nomatch hb), fun e' he' => ?_⟩
    obtain rfl := Except.error.inj he'
    exact h.2 e hx
  | ok a =>
    rw [bind_of_ok hx]
    have hfine := h.1 a hx
    have happend (hrest : ∀ c ∈ (f a).notes, c.failure = none) :
        ∀ c ∈ x.notes ++ (f a).notes, c.failure = none := by
      intro c hc
      exact (List.mem_append.1 hc).elim (hfine c) (hrest c)
    refine ⟨fun b hb => happend ((hrest a hx).1 b hb), fun e he => ?_⟩
    rcases (hrest a hx).2 e he with hfails | ⟨hp, hnone⟩
    · obtain ⟨before, call, raised, hcalls, hbefore, hcall, herror⟩ := hfails
      refine Or.inl ⟨x.notes ++ before, call, raised, ?_, ?_, hcall, herror⟩
      · show x.notes ++ (f a).notes = _
        rw [hcalls, List.append_assoc]
      · intro c hc
        exact (List.mem_append.1 hc).elim (hfine c) (hbefore c)
    · exact Or.inr ⟨hp, happend hnone⟩

/-- A run tells of its failures if the members that it reaches do. -/
theorem Tells.runUntil {ι : Type} {run : ι → Traced (Call ν) Error β}
    {stop : β → Bool} {xs : List ι}
    (h : ∀ i ∈ upTo (fun i => (run i).ends stop) xs, (run i).Tells P) :
    (Traced.runUntil stop run xs).Tells P := by
  induction xs with
  | nil => exact tells_pure []
  | cons i rest ih =>
    have hi : i ∈ upTo (fun i => (run i).ends stop) (i :: rest) := by
      rw [upTo]
      split <;> exact List.mem_cons_self
    rw [runUntil_cons]
    refine (h i hi).bind fun b hb => ?_
    split
    · exact tells_pure [b]
    · rename_i hgoes
      refine (ih fun j hj => h j ?_).bind fun bs _ => tells_pure (b :: bs)
      rw [upTo, ends_of_ok hb, if_neg hgoes]
      exact List.mem_cons_of_mem i hj

end Traced

namespace Specification

variable {τ ν : Type} {M : Type}

theorem tells_resolve (factory : Factory τ ν M) (callback : Callback)
    (m : M) (underlying : Option (Result τ)) :
    (((factory.marked callback).resolve m underlying).raisedBy
      callback.statement callback.role).Tells
        (factory.needsUnderlying ∧ underlying = none) := by
  have hlift (x : Traced ν Raised τ) :
      ((do return [← x.marked callback] :
        Traced (Call ν) Raised (List τ)).raisedBy callback.statement
          callback.role).Tells
      (factory.needsUnderlying ∧ underlying = none) := by
    rw [Traced.raisedBy_bind_pure]
    exact (x.tells_marked callback).bind fun a _ => Traced.tells_pure [a]
  cases factory with
  | constant value => exact Traced.tells_pure [value]
  | constants values => exact Traced.tells_pure values
  | model f => exact hlift (f m)
  | modelMany f => exact (f m).tells_marked callback
  | result f =>
    cases underlying with
    | none => exact Traced.tells_fail ⟨rfl, rfl⟩ _
    | some r => exact hlift (f m r)
  | resultMany f =>
    cases underlying with
    | none => exact Traced.tells_fail ⟨rfl, rfl⟩ _
    | some r => exact (f m r).tells_marked callback

theorem tells_resolve_snapshot {I : Type} {P : Prop}
    (factory : SnapshotFactory τ ν I) (callback : Callback)
    (s : Snapshot τ I) :
    (((factory.marked callback).resolve s).raisedBy callback.statement
      callback.role).Tells P := by
  rw [← SnapshotFactory.resolve_toFactory, SnapshotFactory.marked_toFactory]
  refine (tells_resolve ..).mono fun ⟨hneeds, _⟩ => ?_
  rw [SnapshotFactory.needsUnderlying_toFactory] at hneeds
  cases hneeds

/-- A declaration is refused only if the factory is. -/
theorem tells_declareBy {P : Prop} {heading : Heading} {satisfied : Bool}
    {making : Option (Traced (Call ν) Raised (List τ))}
    {make : List τ → Declaration τ} {bare : Declaration τ}
    (h : ∀ x ∈ making, (x.raisedBy heading.statement
      (Role.ofOutcome satisfied)).Tells P) :
    (declareBy heading satisfied making make bare).Tells P := by
  cases making with
  | none => exact Traced.tells_pure bare
  | some x => exact (h x rfl).bind fun values _ => Traced.tells_pure _

variable [Metadata τ]

/-- A declaration is refused only if a factory misses an underlying
result. -/
theorem tells_declare (position : Place) (heading : Heading)
    (branches : Option (Branches (Factory τ ν M))) (m : M) (satisfied : Bool)
    (underlying : Option (Result τ)) :
    (declare heading (markedBranches position heading branches) m satisfied
      underlying).Tells
        (∃ pair ∈ branches, (pair.taken satisfied).needsUnderlying ∧
          underlying = none) := by
  simp only [declare_eq, markedBranches, Option.map_map, Function.comp_def,
    Branches.taken_mapRole]
  refine tells_declareBy (Option.forall_mem_map.2 fun pair hpair => ?_)
  exact (tells_resolve _ ⟨position, heading.statement, _⟩ m underlying).mono
    fun hrefused => ⟨pair, hpair, hrefused⟩

theorem tells_declareSnapshot {I : Type} {P : Prop} (position : Place)
    (heading : Heading) (branches : Option (Branches (SnapshotFactory τ ν I)))
    (satisfied : Bool) (snapshot : Snapshot τ I) :
    (declareSnapshot heading
      (markedSnapshotBranches position heading branches) satisfied
      snapshot).Tells P := by
  simp only [declareSnapshot_eq, markedSnapshotBranches, Option.map_map,
    Function.comp_def, Branches.taken_mapRole]
  refine tells_declareBy (Option.forall_mem_map.2 fun pair _ => ?_)
  exact tells_resolve_snapshot _ ⟨position, heading.statement, _⟩ snapshot

theorem tells_wrap {P : Prop} (position : Place) (heading : Heading)
    (branches : Option (Branches (Factory τ ν M))) (place : Place) (m : M)
    (inner : Result τ) :
    (wrap heading (markedBranches position heading branches) place m
      inner).Tells P := by
  rw [wrap_eq]
  refine Traced.Tells.bind ?_ fun _ _ => Traced.tells_pure _
  exact (tells_declare ..).mono fun ⟨_, _, _, hnone⟩ => nomatch hnone

/-- An evaluation fails right after the first callback that fails, with the
error of that callback.  Only what cannot be built is refused. -/
theorem tells_evaluate (s : Specification τ ν M) (position place : Place)
    (m : M) :
    ((s.marked position).evaluate place m).Tells (¬s.WellFormed) := by
  induction s generalizing position place with
  | atomic heading predicate branches =>
    refine Traced.Tells.bind (Traced.tells_marked _
      ⟨position, heading.statement, .predicate⟩) fun satisfied _ => ?_
    refine Traced.Tells.bind ?_ fun _ _ => Traced.tells_pure _
    refine (tells_declare ..).mono ?_
    intro ⟨pair, hpair, hneeds, _⟩ hformed
    rw [hformed pair hpair satisfied] at hneeds
    cases hneeds
  | wrapper heading inner branches ih =>
    exact (ih _ place m).bind fun result _ => tells_wrap ..
  | computed heading function branches =>
    exact Traced.Tells.bind (Traced.tells_marked _
      ⟨position, heading.statement, .predicate⟩) fun result _ => tells_wrap ..
  | composite heading op count operands ih =>
    refine Traced.Tells.bind (Traced.Tells.runUntil fun i _ => ?_) ?_
    · exact (ih i (position.child i) (place.child i) m).mono
        fun hnot hformed => hnot (hformed.2.2 i)
    · intro results hresults
      rw [Result.fromOperator]
      split
      · exact Traced.tells_pure _
      · rename_i hrefused
        refine Traced.tells_fail (fun hformed => hrefused ?_) _
        exact Traced.accepts_of_runUntil hformed.1 hresults
  | quantified heading quantifier item branches ih =>
    rw [marked, evaluate_quantified]
    refine Traced.Tells.bind (Traced.Tells.runUntil fun entry _ => ?_) ?_
    · exact ih (position.child 0) (place.child entry.2) entry.1
    · intro results _
      exact (tells_declareSnapshot ..).bind fun _ _ => Traced.tells_pure _

end Specification

end Rationale
