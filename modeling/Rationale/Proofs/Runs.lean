import Mathlib.Data.List.Nodup
import Mathlib.Data.List.OfFn
import Rationale.Proofs.Built
import Rationale.Proofs.Chain
import Rationale.Proofs.Purity

/-!
# Runs over operands

The operands of a composite are run one after the other at places of their
own.  `Specification.runs` takes the places from anywhere, so that a run
over the operands of one composite can be compared with a part of a run
over the operands of another one.  There are three groups.

* Results.  What the result of an evaluation has from its specification:
  the place, the operator, the statement and the notation.
* Runs.  Where a run makes its results, what they show, and how a run over
  two lists of operands follows from the runs over each of them.
* Composites.  `evaluate_compose_of_run` says that a composite is a run over
  its operands, and `runOperands_chainOperands` that the results of a chain's
  operands are those that the result of the chain stands for.
-/

namespace Rationale

/-! ## Results -/

namespace Specification

variable {τ ν : Type} {M : Type} [Metadata τ] {s : Specification τ ν M}
  {place : Place} {m : M} {r : Result τ}

/-- Whether a declaration shows the statement and the notation of a
heading. -/
def Shows (heading : Heading) (declaration : Declaration τ) : Prop :=
  declaration.statement = heading.statement ∧
    declaration.style = heading.style

theorem shows_ofValues (heading : Heading) (values : List τ)
    (satisfied : Bool) :
    Shows heading
      (.ofValues heading.statement values heading.style satisfied) := by
  rw [Declaration.ofValues]
  split <;> exact ⟨rfl, rfl⟩

theorem shows_declare {heading : Heading}
    {branches : Option (Branches (Factory τ ν M))} {satisfied : Bool}
    {underlying : Option (Result τ)} {declaration : Declaration τ}
    (h : (declare heading branches m satisfied underlying).outcome =
      .ok declaration) : Shows heading declaration := by
  rw [declare_eq] at h
  rcases exists_of_declareBy h with ⟨-, rfl⟩ | ⟨-, values, -, -, rfl⟩
  · cases underlying <;> exact ⟨rfl, rfl⟩
  · split
    · exact ⟨rfl, rfl⟩
    · exact shows_ofValues ..

theorem shows_declareSnapshot {I : Type} {heading : Heading}
    {branches : Option (Branches (SnapshotFactory τ ν I))} {satisfied : Bool}
    {snapshot : Snapshot τ I} {declaration : Declaration τ}
    (h : (declareSnapshot heading branches satisfied snapshot).outcome =
      .ok declaration) : Shows heading declaration := by
  rw [declareSnapshot_eq] at h
  rcases exists_of_declareBy h with ⟨-, rfl⟩ | ⟨-, values, -, -, rfl⟩
  · exact ⟨rfl, rfl⟩
  · exact shows_ofValues ..

/-- A result is made at the place of the evaluation and shows the operator,
the statement and the notation of the specification. -/
theorem evaluate_shows (h : (s.evaluate place m).outcome = .ok r) :
    r.place = place ∧ r.operand = s.operand ∧ r.label.style = s.style := by
  have hoperand {operator : Option Operator} {statement : String}
      (hkind : r.label.kind.operator = operator)
      (hstatement : r.label.statement = statement) :
      r.operand = ⟨operator, statement⟩ := by
    rw [Result.operand, hkind, hstatement]
  cases s with
  | atomic heading predicate branches =>
    obtain ⟨satisfied, -, declaration, hdeclaration, rfl⟩ :=
      evaluate_atomic_eq_ok_iff.1 h
    have hshows := shows_declare hdeclaration
    exact ⟨rfl, hoperand rfl hshows.1, hshows.2⟩
  | wrapper heading inner branches =>
    obtain ⟨result, -, declaration, hdeclaration, rfl⟩ :=
      evaluate_wrapper_eq_ok_iff.1 h
    have hshows := shows_declare hdeclaration
    exact ⟨rfl, hoperand rfl hshows.1, hshows.2⟩
  | computed heading function branches =>
    obtain ⟨result, -, declaration, hdeclaration, rfl⟩ :=
      evaluate_computed_eq_ok_iff.1 h
    have hshows := shows_declare hdeclaration
    exact ⟨rfl, hoperand rfl hshows.1, hshows.2⟩
  | composite heading op count operands =>
    obtain ⟨results, -, -, rfl⟩ := evaluate_composite_eq_ok_iff.1 h
    exact ⟨rfl, hoperand rfl rfl, rfl⟩
  | quantified heading quantifier item branches =>
    obtain ⟨results, -, declaration, hdeclaration, rfl⟩ :=
      evaluate_quantified_eq_ok_iff.1 h
    have hshows := shows_declareSnapshot hdeclaration
    exact ⟨rfl, hoperand rfl hshows.1, hshows.2⟩

end Specification

namespace Traced

variable {ν ε β : Type}

theorem runUntil_map {ι κ : Type} (stop : β → Bool) (run : κ → Traced ν ε β)
    (f : ι → κ) (xs : List ι) :
    runUntil stop run (xs.map f) = runUntil stop (run ∘ f) xs := by
  induction xs with
  | nil => rfl
  | cons i rest ih => rw [List.map_cons, runUntil_cons, runUntil_cons, ih]; rfl

/-- The answers of a run go no further than the first that stops. -/
theorem upTo_of_runUntil {ι : Type} {stop : β → Bool} {run : ι → Traced ν ε β}
    {xs : List ι} {bs : List β} (h : (runUntil stop run xs).outcome = .ok bs) :
    upTo stop bs = bs := by
  induction xs generalizing bs with
  | nil =>
    obtain rfl := Except.ok.inj h
    rfl
  | cons i rest ih =>
    rw [runUntil_cons] at h
    obtain ⟨b, -, h⟩ := bind_eq_ok_iff.1 h
    split at h
    · rename_i hb
      obtain rfl := Except.ok.inj h
      rw [upTo, if_pos hb]
    · rename_i hb
      obtain ⟨more, hmore, h⟩ := bind_eq_ok_iff.1 h
      obtain rfl := Except.ok.inj h
      rw [upTo, if_neg hb, ih hmore]

/-- A run over two lists goes on to the second one unless the first one
stops. -/
theorem runUntil_append {ι : Type} {stop : β → Bool} {run : ι → Traced ν ε β}
    {xs ys : List ι} {as bs : List β}
    (hxs : (runUntil stop run xs).outcome = .ok as)
    (hys : (runUntil stop run ys).outcome = .ok bs) :
    (runUntil stop run (xs ++ ys)).outcome = .ok (upTo stop (as ++ bs)) := by
  induction xs generalizing as with
  | nil =>
    obtain rfl := Except.ok.inj hxs
    rw [List.nil_append, List.nil_append, upTo_of_runUntil hys]
    exact hys
  | cons i rest ih =>
    rw [runUntil_cons] at hxs
    obtain ⟨a, ha, hxs⟩ := bind_eq_ok_iff.1 hxs
    rw [List.cons_append, runUntil_cons, bind_of_ok ha]
    split at hxs
    · rename_i hstop
      obtain rfl := Except.ok.inj hxs
      simp [hstop, upTo]
    · rename_i hstop
      obtain ⟨more, hmore, hxs⟩ := bind_eq_ok_iff.1 hxs
      obtain rfl := Except.ok.inj hxs
      simp only [hstop, Bool.false_eq_true, if_false, List.cons_append, upTo]
      rw [bind_of_ok (ih hmore)]
      rfl

end Traced

namespace Specification

variable {τ ν : Type} {M : Type}

/-! ## Runs -/

/-- Where the operands that a specification brings into a chain of `op` are
evaluated, when the specification is. -/
def chainPlace (op : Operator) (s : Specification τ ν M) (place : Place)
    (i : Nat) : Place :=
  if s.operator = some op ∧ op.isAssociative then place.child i else place

theorem contains_chainPlace (op : Operator) (s : Specification τ ν M)
    (place : Place) (i : Nat) :
    place.Contains (chainPlace op s place i) := by
  rw [chainPlace]
  split
  · exact place.contains_child i
  · exact place.contains_refl

/-- The operands of one chain are evaluated at places that are apart. -/
theorem apart_chainPlace {op : Operator} {s : Specification τ ν M}
    {place : Place} {i j : Nat} (hi : i < (chainOperands op s).length)
    (hj : j < (chainOperands op s).length) (hij : i ≠ j) :
    (chainPlace op s place i).Apart (chainPlace op s place j) := by
  rw [chainOperands] at hi hj
  rw [chainPlace, chainPlace]
  split at hi
  · rename_i hchain
    rw [if_pos hchain, if_pos hchain]
    exact place.apart_child hij
  · rename_i hself
    rw [if_neg hself, List.length_singleton] at hj
    rw [List.length_singleton] at hi
    omega

variable [Metadata τ]

/-- The evaluations of some specifications, each at a place of its own. -/
def runs (operands : List (Specification τ ν M)) (place : Nat → Place)
    (m : M) : List (Traced ν Error (Result τ)) :=
  operands.mapIdx fun i operand => operand.evaluate (place i) m

theorem runs_cons (s : Specification τ ν M)
    (operands : List (Specification τ ν M)) (place : Nat → Place) (m : M) :
    runs (s :: operands) place m =
      s.evaluate (place 0) m :: runs operands (fun i => place (i + 1)) m :=
  List.mapIdx_cons

theorem runs_append (operands operands' : List (Specification τ ν M))
    (place : Nat → Place) (m : M) :
    runs (operands ++ operands') place m =
      runs operands place m ++
        runs operands' (fun i => place (i + operands.length)) m :=
  List.mapIdx_append

/-- The outcome of the operands of `op`, one after the other. -/
def runOperands (op : Operator) (operands : List (Specification τ ν M))
    (place : Nat → Place) (m : M) : Traced ν Error (List (Result τ)) :=
  Traced.runUntil (Result.settles op) id (runs operands place m)

variable {op : Operator} {operands : List (Specification τ ν M)}
  {place : Nat → Place} {m : M} {rs : List (Result τ)}

/-- The evaluations by position. -/
theorem runs_ofFn {count : Nat} (operands : Fin count → Specification τ ν M)
    (place : Nat → Place) (m : M) :
    runs (List.ofFn operands) place m =
      (List.finRange count).map fun i =>
        (operands i).evaluate (place i) m := by
  refine List.ext_getElem (by simp [runs]) fun i hi hi' => ?_
  simp [runs]

/-- A run over the operands of a composite. -/
theorem runOperands_ofFn {count : Nat}
    (operands : Fin count → Specification τ ν M) (place : Nat → Place)
    (m : M) :
    runOperands op (List.ofFn operands) place m =
      Traced.runUntil (Result.settles op)
        (fun i => (operands i).evaluate (place i) m) (List.finRange count) := by
  rw [runOperands, runs_ofFn, Traced.runUntil_map]
  rfl

/-- A result of a run is made at one of the places of the run. -/
theorem places_runOperands
    (h : (runOperands op operands place m).outcome = .ok rs) :
    rs.map Node.place <+: (List.range operands.length).map place := by
  rw [← List.ofFn_get operands, runOperands_ofFn] at h
  have hprefix : rs.map Node.place <+:
      (List.finRange operands.length).map fun i : Fin _ => place i :=
    Traced.map_of_runUntil _ _ h fun i r hr => (evaluate_shows hr).1
  rw [← List.map_coe_finRange_eq_range, List.map_map]
  exact hprefix

/-- A run at places that differ makes results that differ. -/
theorem nodup_runOperands
    (hplace : ∀ i < operands.length, ∀ j < operands.length, i ≠ j →
      place i ≠ place j)
    (h : (runOperands op operands place m).outcome = .ok rs) : rs.Nodup := by
  have hrange : ((List.range operands.length).map place).Nodup := by
    refine List.Nodup.map_on (fun i hi j hj hij => ?_) List.nodup_range
    by_contra hne
    exact hplace i (List.mem_range.1 hi) j (List.mem_range.1 hj) hne hij
  exact (hrange.sublist (places_runOperands h).sublist).of_map _

/-- Without short-circuit, a run shows every operand. -/
theorem operands_runOperands (hop : op.settledBy = none)
    (h : (runOperands op operands place m).outcome = .ok rs) :
    rs.map Result.operand = operands.map operand := by
  induction operands generalizing place rs with
  | nil =>
    obtain rfl := Except.ok.inj h
    rfl
  | cons s rest ih =>
    rw [runOperands, runs_cons, Traced.runUntil_cons] at h
    obtain ⟨r, hr, h⟩ := Traced.bind_eq_ok_iff.1 h
    have hgoes : ¬Result.settles op r := by
      simp [Result.settles, Operator.settles, hop]
    rw [if_neg hgoes] at h
    obtain ⟨more, hmore, h⟩ := Traced.bind_eq_ok_iff.1 h
    obtain rfl := Except.ok.inj h
    rw [List.map_cons, List.map_cons, (evaluate_shows hr).2.1, ih hmore]

/-- A run at other places answers the moved results. -/
theorem maps_runOperands {known : Set Place} {ρ : Equiv.Perm Place}
    (hpure : ∀ s ∈ operands, s.Pure known) (hρ : Place.Fixes ρ known)
    {place' : Nat → Place}
    (hshifts : ∀ i < operands.length, Place.Shifts ρ (place i) (place' i)) :
    Traced.Maps (List.map (Node.rename ρ)) (runOperands op operands place m)
      (runOperands op operands place' m) := by
  induction operands generalizing place place' with
  | nil => exact Traced.maps_pure rfl
  | cons s rest ih =>
    rw [runOperands, runOperands, runs_cons, runs_cons,
      Traced.runUntil_cons, Traced.runUntil_cons]
    have hfirst := maps_evaluate (hpure s (List.mem_cons_self ..)) hρ
      (hshifts 0 (Nat.zero_lt_succ _)) m
    refine hfirst.bind fun r => ?_
    rw [Result.settles, Result.settles, Result.satisfied_rename]
    split
    · exact Traced.maps_pure rfl
    · refine (ih (fun s hs => hpure s (List.mem_cons_of_mem _ hs))
        fun i hi => hshifts (i + 1) (Nat.succ_lt_succ hi)).bind fun rs => ?_
      exact Traced.maps_pure rfl

/-- A run over two lists of operands, of which each one answers. -/
theorem runOperands_append {operands' : List (Specification τ ν M)}
    {rs' : List (Result τ)}
    (h : (runOperands op operands place m).outcome = .ok rs)
    (h' : (runOperands op operands' (fun i => place (i + operands.length))
      m).outcome = .ok rs') :
    (runOperands op (operands ++ operands') place m).outcome =
      .ok (Result.reached op (rs ++ rs')) := by
  rw [runOperands, runs_append]
  exact Traced.runUntil_append h h'

/-! ## Composites -/

/-- A composite whose operands answer. -/
theorem evaluate_compose_of_run (made : Place) (style : Notation)
    {place : Place} (haccepts : op.accepts operands.length)
    (h : (runOperands op operands place.child m).outcome =
      .ok (Result.reached op rs)) :
    ((compose made op operands style).evaluate place m).outcome =
      .ok (Result.applied place op rs (statementOf op operands style)
        style) := by
  have hrun : (Traced.runUntil (Result.settles op)
      (fun i => (operands.get i).evaluate (place.child i) m)
      (List.finRange operands.length)).outcome =
        .ok (Result.reached op rs) := by
    rw [← runOperands_ofFn, List.ofFn_get, h]
  refine evaluate_composite_eq_ok_iff.2 ⟨_, hrun, ?_, ?_⟩
  · exact Traced.accepts_of_runUntil haccepts hrun
  · exact Result.applied_reached ..

/-- The operands that a specification brings into a chain answer what its
result stands for. -/
theorem runOperands_chainOperands {s : Specification τ ν M} {place : Place}
    {r : Result τ} (h : (s.evaluate place m).outcome = .ok r) :
    (runOperands op (chainOperands op s) (chainPlace op s place) m).outcome =
      .ok (Result.chain op r) := by
  have hoperator : r.label.kind.operator = s.operator :=
    congrArg Operand.operator (evaluate_shows h).2.1
  by_cases hchain : s.operator = some op ∧ op.isAssociative
  · have hplaces : chainPlace op s place = place.child := by
      funext i
      rw [chainPlace, if_pos hchain]
    rw [chainOperands, if_pos hchain, hplaces]
    cases s with
    | composite heading op' count operands =>
      obtain rfl : op' = op := Option.some.inj hchain.1
      obtain ⟨results, hresults, -, rfl⟩ := evaluate_composite_eq_ok_iff.1 h
      have hreached : Result.reached op' results = results :=
        Traced.upTo_of_runUntil hresults
      rw [Specification.operands, runOperands_ofFn, Result.chain,
        Result.applied_eq, hreached, if_pos ⟨rfl, hchain.2⟩]
      exact hresults
    | _ => cases hchain.1
  · have hself : Result.chain op r = [r] := by
      rw [Result.chain, if_neg]
      rintro ⟨hkind, hassociative⟩
      rw [hkind] at hoperator
      exact hchain ⟨hoperator.symm, hassociative⟩
    have hplaces : chainPlace op s place = fun _ => place := by
      funext i
      rw [chainPlace, if_neg hchain]
    rw [chainOperands, if_neg hchain, hplaces, hself, runOperands, runs_cons,
      Traced.runUntil_cons]
    show (s.evaluate place m >>= _).outcome = _
    rw [Traced.bind_of_ok h]
    split <;> rfl

end Specification

end Rationale
