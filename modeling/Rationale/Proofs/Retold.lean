import Mathlib.Data.List.OfFn
import Rationale.Proofs.Chain
import Rationale.Proofs.Tier

/-!
# Retold results

A result is retold in another notation if it says the same there: the same
declarations were made, each in the notation of its own, of the same
outcomes.  Which notations may stand for each other is a relation `R`.
There are five groups.

* Picked operands.  What the causes of a result show is picked from what its
  operands show.
* Declarations.  `Declaration.Retold` has one case for each way to declare
  something.  A statement that only forwards may be written anew.
* Results.  `Result.Retold` goes down to the operands.  It keeps places and
  the positions of causes.
* What is kept.  `Retold.map_bare` says that the outcomes, the operands and
  the causes are the same at every depth.  Where only the marks of false
  statements are fixed, `Retold.view_eq` says that nothing else of a
  notation gets into what is printed.
* Blind callbacks.  A callback is blind if it does not read what a notation
  shows in: retold results are the same to it.
-/

namespace Rationale

variable {τ : Type}

/-! ## Picked operands -/

/-- Related lists have members at the same positions. -/
theorem exists_ofFn_of_forall₂ {α β : Type} {P : α → β → Prop} {xs : List α}
    {ys : List β} (h : List.Forall₂ P xs ys) :
    ∃ (count : Nat) (f : Fin count → α) (g : Fin count → β),
      xs = List.ofFn f ∧ ys = List.ofFn g ∧ ∀ i, P (f i) (g i) := by
  have hlength := h.length_eq
  refine ⟨xs.length, xs.get, fun i => ys.get (i.cast hlength), ?_, ?_, ?_⟩
  · rw [List.ofFn_get]
  · apply List.ext_getElem
    · simp [hlength]
    · intro i hi hi'
      simp
  · intro i
    exact h.get i.isLt (hlength ▸ i.isLt)

/-- Members that are picked at different positions differ if all members
do. -/
theorem nodup_pick {α : Type} {xs : List α} {positions : List Nat}
    (hxs : xs.Nodup) (hpositions : positions.Nodup) :
    (positions.filterMap fun i => xs[i]?).Nodup := by
  apply hpositions.filterMap
  intro i j x hi hj
  obtain ⟨hlt, -⟩ := List.getElem?_eq_some_iff.1 hi
  exact (List.getElem?_inj hlt hxs).1 (hi.trans hj.symm)

namespace Result

theorem causes_map_ofPositions {β : Type} (f : Result τ → β) (place : Place)
    (finding : Finding τ) (operands : List (Result τ))
    (positions : List Nat) :
    (ofPositions place finding operands positions).causes.map f =
      positions.filterMap fun i => (operands.map f)[i]? := by
  simp [ofPositions, Node.causes, List.map_filterMap]

/-- Causes that are picked at different positions differ if all operands
do. -/
theorem nodup_causes_ofPositions {operands : List (Result τ)}
    {positions : List Nat} (hplaces : (operands.map Node.place).Nodup)
    (hpositions : positions.Nodup) (place : Place) (finding : Finding τ) :
    (ofPositions place finding operands positions).causes.Nodup := by
  apply List.Nodup.of_map Node.place
  rw [causes_map_ofPositions]
  exact nodup_pick hplaces hpositions

variable [DecidableEq τ]

theorem viewHead_eq (rs : List (Result τ)) :
    viewHead rs = (rs.map view).head?.join := by
  cases rs <;> rfl

/-- A view is made of the assertions and of the views of the causes. -/
theorem view_eq_of_views {r r' : Result τ}
    (hkind : r'.label.kind = r.label.kind)
    (hassertions : r'.label.assertions = r.label.assertions)
    (hnodup : r.causes.Nodup) (hnodup' : r'.causes.Nodup)
    (hviews : r'.causes.map view = r.causes.map view) : view r' = view r := by
  have hall {rs : List (Result τ)} (h : rs.Nodup) :
      views [] rs = (rs.map view).flatMap Option.toList := by
    rw [views_of_nodup h fun _ _ => List.not_mem_nil, List.flatMap_map]
  obtain ⟨place, finding, operands, causes⟩ := r
  obtain ⟨place', finding', operands', causes'⟩ := r'
  simp only [Node.label, Node.causes] at hkind hassertions hnodup hnodup' hviews
  unfold view
  rw [hkind, hassertions, hall hnodup', hall hnodup, viewHead_eq, viewHead_eq,
    hviews]

end Result

/-! ## Declarations -/

/-- Whether two declarations of one outcome declare the same, in notations
that are related. -/
inductive Declaration.Retold [Metadata τ] (R : Notation → Notation → Prop)
    (satisfied : Bool) : Declaration τ → Declaration τ → Prop where
  | forwarding (statement statement' : String) (style style' : Notation) :
      Retold R satisfied (.forwarding statement style)
        (.forwarding statement' style')
  | ofValues (statement : String) (values : List τ) {style style' : Notation}
      (styles : R style style') :
      Retold R satisfied (.ofValues statement values style satisfied)
        (.ofValues statement values style' satisfied)
  | fallback (statement : String) {style style' : Notation}
      (styles : R style style') :
      Retold R satisfied (.fallback statement style satisfied)
        (.fallback statement style' satisfied)

/-- Whether two notations mark false statements alike. -/
def Notation.SameMark (style style' : Notation) : Prop :=
  style'.falsePrefix = style.falsePrefix

/-- Notations that mark false statements alike declare the same values. -/
theorem Declaration.Retold.declares_eq [Metadata τ] {satisfied : Bool}
    {d d' : Declaration τ} (h : Retold Notation.SameMark satisfied d d') :
    d'.values = d.values ∧ d'.assertions = d.assertions := by
  have hmark {statement : String} {style style' : Notation}
      (hstyles : style.SameMark style') :
      style'.fallbackAssertion statement satisfied =
        style.fallbackAssertion statement satisfied := by
    unfold Notation.fallbackAssertion
    rw [hstyles]
  cases h with
  | forwarding statement statement' style style' => exact ⟨rfl, rfl⟩
  | ofValues statement values hstyles =>
    unfold Declaration.ofValues
    rw [hmark hstyles]
    split <;> exact ⟨rfl, rfl⟩
  | fallback statement hstyles =>
    unfold Declaration.fallback
    rw [hmark hstyles]
    exact ⟨rfl, rfl⟩

/-! ## Results -/

/-- Whether two results say the same of the same outcome. -/
structure Finding.Retold [Metadata τ] (R : Notation → Notation → Prop)
    (finding finding' : Finding τ) : Prop where
  declaration : Declaration.Retold R finding.satisfied finding.toDeclaration
    finding'.toDeclaration
  satisfied : finding'.satisfied = finding.satisfied
  kind : finding'.kind = finding.kind

/-- What a result decides, without what it says. -/
def Finding.bare (finding : Finding τ) : Bool × Kind :=
  (finding.satisfied, finding.kind)

namespace Result

/-- Whether two results tell the same over results that do, at the same
places.  Operands have places of their own. -/
inductive Retold [Metadata τ] (R : Notation → Notation → Prop) :
    Result τ → Result τ → Prop where
  /-- A result that was handed out as it is. -/
  | same (r : Result τ) : Retold R r r
  /-- A result that was made again over results that were made again. -/
  | node (place : Place) {finding finding' : Finding τ} {count : Nat}
      {operands operands' : Fin count → Result τ} {positions : List Nat}
      (label : finding.Retold R finding')
      (below : ∀ i, Retold R (operands i) (operands' i))
      (places : Function.Injective fun i => (operands i).place)
      (distinct : positions.Nodup) :
      Retold R (ofPositions place finding (List.ofFn operands) positions)
        (ofPositions place finding' (List.ofFn operands') positions)

/-- Results over lists of results that are retold one by one. -/
theorem retold_ofPositions [Metadata τ] {R : Notation → Notation → Prop}
    (place : Place) {finding finding' : Finding τ}
    {operands operands' : List (Result τ)} {positions : List Nat}
    (label : finding.Retold R finding')
    (below : List.Forall₂ (Retold R) operands operands')
    (places : (operands.map Node.place).Nodup)
    (distinct : positions.Nodup) :
    Retold R (ofPositions place finding operands positions)
      (ofPositions place finding' operands' positions) := by
  obtain ⟨count, f, g, rfl, rfl, hbelow⟩ := exists_ofFn_of_forall₂ below
  apply Retold.node place label hbelow _ distinct
  rw [List.map_ofFn, List.nodup_ofFn] at places
  exact places

/-! ## What is kept -/

variable [Metadata τ] {R : Notation → Notation → Prop} {r r' : Result τ}

theorem Retold.place_eq (h : Retold R r r') : r'.place = r.place := by
  cases h <;> rfl

theorem Retold.satisfied_eq (h : Retold R r r') :
    r'.satisfied = r.satisfied := by
  cases h with
  | same => rfl
  | node place label below places distinct => exact label.satisfied

theorem map_satisfied_of_forall₂ {rs rs' : List (Result τ)}
    (h : List.Forall₂ (Retold R) rs rs') :
    rs'.map satisfied = rs.map satisfied := by
  induction h with
  | nil => rfl
  | cons hr hrest ih => simp [hr.satisfied_eq, ih]

/-- Retold results have the same outcomes over the same operands, for the
same causes, at every depth. -/
theorem Retold.map_bare (h : Retold R r r') :
    r'.map Finding.bare = r.map Finding.bare := by
  induction h with
  | same r => rfl
  | @node place finding finding' count operands operands' positions label
      below places distinct ih =>
    have hoperands : (List.ofFn operands').map (Node.map Finding.bare) =
        (List.ofFn operands).map (Node.map Finding.bare) := by
      simp [List.map_ofFn, Function.comp_def, ih]
    have hcauses := causes_map_ofPositions (Node.map Finding.bare) place
      finding' (List.ofFn operands') positions
    rw [hoperands, ← causes_map_ofPositions _ place finding] at hcauses
    have hlabel : finding'.bare = finding.bare := by
      simp [Finding.bare, label.satisfied, label.kind]
    unfold ofPositions at hcauses ⊢
    rw [Node.map_mk, Node.map_mk, hlabel, hoperands]
    exact congrArg _ hcauses

variable [DecidableEq τ]

/-- Nothing of a notation but the mark of false statements gets into the
view of a result. -/
theorem Retold.view_eq (h : Retold Notation.SameMark r r') :
    view r' = view r := by
  induction h with
  | same r => rfl
  | @node place finding finding' count operands operands' positions label
      below places distinct ih =>
    have hplaces : ((List.ofFn operands).map Node.place).Nodup := by
      rw [List.map_ofFn, List.nodup_ofFn]
      exact places
    have hplaces' : ((List.ofFn operands').map Node.place).Nodup := by
      rw [List.map_ofFn, List.nodup_ofFn]
      intro i j hij
      apply places
      simpa [(below i).place_eq, (below j).place_eq] using hij
    have hoperands : (List.ofFn operands').map view =
        (List.ofFn operands).map view := by
      simp [List.map_ofFn, Function.comp_def, ih]
    apply view_eq_of_views
    · exact label.kind
    · exact label.declaration.declares_eq.2
    · exact nodup_causes_ofPositions hplaces distinct ..
    · exact nodup_causes_ofPositions hplaces' distinct ..
    · rw [causes_map_ofPositions, causes_map_ofPositions, hoperands]

end Result

/-! ## Blind callbacks -/

section Blind

variable {ν M : Type} [Metadata τ] (R : Notation → Notation → Prop)

/-- Whether the values are the same for retold results. -/
def Factory.Blind : Factory τ ν M → Prop
  | .constant _ | .constants _ | .model _ | .modelMany _ => True
  | .result f => ∀ m r r', Result.Retold R r r' →
    (f m r').outcome = (f m r).outcome
  | .resultMany f => ∀ m r r', Result.Retold R r r' →
    (f m r').outcome = (f m r).outcome

/-- Whether two snapshots are of the same items with retold results. -/
structure Snapshot.Retold {I : Type} (s s' : Snapshot τ I) : Prop where
  models : s'.models = s.models
  results : List.Forall₂ (Result.Retold R) s.results s'.results
  causes : s'.causes = s.causes

/-- Whether the values are the same for retold results. -/
def SnapshotFactory.Blind {I : Type} : SnapshotFactory τ ν I → Prop
  | .constant _ | .constants _ => True
  | .snapshot f => ∀ s s', Snapshot.Retold R s s' →
    (f s').outcome = (f s).outcome
  | .snapshotMany f => ∀ s s', Snapshot.Retold R s s' →
    (f s').outcome = (f s).outcome

/-- Whether no callback tells retold results apart. -/
def Specification.Blind : {M : Type} → Specification τ ν M → Prop
  | _, .atomic _ _ branches => ∀ pair ∈ branches, ∀ satisfied,
    (pair.taken satisfied).Blind R
  | _, .wrapper _ inner branches =>
    inner.Blind ∧ ∀ pair ∈ branches, ∀ satisfied,
      (pair.taken satisfied).Blind R
  | _, .computed _ _ branches => ∀ pair ∈ branches, ∀ satisfied,
    (pair.taken satisfied).Blind R
  | _, .composite _ _ _ operands => ∀ i, (operands i).Blind
  | _, .quantified _ _ item branches =>
    item.Blind ∧ ∀ pair ∈ branches, ∀ satisfied,
      (pair.taken satisfied).Blind R

end Blind

end Rationale
