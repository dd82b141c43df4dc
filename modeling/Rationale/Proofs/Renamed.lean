import Rationale.Proofs.Built
import Rationale.Proofs.Chain
import Rationale.Proofs.Reading
import Rationale.Proofs.Runs

/-!
# Wrappers that only rename

A wrapper without factories puts a name on a specification and forwards its
explanation.  There are three groups.

* Explanations.  `Result.ExplainsSame` compares what explains two results.
  Moved results explain themselves alike, and so do a result and what
  forwards it.
* Wrappers.  `Specification.renamed` wraps any number of times, and
  `renamed_explainsSame` says that the explanation stays in each notation.
* Notations.  A wrapper has the usual notation, whatever it wraps, and its
  result is described in it.  `notBoth` is described otherwise than what it
  wraps.
-/

namespace Rationale

/-! ## Explanations -/

namespace Result

variable {τ : Type} [DecidableEq τ]

/-- Whether two results explain themselves alike in each notation.  What they
are called may differ, and so may the notation that they carry. -/
structure ExplainsSame (r r' : Result τ) : Prop where
  satisfied : r.satisfied = r'.satisfied
  reason : ∀ style, r.reason style = r'.reason style
  justification : ∀ style, r.justification style = r'.justification style
  assertions : r.assertions = r'.assertions
  metadata : r.metadata = r'.metadata

theorem ExplainsSame.trans {r r' r'' : Result τ} (h : r.ExplainsSame r')
    (h' : r'.ExplainsSame r'') : r.ExplainsSame r'' where
  satisfied := h.satisfied.trans h'.satisfied
  reason style := (h.reason style).trans (h'.reason style)
  justification style := (h.justification style).trans (h'.justification style)
  assertions := h.assertions.trans h'.assertions
  metadata := h.metadata.trans h'.metadata

/-- Results with one view and the same tiers explain themselves alike. -/
theorem explainsSame_of_view {r r' : Result τ}
    (hsatisfied : r.satisfied = r'.satisfied) (hview : view r = view r')
    (hassertions : Node.values (fun finding : Finding τ => finding.assertions)
      r = Node.values (fun finding => finding.assertions) r')
    (hmetadata : r.metadata = r'.metadata) : r.ExplainsSame r' where
  satisfied := hsatisfied
  reason style := by rw [Result.reason, Result.reason, hview]
  justification style := by
    rw [Result.justification, Result.justification, outline, outline, hview]
  assertions := by rw [Result.assertions, Result.assertions, hassertions]
  metadata := hmetadata

theorem explainsSame_rename (ρ : Equiv.Perm Place) (r : Result τ) :
    ExplainsSame (Node.rename ρ r) r := by
  have hvalues {V : Type} (own : Finding τ → List V) :
      Node.values own (Node.rename ρ r) = Node.values own r :=
    Node.ownValues_firstDeclaring_rename ρ own .causes [r]
  exact explainsSame_of_view (satisfied_rename ρ r) (view_rename ρ r)
    (hvalues _) (hvalues _)

/-- A node that says nothing of its own over one cause is shown as the cause
is. -/
theorem view_of_only {inner outer : Result τ}
    (hkind : outer.label.kind = .declared)
    (hsilent : outer.label.assertions = [])
    (only : outer.causes.eraseDups = [inner]) : view outer = view inner := by
  obtain ⟨place, finding, operands, causes⟩ := outer
  have hkind : finding.kind = .declared := hkind
  have hsilent : finding.assertions.isEmpty :=
    List.isEmpty_iff.2 hsilent
  have only : causes.eraseDups = [inner] := only
  rw [view, hkind]
  dsimp only
  rw [if_pos hsilent, views_eq, only, List.flatMap_singleton]
  cases view inner <;> rfl

/-- A node without values of its own over one cause has the values of the
cause. -/
theorem values_of_only {V : Type} {own : Finding τ → List V}
    {inner outer : Result τ} (hnone : own outer.label = [])
    (only : outer.causes.eraseDups = [inner]) :
    Node.values own outer = Node.values own inner := by
  have hpass : ¬Node.declares own outer := by
    rw [Node.declares, hnone]
    exact Bool.false_ne_true
  rw [Node.values_eq_subValues own hpass, Node.subValues, Node.values,
    Node.firstDeclaring_eq, Node.firstDeclaring_eq,
    ← eraseDups_flatMap_eraseDups, only]

/-- A node that only forwards a result is explained by it. -/
theorem explainsSame_forwarding (place : Place) (r : Result τ)
    (statement : String) (style : Notation) :
    ExplainsSame
      (Specification.wrapped place r (.forwarding statement style)) r := by
  have only : (Specification.wrapped place r
      (.forwarding statement style)).causes.eraseDups = [r] := rfl
  exact explainsSame_of_view rfl (view_of_only rfl rfl only)
    (values_of_only rfl only) (values_of_only rfl only)

end Result

/-! ## Wrappers -/

namespace Specification

variable {τ ν M : Type}

/-- The specification under some names, the outermost one first.  Each name
is put on by a wrapper without factories. -/
def renamed (s : Specification τ ν M) :
    List (Place × String) → Except Error (Specification τ ν M)
  | [] => .ok s
  | (place, name) :: names => do
    let inner ← s.renamed names
    (Source.specification inner).create place name

/-- Non-blank names can be put on any specification, and the outermost one is
that of a wrapper in the usual notation. -/
theorem renamed_cons (s : Specification τ ν M) {place : Place}
    {name : String} (hname : ¬Text.isBlank name)
    {names : List (Place × String)} {inner : Specification τ ν M}
    (hinner : s.renamed names = .ok inner) :
    s.renamed ((place, name) :: names) =
      .ok (.wrapper ⟨place, name, {}⟩ inner none) := by
  have hcreate : (Source.specification inner).create place name =
      .ok (.wrapper ⟨place, name, {}⟩ inner none) := by
    refine checked_eq_ok_iff.2 ⟨?_, rfl⟩
    rw [statementFault, if_neg hname]
  rw [renamed, hinner]
  exact hcreate

variable [Metadata τ]

/-- A wrapper without factories forwards the result of what it wraps. -/
theorem evaluate_renaming {inner : Specification τ ν M} {heading : Heading}
    {place : Place} {m : M} {r : Result τ}
    (h : (inner.evaluate place m).outcome = .ok r) :
    ((wrapper heading inner none).evaluate place m).outcome =
      .ok (wrapped place r (.forwarding heading.statement heading.style)) :=
  evaluate_wrapper_eq_ok_iff.2 ⟨r, h, _, rfl, rfl⟩

variable [DecidableEq τ]

/-- Names change what the result is called and not how it is explained. -/
theorem evaluate_renamed {s : Specification τ ν M} {place : Place} {m : M}
    {r : Result τ} (h : (s.evaluate place m).outcome = .ok r)
    {names : List (Place × String)}
    (hnames : ∀ name ∈ names, ¬Text.isBlank name.2) :
    ∃ outer r', s.renamed names = .ok outer ∧
      (outer.evaluate place m).outcome = .ok r' ∧ r'.ExplainsSame r ∧
      r'.label.style = if names = [] then r.label.style else {} := by
  induction names with
  | nil =>
    exact ⟨s, r, rfl, h, ⟨rfl, fun _ => rfl, fun _ => rfl, rfl, rfl⟩, rfl⟩
  | cons name names ih =>
    obtain ⟨inner, r', hinner, hr', hsame, -⟩ :=
      ih fun other hother => hnames other (List.mem_cons_of_mem _ hother)
    have hname := hnames name (List.mem_cons_self ..)
    refine ⟨_, _, s.renamed_cons hname hinner, evaluate_renaming hr',
      (Result.explainsSame_forwarding ..).trans hsame, ?_⟩
    exact (if_neg (List.cons_ne_nil name names)).symm

/-- Wrappers that only rename explain themselves as the specification does
that they wrap, in each notation.  A wrapper is described in the usual
notation, so its description is that of the specification if that has the
usual notation, too. -/
theorem renamed_explainsSame {s : Specification τ ν M} {known : Set Place}
    (hpure : s.Pure known) {p q : Place} (hpq : p.Apart q)
    (hfresh : ∀ x ∈ known, ¬p.Contains x ∧ ¬q.Contains x) {m : M}
    {r : Result τ} (hr : (s.evaluate p m).outcome = .ok r)
    {names : List (Place × String)}
    (hnames : ∀ name ∈ names, ¬Text.isBlank name.2) :
    ∃ outer r', s.renamed names = .ok outer ∧
      (outer.evaluate q m).outcome = .ok r' ∧ r'.ExplainsSame r ∧
      (names ≠ [] → r'.description.reason = r.reason {} ∧
        r'.description.justification = r.justification {}) ∧
      (s.style = {} → r'.description.reason = r.description.reason ∧
        r'.description.justification = r.description.justification) := by
  have hfixes : Place.Fixes (Place.swap hpq) known := fun x hx =>
    Place.exchange_of_not_contains (hfresh x hx).1 (hfresh x hx).2
  have hshifts : Place.Shifts (Place.swap hpq) p q :=
    Place.exchange_below_left p q
  have hmoved : (s.evaluate q m).outcome =
      .ok (Node.rename (Place.swap hpq) r) := by
    rw [maps_evaluate hpure hfixes hshifts m, hr]
    rfl
  obtain ⟨outer, r', houter, hr', hsame, hstyle⟩ :=
    evaluate_renamed hmoved hnames
  have hexplains := hsame.trans (Result.explainsSame_rename _ r)
  have hdescription {style : Notation} (h : r'.label.style = style) :
      r'.description.reason = r.reason style ∧
        r'.description.justification = r.justification style := by
    rw [← h]
    exact ⟨hexplains.reason _, hexplains.justification _⟩
  refine ⟨outer, r', houter, hr', hexplains, fun hne => ?_, fun hs => ?_⟩
  · exact hdescription (hstyle.trans (if_neg hne))
  · have hrstyle : r.label.style = {} := (evaluate_shows hr).2.2.trans hs
    have hsame : r'.label.style = r.label.style := by
      rw [hstyle, Node.rename_label, hrstyle, ite_self]
    exact hdescription hsame

/-- Numbers that are not positive and small at once, in a notation of their
own. -/
def notBoth : Specification String Unit Nat :=
  (negation (.root 3) (combine (.root 2) .and
    (.atomic ⟨.root 0, "positive", {}⟩ (fun n => pure (0 < n)) none)
    (.atomic ⟨.root 1, "small", {}⟩ (fun n => pure (n < 100)) none))).restyle
      { notSymbol := "~" } (.root 4)

theorem pure_notBoth : notBoth.Pure ∅ := by
  refine Fin.forall_fin_one.2 (Fin.forall_fin_two.2 ⟨?_, ?_⟩)
  all_goals exact fun _ h => nomatch h

/-- Two names are put on it. -/
theorem renamed_explainsSame_notBoth :
    ∃ outer r r', notBoth.renamed [(.root 6, "outer"), (.root 5, "inner")] =
        .ok outer ∧
      (notBoth.evaluate (.root 7) 5).outcome = .ok r ∧
      (outer.evaluate (.root 8) 5).outcome = .ok r' ∧ r'.ExplainsSame r ∧
      r'.description.reason = r.reason {} := by
  have hpq : (Place.root 7).Apart (.root 8) := by decide
  have hnames : ∀ name ∈ [(Place.root 6, "outer"), (Place.root 5, "inner")],
      ¬Text.isBlank name.2 := by decide
  obtain ⟨outer, r', houter, hr', hsame, hdescription, -⟩ :=
    renamed_explainsSame pure_notBoth hpq (fun _ h => nomatch h) (m := 5) rfl
      hnames
  have hreason := (hdescription (List.cons_ne_nil _ _)).1
  exact ⟨outer, _, r', houter, rfl, hr', hsame, hreason⟩

/-- Its own description has its own mark for a negation, and that of a wrapper
has the usual one. -/
theorem renamed_notBoth_description :
    notBoth.Pure ∅ ∧ ∃ outer r r',
      notBoth.renamed [(.root 5, "renamed")] = .ok outer ∧
      (notBoth.evaluate (.root 6) 5).outcome = .ok r ∧
      (outer.evaluate (.root 7) 5).outcome = .ok r' ∧
      r.description.reason = "~(positive & small)" ∧
      r'.description.reason = "!(positive & small)" ∧
      r'.description.justification ≠ r.description.justification := by
  refine ⟨pure_notBoth, _, _, _, rfl, rfl, rfl, ?_, ?_, ?_⟩
  all_goals decide +kernel

end Specification

end Rationale
