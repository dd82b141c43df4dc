import Mathlib.Data.List.Flatten
import Rationale.Proofs.Chain
import Rationale.Proofs.Flattened

/-!
# Grouping

How the predicates of a conjunction are grouped does not show.  Disjunctions
are the same.  There are three groups.

* Groupings.  A `Grouping` is a result together with all predicates that it
  was made of, also those that a short-circuit cut off and that the result
  says nothing of.  `Built` lists the ways to make one.
* What is kept.  By `kept_eq` the result was made of the predicates that were
  not cut off.  All of them were kept if the result has not the outcome that
  decides it, and so the survivors are its evidence.
* What is printed.  `grouping_invisible` says that a grouping is printed as
  the flat list of its survivors.
-/

namespace Rationale

/-! ## Groupings -/

/-- A result together with the predicates that it was made of. -/
structure Grouping (τ : Type) where
  result : Result τ
  /-- The predicates, from left to right. -/
  leaves : List (Result τ)
  /-- The predicates that no short-circuit cut off. -/
  kept : List (Result τ)

namespace Grouping

variable {τ : Type}

/-- A single predicate. -/
def leaf (p : Result τ) : Grouping τ := ⟨p, [p], [p]⟩

/-- The groupings that an operator looks at. -/
def reached (op : Operator) (parts : List (Grouping τ)) :
    List (Grouping τ) :=
  upTo (fun part => op.settles part.result.satisfied) parts

/-- The result of an operator over groupings.  Those that are not looked at
are cut off. -/
def group (op : Operator) (parts : List (Grouping τ)) (r : Result τ) :
    Grouping τ :=
  ⟨r, parts.flatMap leaves, (reached op parts).flatMap kept⟩

/-- The ways to put results under an operator: two of them are combined, so
that chains are flattened, or a list is taken as it is. -/
inductive Joins (op : Operator) : List (Result τ) → Result τ → Prop where
  | combine (place : Place) (a b : Result τ) :
      Joins op [a, b] (Result.combine place op a b)
  | compose {place : Place} {rs : List (Result τ)} {r : Result τ}
      (made : Result.compose place op rs = .ok r) : Joins op rs r

/-- The groupings of predicates by certain operators. -/
inductive Built (allowed : Operator → Prop) : Grouping τ → Prop where
  | leaf (place : Place) (satisfied : Bool) {declaration : Declaration τ}
      (declares : declaration.assertions ≠ []) :
      Built allowed (leaf (.atomic place satisfied declaration))
  | group {op : Operator} {parts : List (Grouping τ)} {r : Result τ}
      (member : allowed op) (joins : Joins op (parts.map result) r)
      (built : ∀ part ∈ parts, Built allowed part) :
      Built allowed (group op parts r)

/-- The predicates that are printed: those with the deciding outcome that were
not cut off, or all of them if the result has the other outcome. -/
def survivors (wanted : Bool) (g : Grouping τ) : List (Result τ) :=
  if g.result.satisfied = wanted then
    g.kept.filter fun p => p.satisfied = wanted
  else g.leaves

/-! ## What is kept -/

namespace Joins

variable {op : Operator} {rs : List (Result τ)} {r : Result τ}

theorem grouped {wanted : Bool} (hdecided : op.family.decidedBy = some wanted)
    (h : Joins op rs r) (parts : ∀ part ∈ rs, Result.Grouped op.family part) :
    Result.Grouped op.family r := by
  cases h with
  | combine place a b =>
    have ha := parts a (by simp)
    have hb := parts b (by simp)
    have hbinary : op ≠ .not := by
      rintro rfl
      cases hdecided
    exact ha.combine hb place rfl hbinary
  | compose made => exact .compose rfl parts made

/-- No predicate is lost in a chain. -/
theorem predicates_eq (h : Joins op rs r) :
    r.predicates = (Result.reached op rs).flatMap Result.predicates := by
  cases h with
  | combine place a b =>
    rw [Result.combine, Result.predicates_applied]
    cases hsettled : op.settledBy with
    | none =>
      rw [Result.reached_eq_self hsettled, Result.reached_eq_self hsettled,
        List.flatMap_append,
        Result.flatMap_predicates_chainOperands,
        Result.flatMap_predicates_chainOperands]
      simp
    | some outcome =>
      have hshort : op.shortCircuits := by
        rw [Operator.shortCircuits, hsettled]
        rfl
      rw [Result.chainOperands_of_shortCircuits hshort,
        Result.chainOperands_of_shortCircuits hshort]
      rfl
  | compose made =>
    obtain ⟨-, rfl⟩ := Result.fromOperator_eq_ok_iff.1 made
    exact Result.predicates_applied ..

/-- A part that is looked at has the deciding outcome only if the result has
it. -/
theorem satisfied_of_part {wanted : Bool}
    (hdecided : op.family.decidedBy = some wanted) (h : Joins op rs r)
    (parts : ∀ part ∈ rs, Result.Grouped op.family part) {part : Result τ}
    (hpart : part ∈ Result.reached op rs) (hwanted : part.satisfied = wanted) :
    r.satisfied = wanted := by
  have hmem := Result.reached_subset op rs hpart
  obtain ⟨p, hp, hpwanted⟩ :=
    ((parts part hmem).satisfied_eq_iff hdecided).1 hwanted
  refine ((h.grouped hdecided parts).satisfied_eq_iff hdecided).2
    ⟨p, ?_, hpwanted⟩
  rw [h.predicates_eq]
  exact List.mem_flatMap.2 ⟨part, hpart, hp⟩

theorem kind (h : Joins op rs r) : r.label.kind = .applied op := by
  cases h with
  | combine place a b => rw [Result.combine, Result.applied_label]
  | compose made =>
    obtain ⟨-, rfl⟩ := Result.fromOperator_eq_ok_iff.1 made
    rw [Result.applied_label]

end Joins

theorem reached_map_result (op : Operator) (parts : List (Grouping τ)) :
    Result.reached op (parts.map result) = (reached op parts).map result :=
  upTo_map ..

theorem reached_isPrefix (op : Operator) (parts : List (Grouping τ)) :
    reached op parts <+: parts := upTo_isPrefix ..

namespace Built

variable {allowed : Operator → Prop} {family : Family} {wanted : Bool}
  {g : Grouping τ}

theorem imp {allowed' : Operator → Prop}
    (himp : ∀ op, allowed op → allowed' op) (h : g.Built allowed) :
    g.Built allowed' := by
  induction h with
  | leaf place satisfied declares => exact .leaf place satisfied declares
  | group member joins built ih => exact .group (himp _ member) joins ih

theorem kind (h : g.Built allowed) :
    g.result.label.kind = .atomic ∨
      ∃ op, allowed op ∧ g.result.label.kind = .applied op := by
  cases h with
  | leaf place satisfied declares => exact Or.inl rfl
  | group member joins built => exact Or.inr ⟨_, member, joins.kind⟩

theorem grouped (hdecided : family.decidedBy = some wanted)
    (h : g.Built (·.family = family)) : Result.Grouped family g.result := by
  induction h with
  | leaf place satisfied declares => exact .atomic place satisfied declares
  | group member joins built ih =>
    subst member
    exact joins.grouped hdecided (List.forall_mem_map.2 ih)

/-- What was not cut off is what the result was made of. -/
theorem kept_eq (h : g.Built allowed) : g.kept = g.result.predicates := by
  induction h with
  | leaf place satisfied declares => exact (Result.predicates_atomic ..).symm
  | @group op parts r member joins built ih =>
    rw [Grouping.group, joins.predicates_eq, reached_map_result,
      List.flatMap_map]
    refine List.flatMap_congr fun part hpart => ?_
    exact ih part ((reached_isPrefix op parts).subset hpart)

theorem kept_sublist (h : g.Built allowed) : g.kept.Sublist g.leaves := by
  induction h with
  | leaf place satisfied declares => exact List.Sublist.refl _
  | @group op parts r member joins built ih =>
    have hreached := (reached_isPrefix op parts).sublist
    exact (hreached.flatMap kept).trans (List.Sublist.flatMap_right parts ih)

/-- An operator that looks at all parts cuts nothing off. -/
theorem kept_eq_of_eager (heager : ∀ op, allowed op → op.settledBy = none)
    (h : g.Built allowed) : g.kept = g.leaves := by
  induction h with
  | leaf place satisfied declares => rfl
  | @group op parts r member joins built ih =>
    have hall : reached op parts = parts :=
      upTo_eq_self fun _ _ => by simp [Operator.settles, heager op member]
    rw [Grouping.group, hall]
    exact List.flatMap_congr ih

/-- Without the deciding outcome nothing is cut off. -/
theorem kept_eq_of_ne (hdecided : family.decidedBy = some wanted)
    (h : g.Built (·.family = family)) (hother : g.result.satisfied ≠ wanted) :
    g.kept = g.leaves := by
  induction h with
  | leaf place satisfied declares => rfl
  | @group op parts r member joins built ih =>
    subst member
    have hparts : ∀ part ∈ reached op parts,
        part.result.satisfied ≠ wanted := by
      intro part hpart hwanted
      refine hother (joins.satisfied_of_part hdecided
        (List.forall_mem_map.2 fun part hpart =>
          (built part hpart).grouped hdecided) ?_ hwanted)
      rw [reached_map_result]
      exact List.mem_map_of_mem hpart
    have hall : reached op parts = parts :=
      upTo_eq_self_of_reached fun part hpart =>
        Operator.settles_eq_false hdecided (hparts part hpart)
    rw [hall] at hparts
    rw [Grouping.group, hall]
    exact List.flatMap_congr fun part hpart =>
      ih part hpart (hparts part hpart)

theorem survivors_eq (hdecided : family.decidedBy = some wanted)
    (h : g.Built (·.family = family)) :
    g.survivors wanted = g.result.evidence wanted := by
  rw [survivors, Result.evidence, h.kept_eq]
  split
  · rfl
  · rename_i hother
    rw [← h.kept_eq_of_ne hdecided hother, h.kept_eq]

/-- Where nothing can be cut off, the leaves say which of them are printed. -/
theorem survivors_eq_of_leaves {op : Operator} {g' : Grouping τ}
    (hdecided : op.family.decidedBy = some wanted)
    (heager : op.settledBy = none) (h : g.Built (· = op))
    (h' : g'.Built (· = op)) (hleaves : g.leaves = g'.leaves) :
    g.survivors wanted = g'.survivors wanted := by
  have hfamily {g : Grouping τ} (h : g.Built (· = op)) :
      Result.Grouped op.family g.result :=
    (h.imp fun inner heq => by rw [heq]).grouped hdecided
  have hkept {g : Grouping τ} (h : g.Built (· = op)) : g.kept = g.leaves :=
    h.kept_eq_of_eager fun inner heq => by rw [heq, heager]
  have hsatisfied : g.result.satisfied = wanted ↔
      g'.result.satisfied = wanted := by
    rw [(hfamily h).satisfied_eq_iff hdecided,
      (hfamily h').satisfied_eq_iff hdecided, ← h.kept_eq, ← h'.kept_eq,
      hkept h, hkept h', hleaves]
  simp only [survivors, hsatisfied, hkept h, hkept h', hleaves]

end Built

/-! ## What is printed -/

variable [DecidableEq τ]

/-- Whether a grouping is printed as the flat list of its survivors, under the
keyword of `op` if there are several. -/
structure PrintsFlat (wanted : Bool) (op : Operator) (g : Grouping τ) :
    Prop where
  nonempty : g.survivors wanted ≠ []
  ordered : (g.survivors wanted).Sublist g.leaves
  reason : ∀ style, g.result.reason style =
    Result.flatReason style op (g.survivors wanted)
  justification : ∀ style, g.result.justification style =
    "\n".intercalate
      ((Result.flatOutline style.notSymbol op (g.survivors wanted)).map
        (OutlineLine.render style))

theorem Built.printsFlat {family : Family} {wanted : Bool} {g : Grouping τ}
    (hdecided : family.decidedBy = some wanted)
    (h : g.Built (·.family = family)) (hnodup : g.leaves.Nodup)
    {op : Operator} (hop : op.family = family)
    (hkind : g.result.label.kind = .atomic ∨
      g.result.label.kind = .applied op) : g.PrintsFlat wanted op := by
  have hsurvivors := h.survivors_eq hdecided
  have hpredicates : g.result.predicates.Nodup := by
    rw [← h.kept_eq]
    exact hnodup.sublist h.kept_sublist
  have hgrouped := h.grouped hdecided
  have hview := hgrouped.view_eq hdecided hpredicates hop hkind
  have hnonempty := hgrouped.evidence_ne_nil hdecided
  have hlines : ∀ p ∈ g.result.evidence wanted, p.view = some p.line := by
    intro p hp
    have hmem := Result.evidence_subset wanted g.result hp
    exact hgrouped.view_of_mem_predicates hmem
  obtain ⟨hreason, houtline⟩ := Result.flat_of_view hlines hnonempty hview
  refine ⟨?_, ?_, fun style => ?_, fun style => ?_⟩
  · rw [hsurvivors]
    exact hnonempty
  · rw [survivors]
    split
    · exact List.filter_sublist.trans h.kept_sublist
    · exact List.Sublist.refl _
  · rw [hsurvivors, hreason]
  · rw [hsurvivors, Result.justification, houtline]

/-- How predicates are grouped does not show.  What is printed is a flat list
of the predicates that explain the outcome, under the keyword of the outermost
operator.  So predicates that are chained are printed as they are in a
list. -/
theorem grouping_invisible {family : Family} {wanted : Bool}
    (hdecided : family.decidedBy = some wanted) :
    (∀ g : Grouping τ, g.Built (·.family = family) → g.leaves.Nodup →
      ∃ op : Operator, op.family = family ∧
        (g.result.label.kind = .atomic ∨
          g.result.label.kind = .applied op) ∧ g.PrintsFlat wanted op) ∧
    ∀ op : Operator, op.family = family → op.settledBy = none →
      ∀ g g' : Grouping τ, g.Built (· = op) → g'.Built (· = op) →
        g.leaves.Nodup → g.leaves = g'.leaves → ∀ style,
          g.result.reason style = g'.result.reason style ∧
          g.result.justification style = g'.result.justification style := by
  constructor
  · intro g h hnodup
    rcases h.kind with hatomic | ⟨op, hop, hkind⟩
    · obtain ⟨op, hop⟩ := exists_of_decidedBy hdecided
      exact ⟨op, hop, Or.inl hatomic,
        h.printsFlat hdecided hnodup hop (Or.inl hatomic)⟩
    · exact ⟨op, hop, Or.inr hkind,
        h.printsFlat hdecided hnodup hop (Or.inr hkind)⟩
  · rintro op rfl heager g g' h h' hnodup hleaves style
    have hflat {g : Grouping τ} (h : g.Built (· = op))
        (hnodup : g.leaves.Nodup) : g.PrintsFlat wanted op := by
      have hkind : g.result.label.kind = .atomic ∨
          g.result.label.kind = .applied op := by
        rcases h.kind with hatomic | ⟨inner, rfl, hkind⟩
        · exact Or.inl hatomic
        · exact Or.inr hkind
      exact (h.imp fun inner heq => by rw [heq]).printsFlat hdecided hnodup rfl
        hkind
    have hg := hflat h hnodup
    have hg' := hflat h' (hleaves ▸ hnodup)
    have hsame := h.survivors_eq_of_leaves hdecided heager h' hleaves
    constructor
    · rw [hg.reason, hg'.reason, hsame]
    · rw [hg.justification, hg'.justification, hsame]

/-- The room is neither dry nor clean. -/
def untidy : Result String :=
  .atomic (.root 0) false ⟨"tidy", [], ["wet", "dirty"], {}⟩

/-- The light is on. -/
def lit : Result String :=
  .atomic (.root 1) true (.fallback "lit" {} true)

/-- The door is closed. -/
def shut : Result String :=
  .atomic (.root 2) false (.fallback "open" {} false)

/-- Somebody is in. -/
def staffed : Result String :=
  .atomic (.root 3) true (.fallback "staffed" {} true)

/-- The room is looked at as a whole. -/
def room : Grouping String :=
  group .and [leaf untidy, leaf lit]
    (.applied (.root 4) .and [untidy, lit]
      (Result.statementOf .and [untidy, lit] {}) {})

/-- Nobody looks who is in behind a closed door. -/
def door : Grouping String :=
  group .andAlso [leaf shut, leaf staffed]
    (Result.combine (.root 5) .andAlso shut staffed)

/-- Both together. -/
def visit : Grouping String :=
  group .and [room, door]
    (Result.combine (.root 6) .and room.result door.result)

/-- The room and the closed door in one chain. -/
def chained : Grouping String :=
  group .and [room, leaf shut] (Result.combine (.root 7) .and room.result shut)

/-- The same one inside the other. -/
def nested : Grouping String :=
  group .and [room, leaf shut]
    (.applied (.root 8) .and [room.result, shut]
      (Result.statementOf .and [room.result, shut] {}) {})

theorem built_room {allowed : Operator → Prop} (member : allowed .and) :
    room.Built allowed := by
  refine .group member (.compose rfl) ?_
  simp only [List.forall_mem_cons]
  exact ⟨.leaf _ _ (by decide), .leaf _ _ (by decide), by simp⟩

theorem built_visit : visit.Built (·.family = .conjunction) := by
  have hdoor : door.Built (·.family = .conjunction) := by
    refine .group rfl (.combine (.root 5) shut staffed) ?_
    simp only [List.forall_mem_cons]
    exact ⟨.leaf _ _ (by decide), .leaf _ _ (by decide), by simp⟩
  refine .group rfl (.combine (.root 6) room.result door.result) ?_
  simp only [List.forall_mem_cons]
  exact ⟨built_room rfl, hdoor, by simp⟩

theorem built_chained : chained.Built (· = .and) := by
  refine .group rfl (.combine (.root 7) room.result shut) ?_
  simp only [List.forall_mem_cons]
  exact ⟨built_room rfl, .leaf _ _ (by decide), by simp⟩

theorem built_nested : nested.Built (· = .and) := by
  refine .group rfl (.compose rfl) ?_
  simp only [List.forall_mem_cons]
  exact ⟨built_room rfl, .leaf _ _ (by decide), by simp⟩

/-- What stands against a visit is printed in one list, in each notation and
for each way to put it together. -/
theorem grouping_invisible_visit :
    Family.conjunction.decidedBy = some false ∧
      visit.Built (·.family = .conjunction) ∧ visit.leaves.Nodup ∧
      visit.survivors false = [untidy, shut] ∧
      visit.PrintsFlat false .and ∧
      visit.result.reason {} = "(wet, dirty) & ¬open" ∧
      visit.result.justification {} = "AND\n  wet\n  dirty\n  ¬open" ∧
      chained.result.operands ≠ nested.result.operands ∧
      ∀ style,
        chained.result.reason style = nested.result.reason style ∧
        chained.result.justification style =
          nested.result.justification style := by
  have hnodup : visit.leaves.Nodup := by decide
  have hkind : visit.result.label.kind = .applied .and := rfl
  obtain ⟨hflat, halike⟩ := @grouping_invisible String _ .conjunction false rfl
  obtain ⟨op, -, hhead, hflat⟩ := hflat visit built_visit hnodup
  obtain rfl : op = .and := by
    simpa [hkind, eq_comm] using hhead
  have hsurvivors : visit.survivors false = [untidy, shut] := by decide
  refine ⟨rfl, built_visit, hnodup, hsurvivors, hflat, ?_, ?_, by decide, ?_⟩
  · rw [hflat.reason, hsurvivors]
    decide
  · rw [hflat.justification, hsurvivors]
    decide
  · exact halike .and rfl rfl chained nested built_chained built_nested
      (by decide) rfl

end Grouping

end Rationale
