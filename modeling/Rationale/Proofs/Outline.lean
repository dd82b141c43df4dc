import Mathlib.Data.List.Chain
import Mathlib.Data.List.Forall2
import Rationale.Proofs.Evidence

/-!
# Justifications as outlines

A justification is written on the way down a view, and every line is indented
at once.  By `written_outlined`, it is an outline all the same: its levels are
those of an outline, and a notation adds the width of a level and the mark of
a negated block to it and nothing else.  There are three groups.

* Writing.  `View.write` puts the lines of a view behind those that were
  written before.  By `View.write_eq`, they are the lines of `View.outline`,
  indented.
* Levels.  `Outlined` says that lines start at a nesting level, never rise
  above it, and go down one level at a time.  `View.Normal.outlined` goes by
  induction on the view.  Items of a group start at the level of the group,
  and all other parts stand below a line of what holds them, since a `lines`
  node states something.
* Marks.  `OutlineLine.SameBut` compares one line of two outlines of a result
  that differ in the mark of negation.
-/

namespace Rationale

namespace View

/-! ## Writing -/

mutual

/-- Writes a view at nesting level `depth`, behind the lines that were written
before. -/
def write (style : Notation) (depth : Nat) : View → List String → List String
  | .lines assertions children, before =>
    writeAll style (depth + 1) children
      (before ++ assertions.map fun text => style.pad depth ++ text)
  | .group items, before => writeAll style depth items before
  | .block negated op items, before =>
    let mark := if negated then style.notSymbol else ""
    writeAll style (depth + 1) items
      (before ++ [style.pad depth ++ mark ++ op.keyword])

/-- Writes several views at one level, each behind the one before. -/
def writeAll (style : Notation) (depth : Nat) :
    List View → List String → List String
  | [], before => before
  | item :: items, before =>
    writeAll style depth items (write style depth item before)

end

/-- What is written is the outline of the view, indented. -/
theorem write_eq (style : Notation) (depth : Nat) (view : View)
    (before : List String) :
    write style depth view before =
      before ++ (outline style.notSymbol depth view).map
        (OutlineLine.render style) := by
  have hitems {items : List View} {depth : Nat}
      (h : ∀ item ∈ items, ∀ depth before, write style depth item before =
        before ++ (outline style.notSymbol depth item).map
          (OutlineLine.render style)) (before : List String) :
      writeAll style depth items before =
        before ++ (outlineAll style.notSymbol depth items).map
          (OutlineLine.render style) := by
    induction items generalizing before with
    | nil => simp [writeAll, outlineAll]
    | cons item rest ih =>
      obtain ⟨hitem, hrest⟩ := List.forall_mem_cons.1 h
      rw [writeAll, outlineAll, hitem, ih hrest, List.map_append,
        List.append_assoc]
  induction view using induction_items generalizing depth before with
  | lines assertions children ih =>
    rw [write, outline, hitems ih, List.map_append, List.map_map,
      List.append_assoc]
    rfl
  | block negated op items ih =>
    rw [write, outline, hitems ih, List.map_cons, List.append_assoc,
      String.append_assoc]
    rfl
  | group items ih => rw [write, outline, hitems ih]

end View

namespace Result

variable {τ : Type} [DecidableEq τ]

/-- The lines that are written for a result, in a given notation. -/
def written (r : Result τ) (style : Notation) : List String :=
  match r.view with
  | some view => view.write style 0 []
  | none => []

theorem written_eq (r : Result τ) (style : Notation) :
    r.written style =
      (r.outline style.notSymbol).map (OutlineLine.render style) := by
  rw [written, outline]
  cases r.view with
  | none => rfl
  | some view => exact (view.write_eq style 0 []).trans (List.nil_append _)

/-- A justification is what is written, line by line. -/
theorem justification_eq_written (r : Result τ) (style : Notation) :
    r.justification style = "\n".intercalate (r.written style) := by
  rw [written_eq, justification]

end Result

/-! ## Levels -/

/-- Whether lines are an outline at a nesting level: the first one is at the
level, no other one is above it, and none is more than one level below the
line before it.  That none is above the level is what makes outlines fit
together, wherever the last line of the first one is. -/
structure Outlined (depth : Nat) (lines : List OutlineLine) : Prop where
  first : ∀ line ∈ lines.head?, line.depth = depth
  within : ∀ line ∈ lines, depth ≤ line.depth
  next : lines.IsChain fun line next => next.depth ≤ line.depth + 1

namespace Outlined

variable {depth : Nat} {lines others : List OutlineLine}

theorem nil (depth : Nat) : Outlined depth [] :=
  ⟨by simp, by simp, .nil⟩

theorem singleton (line : OutlineLine) : Outlined line.depth [line] :=
  ⟨by simp, by simp, .singleton _⟩

/-- The step from one outline to the next one.  No line of the first one is
above its level, so the second one may start one level deeper. -/
theorem isChain_append (h : Outlined depth lines) {level : Nat}
    (hothers : Outlined level others) (hlevel : level ≤ depth + 1) :
    (lines ++ others).IsChain fun line next =>
      next.depth ≤ line.depth + 1 := by
  refine List.isChain_append.2 ⟨h.next, hothers.next, ?_⟩
  intro last hlast next hnext
  have hlow : depth ≤ last.depth := h.within last (List.mem_of_getLast? hlast)
  have hfirst : next.depth = level := hothers.first next hnext
  omega

/-- Two outlines at one level make one outline. -/
theorem append (h : Outlined depth lines) (hothers : Outlined depth others) :
    Outlined depth (lines ++ others) where
  first := by
    cases lines with
    | nil => exact hothers.first
    | cons line rest => exact h.first
  within := by
    intro line hline
    rcases List.mem_append.1 hline with hline | hline
    · exact h.within line hline
    · exact hothers.within line hline
  next := h.isChain_append hothers (Nat.le_succ depth)

/-- Below a line there may be an outline one level deeper. -/
theorem nest (h : Outlined depth lines) (hne : lines ≠ [])
    (hothers : Outlined (depth + 1) others) :
    Outlined depth (lines ++ others) where
  first := by
    cases lines with
    | nil => exact absurd rfl hne
    | cons line rest => exact h.first
  within := by
    intro line hline
    rcases List.mem_append.1 hline with hline | hline
    · exact h.within line hline
    · have hdeeper := hothers.within line hline
      omega
  next := h.isChain_append hothers le_rfl

/-- Outlines at one level, one behind the other, make one outline. -/
theorem flatMap {α : Type} {items : List α} {read : α → List OutlineLine}
    (h : ∀ item ∈ items, Outlined depth (read item)) :
    Outlined depth (items.flatMap read) := by
  induction items with
  | nil => exact nil depth
  | cons item rest ih =>
    obtain ⟨hitem, hrest⟩ := List.forall_mem_cons.1 h
    exact hitem.append (ih hrest)

end Outlined

/-- A normal view prints an outline. -/
theorem View.Normal.outlined {view : View} (h : view.Normal) (mark : String)
    (depth : Nat) : Outlined depth (outline mark depth view) := by
  induction h generalizing depth with
  | @lines assertions children stated normal ih =>
    have hown : Outlined depth (assertions.map (OutlineLine.mk depth)) := by
      rw [List.map_eq_flatMap]
      exact .flatMap fun text _ => .singleton ⟨depth, text⟩
    have hchildren : Outlined (depth + 1)
        (outlineAll mark (depth + 1) children) := by
      rw [outlineAll_eq]
      exact .flatMap fun child hchild => ih child hchild (depth + 1)
    rw [outline]
    exact hown.nest (by simpa using stated) hchildren
  | @group items several normal ih =>
    rw [outline, outlineAll_eq]
    exact .flatMap fun item hitem => ih item hitem depth
  | @block negated op items proper several normal flat ih =>
    have hitems : Outlined (depth + 1) (outlineAll mark (depth + 1) items) := by
      rw [outlineAll_eq]
      exact .flatMap fun item hitem => ih item hitem (depth + 1)
    rw [outline]
    exact (Outlined.singleton ⟨depth, header mark negated op⟩).nest
      (List.cons_ne_nil _ _) hitems

theorem Result.outlined {τ : Type} [DecidableEq τ] (r : Result τ)
    (mark : String) : Outlined 0 (r.outline mark) := by
  rw [outline]
  cases hview : r.view with
  | none => exact .nil 0
  | some shown => exact (normal_of_view hview).outlined mark 0

/-! ## Marks -/

/-- Whether two lines are the same, or head one negated block under two
marks. -/
def OutlineLine.SameBut (mark mark' : String) (line line' : OutlineLine) :
    Prop :=
  line = line' ∨ ∃ depth op, line = ⟨depth, View.header mark true op⟩ ∧
    line' = ⟨depth, View.header mark' true op⟩

theorem Entry.line_sameBut (mark mark' : String) (entry : Entry) :
    OutlineLine.SameBut mark mark' (entry.line mark) (entry.line mark') := by
  cases entry with
  | assertion depth text => exact Or.inl rfl
  | header depth negated op =>
    cases negated with
    | false => exact Or.inl rfl
    | true => exact Or.inr ⟨depth, op, rfl, rfl⟩

namespace Result

variable {τ : Type} [DecidableEq τ]

/-- Under another mark, an outline has other headers and nothing else. -/
theorem outline_sameBut (r : Result τ) (mark mark' : String) :
    List.Forall₂ (OutlineLine.SameBut mark mark') (r.outline mark)
      (r.outline mark') := by
  rw [outline_eq, outline_eq, List.forall₂_map_left_iff,
    List.forall₂_map_right_iff, List.forall₂_same]
  exact fun entry _ => entry.line_sameBut mark mark'

/-- What is written for a result is an outline, each line behind the blank
space of its level.  The outline depends on the mark of negation and on
nothing else of the notation.  It starts at level zero and goes down one level
at a time.  Under every mark it is made of the same entries, and another mark
changes the headers of negated blocks only.  So neither the separator of
assertions nor the mark of false statements is seen in a line.  Widths are
natural numbers, so no line is too deep to be indented. -/
theorem written_outlined (r : Result τ) :
    (∀ style, r.justification style = "\n".intercalate (r.written style) ∧
      r.written style = (r.outline style.notSymbol).map fun line =>
        style.pad line.depth ++ line.text) ∧
    (∀ mark, Outlined 0 (r.outline mark)) ∧
    (∀ mark, r.outline mark = r.entries.map (Entry.line mark)) ∧
    (∀ mark mark', List.Forall₂ (OutlineLine.SameBut mark mark')
      (r.outline mark) (r.outline mark')) ∧
    ∀ style separator falsePrefix,
      r.written { style with
        assertionSeparator := separator, falsePrefix := falsePrefix } =
      r.written style := by
  refine ⟨fun style => ⟨r.justification_eq_written style, r.written_eq style⟩,
    r.outlined, r.outline_eq, r.outline_sameBut, fun style separator falsePrefix => ?_⟩
  rw [written_eq, written_eq]
  rfl

end Result

end Rationale
