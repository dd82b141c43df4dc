import Rationale.Proofs.Containment
import Rationale.Proofs.NormalForm
import Rationale.Proofs.Outline
import Rationale.Report

/-!
# The lines of a report

A justification is one text, and a report keeps it line by line.  By
`ofResult_keeps`, these are the lines that were written, if no text of the
result has a line break of its own and none is empty.  There are three groups.

* Lines of a text.  `Text.linesFrom_intercalate` says that lines come back
  from the text that they were joined to.  Each of them has to be without a
  carriage return, since one at its end would go with the line feed behind it.
  The last one has to hold something, since nothing ends it.
* Printed parts.  `Marked.topDown` are the parts of a view in the order in
  which they are printed, and `Marked.ownTexts` is what one of them prints
  itself.  `Result.printedTexts` are these texts, one for each line.
* Reports.  A printed text is an assertion that is reached along causes or the
  header of a block.  So what is assumed of these assertions and of the mark of
  negation holds of every line, and blank space in front changes nothing.
-/

namespace Rationale

/-! ## Lines of a text -/

namespace Text

/-- Whether a text has no line break in it. -/
def Unbroken (s : String) : Prop := '\n' ∉ s.toList ∧ '\r' ∉ s.toList

/-- Whether a text makes up one line. -/
def OneLine (s : String) : Prop := s ≠ "" ∧ Unbroken s

instance (s : String) : Decidable (Unbroken s) :=
  inferInstanceAs (Decidable (_ ∧ _))

instance (s : String) : Decidable (OneLine s) :=
  inferInstanceAs (Decidable (_ ∧ _))

theorem Unbroken.append {s t : String} (hs : Unbroken s) (ht : Unbroken t) :
    Unbroken (s ++ t) := by
  have happend (c : Char) (hs : c ∉ s.toList) (ht : c ∉ t.toList) :
      c ∉ (s ++ t).toList := by
    rw [String.toList_append, List.mem_append, not_or]
    exact ⟨hs, ht⟩
  exact ⟨happend '\n' hs.1 ht.1, happend '\r' hs.2 ht.2⟩

/-- A line is still a line behind a text that does not break it. -/
theorem OneLine.behind {s t : String} (ht : OneLine t) (hs : Unbroken s) :
    OneLine (s ++ t) := by
  refine ⟨fun hempty => ?_, hs.append ht.2⟩
  exact ht.1 (String.append_eq_empty_iff.1 hempty).2

theorem dropCarriageReturn_eq_self {cs : List Char} (h : '\r' ∉ cs) :
    dropCarriageReturn cs = cs := by
  rw [dropCarriageReturn, if_neg]
  intro hlast
  exact h (List.mem_of_getLast? hlast)

/-- Up to the next line feed, what is read belongs to the line. -/
theorem linesFrom_append {cs : List Char} (h : '\n' ∉ cs)
    (line rest : List Char) :
    linesFrom line (cs ++ rest) = linesFrom (cs.reverse ++ line) rest := by
  induction cs generalizing line with
  | nil => rfl
  | cons c cs ih =>
    simp only [List.mem_cons, not_or] at h
    obtain ⟨hc, hcs⟩ := h
    rw [List.cons_append, linesFrom, if_neg (Ne.symm hc), ih hcs]
    simp

/-- Lines that are joined by line feeds come back. -/
theorem linesFrom_intercalate {lines : List (List Char)}
    (h : ∀ cs ∈ lines, cs ≠ [] ∧ '\n' ∉ cs ∧ '\r' ∉ cs) :
    linesFrom [] (['\n'].intercalate lines) = lines := by
  induction lines with
  | nil => rfl
  | cons cs rest ih =>
    obtain ⟨⟨hne, hfeed, hreturn⟩, hrest⟩ := List.forall_mem_cons.1 h
    cases rest with
    | nil =>
      have hlast := linesFrom_append hfeed [] []
      rw [List.append_nil, List.append_nil] at hlast
      rw [List.intercalate_singleton, hlast, linesFrom]
      simp [hne]
    | cons next rest =>
      rw [List.intercalate_cons_cons, List.append_assoc,
        linesFrom_append hfeed, List.append_nil, List.singleton_append,
        linesFrom, if_pos rfl, List.reverse_reverse,
        dropCarriageReturn_eq_self hreturn, ih hrest]

theorem lines_intercalate {texts : List String}
    (h : ∀ s ∈ texts, OneLine s) :
    lines ("\n".intercalate texts) = texts := by
  have hchars : ∀ cs ∈ texts.map String.toList,
      cs ≠ [] ∧ '\n' ∉ cs ∧ '\r' ∉ cs := by
    intro cs hcs
    obtain ⟨s, hs, rfl⟩ := List.mem_map.1 hcs
    obtain ⟨hne, hunbroken⟩ := h s hs
    exact ⟨by simpa using hne, hunbroken⟩
  have hfeed : "\n".toList = ['\n'] := rfl
  rw [lines, String.toList_intercalate, hfeed, linesFrom_intercalate hchars,
    List.map_map]
  simp

end Text

/-! ## Printed parts -/

namespace Marked

variable {τ : Type}

mutual

/-- The parts of a view in the order in which they are printed. -/
def topDown : Marked τ → List (Marked τ)
  | .lines source children => .lines source children :: topDownAll children
  | .block source negated op items =>
    .block source negated op items :: topDownAll items
  | .group source items => .group source items :: topDownAll items

/-- The parts of several views, one view behind the other. -/
def topDownAll : List (Marked τ) → List (Marked τ)
  | [] => []
  | item :: items => topDown item ++ topDownAll items

end

/-- What a part of a view prints itself, line by line: the assertions of the
result that it comes from, or the header of a block. -/
def ownTexts (mark : String) : Marked τ → List String
  | .lines source _ => source.label.assertions
  | .block _ negated op _ => [View.header mark negated op]
  | .group _ _ => []

theorem topDownAll_eq (items : List (Marked τ)) :
    topDownAll items = items.flatMap topDown := by
  induction items with
  | nil => rfl
  | cons item rest ih => rw [topDownAll, ih, List.flatMap_cons]

theorem topDown_eq (m : Marked τ) :
    m.topDown = m :: m.parts.flatMap topDown := by
  cases m <;> rw [topDown, topDownAll_eq, parts]

theorem sizeOf_lt_of_mem_parts {m item : Marked τ} (h : item ∈ m.parts) :
    sizeOf item < sizeOf m := by
  cases m with
  | lines source children =>
    have hlt : sizeOf item < sizeOf children := List.sizeOf_lt_of_mem h
    rw [lines.sizeOf_spec]
    omega
  | block source negated op items =>
    have hlt : sizeOf item < sizeOf items := List.sizeOf_lt_of_mem h
    rw [block.sizeOf_spec]
    omega
  | group source items =>
    have hlt : sizeOf item < sizeOf items := List.sizeOf_lt_of_mem h
    rw [group.sizeOf_spec]
    omega

/-- To prove something of a marked view, prove it from its parts. -/
theorem induction_parts {motive : Marked τ → Prop}
    (h : ∀ m, (∀ item ∈ m.parts, motive item) → motive m) (m : Marked τ) :
    motive m := by
  refine h m fun item hitem => ?_
  have hlt := sizeOf_lt_of_mem_parts hitem
  exact induction_parts h item
termination_by sizeOf m

/-- Every part of a view is printed. -/
theorem mem_topDown_iff {m part : Marked τ} :
    part ∈ m.topDown ↔ m.Within part := by
  induction m using induction_parts with
  | h m ih =>
    rw [topDown_eq, List.mem_cons, List.mem_flatMap, within_iff]
    refine or_congr_right (exists_congr fun item => ?_)
    exact and_congr_right fun hitem => ih item hitem

/-- An outline has one line for each text of each part. -/
theorem outline_texts (mark : String) (depth : Nat) (m : Marked τ) :
    (View.outline mark depth m.erase).map OutlineLine.text =
      m.topDown.flatMap (ownTexts mark) := by
  induction m using induction_parts generalizing depth with
  | h m ih =>
    have hparts (depth : Nat) :
        (View.outlineAll mark depth (eraseAll m.parts)).map OutlineLine.text =
          (m.parts.flatMap topDown).flatMap (ownTexts mark) := by
      rw [eraseAll_eq, View.outlineAll_eq, List.flatMap_map, List.map_flatMap,
        List.flatMap_assoc]
      exact List.flatMap_congr fun item hitem => ih item hitem depth
    rw [topDown_eq, List.flatMap_cons]
    cases m with
    | lines source children =>
      have hown : (source.label.assertions.map (OutlineLine.mk depth)).map
          OutlineLine.text = source.label.assertions := by
        rw [List.map_map]
        exact List.map_id'' (fun _ => rfl) _
      rw [← hparts (depth + 1), erase, View.outline, List.map_append, hown]
      rfl
    | block source negated op items =>
      rw [← hparts (depth + 1), erase, View.outline, List.map_cons]
      rfl
    | group source items =>
      rw [← hparts depth, erase, View.outline]
      rfl

end Marked

namespace Result

variable {τ : Type} [DecidableEq τ]

/-- The texts that are printed for a result, from top to bottom: each
assertion of each part that states some, and the header of each block. -/
def printedTexts (r : Result τ) (mark : String) : List String :=
  (marked r).toList.flatMap fun m => m.topDown.flatMap (Marked.ownTexts mark)

theorem outline_printedTexts (r : Result τ) (mark : String) :
    (r.outline mark).map OutlineLine.text = r.printedTexts mark := by
  rw [outline, printedTexts, ← erase_marked]
  cases marked r with
  | none => rfl
  | some m =>
    rw [Option.toList_some, List.flatMap_singleton]
    exact m.outline_texts mark 0

/-- A text that is printed is an assertion that is reached along causes, or
the header of a block. -/
theorem of_mem_printedTexts {r : Result τ} {mark text : String}
    (h : text ∈ r.printedTexts mark) :
    (∃ n, r.Reaches .causes n ∧ text ∈ n.label.assertions) ∨
      ∃ negated op, text = View.header mark negated op := by
  obtain ⟨m, hm, h⟩ := List.mem_flatMap.1 h
  obtain ⟨part, hpart, htext⟩ := List.mem_flatMap.1 h
  have hm : marked r = some m := by simpa using hm
  have hreach : r.Reaches .causes part.source :=
    (sound_of_marked hm part (Marked.mem_topDown_iff.1 hpart)).1
  cases part with
  | lines source children => exact Or.inl ⟨source, hreach, htext⟩
  | block source negated op items =>
    exact Or.inr ⟨negated, op, List.mem_singleton.1 htext⟩
  | group source items => cases htext

/-- Each line that is written is a printed text behind some blank space. -/
theorem written_printedTexts (r : Result τ) (style : Notation) :
    List.Forall₂ (fun line text => ∃ depth, line = style.pad depth ++ text)
      (r.written style) (r.printedTexts style.notSymbol) := by
  rw [written_eq, ← outline_printedTexts, List.forall₂_map_left_iff,
    List.forall₂_map_right_iff, List.forall₂_same]
  exact fun line _ => ⟨line.depth, rfl⟩

/-- Nothing is written only if there is no view. -/
theorem written_eq_nil_iff (r : Result τ) (style : Notation) :
    r.written style = [] ↔ view r = none := by
  rw [written_eq, List.map_eq_nil_iff, outline]
  cases hview : view r with
  | none => simp
  | some shown =>
    have hpos := (normal_of_view hview).countAt_pos 0
    simp only [reduceCtorEq, iff_false, View.outline_eq, List.map_eq_nil_iff]
    intro hnil
    rw [hnil] at hpos
    exact absurd hpos (by decide)

end Result

/-! ## Reports -/

/-- Blank space breaks no line. -/
theorem Notation.unbroken_pad (style : Notation) (depth : Nat) :
    Text.Unbroken (style.pad depth) := by
  rw [Notation.pad, Text.Unbroken, String.toList_ofList]
  simp [List.mem_replicate]

/-- A header is a line. -/
theorem View.oneLine_header {mark : String} (hmark : Text.Unbroken mark)
    (negated : Bool) (op : Operator) :
    Text.OneLine (header mark negated op) := by
  have hkeyword : Text.OneLine op.keyword := by cases op <;> decide
  have hempty : Text.Unbroken "" := by decide
  cases negated with
  | false => exact hkeyword.behind hempty
  | true => exact hkeyword.behind hmark

namespace Result

variable {τ : Type} [DecidableEq τ]

/-- If each assertion is a line and the mark of negation breaks none, then
what is written are lines. -/
theorem oneLine_of_mem_written {r : Result τ} {style : Notation}
    (htexts : ∀ n, r.Reaches .causes n → ∀ text ∈ n.label.assertions,
      Text.OneLine text)
    (hmark : Text.Unbroken style.notSymbol) :
    ∀ line ∈ r.written style, Text.OneLine line := by
  intro line hline
  rw [written_eq] at hline
  obtain ⟨⟨depth, text⟩, hmem, rfl⟩ := List.mem_map.1 hline
  have hprinted : text ∈ r.printedTexts style.notSymbol := by
    rw [← outline_printedTexts]
    exact List.mem_map_of_mem hmem
  have htext : Text.OneLine text := by
    rcases of_mem_printedTexts hprinted with ⟨n, hn, hown⟩ | ⟨negated, op, rfl⟩
    · exact htexts n hn text hown
    · exact View.oneLine_header hmark negated op
  exact htext.behind (style.unbroken_pad depth)

/-- If each assertion that is reached along causes is a line, and the mark of
negation breaks none, then a report keeps the lines that were written: one for
each text that is printed, in order.  Joined by line feeds they are the
justification again, and they are missing only if nothing is printed. -/
theorem ofResult_keeps {r : Result τ}
    (htexts : ∀ n, r.Reaches .causes n → ∀ text ∈ n.label.assertions,
      Text.OneLine text)
    (hmark : Text.Unbroken r.label.style.notSymbol) :
    (Report.ofResult r).justification = r.written r.label.style ∧
    List.Forall₂ (fun line text => ∃ depth,
        line = r.label.style.pad depth ++ text)
      (Report.ofResult r).justification
      (r.printedTexts r.label.style.notSymbol) ∧
    "\n".intercalate (Report.ofResult r).justification =
      r.justification r.label.style ∧
    ((Report.ofResult r).justification = [] ↔ view r = none) ∧
    (r.justification r.label.style = "" ↔ view r = none) := by
  have hjoined := r.justification_eq_written r.label.style
  have hkept : (Report.ofResult r).justification = r.written r.label.style := by
    show Text.lines (r.justification r.label.style) = _
    rw [hjoined]
    exact Text.lines_intercalate (oneLine_of_mem_written htexts hmark)
  rw [hkept, written_eq_nil_iff]
  refine ⟨rfl, r.written_printedTexts _, hjoined.symm, Iff.rfl, ?_⟩
  rw [← written_eq_nil_iff r r.label.style]
  constructor
  · intro hempty
    rw [← hkept]
    show Text.lines (r.justification r.label.style) = []
    rw [hempty]
    rfl
  · intro hnil
    rw [hjoined, hnil]
    rfl

/-- Nobody sleeps, which is stated twice, since the door is open and the light
is on. -/
def asleep : Result String :=
  ofPositions (.root 5)
    { statement := "asleep"
      values := []
      assertions := ["somebody is in", "somebody is up"]
      style := { indent := 3, notSymbol := "not " }
      satisfied := false
      kind := .declared }
    [negation (.root 4) openLit] [0]

/-- Two assertions, a negated block below them and its items make five
lines. -/
theorem ofResult_keeps_asleep :
    (∀ n, asleep.Reaches .causes n → ∀ text ∈ n.label.assertions,
      Text.OneLine text) ∧
    Text.Unbroken asleep.label.style.notSymbol ∧
    (Report.ofResult asleep).justification =
      ["somebody is in", "somebody is up", "   not AND", "      open",
        "      lit"] ∧
    asleep.printedTexts "not " =
      ["somebody is in", "somebody is up", "not AND", "open", "lit"] ∧
    view asleep ≠ none := by
  have htexts : ∀ n ∈ Node.descent .causes (fun _ => false) asleep,
      ∀ text ∈ n.label.assertions, Text.OneLine text := by
    decide
  have htexts : ∀ n, asleep.Reaches .causes n → ∀ text ∈ n.label.assertions,
      Text.OneLine text :=
    fun n hn => htexts n (Node.mem_descent_iff.2 hn)
  have hmark : Text.Unbroken asleep.label.style.notSymbol := by decide
  obtain ⟨hkept, -, -, hnil, -⟩ := ofResult_keeps htexts hmark
  have hlines : (Report.ofResult asleep).justification =
      ["somebody is in", "somebody is up", "   not AND", "      open",
        "      lit"] := by
    rw [hkept]
    decide
  refine ⟨htexts, hmark, hlines, by decide, fun hnone => ?_⟩
  rw [hnil.2 hnone] at hlines
  cases hlines

/-- An empty assertion is a line that is written and not kept. -/
example :
    let empty : Result String := atomic (.root 0) true ⟨"on", [], [""], {}⟩
    empty.written {} = [""] ∧ (Report.ofResult empty).justification = [] := by
  decide

end Result

end Rationale
