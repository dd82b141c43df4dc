import Rationale.Description
import Rationale.Proofs.Frontier
import Rationale.Proofs.Reading
import Rationale.Proofs.Repeats

/-!
# What renderings state

A justification and a reason are printed from a view, and the tier of the
assertions is read off the graph.  Both say the same.  There are two groups.

* Justifications.  `Result.entries` is a justification before it is printed,
  with assertions and headers told apart.  By `justification_states`, its
  assertions are those of all nodes that are reached along causes.
* Reasons.  `Result.pieces` is a reason before it is printed, with
  assertions and marks told apart.  By `reason_states`, its assertions are
  those of the tier, in the same order.
-/

namespace Rationale

/-! ## Justifications -/

/-- One line of a justification. -/
inductive Entry where
  /-- An assertion, at a nesting level. -/
  | assertion (depth : Nat) (text : String)
  /-- The line that heads a block, at a nesting level. -/
  | header (depth : Nat) (negated : Bool) (op : Operator)
deriving DecidableEq

namespace Entry

/-- The entry as a line. -/
def line (notSymbol : String) : Entry → OutlineLine
  | .assertion depth text => ⟨depth, text⟩
  | .header depth negated op => ⟨depth, View.header notSymbol negated op⟩

/-- The assertion of the entry. -/
def assertion? : Entry → Option String
  | .assertion _ text => some text
  | .header .. => none

end Entry

namespace View

mutual

/-- The entries of a view that starts at nesting level `depth`. -/
def entries (depth : Nat) : View → List Entry
  | .lines assertions children =>
    assertions.map (Entry.assertion depth) ++ entriesAll (depth + 1) children
  | .group items => entriesAll depth items
  | .block negated op items =>
    .header depth negated op :: entriesAll (depth + 1) items

/-- The entries of several views at one level. -/
def entriesAll (depth : Nat) : List View → List Entry
  | [] => []
  | item :: items => entries depth item ++ entriesAll depth items

end

theorem entriesAll_eq (depth : Nat) (items : List View) :
    entriesAll depth items = items.flatMap (entries depth) := by
  induction items with
  | nil => rfl
  | cons item rest ih => rw [entriesAll, ih, List.flatMap_cons]

theorem outlineAll_eq (notSymbol : String) (depth : Nat) (items : List View) :
    outlineAll notSymbol depth items =
      items.flatMap (outline notSymbol depth) := by
  induction items with
  | nil => rfl
  | cons item rest ih => rw [outlineAll, ih, List.flatMap_cons]

/-- The outline is made of the entries. -/
theorem outline_eq (notSymbol : String) (depth : Nat) (view : View) :
    outline notSymbol depth view =
      (entries depth view).map (Entry.line notSymbol) := by
  have hitems {items : List View} {depth : Nat}
      (h : ∀ item ∈ items, ∀ depth, outline notSymbol depth item =
        (entries depth item).map (Entry.line notSymbol)) :
      outlineAll notSymbol depth items =
        (entriesAll depth items).map (Entry.line notSymbol) := by
    rw [outlineAll_eq, entriesAll_eq, List.map_flatMap]
    exact List.flatMap_congr fun item hitem => h item hitem depth
  induction view using induction_items generalizing depth with
  | lines assertions children ih =>
    rw [outline, entries, List.map_append, List.map_map, hitems ih]
    rfl
  | block negated op items ih =>
    rw [outline, entries, List.map_cons, hitems ih]
    rfl
  | group items ih => rw [outline, entries, hitems ih]

/-- The assertions among the entries are those of the view. -/
theorem entries_assertions (depth : Nat) (view : View) :
    (entries depth view).filterMap Entry.assertion? = texts view := by
  have hitems {items : List View} {depth : Nat}
      (h : ∀ item ∈ items, ∀ depth,
        (entries depth item).filterMap Entry.assertion? = texts item) :
      (entriesAll depth items).filterMap Entry.assertion? = textsAll items := by
    rw [entriesAll_eq, textsAll_eq, List.filterMap_flatMap]
    exact List.flatMap_congr fun item hitem => h item hitem depth
  induction view using induction_items generalizing depth with
  | lines assertions children ih =>
    have hown : (assertions.map (Entry.assertion depth)).filterMap
        Entry.assertion? = assertions := by
      rw [List.filterMap_map]
      exact List.filterMap_some
    rw [entries, texts, List.filterMap_append, hown, hitems ih]
  | block negated op items ih =>
    rw [entries, texts, List.filterMap_cons_none rfl, hitems ih]
  | group items ih => rw [entries, texts, hitems ih]

end View

namespace Result

variable {τ : Type} [DecidableEq τ]

/-- The justification of a result before it is printed. -/
def entries (r : Result τ) : List Entry := r.read (View.entries 0)

theorem outline_eq (r : Result τ) (notSymbol : String) :
    r.outline notSymbol = r.entries.map (Entry.line notSymbol) := by
  rw [outline, entries, read]
  cases r.view with
  | none => rfl
  | some view => simp [View.outline_eq]

theorem entries_assertions (r : Result τ) :
    r.entries.filterMap Entry.assertion? = r.read View.texts := by
  rw [entries, read, read, List.filterMap_flatMap]
  exact List.flatMap_congr fun view _ => View.entries_assertions 0 view

/-- What a justification states is stated by the result itself or by one of
its causes. -/
theorem mem_texts_iff {r : Result τ} (h : Made r) {text : String} :
    text ∈ r.read View.texts ↔ text ∈ r.label.assertions ∨
      ∃ cause ∈ r.causes, text ∈ read View.texts cause := by
  have hcauses : text ∈ r.causes.eraseDups.flatMap (read View.texts) ↔
      ∃ cause ∈ r.causes, text ∈ read View.texts cause := by
    simp only [List.mem_flatMap, List.mem_eraseDups]
  by_cases hsilent : r.label.assertions = []
  · rw [read_of_silent View.flat_texts h hsilent, hcauses, hsilent]
    simp
  · have hown : r.read View.texts =
        r.label.assertions ++ r.causes.eraseDups.flatMap (read View.texts) := by
      rw [read, view_of_declares h hsilent, ← views_flatMap]
      simp [View.texts, View.textsAll_eq]
    rw [hown, List.mem_append, hcauses]

/-- A justification is printed from assertions and headers, and its
assertions are those of the nodes that are reached along causes: none is
left out and none is made up. -/
theorem justification_states {r : Result τ} (h : Made r) :
    (∀ style, r.justification style = "\n".intercalate
      (r.entries.map fun entry =>
        (entry.line style.notSymbol).render style)) ∧
    r.entries.filterMap Entry.assertion? = r.read View.texts ∧
    ∀ text, text ∈ r.read View.texts ↔
      ∃ n, r.Reaches .causes n ∧ text ∈ n.label.assertions := by
  refine ⟨fun style => ?_, r.entries_assertions, fun text => ?_⟩
  · rw [justification, outline_eq, List.map_map]
    rfl
  · induction r using Node.induction_below with
    | h r ih =>
      rw [mem_texts_iff h, Node.exists_reaches_iff]
      refine or_congr_right (exists_congr fun cause => ?_)
      refine and_congr_right fun hcause => ?_
      exact ih .causes cause hcause (h.of_mem_causes hcause)

/-- A number that is even need not be small, and that it is not is not
stated. -/
theorem justification_states_accepted :
    Made accepted ∧ "¬odd" ∈ accepted.read View.texts ∧
      (∃ n, accepted.Reaches .causes n ∧ "¬odd" ∈ n.label.assertions) ∧
      ∀ n, accepted.Reaches .causes n → "¬small" ∉ n.label.assertions := by
  have hstates := (justification_states made_accepted).2.2
  have hodd : "¬odd" ∈ accepted.read View.texts := by decide
  have hsmall : "¬small" ∉ accepted.read View.texts := by decide
  refine ⟨made_accepted, hodd, (hstates _).1 hodd, fun n hn hown => ?_⟩
  exact hsmall ((hstates _).2 ⟨n, hn, hown⟩)

end Result

/-! ## Reasons -/

/-- A part of a reason. -/
inductive Piece where
  | assertion (text : String)
  /-- A bracket, a symbol or a separator. -/
  | mark (text : String)
deriving DecidableEq

namespace Piece

/-- The piece as it is printed. -/
def text : Piece → String
  | .assertion text => text
  | .mark text => text

/-- The assertion of the piece. -/
def assertion? : Piece → Option String
  | .assertion text => some text
  | .mark _ => none

/-- Some pieces, printed one after the other. -/
def print (pieces : List Piece) : String := String.join (pieces.map text)

/-- Some pieces, in brackets if asked for. -/
def bracketedIf (brackets : Bool) (pieces : List Piece) : List Piece :=
  if brackets then .mark "(" :: pieces ++ [.mark ")"] else pieces

/-- Groups of pieces with a mark between them. -/
def separated (separator : String) (groups : List (List Piece)) : List Piece :=
  [.mark separator].intercalate groups

theorem print_cons (piece : Piece) (pieces : List Piece) :
    print (piece :: pieces) = piece.text ++ print pieces := by
  rw [print, List.map_cons, String.join_cons]
  rfl

theorem print_append (pieces others : List Piece) :
    print (pieces ++ others) = print pieces ++ print others := by
  rw [print, List.map_append, String.join_append]
  rfl

theorem print_bracketedIf (brackets : Bool) (pieces : List Piece) :
    print (bracketedIf brackets pieces) =
      View.bracketedIf brackets (print pieces) := by
  cases brackets with
  | false => rfl
  | true =>
    have hclose : print [.mark ")"] = ")" := by
      rw [print_cons]
      exact String.append_empty
    rw [bracketedIf, View.bracketedIf, if_pos rfl, if_pos rfl, List.cons_append,
      print_cons, print_append, hclose, String.append_assoc]
    rfl

theorem print_separated (separator : String) (groups : List (List Piece)) :
    print (separated separator groups) =
      separator.intercalate (groups.map print) := by
  induction groups with
  | nil => rfl
  | cons first rest ih =>
    cases rest with
    | nil =>
      rw [separated, List.intercalate_singleton, List.map_singleton,
        String.intercalate_singleton]
    | cons second rest =>
      rw [separated] at ih ⊢
      rw [List.intercalate_cons_cons, List.map_cons, List.map_cons,
        String.intercalate_cons_cons, ← List.map_cons, ← ih, List.append_assoc,
        print_append, List.singleton_append, print_cons, String.append_assoc]
      rfl

theorem assertions_bracketedIf (brackets : Bool) (pieces : List Piece) :
    (bracketedIf brackets pieces).filterMap assertion? =
      pieces.filterMap assertion? := by
  cases brackets with
  | false => rfl
  | true =>
    rw [bracketedIf, if_pos rfl, List.cons_append,
      List.filterMap_cons_none rfl, List.filterMap_append]
    exact List.append_nil _

theorem assertions_separated (separator : String)
    (groups : List (List Piece)) :
    (separated separator groups).filterMap assertion? =
      groups.flatMap fun group => group.filterMap assertion? := by
  induction groups with
  | nil => rfl
  | cons first rest ih =>
    cases rest with
    | nil =>
      rw [separated, List.intercalate_singleton, List.flatMap_singleton]
    | cons second rest =>
      rw [separated] at ih ⊢
      rw [List.intercalate_cons_cons, List.append_assoc, List.filterMap_append,
        List.singleton_append, List.filterMap_cons_none rfl, ih]
      rfl

end Piece

namespace View

mutual

/-- The pieces of a view on one line. -/
def pieces (style : Notation) : View → List Piece
  | .lines assertions _ =>
    Piece.separated style.assertionSeparator
      (assertions.map fun text => [.assertion text])
  | .group items =>
    Piece.separated style.assertionSeparator (itemPieces style none items)
  | .block negated op items =>
    let body :=
      Piece.separated (" " ++ op.reasonSymbol ++ " ")
        (itemPieces style (some op) items)
    if negated then .mark style.notSymbol :: Piece.bracketedIf true body
    else body

/-- The pieces of the items of a block of `parent`, or of a group. -/
def itemPieces (style : Notation) (parent : Option Operator) :
    List View → List (List Piece)
  | [] => []
  | item :: items =>
    Piece.bracketedIf (needsBrackets parent item) (pieces style item)
      :: itemPieces style parent items

end

theorem itemPieces_eq (style : Notation) (parent : Option Operator)
    (items : List View) :
    itemPieces style parent items = items.map fun item =>
      Piece.bracketedIf (needsBrackets parent item) (pieces style item) := by
  induction items with
  | nil => rfl
  | cons item rest ih => rw [itemPieces, ih, List.map_cons]

theorem itemReasons_eq (style : Notation) (parent : Option Operator)
    (items : List View) :
    itemReasons style parent items = items.map fun item =>
      bracketedIf (needsBrackets parent item) (reason style item) := by
  induction items with
  | nil => rfl
  | cons item rest ih => rw [itemReasons, ih, List.map_cons]

/-- The reason is made of the pieces. -/
theorem reason_eq (style : Notation) (view : View) :
    reason style view = Piece.print (pieces style view) := by
  have hitems {items : List View} (parent : Option Operator)
      (h : ∀ item ∈ items, reason style item =
        Piece.print (pieces style item)) :
      itemReasons style parent items =
        (itemPieces style parent items).map Piece.print := by
    rw [itemReasons_eq, itemPieces_eq, List.map_map]
    refine List.map_congr_left fun item hitem => ?_
    rw [h item hitem]
    exact (Piece.print_bracketedIf ..).symm
  induction view using induction_items with
  | lines assertions children ih =>
    have hown : (assertions.map fun text => [Piece.assertion text]).map
        Piece.print = assertions := by
      rw [List.map_map]
      refine List.map_id'' (fun text => ?_) assertions
      exact (Piece.print_cons ..).trans String.append_empty
    rw [reason, pieces, Piece.print_separated, hown]
  | block negated op items ih =>
    rw [reason, pieces, hitems (some op) ih, ← Piece.print_separated]
    cases negated with
    | false => rfl
    | true =>
      have hassoc (body : String) : style.notSymbol ++ "(" ++ body ++ ")" =
          style.notSymbol ++ ("(" ++ body ++ ")") := by
        simp only [String.append_assoc]
      rw [if_pos rfl, if_pos rfl, Piece.print_cons, Piece.print_bracketedIf]
      exact hassoc _
  | group items ih =>
    rw [reason, pieces, hitems none ih, Piece.print_separated]

/-- The assertions among the pieces are the outermost ones of the view. -/
theorem pieces_assertions (style : Notation) (view : View) :
    (pieces style view).filterMap Piece.assertion? = outermost view := by
  have hitems {items : List View} (parent : Option Operator)
      (separator : String)
      (h : ∀ item ∈ items,
        (pieces style item).filterMap Piece.assertion? = outermost item) :
      (Piece.separated separator (itemPieces style parent items)).filterMap
        Piece.assertion? = outermostAll items := by
    rw [Piece.assertions_separated, itemPieces_eq, outermostAll_eq,
      List.flatMap_map]
    refine List.flatMap_congr fun item hitem => ?_
    rw [Piece.assertions_bracketedIf, h item hitem]
  induction view using induction_items with
  | lines assertions children ih =>
    rw [pieces, outermost, Piece.assertions_separated, List.flatMap_map]
    exact List.flatMap_singleton' assertions
  | block negated op items ih =>
    rw [pieces, outermost]
    cases negated with
    | false => exact hitems (some op) _ ih
    | true =>
      rw [if_pos rfl, List.filterMap_cons_none rfl,
        Piece.assertions_bracketedIf, hitems (some op) _ ih]
  | group items ih => rw [pieces, outermost, hitems none _ ih]

end View

namespace Result

variable {τ : Type} [DecidableEq τ]

/-- The reason of a result before it is printed. -/
def pieces (r : Result τ) (style : Notation) : List Piece :=
  r.read (View.pieces style)

theorem reason_eq (r : Result τ) (style : Notation) :
    r.reason style = Piece.print (r.pieces style) := by
  rw [reason, pieces, read]
  cases r.view with
  | none => rfl
  | some view => simp [View.reason_eq]

theorem pieces_assertions (r : Result τ) (style : Notation) :
    (r.pieces style).filterMap Piece.assertion? = r.read View.outermost := by
  rw [pieces, read, read, List.filterMap_flatMap]
  exact List.flatMap_congr fun view _ => View.pieces_assertions style view

/-- The assertions of the tier are those of the frontier. -/
theorem assertions_eq (r : Result τ) :
    r.assertions = (Node.ownValues (fun finding => finding.assertions)
      (Node.frontier .causes
        (Node.declares fun finding : Finding τ => finding.assertions)
        r)).eraseDups := by
  rw [assertions, Node.values, Node.firstDeclaring_eq, distinct,
    List.flatMap_singleton, Node.ownValues, Node.ownValues,
    eraseDups_flatMap_eraseDups]

theorem assertions_eraseDups (r : Result τ) :
    r.assertions.eraseDups = r.assertions := by
  rw [assertions, distinct, eraseDups_eraseDups]

/-- A result with assertions of its own is explained by them. -/
theorem assertions_of_declares {r : Result τ}
    (hdeclares : r.label.assertions ≠ []) :
    r.assertions = r.label.assertions.eraseDups := by
  have hhalt : Node.declares (fun finding : Finding τ => finding.assertions)
      r := by
    simpa [Node.declares] using hdeclares
  rw [assertions, Node.values_eq_own _ hhalt, distinct]

/-- A result without assertions is explained by what explains its causes. -/
theorem assertions_of_silent {r : Result τ}
    (hsilent : r.label.assertions = []) :
    r.assertions = (r.causes.flatMap assertions).eraseDups := by
  have hpass : ¬Node.declares (fun finding : Finding τ => finding.assertions)
      r := by
    simpa [Node.declares] using hsilent
  have hbelow (cause : Result τ) : (Node.ownValues (fun finding =>
      finding.assertions) (Node.frontier .causes
        (Node.declares fun finding : Finding τ => finding.assertions)
        cause)).eraseDups = cause.assertions.eraseDups := by
    rw [← assertions_eq, assertions_eraseDups]
  rw [assertions_eq, Node.frontier_eq, if_neg hpass, Node.ownValues,
    List.flatMap_assoc]
  exact eraseDups_flatMap_congr fun cause _ => hbelow cause

/-- A reason is printed from assertions and marks.  Without repeats, its
assertions are those of the tier, in the same order. -/
theorem reason_states {r : Result τ} (h : Made r) :
    (∀ style, r.reason style = Piece.print (r.pieces style) ∧
      (r.pieces style).filterMap Piece.assertion? = r.read View.outermost) ∧
    distinct (r.read View.outermost) = r.assertions := by
  refine ⟨fun style => ⟨r.reason_eq style, r.pieces_assertions style⟩, ?_⟩
  rw [distinct]
  induction r using Node.induction_below with
  | h r ih =>
    by_cases hsilent : r.label.assertions = []
    · have hbelow : ∀ cause ∈ r.causes,
          (read View.outermost cause).eraseDups =
            (assertions cause).eraseDups := by
        intro cause hcause
        have hmade : Made cause := h.of_mem_causes hcause
        rw [ih .causes cause hcause hmade, assertions_eraseDups]
      rw [read_of_silent View.flat_outermost h hsilent,
        assertions_of_silent hsilent, eraseDups_flatMap_eraseDups]
      exact eraseDups_flatMap_congr hbelow
    · rw [read, view_of_declares h hsilent, assertions_of_declares hsilent]
      simp [View.outermost]

/-- One assertion is printed twice, since two causes lead to it. -/
theorem reason_states_accepted :
    Made accepted ∧ accepted.read View.outermost = ["¬odd", "¬odd"] ∧
      accepted.assertions = ["¬odd"] := by
  have hread : accepted.read View.outermost = ["¬odd", "¬odd"] := by decide
  refine ⟨made_accepted, hread, ?_⟩
  rw [← (reason_states made_accepted).2, hread]
  decide

end Result

end Rationale
