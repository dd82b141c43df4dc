import Rationale.Proofs.Elision
import Rationale.Proofs.Explained
import Rationale.Proofs.Lazy
import Rationale.Proofs.NormalForm
import Rationale.Proofs.Phrase

/-!
# Reasons are unambiguous

A reason leaves brackets out where it can, and it does not tell the operators
of one family apart.  Up to that the view that it was printed from can be read
off it.  There are four groups.

* Merged views.  `View.merged` forgets of a view what no reason tells: whether
  an operator is the short-circuiting one of its family, and where an
  exclusive disjunction was an operand of another one.  By
  `View.reason_merged` the reason stays the same.
* Reading.  `Chain.view` reads a chain of phrases as a view.
* Spelling.  `Chain.Spells` says that a chain is the reason of a view written
  down, and that it is read as the merged view.  `View.exists_spells` finds
  such a chain, by induction on the view.
* Results.  `Result.Worded` are the results of predicates with one name each.
  By `Result.reason_unambiguous` they have one reason exactly if they have one
  merged view.
-/

namespace Rationale

namespace Operator

/-- Reasons are joined like the statements of the eager operator. -/
theorem reasonSymbol_eq (op : Operator) :
    op.reasonSymbol = op.eager.statementSymbol := by
  cases op <;> rfl

theorem reasonSymbol_eager (op : Operator) :
    op.eager.reasonSymbol = op.reasonSymbol := by
  cases op <;> rfl

/-- Operators with one symbol merge, or they are exclusive disjunctions. -/
theorem eq_xor_of_apart {op inner : Operator} (hop : op ≠ .not)
    (hsymbol : op.reasonSymbol = inner.reasonSymbol)
    (hapart : ¬op.collapsesWith inner) : op = .xor ∧ inner = .xor := by
  revert hop hsymbol hapart
  cases op <;> cases inner <;> decide

end Operator

namespace View

/-! ## Merged views -/

/-- What an item brings into a block of `parent`, or into no block.  An
exclusive disjunction brings its items into another one. -/
def spill (parent : Option Operator) : View → List View
  | .block false .xor items =>
    if parent = some .xor then items else [.block false .xor items]
  | item => [item]

mutual

/-- The view without what a reason does not tell. -/
def merged : View → View
  | .lines assertions children =>
    .lines assertions (mergedUnder none children)
  | .block negated op items =>
    .block negated op.eager (mergedUnder (some op) items)
  | .group items => .group (mergedUnder none items)

/-- The items of a block of `parent`, or of no block, without what a reason
does not tell. -/
def mergedUnder (parent : Option Operator) : List View → List View
  | [] => []
  | item :: items => spill parent (merged item) ++ mergedUnder parent items

end

theorem heading_merged (view : View) :
    view.merged.heading = view.heading.map Operator.eager := by
  cases view with
  | lines assertions children => rfl
  | group items => rfl
  | block negated op items => cases negated <;> rfl

theorem spill_eq_self {parent : Option Operator} {view : View}
    (h : view.heading = some .xor → parent ≠ some .xor) :
    spill parent view = [view] := by
  cases view with
  | lines assertions children => rfl
  | group items => rfl
  | block negated op items =>
    cases negated with
    | true => rfl
    | false =>
      cases op with
      | xor => rw [spill, if_neg (h rfl)]
      | and | or | not | andAlso | orElse => rfl

/-- Views of operators over predicates that state one name each. -/
inductive Worded : View → Prop where
  | lines {text : String} (isName : IsName text) : Worded (.lines [text] [])
  | block {negated : Bool} {op : Operator} {items : List View}
      (parts : ∀ item ∈ items, Worded item) :
      Worded (.block negated op items)

theorem Worded.flip {view : View} (h : view.Worded) : view.flip.Worded := by
  cases h with
  | lines isName => exact .lines isName
  | block parts => exact .block parts

theorem Worded.of_mem_itemsUnder {op : Operator} {view item : View}
    (h : view.Worded) (hitem : item ∈ itemsUnder op view) : item.Worded := by
  cases h with
  | lines isName =>
    rw [List.mem_singleton.1 hitem]
    exact .lines isName
  | @block negated inner items parts =>
    have hwhole : Worded (.block negated inner items) := .block parts
    cases negated with
    | true =>
      rw [List.mem_singleton.1 hitem]
      exact hwhole
    | false =>
      rw [itemsUnder] at hitem
      split at hitem
      · exact parts item hitem
      · rw [List.mem_singleton.1 hitem]
        exact hwhole

/-- An item of a block of `op` has no operator of its own, or it is an
exclusive disjunction in another one, or it comes in brackets. -/
theorem Worded.item_cases {op : Operator} {item : View} (h : item.Worded)
    (hop : op ≠ .not) (hflat : itemsUnder op item = [item]) :
    (item.heading = none ∧ needsBrackets (some op) item = false) ∨
      (op = .xor ∧ ∃ items, item = .block false .xor items) ∨
      ∃ inner, item.heading = some inner ∧
        op.reasonSymbol ≠ inner.reasonSymbol ∧
        needsBrackets (some op) item = true := by
  cases h with
  | lines isName => exact Or.inl ⟨rfl, rfl⟩
  | @block negated inner items parts =>
    cases negated with
    | true => exact Or.inl ⟨rfl, rfl⟩
    | false =>
      by_cases hsymbol : op.reasonSymbol = inner.reasonSymbol
      · have hapart := not_collapsesWith_of_itemsUnder hflat
        obtain ⟨rfl, rfl⟩ := Operator.eq_xor_of_apart hop hsymbol hapart
        exact Or.inr (Or.inl ⟨rfl, items, rfl⟩)
      · exact Or.inr (Or.inr ⟨inner, rfl, hsymbol, decide_eq_true hsymbol⟩)

/-- An item in brackets keeps its items to itself. -/
theorem spill_merged_eq {op inner : Operator} {item : View}
    (hheading : item.heading = some inner)
    (hsymbol : op.reasonSymbol ≠ inner.reasonSymbol) :
    spill (some op) item.merged = [item.merged] := by
  refine spill_eq_self fun hxor hparent => hsymbol ?_
  rw [heading_merged, hheading, Option.map_some] at hxor
  rw [Option.some.inj hparent, ← inner.reasonSymbol_eager,
    Option.some.inj hxor]

theorem spill_merged_of_none {parent : Option Operator} {item : View}
    (hheading : item.heading = none) :
    spill parent item.merged = [item.merged] := by
  refine spill_eq_self fun hxor => ?_
  rw [heading_merged, hheading] at hxor
  cases hxor

/-- No item is lost. -/
theorem spill_merged_ne_nil {view : View} (hnormal : view.Normal)
    (parent : Option Operator) : spill parent view.merged ≠ [] := by
  induction hnormal generalizing parent with
  | lines stated normal ih => exact List.cons_ne_nil _ _
  | group several normal ih => exact List.cons_ne_nil _ _
  | @block negated op items proper several normal flat ih =>
    have hitems : mergedUnder (some op) items ≠ [] := by
      cases items with
      | nil => exact absurd several (by simp)
      | cons item rest =>
        have hitem := ih item List.mem_cons_self (some op)
        exact List.append_ne_nil_of_left_ne_nil hitem _
    cases negated with
    | true => exact List.cons_ne_nil _ _
    | false =>
      cases op with
      | xor =>
        rw [merged, Operator.eager, spill]
        split
        · exact hitems
        · exact List.cons_ne_nil _ _
      | and | or | not | andAlso | orElse => exact List.cons_ne_nil _ _

theorem itemReasons_ne_nil {style : Notation} {parent : Option Operator}
    {items : List View} (h : items ≠ []) :
    itemReasons style parent items ≠ [] := by
  rw [itemReasons_eq, ne_eq, List.map_eq_nil_iff]
  exact h

/-- The items of a block are printed as before if each of them is. -/
theorem intercalate_mergedUnder {style : Notation} {separator : String}
    {op : Operator} {items : List View}
    (hsome : ∀ item ∈ items, spill (some op) item.merged ≠ [])
    (hsame : ∀ item ∈ items,
      separator.intercalate (itemReasons style (some op.eager)
        (spill (some op) item.merged)) =
          bracketedIf (needsBrackets (some op) item) (item.reason style)) :
    separator.intercalate
        (itemReasons style (some op.eager) (mergedUnder (some op) items)) =
      separator.intercalate (itemReasons style (some op) items) := by
  induction items with
  | nil => rfl
  | cons item rest ih =>
    obtain ⟨hitem, hrest⟩ := List.forall_mem_cons.1 hsome
    obtain ⟨hprinted, hothers⟩ := List.forall_mem_cons.1 hsame
    have happend : itemReasons style (some op.eager)
        (mergedUnder (some op) (item :: rest)) =
          itemReasons style (some op.eager) (spill (some op) item.merged) ++
            itemReasons style (some op.eager) (mergedUnder (some op) rest) := by
      simp only [mergedUnder, itemReasons_eq, List.map_append]
    cases rest with
    | nil =>
      rw [happend, mergedUnder, itemReasons, List.append_nil, hprinted,
        itemReasons, itemReasons, String.intercalate_singleton]
    | cons second others =>
      have hsecond := hrest second List.mem_cons_self
      have hbehind : mergedUnder (some op) (second :: others) ≠ [] :=
        List.append_ne_nil_of_left_ne_nil hsecond _
      rw [happend, String.intercalate_append_of_ne_nil
        (itemReasons_ne_nil hitem) (itemReasons_ne_nil hbehind), hprinted,
        ih hrest hothers]
      exact String.intercalate_cons_cons.symm

theorem needsBrackets_merged {op : Operator} {item : View}
    (h : item.Worded) :
    needsBrackets (some op.eager) item.merged =
      needsBrackets (some op) item := by
  cases h with
  | lines isName => rfl
  | @block negated inner items parts =>
    cases negated with
    | true => rfl
    | false =>
      simp only [merged, needsBrackets, Operator.reasonSymbol_eager]

/-- A merged view has the same reason. -/
theorem reason_merged {view : View} (hworded : view.Worded)
    (hnormal : view.Normal) (style : Notation) :
    view.merged.reason style = view.reason style := by
  induction hworded with
  | lines isName => rfl
  | @block negated op items parts ih =>
    cases hnormal with
    | block proper several normal flat =>
      have hitems : ∀ item ∈ items,
          (" " ++ op.reasonSymbol ++ " ").intercalate
            (itemReasons style (some op.eager)
              (spill (some op) item.merged)) =
            bracketedIf (needsBrackets (some op) item)
              (item.reason style) := by
        intro item hitem
        have hreason := ih item hitem (normal item hitem)
        have halone (h : spill (some op) item.merged = [item.merged]) :
            (" " ++ op.reasonSymbol ++ " ").intercalate
              (itemReasons style (some op.eager)
                (spill (some op) item.merged)) =
              bracketedIf (needsBrackets (some op) item)
                (item.reason style) := by
          rw [h, itemReasons, itemReasons, String.intercalate_singleton,
            needsBrackets_merged (parts item hitem), hreason]
        rcases (parts item hitem).item_cases proper (flat item hitem) with
          ⟨hnone, -⟩ | ⟨rfl, nested, rfl⟩ | ⟨inner, hheading, hsymbol, -⟩
        · exact halone (spill_merged_of_none hnone)
        · exact hreason
        · exact halone (spill_merged_eq hheading hsymbol)
      rw [merged, reason, reason, op.reasonSymbol_eager,
        intercalate_mergedUnder (fun item hitem =>
          spill_merged_ne_nil (normal item hitem) _) hitems]

end View

/-! ## Reading -/

mutual

/-- The view that a phrase is the reason of. -/
def Phrase.view : Phrase → View
  | .name name => .lines [name.text] []
  | .not part => part.view.flip
  | .brackets chain => chain.view

/-- The view that a chain is the reason of. -/
def Chain.view : Chain → View
  | .one phrase => phrase.view
  | .more phrase op rest => .block false op (phrase.view :: rest.items)

/-- The views of the phrases of a chain. -/
def Chain.items : Chain → List View
  | .one phrase => [phrase.view]
  | .more phrase _ rest => phrase.view :: rest.items

end

namespace Chain

/-- The first operator of a chain. -/
def heading : Chain → Option Operator
  | .one _ => none
  | .more _ op _ => some op

variable {op : Operator} {c : Chain}

theorem items_of_heading_none (h : c.heading = none) : c.items = [c.view] := by
  cases c with
  | one phrase => rfl
  | more phrase op rest => cases h

theorem view_of_heading_some (h : c.heading = some op) :
    c.view = .block false op c.items := by
  cases c with
  | one phrase => cases h
  | more phrase inner rest =>
    obtain rfl := Option.some.inj h
    rfl

theorem items_append (op : Operator) (a b : Chain) :
    (a.append op b).items = a.items ++ b.items := by
  fun_induction append op a b with
  | case1 phrase b => rfl
  | case2 phrase op' rest b ih => rw [items, items, ih, List.cons_append]

theorem items_join (op : Operator) (a : Chain) (rest : List Chain) :
    (join op a rest).items = (a :: rest).flatMap items := by
  induction rest generalizing a with
  | nil => simp [join]
  | cons b rest ih =>
    rw [join, items_append, ih]
    rfl

theorem heading_join {a b : Chain} (ha : a.Open op) (rest : List Chain) :
    (join op a (b :: rest)).heading = some op := by
  cases a with
  | one phrase => rfl
  | more phrase inner tail =>
    obtain ⟨rfl, -, -⟩ := ha
    rfl

/-! ## Spelling -/

/-- The chain is the reason of the view written down, and it is read as the
merged view. -/
structure Spells (c : Chain) (shown : View) : Prop where
  text : c.text = (shown.reason {}).toList
  view : c.view = shown.merged
  heading : c.heading = shown.heading.map Operator.eager
  isOpen : ∀ op, c.heading = some op → c.Open op

/-- The chain is the reason of the item of a block of `op`, in brackets where
it needs them. -/
structure SpellsUnder (op : Operator) (c : Chain) (item : View) : Prop where
  text : c.text = (View.bracketedIf (View.needsBrackets (some op) item)
    (item.reason {})).toList
  items : c.items = View.spill (some op) item.merged
  isOpen : c.Open op.eager

/-- What can be written down can be written down as an item, too. -/
theorem Spells.exists_under {shown : View} (h : c.Spells shown)
    (hworded : shown.Worded) (hop : op ≠ .not)
    (hflat : View.itemsUnder op shown = [shown]) :
    ∃ d, SpellsUnder op d shown := by
  have hheading := h.heading
  rcases hworded.item_cases hop hflat with ⟨hnone, hbrackets⟩ |
    ⟨rfl, nested, rfl⟩ | ⟨inner, hinner, hsymbol, hbrackets⟩
  · rw [hnone, Option.map_none] at hheading
    refine ⟨c, ?_, ?_, ?_⟩
    · rw [hbrackets]
      exact h.text
    · rw [items_of_heading_none hheading, h.view,
        View.spill_merged_of_none hnone]
    · cases c with
      | one phrase => trivial
      | more phrase inner rest => cases hheading
  · have hxor : c.heading = some .xor := hheading
    refine ⟨c, h.text, ?_, h.isOpen _ hxor⟩
    rw [← h.view, view_of_heading_some hxor]
    rfl
  · refine ⟨.one (.brackets c), ?_, ?_, trivial⟩
    · rw [hbrackets, View.bracketedIf, if_pos rfl, Chain.text, Phrase.text,
        h.text]
      simp
    · rw [View.spill_merged_eq hinner hsymbol, ← h.view]
      rfl

/-- Several items can be written down behind each other. -/
theorem exists_spellings {items : List View}
    (h : ∀ item ∈ items, ∃ d, SpellsUnder op d item) :
    ∃ ds : List Chain,
      ds.map text =
        (View.itemReasons {} (some op) items).map String.toList ∧
      ds.flatMap Chain.items = View.mergedUnder (some op) items ∧
      ∀ d ∈ ds, d.Open op.eager := by
  induction items with
  | nil => exact ⟨[], rfl, rfl, fun d hd => nomatch hd⟩
  | cons item rest ih =>
    obtain ⟨⟨d, hd⟩, hrest⟩ := List.forall_mem_cons.1 h
    obtain ⟨ds, htext, hitems, hopen⟩ := ih hrest
    refine ⟨d :: ds, ?_, ?_, List.forall_mem_cons.2 ⟨hd.isOpen, hopen⟩⟩
    · rw [List.map_cons, htext, hd.text, View.itemReasons, List.map_cons]
    · rw [List.flatMap_cons, hitems, hd.items, View.mergedUnder]

/-- A block that is not negated can be written down if its items can. -/
theorem exists_spells_block {items : List View} (hop : op ≠ .not)
    (hseveral : 2 ≤ items.length)
    (h : ∀ item ∈ items, ∃ d, SpellsUnder op d item) :
    ∃ c, Spells c (.block false op items) := by
  obtain ⟨ds, htext, hitems, hopen⟩ := exists_spellings h
  have hlength : 2 ≤ ds.length := by
    have hmap := congrArg List.length htext
    simp only [View.itemReasons_eq, List.length_map] at hmap
    omega
  match ds with
  | [] => exact absurd hlength (by simp)
  | [d] => exact absurd hlength (by simp)
  | a :: b :: rest =>
    have heager : op.eager ≠ .not := by
      cases op <;> first | exact absurd rfl hop | decide
    have hheading : (join op.eager a (b :: rest)).heading = some op.eager :=
      heading_join (hopen a List.mem_cons_self) rest
    refine ⟨join op.eager a (b :: rest), ?_, ?_, hheading, ?_⟩
    · rw [text_join, htext, View.reason, Operator.reasonSymbol_eq,
        if_neg Bool.false_ne_true, String.toList_intercalate]
      rfl
    · rw [view_of_heading_some hheading, items_join, hitems]
      rfl
    · intro inner hinner
      obtain rfl : op.eager = inner :=
        Option.some.inj (hheading.symm.trans hinner)
      exact Open.join heager hopen

end Chain

/-- The reason of a view can be written down and read as the merged view. -/
theorem View.exists_spells {shown : View} (hworded : shown.Worded)
    (hnormal : shown.Normal) : ∃ c, Chain.Spells c shown := by
  induction hworded with
  | @lines text isName =>
    refine ⟨.one (.name ⟨text, isName⟩), ?_, rfl, rfl, fun _ h => by cases h⟩
    rw [View.reason, String.intercalate_singleton]
    rfl
  | @block negated op items parts ih =>
    cases hnormal with
    | block proper several normal flat =>
      have hitems : ∀ item ∈ items, ∃ d, Chain.SpellsUnder op d item := by
        intro item hitem
        obtain ⟨c, hc⟩ := ih item hitem (normal item hitem)
        exact hc.exists_under (parts item hitem) proper (flat item hitem)
      obtain ⟨c, hc⟩ := Chain.exists_spells_block proper several hitems
      cases negated with
      | false => exact ⟨c, hc⟩
      | true =>
        have htext := hc.text
        refine ⟨.one (.not (.brackets c)), ?_, ?_, rfl, fun _ h => by cases h⟩
        · rw [View.reason, if_neg Bool.false_ne_true] at htext
          rw [Chain.text, Phrase.text, Phrase.text, htext, View.reason,
            if_pos rfl]
          simp
        · rw [Chain.view, Phrase.view, Phrase.view, hc.view]
          rfl

/-- Views have one reason if they are one merged view. -/
theorem View.reason_eq_iff {shown shown' : View}
    (hworded : shown.Worded) (hnormal : shown.Normal)
    (hworded' : shown'.Worded) (hnormal' : shown'.Normal) :
    shown.reason {} = shown'.reason {} ↔ shown.merged = shown'.merged := by
  constructor
  · intro hreason
    obtain ⟨c, hc⟩ := exists_spells hworded hnormal
    obtain ⟨c', hc'⟩ := exists_spells hworded' hnormal'
    have htext : c.text ++ [] = c'.text ++ [] := by
      rw [hc.text, hc'.text, hreason]
    obtain ⟨rfl, -⟩ := Chain.text_inj c c' (by simp) (by simp) htext
    rw [← hc.view, hc'.view]
  · intro hmerged
    rw [← reason_merged hworded hnormal, hmerged,
      reason_merged hworded' hnormal']

/-! ## Results -/

namespace Result

variable {τ : Type}

/-- Something is printed of an operator if something is printed of one of its
causes. -/
theorem exists_view_of_cause [DecidableEq τ] {r cause : Result τ}
    {op : Operator} (hop : op ≠ .not) (hkind : r.label.kind = .applied op)
    (hcause : cause ∈ r.causes) {inner : View}
    (hinner : view cause = some inner) : ∃ shown, view r = some shown := by
  have hnormal := normal_of_view hinner
  have hbrings : View.itemsUnder op inner ≠ [] := by
    intro hnil
    have hassembled := View.assemble_itemsUnder hnormal op
    rw [hnil] at hassembled
    cases hassembled
  obtain ⟨item, hitem⟩ := List.exists_mem_of_ne_nil _ hbrings
  have hmem : item ∈ (views [] r.causes).flatMap (View.itemsUnder op) := by
    refine List.mem_flatMap.2 ⟨inner, ?_, hitem⟩
    rw [views_eq]
    refine List.mem_flatMap.2 ⟨cause, List.mem_eraseDups.2 hcause, ?_⟩
    rw [hinner]
    exact List.mem_singleton_self inner
  rw [view_applied hop hkind]
  match (views [] r.causes).flatMap (View.itemsUnder op), hmem with
  | [only], _ => exact ⟨only, rfl⟩
  | first :: second :: rest, _ => exact ⟨_, rfl⟩

/-- Predicates that state one name each, and operators over them. -/
abbrev Worded : Result τ → Prop :=
  Composed (fun declaration => ∃ text, IsName text ∧
    declaration.assertions = [text]) fun _ => True

/-- Something is printed of such a result, and it is worded, too. -/
theorem Worded.exists_view [DecidableEq τ] {r : Result τ} (h : Worded r) :
    ∃ shown, view r = some shown ∧ shown.Worded := by
  induction h with
  | @atomic place satisfied declaration declares =>
    obtain ⟨text, isName, declares⟩ := declares
    have hdeclares : declaration.assertions ≠ [] := by simp [declares]
    refine ⟨.lines [text] [], ?_, .lines isName⟩
    rw [view_of_declares (.atomic ..) hdeclares, ← declares]
    rfl
  | @applied place op operands statement style member accepts parts ih =>
    by_cases hop : op = .not
    · subst hop
      obtain ⟨operand, rfl⟩ := exists_of_accepts_not accepts
      obtain ⟨inner, hinner, hworded⟩ := ih operand List.mem_cons_self
      refine ⟨inner.flip, ?_, hworded.flip⟩
      rw [view_applied_not, hinner]
      rfl
    · have hkind : (Result.applied place op operands statement
          style).label.kind = .applied op := by rw [applied_label]
      have hcauses := causes_applied_ne_nil (ne_nil_of_accepts accepts) place
        op statement style
      obtain ⟨cause, hcause⟩ := List.exists_mem_of_ne_nil _ hcauses
      obtain ⟨inner, hinner, -⟩ := ih cause (mem_of_mem_causes_applied hcause)
      obtain ⟨shown, hshown⟩ := exists_view_of_cause hop hkind hcause hinner
      have hitems : ∀ item ∈ (views [] (Result.applied place op operands
          statement style).causes).flatMap (View.itemsUnder op),
          item.Worded := by
        intro item hitem
        obtain ⟨outer, houter, hitem⟩ := List.mem_flatMap.1 hitem
        obtain ⟨cause, hcause, hview⟩ := exists_of_mem_views houter
        obtain ⟨inner, hinner, hworded⟩ :=
          ih cause (mem_of_mem_causes_applied hcause)
        obtain rfl := Option.some.inj (hview.symm.trans hinner)
        exact hworded.of_mem_itemsUnder hitem
      refine ⟨shown, hshown, ?_⟩
      rw [view_applied hop hkind] at hshown
      exact View.of_assemble (fun _ => .block hitems) hitems hshown

/-- Results have one reason exactly if they have one merged view.  So no reason
leaves out brackets that are needed to tell two explanations apart. -/
theorem reason_unambiguous [DecidableEq τ] {r r' : Result τ}
    (h : Worded r) (h' : Worded r') :
    ∃ shown shown', view r = some shown ∧ view r' = some shown' ∧
      (r.reason {} = r'.reason {} ↔ shown.merged = shown'.merged) := by
  obtain ⟨shown, hview, hworded⟩ := h.exists_view
  obtain ⟨shown', hview', hworded'⟩ := h'.exists_view
  refine ⟨shown, shown', hview, hview', ?_⟩
  rw [reason, reason, hview, hview']
  exact View.reason_eq_iff hworded (normal_of_view hview) hworded'
    (normal_of_view hview')

/-- A switch that is on or off. -/
def switch (name : String) (place : Nat) (on : Bool) : Result String :=
  .atomic (.root place) on (.fallback name {} on)

theorem worded_switch (name : String) (place : Nat) (on : Bool)
    (h : IsName (Notation.fallbackAssertion {} name on)) :
    (switch name place on).Worded := .atomic _ _ ⟨_, h, rfl⟩

/-- Three switches are read from the left, and all of the lamp is looked
at. -/
def fromLeft : Result String :=
  combine (.root 9) .and
    (combine (.root 6) .xor
      (combine (.root 5) .xor (switch "first" 0 true)
        (switch "second" 1 false))
      (switch "third" 2 false))
    (negation (.root 8) (combine (.root 7) .or (switch "broken" 3 false)
      (switch "loose" 4 false)))

/-- They are read from the right, and the lamp is looked at as far as
needed. -/
def fromRight : Result String :=
  combine (.root 14) .andAlso
    (combine (.root 11) .xor (switch "first" 0 true)
      (combine (.root 10) .xor (switch "second" 1 false)
        (switch "third" 2 false)))
    (negation (.root 13) (combine (.root 12) .orElse (switch "broken" 3 false)
      (switch "loose" 4 false)))

/-- Both have one reason and one merged view.  No reason tells in which order
the switches are read. -/
theorem reason_unambiguous_switches :
    fromLeft.Worded ∧ fromRight.Worded ∧
      fromLeft.reason {} =
        "(first ^ ¬second ^ ¬third) & !(¬broken | ¬loose)" ∧
      fromLeft.reason {} = fromRight.reason {} ∧
      fromLeft.heading = some .and ∧ fromRight.heading = some .andAlso ∧
      ∃ shown shown', view fromLeft = some shown ∧
        view fromRight = some shown' ∧ shown.merged = shown'.merged := by
  have hfirst := worded_switch "first" 0 true (by decide)
  have hsecond := worded_switch "second" 1 false (by decide)
  have hthird := worded_switch "third" 2 false (by decide)
  have hbroken := worded_switch "broken" 3 false (by decide)
  have hloose := worded_switch "loose" 4 false (by decide)
  have hjoin {a b : Result String} (n : Nat) (op : Operator)
      (binary : op ≠ .not) (ha : a.Worded) (hb : b.Worded) :
      (combine (.root n) op a b).Worded := ha.combine hb _ trivial binary
  have hleft : fromLeft.Worded := by
    have hpair := hjoin 5 .xor (by decide) hfirst hsecond
    have hlight := hjoin 6 .xor (by decide) hpair hthird
    have hlamp := hjoin 7 .or (by decide) hbroken hloose
    exact hjoin 9 .and (by decide) hlight (hlamp.negation (.root 8) trivial)
  have hright : fromRight.Worded := by
    have hpair := hjoin 10 .xor (by decide) hsecond hthird
    have hlight := hjoin 11 .xor (by decide) hfirst hpair
    have hlamp := hjoin 12 .orElse (by decide) hbroken hloose
    exact hjoin 14 .andAlso (by decide) hlight
      (hlamp.negation (.root 13) trivial)
  have hreason : fromLeft.reason {} = fromRight.reason {} := by decide
  obtain ⟨shown, shown', hview, hview', htells⟩ :=
    reason_unambiguous hleft hright
  exact ⟨hleft, hright, by decide, hreason, by decide, by decide, shown,
    shown', hview, hview', htells.1 hreason⟩

end Result

end Rationale
