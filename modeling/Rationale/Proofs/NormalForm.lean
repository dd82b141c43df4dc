import Mathlib.Data.List.TakeWhile
import Rationale.Proofs.Contributors
import Rationale.Proofs.Evidence

/-!
# What the normal form is worth

`View.Normal` is an invariant of the builder: it says what is wrapped up, and
it speaks of `itemsUnder`, which is a step of the builder.  This module says
what a reader has of it, node by node and line by line.  There are three
groups.

* Nodes.  `View.InForm` looks at one node of a view and the items right below
  it.  Every node of a normal view is in form.
* Exclusive disjunctions.  They take up no items of other blocks, so the
  items of such a block are the views of the causes, one by one.
* Lines.  `Headed` says of a list of lines that each header has two lines or
  more one level below it.  `View.Normal.headed` goes by induction on the
  view.  A header sees the lines behind it up to the next line of its own
  level, and `Headed.append` says that lines further down do no harm.
-/

namespace Rationale

namespace View

/-! ## Nodes -/

/-- The views right below. -/
def parts : View → List View
  | .lines _ children => children
  | .block _ _ items => items
  | .group items => items

/-- Whether the second view is the first one or a part of it. -/
def Within : View → View → Prop :=
  Relation.ReflTransGen fun whole part => part ∈ whole.parts

/-- Whether a node of a view is in form.  Something is stated and items are
several, no block belongs to a negation, and one of conjunctions or of
disjunctions holds no other one of its family unless that is negated. -/
def InForm : View → Prop
  | .lines assertions _ => assertions ≠ []
  | .group items => 2 ≤ items.length
  | .block _ op items =>
    op ≠ .not ∧ 2 ≤ items.length ∧
      (op.family = .conjunction ∨ op.family = .disjunction →
        ∀ inner nested, .block false inner nested ∈ items →
          inner.family ≠ op.family)

theorem collapsesWith_of_family {op inner : Operator}
    (hop : op.family = .conjunction ∨ op.family = .disjunction)
    (h : inner.family = op.family) : op.collapsesWith inner := by
  rw [Operator.collapsesWith, h]
  rcases hop with hop | hop <;> simp [hop]

/-- A block that would merge is not what it brings. -/
theorem not_collapsesWith_of_itemsUnder {op inner : Operator}
    {nested : List View}
    (h : itemsUnder op (.block false inner nested) =
      [.block false inner nested]) : ¬op.collapsesWith inner := by
  intro hcollapses
  rw [itemsUnder, if_pos hcollapses] at h
  have hmem : .block false inner nested ∈ [block false inner nested] :=
    List.mem_singleton_self _
  rw [← h] at hmem
  exact lt_irrefl _ ((sizeOf_lt_of_mem hmem).2.1 false inner)

theorem Normal.inForm {view : View} (h : view.Normal) : view.InForm := by
  cases h with
  | lines stated normal => exact stated
  | group several normal => exact several
  | block proper several normal flat =>
    refine ⟨proper, several, fun hop inner nested hmem hfamily => ?_⟩
    exact not_collapsesWith_of_itemsUnder (flat _ hmem)
      (collapsesWith_of_family hop hfamily)

theorem Normal.of_within {whole part : View} (h : whole.Normal)
    (hpart : whole.Within part) : part.Normal := by
  induction hpart with
  | refl => exact h
  | tail hwithin hmem ih =>
    cases ih with
    | lines stated normal => exact normal _ hmem
    | group several normal => exact normal _ hmem
    | block proper several normal flat => exact normal _ hmem

end View

/-! ## Exclusive disjunctions -/

namespace Marked

variable {τ : Type}

theorem parts_erase (m : Marked τ) : m.erase.parts = m.parts.map erase := by
  cases m <;> exact eraseAll_eq _

/-- Each part of a view can be marked. -/
theorem exists_of_within_erase {m : Marked τ} {part : View}
    (h : m.erase.Within part) : ∃ n, m.Within n ∧ n.erase = part := by
  induction h with
  | refl => exact ⟨m, .refl, rfl⟩
  | tail hwithin hmem ih =>
    obtain ⟨n, hn, rfl⟩ := ih
    rw [parts_erase] at hmem
    obtain ⟨item, hitem, rfl⟩ := List.mem_map.1 hmem
    exact ⟨item, hn.tail hitem, rfl⟩

end Marked

namespace Result

variable {τ : Type} [DecidableEq τ]

/-- A block holds what the causes of one result bring into it. -/
theorem exists_of_within_block {r : Result τ} {shown : View}
    (hview : view r = some shown) {negated : Bool} {op : Operator}
    {items : List View} (hblock : shown.Within (.block negated op items)) :
    ∃ n, r.Reaches .causes n ∧ n.label.kind = .applied op ∧
      items = (views [] n.causes).flatMap (View.itemsUnder op) := by
  rw [← erase_marked] at hview
  obtain ⟨m, hm, rfl⟩ := Option.map_eq_some_iff.1 hview
  obtain ⟨part, hpart, herase⟩ := Marked.exists_of_within_erase hblock
  cases part with
  | lines source children => cases herase
  | group source items => cases herase
  | block n inverted inner marked =>
    rw [Marked.erase, Marked.eraseAll_eq] at herase
    injection herase with _ hop hitems
    subst hop
    obtain ⟨hreach, hkind, hmarked⟩ := sound_of_marked hm _ hpart
    refine ⟨n, hreach, hkind, ?_⟩
    have hviews : (markedAll [] n.causes).map Marked.erase =
        views [] n.causes := erase_markedAll fun cause _ => erase_marked cause
    rw [← hitems, hmarked]
    exact erase_markedItems hviews _

end Result

theorem View.itemsUnder_xor (view : View) : itemsUnder .xor view = [view] := by
  cases view with
  | lines assertions children => rfl
  | group items => rfl
  | block negated inner items =>
    cases negated with
    | true => rfl
    | false => rfl

/-! ## Lines -/

namespace Entry

/-- The nesting level of the entry. -/
def depth : Entry → Nat
  | .assertion depth _ => depth
  | .header depth _ _ => depth

/-- How many of the entries are at a nesting level. -/
def countAt (depth : Nat) (entries : List Entry) : Nat :=
  entries.countP fun entry => entry.depth = depth

/-- The entries up to the first one at the nesting level or above it. -/
def under (depth : Nat) (entries : List Entry) : List Entry :=
  entries.takeWhile fun entry => depth < entry.depth

/-- What is behind some entries takes nothing away below them. -/
theorem countAt_under_append (level depth : Nat)
    (entries others : List Entry) :
    countAt level (under depth entries) ≤
      countAt level (under depth (entries ++ others)) := by
  have hprefix : under depth entries <+: under depth (entries ++ others) := by
    rw [under, under, List.takeWhile_append]
    split
    · rename_i hall
      rw [(List.takeWhile_prefix _).eq_of_length hall]
      exact List.prefix_append ..
    · exact List.prefix_rfl
  exact hprefix.sublist.countP_le

end Entry

open Entry (countAt under countAt_under_append)

/-- Whether below each header there are two entries or more one level
deeper. -/
def Headed : List Entry → Prop
  | [] => True
  | .assertion _ _ :: after => Headed after
  | .header depth _ _ :: after =>
    2 ≤ countAt (depth + 1) (under depth after) ∧ Headed after

namespace Headed

theorem append {entries others : List Entry} (h : Headed entries)
    (hothers : Headed others) : Headed (entries ++ others) := by
  induction entries with
  | nil => exact hothers
  | cons entry after ih =>
    cases entry with
    | assertion depth text => exact ih h
    | header depth negated op =>
      have hmore := countAt_under_append (depth + 1) depth after others
      exact ⟨h.1.trans hmore, ih h.2⟩

theorem assertions (depth : Nat) (texts : List String) :
    Headed (texts.map (Entry.assertion depth)) := by
  induction texts with
  | nil => trivial
  | cons text rest ih => exact ih

theorem flatMap {items : List View} {read : View → List Entry}
    (h : ∀ item ∈ items, Headed (read item)) : Headed (items.flatMap read) := by
  induction items with
  | nil => trivial
  | cons item rest ih =>
    obtain ⟨hitem, hrest⟩ := List.forall_mem_cons.1 h
    exact hitem.append (ih hrest)

/-- Below a header that is found among the entries there are two entries. -/
theorem of_split {entries before after : List Entry} {depth : Nat}
    {negated : Bool} {op : Operator} (h : Headed entries)
    (hsplit : entries = before ++ .header depth negated op :: after) :
    2 ≤ countAt (depth + 1) (under depth after) := by
  subst hsplit
  induction before with
  | nil => exact h.1
  | cons entry before ih =>
    cases entry with
    | assertion level text => exact ih h
    | header level inverted outer => exact ih h.2

end Headed

namespace View

theorem mem_entriesAll {items : List View} {depth : Nat} {entry : Entry} :
    entry ∈ entriesAll depth items ↔
      ∃ item ∈ items, entry ∈ entries depth item := by
  rw [entriesAll_eq, List.mem_flatMap]

/-- A view is printed at its nesting level and below. -/
theorem le_depth_of_mem_entries {view : View} {depth : Nat} {entry : Entry}
    (h : entry ∈ entries depth view) : depth ≤ entry.depth := by
  induction view using induction_items generalizing depth with
  | lines assertions children ih =>
    rw [entries, List.mem_append, mem_entriesAll] at h
    rcases h with h | ⟨child, hchild, h⟩
    · obtain ⟨text, -, rfl⟩ := List.mem_map.1 h
      exact le_rfl
    · have := ih child hchild h
      omega
  | block negated op items ih =>
    rw [entries, List.mem_cons, mem_entriesAll] at h
    rcases h with rfl | ⟨item, hitem, h⟩
    · exact le_rfl
    · have := ih item hitem h
      omega
  | group items ih =>
    rw [entries, mem_entriesAll] at h
    obtain ⟨item, hitem, h⟩ := h
    exact ih item hitem h

/-- Where each item prints something at a level, all of them print as many
entries there as there are items, or more. -/
theorem length_le_countAt {items : List View} {depth : Nat}
    (h : ∀ item ∈ items, 1 ≤ countAt depth (entries depth item)) :
    items.length ≤ countAt depth (entriesAll depth items) := by
  induction items with
  | nil => exact le_rfl
  | cons item rest ih =>
    obtain ⟨hitem, hrest⟩ := List.forall_mem_cons.1 h
    have hle := ih hrest
    rw [countAt] at hitem hle
    rw [entriesAll, countAt, List.countP_append, List.length_cons]
    omega

namespace Normal

/-- A normal view prints something at its own level. -/
theorem countAt_pos {view : View} (h : view.Normal) (depth : Nat) :
    1 ≤ countAt depth (entries depth view) := by
  induction h with
  | @lines assertions children stated normal ih =>
    obtain ⟨text, rest, rfl⟩ := List.exists_cons_of_ne_nil stated
    refine List.countP_pos_iff.2 ⟨.assertion depth text, ?_, ?_⟩
    · simp [entries]
    · simp [Entry.depth]
  | @group items several normal ih =>
    have hle := length_le_countAt ih
    rw [entries]
    omega
  | @block negated op items proper several normal flat ih =>
    refine List.countP_pos_iff.2 ⟨.header depth negated op, ?_, ?_⟩
    · simp [entries]
    · simp [Entry.depth]

/-- Below the header of a normal view there are two entries or more one level
deeper, since each item prints one. -/
theorem headed {view : View} (h : view.Normal) (depth : Nat) :
    Headed (entries depth view) := by
  induction h generalizing depth with
  | @lines assertions children stated normal ih =>
    rw [entries, entriesAll_eq]
    exact (Headed.assertions ..).append (.flatMap fun child hchild =>
      ih child hchild _)
  | @group items several normal ih =>
    rw [entries, entriesAll_eq]
    exact .flatMap fun item hitem => ih item hitem _
  | @block negated op items proper several normal flat ih =>
    -- All that is printed behind the header is deeper, so it sees all of it.
    have hdeeper : under depth (entriesAll (depth + 1) items) =
        entriesAll (depth + 1) items := by
      refine List.takeWhile_eq_self_iff.2 fun entry hentry => ?_
      obtain ⟨item, -, hentry⟩ := mem_entriesAll.1 hentry
      exact decide_eq_true (le_depth_of_mem_entries hentry)
    have hitems : items.length ≤
        countAt (depth + 1) (entriesAll (depth + 1) items) :=
      length_le_countAt fun item hitem => (normal item hitem).countAt_pos _
    rw [entries]
    refine ⟨?_, ?_⟩
    · rw [hdeeper]
      omega
    · rw [entriesAll_eq]
      exact .flatMap fun item hitem => ih item hitem _

end Normal

end View

namespace Result

variable {τ : Type} [DecidableEq τ]

theorem headed_entries (r : Result τ) : Headed r.entries := by
  rw [entries, read]
  refine .flatMap fun shown hshown => ?_
  exact (normal_of_view (by simpa using hshown)).headed 0

/-- Every view is in normal form, whatever the result is: all its nodes are
in form, and the items of an exclusive disjunction are the views of the
causes of one result.  So in a justification, which is printed line by line
from the entries, each header is followed by two lines or more that are one
level deeper, before there is a line of its own level or above. -/
theorem view_normal_form (r : Result τ) :
    (∀ shown, view r = some shown → ∀ part, shown.Within part →
      part.InForm ∧
      ∀ negated items, part = .block negated .xor items →
        ∃ n, r.Reaches .causes n ∧ n.label.kind = .applied .xor ∧
          items = views [] n.causes) ∧
    (∀ style, r.justification style = "\n".intercalate
      (r.entries.map fun entry =>
        (entry.line style.notSymbol).render style)) ∧
    ∀ before depth negated op after,
      r.entries = before ++ .header depth negated op :: after →
        2 ≤ countAt (depth + 1) (under depth after) := by
  refine ⟨fun shown hview part hpart => ⟨?_, ?_⟩, fun style => ?_, ?_⟩
  · exact ((normal_of_view hview).of_within hpart).inForm
  · rintro negated items rfl
    obtain ⟨n, hreach, hkind, hitems⟩ := exists_of_within_block hview hpart
    refine ⟨n, hreach, hkind, ?_⟩
    rw [hitems, funext View.itemsUnder_xor]
    exact List.flatMap_singleton' _
  · rw [justification, outline_eq, List.map_map]
    rfl
  · intro before depth negated op after hsplit
    exact r.headed_entries.of_split hsplit

/-- Somebody is in, and nobody is out. -/
def present : Result String :=
  combine (.root 5) .xor (atomic (.root 3) true (.fallback "in" {} true))
    (atomic (.root 4) false (.fallback "out" {} false))

/-- The door is open and the light is on, which is denied twice, and it is
known who is in. -/
def welcoming : Result String :=
  combine (.root 9) .and
    (negation (.root 7) (negation (.root 6)
      (combine (.root 2) .andAlso isOpen isLit)))
    (ofPositions (.root 8)
      { Declaration.forwarding "known" {} with
        satisfied := true, kind := .declared } [present] [0])

/-- The conjunction that is denied twice merges into the other one, and the
exclusive disjunction stays apart. -/
theorem view_normal_form_welcoming :
    ∃ first second third items,
      view welcoming = some (.block false .and
        [first, second, .block false .xor (third :: items)]) ∧
      (View.block false .xor (third :: items)).InForm ∧
      (∃ n, welcoming.Reaches .causes n ∧ n.label.kind = .applied .xor ∧
        third :: items = views [] n.causes) ∧
      ∃ after, welcoming.entries = .header 0 false .and :: after ∧
        2 ≤ countAt 1 (under 0 after) ∧
        welcoming.justification {} =
          "AND\n  open\n  lit\n  XOR\n    in\n    ¬out" := by
  have hform := view_normal_form welcoming
  obtain ⟨first, second, third, items, hview⟩ : ∃ first second third items,
      view welcoming = some (.block false .and
        [first, second, .block false .xor (third :: items)]) :=
    ⟨_, _, _, _, rfl⟩
  obtain ⟨after, hsplit⟩ : ∃ after,
      welcoming.entries = .header 0 false .and :: after := ⟨_, rfl⟩
  obtain ⟨hinner, hxor⟩ := hform.1 _ hview (.block false .xor (third :: items))
    (.single (by simp [View.parts]))
  exact ⟨first, second, third, items, hview, hinner, hxor _ _ rfl, after,
    hsplit, hform.2.2 [] 0 _ _ after hsplit, by decide⟩

end Result

end Rationale
