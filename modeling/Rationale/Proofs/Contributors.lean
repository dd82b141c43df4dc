import Rationale.Proofs.Reading
import Rationale.View.Justification
import Rationale.View.Reason

/-!
# Who contributes to a block

A cause that occurs twice among the causes of one node counts once.  A block
may hold the items of other blocks too, and then nobody looks for repeats
among the items of different ones.  There are four groups.

* Marked views.  `Marked` is a view in which each part keeps the result it
  comes from, and `Marked.erase` drops the marks.
* Marking.  `Result.marked` is the view of a result with marks, by
  `erase_marked`.  By `sound_of_marked`, the marks are right: each part
  comes from a result that is reached along causes.
* Contributors.  `Result.contributors` are the results whose items make up
  the block of an operator.  By `nodup_contributors_step`, there are no
  repeats among them if there are none in the blocks that merge into it and
  different causes bring different results.
* Repeats.  `contributes_once_iff` follows the merged blocks all the way
  down.  A result contributes to a block twice if and only if two different
  causes of one operator in it bring the result.
-/

namespace Rationale

/-! ## Marked views -/

/-- A view that says of each part which result it comes from. -/
inductive Marked (τ : Type) where
  /-- The assertions of the source, above its causes. -/
  | lines (source : Result τ) (children : List (Marked τ))
  /-- The items of the operator that the source applies. -/
  | block (source : Result τ) (negated : Bool) (op : Operator)
      (items : List (Marked τ))
  /-- The items that the source holds together. -/
  | group (source : Result τ) (items : List (Marked τ))

namespace Marked

variable {τ : Type}

/-- The result that the view comes from. -/
def source : Marked τ → Result τ
  | .lines source _ => source
  | .block source _ _ _ => source
  | .group source _ => source

/-- The parts one level down. -/
def parts : Marked τ → List (Marked τ)
  | .lines _ children => children
  | .block _ _ _ items => items
  | .group _ items => items

mutual

/-- The view without the marks. -/
def erase : Marked τ → View
  | .lines source children =>
    .lines source.label.assertions (eraseAll children)
  | .block _ negated op items => .block negated op (eraseAll items)
  | .group _ items => .group (eraseAll items)

/-- Several views without the marks. -/
def eraseAll : List (Marked τ) → List View
  | [] => []
  | item :: items => erase item :: eraseAll items

end

/-- The marked view under a negation. -/
def flip : Marked τ → Marked τ
  | .lines source children => .lines source children
  | .block source negated op items => .block source (!negated) op items
  | .group source items => .group source items

/-- Joins marked items into one view. -/
def assemble (wrap : List (Marked τ) → Marked τ) :
    List (Marked τ) → Option (Marked τ)
  | [] => none
  | [item] => some item
  | items => some (wrap items)

/-- The marked items that a view brings into a block of `op`. -/
def itemsUnder (op : Operator) : Marked τ → List (Marked τ)
  | .block source false inner items =>
    if op.collapsesWith inner then items else [.block source false inner items]
  | item => [item]

theorem eraseAll_eq (items : List (Marked τ)) :
    eraseAll items = items.map erase := by
  induction items with
  | nil => rfl
  | cons item rest ih => rw [eraseAll, ih, List.map_cons]

theorem erase_flip (m : Marked τ) : m.flip.erase = m.erase.flip := by
  cases m <;> rfl

theorem erase_assemble {wrap : List (Marked τ) → Marked τ}
    {plain : List View → View}
    (h : ∀ items, (wrap items).erase = plain (items.map erase))
    (items : List (Marked τ)) :
    (assemble wrap items).map erase = View.assemble plain (items.map erase) := by
  match items with
  | [] => rfl
  | [item] => rfl
  | item :: other :: rest => exact congrArg some (h _)

theorem erase_itemsUnder (op : Operator) (m : Marked τ) :
    (itemsUnder op m).map erase = View.itemsUnder op m.erase := by
  cases m with
  | lines source children => rfl
  | group source items => rfl
  | block source negated inner items =>
    cases negated with
    | true => rfl
    | false =>
      rw [itemsUnder, erase, View.itemsUnder, eraseAll_eq]
      split
      · rfl
      · rw [List.map_singleton, erase, eraseAll_eq]

/-- Whether the second view is the first one or a part of it. -/
def Within : Marked τ → Marked τ → Prop :=
  Relation.ReflTransGen fun whole part => part ∈ whole.parts

theorem within_iff {whole part : Marked τ} :
    whole.Within part ↔ part = whole ∨
      ∃ item ∈ whole.parts, item.Within part := by
  rw [Within, Relation.ReflTransGen.cases_head_iff]
  exact or_congr eq_comm Iff.rfl

/-- A negation marks the outermost block and leaves its parts alone. -/
theorem eq_or_within_of_flip {m part : Marked τ} (h : m.flip.Within part) :
    part = m.flip ∨ m.Within part := by
  have hparts : m.flip.parts = m.parts := by cases m <;> rfl
  rcases within_iff.1 h with rfl | ⟨item, hitem, hpart⟩
  · exact Or.inl rfl
  · rw [hparts] at hitem
    exact Or.inr (within_iff.2 (Or.inr ⟨item, hitem, hpart⟩))

theorem source_flip (m : Marked τ) : m.flip.source = m.source := by
  cases m <;> rfl

theorem eq_or_mem_of_assemble {wrap : List (Marked τ) → Marked τ}
    {items : List (Marked τ)} {m : Marked τ}
    (h : assemble wrap items = some m) : m = wrap items ∨ m ∈ items := by
  match items with
  | [] => cases h
  | [item] =>
    obtain rfl := Option.some.inj h
    exact Or.inr (List.mem_cons_self ..)
  | item :: other :: rest => exact Or.inl (Option.some.inj h).symm

/-- What a view brings into a block is the view or a part of it. -/
theorem within_of_mem_itemsUnder {op : Operator} {m item : Marked τ}
    (h : item ∈ itemsUnder op m) : m.Within item := by
  have hwhole (h : item ∈ [m]) : m.Within item := by
    rw [List.mem_singleton.1 h]
    exact .refl
  cases m with
  | lines source children => exact hwhole h
  | group source items => exact hwhole h
  | block source negated inner items =>
    cases negated with
    | true => exact hwhole h
    | false =>
      rw [itemsUnder] at h
      split at h
      · exact .single h
      · exact hwhole h

/-- What a view brings into a block depends on the family of the block. -/
theorem itemsUnder_eq_of_family {op inner : Operator}
    (h : op.family = inner.family) :
    itemsUnder (τ := τ) op = itemsUnder inner := by
  funext m
  cases m with
  | lines source children => rfl
  | group source items => rfl
  | block source negated other items =>
    cases negated with
    | true => rfl
    | false => rw [itemsUnder, itemsUnder, View.collapsesWith_eq_of_family h]

end Marked

/-! ## Marking -/

namespace Result

variable {τ : Type} [DecidableEq τ]

mutual

/-- The view of a result, with marks. -/
def marked : Result τ → Option (Marked τ)
  | .mk place finding operands causes =>
    let source : Result τ := .mk place finding operands causes
    match finding.kind with
    | .atomic =>
      if finding.assertions.isEmpty then none else some (.lines source [])
    | .declared =>
      if finding.assertions.isEmpty then
        Marked.assemble (.group source) (markedAll [] causes)
      else some (.lines source (markedAll [] causes))
    | .applied .not => (markedHead causes).map Marked.flip
    | .applied op =>
      Marked.assemble (.block source false op)
        ((markedAll [] causes).flatMap (Marked.itemsUnder op))

/-- The marked view of the first of several results. -/
def markedHead : List (Result τ) → Option (Marked τ)
  | [] => none
  | r :: _ => marked r

/-- The marked views of the results that are not in `seen`, each result
once. -/
def markedAll (seen : List (Result τ)) : List (Result τ) → List (Marked τ)
  | [] => []
  | r :: rs =>
    if r ∈ seen then markedAll seen rs
    else (marked r).toList ++ markedAll (r :: seen) rs

end

/-- Several results are marked one by one, each of them once. -/
theorem markedAll_eq (rs : List (Result τ)) :
    markedAll [] rs = rs.eraseDups.flatMap fun r => (marked r).toList :=
  flatMap_of_seen (g := markedAll) (fun _ => rfl) (fun _ _ _ => rfl) rs

theorem exists_of_mem_markedAll {rs : List (Result τ)} {item : Marked τ}
    (h : item ∈ markedAll [] rs) : ∃ r ∈ rs, marked r = some item := by
  rw [markedAll_eq] at h
  obtain ⟨r, hr, hitem⟩ := List.mem_flatMap.1 h
  exact ⟨r, List.mem_eraseDups.1 hr, by simpa using hitem⟩

/-- The marked items of the block of `op` over the causes of a result. -/
def markedItems (op : Operator) (r : Result τ) : List (Marked τ) :=
  (markedAll [] r.causes).flatMap (Marked.itemsUnder op)

theorem marked_applied {r : Result τ} {op : Operator} (hop : op ≠ .not)
    (hkind : r.label.kind = .applied op) :
    marked r = Marked.assemble (.block r false op) (markedItems op r) := by
  obtain ⟨place, finding, operands, causes⟩ := r
  have hkind : finding.kind = .applied op := hkind
  rw [marked, hkind]
  cases op with
  | not => exact absurd rfl hop
  | and | or | xor | andAlso | orElse => rfl

theorem erase_markedAll {rs : List (Result τ)}
    (h : ∀ r ∈ rs, (marked r).map Marked.erase = view r) :
    (markedAll [] rs).map Marked.erase = views [] rs := by
  rw [markedAll_eq, views_eq, List.map_flatMap]
  refine List.flatMap_congr fun r hr => ?_
  rw [← h r (List.mem_eraseDups.1 hr)]
  cases marked r <;> rfl

theorem erase_markedItems {r : Result τ}
    (h : (markedAll [] r.causes).map Marked.erase = views [] r.causes)
    (op : Operator) : (markedItems op r).map Marked.erase =
      (views [] r.causes).flatMap (View.itemsUnder op) := by
  rw [markedItems, ← h, List.map_flatMap, List.flatMap_map]
  exact List.flatMap_congr fun item _ => Marked.erase_itemsUnder op item

/-- Without its marks, a marked view is the view that is printed. -/
theorem erase_marked (r : Result τ) :
    (marked r).map Marked.erase = view r := by
  induction r using Node.induction_below with
  | h r ih =>
    have hviews := erase_markedAll (ih .causes)
    have hblock {op : Operator} (hop : op ≠ .not)
        (hkind : r.label.kind = .applied op) :
        (marked r).map Marked.erase = view r := by
      rw [marked_applied hop hkind, view_applied hop hkind,
        ← erase_markedItems hviews]
      refine Marked.erase_assemble (fun items => ?_) _
      rw [Marked.erase, Marked.eraseAll_eq]
    obtain ⟨place, finding, operands, causes⟩ := r
    have hviews : (markedAll [] causes).map Marked.erase = views [] causes :=
      hviews
    cases hkind : finding.kind with
    | atomic =>
      simp only [marked, view, hkind]
      split <;> rfl
    | declared =>
      simp only [marked, view, hkind]
      rw [← hviews]
      split
      · refine Marked.erase_assemble (fun items => ?_) _
        rw [Marked.erase, Marked.eraseAll_eq]
      · rw [Option.map_some, Marked.erase, Marked.eraseAll_eq]
        rfl
    | applied op =>
      by_cases hop : op = .not
      · subst hop
        simp only [marked, view, hkind]
        cases causes with
        | nil => rfl
        | cons cause rest =>
          have hcause := ih .causes cause (List.mem_cons_self ..)
          rw [markedHead, viewHead, ← hcause, Option.map_map, Option.map_map]
          exact congrArg (Option.map · (marked cause))
            (funext Marked.erase_flip)
      · exact hblock hop hkind

end Result

namespace Marked

variable {τ : Type} [DecidableEq τ] {r : Result τ} {m : Marked τ}

/-- Whether the mark of a view is right: the view states what its source
states, or holds what the causes of its source bring. -/
def Genuine : Marked τ → Prop
  | .lines source _ => source.label.assertions ≠ []
  | .block source _ op items =>
    source.label.kind = .applied op ∧ items = source.markedItems op
  | .group source items => items = Result.markedAll [] source.causes

/-- Whether every part of a view comes from a result that `r` reaches along
causes, and is marked rightly. -/
def Sound (r : Result τ) (m : Marked τ) : Prop :=
  ∀ part, m.Within part → r.Reaches .causes part.source ∧ part.Genuine

namespace Sound

theorem of_within {part : Marked τ} (h : m.Sound r) (hpart : m.Within part) :
    part.Sound r :=
  fun _ hinner => h _ (hpart.trans hinner)

/-- What comes from a cause comes from the result. -/
theorem of_cause {cause : Result τ} (h : m.Sound cause)
    (hcause : cause ∈ r.causes) : m.Sound r := by
  intro part hpart
  obtain ⟨hreach, hgenuine⟩ := h part hpart
  exact ⟨.step hcause hreach, hgenuine⟩

/-- Of a view that is new at `r`, only its own mark is to be checked. -/
theorem whole (hsource : m.source = r) (hgenuine : m.Genuine)
    (hparts : ∀ item ∈ m.parts, item.Sound r) : m.Sound r := by
  intro part hpart
  rcases within_iff.1 hpart with rfl | ⟨item, hitem, hpart⟩
  · rw [hsource]
    exact ⟨.refl, hgenuine⟩
  · exact hparts item hitem part hpart

theorem of_assemble {wrap : List (Marked τ) → Marked τ}
    {items : List (Marked τ)} (hwrap : (wrap items).Sound r)
    (hitems : ∀ item ∈ items, item.Sound r)
    (h : assemble wrap items = some m) : m.Sound r := by
  rcases eq_or_mem_of_assemble h with rfl | hm
  · exact hwrap
  · exact hitems m hm

theorem flip (h : m.Sound r) : m.flip.Sound r := by
  have hgenuine : m.flip.Genuine := by
    have := (h m .refl).2
    cases m <;> exact this
  intro part hpart
  rcases eq_or_within_of_flip hpart with rfl | hpart
  · rw [source_flip]
    exact ⟨(h m .refl).1, hgenuine⟩
  · exact h part hpart

end Sound

end Marked

namespace Result

variable {τ : Type} [DecidableEq τ]

/-- The marks are right: every part of a view comes from a result that is
reached along causes. -/
theorem sound_of_marked {r : Result τ} {m : Marked τ}
    (h : marked r = some m) : m.Sound r := by
  induction r using Node.induction_below generalizing m with
  | h r ih =>
    have hcauses : ∀ item ∈ markedAll [] r.causes, item.Sound r := by
      intro item hitem
      obtain ⟨cause, hcause, hmarked⟩ := exists_of_mem_markedAll hitem
      exact (ih .causes cause hcause hmarked).of_cause hcause
    have hblock {op : Operator} (hop : op ≠ .not)
        (hkind : r.label.kind = .applied op) : m.Sound r := by
      have hitems : ∀ item ∈ markedItems op r, item.Sound r := by
        intro item hitem
        obtain ⟨outer, houter, hitem⟩ := List.mem_flatMap.1 hitem
        exact (hcauses outer houter).of_within
          (Marked.within_of_mem_itemsUnder hitem)
      have hnew : (Marked.block r false op (markedItems op r)).Sound r :=
        .whole rfl ⟨hkind, rfl⟩ hitems
      rw [marked_applied hop hkind] at h
      exact .of_assemble hnew hitems h
    have hgroup : (Marked.group r (markedAll [] r.causes)).Sound r :=
      .whole rfl rfl hcauses
    obtain ⟨place, finding, operands, causes⟩ := r
    have hstates (hsome : ¬finding.assertions.isEmpty) :
        finding.assertions ≠ [] := by simpa using hsome
    cases hkind : finding.kind with
    | atomic =>
      simp only [marked, hkind, Option.ite_none_left_eq_some,
        Option.some.injEq] at h
      rw [← h.2]
      exact .whole rfl (hstates h.1) fun _ hitem =>
        absurd hitem List.not_mem_nil
    | declared =>
      simp only [marked, hkind] at h
      split at h
      · exact .of_assemble hgroup hcauses h
      · rename_i hsome
        rw [← Option.some.inj h]
        exact .whole rfl (hstates hsome) hcauses
    | applied op =>
      by_cases hop : op = .not
      · subst hop
        simp only [marked, hkind] at h
        obtain ⟨inner, hinner, rfl⟩ := Option.map_eq_some_iff.1 h
        cases causes with
        | nil => cases hinner
        | cons cause rest =>
          have hcause := ih .causes cause (List.mem_cons_self ..) hinner
          exact (hcause.of_cause (List.mem_cons_self ..)).flip
      · exact hblock hop hkind

/-! ## Contributors -/

/-- The results whose items a result brings into a block of `op`. -/
def brings (op : Operator) (r : Result τ) : List (Result τ) :=
  ((marked r).toList.flatMap (Marked.itemsUnder op)).map Marked.source

/-- The results whose items make up the block of `op` over the causes of a
result. -/
def contributors (op : Operator) (r : Result τ) : List (Result τ) :=
  (markedItems op r).map Marked.source

/-- Whether the second result is an operator whose block merges into the one
of the first result, which is a block of `op`. -/
def Merges (op : Operator) (r inner : Result τ) : Prop :=
  ∃ cause ∈ r.causes, ∃ other items,
    marked cause = some (.block inner false other items) ∧
      op.collapsesWith other

/-- Whether two different causes of the result bring the same into a block of
`op`. -/
def Overlaps (op : Operator) (r : Result τ) : Prop :=
  ∃ c ∈ r.causes, ∃ d ∈ r.causes, c ≠ d ∧ ∃ n ∈ brings op c, n ∈ brings op d

/-- Each cause contributes what it brings, and it does so once. -/
theorem contributors_eq (op : Operator) (r : Result τ) :
    contributors op r = r.causes.eraseDups.flatMap (brings op) := by
  rw [contributors, markedItems, markedAll_eq, List.flatMap_assoc,
    List.map_flatMap]
  rfl

theorem markedItems_eq_of_collapses {op inner : Operator}
    (h : op.collapsesWith inner) :
    markedItems (τ := τ) op = markedItems inner := by
  funext r
  rw [markedItems, markedItems,
    Marked.itemsUnder_eq_of_family (View.family_eq_of_collapses h)]

/-- A result whose block merges brings what contributes to the block. -/
theorem brings_of_merges {op other : Operator} {c inner : Result τ}
    {items : List (Marked τ)}
    (h : marked c = some (.block inner false other items))
    (hcollapses : op.collapsesWith other) :
    brings op c = contributors op inner := by
  have hitems : items = inner.markedItems other :=
    (sound_of_marked h _ .refl).2.2
  rw [brings, h, Option.toList_some, List.flatMap_singleton,
    Marked.itemsUnder, if_pos hcollapses, contributors,
    markedItems_eq_of_collapses hcollapses, ← hitems]

/-- A result brings one item at most, unless its block merges. -/
theorem nodup_or_merges (op : Operator) (c : Result τ) :
    (brings op c).Nodup ∨ ∃ inner other items,
      marked c = some (.block inner false other items) ∧
        op.collapsesWith other := by
  rw [brings]
  cases hm : marked c with
  | none => exact Or.inl List.nodup_nil
  | some m =>
    have hone (h : Marked.itemsUnder op m = [m]) :
        (((some m).toList.flatMap (Marked.itemsUnder op)).map
          Marked.source).Nodup := by
      rw [Option.toList_some, List.flatMap_singleton, h]
      exact List.nodup_singleton _
    cases m with
    | lines source children => exact Or.inl (hone rfl)
    | group source items => exact Or.inl (hone rfl)
    | block source negated other items =>
      cases negated with
      | true => exact Or.inl (hone rfl)
      | false =>
        by_cases hcollapses : op.collapsesWith other
        · exact Or.inr ⟨source, other, items, rfl, hcollapses⟩
        · exact Or.inl (hone (if_neg hcollapses))

/-- One step down: the contributors to a block are all different if its
causes bring different results, and the contributors to each block that
merges into it are. -/
theorem nodup_contributors_step (op : Operator) (r : Result τ) :
    (contributors op r).Nodup ↔ ¬Overlaps op r ∧
      ∀ inner, Merges op r inner → (contributors op inner).Nodup := by
  have hmerged : (∀ c ∈ r.causes, (brings op c).Nodup) ↔
      ∀ inner, Merges op r inner → (contributors op inner).Nodup := by
    constructor
    · rintro hbrings inner ⟨c, hc, other, items, hm, hcollapses⟩
      rw [← brings_of_merges hm hcollapses]
      exact hbrings c hc
    · intro hinner c hc
      rcases nodup_or_merges op c with hone | ⟨inner, other, items, hm, hcollapses⟩
      · exact hone
      · rw [brings_of_merges hm hcollapses]
        exact hinner inner ⟨c, hc, other, items, hm, hcollapses⟩
  have hapart : (∀ c ∈ r.causes, ∀ d ∈ r.causes, c ≠ d →
      (brings op c).Disjoint (brings op d)) ↔ ¬Overlaps op r := by
    constructor
    · rintro hapart ⟨c, hc, d, hd, hne, n, hnc, hnd⟩
      exact hapart c hc d hd hne hnc hnd
    · intro hnone c hc d hd hne n hnc hnd
      exact hnone ⟨c, hc, d, hd, hne, n, hnc, hnd⟩
  rw [contributors_eq, nodup_flatMap_eraseDups, hmerged, hapart, and_comm]

/-- All the way down: the contributors to a block are all different if and
only if no operator overlaps whose block merges into it, in any number of
steps. -/
theorem nodup_contributors_iff (op : Operator) (r : Result τ) :
    (contributors op r).Nodup ↔
      ∀ n, Relation.ReflTransGen (Merges op) r n → ¬Overlaps op n := by
  constructor
  · intro hnodup n hn
    have hdown : (contributors op n).Nodup := by
      induction hn with
      | refl => exact hnodup
      | tail _ hmerges ih =>
        exact ((nodup_contributors_step op _).1 ih).2 _ hmerges
    exact ((nodup_contributors_step op n).1 hdown).1
  · intro hnone
    induction r using Node.induction_reaches .causes with
    | h r ih =>
      refine (nodup_contributors_step op r).2
        ⟨hnone r .refl, fun inner hmerges => ?_⟩
      obtain ⟨c, hc, other, items, hm, hcollapses⟩ := id hmerges
      have hreach : c.Reaches .causes inner := (sound_of_marked hm _ .refl).1
      exact ih c hc inner hreach fun n hn => hnone n (.head hmerges hn)

/-! ## Repeats -/

/-- Whether two different causes of the result lead to one result. -/
def Shares (r : Result τ) : Prop :=
  ∃ c ∈ r.causes, ∃ d ∈ r.causes, c ≠ d ∧
    ∃ n, c.Reaches .causes n ∧ d.Reaches .causes n

/-- A result leads to what it brings into a block. -/
theorem reaches_of_mem_brings {op : Operator} {c n : Result τ}
    (h : n ∈ brings op c) : c.Reaches .causes n := by
  obtain ⟨item, hitem, rfl⟩ := List.mem_map.1 h
  obtain ⟨m, hm, hitem⟩ := List.mem_flatMap.1 hitem
  have hm : marked c = some m := by simpa using hm
  exact (sound_of_marked hm _ (Marked.within_of_mem_itemsUnder hitem)).1

theorem Overlaps.shares {op : Operator} {r : Result τ} (h : Overlaps op r) :
    Shares r := by
  obtain ⟨c, hc, d, hd, hne, n, hnc, hnd⟩ := h
  exact ⟨c, hc, d, hd, hne, n, reaches_of_mem_brings hnc,
    reaches_of_mem_brings hnd⟩

theorem Merges.reaches {op : Operator} {r inner : Result τ}
    (h : Merges op r inner) : r.Reaches .causes inner := by
  obtain ⟨c, hc, other, items, hm, -⟩ := h
  exact .step hc (sound_of_marked hm _ .refl).1

/-- What is merged into a block is reached from it. -/
theorem reaches_of_merges {op : Operator} {r n : Result τ}
    (h : Relation.ReflTransGen (Merges op) r n) : r.Reaches .causes n := by
  induction h with
  | refl => exact .refl
  | tail _ hmerges ih => exact ih.trans hmerges.reaches

/-- In every block of a justification, no result contributes twice if and
only if there is no overlap in an operator that is merged into it.  In
particular none does where nothing is shared. -/
theorem contributes_once_iff (r : Result τ) :
    (marked r).map Marked.erase = view r ∧
    ∀ m, marked r = some m → ∀ b negated op items,
      m.Within (.block b negated op items) →
        r.Reaches .causes b ∧ b.label.kind = .applied op ∧
        ((items.map Marked.source).Nodup ↔
          ∀ n, Relation.ReflTransGen (Merges op) b n → ¬Overlaps op n) ∧
        ((∀ n, b.Reaches .causes n → ¬Shares n) →
          (items.map Marked.source).Nodup) := by
  refine ⟨erase_marked r, fun m hm b negated op items hwithin => ?_⟩
  obtain ⟨hreach, hkind, hitems⟩ := sound_of_marked hm _ hwithin
  have hnodup : (items.map Marked.source).Nodup ↔
      ∀ n, Relation.ReflTransGen (Merges op) b n → ¬Overlaps op n := by
    rw [hitems]
    exact nodup_contributors_iff op b
  refine ⟨hreach, hkind, hnodup, fun hapart => ?_⟩
  refine hnodup.2 fun n hn hoverlaps => ?_
  exact hapart n (reaches_of_merges hn) hoverlaps.shares

/-- The door is open. -/
def isOpen : Result String :=
  atomic (.root 0) true (.fallback "open" {} true)

/-- The light is on. -/
def isLit : Result String :=
  atomic (.root 1) true (.fallback "lit" {} true)

/-- Both hold. -/
def openLit : Result String := combine (.root 2) .and isOpen isLit

/-- The door is asked for again, behind both. -/
def entered : Result String := combine (.root 3) .andAlso openLit isOpen

/-- The door is brought twice, by two causes of one node. -/
theorem contributes_once_iff_entered :
    ∃ items, marked entered = some (.block entered false .andAlso items) ∧
      ¬(items.map Marked.source).Nodup ∧
      ∃ n, Relation.ReflTransGen (Merges .andAlso) entered n ∧
        Overlaps .andAlso n := by
  obtain ⟨items, hm, hsources⟩ : ∃ items,
      marked entered = some (.block entered false .andAlso items) ∧
        items.map Marked.source = [isOpen, isLit, isOpen] := ⟨_, rfl, rfl⟩
  have hrepeats : ¬(items.map Marked.source).Nodup := by
    rw [hsources]
    decide
  have hiff := ((contributes_once_iff entered).2 _ hm _ _ _ _ .refl).2.2.1
  refine ⟨items, hm, hrepeats, ?_⟩
  by_contra hnone
  exact hrepeats (hiff.2 fun n hn hoverlaps => hnone ⟨n, hn, hoverlaps⟩)

/-- So it is printed twice, and once if the outer operator is the inner
one. -/
theorem entered_repeats :
    Made entered ∧
      (∃ items, marked entered = some (.block entered false .andAlso items) ∧
        items.map Marked.source = [isOpen, isLit, isOpen]) ∧
      entered.reason {} = "open & lit & open" ∧
      entered.justification {} = "AND ALSO\n  open\n  lit\n  open" ∧
      (combine (.root 3) .and openLit isOpen).justification {} =
        "AND\n  open\n  lit" := by
  have hopenLit : Made openLit :=
    .combine _ (by decide) (.atomic ..) (.atomic ..)
  exact ⟨.combine _ (by decide) hopenLit (.atomic ..), ⟨_, rfl, rfl⟩,
    by decide, by decide, by decide⟩

end Result

end Rationale
