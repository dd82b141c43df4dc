import Mathlib.Data.List.Nodup
import Mathlib.Data.List.Pairwise

/-!
# Lists without repeats

A view of a tier reads nodes without repeats and then values without
repeats, and a rendering drops other repeats than these.  What matters is
which members of a list come first: two lists read the same if they are
equal without their repeats.  There are two groups.

* Members.  `eraseDups_filter` and `eraseDups_append_congr` say that the
  first members of a list depend on the first members of its parts only.
* Reading member by member.  `flatMap_of_seen` is a reading that skips the
  members it has seen.  `eraseDups_flatMap_congr` replaces what is read off
  each member, and `eraseDups_flatMap_eraseDups` drops the members that are
  read twice.  `nodup_flatMap_eraseDups` says when nothing is left to drop.
-/

namespace Rationale

variable {α β : Type} [DecidableEq α]

/-! ## Members -/

/-- Repeats may be dropped before or after members are picked. -/
theorem eraseDups_filter (p : α → Bool) (xs : List α) :
    (xs.filter p).eraseDups = xs.eraseDups.filter p := by
  match xs with
  | [] => rfl
  | x :: rest =>
    have hlt : (rest.filter fun y => !y == x).length < (x :: rest).length :=
      Nat.lt_succ_of_le (List.length_filter_le ..)
    have ih : ((rest.filter fun y => !y == x).filter p).eraseDups =
        (rest.filter fun y => !y == x).eraseDups.filter p :=
      eraseDups_filter p _
    rw [List.eraseDups_cons]
    by_cases hx : p x
    · rw [List.filter_cons_of_pos hx, List.filter_cons_of_pos hx,
        List.eraseDups_cons, List.filter_comm, ih]
    · -- No member that is picked is `x`, so none of its repeats matter.
      have hpicked : (rest.filter fun y => !y == x).filter p =
          rest.filter p := by
        rw [List.filter_filter]
        refine List.filter_congr fun y _ => ?_
        by_cases hy : y = x
        · simp [hy, hx]
        · simp [hy]
      rw [List.filter_cons_of_neg hx, List.filter_cons_of_neg hx, ← ih,
        hpicked]
termination_by xs.length
decreasing_by exact hlt

theorem eraseDups_eq_nil_iff {xs : List α} : xs.eraseDups = [] ↔ xs = [] := by
  simp only [List.eq_nil_iff_forall_not_mem, List.mem_eraseDups]

/-- What is left of a list depends on the members of the other one. -/
theorem removeAll_congr {as as' : List α} (h : ∀ a, a ∈ as ↔ a ∈ as')
    (bs : List α) : bs.removeAll as = bs.removeAll as' := by
  rw [List.removeAll, List.removeAll]
  refine List.filter_congr fun b _ => ?_
  rw [List.elem_eq_mem, List.elem_eq_mem, decide_eq_decide.2 (h b)]

/-- The first members of two lists depend on the first members of each. -/
theorem eraseDups_append_congr {as as' bs bs' : List α}
    (has : as.eraseDups = as'.eraseDups)
    (hbs : bs.eraseDups = bs'.eraseDups) :
    (as ++ bs).eraseDups = (as' ++ bs').eraseDups := by
  have hmem (a : α) : a ∈ as ↔ a ∈ as' := by
    rw [← List.mem_eraseDups, has, List.mem_eraseDups]
  have hrest : (bs.removeAll as).eraseDups = (bs'.removeAll as').eraseDups := by
    rw [removeAll_congr hmem, List.removeAll, List.removeAll,
      eraseDups_filter, hbs, eraseDups_filter]
  rw [List.eraseDups_append, List.eraseDups_append, has, hrest]

/-! ## Reading member by member -/

/-- Skipping the members that were seen is reading each member once. -/
theorem flatMap_of_seen [∀ (x : α) (xs : List α), Decidable (x ∈ xs)]
    {f : α → List β} {g : List α → List α → List β}
    (nil : ∀ seen, g seen [] = [])
    (cons : ∀ seen x rest, g seen (x :: rest) =
      if x ∈ seen then g seen rest else f x ++ g (x :: seen) rest)
    (xs : List α) : g [] xs = xs.eraseDups.flatMap f := by
  have hseen (seen : List α) :
      g seen xs = (xs.filter fun x => x ∉ seen).eraseDups.flatMap f := by
    induction xs generalizing seen with
    | nil => exact nil seen
    | cons x rest ih =>
      rw [cons]
      split
      · rename_i hmem
        rw [ih, List.filter_cons_of_neg (by simpa using hmem)]
      · rename_i hnew
        have hsplit : (rest.filter fun other => other ∉ x :: seen) =
            (rest.filter fun other => other ∉ seen).filter
              fun other => !other == x := by
          rw [List.filter_filter]
          refine List.filter_congr fun other _ => ?_
          by_cases hother : other = x
          · simp [hother]
          · simp [hother]
        rw [ih, List.filter_cons_of_pos (by simpa using hnew),
          List.eraseDups_cons, List.flatMap_cons, hsplit]
  have hall : (xs.filter fun x => x ∉ ([] : List α)) = xs :=
    List.filter_eq_self.2 (by simp)
  rw [hseen, hall]

/-- What is read off each member may be replaced by what has the same first
members. -/
theorem eraseDups_flatMap_congr {f g : β → List α} {xs : List β}
    (h : ∀ x ∈ xs, (f x).eraseDups = (g x).eraseDups) :
    (xs.flatMap f).eraseDups = (xs.flatMap g).eraseDups := by
  induction xs with
  | nil => rfl
  | cons x rest ih =>
    rw [List.flatMap_cons, List.flatMap_cons]
    exact eraseDups_append_congr (h x (List.mem_cons_self ..))
      (ih fun y hy => h y (List.mem_cons_of_mem _ hy))

variable [DecidableEq β]

/-- Behind a member its repeats add nothing. -/
theorem eraseDups_flatMap_filter (f : β → List α) (x : β) (rest : List β) :
    (f x ++ (rest.filter fun y => !y == x).flatMap f).eraseDups =
      (f x ++ rest.flatMap f).eraseDups := by
  have hrest : ((rest.filter fun y => !y == x).flatMap f).removeAll (f x) =
      (rest.flatMap f).removeAll (f x) := by
    rw [List.removeAll, List.removeAll]
    induction rest with
    | nil => rfl
    | cons y rest ih =>
      by_cases hy : y = x
      · subst hy
        have hnone : (f y).filter (fun a => !List.elem a (f y)) = [] :=
          List.filter_eq_nil_iff.2 fun a ha => by simp [ha]
        rw [List.filter_cons_of_neg (by simp), ih, List.flatMap_cons,
          List.filter_append, hnone, List.nil_append]
      · rw [List.filter_cons_of_pos (by simp [hy]), List.flatMap_cons,
          List.flatMap_cons, List.filter_append, List.filter_append, ih]
  rw [List.eraseDups_append, List.eraseDups_append, hrest]

/-- Members that are read twice may be dropped. -/
theorem eraseDups_flatMap_eraseDups (f : β → List α) (xs : List β) :
    (xs.eraseDups.flatMap f).eraseDups = (xs.flatMap f).eraseDups := by
  match xs with
  | [] => rfl
  | x :: rest =>
    have hlt : (rest.filter fun y => !y == x).length < (x :: rest).length :=
      Nat.lt_succ_of_le (List.length_filter_le ..)
    rw [List.eraseDups_cons, List.flatMap_cons, List.flatMap_cons,
      eraseDups_append_congr rfl (eraseDups_flatMap_eraseDups f _),
      eraseDups_flatMap_filter]
termination_by xs.length
decreasing_by exact hlt

theorem nodup_eraseDups (xs : List β) : xs.eraseDups.Nodup := by
  match xs with
  | [] => exact List.nodup_nil
  | x :: rest =>
    have hlt : (rest.filter fun y => !y == x).length < (x :: rest).length :=
      Nat.lt_succ_of_le (List.length_filter_le ..)
    rw [List.eraseDups_cons, List.nodup_cons]
    exact ⟨by simp [List.mem_eraseDups], nodup_eraseDups _⟩
termination_by xs.length
decreasing_by exact hlt

/-- Without repeats there are none to drop. -/
theorem eraseDups_eq_self {xs : List β} (h : xs.Nodup) : xs.eraseDups = xs := by
  induction xs with
  | nil => rfl
  | cons x rest ih =>
    obtain ⟨hx, hrest⟩ := List.nodup_cons.1 h
    have hself : (rest.filter fun y => !y == x) = rest := by
      refine List.filter_eq_self.2 fun y hy => ?_
      have hne : y ≠ x := fun heq => hx (heq ▸ hy)
      simpa using hne
    rw [List.eraseDups_cons, hself, ih hrest]

theorem eraseDups_eraseDups (xs : List β) :
    xs.eraseDups.eraseDups = xs.eraseDups :=
  eraseDups_eq_self (nodup_eraseDups xs)

omit [DecidableEq α] in
/-- There are no repeats in what is read off the members, each of them once,
if no member is read with repeats and different members have nothing in
common. -/
theorem nodup_flatMap_eraseDups {f : β → List α} {xs : List β} :
    (xs.eraseDups.flatMap f).Nodup ↔ (∀ x ∈ xs, (f x).Nodup) ∧
      ∀ x ∈ xs, ∀ y ∈ xs, x ≠ y → (f x).Disjoint (f y) := by
  rw [List.nodup_flatMap]
  simp only [List.mem_eraseDups]
  refine and_congr_right fun _ => ⟨fun hapart => ?_, fun hapart => ?_⟩
  · have : Std.Symm (Function.onFun List.Disjoint f) :=
      ⟨fun _ _ hxy => List.disjoint_symm hxy⟩
    intro x hx y hy hne
    exact hapart.forall (List.mem_eraseDups.2 hx) (List.mem_eraseDups.2 hy) hne
  · refine (nodup_eraseDups xs).pairwise_of_forall_ne fun x hx y hy hne => ?_
    exact hapart x (List.mem_eraseDups.1 hx) y (List.mem_eraseDups.1 hy) hne

end Rationale
