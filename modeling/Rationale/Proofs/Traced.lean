import Mathlib.Data.List.Forall2
import Mathlib.Order.Basic
import Rationale.Traced

/-!
# Runs of traced computations

What a sequence of computations leaves behind and answers.  There are two
groups.

* One computation after another.  `bind_of_ok` and `bind_of_error` are the
  two cases, and `bind_eq_ok_iff` takes a successful sequence apart.
* A run over a list.  `upTo` is the part of a list that a run reaches, and
  `Traced.ends` says at which member it stops: at a failure, or at an
  answer that asks for it.  `runUntil_notes` and `runUntil_eq_ok_iff` say
  that a run is all there is to the members it reaches.
-/

namespace Rationale

/-- The members of a list up to and including the first one that stops. -/
def upTo {ι : Type} (stop : ι → Bool) : List ι → List ι
  | [] => []
  | i :: rest => if stop i then [i] else i :: upTo stop rest

section UpTo

variable {ι κ : Type} {stop : ι → Bool}

/-- Where nothing stops, every member is reached. -/
theorem upTo_eq_self {xs : List ι} (h : ∀ i ∈ xs, stop i = false) :
    upTo stop xs = xs := by
  induction xs with
  | nil => rfl
  | cons i rest ih =>
    rw [upTo, h i (List.mem_cons_self ..), if_neg Bool.false_ne_true,
      ih fun j hj => h j (List.mem_cons_of_mem _ hj)]

/-- Where nothing that is reached stops, every member is reached. -/
theorem upTo_eq_self_of_reached {xs : List ι}
    (h : ∀ i ∈ upTo stop xs, stop i = false) : upTo stop xs = xs := by
  induction xs with
  | nil => rfl
  | cons i rest ih =>
    have hi : stop i = false := by
      apply h
      rw [upTo]
      split <;> exact List.mem_cons_self ..
    rw [upTo, hi, if_neg Bool.false_ne_true] at h ⊢
    rw [ih fun j hj => h j (List.mem_cons_of_mem _ hj)]

/-- A first member is always reached. -/
theorem length_upTo_pos (stop : ι → Bool) {xs : List ι} (h : xs ≠ []) :
    0 < (upTo stop xs).length := by
  cases xs with
  | nil => exact absurd rfl h
  | cons i rest =>
    rw [upTo]
    split <;> simp

/-- The members that are reached come first. -/
theorem upTo_isPrefix (stop : ι → Bool) (xs : List ι) :
    upTo stop xs <+: xs := by
  induction xs with
  | nil => exact List.prefix_refl _
  | cons i rest ih =>
    rw [upTo]
    split
    · exact ⟨rest, rfl⟩
    · exact (List.prefix_cons_inj i).2 ih

/-- Where something stops, it is the last thing that is reached, and nothing
before it stops. -/
theorem exists_upTo_eq_concat {xs : List ι} (h : xs.any stop) :
    ∃ before last, upTo stop xs = before ++ [last] ∧ stop last ∧
      ∀ x ∈ before, stop x = false := by
  induction xs with
  | nil => cases h
  | cons x rest ih =>
    rw [upTo]
    by_cases hx : stop x
    · exact ⟨[], x, if_pos hx, hx, fun _ hmem => absurd hmem List.not_mem_nil⟩
    · rw [List.any_cons, Bool.eq_false_iff.2 hx, Bool.false_or] at h
      obtain ⟨before, last, hupTo, hlast, hbefore⟩ := ih h
      refine ⟨x :: before, last, ?_, hlast, ?_⟩
      · rw [if_neg hx, hupTo, List.cons_append]
      · exact List.forall_mem_cons.2 ⟨Bool.eq_false_iff.2 hx, hbefore⟩

/-- Nothing behind a member that stops is reached. -/
theorem le_of_mem_upTo [Preorder ι] {xs : List ι} {i j : ι}
    (hxs : xs.Pairwise (· < ·)) (hi : i ∈ xs) (hstop : stop i)
    (hj : j ∈ upTo stop xs) : j ≤ i := by
  induction xs with
  | nil => cases hj
  | cons k rest ih =>
    obtain ⟨hk, hrest⟩ := List.pairwise_cons.1 hxs
    have hki : k ≤ i := by
      rcases List.mem_cons.1 hi with rfl | hi
      · exact le_refl _
      · exact (hk i hi).le
    rw [upTo] at hj
    split at hj
    · rw [List.mem_singleton.1 hj]
      exact hki
    · rename_i hgoes
      rcases List.mem_cons.1 hj with rfl | hj
      · exact hki
      · rcases List.mem_cons.1 hi with rfl | hi
        · exact absurd hstop hgoes
        · exact ih hrest hi hj

/-- What is reached of what is reached is all of it. -/
theorem upTo_upTo (stop : ι → Bool) (xs : List ι) :
    upTo stop (upTo stop xs) = upTo stop xs := by
  induction xs with
  | nil => rfl
  | cons i rest ih =>
    by_cases h : stop i
    · simp [upTo, h]
    · simp [upTo, h, ih]

/-- A map can be done before or after. -/
theorem upTo_map (f : κ → ι) (stop : ι → Bool) (xs : List κ) :
    upTo stop (xs.map f) = (upTo (stop ∘ f) xs).map f := by
  induction xs with
  | nil => rfl
  | cons i rest ih =>
    rw [List.map_cons, upTo, upTo, ih]
    by_cases h : stop (f i)
    · simp [h]
    · simp [h]

/-- A list goes on behind another one unless that one stops. -/
theorem upTo_append (stop : ι → Bool) (xs ys : List ι) :
    upTo stop (xs ++ ys) =
      if xs.any stop then upTo stop xs else xs ++ upTo stop ys := by
  induction xs with
  | nil => rfl
  | cons i rest ih =>
    rw [List.cons_append, upTo, upTo, ih, List.any_cons]
    by_cases h : stop i
    · simp [h]
    · by_cases hr : rest.any stop
      · simp [h, hr]
      · simp [h, hr]

end UpTo

namespace Traced

variable {ν ε α β γ : Type} {ι : Type}

/-! ## One computation after another -/

/-- After an answer the second computation is run. -/
theorem bind_of_ok {x : Traced ν ε α} {a : α} (h : x.outcome = .ok a)
    (f : α → Traced ν ε β) :
    x >>= f = ⟨x.notes ++ (f a).notes, (f a).outcome⟩ := by
  obtain ⟨notes, outcome⟩ := x
  cases h
  rfl

/-- After a failure nothing is run. -/
theorem bind_of_error {x : Traced ν ε α} {e : ε} (h : x.outcome = .error e)
    (f : α → Traced ν ε β) : x >>= f = ⟨x.notes, .error e⟩ := by
  obtain ⟨notes, outcome⟩ := x
  cases h
  rfl

/-- A sequence answers when both of its parts do. -/
theorem bind_eq_ok_iff {x : Traced ν ε α} {f : α → Traced ν ε β} {b : β} :
    (x >>= f).outcome = .ok b ↔
      ∃ a, x.outcome = .ok a ∧ (f a).outcome = .ok b := by
  cases hx : x.outcome with
  | ok a => simp [bind_of_ok hx]
  | error e => simp [bind_of_error hx]

/-- The second computation leaves notes if the first one answers. -/
theorem bind_notes (x : Traced ν ε α) (f : α → Traced ν ε β) :
    (x >>= f).notes = x.notes ++
      match x.outcome with
      | .ok a => (f a).notes
      | .error _ => [] := by
  cases hx : x.outcome with
  | ok a => rw [bind_of_ok hx]
  | error e => rw [bind_of_error hx, List.append_nil]

/-- A computation that leaves no notes can be left out of the notes. -/
theorem bind_notes_of_nil {x : Traced ν ε α} {f : α → Traced ν ε β}
    (h : ∀ a, (f a).notes = []) : (x >>= f).notes = x.notes := by
  cases hx : x.outcome with
  | ok a => rw [bind_of_ok hx, h a, List.append_nil]
  | error e => rw [bind_of_error hx]

@[simp]
theorem pure_outcome (a : α) : (pure a : Traced ν ε α).outcome = .ok a := rfl

@[simp]
theorem pure_notes (a : α) : (pure a : Traced ν ε α).notes = [] := rfl

/-- What is made of an answer leaves no notes. -/
theorem bind_pure_eq (x : Traced ν ε α) (f : α → β) :
    (x >>= fun a => pure (f a)) = ⟨x.notes, x.outcome.map f⟩ := by
  cases hx : x.outcome with
  | ok a =>
    rw [bind_of_ok hx, pure_notes, List.append_nil]
    rfl
  | error e =>
    rw [bind_of_error hx]
    rfl

/-! ## A run over a list -/

/-- Whether a run is over after a computation. -/
def ends (stop : β → Bool) (x : Traced ν ε β) : Bool :=
  match x.outcome with
  | .ok b => stop b
  | .error _ => true

theorem ends_of_ok {stop : β → Bool} {x : Traced ν ε β} {b : β}
    (h : x.outcome = .ok b) : x.ends stop = stop b := by
  rw [ends, h]

theorem ends_of_error {stop : β → Bool} {x : Traced ν ε β} {e : ε}
    (h : x.outcome = .error e) : x.ends stop = true := by
  rw [ends, h]

variable (stop : β → Bool) (run : ι → Traced ν ε β)

@[simp]
theorem runUntil_nil : runUntil stop run [] = pure [] := rfl

/-- The first step of a run. -/
theorem runUntil_cons (i : ι) (rest : List ι) :
    runUntil stop run (i :: rest) = run i >>= fun b =>
      if stop b then pure [b]
      else runUntil stop run rest >>= fun bs => pure (b :: bs) := rfl

/-- A run leaves the notes of the members that it reaches, in order. -/
theorem runUntil_notes (xs : List ι) :
    (runUntil stop run xs).notes =
      (upTo (fun i => (run i).ends stop) xs).flatMap fun i =>
        (run i).notes := by
  induction xs with
  | nil => rfl
  | cons i rest ih =>
    rw [runUntil_cons, upTo]
    cases hi : (run i).outcome with
    | error e => simp [bind_of_error hi, ends_of_error hi]
    | ok b =>
      rw [bind_of_ok hi, ends_of_ok hi]
      by_cases hb : stop b
      · simp [hb]
      · cases hrest : (runUntil stop run rest).outcome with
        | error e => simp [hb, bind_of_error hrest, ih]
        | ok bs => simp [hb, bind_of_ok hrest, ih]

/-- A run answers what the members that it reaches answer. -/
theorem runUntil_eq_ok_iff (xs : List ι) (bs : List β) :
    (runUntil stop run xs).outcome = .ok bs ↔
      List.Forall₂ (fun i b => (run i).outcome = .ok b)
        (upTo (fun i => (run i).ends stop) xs) bs := by
  induction xs generalizing bs with
  | nil =>
    simp [upTo, eq_comm]
  | cons i rest ih =>
    rw [runUntil_cons, bind_eq_ok_iff, upTo]
    cases hi : (run i).outcome with
    | error e =>
      simp [ends_of_error hi, hi, List.forall₂_cons_left_iff]
    | ok b =>
      simp only [Except.ok.injEq, exists_eq_left', ends_of_ok hi]
      by_cases hb : stop b
      · simp only [hb, if_true, List.forall₂_cons_left_iff,
          List.forall₂_nil_left_iff, hi]
        simp [eq_comm]
      · simp only [hb, Bool.false_eq_true, if_false, bind_eq_ok_iff, ih,
          List.forall₂_cons_left_iff, hi]
        simp [eq_comm]

/-- The answers of a run show what its members do, if each answer does. -/
theorem map_of_runUntil {γ : Type} {f : β → γ} {g : ι → γ} {xs : List ι}
    {bs : List β} (h : (runUntil stop run xs).outcome = .ok bs)
    (hshows : ∀ i b, (run i).outcome = .ok b → f b = g i) :
    bs.map f <+: xs.map g := by
  have hmap {reached : List ι} {bs : List β}
      (h : List.Forall₂ (fun i b => (run i).outcome = .ok b) reached bs) :
      bs.map f = reached.map g := by
    induction h with
    | nil => rfl
    | cons hi _ ih => rw [List.map_cons, List.map_cons, hshows _ _ hi, ih]
  rw [hmap ((runUntil_eq_ok_iff ..).1 h)]
  exact (upTo_isPrefix ..).map g

/-- Every member that a successful run reaches answers. -/
theorem exists_of_runUntil_eq_ok {xs : List ι} {bs : List β}
    (h : (runUntil stop run xs).outcome = .ok bs) {i : ι}
    (hi : i ∈ upTo (fun i => (run i).ends stop) xs) :
    ∃ b, (run i).outcome = .ok b := by
  have hforall := (runUntil_eq_ok_iff ..).1 h
  obtain ⟨n, hn, rfl⟩ := List.getElem_of_mem hi
  exact ⟨_, hforall.get hn (hforall.length_eq ▸ hn)⟩

/-- Every answer of a run is that of a member. -/
theorem exists_of_mem_runUntil {xs : List ι} {bs : List β}
    (h : (runUntil stop run xs).outcome = .ok bs) {b : β} (hb : b ∈ bs) :
    ∃ i ∈ xs, (run i).outcome = .ok b := by
  have hforall := (runUntil_eq_ok_iff ..).1 h
  obtain ⟨n, hn, rfl⟩ := List.getElem_of_mem hb
  have hlt := hforall.length_eq ▸ hn
  exact ⟨_, (upTo_isPrefix ..).subset (List.getElem_mem hlt),
    hforall.get hlt hn⟩

/-- A run over members that all answer. -/
theorem runUntil_of_ok {f : ι → β} {xs : List ι}
    (h : ∀ i ∈ xs, (run i).outcome = .ok (f i)) :
    (runUntil stop run xs).outcome =
      .ok ((upTo (fun i => stop (f i)) xs).map f) := by
  induction xs with
  | nil => rfl
  | cons i rest ih =>
    rw [runUntil_cons, bind_of_ok (h i (List.mem_cons_self ..)), upTo]
    by_cases hi : stop (f i)
    · simp [hi]
    · simp only [hi, Bool.false_eq_true, if_false]
      rw [bind_of_ok (ih fun j hj => h j (List.mem_cons_of_mem _ hj))]
      rfl

/-- A run over a list has the outcome of the list of outcomes. -/
theorem runAll_outcome (xs : List ι) :
    (runAll run xs).outcome = xs.mapM fun i => (run i).outcome := by
  unfold runAll
  induction xs with
  | nil => rfl
  | cons i rest ih =>
    rw [runUntil_cons, List.mapM_cons, ← ih]
    cases hi : (run i).outcome with
    | error e =>
      rw [bind_of_error hi]
      rfl
    | ok b =>
      rw [bind_of_ok hi]
      cases hrest : (runUntil (fun _ => false) run rest).outcome with
      | error e =>
        simp [bind_of_error hrest]
        rfl
      | ok bs =>
        simp [bind_of_ok hrest]
        rfl

/-- A run over a list answers what all its members answer. -/
theorem runAll_eq_ok_iff (xs : List ι) (bs : List β) :
    (runAll run xs).outcome = .ok bs ↔
      xs.map (fun i => (run i).outcome) = bs.map .ok := by
  unfold runAll
  induction xs generalizing bs with
  | nil => simp [eq_comm]
  | cons i rest ih =>
    simp only [runUntil_cons, bind_eq_ok_iff, Bool.false_eq_true, if_false,
      pure_outcome, Except.ok.injEq, ih, List.map_cons]
    cases bs with
    | nil => simp
    | cons b bs => simp

theorem ends_runAll (x : Traced ν ε β) :
    x.ends (fun _ => false) = !x.outcome.isOk := by
  rw [ends]
  cases x.outcome <;> rfl

end Traced

end Rationale
