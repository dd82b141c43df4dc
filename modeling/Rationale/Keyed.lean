/-!
# Entries in key order

`Keyed α` is a finite map from texts to `α`, kept as a list of entries
whose keys are strictly ascending.  Texts are ordered by code point,
which is also the order of their UTF-8 bytes.

`insertEntry` is the one operation, and `insertEntry_pairwise` says that
it keeps the order.
-/

namespace Rationale

/-- Entries whose keys are strictly ascending. -/
def Ascending {α : Type} (entries : List (String × α)) : Prop :=
  entries.Pairwise fun a b => a.1 < b.1

instance {α : Type} (entries : List (String × α)) :
    Decidable (Ascending entries) :=
  inferInstanceAs (Decidable (entries.Pairwise fun a b => a.1 < b.1))

/-- Puts an entry in its place, instead of any entry with the same key. -/
def insertEntry {α : Type} (key : String) (value : α) :
    List (String × α) → List (String × α)
  | [] => [(key, value)]
  | (k, v) :: rest =>
    if key < k then (key, value) :: (k, v) :: rest
    else if key = k then (key, value) :: rest
    else (k, v) :: insertEntry key value rest

/-- The entries after an insertion are the new one and old ones. -/
theorem mem_insertEntry {α : Type} {key : String} {value : α}
    {entries : List (String × α)} {e : String × α}
    (h : e ∈ insertEntry key value entries) :
    e = (key, value) ∨ e ∈ entries := by
  induction entries with
  | nil =>
    rw [insertEntry, List.mem_singleton] at h
    exact Or.inl h
  | cons head rest ih =>
    obtain ⟨k, v⟩ := head
    rw [insertEntry] at h
    split at h
    · rcases List.mem_cons.1 h with h | h
      · exact Or.inl h
      · exact Or.inr h
    · split at h
      · rcases List.mem_cons.1 h with h | h
        · exact Or.inl h
        · exact Or.inr (List.mem_cons_of_mem _ h)
      · rcases List.mem_cons.1 h with h | h
        · exact Or.inr (h ▸ List.mem_cons_self ..)
        · exact (ih h).imp_right (List.mem_cons_of_mem _)

/-- An insertion keeps the keys strictly ascending. -/
theorem insertEntry_pairwise {α : Type} (key : String) (value : α)
    {entries : List (String × α)} (h : Ascending entries) :
    Ascending (insertEntry key value entries) := by
  induction entries with
  | nil => exact List.pairwise_singleton ..
  | cons head rest ih =>
    obtain ⟨k, v⟩ := head
    obtain ⟨hhead, hrest⟩ := List.pairwise_cons.1 h
    rw [insertEntry]
    split
    · rename_i hlt
      refine List.pairwise_cons.2 ⟨?_, h⟩
      intro e he
      rcases List.mem_cons.1 he with rfl | he
      · exact hlt
      · exact String.lt_trans hlt (hhead e he)
    · rename_i hnlt
      split
      · rename_i heq
        exact List.pairwise_cons.2 ⟨fun e he => heq ▸ hhead e he, hrest⟩
      · rename_i hne
        refine List.pairwise_cons.2 ⟨?_, ih hrest⟩
        intro e he
        rcases mem_insertEntry he with rfl | he
        · rcases Std.Trichotomous.rel_or_eq_or_rel_swap
            (r := (· < · : String → String → Prop)) (a := key) (b := k) with
            h | h | h
          · exact absurd h hnlt
          · exact absurd h hne
          · exact h
        · exact hhead e he

/-- A finite map from texts to `α`, in key order. -/
structure Keyed (α : Type) where
  /-- The entries, by ascending key. -/
  entries : List (String × α)
  /-- No key occurs twice, and the keys are in order. -/
  ascending : Ascending entries
deriving DecidableEq

namespace Keyed

variable {α : Type}

instance : EmptyCollection (Keyed α) where
  emptyCollection := ⟨[], List.Pairwise.nil⟩

instance : Inhabited (Keyed α) where
  default := ∅

/-- Sets the value at a key. -/
def insert (m : Keyed α) (key : String) (value : α) : Keyed α :=
  ⟨insertEntry key value m.entries, insertEntry_pairwise key value m.ascending⟩

/-- The map of a list of entries.  The last entry of a key counts. -/
def ofList (entries : List (String × α)) : Keyed α :=
  entries.foldl (fun m (key, value) => m.insert key value) ∅

end Keyed

end Rationale
