import Mathlib.Data.List.Nodup
import Mathlib.Data.List.Perm.Basic
import Rationale.Json
import Rationale.Proofs.ByteOrder
import Rationale.Word

/-!
# The canonical order of JSON values

`Json.sorted` puts the members of every record in order.  It is a normal
form of values that differ in the order of members: it makes the same of all
of them, and it is one of them.  There are four groups.

* Values.  `Json.Plain` are the values without decimals in which no record
  repeats a key, and `Json.Reordered` is the change of the order of members
  at any depth.
* Entries.  Insertion puts distinct entries in order, and there is only one
  way to do so.
* The normal form.  `reordered_sorted` and `sorted_eq_of_reordered`.
* The order of keys.  `Json.KeysAscend` says that the keys of every record
  ascend by their bytes.
-/

namespace Rationale

namespace Json

/-! ## Values -/

/-- The values without decimals.  Integers are within 64 bits, and no record
has two members with one key. -/
inductive Plain : Json → Prop where
  | null : Plain .null
  | bool (b : Bool) : Plain (.bool b)
  | integer {n : Int} (low : -(Word.half : Int) ≤ n)
      (high : n < (Word.count : Int)) : Plain (.integer n)
  | text (s : String) : Plain (.text s)
  | list {items : List Json} (parts : ∀ item ∈ items, Plain item) :
      Plain (.list items)
  | record {members : List (String × Json)}
      (distinct : (members.map Prod.fst).Nodup)
      (parts : ∀ member ∈ members, Plain member.2) : Plain (.record members)

/-- Whether two values are the same up to the order of members, at every
depth: neighbouring members may change places, in a value and in what it
holds, any number of times. -/
inductive Reordered : Json → Json → Prop where
  | refl (v : Json) : Reordered v v
  | trans {u v w : Json} (first : Reordered u v) (second : Reordered v w) :
      Reordered u w
  | swap (before : List (String × Json)) (a b : String × Json)
      (after : List (String × Json)) :
      Reordered (.record (before ++ a :: b :: after))
        (.record (before ++ b :: a :: after))
  | item (before : List Json) {v w : Json} (after : List Json)
      (inside : Reordered v w) :
      Reordered (.list (before ++ v :: after)) (.list (before ++ w :: after))
  | member (before : List (String × Json)) (key : String) {v w : Json}
      (after : List (String × Json)) (inside : Reordered v w) :
      Reordered (.record (before ++ (key, v) :: after))
        (.record (before ++ (key, w) :: after))

namespace Reordered

theorem symm {v w : Json} (h : Reordered v w) : Reordered w v := by
  induction h with
  | refl v => exact .refl v
  | trans _ _ ihfirst ihsecond => exact .trans ihsecond ihfirst
  | swap before a b after => exact .swap before b a after
  | item before after _ ih => exact .item before after ih
  | member before key after _ ih => exact .member before key after ih

/-- Reordering leaves a value plain. -/
theorem plain {v w : Json} (h : Reordered v w) (hv : v.Plain) : w.Plain := by
  induction h with
  | refl v => exact hv
  | trans _ _ ihfirst ihsecond => exact ihsecond (ihfirst hv)
  | swap before a b after =>
    have hperm : (before ++ b :: a :: after).Perm (before ++ a :: b :: after) :=
      (List.Perm.swap a b after).append_left before
    cases hv with
    | record distinct parts =>
      apply Plain.record
      · exact (hperm.map Prod.fst).nodup_iff.2 distinct
      · intro member hmember
        exact parts member (hperm.subset hmember)
  | @item before v w after _ ih =>
    cases hv with
    | list parts =>
      have hw : w.Plain := ih (parts v (by simp))
      apply Plain.list
      intro other hother
      rcases List.mem_append.1 hother with hbefore | hafter
      · exact parts other (by simp [hbefore])
      · rcases List.mem_cons.1 hafter with rfl | hafter
        · exact hw
        · exact parts other (by simp [hafter])
  | @member before key v w after _ ih =>
    cases hv with
    | record distinct parts =>
      have hw : w.Plain := ih (parts (key, v) (by simp))
      apply Plain.record
      · simpa using distinct
      · intro other hother
        rcases List.mem_append.1 hother with hbefore | hafter
        · exact parts other (by simp [hbefore])
        · rcases List.mem_cons.1 hafter with rfl | hafter
          · exact hw
          · exact parts other (by simp [hafter])

/-- Members may change places in any way. -/
theorem of_perm {members members' : List (String × Json)}
    (h : members.Perm members') (before : List (String × Json)) :
    Reordered (.record (before ++ members)) (.record (before ++ members')) := by
  induction h generalizing before with
  | nil => exact .refl _
  | cons member _ ih => simpa using ih (before ++ [member])
  | swap a b after => exact .swap before b a after
  | trans _ _ ihfirst ihsecond =>
    exact .trans (ihfirst before) (ihsecond before)

/-- Parts that may be replaced alone may be replaced together. -/
theorem of_parts {α : Type} {whole : List α → Json} {f : α → α}
    {parts : List α}
    (h : ∀ part ∈ parts, ∀ before after,
      Reordered (whole (before ++ part :: after))
        (whole (before ++ f part :: after))) (before : List α) :
    Reordered (whole (before ++ parts)) (whole (before ++ parts.map f)) := by
  induction parts generalizing before with
  | nil => exact .refl _
  | cons part rest ih =>
    have hrest := ih (fun other hother => h other (by simp [hother]))
      (before ++ [f part])
    simp only [List.append_assoc, List.singleton_append] at hrest
    exact .trans (h part (by simp) before rest) hrest

/-- Every item may be reordered. -/
theorem of_items {f : Json → Json} {items : List Json}
    (h : ∀ item ∈ items, Reordered item (f item)) (before : List Json) :
    Reordered (.list (before ++ items)) (.list (before ++ items.map f)) :=
  of_parts (fun item hitem before after =>
    .item before after (h item hitem)) before

/-- The value of every member may be reordered. -/
theorem of_members {f : Json → Json} {members : List (String × Json)}
    (h : ∀ member ∈ members, Reordered member.2 (f member.2))
    (before : List (String × Json)) :
    Reordered (.record (before ++ members))
      (.record (before ++ members.map fun member =>
        (member.1, f member.2))) :=
  of_parts (fun member hmember before after =>
    .member before member.1 after (h member hmember)) before

end Reordered

theorem depthItems_append (items items' : List Json) :
    depthItems (items ++ items') = max (depthItems items) (depthItems items') := by
  induction items with
  | nil => simp [depthItems]
  | cons item rest ih => simp [depthItems, ih, Nat.max_assoc]

theorem depthMembers_append (members members' : List (String × Json)) :
    depthMembers (members ++ members') =
      max (depthMembers members) (depthMembers members') := by
  induction members with
  | nil => simp [depthMembers]
  | cons member rest ih => simp [depthMembers, ih, Nat.max_assoc]

theorem Reordered.depth_eq {v w : Json} (h : Reordered v w) :
    w.depth = v.depth := by
  induction h with
  | refl v => rfl
  | trans _ _ ihfirst ihsecond => rw [ihsecond, ihfirst]
  | swap before a b after =>
    simp only [depth, depthMembers_append, depthMembers]
    omega
  | item before after _ ih => simp only [depth, depthItems_append, depthItems, ih]
  | member before key after _ ih =>
    simp only [depth, depthMembers_append, depthMembers, ih]

end Json

/-! ## Entries -/

section Entries

variable {α : Type}

/-- Inserting a new key adds an entry. -/
theorem insertEntry_perm {key : String} (value : α)
    {entries : List (String × α)} (h : key ∉ entries.map Prod.fst) :
    (insertEntry key value entries).Perm ((key, value) :: entries) := by
  induction entries with
  | nil => exact .refl _
  | cons entry rest ih =>
    obtain ⟨k, v⟩ := entry
    simp only [List.map_cons, List.mem_cons, not_or] at h
    unfold insertEntry
    split
    · exact .refl _
    · rw [if_neg h.1]
      exact ((ih h.2).cons (k, v)).trans (.swap ..)

/-- Entries put in order, one after the other. -/
def insertAll (before entries : List (String × α)) : List (String × α) :=
  entries.foldl (fun before entry => insertEntry entry.1 entry.2 before) before

theorem insertAll_perm {before entries : List (String × α)}
    (h : ((before ++ entries).map Prod.fst).Nodup) :
    (insertAll before entries).Perm (before ++ entries) := by
  induction entries generalizing before with
  | nil => simp [insertAll]
  | cons entry rest ih =>
    have hmiddle : (before ++ entry :: rest).Perm (entry :: before ++ rest) :=
      List.perm_middle
    have hnodup := (hmiddle.map Prod.fst).nodup_iff.1 h
    have hnew : entry.1 ∉ before.map Prod.fst := by
      simp only [List.cons_append, List.map_cons, List.nodup_cons] at hnodup
      intro hmem
      exact hnodup.1 (by simp [hmem])
    have hinsert := insertEntry_perm entry.2 hnew
    have hnodup' : ((insertEntry entry.1 entry.2 before ++ rest).map
        Prod.fst).Nodup :=
      ((hinsert.append_right rest).map Prod.fst).nodup_iff.2 hnodup
    exact (ih hnodup').trans ((hinsert.append_right rest).trans hmiddle.symm)

theorem ascending_insertAll {before : List (String × α)}
    (h : Ascending before) (entries : List (String × α)) :
    Ascending (insertAll before entries) := by
  induction entries generalizing before with
  | nil => exact h
  | cons entry rest ih => exact ih (insertEntry_pairwise entry.1 entry.2 h)

/-- There is one way to put entries in order. -/
theorem eq_of_ascending {entries entries' : List (String × α)}
    (hperm : entries.Perm entries') (h : Ascending entries)
    (h' : Ascending entries') : entries = entries' := by
  apply hperm.eq_of_pairwise _ h h'
  intro a b _ _ hab hba
  exact absurd (String.lt_trans hab hba) (String.lt_irrefl _)

end Entries

namespace Json

/-! ## The normal form -/

/-- The member with its value in canonical order. -/
def sortedMember (member : String × Json) : String × Json :=
  (member.1, member.2.sorted)

theorem sortedItems_eq (items : List Json) :
    sortedItems items = items.map sorted := by
  induction items with
  | nil => rfl
  | cons item rest ih => rw [sortedItems, ih, List.map_cons]

theorem sortedMembers_eq (before members : List (String × Json)) :
    sortedMembers before members =
      insertAll before (members.map sortedMember) := by
  induction members generalizing before with
  | nil => rfl
  | cons member rest ih =>
    rw [sortedMembers, ih]
    rfl

theorem sorted_list (items : List Json) :
    (list items).sorted = .list (items.map sorted) := by
  rw [sorted, sortedItems_eq]

theorem sorted_record (members : List (String × Json)) :
    (record members).sorted =
      .record (insertAll [] (members.map sortedMember)) := by
  rw [sorted, sortedMembers_eq]

theorem insertAll_sortedMember_perm {members : List (String × Json)}
    (h : (members.map Prod.fst).Nodup) :
    (insertAll [] (members.map sortedMember)).Perm
      (members.map sortedMember) := by
  apply insertAll_perm
  simpa [sortedMember, Function.comp_def] using h

/-- The canonical order is one of the orders. -/
theorem reordered_sorted {v : Json} (hv : v.Plain) : Reordered v v.sorted := by
  induction hv with
  | list parts ih =>
    rw [sorted_list]
    exact .of_items ih []
  | record distinct parts ih =>
    rw [sorted_record]
    have hvalues := Reordered.of_members ih []
    have hplaces := Reordered.of_perm (insertAll_sortedMember_perm distinct).symm []
    exact .trans hvalues hplaces
  | _ => exact .refl _

/-- The canonical order is the same for all orders. -/
theorem sorted_eq_of_reordered {v w : Json} (h : Reordered v w)
    (hv : v.Plain) : v.sorted = w.sorted := by
  induction h with
  | refl v => rfl
  | trans first _ ihfirst ihsecond =>
    rw [ihfirst hv, ihsecond (first.plain hv)]
  | swap before a b after =>
    have hw := (Reordered.swap before a b after).plain hv
    have hperm : ((before ++ a :: b :: after).map sortedMember).Perm
        ((before ++ b :: a :: after).map sortedMember) :=
      ((List.Perm.swap b a after).append_left before).map sortedMember
    cases hv with
    | record distinct parts =>
      cases hw with
      | record distinct' parts' =>
        rw [sorted_record, sorted_record]
        congr 1
        apply eq_of_ascending
        · exact (insertAll_sortedMember_perm distinct).trans
            (hperm.trans (insertAll_sortedMember_perm distinct').symm)
        · exact ascending_insertAll .nil _
        · exact ascending_insertAll .nil _
  | @item before v w after _ ih =>
    cases hv with
    | list parts =>
      have hinside := ih (parts v (by simp))
      simp [sorted_list, hinside]
  | @member before key v w after _ ih =>
    cases hv with
    | record distinct parts =>
      have hinside := ih (parts (key, v) (by simp))
      simp [sorted_record, sortedMember, hinside]

theorem Plain.sorted {v : Json} (hv : v.Plain) : v.sorted.Plain :=
  (reordered_sorted hv).plain hv

/-- Sorting twice is sorting once. -/
theorem sorted_sorted {v : Json} (hv : v.Plain) : v.sorted.sorted = v.sorted :=
  (sorted_eq_of_reordered (reordered_sorted hv) hv).symm

/-! ## The order of keys -/

/-- Whether the keys of every record ascend strictly by their bytes. -/
inductive KeysAscend : Json → Prop where
  | null : KeysAscend .null
  | bool (b : Bool) : KeysAscend (.bool b)
  | integer (n : Int) : KeysAscend (.integer n)
  | decimal (written : String) : KeysAscend (.decimal written)
  | text (s : String) : KeysAscend (.text s)
  | list {items : List Json} (parts : ∀ item ∈ items, KeysAscend item) :
      KeysAscend (.list items)
  | record {members : List (String × Json)}
      (ascending : members.Pairwise fun a b =>
        Text.bytes a.1 < Text.bytes b.1)
      (parts : ∀ member ∈ members, KeysAscend member.2) :
      KeysAscend (.record members)

theorem keysAscend_sorted {v : Json} (hv : v.Plain) : v.sorted.KeysAscend := by
  induction hv with
  | null => exact .null
  | bool b => exact .bool b
  | integer low high => exact .integer _
  | text s => exact .text s
  | list parts ih =>
    rw [sorted_list]
    apply KeysAscend.list
    intro item hitem
    obtain ⟨original, horiginal, rfl⟩ := List.mem_map.1 hitem
    exact ih original horiginal
  | record distinct parts ih =>
    rw [sorted_record]
    apply KeysAscend.record
    · exact (ascending_insertAll .nil _).imp Text.bytes_lt_of_lt
    · intro member hmember
      have hmap := (insertAll_sortedMember_perm distinct).subset hmember
      obtain ⟨original, horiginal, rfl⟩ := List.mem_map.1 hmap
      exact ih original horiginal

end Json

end Rationale
