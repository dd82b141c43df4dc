import Rationale.Proofs.Canonical
import Rationale.Proofs.Scalars

/-!
# Printed values are read back

`Plain.readBack` says that the reader undoes the printer: in front of
anything that ends a number it reads a printed value and leaves the rest.  It
holds of every layout that adds nothing but white space, and whatever texts
are looked at.

Every constructor of a value has a lemma of its own.  Items and members are
inductions on their own lists.  The length of what is printed is fuel enough.
-/

namespace Rationale.Json

/-- Whether a layout adds nothing but white space. -/
structure Layout.Blank (layout : Layout) : Prop where
  line : ∀ depth, ∀ c ∈ layout.line depth, isSpace c
  gap : ∀ c ∈ layout.gap, isSpace c

theorem Layout.compact_blank : Layout.compact.Blank where
  line := by simp [Layout.compact]
  gap := by simp [Layout.compact]

theorem Layout.indented_blank : Layout.indented.Blank where
  line := by
    intro depth c hc
    simp only [Layout.indented, List.mem_cons, List.mem_replicate] at hc
    rcases hc with rfl | ⟨-, rfl⟩ <;> decide
  gap := by simp [Layout.indented, isSpace]

/-- Whether a value is read back in front of anything that ends a number. -/
def ReadBack (layout : Layout) (v : Json) : Prop :=
  ∀ (care : Care) (fuel depth : Nat) (rest : List Char), Ends rest →
    (print layout depth v).length ≤ fuel →
    readValue care fuel (print layout depth v ++ rest) = some (v, rest)

variable {layout : Layout} {care : Care} {fuel depth : Nat}
  {blank rest : List Char}

/-! ## White space in front -/

theorem readValue_blank (h : ∀ c ∈ blank, isSpace c) :
    readValue care fuel (blank ++ rest) = readValue care fuel rest :=
  readValue_congr (skipSpace_blank h rest)

theorem readItems_blank (h : ∀ c ∈ blank, isSpace c) :
    readItems care fuel (blank ++ rest) = readItems care fuel rest :=
  readItems_congr (skipSpace_blank h rest)

theorem readMembers_blank (h : ∀ c ∈ blank, isSpace c) :
    readMembers care fuel (blank ++ rest) = readMembers care fuel rest :=
  readMembers_congr (skipSpace_blank h rest)

/-! ## Scalars -/

theorem readBack_null : ReadBack layout .null := by
  intro care fuel depth rest _ hfuel
  cases fuel with
  | zero => simp [print] at hfuel
  | succ fuel => simp [print, readValue, skipSpace_cons, isSpace]

theorem readBack_bool (b : Bool) : ReadBack layout (.bool b) := by
  intro care fuel depth rest _ hfuel
  cases fuel with
  | zero => cases b <;> simp [print] at hfuel
  | succ fuel => cases b <;> simp [print, readValue, skipSpace_cons, isSpace]

theorem printText_append (s : String) (rest : List Char) :
    printText s ++ rest = '"' :: (s.toList.flatMap escapeChar ++ '"' :: rest) := by
  simp [printText]

theorem readBack_text (s : String) : ReadBack layout (.text s) := by
  intro care fuel depth rest _ hfuel
  cases fuel with
  | zero => simp [print, printText] at hfuel
  | succ fuel =>
    rw [print, printText_append, readValue, skipSpace_cons (by decide)]
    simp [readText_print]

/-- A value that starts with a sign or a digit is a number. -/
theorem readValue_number {c : Char} (h : c.isDigit ∨ c = '-') :
    readValue care (fuel + 1) (c :: rest) = readNumber (c :: rest) := by
  rw [readValue, skipSpace_cons (isSpace_of_number h)]
  split <;> simp_all

theorem readBack_integer {n : Int} (low : -(Word.half : Int) ≤ n)
    (high : n < (Word.count : Int)) : ReadBack layout (.integer n) := by
  intro care fuel depth rest hends hfuel
  obtain ⟨c, tail, hcons, hc⟩ := printInteger_eq_cons n
  have hnumber := readNumber_printInteger low high hends
  rw [print, hcons] at hfuel ⊢
  rw [hcons] at hnumber
  cases fuel with
  | zero => simp at hfuel
  | succ fuel => exact (readValue_number hc).trans hnumber

/-- What is printed for a value starts neither with white space nor with the
end of a list. -/
theorem Plain.opens {v : Json} (hv : v.Plain) (layout : Layout) (depth : Nat) :
    ∃ c rest, print layout depth v = c :: rest ∧ isSpace c = false ∧
      c ≠ ']' := by
  cases hv with
  | null => exact ⟨'n', _, rfl, by decide, by decide⟩
  | bool b =>
    cases b with
    | true => exact ⟨'t', _, rfl, by decide, by decide⟩
    | false => exact ⟨'f', _, rfl, by decide, by decide⟩
  | @integer n =>
    obtain ⟨c, rest, hcons, hc⟩ := printInteger_eq_cons n
    refine ⟨c, rest, hcons, isSpace_of_number hc, ?_⟩
    rintro rfl
    revert hc
    decide
  | text s => exact ⟨'"', _, rfl, by decide, by decide⟩
  | @list items =>
    cases items with
    | nil => exact ⟨'[', _, rfl, by decide, by decide⟩
    | cons item items => exact ⟨'[', _, rfl, by decide, by decide⟩
  | @record members =>
    cases members with
    | nil => exact ⟨'\x7b', _, rfl, by decide, by decide⟩
    | cons member members => exact ⟨'\x7b', _, rfl, by decide, by decide⟩

/-! ## Lists -/

theorem readBack_list_nil : ReadBack layout (.list []) := by
  intro care fuel depth rest _ hfuel
  cases fuel with
  | zero => simp [print] at hfuel
  | succ fuel => simp [print, readValue, skipSpace_cons, isSpace]

/-- A number in front of more items, or of the end of the list, ends there. -/
theorem ends_printItems (hl : layout.Blank) (items : List Json) :
    Ends (printItems layout depth items ++ (layout.line depth ++ ']' :: rest)) := by
  cases items with
  | nil =>
    rw [printItems, List.nil_append]
    exact ends_blank (hl.line depth) (ends_cons _ (by decide))
  | cons item items => exact ends_cons _ (by decide)

/-- What is printed of a list from an item on, with what stands behind it. -/
def fromItem (layout : Layout) (depth : Nat) (item : Json) (items : List Json)
    (rest : List Char) : List Char :=
  print layout (depth + 1) item ++
    (printItems layout depth items ++ (layout.line depth ++ ']' :: rest))

theorem print_list_append (item : Json) (items : List Json) :
    print layout depth (.list (item :: items)) ++ rest =
      '[' :: (layout.line (depth + 1) ++ fromItem layout depth item items rest) := by
  simp [print, fromItem]

theorem printItems_append (item : Json) (items : List Json) :
    printItems layout depth (item :: items) ++ (layout.line depth ++ ']' :: rest) =
      ',' :: (layout.line (depth + 1) ++ fromItem layout depth item items rest) := by
  simp [printItems, fromItem]

/-- Items are read back up to the end of the list. -/
theorem readItems_fromItem (hl : layout.Blank) {item : Json} {items : List Json}
    (hread : ∀ other ∈ item :: items, ReadBack layout other)
    (hfuel : (print layout (depth + 1) item).length +
      (printItems layout depth items).length < fuel) :
    readItems care fuel (fromItem layout depth item items rest) =
      some (item :: items, rest) := by
  induction items generalizing item fuel with
  | nil =>
    cases fuel with
    | zero => omega
    | succ fuel =>
      unfold fromItem
      rw [readItems, hread item (by simp) _ _ _ _ (ends_printItems hl []) (by omega)]
      simp [printItems, skipSpace_blank (hl.line depth), skipSpace_cons, isSpace]
  | cons next items ih =>
    cases fuel with
    | zero => omega
    | succ fuel =>
      have hsize : (print layout (depth + 1) next).length +
          (printItems layout depth items).length <
            (printItems layout depth (next :: items)).length := by
        simp only [printItems, List.length_append, List.length_cons]
        omega
      have hrest : readItems care fuel (fromItem layout depth next items rest) =
          some (next :: items, rest) :=
        ih (fun other hother => hread other (by simp [List.mem_cons.1 hother]))
          (by omega)
      unfold fromItem
      rw [readItems,
        hread item (by simp) _ _ _ _ (ends_printItems hl _) (by omega)]
      simp [printItems_append, skipSpace_cons, isSpace,
        readItems_blank (hl.line (depth + 1)), hrest]

theorem readBack_list (hl : layout.Blank) {item : Json} {items : List Json}
    (hplain : item.Plain)
    (hread : ∀ other ∈ item :: items, ReadBack layout other) :
    ReadBack layout (.list (item :: items)) := by
  intro care fuel depth rest _ hfuel
  obtain ⟨c, tail, hcons, hspace, hclose⟩ := hplain.opens layout (depth + 1)
  cases fuel with
  | zero => simp [print] at hfuel
  | succ fuel =>
    have hitems : readItems care fuel (fromItem layout depth item items rest) =
        some (item :: items, rest) :=
      readItems_fromItem hl hread (by simp [print] at hfuel; omega)
    rw [print_list_append, readValue, skipSpace_cons (by decide)]
    simp only
    rw [skipSpace_blank (hl.line _)]
    unfold fromItem at hitems ⊢
    rw [hcons, List.cons_append] at hitems ⊢
    rw [skipSpace_cons hspace]
    -- an item does not start like the end of the list
    split
    · rename_i heq
      exact absurd (List.cons.inj heq).1 hclose
    · simp [hitems]

/-! ## Records -/

theorem readBack_record_nil : ReadBack layout (.record []) := by
  intro care fuel depth rest _ hfuel
  cases fuel with
  | zero => simp [print] at hfuel
  | succ fuel => simp [print, readValue, skipSpace_cons, isSpace]

/-- A number in front of more members, or of the end of the record, ends
there. -/
theorem ends_printMembers (hl : layout.Blank) (members : List (String × Json)) :
    Ends (printMembers layout depth members ++
      (layout.line depth ++ '\x7d' :: rest)) := by
  cases members with
  | nil =>
    rw [printMembers, List.nil_append]
    exact ends_blank (hl.line depth) (ends_cons _ (by decide))
  | cons member members => exact ends_cons _ (by decide)

/-- What is read of a member when its value is read back. -/
theorem readMembers_step (hl : layout.Blank) {key : String} {value : Json}
    (hread : ReadBack layout value) (hends : Ends rest)
    (hfuel : (print layout depth value).length ≤ fuel) :
    readMembers care (fuel + 1) (printText key ++ ':' :: (layout.gap ++
        (print layout depth value ++ rest))) =
      match skipSpace rest with
      | ',' :: rest => do
        let (members, rest) ← readMembers care fuel rest
        return ((key, value) :: members, rest)
      | '\x7d' :: rest => some ([(key, value)], rest)
      | _ => none := by
  rw [printText_append, readMembers, skipSpace_cons (by decide)]
  simp only [readText_print, Option.bind_eq_bind, Option.bind_some]
  rw [skipSpace_cons (by decide)]
  simp only
  rw [readValue_blank hl.gap, hread _ _ _ _ hends hfuel]
  rfl

/-- What is printed of a record from a member on, with what stands behind
it. -/
def fromMember (layout : Layout) (depth : Nat) (key : String) (value : Json)
    (members : List (String × Json)) (rest : List Char) : List Char :=
  printText key ++ ':' :: (layout.gap ++ (print layout (depth + 1) value ++
    (printMembers layout depth members ++ (layout.line depth ++ '\x7d' :: rest))))

theorem print_record_append (key : String) (value : Json)
    (members : List (String × Json)) :
    print layout depth (.record ((key, value) :: members)) ++ rest =
      '\x7b' :: (layout.line (depth + 1) ++
        fromMember layout depth key value members rest) := by
  simp [print, fromMember]

theorem printMembers_append (key : String) (value : Json)
    (members : List (String × Json)) :
    printMembers layout depth ((key, value) :: members) ++
        (layout.line depth ++ '\x7d' :: rest) =
      ',' :: (layout.line (depth + 1) ++
        fromMember layout depth key value members rest) := by
  simp [printMembers, fromMember]

/-- Members are read back up to the end of the record. -/
theorem readMembers_fromMember (hl : layout.Blank) {key : String} {value : Json}
    {members : List (String × Json)}
    (hread : ∀ other ∈ (key, value) :: members, ReadBack layout other.2)
    (hfuel : (print layout (depth + 1) value).length +
      (printMembers layout depth members).length < fuel) :
    readMembers care fuel (fromMember layout depth key value members rest) =
      some ((key, value) :: members, rest) := by
  induction members generalizing key value fuel with
  | nil =>
    have hvalue : ReadBack layout value := hread (key, value) (by simp)
    cases fuel with
    | zero => omega
    | succ fuel =>
      unfold fromMember
      rw [readMembers_step hl hvalue (ends_printMembers hl []) (by omega)]
      simp [printMembers, skipSpace_blank (hl.line depth), skipSpace_cons, isSpace]
  | cons next members ih =>
    obtain ⟨nextKey, next⟩ := next
    have hvalue : ReadBack layout value := hread (key, value) (by simp)
    cases fuel with
    | zero => omega
    | succ fuel =>
      have hsize : (print layout (depth + 1) next).length +
          (printMembers layout depth members).length <
            (printMembers layout depth ((nextKey, next) :: members)).length := by
        simp only [printMembers, List.length_append, List.length_cons]
        omega
      have hrest : readMembers care fuel
          (fromMember layout depth nextKey next members rest) =
            some ((nextKey, next) :: members, rest) :=
        ih (fun other hother => hread other (by simp [List.mem_cons.1 hother]))
          (by omega)
      unfold fromMember
      rw [readMembers_step hl hvalue (ends_printMembers hl _) (by omega)]
      simp [printMembers_append, skipSpace_cons, isSpace,
        readMembers_blank (hl.line (depth + 1)), hrest]

theorem readBack_record (hl : layout.Blank) {key : String} {value : Json}
    {members : List (String × Json)}
    (hread : ∀ other ∈ (key, value) :: members, ReadBack layout other.2) :
    ReadBack layout (.record ((key, value) :: members)) := by
  intro care fuel depth rest _ hfuel
  cases fuel with
  | zero => simp [print] at hfuel
  | succ fuel =>
    have hmembers : readMembers care fuel
        (fromMember layout depth key value members rest) =
          some ((key, value) :: members, rest) :=
      readMembers_fromMember hl hread (by simp [print] at hfuel; omega)
    rw [print_record_append, readValue, skipSpace_cons (by decide)]
    simp only
    rw [skipSpace_blank (hl.line _)]
    unfold fromMember at hmembers ⊢
    rw [printText_append] at hmembers ⊢
    rw [skipSpace_cons (by decide)]
    simp [hmembers]

/-! ## Values -/

/-- What is printed for a value is read back. -/
theorem Plain.readBack {v : Json} (hv : v.Plain) (hl : layout.Blank) :
    ReadBack layout v := by
  induction hv with
  | null => exact readBack_null
  | bool b => exact readBack_bool b
  | integer low high => exact readBack_integer low high
  | text s => exact readBack_text s
  | @list items parts ih =>
    cases items with
    | nil => exact readBack_list_nil
    | cons item items => exact readBack_list hl (parts item (by simp)) ih
  | @record members distinct parts ih =>
    cases members with
    | nil => exact readBack_record_nil
    | cons member members => exact readBack_record hl ih

/-- The text of a value is read as that value. -/
theorem Plain.ofChars?_print {v : Json} (hv : v.Plain) (hl : layout.Blank)
    (care : Care) : ofChars? care (print layout 0 v) = some v := by
  have hread := hv.readBack hl care (2 * (print layout 0 v).length + 2) 0 []
    ends_nil (by omega)
  rw [List.append_nil] at hread
  simp [ofChars?, hread, skipSpace]

end Rationale.Json
