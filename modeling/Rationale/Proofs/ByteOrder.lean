import Mathlib.Data.List.Lex
import Mathlib.Order.Basic

/-!
# The order of texts and bytes

Texts are ordered by their code points.  Written as UTF-8 they have the same
order by their bytes, so a list of keys that ascends in the one way ascends
in the other.

`differsBelow_of_lt` compares two characters.  Their bytes differ at some
position that both have, and the greater character has the greater byte at the
first one.
-/

namespace Rationale.Text

/-- The bytes of a text. -/
def bytes (s : String) : List UInt8 := s.toUTF8.data.toList

theorem bytes_eq (s : String) :
    bytes s = s.toList.flatMap String.utf8EncodeChar := by
  unfold bytes
  rw [String.toUTF8_eq_toByteArray, ← String.ofList_toList (s := s),
    String.toByteArray_ofList, String.ofList_toList]
  exact List.toList_data_toByteArray ..

/-- Whether the first list has the lesser byte at the first position at which
the two lists differ. -/
def DiffersBelow (as bs : List UInt8) : Prop :=
  ∃ front a b rest rest', as = front ++ a :: rest ∧ bs = front ++ b :: rest' ∧
    a < b

theorem DiffersBelow.append_lt {as bs : List UInt8} (h : DiffersBelow as bs)
    (xs ys : List UInt8) : as ++ xs < bs ++ ys := by
  obtain ⟨front, a, b, rest, rest', rfl, rfl, hlt⟩ := h
  induction front with
  | nil => exact List.Lex.rel hlt
  | cons c front ih => exact List.Lex.cons ih

theorem differsBelow_cons_iff {a b : UInt8} {as bs : List UInt8} :
    DiffersBelow (a :: as) (b :: bs) ↔ a < b ∨ a = b ∧ DiffersBelow as bs := by
  constructor
  · rintro ⟨front, x, y, rest, rest', ha, hb, hlt⟩
    cases front with
    | nil =>
      obtain ⟨rfl, rfl⟩ := List.cons.inj ha
      obtain ⟨rfl, rfl⟩ := List.cons.inj hb
      exact Or.inl hlt
    | cons z front =>
      obtain ⟨rfl, rfl⟩ := List.cons.inj ha
      obtain ⟨rfl, rfl⟩ := List.cons.inj hb
      exact Or.inr ⟨rfl, front, x, y, rest, rest', rfl, rfl, hlt⟩
  · rintro (hlt | ⟨rfl, front, x, y, rest, rest', rfl, rfl, hlt⟩)
    · exact ⟨[], a, b, as, bs, rfl, rfl, hlt⟩
    · exact ⟨a :: front, x, y, rest, rest', rfl, rfl, hlt⟩

theorem not_differsBelow_nil (bs : List UInt8) : ¬DiffersBelow [] bs := by
  rintro ⟨front, a, b, rest, rest', ha, -⟩
  simp at ha

theorem ofNat_lt_ofNat {x y : Nat} (hx : x < 256) (hy : y < 256) :
    UInt8.ofNat x < UInt8.ofNat y ↔ x < y := by
  rw [UInt8.lt_iff_toNat_lt, UInt8.toNat_ofNat', UInt8.toNat_ofNat',
    Nat.mod_eq_of_lt hx, Nat.mod_eq_of_lt hy]

theorem ofNat_eq_ofNat {x y : Nat} (hx : x < 256) (hy : y < 256) :
    UInt8.ofNat x = UInt8.ofNat y ↔ x = y := by
  rw [← UInt8.toNat_inj, UInt8.toNat_ofNat', UInt8.toNat_ofNat',
    Nat.mod_eq_of_lt hx, Nat.mod_eq_of_lt hy]

/-- The bytes of a greater character are greater. -/
theorem differsBelow_of_lt {c d : Char} (h : c < d) :
    DiffersBelow (String.utf8EncodeChar c) (String.utf8EncodeChar d) := by
  have hlt : c.val.toNat < d.val.toNat := UInt32.lt_iff_toNat_lt.1 h
  have hbound : d.val.toNat < 0x110000 := by
    rcases d.valid with hlow | ⟨-, hhigh⟩
    · have : d.val.toNat < 0xd800 := hlow
      omega
    · exact hhigh
  unfold String.utf8EncodeChar
  generalize c.val.toNat = m at hlt ⊢
  generalize d.val.toNat = n at hlt hbound ⊢
  have hdigit3 (k : Nat) : k / 4096 = k / 64 / 64 := by omega
  have hdigit4 (k : Nat) : k / 262144 = k / 64 / 64 / 64 := by omega
  simp only [hdigit3, hdigit4]
  -- a longer encoding starts with a greater byte, and equally long ones
  -- compare like their digits
  split_ifs <;> (try omega) <;>
    simp (disch := omega) only [differsBelow_cons_iff, not_differsBelow_nil,
      ofNat_lt_ofNat, ofNat_eq_ofNat, and_false, or_false] <;> omega

/-- The order of texts is the order of their bytes. -/
theorem bytes_lt_of_lt {s t : String} (h : s < t) : bytes s < bytes t := by
  have hchars {cs ds : List Char} (h : cs < ds) :
      cs.flatMap String.utf8EncodeChar < ds.flatMap String.utf8EncodeChar := by
    induction h with
    | @nil d ds =>
      obtain ⟨b, rest, hb⟩ :=
        List.exists_cons_of_ne_nil (String.utf8EncodeChar_ne_nil (c := d))
      rw [List.flatMap_nil, List.flatMap_cons, hb]
      exact List.Lex.nil
    | @cons c cs ds _ ih =>
      rw [List.flatMap_cons, List.flatMap_cons]
      exact List.append_left_lt ih
    | @rel c cs d ds hlt =>
      rw [List.flatMap_cons, List.flatMap_cons]
      exact (differsBelow_of_lt hlt).append_lt _ _
  rw [bytes_eq, bytes_eq]
  exact hchars (String.lt_iff.1 h)

end Rationale.Text
