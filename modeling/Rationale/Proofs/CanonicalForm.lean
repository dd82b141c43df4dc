import Rationale.Proofs.ReadBack

/-!
# The canonical form of a value

The canonical text of a value is the compact text of its canonical order.
Compact texts are read back, so that they tell values apart, and the canonical
order is a normal form for the order of members.  Together they make the
canonical bytes a normal form as well: two values have the same bytes exactly
when they differ in the order of members only, and what is read from the bytes
is the value in canonical order.
-/

namespace Rationale.Json

/-- The bytes that stand for a value whatever the order of its members. -/
def canonicalBytes (v : Json) : ByteArray := v.canonicalText.toUTF8

/-- The value that bytes are, read as a whole. -/
def ofBytes? (bytes : ByteArray) : Option Json := do
  ofText? (← String.fromUTF8? bytes)

/-! ## Texts -/

theorem Plain.ofChars?_compactText {v : Json} (hv : v.Plain) (care : Care) :
    ofChars? care v.compactText.toList = some v := by
  unfold compactText
  rw [String.toList_ofList]
  exact hv.ofChars?_print Layout.compact_blank care

/-- A compact text is read as its value. -/
theorem Plain.ofText?_compactText {v : Json} (hv : v.Plain)
    (hdepth : v.depth ≤ maxDepth) : ofText? v.compactText = some v := by
  simp [ofText?, hv.ofChars?_compactText, hdepth]

/-- No two values have one compact text. -/
theorem compactText_inj {v w : Json} (hv : v.Plain) (hw : w.Plain)
    (h : v.compactText = w.compactText) : v = w := by
  have hread := hv.ofChars?_compactText .full
  rw [h, hw.ofChars?_compactText] at hread
  exact (Option.some.inj hread).symm

theorem canonicalText_eq_iff {v w : Json} (hv : v.Plain) (hw : w.Plain) :
    v.canonicalText = w.canonicalText ↔ Reordered v w := by
  unfold canonicalText
  constructor
  · intro h
    have hsorted := compactText_inj hv.sorted hw.sorted h
    have hv' := reordered_sorted hv
    rw [hsorted] at hv'
    exact hv'.trans (reordered_sorted hw).symm
  · intro h
    rw [sorted_eq_of_reordered h hv]

/-! ## Bytes -/

theorem fromUTF8?_toUTF8 (s : String) : String.fromUTF8? s.toUTF8 = some s := by
  unfold String.fromUTF8?
  rw [String.toUTF8_eq_toByteArray, dif_pos s.isValidUTF8]
  rfl

theorem canonicalBytes_eq_iff {v w : Json} (hv : v.Plain) (hw : w.Plain) :
    v.canonicalBytes = w.canonicalBytes ↔ Reordered v w := by
  unfold canonicalBytes
  rw [String.toUTF8_eq_toByteArray, String.toUTF8_eq_toByteArray,
    String.toByteArray_inj]
  exact canonicalText_eq_iff hv hw

/-- The canonical bytes are read as the value in canonical order. -/
theorem ofBytes?_canonicalBytes {v : Json} (hv : v.Plain)
    (hdepth : v.depth ≤ maxDepth) :
    ofBytes? v.canonicalBytes = some v.sorted := by
  have hsorted : v.sorted.depth ≤ maxDepth := by
    rw [(reordered_sorted hv).depth_eq]
    exact hdepth
  unfold ofBytes? canonicalBytes
  rw [fromUTF8?_toUTF8]
  exact hv.sorted.ofText?_compactText hsorted

/-- A value has the bytes of its canonical order. -/
theorem canonicalBytes_sorted {v : Json} (hv : v.Plain) :
    v.sorted.canonicalBytes = v.canonicalBytes := by
  unfold canonicalBytes canonicalText
  rw [sorted_sorted hv]

/-- The canonical bytes are a canonical form up to the order of members.

* Two values have the same bytes exactly when they differ in the order of
  members only.
* A value that is not nested too deeply is read back from its bytes up to the
  order of members, and what is read has the same bytes.
* The bytes are the text of a value in which the keys of every record ascend
  strictly by their own bytes. -/
theorem canonicalBytes_canonical {v w : Json} (hv : v.Plain) (hw : w.Plain) :
    (v.canonicalBytes = w.canonicalBytes ↔ Reordered v w) ∧
      (v.depth ≤ maxDepth → ∃ u, ofBytes? v.canonicalBytes = some u ∧
        Reordered u v ∧ u.canonicalBytes = v.canonicalBytes) ∧
      ∃ u, v.canonicalBytes = u.compactText.toUTF8 ∧
        ofChars? .full u.compactText.toList = some u ∧ u.KeysAscend := by
  refine ⟨canonicalBytes_eq_iff hv hw, ?_, ?_⟩
  · intro hdepth
    exact ⟨v.sorted, ofBytes?_canonicalBytes hv hdepth,
      (reordered_sorted hv).symm, canonicalBytes_sorted hv⟩
  · exact ⟨v.sorted, rfl, hv.sorted.ofChars?_compactText .full,
      keysAscend_sorted hv⟩

/-- A value with members out of order on two levels. -/
def unordered : Json :=
  .record [("zeta", .integer 1), ("alpha", .record
    [("second", .bool true), ("first", .list [.integer 3, .integer 2])])]

/-- The same value with its members in order. -/
def ordered : Json :=
  .record [("alpha", .record
    [("first", .list [.integer 3, .integer 2]), ("second", .bool true)]),
    ("zeta", .integer 1)]

example : unordered.canonicalText =
    "\x7b\"alpha\":\x7b\"first\":[3,2],\"second\":true\x7d,\"zeta\":1\x7d" := by
  decide

theorem reordered_unordered : Reordered unordered ordered :=
  .trans (.swap [] _ _ []) (.member [] "alpha" _ (.swap [] _ _ []))

theorem plain_unordered : unordered.Plain := by
  have hinteger (n : Nat) (h : n < 10) : Plain (.integer n) :=
    .integer (by omega) (by simp [Word.count]; omega)
  unfold unordered
  apply Plain.record (by decide)
  simp only [List.forall_mem_cons]
  refine ⟨hinteger 1 (by omega), ?_, by simp⟩
  apply Plain.record (by decide)
  simp only [List.forall_mem_cons]
  refine ⟨.bool true, ?_, by simp⟩
  apply Plain.list
  simp only [List.forall_mem_cons]
  exact ⟨hinteger 3 (by omega), hinteger 2 (by omega), by simp⟩

theorem canonicalBytes_canonical_unordered :
    unordered.Plain ∧ ordered.Plain ∧
      unordered.canonicalBytes = ordered.canonicalBytes ∧
      ∃ u, ofBytes? unordered.canonicalBytes = some u ∧ Reordered u unordered ∧
        u.canonicalBytes = unordered.canonicalBytes := by
  have hplain := reordered_unordered.plain plain_unordered
  have hform := canonicalBytes_canonical plain_unordered hplain
  exact ⟨plain_unordered, hplain, hform.1.2 reordered_unordered,
    hform.2.1 (by decide)⟩

end Rationale.Json
