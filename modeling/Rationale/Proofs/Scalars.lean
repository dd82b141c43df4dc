import Mathlib.Tactic.SplitIfs
import Rationale.Json.Printer
import Rationale.Json.Reader

/-!
# Printed scalars

A printed text, and a printed integer within 64 bits, are read back, and what
stands behind them is left over.  A text ends with its quotation mark.  An
integer has no end of its own: `Ends` says that what stands behind it is not
part of a number.
-/

namespace Rationale.Json

/-! ## White space -/

theorem isSpace_iff {c : Char} :
    isSpace c ↔ c = ' ' ∨ c = '\n' ∨ c = '\t' ∨ c = '\r' := by
  simp [isSpace, or_assoc]

theorem skipSpace_blank {blank : List Char} (h : ∀ c ∈ blank, isSpace c)
    (input : List Char) : skipSpace (blank ++ input) = skipSpace input := by
  unfold skipSpace
  exact List.dropWhile_append_of_pos h

theorem skipSpace_cons {c : Char} (h : isSpace c = false) (rest : List Char) :
    skipSpace (c :: rest) = c :: rest := by
  unfold skipSpace
  rw [List.dropWhile_cons_of_neg]
  simp [h]

/-! ## Texts -/

theorem hexValue?_hexDigit {n : Nat} (h : n < 16) :
    hexValue? (hexDigit n) = some n := by
  revert n
  decide

/-- An escape of one letter is read as its character. -/
theorem readUnits_letter {c d : Char} {input units rest}
    (hd : escaped? d = some c) (h : readUnits input = some (units, rest)) :
    readUnits ('\\' :: d :: input) = some (c.toNat :: units, rest) := by
  rw [readUnits]
  · simp [hd, h]
  · rintro _ _ _ _ _ rfl
    exact absurd hd (by simp [escaped?])

/-- A character is read back from what is written for it. -/
theorem readUnits_escapeChar (c : Char) {input units rest}
    (h : readUnits input = some (units, rest)) :
    readUnits (escapeChar c ++ input) = some (c.toNat :: units, rest) := by
  unfold escapeChar
  split_ifs with hquote hslash hb ht hn hf hr hcontrol
  · exact readUnits_letter (by rw [hquote]; rfl) h
  · exact readUnits_letter (by rw [hslash]; rfl) h
  · exact readUnits_letter (by rw [hb]; rfl) h
  · exact readUnits_letter (by rw [ht]; rfl) h
  · exact readUnits_letter (by rw [hn]; rfl) h
  · exact readUnits_letter (by rw [hf]; rfl) h
  · exact readUnits_letter (by rw [hr]; rfl) h
  · have hzero : hexValue? '0' = some 0 := by decide
    have hhigh := hexValue?_hexDigit (n := c.toNat / 16) (by omega)
    have hlow := hexValue?_hexDigit (n := c.toNat % 16) (by omega)
    have hunit : c.toNat / 16 * 16 + c.toNat % 16 = c.toNat := by omega
    simp [readUnits, hexValue4?, hzero, hhigh, hlow, hunit, h]
  · rw [List.singleton_append, readUnits]
    · simp [hquote, hcontrol, h]
    · intro _ _ _ _ _ hc
      exact absurd hc hslash
    · intro _ _ hc
      exact absurd hc hslash

theorem readUnits_flatMap (cs rest : List Char) :
    readUnits (cs.flatMap escapeChar ++ '"' :: rest) =
      some (cs.map Char.toNat, rest) := by
  induction cs with
  | nil => simp [readUnits]
  | cons c cs ih =>
    rw [List.flatMap_cons, List.append_assoc, List.map_cons]
    exact readUnits_escapeChar c ih

/-- No character is half of a pair. -/
theorem not_surrogate (c : Char) :
    isHighSurrogate c.toNat = false ∧ isLowSurrogate c.toNat = false := by
  have hvalid : c.toNat < 0xd800 ∨ 0xdfff < c.toNat ∧ c.toNat < 0x110000 :=
    c.valid
  unfold isHighSurrogate isLowSurrogate
  constructor <;> simp <;> omega

theorem joinUnits_toNat (cs : List Char) :
    joinUnits (cs.map Char.toNat) = some cs := by
  induction cs with
  | nil => rfl
  | cons c cs ih =>
    cases cs with
    | nil => simp [joinUnits, not_surrogate, Char.ofNat_toNat]
    | cons d cs =>
      simp only [List.map_cons] at ih ⊢
      simp [joinUnits, not_surrogate, Char.ofNat_toNat, ih]

/-- A text is read back. -/
theorem readText_print (strict : Bool) (s : String) (rest : List Char) :
    readText strict (s.toList.flatMap escapeChar ++ '"' :: rest) =
      some (s, rest) := by
  unfold readText
  rw [readUnits_flatMap]
  simp [joinUnits_toNat]

/-! ## Integers -/

/-- Whether a number that stands in front of these characters ends where they
begin. -/
def Ends (rest : List Char) : Prop :=
  ∀ c ∈ rest.head?, c.isDigit = false ∧ c ≠ '.' ∧ c ≠ 'e' ∧ c ≠ 'E'

theorem ends_nil : Ends [] := by
  intro c hc
  simp at hc

theorem ends_cons {c : Char} (rest : List Char)
    (h : c.isDigit = false ∧ c ≠ '.' ∧ c ≠ 'e' ∧ c ≠ 'E') : Ends (c :: rest) := by
  intro d hd
  obtain rfl : c = d := by simpa using hd
  exact h

theorem ends_blank {blank : List Char} {rest : List Char}
    (hblank : ∀ c ∈ blank, isSpace c) (h : Ends rest) :
    Ends (blank ++ rest) := by
  cases blank with
  | nil => exact h
  | cons c blank =>
    apply ends_cons
    rcases isSpace_iff.1 (hblank c (by simp)) with rfl | rfl | rfl | rfl <;> decide

/-- Digits are read up to where they end. -/
theorem readDigits_append {digits rest : List Char}
    (hdigits : ∀ c ∈ digits, c.isDigit) (hne : digits ≠ []) (h : Ends rest) :
    readDigits (digits ++ rest) = some (digits, rest) := by
  have hrest : rest.takeWhile Char.isDigit = [] ∧
      rest.dropWhile Char.isDigit = rest := by
    cases rest with
    | nil => exact ⟨rfl, rfl⟩
    | cons c rest => simp [(h c (by simp)).1]
  unfold readDigits
  rw [List.takeWhile_append_of_pos hdigits, List.dropWhile_append_of_pos hdigits,
    hrest.1, hrest.2, List.append_nil]
  cases digits with
  | nil => exact absurd rfl hne
  | cons c digits => rfl

theorem readFraction_ends {rest : List Char} (h : Ends rest) :
    readFraction rest = some ([], rest) := by
  unfold readFraction
  split
  · exact absurd rfl (h '.' (by simp)).2.1
  · rfl

theorem readExponent_ends {rest : List Char} (h : Ends rest) :
    readExponent rest = some ([], rest) := by
  unfold readExponent
  split
  · rfl
  · rename_i c rest
    have hc := (h c (by simp)).2.2
    rw [if_neg (by simp [hc])]

theorem toDigits_eq_cons (n : Nat) :
    ∃ c digits, Nat.toDigits 10 n = c :: digits ∧ c.isDigit := by
  obtain ⟨c, digits, hcons⟩ :=
    List.exists_cons_of_ne_nil (Nat.toDigits_ne_nil (b := 10) (n := n))
  have hmem : c ∈ Nat.toDigits 10 n := by simp [hcons]
  exact ⟨c, digits, hcons, Nat.isDigit_of_mem_toDigits (by omega) (by omega) hmem⟩

/-- The digits of a number start with a zero for zero only. -/
theorem toDigits_head (n : Nat) (h : (Nat.toDigits 10 n).head? = some '0') :
    Nat.toDigits 10 n = ['0'] := by
  induction n using Nat.strongRecOn with
  | ind n ih =>
    by_cases hn : n < 10
    · rw [Nat.toDigits_of_lt_base hn] at h ⊢
      simpa using h
    · rw [Nat.toDigits_of_base_le (by omega) (by omega)] at h
      have hhead : (Nat.toDigits 10 (n / 10)).head? = some '0' := by
        obtain ⟨c, digits, hcons, -⟩ := toDigits_eq_cons (n / 10)
        rw [hcons] at h ⊢
        exact h
      -- the digits in front would be those of zero
      have hzero := ih (n / 10) (by omega) hhead
      have hvalue := congrArg (Nat.ofDigitChars 10 · 0) hzero
      simp only [Nat.ofDigitChars_ten_toDigits] at hvalue
      have : Nat.ofDigitChars 10 ['0'] 0 = 0 := by decide
      omega

/-- The digits of a number are read back. -/
theorem readUnsigned_toDigits (negative : Bool) (n : Nat) {rest : List Char}
    (h : Ends rest) :
    readUnsigned negative (Nat.toDigits 10 n ++ rest) =
      some (integerOrDecimal negative (Nat.toDigits 10 n), rest) := by
  have hdigits : ∀ c ∈ Nat.toDigits 10 n, c.isDigit := fun c hc =>
    Nat.isDigit_of_mem_toDigits (by omega) (by omega) hc
  have hzero : ¬((Nat.toDigits 10 n).head? = some '0' ∧
      Nat.toDigits 10 n ≠ ['0']) := by
    rintro ⟨hhead, hne⟩
    exact hne (toDigits_head n hhead)
  unfold readUnsigned
  rw [readDigits_append hdigits Nat.toDigits_ne_nil h]
  simp [hzero, readFraction_ends h, readExponent_ends h]

theorem printInteger_eq_cons (n : Int) :
    ∃ c rest, printInteger n = c :: rest ∧ (c.isDigit ∨ c = '-') := by
  cases n with
  | ofNat n =>
    obtain ⟨c, digits, hcons, hc⟩ := toDigits_eq_cons n
    exact ⟨c, digits, hcons, .inl hc⟩
  | negSucc n => exact ⟨'-', Nat.toDigits 10 (n + 1), rfl, .inr rfl⟩

/-- An integer does not start with white space. -/
theorem isSpace_of_number {c : Char} (h : c.isDigit ∨ c = '-') :
    isSpace c = false := by
  cases hspace : isSpace c with
  | false => rfl
  | true =>
    rcases isSpace_iff.1 hspace with rfl | rfl | rfl | rfl <;> revert h <;> decide

/-- An integer is read back. -/
theorem readNumber_printInteger {n : Int} (low : -(Word.half : Int) ≤ n)
    (high : n < (Word.count : Int)) {rest : List Char} (h : Ends rest) :
    readNumber (printInteger n ++ rest) = some (.integer n, rest) := by
  cases n with
  | ofNat n =>
    -- the reader looks for a sign first
    have hhead : ∀ tail, Nat.toDigits 10 n ++ rest ≠ '-' :: tail := by
      intro tail heq
      obtain ⟨c, digits, hcons, hc⟩ := toDigits_eq_cons n
      rw [hcons] at heq
      obtain ⟨rfl, -⟩ := List.cons.inj heq
      exact absurd hc (by decide)
    have hn : n < Word.count := Int.ofNat_lt.1 high
    rw [printInteger, readNumber, readUnsigned_toDigits false n h]
    · simp [integerOrDecimal, Nat.ofDigitChars_ten_toDigits, hn]
    · exact hhead
  | negSucc n =>
    have hn : n + 1 ≤ Word.half := by omega
    rw [printInteger, List.cons_append, readNumber, readUnsigned_toDigits true _ h]
    simp [integerOrDecimal, Nat.ofDigitChars_ten_toDigits, hn, Int.negSucc_eq]

end Rationale.Json
