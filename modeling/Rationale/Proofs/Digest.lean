import Rationale.Proofs.Made
import Rationale.Proofs.Stored

/-!
# Digests of reports

The digest of a report is the hash of bytes that hold every other field, so a
report that was altered is noticed unless its bytes and those of the original
collide.  There are three groups.

* Hexadecimal.  Different digests are different in hexadecimal.
* Hashed bytes.  `Report.hashedBytes` are the bytes that are hashed.  By
  `hashedBytes_eq_iff` they say what the report says, in every field but its
  digest.
* Verification.  `verify_restamped_iff` says which digest a report verifies
  with, and `digests_sound` puts the results together.
-/

namespace Rationale

/-! ## Hexadecimal -/

namespace Sha256

/-- Whether two different messages have one digest. -/
def Collides (a b : List UInt8) : Prop := a ≠ b ∧ digest a = digest b

instance (a b : List UInt8) : Decidable (Collides a b) :=
  inferInstanceAs (Decidable (_ ∧ _))

theorem hexByte_injective : Function.Injective hexByte := by
  intro a b h
  have hdigit {m n : Nat} (hm : m < 16) (hn : n < 16)
      (h : Nat.digitChar m = Nat.digitChar n) : m = n := by
    have hread := congrArg Json.hexValue? h
    rw [← Json.hexDigit, ← Json.hexDigit, Json.hexValue?_hexDigit hm,
      Json.hexValue?_hexDigit hn] at hread
    exact Option.some.inj hread
  have ha := a.toNat_lt
  have hb := b.toNat_lt
  obtain ⟨hhigh, hrest⟩ := List.cons.inj h
  obtain ⟨hlow, -⟩ := List.cons.inj hrest
  have hhigh := hdigit (by omega) (by omega) hhigh
  have hlow := hdigit (by omega) (by omega) hlow
  apply UInt8.toNat_inj.1
  omega

theorem flatMap_hexByte_injective :
    Function.Injective fun bytes : List UInt8 => bytes.flatMap hexByte := by
  intro as bs h
  induction as generalizing bs with
  | nil =>
    cases bs with
    | nil => rfl
    | cons b bs => simp [hexByte] at h
  | cons a as ih =>
    cases bs with
    | nil => simp [hexByte] at h
    | cons b bs =>
      -- every byte takes two digits
      obtain ⟨hbyte, hrest⟩ := List.append_inj h rfl
      rw [hexByte_injective hbyte, ih hrest]

/-- Two texts have one digest in hexadecimal when their bytes have one
digest. -/
theorem hexDigest_eq_iff (s t : String) :
    hexDigest s = hexDigest t ↔
      digest s.toUTF8.toList = digest t.toUTF8.toList := by
  unfold hexDigest
  rw [String.ofList_inj]
  exact flatMap_hexByte_injective.eq_iff

/-- The bytes that are left to be listed stand behind those that were listed
already. -/
theorem toList_loop (bytes : ByteArray) (i : Nat) (listed : List UInt8) :
    ByteArray.toList.loop bytes i listed =
      listed.reverse ++ bytes.data.toList.drop i := by
  fun_induction ByteArray.toList.loop bytes i listed with
  | case1 i listed hlt ih =>
    have hi : i < bytes.data.toList.length := by simpa using hlt
    have hbyte : bytes.get! i = bytes.data.toList[i] := getElem!_pos bytes.data i hlt
    rw [ih, List.drop_eq_getElem_cons hi, hbyte, List.reverse_cons,
      List.append_assoc, List.singleton_append]
  | case2 i listed hge =>
    have hi : bytes.data.toList.length ≤ i := by simpa using hge
    rw [List.drop_of_length_le hi, List.append_nil]

theorem toList_inj {bytes bytes' : ByteArray} :
    bytes.toList = bytes'.toList ↔ bytes = bytes' := by
  have hdata (bytes : ByteArray) : bytes.toList = bytes.data.toList := by
    unfold ByteArray.toList
    rw [toList_loop]
    rfl
  rw [hdata, hdata, Array.toList_inj, ByteArray.ext_iff]

end Sha256

namespace Report

/-! ## Hashed bytes -/

/-- The bytes that are hashed for the digest of a report. -/
def hashedBytes (p : Report) : List UInt8 := p.hashedText.toUTF8.toList

/-- Whether two reports agree on every field but the digest. -/
structure SameContents (p q : Report) : Prop where
  statement : p.statement = q.statement
  satisfied : p.satisfied = q.satisfied
  reason : p.reason = q.reason
  assertions : p.assertions = q.assertions
  causalOperandCount : p.causalOperandCount = q.causalOperandCount
  justification : p.justification = q.justification

/-- The record that is hashed has its members in alphabetical order. -/
theorem sorted_toJson (p : Report) :
    p.toJson.sorted = .record
      [("assertions", .list (p.assertions.map .text)),
        ("causal_operand_count", .integer p.causalOperandCount),
        ("digest", .text p.digest),
        ("justification", .list (p.justification.map .text)),
        ("reason", .text p.reason), ("satisfied", .bool p.satisfied),
        ("statement", .text p.statement)] := by
  have htexts (texts : List String) :
      (Json.list (texts.map .text)).sorted = .list (texts.map .text) := by
    rw [Json.sorted_list, List.map_map]
    rfl
  unfold toJson
  rw [Json.sorted_record]
  -- the lists first, since `Json.sorted` would open them
  simp only [List.map_cons, List.map_nil, Json.sortedMember, htexts]
  simp only [insertAll, insertEntry, Json.sorted, List.foldl_cons,
    List.foldl_nil, String.reduceLT, String.reduceEq, reduceIte]

theorem sameContents_of_toJson {p q : Report}
    (h : p.toJson.sorted = q.toJson.sorted) : p.SameContents q := by
  have htext : Function.Injective Json.text := fun _ _ h => Json.text.inj h
  rw [sorted_toJson, sorted_toJson] at h
  simp only [Json.record.injEq, List.cons.injEq, Prod.mk.injEq, true_and, and_true,
    Json.list.injEq, Json.integer.injEq, Json.text.injEq, Json.bool.injEq,
    Int.natCast_inj, (List.map_injective_iff.2 htext).eq_iff] at h
  obtain ⟨hassertions, hcount, -, hjustification, hreason, hsatisfied, hstatement⟩ := h
  exact ⟨hstatement, hsatisfied, hreason, hassertions, hcount, hjustification⟩

theorem hashedText_of_sameContents {p q : Report} (h : p.SameContents q) :
    p.hashedText = q.hashedText := by
  obtain ⟨hstatement, hsatisfied, hreason, hassertions, hcount, hjustification⟩ := h
  unfold hashedText
  rw [hstatement, hsatisfied, hreason, hassertions, hcount, hjustification]

/-- The hashed bytes say what the report says, in every field but the
digest. -/
theorem hashedBytes_eq_iff {p q : Report}
    (hp : p.causalOperandCount < Word.count)
    (hq : q.causalOperandCount < Word.count) :
    p.hashedBytes = q.hashedBytes ↔ p.SameContents q := by
  unfold hashedBytes
  rw [Sha256.toList_inj, String.toUTF8_eq_toByteArray,
    String.toUTF8_eq_toByteArray, String.toByteArray_inj]
  constructor
  · intro h
    have hsorted := Json.compactText_inj
      (plain_toJson (p := { p with digest := "" }) hp).sorted
      (plain_toJson (p := { q with digest := "" }) hq).sorted h
    obtain ⟨hstatement, hsatisfied, hreason, hassertions, hcount, hjustification⟩ :=
      sameContents_of_toJson hsorted
    exact ⟨hstatement, hsatisfied, hreason, hassertions, hcount, hjustification⟩
  · exact hashedText_of_sameContents

/-! ## Verification -/

theorem hash_eq_iff (p q : Report) :
    p.hash = q.hash ↔ Sha256.digest p.hashedBytes = Sha256.digest q.hashedBytes :=
  Sha256.hexDigest_eq_iff ..

theorem verify_iff (p : Report) : p.verify = true ↔ p.hash = p.digest :=
  decide_eq_true_iff

/-- A report verifies with the digest of its contents only, whatever digest it
has. -/
theorem verify_restamped_iff (p : Report) (digest : String) :
    ({ p with digest } : Report).verify = true ↔ digest = p.hash := by
  rw [verify_iff]
  exact eq_comm

theorem verify_ofResult {τ : Type} [DecidableEq τ] (r : Result τ) :
    (ofResult r).verify = true :=
  (verify_restamped_iff ..).2 rfl

/-- A report with the digest of one that verifies does so exactly when it says
the same, or when the bytes of the two collide. -/
theorem verify_altered_iff {p q : Report}
    (hp : p.causalOperandCount < Word.count)
    (hq : q.causalOperandCount < Word.count) (hverify : p.verify = true)
    (hdigest : q.digest = p.digest) :
    q.verify = true ↔
      p.SameContents q ∨ Sha256.Collides p.hashedBytes q.hashedBytes := by
  rw [verify_iff] at hverify
  rw [verify_iff, hdigest, ← hverify, eq_comm, hash_eq_iff,
    ← hashedBytes_eq_iff hp hq, Sha256.Collides]
  constructor
  · intro h
    by_cases heq : p.hashedBytes = q.hashedBytes
    · exact Or.inl heq
    · exact Or.inr ⟨heq, h⟩
  · rintro (heq | ⟨-, h⟩)
    · rw [heq]
    · exact h

/-- Digests are sound.

* The report of a result verifies, and so does what is read of its text.
* Another digest leaves the hash of a report as it is, and the report verifies
  with its hash and with no other digest.
* Two reports have the same hashed bytes exactly when they agree on every field
  but the digest.
* A report that verifies does so no longer once any other field was altered,
  unless the hashed bytes before and after collide. -/
theorem digests_sound {τ : Type} [DecidableEq τ] {r : Result τ} {p q : Report}
    (hcauses : r.causes.length < Word.count)
    (hp : p.causalOperandCount < Word.count)
    (hq : q.causalOperandCount < Word.count) (digest : String) :
    ((ofResult r).verify = true ∧
        ∃ p, ofText (ofResult r).toText = .ok p ∧ p.verify = true) ∧
      (({ p with digest } : Report).hash = p.hash ∧
        (({ p with digest } : Report).verify = true ↔ digest = p.hash)) ∧
      (p.hashedBytes = q.hashedBytes ↔ p.SameContents q) ∧
      (p.verify = true → q.digest = p.digest → ¬p.SameContents q →
        ¬Sha256.Collides p.hashedBytes q.hashedBytes → q.verify = false) := by
  refine ⟨⟨verify_ofResult r, ofResult r, ?_, verify_ofResult r⟩,
    ⟨rfl, verify_restamped_iff p digest⟩, hashedBytes_eq_iff hp hq, ?_⟩
  · exact ofText_textIn Json.Layout.indented_blank hcauses
  · intro hverify hdigest hdiffer hcollide
    rw [← Bool.not_eq_true, verify_altered_iff hp hq hverify hdigest]
    exact not_or.2 ⟨hdiffer, hcollide⟩

/-- The record of a decision that nothing explains, without its digest. -/
def paidUnstamped : Report where
  statement := "paid"
  satisfied := true
  reason := ""
  assertions := []
  causalOperandCount := 0
  justification := []
  digest := ""

/-- The record with its digest. -/
def paid : Report := { paidUnstamped with digest := paidUnstamped.hash }

/-- The record with its digest and the outcome turned round. -/
def unpaid : Report := { paid with satisfied := false }

/-- The outcome that was turned round is noticed. -/
theorem digests_sound_unpaid :
    Result.accepted.causes.length < Word.count ∧
      paid.causalOperandCount < Word.count ∧
      unpaid.causalOperandCount < Word.count ∧
      (∃ p, ofText (ofResult Result.accepted).toText = .ok p ∧ p.verify = true) ∧
      paid.verify = true ∧ unpaid.digest = paid.digest ∧
      paid.hashedBytes ≠ unpaid.hashedBytes ∧
      ¬Sha256.Collides paid.hashedBytes unpaid.hashedBytes ∧
      unpaid.verify = false := by
  have hcauses : Result.accepted.causes.length < Word.count := by decide
  have hcount : paid.causalOperandCount < Word.count := by decide
  have hverify : paid.verify = true := (verify_restamped_iff paidUnstamped _).2 rfl
  have hdiffer : ¬paid.SameContents unpaid := fun h =>
    absurd h.satisfied (by decide)
  have hcollide : ¬Sha256.Collides paid.hashedBytes unpaid.hashedBytes := by
    rintro ⟨-, h⟩
    exact absurd h (by decide +kernel)
  have hsound := digests_sound hcauses hcount (q := unpaid) hcount ""
  exact ⟨hcauses, hcount, hcount, hsound.1.2, hverify, rfl,
    fun h => hdiffer (hsound.2.2.1.1 h), hcollide,
    hsound.2.2.2 hverify rfl hdiffer hcollide⟩

end Report

end Rationale
