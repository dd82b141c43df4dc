/-!
# Ranges of code points

A property of characters is written out as a table of closed ranges of code
points, lowest first.  A search stops at the first range that ends at or
above the code point it looks for.  `covers_iff` says that the search misses
nothing when the table ascends.
-/

namespace Rationale.Text

/-- A table of closed ranges of code points. -/
abbrev Ranges := List (Nat × Nat)

namespace Ranges

/-- Whether each range starts no later than it ends and ends below the
start of the next one. -/
def ascends : Ranges → Bool
  | [] => true
  | [(low, high)] => low ≤ high
  | (low, high) :: (next, top) :: rest =>
    low ≤ high && high < next && ascends ((next, top) :: rest)

/-- Whether a code point is in one of the ranges of an ascending table. -/
def covers : Ranges → Nat → Bool
  | [], _ => false
  | (low, high) :: rest, n => if n ≤ high then low ≤ n else covers rest n

theorem ascends_of_cons {r : Nat × Nat} {rest : Ranges}
    (h : ascends (r :: rest) = true) : ascends rest = true := by
  cases rest with
  | nil => rfl
  | cons s rest =>
    simp only [ascends, Bool.and_eq_true] at h
    exact h.2

/-- Every later range starts above the end of the first one. -/
theorem lt_of_ascends_cons {r : Nat × Nat} {rest : Ranges}
    (h : ascends (r :: rest) = true) : ∀ s ∈ rest, r.2 < s.1 := by
  induction rest generalizing r with
  | nil => intro s hs; cases hs
  | cons t rest ih =>
    have hrest := ascends_of_cons h
    have hle : t.1 ≤ t.2 := by
      cases rest with
      | nil => simpa [ascends] using hrest
      | cons u rest =>
        simp only [ascends, Bool.and_eq_true, decide_eq_true_eq] at hrest
        exact hrest.1.1
    simp only [ascends, Bool.and_eq_true, decide_eq_true_eq] at h
    intro s hs
    rcases List.mem_cons.1 hs with rfl | hs
    · exact h.1.2
    · have := ih hrest s hs
      omega

/-- The search of an ascending table finds a code point exactly when one
of the ranges holds it. -/
theorem covers_iff {ranges : Ranges} (h : ranges.ascends = true) {n : Nat} :
    ranges.covers n = true ↔ ∃ r ∈ ranges, r.1 ≤ n ∧ n ≤ r.2 := by
  induction ranges with
  | nil => simp [covers]
  | cons r rest ih =>
    have hlater := lt_of_ascends_cons h
    rw [covers]
    split
    · rename_i hn
      constructor
      · intro hlow
        exact ⟨r, List.mem_cons_self, of_decide_eq_true hlow, hn⟩
      · rintro ⟨s, hs, hlow, _⟩
        rcases List.mem_cons.1 hs with rfl | hs
        · exact decide_eq_true hlow
        · have := hlater s hs
          omega
    · rename_i hn
      rw [ih (ascends_of_cons h)]
      constructor
      · rintro ⟨s, hs, hin⟩
        exact ⟨s, List.mem_cons_of_mem r hs, hin⟩
      · rintro ⟨s, hs, hin⟩
        rcases List.mem_cons.1 hs with rfl | hs
        · exact absurd hin.2 hn
        · exact ⟨s, hs, hin⟩

end Ranges

end Rationale.Text
