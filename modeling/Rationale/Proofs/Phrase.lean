import Mathlib.Data.List.Basic
import Rationale.Causality
import Rationale.Statement

/-!
# Phrases

A statement on one line is a chain of phrases with operators between them.
A phrase is a name, a negated phrase, or a chain in brackets.  There are
three groups.

* Phrases and chains.  A `Name` is free of the marks that statements are
  built with.  `Phrase.text` and `Chain.text` write down the characters.
* Unique readability.  By `Phrase.text_inj` and `Chain.text_inj` a text is
  that of at most one phrase or chain, whatever is written behind it.
* Truth.  `Chain.holds` reads a chain under an assignment of truth values
  to names.  `Chain.under` is a chain as an operand, `Chain.join` writes
  operands behind each other, and `Chain.holds_join` says that the operator
  between them is read as it was applied.
-/

namespace Rationale

/-! ## Phrases and chains -/

/-- Whether statements are built with the character. -/
def isMark (c : Char) : Bool :=
  c ∈ [' ', '(', ')', '&', '|', '^', '!']

/-- Whether a text can stand for itself in a statement. -/
def IsName (text : String) : Prop :=
  text.toList ≠ [] ∧ text.toList.all fun c => !isMark c

instance (text : String) : Decidable (IsName text) :=
  inferInstanceAs (Decidable (_ ∧ _))

theorem IsName.isMark_eq_false {text : String} (h : IsName text) :
    ∀ c ∈ text.toList, isMark c = false := by
  intro c hc
  simpa using List.all_eq_true.1 h.2 c hc

/-- A text that can stand for itself in a statement. -/
structure Name where
  /-- The text. -/
  text : String
  /-- The text is not empty and free of marks. -/
  isName : IsName text

mutual

/-- What stands between two operators. -/
inductive Phrase where
  /-- A name. -/
  | name (name : Name)
  /-- A negated phrase. -/
  | not (part : Phrase)
  /-- A chain in brackets. -/
  | brackets (chain : Chain)

/-- Phrases with operators between them. -/
inductive Chain where
  /-- One phrase. -/
  | one (phrase : Phrase)
  /-- A phrase, an operator and the rest of the chain. -/
  | more (phrase : Phrase) (op : Operator) (rest : Chain)

end

/-- What is written between two phrases. -/
def Operator.separator (op : Operator) : List Char :=
  (" " ++ op.statementSymbol ++ " ").toList

mutual

/-- The phrase as it is written. -/
def Phrase.text : Phrase → List Char
  | .name name => name.text.toList
  | .not part => '!' :: part.text
  | .brackets chain => '(' :: chain.text ++ [')']

/-- The chain as it is written. -/
def Chain.text : Chain → List Char
  | .one phrase => phrase.text
  | .more phrase op rest => phrase.text ++ op.separator ++ rest.text

end

/-! ## Unique readability -/

theorem Name.text_injective : Function.Injective Name.text := by
  rintro ⟨text, htext⟩ ⟨text', htext'⟩ h
  cases h
  rfl

/-- No name starts with a mark. -/
theorem Name.text_append_ne (name : Name) {c : Char} (hc : isMark c)
    (rest tail : List Char) : name.text.toList ++ rest ≠ c :: tail := by
  intro h
  have hplain := name.isName.isMark_eq_false
  cases htext : name.text.toList with
  | nil => exact name.isName.1 htext
  | cons d rest' =>
    simp only [htext, List.cons_append, List.cons.injEq] at h
    have hd : isMark d = false := hplain d (htext ▸ List.mem_cons_self)
    rw [h.1, hc] at hd
    cases hd

/-- Texts without marks end at the first mark behind them. -/
theorem append_inj_of_marks {s t rest rest' : List Char}
    (hs : ∀ c ∈ s, isMark c = false) (ht : ∀ c ∈ t, isMark c = false)
    (hrest : ∀ c ∈ rest.head?, isMark c) (hrest' : ∀ c ∈ rest'.head?, isMark c)
    (h : s ++ rest = t ++ rest') : s = t ∧ rest = rest' := by
  induction s generalizing t with
  | nil =>
    cases t with
    | nil => exact ⟨rfl, h⟩
    | cons c t =>
      obtain rfl : rest = c :: (t ++ rest') := h
      have hmark : isMark c := hrest c rfl
      rw [ht c List.mem_cons_self] at hmark
      cases hmark
  | cons c s ih =>
    cases t with
    | nil =>
      obtain rfl : rest' = c :: (s ++ rest) := h.symm
      have hmark : isMark c := hrest' c rfl
      rw [hs c List.mem_cons_self] at hmark
      cases hmark
    | cons c' t =>
      obtain ⟨rfl, htail⟩ := List.cons.inj h
      obtain ⟨rfl, hsame⟩ := ih (fun d hd => hs d (List.mem_cons_of_mem c hd))
        (fun d hd => ht d (List.mem_cons_of_mem c hd)) htail
      exact ⟨rfl, hsame⟩

/-- No operator is written like the beginning of another one. -/
theorem separator_inj {op op' : Operator} {rest rest' : List Char}
    (h : op.separator ++ rest = op'.separator ++ rest') :
    op = op' ∧ rest = rest' := by
  have hand : Operator.separator .and = [' ', '&', ' '] := by decide
  have hor : Operator.separator .or = [' ', '|', ' '] := by decide
  have hxor : Operator.separator .xor = [' ', '^', ' '] := by decide
  have hnot : Operator.separator .not = [' ', ' '] := by decide
  have handAlso : Operator.separator .andAlso = [' ', '&', '&', ' '] := by
    decide
  have horElse : Operator.separator .orElse = [' ', '|', '|', ' '] := by
    decide
  cases op <;> cases op' <;>
    simp [hand, hor, hxor, hnot, handAlso, horElse] at h ⊢ <;> exact h

/-- A separator starts with a mark. -/
theorem isMark_separator (op : Operator) (rest : List Char) :
    ∀ c ∈ (op.separator ++ rest).head?, isMark c := by
  cases op <;> simp [Operator.separator, isMark]

/-- A chain goes on behind a separator and not behind what ends it. -/
theorem ne_separator {rest : List Char} (h : ∀ c ∈ rest.head?, c = ')')
    (op : Operator) (tail : List Char) : rest ≠ op.separator ++ tail := by
  rintro rfl
  cases op <;> simp [Operator.separator] at h

mutual

/-- A text is that of at most one phrase, whatever mark stands behind it. -/
theorem Phrase.text_inj (p q : Phrase) {rest rest' : List Char}
    (hrest : ∀ c ∈ rest.head?, isMark c) (hrest' : ∀ c ∈ rest'.head?, isMark c)
    (h : p.text ++ rest = q.text ++ rest') : p = q ∧ rest = rest' := by
  cases p with
  | name name =>
    cases q with
    | name name' =>
      obtain ⟨hname, hsame⟩ := append_inj_of_marks
        name.isName.isMark_eq_false name'.isName.isMark_eq_false hrest hrest' h
      obtain rfl := Name.text_injective (String.toList_inj.1 hname)
      exact ⟨rfl, hsame⟩
    | not part => exact absurd h (name.text_append_ne rfl _ _)
    | brackets chain => exact absurd h (name.text_append_ne rfl _ _)
  | not part =>
    cases q with
    | name name => exact absurd h.symm (name.text_append_ne rfl _ _)
    | not part' =>
      have htail := (List.cons.inj h).2
      obtain ⟨rfl, hsame⟩ := Phrase.text_inj part part' hrest hrest' htail
      exact ⟨rfl, hsame⟩
    | brackets chain => cases (List.cons.inj h).1
  | brackets chain =>
    cases q with
    | name name => exact absurd h.symm (name.text_append_ne rfl _ _)
    | not part => cases (List.cons.inj h).1
    | brackets chain' =>
      simp only [Phrase.text, List.cons_append, List.append_assoc,
        List.cons.injEq, true_and, List.nil_append] at h
      obtain ⟨rfl, hsame⟩ :=
        Chain.text_inj chain chain' (by simp) (by simp) h
      exact ⟨rfl, (List.cons.inj hsame).2⟩

/-- A text is that of at most one chain, at the end or before a closing
bracket. -/
theorem Chain.text_inj (a b : Chain) {rest rest' : List Char}
    (hrest : ∀ c ∈ rest.head?, c = ')') (hrest' : ∀ c ∈ rest'.head?, c = ')')
    (h : a.text ++ rest = b.text ++ rest') : a = b ∧ rest = rest' := by
  have hmark {rest : List Char} (h : ∀ c ∈ rest.head?, c = ')') :
      ∀ c ∈ rest.head?, isMark c := by
    intro c hc
    rw [h c hc]
    rfl
  cases a with
  | one p =>
    cases b with
    | one q =>
      obtain ⟨rfl, hsame⟩ := Phrase.text_inj p q (hmark hrest) (hmark hrest') h
      exact ⟨rfl, hsame⟩
    | more q op b =>
      simp only [Chain.text, List.append_assoc] at h
      obtain ⟨-, hsame⟩ :=
        Phrase.text_inj p q (hmark hrest) (isMark_separator op _) h
      exact absurd hsame (ne_separator hrest op _)
  | more p op a =>
    cases b with
    | one q =>
      simp only [Chain.text, List.append_assoc] at h
      obtain ⟨-, hsame⟩ :=
        Phrase.text_inj p q (isMark_separator op _) (hmark hrest') h
      exact absurd hsame.symm (ne_separator hrest' op _)
    | more q op' b =>
      simp only [Chain.text, List.append_assoc] at h
      obtain ⟨rfl, hsame⟩ :=
        Phrase.text_inj p q (isMark_separator op _) (isMark_separator op' _) h
      obtain ⟨rfl, hbehind⟩ := separator_inj hsame
      obtain ⟨rfl, hend⟩ := Chain.text_inj a b hrest hrest' hbehind
      exact ⟨rfl, hend⟩

end

/-! ## Truth -/

namespace Operator

variable {op : Operator}

/-- A binary operator applied to a list is the operator applied to its head
and to what it makes of the tail. -/
theorem holds_cons (h : op ≠ .not) (b : Bool) (bs : List Bool) :
    op.holds (b :: bs) = op.holds [b, op.holds bs] := by
  cases op with
  | not => exact absurd rfl h
  | and | andAlso | or | orElse => simp [holds]
  | xor =>
    rcases Nat.mod_two_eq_zero_or_one (bs.count true) with heven | hodd
    · cases b with
      | false => simp [holds, heven]
      | true =>
        simp [holds, heven]
        omega
    · cases b with
      | false => simp [holds, hodd]
      | true =>
        simp [holds, hodd]
        omega

theorem holds_singleton (h : op ≠ .not) (b : Bool) : op.holds [b] = b := by
  cases op <;> cases b <;> first | rfl | exact absurd rfl h

/-- A binary operator is associative. -/
theorem holds_assoc (h : op ≠ .not) (a b c : Bool) :
    op.holds [op.holds [a, b], c] = op.holds [a, op.holds [b, c]] := by
  cases op with
  | not => exact absurd rfl h
  | and | andAlso | or | orElse | xor => revert a b c; decide

end Operator

mutual

/-- Whether the phrase holds under an assignment of truth values. -/
def Phrase.holds (v : String → Bool) : Phrase → Bool
  | .name name => v name.text
  | .not part => !part.holds v
  | .brackets chain => chain.holds v

/-- Whether the chain holds under an assignment of truth values. -/
def Chain.holds (v : String → Bool) : Chain → Bool
  | .one phrase => phrase.holds v
  | .more phrase op rest => op.holds [phrase.holds v, rest.holds v]

end

namespace Chain

/-- Whether the chain can be a part of a chain of `op` without brackets. -/
def Open (op : Operator) : Chain → Prop
  | .one _ => True
  | .more _ op' rest => op' = op ∧ op ≠ .not ∧ rest.Open op

/-- One chain behind another one. -/
def append (op : Operator) : Chain → Chain → Chain
  | .one phrase, b => .more phrase op b
  | .more phrase op' rest, b => .more phrase op' (rest.append op b)

/-- Several chains behind each other. -/
def join (op : Operator) : Chain → List Chain → Chain
  | a, [] => a
  | a, b :: rest => a.append op (join op b rest)

variable {op : Operator} {v : String → Bool}

theorem text_append (op : Operator) (a b : Chain) :
    (a.append op b).text = a.text ++ op.separator ++ b.text := by
  fun_induction append op a b with
  | case1 phrase b => rfl
  | case2 phrase op' rest b ih =>
    simp only [text, ih, List.append_assoc]

theorem Open.append (hop : op ≠ .not) {a b : Chain} (ha : a.Open op)
    (hb : b.Open op) : (a.append op b).Open op := by
  fun_induction Chain.append op a b with
  | case1 phrase b => exact ⟨rfl, hop, hb⟩
  | case2 phrase op' rest b ih => exact ⟨ha.1, hop, ih ha.2.2 hb⟩

/-- A chain that goes on is read in any order. -/
theorem holds_append (hop : op ≠ .not) {a : Chain} (ha : a.Open op)
    (b : Chain) :
    (a.append op b).holds v = op.holds [a.holds v, b.holds v] := by
  fun_induction Chain.append op a b with
  | case1 phrase b => rfl
  | case2 phrase op' rest b ih =>
    obtain ⟨rfl, -, hrest⟩ := ha
    rw [holds, holds, ih hrest, Operator.holds_assoc hop]

theorem text_join (op : Operator) (a : Chain) (rest : List Chain) :
    (join op a rest).text =
      op.separator.intercalate ((a :: rest).map text) := by
  induction rest generalizing a with
  | nil => simp [join]
  | cons b rest ih =>
    rw [join, text_append, ih, List.map_cons, List.map_cons, List.map_cons,
      List.intercalate_cons_cons]

theorem Open.join (hop : op ≠ .not) {a : Chain} {rest : List Chain}
    (h : ∀ b ∈ a :: rest, b.Open op) : (join op a rest).Open op := by
  induction rest generalizing a with
  | nil => exact h a List.mem_cons_self
  | cons b rest ih =>
    have ha := h a List.mem_cons_self
    exact ha.append hop (ih fun c hc => h c (List.mem_cons_of_mem a hc))

/-- Chains of one operator behind each other are read as the operator
applied to all of them. -/
theorem holds_join (hop : op ≠ .not) {a : Chain} {rest : List Chain}
    (h : ∀ b ∈ a :: rest, b.Open op) :
    (join op a rest).holds v = op.holds ((a :: rest).map (holds v)) := by
  induction rest generalizing a with
  | nil => exact (Operator.holds_singleton hop _).symm
  | cons b rest ih =>
    have ha := h a List.mem_cons_self
    have hrest := ih fun c hc => h c (List.mem_cons_of_mem a hc)
    rw [join, holds_append hop ha, hrest]
    exact (Operator.holds_cons hop ..).symm

/-- A chain as an operand of `op`, in brackets where `op` needs them. -/
def under (op : Operator) (child : Option Operator) (a : Chain) : Chain :=
  if op.bracketsChild child then .one (.brackets a) else a

theorem text_under {a : Chain} (operand : Operand)
    (h : a.text = operand.statement.toList) :
    (a.under op operand.operator).text = (operand.bracketed op).toList := by
  rw [under, Operand.bracketed]
  split
  · simp [text, Phrase.text, h]
  · exact h

theorem holds_under (op : Operator) (child : Option Operator) (a : Chain) :
    (a.under op child).holds v = a.holds v := by
  rw [under]
  split <;> rfl

theorem open_under {child : Option Operator} {a : Chain}
    (h : op.bracketsChild child = false → a.Open op) :
    (a.under op child).Open op := by
  rw [under]
  split
  · trivial
  · rename_i hbrackets
    exact h (Bool.eq_false_iff.2 hbrackets)

/-- What a negation applies to without brackets is one phrase. -/
theorem exists_one_of_open_not {a : Chain} (h : a.Open .not) :
    ∃ phrase, a = .one phrase := by
  cases a with
  | one phrase => exact ⟨phrase, rfl⟩
  | more phrase op rest => exact absurd rfl h.2.1

end Chain

end Rationale
