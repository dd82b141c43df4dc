import Rationale.Error.Storage
import Rationale.Notation.Storage
import Rationale.Proofs.CanonicalForm
import Rationale.Report

/-!
# Stored records are read back

A notation, a report and the details of an error are stored as JSON records of
known fields.  What was stored is what is read.  A member that was taken out of
a stored notation leaves its field at the usual value, and so does the digest
of a report.  There are three groups.

* Fields.  `Json.slotsOf?_without` says which values the reader of a record
  finds for its fields when members were taken out of it.  The readers of field
  values undo what is written for them.
* Formats.  Of each format, the record that it stores is plain, and it is read
  back in any layout.
* Stored records.  `stored_readBack` puts the formats together.
-/

namespace Rationale

/-! ## Maps -/

namespace Keyed

variable {α : Type}

theorem nodup_keys (m : Keyed α) : (m.entries.map Prod.fst).Nodup := by
  rw [List.Nodup, List.pairwise_map]
  exact m.ascending.imp String.ne_of_lt

/-- A map is the map of its entries. -/
theorem ofList_entries (m : Keyed α) : ofList m.entries = m := by
  have hinsert (entries : List (String × α)) (before : Keyed α) :
      (entries.foldl (fun m entry => m.insert entry.1 entry.2) before).entries =
        insertAll before.entries entries := by
    induction entries generalizing before with
    | nil => rfl
    | cons entry rest ih => exact ih (before.insert entry.1 entry.2)
  have hentries : (ofList m.entries).entries = m.entries := by
    rw [ofList, hinsert]
    exact eq_of_ascending (insertAll_perm m.nodup_keys)
      (ascending_insertAll .nil _) m.ascending
  obtain ⟨entries, hascending⟩ := m
  exact Keyed.mk.injEq .. ▸ hentries

end Keyed

namespace Json

/-! ## Fields -/

/-- The value as it is written in some layout. -/
def textIn (layout : Layout) (v : Json) : String :=
  String.ofList (print layout 0 v)

/-- The value without the members of some names.  Only a record has
members. -/
def without (removed : List String) : Json → Json
  | .record members => .record (members.filter fun member => member.1 ∉ removed)
  | value => value

/-- Where keys are distinct, a key has one member at most. -/
theorem filter_key_of_nodup {members : List (String × Json)}
    (h : (members.map Prod.fst).Nodup) (name : String) :
    (members.filter fun member => member.1 = name) =
      ((members.lookup name).map (Prod.mk name)).toList := by
  induction members with
  | nil => rfl
  | cons member rest ih =>
    obtain ⟨key, value⟩ := member
    obtain ⟨hkey, hrest⟩ := List.nodup_cons.1 h
    by_cases heq : key = name
    · subst heq
      have hnone : (rest.filter fun member => member.1 = key) = [] := by
        rw [List.filter_eq_nil_iff]
        intro member hmember hmem
        exact hkey (List.mem_map.2 ⟨member, hmember, by simpa using hmem⟩)
      simp [hnone]
    · have hne : (name == key) = false := by simpa using Ne.symm heq
      simp [List.lookup_cons, heq, hne, ih hrest]

/-- The fields of a record have the values of its members. -/
theorem slots_record {members : List (String × Json)}
    (h : (members.map Prod.fst).Nodup) (names : List String) (least : Nat) :
    slots names least (.record members) =
      some (names.map fun name => members.lookup name) := by
  refine Eq.trans (congrArg (List.mapM · names) (funext fun name => ?_))
    (List.mapM_pure (m := Option) (f := fun name => members.lookup name))
  rw [filter_key_of_nodup h]
  cases members.lookup name with
  | none => rfl
  | some value => rfl

theorem lookup_without (removed : List String) (name : String)
    (members : List (String × Json)) :
    (members.filter fun member => member.1 ∉ removed).lookup name =
      if name ∈ removed then none else members.lookup name := by
  induction members with
  | nil => simp
  | cons member rest ih =>
    obtain ⟨key, value⟩ := member
    by_cases hkey : key ∈ removed
    · rw [List.filter_cons_of_neg (by simpa using hkey), ih, List.lookup_cons]
      by_cases heq : name = key
      · rw [heq, if_pos hkey, if_pos hkey]
      · rw [beq_false_of_ne heq]
    · rw [List.filter_cons_of_pos (by simpa using hkey), List.lookup_cons,
        List.lookup_cons, ih]
      by_cases heq : name = key
      · simp [heq, hkey]
      · rw [beq_false_of_ne heq]

theorem Plain.without {v : Json} (hv : v.Plain) (removed : List String) :
    (v.without removed).Plain := by
  cases hv with
  | @record members distinct parts =>
    have hsub : (members.filter fun member => member.1 ∉ removed).Sublist
        members := List.filter_sublist
    refine .record ((hsub.map Prod.fst).nodup distinct) fun member hmember => ?_
    exact parts member (hsub.subset hmember)
  | null => exact .null
  | bool b => exact .bool b
  | integer low high => exact .integer low high
  | text s => exact .text s
  | list parts => exact .list parts

variable {layout : Layout} {members : List (String × Json)}

/-- The fields of a stored record are found in its text, in any layout. -/
theorem slotsOf?_textIn (hl : layout.Blank) (hplain : (record members).Plain)
    (names : List String) (least : Nat) :
    slotsOf? names least ((record members).textIn layout) =
      some (names.map fun name => members.lookup name) := by
  have hread := hplain.ofChars?_print hl (.fields names)
  unfold slotsOf? textIn
  rw [String.toList_ofList, hread]
  cases hplain with
  | record distinct parts => exact slots_record distinct names least

/-- The same with some members taken out. -/
theorem slotsOf?_without (hl : layout.Blank) (hplain : (record members).Plain)
    (removed names : List String) (least : Nat) :
    slotsOf? names least (((record members).without removed).textIn layout) =
      some (names.map fun name =>
        if name ∈ removed then none else members.lookup name) := by
  have hslots := slotsOf?_textIn hl (hplain.without removed) names least
  simp only [lookup_without] at hslots
  exact hslots

/-! ### Values -/

theorem natural?_integer {n : Nat} (h : n < Word.count) :
    natural? (.integer n) = some n := by
  have hread : natural? (.integer n) = if n < Word.count then some n else none :=
    rfl
  rw [hread, if_pos h]

theorem texts?_list (texts : List String) :
    texts? (.list (texts.map .text)) = some texts := by
  simp only [texts?, List.mapM_map]
  have hpure := List.mapM_pure (m := Option) (f := id) (l := texts)
  rw [List.map_id] at hpure
  exact hpure

/-- The entries of a map are read from the record of them. -/
theorem keyed?_record (m : Keyed String) :
    keyed? (.record (m.entries.map fun (key, value) => (key, .text value))) =
      some m := by
  simp only [keyed?, List.mapM_map]
  have hpure := List.mapM_pure (m := Option) (f := id) (l := m.entries)
  rw [List.map_id] at hpure
  refine (congrArg (Option.bind · fun entries => some (Keyed.ofList entries))
    hpure).trans ?_
  exact congrArg some (m.ofList_entries)

/-- A field that was taken out is read as its default. -/
theorem optional_unless {α : Type} {read : Json → Option α} {value : Json}
    {a : α} (h : read value = some a) (default : α) (absent : Prop)
    [Decidable absent] :
    optional read default (if absent then none else some value) =
      some (if absent then default else a) := by
  split
  · rfl
  · exact h

end Json

/-! ## Notations -/

namespace Notation

/-- The notation with some fields at their usual values. -/
def usualIn (n : Notation) (names : List String) : Notation :=
  let usual : Notation := {}
  { indent := if "indent" ∈ names then usual.indent else n.indent
    notSymbol := if "not_symbol" ∈ names then usual.notSymbol else n.notSymbol
    falsePrefix :=
      if "false_prefix" ∈ names then usual.falsePrefix else n.falsePrefix
    assertionSeparator :=
      if "assertion_separator" ∈ names then usual.assertionSeparator
      else n.assertionSeparator }

theorem plain_toJson {n : Notation} (h : n.indent < Word.count) :
    n.toJson.Plain := by
  refine .record (show fieldNames.Nodup by decide) ?_
  simp only [List.forall_mem_cons]
  exact ⟨.integer (by omega) (by omega), .text _, .text _, .text _, by simp⟩

/-- A stored notation is read, with the usual values in the fields whose
members were taken out. -/
theorem ofJsonText_without {n : Notation} {layout : Json.Layout}
    (hl : layout.Blank) (h : n.indent < Word.count) (removed : List String) :
    ofJsonText ((n.toJson.without removed).textIn layout) =
      .ok (n.usualIn removed) := by
  have hslots := Json.slotsOf?_without hl (plain_toJson h) removed fieldNames 0
  have hindent := Json.natural?_integer h
  have htext (s : String) : Json.text? (.text s) = some s := rfl
  have hread : ofSlots?
      [if "indent" ∈ removed then none else some (.integer n.indent),
        if "not_symbol" ∈ removed then none else some (.text n.notSymbol),
        if "false_prefix" ∈ removed then none else some (.text n.falsePrefix),
        if "assertion_separator" ∈ removed then none
        else some (.text n.assertionSeparator)] = some (n.usualIn removed) := by
    rw [ofSlots?, Json.optional_unless hindent, Json.optional_unless (htext _),
      Json.optional_unless (htext _), Json.optional_unless (htext _)]
    rfl
  have hstored : (Json.slotsOf? fieldNames 0
      ((n.toJson.without removed).textIn layout)).bind ofSlots? =
        some (n.usualIn removed) :=
    (congrArg (Option.bind · ofSlots?) hslots).trans hread
  unfold ofJsonText
  rw [hstored]

end Notation

/-! ## Reports -/

namespace Report

theorem plain_toJson {p : Report} (h : p.causalOperandCount < Word.count) :
    p.toJson.Plain := by
  have htexts (texts : List String) : (Json.list (texts.map .text)).Plain := by
    refine .list fun item hitem => ?_
    obtain ⟨s, -, rfl⟩ := List.mem_map.1 hitem
    exact .text s
  refine .record (show fieldNames.Nodup by decide) ?_
  simp only [List.forall_mem_cons]
  exact ⟨.text _, .bool _, .text _, htexts _, .integer (by omega) (by omega),
    htexts _, .text _, by simp⟩

/-- The report of its fields, with the digest that is read for the last
one. -/
theorem ofSlots?_eq {p : Report} (h : p.causalOperandCount < Word.count)
    (slot : Option Json) {digest : String}
    (hdigest : Json.optional Json.text? "" slot = some digest) :
    ofSlots?
      [some (.text p.statement), some (.bool p.satisfied), some (.text p.reason),
        some (.list (p.assertions.map .text)),
        some (.integer p.causalOperandCount),
        some (.list (p.justification.map .text)), slot] =
      some { p with digest } := by
  have hcount := Json.natural?_integer h
  simp [ofSlots?, Json.required, hdigest, hcount, Json.texts?_list, Json.text?, Json.bool?]

theorem ofText_of_slots {s : String} {slots : List (Option Json)} {p : Report}
    (hslots : Json.slotsOf? fieldNames 6 s = some slots)
    (hread : ofSlots? slots = some p) : ofText s = .ok p := by
  unfold ofText
  rw [hslots, Option.bind_some, hread]

/-- A stored report is read. -/
theorem ofText_textIn {p : Report} {layout : Json.Layout} (hl : layout.Blank)
    (h : p.causalOperandCount < Word.count) :
    ofText (p.toJson.textIn layout) = .ok p := by
  have hslots := Json.slotsOf?_textIn hl (plain_toJson h) fieldNames 6
  exact ofText_of_slots hslots (ofSlots?_eq h (some (.text p.digest)) rfl)

/-- A stored report is read without its digest if that was taken out. -/
theorem ofText_without_digest {p : Report} {layout : Json.Layout}
    (hl : layout.Blank) (h : p.causalOperandCount < Word.count) :
    ofText ((p.toJson.without ["digest"]).textIn layout) =
      .ok { p with digest := "" } := by
  have hslots :=
    Json.slotsOf?_without hl (plain_toJson h) ["digest"] fieldNames 6
  exact ofText_of_slots hslots (ofSlots?_eq h none rfl)

end Report

/-! ## Details of errors -/

namespace Detail

theorem plain_toJson (d : Detail) : d.toJson.Plain := by
  have hcontext : (Json.record (d.context.entries.map fun (key, value) =>
      (key, .text value))).Plain := by
    refine .record ?_ fun member hmember => ?_
    · rw [List.map_map]
      exact d.context.nodup_keys
    · obtain ⟨entry, -, rfl⟩ := List.mem_map.1 hmember
      exact .text entry.2
  cases hhint : d.hint with
  | none =>
    simp only [toJson, hhint]
    refine .record (show ["code", "message", "context"].Nodup by decide) ?_
    simp only [List.cons_append, List.nil_append, List.forall_mem_cons]
    exact ⟨.text _, .text _, hcontext, by simp⟩
  | some hint =>
    simp only [toJson, hhint]
    refine .record (show fieldNames.Nodup by decide) ?_
    simp only [List.cons_append, List.nil_append, List.forall_mem_cons]
    exact ⟨.text _, .text _, hcontext, .text _, by simp⟩

/-- The details of their fields, with the hint that is read for the last
one. -/
theorem ofSlots?_eq (d : Detail) {slot : Option Json}
    (hhint : Json.optional (Json.orNull? Json.text?) none slot = some d.hint) :
    ofSlots? [some (.text d.code), some (.text d.message),
      some (.record (d.context.entries.map fun (key, value) =>
        (key, .text value))), slot] = some d := by
  have hcontext : Json.optional Json.keyed? ∅ (some (.record
      (d.context.entries.map fun (key, value) => (key, .text value)))) =
        some d.context := Json.keyed?_record d.context
  rw [ofSlots?, hcontext, hhint]
  rfl

/-- Stored details are read. -/
theorem ofText?_textIn (d : Detail) {layout : Json.Layout} (hl : layout.Blank) :
    ofText? (d.toJson.textIn layout) = some d := by
  have hslots := Json.slotsOf?_textIn hl (plain_toJson d) fieldNames 4
  refine (congrArg (Option.bind · ofSlots?) hslots).trans ?_
  -- a hint that there is not has no member
  obtain ⟨code, message, context, hint⟩ := d
  cases hint with
  | none => exact ofSlots?_eq ⟨code, message, context, none⟩ rfl
  | some hint => exact ofSlots?_eq ⟨code, message, context, some hint⟩ rfl

end Detail

/-! ## Stored records -/

/-- Stored records are read back.

* A notation, a report and the details of an error are what is read of the
  texts that they are stored as.
* A notation of which members were taken out, in any layout, is read with the
  usual values in their fields and all other values as they were.
* A report of which the digest was taken out is read without a digest and with
  all other values as they were. -/
theorem stored_readBack {n : Notation} {p : Report} (d : Detail)
    (hindent : n.indent < Word.count) (hcount : p.causalOperandCount < Word.count)
    {layout : Json.Layout} (hl : layout.Blank) (removed : List String) :
    (Notation.ofJsonText n.toText = .ok n ∧ Report.ofText p.toText = .ok p ∧
        Detail.ofText? d.toText = some d) ∧
      Notation.ofJsonText ((n.toJson.without removed).textIn layout) =
        .ok (n.usualIn removed) ∧
      Report.ofText ((p.toJson.without ["digest"]).textIn layout) =
        .ok { p with digest := "" } := by
  have hindented := Json.Layout.indented_blank
  have hcompact := Json.Layout.compact_blank
  refine ⟨⟨?_, ?_, ?_⟩, ?_, ?_⟩
  · exact Notation.ofJsonText_without hindented hindent []
  · exact Report.ofText_textIn hindented hcount
  · exact Detail.ofText?_textIn d hcompact
  · exact Notation.ofJsonText_without hl hindent removed
  · exact Report.ofText_without_digest hl hcount

/-- A notation of which almost every character is escaped. -/
def quoted : Notation where
  indent := 4
  notSymbol := "\"\\\x01"
  falsePrefix := "\n😀"
  assertionSeparator := ""

/-- A record of a decision, stamped by hand. -/
def recorded : Report where
  statement := "even & small"
  satisfied := false
  reason := "¬even"
  assertions := ["¬even"]
  causalOperandCount := 1
  justification := ["¬even"]
  digest := "00"

example : quoted.toText =
    "\x7b\n  \"indent\": 4,\n  \"not_symbol\": \"\\\"\\\\\\u0001\",\n" ++
      "  \"false_prefix\": \"\\n😀\",\n  \"assertion_separator\": \"\"\n\x7d" := by
  decide

/-- Escaped text is read back, and two fields that were taken out have their
usual values. -/
theorem stored_readBack_quoted :
    quoted.indent < Word.count ∧ recorded.causalOperandCount < Word.count ∧
      Json.Layout.compact.Blank ∧
      Notation.ofJsonText quoted.toText = .ok quoted ∧
      Report.ofText recorded.toText = .ok recorded ∧
      Detail.ofText? (Fault.unsupportedFactory "even").detail.toText =
        some (Fault.unsupportedFactory "even").detail ∧
      Notation.ofJsonText ((quoted.toJson.without ["indent", "false_prefix"]).textIn
        .compact) = .ok { quoted with indent := 2, falsePrefix := "¬" } ∧
      Report.ofText ((recorded.toJson.without ["digest"]).textIn .compact) =
        .ok { recorded with digest := "" } := by
  have hindent : quoted.indent < Word.count := by decide
  have hcount : recorded.causalOperandCount < Word.count := by decide
  have hl := Json.Layout.compact_blank
  have hread := stored_readBack (Fault.unsupportedFactory "even").detail hindent
    hcount hl ["indent", "false_prefix"]
  exact ⟨hindent, hcount, hl, hread.1.1, hread.1.2.1, hread.1.2.2, hread.2.1,
    hread.2.2⟩

end Rationale
