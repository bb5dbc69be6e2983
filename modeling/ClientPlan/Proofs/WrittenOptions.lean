import ClientPlan.Options.Reading
import ClientPlan.Proofs.Toml.Reading
import Mathlib.Data.List.Nodup

/-!
# Reading written options

A text that gives options a line for each field is read as these options, whatever order the lines
are in, however the names of operations are escaped, and whether or not a field with its default is
left out. A line with any other key makes the whole text fail, wherever it is inserted.
-/

namespace ClientPlan.Options

open Toml

/-- A member gives the value of a field. -/
inductive Fits (options : Options) : String × Item → Prop
  | convenience : Fits options ("convenience-methods", .boolean options.convenienceMethods)
  | protocol : Fits options ("protocol-methods", .boolean options.protocolMethods)
  | operations {names : List String} (h : options.operations = some names) :
      Fits options ("operations", .list (names.map .text))

/-- Members give options: no key stands twice, and a field that no member gives has its default. -/
structure Given (members : Members) (options : Options) : Prop where
  distinct : (members.map (·.1)).Nodup
  fits : ∀ member ∈ members, Fits options member
  convenience : "convenience-methods" ∉ members.map (·.1) → options.convenienceMethods = true
  protocol : "protocol-methods" ∉ members.map (·.1) → options.protocolMethods = false
  operations : "operations" ∉ members.map (·.1) → options.operations = none

/-- Lines write options. -/
def Written (lines : List (List Char)) (options : Options) : Prop :=
  ∃ members, SpellsLines lines members ∧ Given members options

/-- Options of which the fields with these keys are taken from others. -/
def taking (start options : Options) (taken : List String) : Options where
  convenienceMethods :=
    if convenienceKey ∈ taken then options.convenienceMethods else start.convenienceMethods
  protocolMethods := if protocolKey ∈ taken then options.protocolMethods else start.protocolMethods
  operations := if operationsKey ∈ taken then options.operations else start.operations

/-- Fields may be taken one after the other. -/
theorem taking_cons (start options : Options) (key : String) (taken : List String) :
    start.taking options (key :: taken) = (start.taking options [key]).taking options taken := by
  have hcase : ∀ {α : Type} (field : String) (new old : α),
      (if field ∈ key :: taken then new else old) =
        if field ∈ taken then new else if field ∈ [key] then new else old := by
    intro α field new old
    by_cases htaken : field ∈ taken <;> simp [htaken]
  simp only [taking, hcase]

/-- A list of texts gives these texts. -/
theorem textsOf_texts (names : List String) : textsOf (.list (names.map .text)) = .ok names := by
  rw [textsOf]
  induction names with
  | nil => rfl
  | cons name names ih =>
    rw [List.map_cons, List.mapM_cons, ih]
    rfl

/-- A member that gives a field is taken. -/
theorem Fits.take_eq {options : Options} {member : String × Item} (h : Fits options member)
    (start : Options) : take start member = .ok (start.taking options [member.1]) := by
  cases h with
  | convenience => rfl
  | protocol => rfl
  | operations h =>
    simp [take, textsOf_texts, taking, h, convenienceKey, protocolKey, operationsKey]

/-- Members that give fields are taken one after the other. -/
theorem foldlM_take {options : Options} {members : Members}
    (h : ∀ member ∈ members, Fits options member) (start : Options) :
    members.foldlM take start = .ok (start.taking options (members.map (·.1))) := by
  induction members generalizing start with
  | nil => rfl
  | cons member members ih =>
    have hmember := (h member List.mem_cons_self).take_eq start
    rw [List.foldlM_cons, hmember, List.map_cons, taking_cons start options _ (members.map _)]
    exact ih (fun other hother => h other (List.mem_cons_of_mem member hother)) _

/-- Fields that are not given have their defaults. -/
theorem Given.taking_eq {members : Members} {options : Options} (h : Given members options) :
    taking {} options (members.map (·.1)) = options := by
  obtain ⟨-, -, hconvenience, hprotocol, hoperations⟩ := h
  cases options
  simp only [taking, Options.mk.injEq, ite_eq_left_iff]
  exact ⟨fun hkey => (hconvenience hkey).symm, fun hkey => (hprotocol hkey).symm,
    fun hkey => (hoperations hkey).symm⟩

/-- A member with any other key is refused. -/
theorem take_of_not_mem {name : String}
    (hname : name ∉ ["convenience-methods", "protocol-methods", "operations"]) (start : Options)
    (item : Item) : take start (name, item) = .error (.unknownField name keys) := by
  simp only [List.mem_cons, List.not_mem_nil, or_false, not_or] at hname
  exact (if_neg hname.1).trans ((if_neg hname.2.1).trans (if_neg hname.2.2))

/-- A field has one of three keys. -/
theorem Fits.mem_keys {options : Options} {member : String × Item} (h : Fits options member) :
    member.1 ∈ ["convenience-methods", "protocol-methods", "operations"] := by
  cases h <;> simp

/-- All options can be written. -/
theorem exists_written (options : Options) :
    ∃ text lines, HasLines text lines ∧ Written lines options := by
  have hkeys : SpellsKey "convenience-methods".toList "convenience-methods" ∧
      SpellsKey "protocol-methods".toList "protocol-methods" ∧
      SpellsKey "operations".toList "operations" :=
    ⟨spellsKey_bare (by decide) (by decide), spellsKey_bare (by decide) (by decide),
      spellsKey_bare (by decide) (by decide)⟩
  obtain ⟨flag, hflag⟩ := exists_spellsItem_boolean options.convenienceMethods
  obtain ⟨convenience, hconvenience⟩ := exists_spellsLine hkeys.1 hflag
  obtain ⟨flag', hflag'⟩ := exists_spellsItem_boolean options.protocolMethods
  obtain ⟨protocol, hprotocol⟩ := exists_spellsLine hkeys.2.1 hflag'
  cases hoperations : options.operations with
  | none =>
    obtain ⟨text, htext⟩ := exists_hasLines convenience [protocol]
    refine ⟨text, _, htext, _, .cons hconvenience (.cons hprotocol .nil), ?_⟩
    constructor <;> simp [hoperations, Fits.convenience, Fits.protocol]
  | some names =>
    obtain ⟨list, hlist⟩ := exists_spellsTexts names
    obtain ⟨line, hline⟩ := exists_spellsLine hkeys.2.2 (.texts hlist)
    obtain ⟨text, htext⟩ := exists_hasLines convenience [protocol, line]
    refine ⟨text, _, htext, _, .cons hconvenience (.cons hprotocol (.cons hline .nil)), ?_⟩
    constructor <;> simp [Fits.convenience, Fits.protocol, Fits.operations hoperations]

/-- Every text of lines that write options is read as these options. If one more line with any other
key is inserted before, between or behind these lines, every text of them fails at that key. -/
theorem ofText_of_written {lines : List (List Char)} {options : Options}
    (h : Written lines options) :
    (∀ text, HasLines text lines → ofText text = .ok options) ∧
      ∀ front back line name item text, lines = front ++ back → SpellsLine line [(name, item)] →
        name ∉ ["convenience-methods", "protocol-methods", "operations"] →
        HasLines text (front ++ line :: back) →
        ofText text = .error (.shape (.unknownField name keys)) := by
  obtain ⟨members, hspells, hgiven⟩ := h
  constructor
  · intro text htext
    rw [ofText, document_eq htext hspells hgiven.distinct]
    simp only [foldlM_take hgiven.fits, hgiven.taking_eq, Except.mapError]
  · rintro front back line name item text rfl hline hname htext
    obtain ⟨first, second, rfl, hfirst, hsecond⟩ := hspells.exists_of_append
    have hinserted : SpellsLines (front ++ line :: back) (first ++ (name, item) :: second) :=
      hfirst.append (.cons hline hsecond)
    have hnew : name ∉ (first ++ second).map (·.1) := by
      intro hmem
      obtain ⟨member, hmember, rfl⟩ := List.mem_map.mp hmem
      exact hname (hgiven.fits member hmember).mem_keys
    have hdistinct : ((first ++ (name, item) :: second).map (·.1)).Nodup := by
      have hold := hgiven.distinct
      rw [List.map_append] at hold hnew
      rw [List.map_append, List.map_cons, List.nodup_middle]
      exact List.nodup_cons.mpr ⟨hnew, hold⟩
    have hfits : ∀ member ∈ first, Fits options member := fun member hmember =>
      hgiven.fits member (List.mem_append_left second hmember)
    rw [ofText, document_eq htext hinserted hdistinct]
    simp only [List.foldlM_append, foldlM_take hfits, List.foldlM_cons, take_of_not_mem hname]
    rfl

/-- Both variants of two operations, one of which has no name. -/
def listedOptions : Options := ⟨true, true, some ["für", ""]⟩

/-- Lines with a comment, a key in quotes, an escape, and a comma behind the last name. -/
def listedLines : List (List Char) :=
  ["# Both variants".toList, "'operations' = [\"f\\u00FCr\", \"\", ]\t# two".toList,
    "protocol-methods=true".toList]

/-- The lines write the options. -/
theorem written_listedLines : Written listedLines listedOptions := by
  have hnone : AllBlank [] := List.forall_mem_nil _
  have hspace : AllBlank [' '] := by decide
  have htab : AllBlank ['\t'] := by decide
  have hcode : SpellsCode ['0', '0', 'F', 'C'] 'ü'.toNat :=
    ⟨[0, 0, 15, 12], .cons (.inl rfl) (.cons (.inl rfl) (.cons (.inr rfl) (.cons (.inr rfl) .nil))),
      rfl⟩
  have hlong := SpellsText.quoted (.plain (c := 'f') (by decide) (by decide) (by decide)
    (.escape (.code rfl hcode) (.plain (c := 'r') (by decide) (by decide) (by decide) .nil)))
  have hshort := SpellsText.quoted .nil
  have hquoted : SpellsKey ('\'' :: ("operations".toList ++ ['\''])) "operations" :=
    .literal (by decide) (by decide)
  have hbare : SpellsKey "protocol-methods".toList "protocol-methods" :=
    spellsKey_bare (by decide) (by decide)
  have hnotes : AllPrintable " Both variants".toList ∧ AllPrintable " two".toList := by decide
  have hfirst := SpellsLine.gap (.comment hnone hnotes.1)
  have hsecond := SpellsLine.member hnone hquoted hspace hspace
    (.texts (.cons hnone hlong hnone (.cons hspace hshort hnone (.close hspace))))
    (.comment htab hnotes.2)
  have hthird := SpellsLine.member hnone hbare hnone hnone .trueWord (.blank hnone)
  have hlines := SpellsLines.cons hfirst (.cons hsecond (.cons hthird .nil))
  exact ⟨_, hlines,
    { distinct := by decide
      fits := List.forall_mem_cons.mpr ⟨.operations rfl, List.forall_mem_singleton.mpr .protocol⟩
      convenience := fun _ => rfl
      protocol := fun hmissing => absurd (by decide) hmissing
      operations := fun hmissing => absurd (by decide) hmissing }⟩

/-- The options are read from their lines, and a key with an underscore between these is refused. -/
theorem ofText_of_written_listed :
    Written listedLines listedOptions ∧
      ofText ("# Both variants" ++ "\r\n" ++ "'operations' = [\"f\\u00FCr\", \"\", ]\t# two" ++
        "\n" ++ "protocol-methods=true") = .ok listedOptions ∧
      ofText ("# Both variants" ++ "\r\n" ++ "protocol_methods = true" ++ "\n" ++
        "'operations' = [\"f\\u00FCr\", \"\", ]\t# two" ++ "\n" ++ "protocol-methods=true") =
        .error (.shape (.unknownField "protocol_methods" keys)) := by
  have hnone : AllBlank [] := List.forall_mem_nil _
  have hspace : AllBlank [' '] := by decide
  have hkey : SpellsKey "protocol_methods".toList "protocol_methods" :=
    spellsKey_bare (by decide) (by decide)
  have hline := SpellsLine.member hnone hkey hspace hspace .trueWord (.blank hnone)
  obtain ⟨hread, hrefuse⟩ := ofText_of_written written_listedLines
  refine ⟨written_listedLines, hread _ (.unmarked ?_), ?_⟩
  · simp only [String.toList_append, List.append_assoc]
    exact .cons _ (.inr rfl) (.cons _ (.inl rfl) (.last _))
  · refine hrefuse ["# Both variants".toList] _ _ _ _ _ rfl hline (by decide) (.unmarked ?_)
    simp only [String.toList_append, List.append_assoc]
    exact .cons _ (.inr rfl) (.cons _ (.inl rfl) (.cons _ (.inl rfl) (.last _)))

end ClientPlan.Options
