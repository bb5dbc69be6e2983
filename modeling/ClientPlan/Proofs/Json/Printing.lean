import ClientPlan.Json.Printer
import ClientPlan.Proofs.Json.Scanning
import Mathlib.Tactic.SplitIfs

/-!
# Written values are spelled

What the printer writes of a value spells that value, on one line or over several, as long as the
numbers in it are whole and fit in 64 bits. So every such value is spelled by some text.
-/

namespace ClientPlan.Json

/-- All numbers in a value are whole and fit in 64 bits. -/
inductive Value.IsExact : Value → Prop
  | null : IsExact .null
  | boolean (value : Bool) : IsExact (.boolean value)
  | integer {value : Int} (hword : IsWord value) : IsExact (.number (.integer value))
  | text (value : String) : IsExact (.text value)
  | list {items : List Value} (hitems : ∀ item ∈ items, IsExact item) : IsExact (.list items)
  | object {members : List (String × Value)} (hmembers : ∀ member ∈ members, IsExact member.2) :
      IsExact (.object members)

/-- A hexadecimal digit is written by its value. -/
theorem hexDigit_spells {value : Nat} (h : value < 16) : HexDigit (hexDigit value) value := by
  have hall : ∀ value < 16, "0123456789abcdef".toList[value]? = some (hexDigit value) := by decide
  exact Or.inl (hall value h)

/-- A written character spells itself. -/
theorem spellsChars_writtenChar (c : Char) {written text : List Char}
    (h : SpellsChars written text) : SpellsChars (writtenChar c ++ written) (c :: text) := by
  unfold writtenChar
  split_ifs with hquote hslash hback hfeed hline hreturn htab hcontrol
  · subst hquote
    exact .short (by decide) h
  · subst hslash
    exact .short (by decide) h
  · subst hback
    exact .short (by decide) h
  · subst hfeed
    exact .short (by decide) h
  · subst hline
    exact .short (by decide) h
  · subst hreturn
    exact .short (by decide) h
  · subst htab
    exact .short (by decide) h
  · have hlt : c.toNat < 0x20 := hcontrol
    have hzero : HexDigit '0' 0 := Or.inl rfl
    have hunit := SpellsUnit.digits hzero hzero (hexDigit_spells (show c.toNat / 16 < 16 by omega))
      (hexDigit_spells (show c.toNat % 16 < 16 by omega))
    have hvalue : 0x1000 * 0 + 0x100 * 0 + 0x10 * (c.toNat / 16) + c.toNat % 16 = c.toNat := by
      omega
    rw [hvalue] at hunit
    exact .unit hunit h
  · exact .plain (Nat.le_of_not_lt hcontrol) hquote hslash h

/-- A written text spells itself. -/
theorem spellsChars_written (text : List Char) : SpellsChars (text.flatMap writtenChar) text := by
  induction text with
  | nil => exact .nil
  | cons c text ih =>
    rw [List.flatMap_cons]
    exact spellsChars_writtenChar c ih

/-- The characters of a written text. -/
theorem toList_writtenText (text : String) :
    (writtenText text).toList = '"' :: (text.toList.flatMap writtenChar ++ ['"']) := by
  simp only [writtenText, String.toList_append, String.toList_ofList]
  rfl

/-- What begins a line is blank. -/
theorem allBlank_lineStart (spacing : Spacing) : AllBlank spacing.lineStart.toList := by
  cases spacing with
  | compact => exact List.forall_mem_nil _
  | indented depth =>
    intro c hc
    simp only [Spacing.lineStart, String.toList_append, String.toList_ofList] at hc
    rcases List.mem_append.mp hc with hc | hc
    · exact Or.inr (Or.inr (Or.inl (List.mem_singleton.mp hc)))
    · exact Or.inl (List.eq_of_mem_replicate hc)

/-- Blanks may precede a value. -/
theorem Spells.prepend_blanks {blanks written : List Char} {value : Value}
    (hblanks : AllBlank blanks) (h : Spells written value) : Spells (blanks ++ written) value := by
  have hpadded := Spells.padded hblanks h (List.forall_mem_nil _)
  rwa [List.append_nil] at hpadded

/-- Blanks may follow a value. -/
theorem Spells.append_blanks {written blanks : List Char} {value : Value}
    (h : Spells written value) (hblanks : AllBlank blanks) : Spells (written ++ blanks) value :=
  Spells.padded (List.forall_mem_nil _) h hblanks

/-- Blanks may follow the last item of a list. -/
theorem SpellsItems.append_blanks {written blanks : List Char} {items : List Value}
    (hblanks : AllBlank blanks) : SpellsItems written items → SpellsItems (written ++ blanks) items
  | .last h => .last (h.append_blanks hblanks)
  | .cons h hothers => by
    rw [List.append_assoc]
    exact .cons h (hothers.append_blanks hblanks)

/-- Blanks may follow the last member of an object. -/
theorem SpellsMembers.append_blanks {written blanks : List Char} {members : List (String × Value)}
    (hblanks : AllBlank blanks) :
    SpellsMembers written members → SpellsMembers (written ++ blanks) members
  | .last hkey h => by
    rw [List.append_assoc]
    exact .last hkey (h.append_blanks hblanks)
  | .cons hkey h hothers => by
    rw [List.append_assoc, List.cons_append, List.append_assoc]
    exact .cons hkey h (hothers.append_blanks hblanks)

/-- A written text is a key, with blanks before it. -/
theorem spellsKey_written {blanks : List Char} (hblanks : AllBlank blanks) (name : String) :
    SpellsKey (blanks ++ (writtenText name).toList) name := by
  have hkey := SpellsKey.quoted hblanks (spellsChars_written name.toList) (List.forall_mem_nil _)
  rw [String.ofList_toList] at hkey
  rw [toList_writtenText]
  exact hkey

namespace Value

/-- Items that spell themselves spell a list with commas between them. -/
theorem spellsItems_written {spacing : Spacing} {item : Value} {items : List Value}
    (h : ∀ other ∈ item :: items, Spells (other.written spacing).toList other) :
    SpellsItems (",".intercalate
      ((writtenItems spacing (item :: items)).map (spacing.lineStart ++ ·))).toList
      (item :: items) := by
  induction items generalizing item with
  | nil =>
    have hitem := (h item List.mem_cons_self).prepend_blanks (allBlank_lineStart spacing)
    simp only [writtenItems, List.map_cons, List.map_nil, String.intercalate_singleton,
      String.toList_append]
    exact .last hitem
  | cons next items ih =>
    obtain ⟨hfirst, hothers⟩ := List.forall_mem_cons.mp h
    have hitem := hfirst.prepend_blanks (allBlank_lineStart spacing)
    have hrest := ih hothers
    have hcomma : ",".toList = [','] := rfl
    simp only [writtenItems, List.map_cons, String.intercalate_cons_cons, String.toList_append,
      hcomma] at hrest ⊢
    rw [List.append_assoc, List.singleton_append]
    exact .cons hitem hrest

/-- Members whose values spell themselves spell an object with commas between them. -/
theorem spellsMembers_written {spacing : Spacing} {member : String × Value}
    {members : List (String × Value)}
    (h : ∀ other ∈ member :: members, Spells (other.2.written spacing).toList other.2) :
    SpellsMembers (",".intercalate
      ((writtenMembers spacing (member :: members)).map (spacing.lineStart ++ ·))).toList
      (member :: members) := by
  have hcolon : ∃ blanks, spacing.colon.toList = ':' :: blanks ∧ AllBlank blanks := by
    cases spacing with
    | compact => exact ⟨[], rfl, List.forall_mem_nil _⟩
    | indented depth =>
      exact ⟨[' '], by simp [Spacing.colon], List.forall_mem_singleton.mpr (Or.inl rfl)⟩
  obtain ⟨blanks, hcolon, hblanks⟩ := hcolon
  induction members generalizing member with
  | nil =>
    obtain ⟨name, value⟩ := member
    have hkey := spellsKey_written (allBlank_lineStart spacing) name
    have hvalue := (h _ List.mem_cons_self).prepend_blanks hblanks
    simp only [writtenMembers, List.map_cons, List.map_nil, String.intercalate_singleton,
      String.toList_append, hcolon, List.append_assoc, List.cons_append]
    rw [← List.append_assoc]
    exact .last hkey hvalue
  | cons next members ih =>
    obtain ⟨name, value⟩ := member
    obtain ⟨hfirst, hothers⟩ := List.forall_mem_cons.mp h
    have hkey := spellsKey_written (allBlank_lineStart spacing) name
    have hvalue := hfirst.prepend_blanks hblanks
    have hrest := ih hothers
    have hcomma : ",".toList = [','] := rfl
    simp only [writtenMembers, List.map_cons, String.intercalate_cons_cons, String.toList_append,
      hcomma, hcolon, List.append_assoc, List.cons_append, List.nil_append] at hrest ⊢
    rw [← List.append_assoc, ← List.append_assoc blanks]
    exact .cons hkey hvalue hrest

/-- A written value spells itself. -/
theorem IsExact.spells_written {value : Value} (h : value.IsExact) (spacing : Spacing) :
    Spells (value.written spacing).toList value := by
  induction h generalizing spacing with
  | null =>
    rw [written]
    exact .nullWord
  | boolean value =>
    cases value with
    | false =>
      rw [written]
      exact .falseWord
    | true =>
      rw [written]
      exact .trueWord
  | integer hword =>
    rw [written]
    exact .integer hword
  | text value =>
    have hspells := Spells.text (spellsChars_written value.toList)
    rw [String.ofList_toList] at hspells
    rw [written, toList_writtenText]
    exact hspells
  | @list items _ ih =>
    cases items with
    | nil =>
      rw [written, writtenItems, Spacing.enclose, if_pos List.isEmpty_nil, String.toList_append]
      exact .emptyList (List.forall_mem_nil _)
    | cons item items =>
      have hitems := spellsItems_written fun other hother => ih other hother spacing.inner
      have hspells := Spells.list (hitems.append_blanks (allBlank_lineStart spacing))
      rw [written, writtenItems, Spacing.enclose]
      simp only [List.isEmpty_cons, Bool.false_eq_true, if_false, String.toList_append]
      exact hspells
  | @object members _ ih =>
    cases members with
    | nil =>
      rw [written, writtenMembers, Spacing.enclose, if_pos List.isEmpty_nil, String.toList_append]
      exact .emptyObject (List.forall_mem_nil _)
    | cons member members =>
      have hmembers := spellsMembers_written fun other hother => ih other hother spacing.inner
      have hspells := Spells.object (hmembers.append_blanks (allBlank_lineStart spacing))
      rw [written, writtenMembers, Spacing.enclose]
      simp only [List.isEmpty_cons, Bool.false_eq_true, if_false, String.toList_append]
      exact hspells

/-- What the printer writes of a value is read back as that value. -/
theorem IsExact.exists_ofText_written {value : Value} (h : value.IsExact) (spacing : Spacing) :
    ∃ node, Draft.ofText (value.written spacing) = ⟨node, false⟩ ∧ node.Denotes value :=
  (h.spells_written spacing).exists_ofText_eq

end Value

end ClientPlan.Json
