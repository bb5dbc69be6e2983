import ClientPlan.Proofs.Json.Literals
import ClientPlan.Proofs.Toml.Grammar
import ClientPlan.Toml.Document
import Mathlib.Data.List.DropRight

/-!
# Reading spelled documents

A reader that meets a spelled string, key, value or line passes over exactly that much and gives
what it spells. So a text of lines that spell members with distinct keys is read as these members.
-/

namespace ClientPlan.Toml

/-- Leading blanks are passed over. -/
theorem AllBlank.afterBlanks_append {blanks : List Char} (h : AllBlank blanks)
    (rest : List Char) : afterBlanks (blanks ++ rest) = afterBlanks rest := by
  refine List.dropWhile_append_of_pos fun c hc => ?_
  rcases h c hc with rfl | rfl <;> rfl

/-- Nothing is passed over before a character that is no blank. -/
theorem afterBlanks_cons {c : Char} (h : isBlank c = false) (rest : List Char) :
    afterBlanks (c :: rest) = c :: rest :=
  List.dropWhile_cons_of_neg (by rw [h]; exact Bool.false_ne_true)

/-- Printable characters stand for themselves. -/
theorem IsPrintable.isPlain_eq {c : Char} (h : IsPrintable c) : isPlain c = true := by
  rw [isPlain, Bool.or_eq_true, Bool.and_eq_true, beq_iff_eq, decide_eq_true_eq, bne_iff_ne]
  refine h.imp id fun ⟨hlow, hdelete⟩ => ⟨hlow, ?_⟩
  rintro rfl
  exact hdelete rfl

/-- Digits have the value of the code point that they spell. -/
theorem SpellsCode.hexValues?_eq {digits : List Char} {code : Nat} (h : SpellsCode digits code) :
    Text.hexValues? digits = some code := by
  obtain ⟨values, hdigits, rfl⟩ := h
  rw [Text.hexValues?]
  generalize 0 = start
  induction hdigits generalizing start with
  | nil => rfl
  | cons hdigit _ ih =>
    rw [List.foldlM_cons, hdigit.hexValue?_eq]
    exact ih _

/-- A code point gives back its character. -/
theorem charOfCode?_toNat (c : Char) : charOfCode? c.toNat = some c := by
  have hvalid : c.toNat.isValidChar := c.valid
  rw [charOfCode?, dif_pos hvalid]
  rfl

/-- An escape with a row of digits gives the character whose code point they spell. -/
theorem codeEscape_append {digits : List Char} {c : Char} {count : Nat}
    (hlength : digits.length = count) (hcode : SpellsCode digits c.toNat) (rest : List Char) :
    codeEscape count (digits ++ rest) = some (c, rest) := by
  have hlong : ¬(digits ++ rest).length < count := by
    rw [List.length_append]
    omega
  rw [codeEscape, if_neg hlong, List.take_left' hlength, List.drop_left' hlength,
    hcode.hexValues?_eq]
  simp only [Option.bind_eq_bind, Option.bind_some, charOfCode?_toNat, Option.pure_def]

/-- An escape gives the character that it spells. -/
theorem SpellsEscape.escape_eq {escaped : List Char} {c : Char} (h : SpellsEscape escaped c)
    (rest : List Char) : escape (escaped ++ rest) = some (c, rest) := by
  cases h with
  | short h =>
    simp only [shortEscapes, List.mem_cons, Prod.mk.injEq, List.not_mem_nil, or_false] at h
    rcases h with ⟨rfl, rfl⟩ | ⟨rfl, rfl⟩ | ⟨rfl, rfl⟩ | ⟨rfl, rfl⟩ | ⟨rfl, rfl⟩ | ⟨rfl, rfl⟩ |
      ⟨rfl, rfl⟩ <;> rfl
  | code hlength hcode => exact codeEscape_append hlength hcode rest
  | longCode hlength hcode => exact codeEscape_append hlength hcode rest

/-- A reader of strings passes over spelled characters and their closing quote. -/
theorem SpellsChars.basicText_eq {written text : List Char} (h : SpellsChars written text)
    {steps : Nat} (hsteps : written.length < steps) (rest : List Char) :
    basicText steps (written ++ '"' :: rest) = some (text, rest) := by
  induction h generalizing steps with
  | nil =>
    obtain ⟨steps, rfl⟩ := Nat.exists_eq_add_of_le' (Nat.zero_lt_of_lt hsteps)
    rfl
  | @plain c written text hprintable hquote hslash _ ih =>
    obtain ⟨steps, rfl⟩ := Nat.exists_eq_add_of_le' (Nat.zero_lt_of_lt hsteps)
    rw [List.cons_append, basicText.eq_def]
    simp only [hprintable.isPlain_eq, if_true, ih (Nat.lt_of_succ_lt_succ hsteps)]
    rfl
  | @escape escaped c written text hescape _ ih =>
    obtain ⟨steps, rfl⟩ := Nat.exists_eq_add_of_le' (Nat.zero_lt_of_lt hsteps)
    simp only [List.length_cons, List.length_append] at hsteps
    have hothers := ih (show written.length < steps by omega)
    rw [List.cons_append, List.append_assoc]
    simp only [basicText, hescape.escape_eq, Option.bind_eq_bind, Option.bind_some, hothers]
    rfl

/-- A spelled string on one line is read in full. -/
theorem SpellsText.lineString_eq {written : List Char} {name : String}
    (h : SpellsText written name) (rest : List Char) :
    lineString (written ++ rest) = some (name, rest) := by
  obtain @⟨written, text, h⟩ := h
  have hsteps : written.length < (written ++ '"' :: rest).length := by
    rw [List.length_append, List.length_cons]
    omega
  rw [List.cons_append, List.append_assoc, List.singleton_append, lineString]
  simp only [h.basicText_eq hsteps rest, Option.map_some]

/-- A spelled string begins with a quote, and no quote opens its characters. -/
theorem SpellsText.exists_eq {written : List Char} {name : String} (h : SpellsText written name) :
    ∃ inner, written = '"' :: (inner ++ ['"']) ∧ ∀ c ∈ inner.head?, c ≠ '"' := by
  obtain @⟨inner, text, h⟩ := h
  refine ⟨inner, rfl, ?_⟩
  cases h with
  | nil => exact nofun
  | plain _ hquote => simpa using hquote
  | escape => simp

/-- A spelled string without a quote behind it is a string on one line. -/
theorem SpellsText.string_eq {written rest : List Char} {name : String}
    (h : SpellsText written name) (hrest : ∀ c ∈ rest.head?, c ≠ '"') :
    string (written ++ rest) = some (name, rest) := by
  have hline := h.lineString_eq rest
  obtain ⟨inner, rfl, hinner⟩ := h.exists_eq
  rw [string.eq_def]
  split
  -- Three quotes open a string over several lines. An empty string and a quote behind it would too.
  case h_1 heq =>
    cases inner with
    | nil =>
      simp only [List.nil_append, List.cons_append, List.cons.injEq, true_and] at heq
      exact absurd rfl (hrest '"' (by rw [heq]; rfl))
    | cons c inner =>
      simp only [List.cons_append, List.cons.injEq, true_and] at heq
      exact absurd heq.1 (hinner c rfl)
  case h_2 heq => cases heq
  case h_3 => exact hline

/-- What holds of blanks and of the character behind them holds of the first of all these. -/
theorem AllBlank.forall_head? {blanks : List Char} (h : AllBlank blanks) {p : Char → Prop}
    (hspace : p ' ') (htab : p '\t') {c : Char} (hc : p c) (rest : List Char) :
    ∀ d ∈ (blanks ++ c :: rest).head?, p d := by
  intro d hd
  cases blanks with
  | nil =>
    cases hd
    exact hc
  | cons blank blanks =>
    cases hd
    rcases h d List.mem_cons_self with rfl | rfl
    · exact hspace
    · exact htab

/-- Leading blanks are passed over between the items of a list. -/
theorem AllBlank.afterGap_append {blanks : List Char} (h : AllBlank blanks) (rest : List Char) :
    afterGap false (blanks ++ rest) = afterGap false rest := by
  induction blanks with
  | nil => rfl
  | cons c blanks ih =>
    rw [← ih fun d hd => h d (List.mem_cons_of_mem c hd)]
    rcases h c List.mem_cons_self with rfl | rfl <;> rfl

/-- A spelled string is not empty. -/
theorem SpellsText.length_pos {written : List Char} {name : String} (h : SpellsText written name) :
    1 < written.length := by
  obtain ⟨inner, rfl, -⟩ := h.exists_eq
  rw [List.length_cons, List.length_append, List.length_singleton]
  omega

/-- A spelled string is read as a value. -/
theorem SpellsText.value_eq {written rest : List Char} {name : String}
    (h : SpellsText written name) (hrest : ∀ c ∈ rest.head?, c ≠ '"') (room steps : Nat) :
    value room (steps + 1) (written ++ rest) = some (.text name, rest) := by
  have hstring := h.string_eq hrest
  obtain ⟨inner, rfl, -⟩ := h.exists_eq
  rw [List.cons_append] at hstring ⊢
  rw [value]
  simp only [hstring, Option.map_some]

/-- A closing bracket ends the items of a list. -/
theorem itemList_close {blanks : List Char} (hblanks : AllBlank blanks) (room steps : Nat)
    (rest : List Char) : itemList room (steps + 1) (blanks ++ ']' :: rest) = some ([], rest) := by
  rw [itemList, hblanks.afterGap_append]
  rfl

/-- A string in a list is followed by the end of the list or by a comma and the other items. -/
theorem itemList_text {before written rest : List Char} {name : String}
    (hbefore : AllBlank before) (h : SpellsText written name)
    (hrest : ∀ c ∈ rest.head?, c ≠ '"') (room steps : Nat) :
    itemList room (steps + 2) (before ++ (written ++ rest)) =
      match afterGap false rest with
      | ']' :: rest => some ([.text name], rest)
      | ',' :: rest => do
        let (items, rest) ← itemList room (steps + 1) rest
        return (.text name :: items, rest)
      | _ => none := by
  have hvalue := h.value_eq hrest room steps
  obtain ⟨inner, rfl, -⟩ := h.exists_eq
  have hstay : afterGap false ('"' :: (inner ++ ['"']) ++ rest) =
      '"' :: (inner ++ ['"']) ++ rest := rfl
  rw [itemList, hbefore.afterGap_append, hstay]
  split
  case h_1 heq => cases heq
  case h_2 =>
    simp only [hvalue, Option.bind_eq_bind, Option.bind_some]
    rfl

/-- Strings of a list up to its end are read in order. -/
theorem SpellsTexts.itemList_eq {written : List Char} {names : List String}
    (h : SpellsTexts written names) {room steps : Nat} (hsteps : written.length ≤ steps)
    (rest : List Char) :
    itemList room steps (written ++ rest) = some (names.map .text, rest) := by
  induction h generalizing steps with
  | close hblanks =>
    simp only [List.length_append, List.length_singleton] at hsteps
    obtain ⟨steps, rfl⟩ := Nat.exists_eq_add_of_le' (show 1 ≤ steps by omega)
    rw [List.append_assoc]
    exact itemList_close hblanks room steps rest
  | @last before written after name hbefore h hafter =>
    have hquotes := h.length_pos
    simp only [List.length_append, List.length_singleton] at hsteps
    obtain ⟨steps, rfl⟩ := Nat.exists_eq_add_of_le' (show 2 ≤ steps by omega)
    have hrest : ∀ c ∈ (after ++ ']' :: rest).head?, c ≠ '"' :=
      hafter.forall_head? (by decide) (by decide) (by decide) rest
    rw [List.append_assoc, List.append_assoc, List.append_assoc, List.singleton_append,
      itemList_text hbefore h hrest, hafter.afterGap_append]
    rfl
  | @cons before written after others name names hbefore h hafter hothers ih =>
    have hquotes := h.length_pos
    simp only [List.length_append, List.length_cons] at hsteps
    obtain ⟨steps, rfl⟩ := Nat.exists_eq_add_of_le' (show 2 ≤ steps by omega)
    have hrest : ∀ c ∈ (after ++ ',' :: (others ++ rest)).head?, c ≠ '"' :=
      hafter.forall_head? (by decide) (by decide) (by decide) _
    have hitems := ih (show others.length ≤ steps + 1 by omega)
    rw [List.append_assoc, List.append_assoc, List.append_assoc, List.cons_append,
      itemList_text hbefore h hrest, hafter.afterGap_append]
    exact congrArg (· >>= fun read => some (.text name :: read.1, read.2)) hitems

/-- A spelled value is read in full. -/
theorem SpellsItem.value_eq {written : List Char} {item : Item} (h : SpellsItem written item)
    {room steps : Nat} (hroom : 0 < room) (hsteps : written.length < steps) (rest : List Char) :
    value room steps (written ++ rest) = some (item, rest) := by
  cases h with
  | trueWord =>
    obtain ⟨steps, rfl⟩ := Nat.exists_eq_add_of_le' (Nat.zero_lt_of_lt hsteps)
    rw [value.eq_def]
    rfl
  | falseWord =>
    obtain ⟨steps, rfl⟩ := Nat.exists_eq_add_of_le' (Nat.zero_lt_of_lt hsteps)
    rw [value.eq_def]
    rfl
  | @texts written names h =>
    simp only [List.length_cons] at hsteps
    obtain ⟨steps, rfl⟩ := Nat.exists_eq_add_of_le' (show 2 ≤ steps by omega)
    have hitems : itemList (room - 1) steps (written ++ rest) = some (names.map .text, rest) :=
      h.itemList_eq (by omega) rest
    rw [List.cons_append, value, if_neg (Nat.pos_iff_ne_zero.mp hroom), items, hitems]
    rfl

/-- A bare key holds no character of another kind. -/
theorem inBareKey_eq_true {c : Char} (h : c.isAlphanum = true ∨ c = '-' ∨ c = '_') :
    inBareKey c = true := by
  rw [inBareKey, Bool.or_eq_true, Bool.or_eq_true, beq_iff_eq, beq_iff_eq, or_assoc]
  exact h

/-- A reader of strings without escapes passes over the characters and the closing quote. -/
theorem literalText_append {written : List Char} (hprintable : AllPrintable written)
    (hquote : '\'' ∉ written) (rest : List Char) :
    literalText (written ++ '\'' :: rest) = some (written, rest) := by
  induction written with
  | nil => rfl
  | cons c written ih =>
    obtain ⟨hne, hquote⟩ := not_or.mp (mt List.mem_cons.mpr hquote)
    have hothers := ih (fun d hd => hprintable d (List.mem_cons_of_mem c hd)) hquote
    have hc := (hprintable c List.mem_cons_self).isPlain_eq
    rw [List.cons_append, literalText, if_neg (Ne.symm hne), if_pos hc, hothers]
    rfl

/-- A key begins with a quote or with a character of bare keys. -/
theorem SpellsKey.exists_eq_cons {written : List Char} {name : String}
    (h : SpellsKey written name) :
    ∃ c others, written = c :: others ∧ (c = '"' ∨ c = '\'' ∨ inBareKey c = true) := by
  cases h with
  | bare hne hbare =>
    obtain ⟨c, others, rfl⟩ := List.exists_cons_of_ne_nil hne
    exact ⟨c, others, rfl, Or.inr (Or.inr (inBareKey_eq_true (hbare c List.mem_cons_self)))⟩
  | text h =>
    obtain ⟨inner, rfl, -⟩ := h.exists_eq
    exact ⟨'"', inner ++ ['"'], rfl, Or.inl rfl⟩
  | literal => exact ⟨'\'', _, rfl, Or.inr (Or.inl rfl)⟩

/-- A spelled key is read as a part of a key if nothing behind it continues it. -/
theorem SpellsKey.keyPart_eq {written rest : List Char} {name : String}
    (h : SpellsKey written name) (hrest : ∀ c ∈ rest.head?, inBareKey c = false) :
    keyPart (written ++ rest) = some (name, rest) := by
  cases h with
  | bare hne hbare =>
    have hkeep : ∀ c ∈ written, inBareKey c = true := fun c hc => inBareKey_eq_true (hbare c hc)
    have hspan : (written ++ rest).span inBareKey = (written, rest) := by
      rw [List.span_eq_takeWhile_dropWhile, List.takeWhile_append_of_pos hkeep,
        List.dropWhile_append_of_pos hkeep]
      cases rest with
      | nil => simp
      | cons c rest => simp [hrest c rfl]
    obtain ⟨c, others, rfl⟩ := List.exists_cons_of_ne_nil hne
    rw [keyPart.eq_def]
    split
    case h_1 heq =>
      rw [(List.cons.inj heq).1] at hkeep
      exact absurd (hkeep '"' List.mem_cons_self) (by decide)
    case h_2 heq =>
      rw [(List.cons.inj heq).1] at hkeep
      exact absurd (hkeep '\'' List.mem_cons_self) (by decide)
    case h_3 => rw [hspan]
  | text h =>
    have hline := h.lineString_eq rest
    obtain ⟨inner, rfl, -⟩ := h.exists_eq
    exact hline
  | @literal written hprintable hquote =>
    have hline := literalText_append hprintable hquote rest
    rw [List.cons_append, List.append_assoc, List.singleton_append]
    exact congrArg (Option.map _) hline

/-- A key begins with no blank. -/
theorem SpellsKey.afterBlanks_append {written : List Char} {name : String}
    (h : SpellsKey written name) (rest : List Char) :
    afterBlanks (written ++ rest) = written ++ rest := by
  obtain ⟨c, others, rfl, hc⟩ := h.exists_eq_cons
  refine afterBlanks_cons ?_ (others ++ rest)
  rw [Bool.eq_false_iff]
  intro hblank
  rw [isBlank, Bool.or_eq_true, beq_iff_eq, beq_iff_eq] at hblank
  rcases hblank with rfl | rfl <;> exact absurd hc (by decide)

/-- A spelled key before an equals sign has one part. -/
theorem SpellsKey.key_eq {written blanks : List Char} {name : String} (h : SpellsKey written name)
    (hblanks : AllBlank blanks) (rest : List Char) :
    key (written ++ (blanks ++ '=' :: rest)) = some (([], name), '=' :: rest) := by
  have hrest : ∀ c ∈ (blanks ++ '=' :: rest).head?, inBareKey c = false :=
    hblanks.forall_head? (by decide) (by decide) (by decide) rest
  have hparts : keyParts nestingLimit (written ++ (blanks ++ '=' :: rest)) =
      some ([name], '=' :: rest) := by
    rw [nestingLimit, keyParts, h.afterBlanks_append, h.keyPart_eq hrest]
    simp only [Option.bind_eq_bind, Option.bind_some, hblanks.afterBlanks_append]
    rfl
  rw [key, hparts]
  rfl

/-- A spelled key and a spelled value make a pair. -/
theorem pair_eq {key between inner written : List Char} {name : String} {item : Item}
    (hkey : SpellsKey key name) (hbetween : AllBlank between) (hinner : AllBlank inner)
    (h : SpellsItem written item) {room steps : Nat} (hroom : 0 < room)
    (hsteps : written.length < steps) (rest : List Char) :
    pair room (steps + 1) (key ++ (between ++ '=' :: (inner ++ (written ++ rest)))) =
      some (⟨[], name, item⟩, rest) := by
  have hstart : afterBlanks (written ++ rest) = written ++ rest := by
    cases h <;> rfl
  rw [pair, hkey.key_eq hbetween]
  simp only [after, if_true, Option.bind_eq_bind, Option.bind_some, hinner.afterBlanks_append,
    hstart, h.value_eq hroom hsteps, Option.pure_def]

/-- A text that is empty or begins with a line break, and what stands behind that line break. -/
inductive EndsBefore : List Char → List Char → Prop
  | ending : EndsBefore [] []
  | lineBreak {written : List Char} (h : IsBreak written) (rest : List Char) :
      EndsBefore (written ++ rest) rest

/-- The end of a line is passed over with the line break behind it. -/
theorem EndsLine.afterLine?_eq {written text rest : List Char} (h : EndsLine written)
    (htext : EndsBefore text rest) : afterLine? (written ++ text) = some rest := by
  have hstart : afterBlanks text = text ∧ text.dropWhile isPlain = text := by
    rcases htext with _ | ⟨rfl | rfl, rest⟩ <;> exact ⟨rfl, rfl⟩
  have hcomment : afterComment (afterBlanks (written ++ text)) = text := by
    cases h with
    | blank hblanks =>
      rw [hblanks.afterBlanks_append, hstart.1]
      rcases htext with _ | ⟨rfl | rfl, rest⟩ <;> rfl
    | @comment blanks comment hblanks hcomment =>
      rw [List.append_assoc, hblanks.afterBlanks_append]
      refine (List.dropWhile_append_of_pos fun c hc => ?_).trans hstart.2
      exact (hcomment c hc).isPlain_eq
  rw [afterLine?, hcomment]
  rcases htext with _ | ⟨rfl | rfl, rest⟩ <;> rfl

/-- Blanks before the end of a line make no difference. -/
theorem afterLine?_afterBlanks (text : List Char) :
    afterLine? (afterBlanks text) = afterLine? text := by
  have hagain : afterBlanks (afterBlanks text) = afterBlanks text :=
    List.dropWhile_idempotent isBlank text
  rw [afterLine?, afterLine?, hagain]

/-- Nothing is left behind the end of a text, and less than the text behind a line break. -/
theorem EndsBefore.eq_nil_or_length_lt {text rest : List Char} (h : EndsBefore text rest) :
    text = [] ∧ rest = [] ∨ rest.length < text.length := by
  rcases h with _ | ⟨rfl | rfl, rest⟩
  · exact Or.inl ⟨rfl, rfl⟩
  · exact Or.inr (Nat.lt_succ_self rest.length)
  · exact Or.inr (Nat.lt_succ_of_lt (Nat.lt_succ_self rest.length))

/-- If a line is not empty, less than it and what follows it is left behind its end. -/
theorem EndsBefore.length_lt {text rest : List Char} (h : EndsBefore text rest) {line : List Char}
    (hne : line ++ text ≠ []) : rest.length < (line ++ text).length := by
  have hpos := List.length_pos_of_ne_nil hne
  rw [List.length_append] at hpos ⊢
  rcases h.eq_nil_or_length_lt with ⟨rfl, rfl⟩ | hlength
  · exact hpos
  · omega

/-- Behind the blanks at the end of a line stands a comment, a line break or nothing at all. -/
theorem EndsLine.afterBlanks_eq {line text rest : List Char} (h : EndsLine line)
    (htext : EndsBefore text rest) :
    afterBlanks (line ++ text) = [] ∧ rest = [] ∨
      ∃ c others, afterBlanks (line ++ text) = c :: others ∧ (c = '#' ∨ c = '\n' ∨ c = '\r') := by
  cases h with
  | blank hblanks =>
    rw [hblanks.afterBlanks_append]
    rcases htext with _ | ⟨rfl | rfl, rest⟩
    · exact Or.inl ⟨rfl, rfl⟩
    · exact Or.inr ⟨'\n', rest, rfl, Or.inr (Or.inl rfl)⟩
    · exact Or.inr ⟨'\r', '\n' :: rest, rfl, Or.inr (Or.inr rfl)⟩
  | @comment blanks comment hblanks =>
    rw [List.append_assoc, hblanks.afterBlanks_append]
    exact Or.inr ⟨'#', comment ++ text, rfl, Or.inl rfl⟩

/-- A line without a member is passed over. -/
theorem documentLines_gap {line text rest : List Char} (h : EndsLine line)
    (htext : EndsBefore text rest) {lines : List Line}
    (hrest : ∀ steps, rest.length < steps → documentLines steps rest = some lines) {steps : Nat}
    (hsteps : (line ++ text).length < steps) :
    documentLines steps (line ++ text) = some lines := by
  obtain ⟨steps, rfl⟩ := Nat.exists_eq_add_of_le' (Nat.zero_lt_of_lt hsteps)
  have hline := h.afterLine?_eq htext
  rw [documentLines.eq_def]
  rcases h.afterBlanks_eq htext with ⟨hnone, rfl⟩ | ⟨c, others, hcons, hc⟩
  · simp only [hnone]
    exact hrest 1 Nat.one_pos
  · have hne : line ++ text ≠ [] := by
      intro hnil
      rw [hnil] at hcons
      cases hcons
    have hlength := htext.length_lt hne
    have hothers := hrest steps (by omega)
    rw [← afterLine?_afterBlanks, hcons] at hline
    rcases hc with rfl | rfl | rfl <;> simp [hcons, hline, hothers]

/-- A line that begins like a key is read as a pair, and the other lines follow. -/
theorem documentLines_pair {line others text rest : List Char} {c : Char} {read : Pair}
    (hline : afterBlanks line = c :: others) (hc : c = '"' ∨ c = '\'' ∨ inBareKey c = true)
    (hpair : pair nestingLimit (readSteps others) (c :: others) = some (read, text))
    (htext : afterLine? text = some rest) (steps : Nat) :
    documentLines (steps + 1) line = (documentLines steps rest).map (.pair read :: ·) := by
  have hmark : (c = '#' || c = '\n' || c = '\r') = false := by
    rw [Bool.eq_false_iff]
    intro hmark
    simp only [Bool.or_eq_true, decide_eq_true_eq] at hmark
    rcases hmark with (rfl | rfl) | rfl <;> exact absurd hc (by decide)
  rw [documentLines.eq_def]
  dsimp only
  rw [hline]
  split
  case h_1 heq => cases heq
  case h_2 heq =>
    rw [(List.cons.inj heq).1] at hc
    exact absurd hc (by decide)
  case h_3 heq =>
    obtain ⟨rfl, rfl⟩ := List.cons.inj heq
    rw [hmark]
    simp only [hpair, htext, Option.bind_eq_bind, Option.bind_some]
    cases documentLines steps rest <;> rfl

/-- A member as a pair. -/
def pairOf (member : String × Item) : Pair := ⟨[], member.1, member.2⟩

/-- A spelled line is read as its member, if it has one, and the other lines follow. -/
theorem SpellsLine.documentLines_eq {line text rest : List Char} {members : Members}
    (h : SpellsLine line members) (htext : EndsBefore text rest) {lines : List Line}
    (hrest : ∀ steps, rest.length < steps → documentLines steps rest = some lines) {steps : Nat}
    (hsteps : (line ++ text).length < steps) :
    documentLines steps (line ++ text) =
      some (members.map (fun member => .pair (pairOf member)) ++ lines) := by
  cases h with
  | gap h => exact documentLines_gap h htext hrest hsteps
  | @member before key between inner written ending name item hbefore hkey hbetween hinner h
      hending =>
    obtain ⟨steps, rfl⟩ := Nat.exists_eq_add_of_le' (Nat.zero_lt_of_lt hsteps)
    have hmember := hending.afterLine?_eq htext
    obtain ⟨c, others, rfl, hc⟩ := hkey.exists_eq_cons
    have hbehind : documentLines steps rest = some lines :=
      hrest steps (Nat.lt_of_lt_of_le (htext.length_lt (by simp)) (Nat.le_of_lt_succ hsteps))
    have hstart := hkey.afterBlanks_append
      (between ++ '=' :: (inner ++ (written ++ (ending ++ text))))
    have hlong : written.length < 4 * (others ++
        (between ++ '=' :: (inner ++ (written ++ (ending ++ text))))).length + 3 := by
      simp only [List.length_append, List.length_cons]
      omega
    have hpair := pair_eq hkey hbetween hinner h (by decide : 0 < nestingLimit) hlong
      (ending ++ text)
    rw [List.cons_append] at hstart hpair
    have hread := documentLines_pair ((hbefore.afterBlanks_append _).trans hstart) hc hpair hmember
      steps
    rw [hbehind] at hread
    simp only [List.append_assoc, List.cons_append]
    exact hread

/-- Spelled lines of a text are read as their members. -/
theorem SpellsLines.documentLines_eq {lines : List (List Char)} {members : Members}
    {written : List Char} (h : SpellsLines lines members) (hjoins : Joins lines written)
    {steps : Nat} (hsteps : written.length < steps) :
    documentLines steps written = some (members.map fun member => .pair (pairOf member)) := by
  induction hjoins generalizing members steps with
  | last line =>
    obtain _ | ⟨hline, h⟩ := h
    cases h
    have hend : ∀ steps, 0 < steps → documentLines steps [] = some [] := by
      intro steps hpos
      obtain ⟨steps, rfl⟩ := Nat.exists_eq_add_of_le' hpos
      rfl
    have hread := hline.documentLines_eq .ending hend (by rwa [List.append_nil])
    simpa using hread
  | cons line hbreak _ ih =>
    obtain _ | ⟨hline, h⟩ := h
    rw [List.map_append]
    exact hline.documentLines_eq (.lineBreak hbreak _) (fun steps hlong => ih h hlong) hsteps

/-- Pairs without a header before them are all before the first header. -/
theorem sections_pairs (pairs : List Pair) : sections (pairs.map .pair) = (pairs, []) := by
  induction pairs with
  | nil => rfl
  | cons pair pairs ih => simp only [List.map_cons, sections, ih]

/-- A new key is added after all others. -/
theorem alter_of_not_mem {key : String} {members : Members}
    (h : key ∉ members.map (·.1)) (change : Option Item → Option Item) :
    alter key change members = (change none).map fun item => members ++ [(key, item)] := by
  induction members with
  | nil => rfl
  | cons member members ih =>
    rw [List.map_cons, List.mem_cons, not_or] at h
    rw [alter, if_neg (Ne.symm h.1), ih h.2]
    cases change none <;> rfl

/-- Members with distinct keys are added in order. -/
theorem putAll_eq {members others : Members} (h : ((others ++ members).map (·.1)).Nodup) :
    putAll (members.map pairOf) others = some (others ++ members) := by
  induction members generalizing others with
  | nil =>
    rw [List.append_nil]
    rfl
  | cons member members ih =>
    have hnew : member.1 ∉ others.map (·.1) := by
      intro hmem
      rw [List.map_append, List.nodup_append] at h
      exact h.2.2 member.1 hmem member.1 List.mem_cons_self rfl
    have hput : put (pairOf member).value (pairOf member).path (pairOf member).key others =
        some (others ++ [member]) := alter_of_not_mem hnew _
    have hmoved : others ++ member :: members = others ++ [member] ++ members := by
      rw [List.append_assoc, List.singleton_append]
    rw [hmoved] at h ⊢
    rw [putAll, List.map_cons, List.foldlM_cons, hput]
    exact ih h

/-- No document begins with two byte order marks. -/
theorem documentLines_mark (steps : Nat) (rest : List Char) :
    documentLines steps ('\uFEFF' :: rest) = none := by
  have hkey : key ('\uFEFF' :: rest) = none := rfl
  have hpair : pair nestingLimit (readSteps rest) ('\uFEFF' :: rest) = none := by
    rw [readSteps, pair, hkey]
    rfl
  have hstay : afterBlanks ('\uFEFF' :: rest) = '\uFEFF' :: rest := rfl
  cases steps with
  | zero => rfl
  | succ steps => simp [documentLines, hstay, hpair]

/-- Lines of members with distinct keys are a document of these members. -/
theorem document_eq {text : String} {lines : List (List Char)} {members : Members}
    (htext : HasLines text lines) (h : SpellsLines lines members)
    (hkeys : (members.map (·.1)).Nodup) : document text = some members := by
  have hlines : ∀ written, Joins lines written → documentLines (written.length + 1) written =
      some (members.map fun member => .pair (pairOf member)) :=
    fun written hjoins => h.documentLines_eq hjoins (Nat.lt_succ_self written.length)
  have hread : documentLines ((afterMark text.toList).length + 1) (afterMark text.toList) =
      some (members.map fun member => .pair (pairOf member)) := by
    rcases htext with hjoins | ⟨hmark, hjoins⟩
    · have hunmarked := hlines _ hjoins
      generalize text.toList = written at hunmarked ⊢
      rw [afterMark.eq_def]
      split
      case h_1 rest =>
        rw [documentLines_mark] at hunmarked
        cases hunmarked
      case h_2 => exact hunmarked
    · rw [hmark]
      exact hlines _ hjoins
  have hpairs : sections (members.map fun member => .pair (pairOf member)) =
      (members.map pairOf, []) := by
    have := sections_pairs (members.map pairOf)
    rwa [List.map_map] at this
  have hput : putAll (members.map pairOf) [] = some members := putAll_eq hkeys
  simp only [document, hread, Option.bind_eq_bind, Option.bind_some, hpairs, hput]
  rfl

end ClientPlan.Toml
