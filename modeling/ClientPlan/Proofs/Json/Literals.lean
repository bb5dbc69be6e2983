import ClientPlan.Json.Draft
import ClientPlan.Proofs.Fallible
import ClientPlan.Proofs.Json.Grammar
import Mathlib.Data.List.TakeDrop

/-!
# Scanning literals and numbers

A scanner that meets a spelled text or number passes over exactly that much and keeps what it
spells.
-/

namespace ClientPlan.Json

/-- A hexadecimal digit is worth less than sixteen. -/
theorem HexDigit.lt {c : Char} {value : Nat} (h : HexDigit c value) : value < 16 := by
  rcases h with h | h <;> exact (List.getElem?_eq_some_iff.mp h).1

/-- A hexadecimal digit has its value. -/
theorem HexDigit.hexValue?_eq {c : Char} {value : Nat} (h : HexDigit c value) :
    Text.hexValue? c = some value := by
  have hlower : ∀ n < 16, "0123456789abcdef".toList[n]?.bind Text.hexValue? = some n := by decide
  have hupper : ∀ n < 16, "0123456789ABCDEF".toList[n]?.bind Text.hexValue? = some n := by decide
  have hdigit := And.intro (hlower value h.lt) (hupper value h.lt)
  rcases h with h | h
  · simpa only [h, Option.bind_some] using hdigit.1
  · simpa only [h, Option.bind_some] using hdigit.2

/-- Four digits have the value of the unit that they spell. -/
theorem SpellsUnit.exists_digits {digits : List Char} {unit : Nat} (h : SpellsUnit digits unit) :
    ∃ first second third fourth, digits = [first, second, third, fourth] ∧
      Text.hexValues? [first, second, third, fourth] = some unit := by
  obtain @⟨first, second, third, fourth, a, b, c, d, ha, hb, hc, hd⟩ := h
  refine ⟨first, second, third, fourth, rfl, ?_⟩
  simp only [Text.hexValues?, List.foldlM_cons, List.foldlM_nil, ha.hexValue?_eq, hb.hexValue?_eq,
    hc.hexValue?_eq, hd.hexValue?_eq, Option.map_some, Option.pure_def, Option.bind_eq_bind,
    Option.bind_some, Option.some.injEq]
  omega

/-- No character is half of a pair. -/
theorem toNat_lt_or_lt (c : Char) : c.toNat < 0xD800 ∨ 0xDFFF < c.toNat := by
  rcases c.valid with h | h
  · exact Or.inl h
  · exact Or.inr h.1

/-- The units of a large character make up that character. -/
theorem pairedChar_eq {c : Char} (hlarge : 0x10000 ≤ c.toNat) :
    pairedChar (0xD800 + (c.toNat - 0x10000) / 0x400) (0xDC00 + (c.toNat - 0x10000) % 0x400) =
      c := by
  have hcode : 0x10000 + 0x400 * (0xD800 + (c.toNat - 0x10000) / 0x400 - 0xD800) +
      (0xDC00 + (c.toNat - 0x10000) % 0x400 - 0xDC00) = c.toNat := by omega
  rw [pairedChar, hcode, Char.ofNat_toNat]

/-- A scanner of literals keeps a plain character. -/
theorem scanLiteral_plain {c : Char} (hprintable : 0x20 ≤ c.toNat) (hquote : c ≠ '"')
    (hslash : c ≠ '\\') (rest : List Char) :
    scanLiteral (c :: rest) = Literal.before (.plain c) (scanLiteral rest) := by
  have hnot : ¬c < ' ' := by
    intro h
    exact absurd (show c.toNat < 0x20 from h) (by omega)
  rw [scanLiteral.eq_def]
  split
  case h_7 heq =>
    obtain ⟨rfl, rfl⟩ := List.cons.inj heq
    rw [if_neg hnot]
  all_goals simp_all

/-- A scanner of literals keeps the character of a short escape. -/
theorem scanLiteral_short {letter c : Char} (h : (letter, c) ∈ shortEscapes) (rest : List Char) :
    scanLiteral ('\\' :: letter :: rest) = Literal.before (.plain c) (scanLiteral rest) := by
  simp only [shortEscapes, List.mem_cons, Prod.mk.injEq, List.not_mem_nil, or_false] at h
  rcases h with ⟨rfl, rfl⟩ | ⟨rfl, rfl⟩ | ⟨rfl, rfl⟩ | ⟨rfl, rfl⟩ | ⟨rfl, rfl⟩ | ⟨rfl, rfl⟩ |
    ⟨rfl, rfl⟩ | ⟨rfl, rfl⟩ <;> simp [scanLiteral, shortEscape?]

/-- A scanner of literals keeps the unit that four digits spell. -/
theorem scanLiteral_unit {digits : List Char} {unit : Nat} (h : SpellsUnit digits unit)
    (rest : List Char) :
    scanLiteral ('\\' :: 'u' :: (digits ++ rest)) =
      Literal.before (.unit unit) (scanLiteral rest) := by
  obtain ⟨first, second, third, fourth, rfl, hvalue⟩ := h.exists_digits
  simp only [List.cons_append, List.nil_append, scanLiteral, hvalue]

/-- What follows a unit that is no half of a pair is read by itself. -/
theorem readPieces_unit (fault : Option Fault) (c : Char) (pieces : List Piece) :
    readPieces fault (.unit c.toNat :: pieces) = (c :: ·) <$> readPieces fault pieces := by
  have hcloses : closesPair c.toNat = false := by
    have := toNat_lt_or_lt c
    simp only [closesPair, Bool.and_eq_false_iff, decide_eq_false_iff_not]
    omega
  have hopens : opensPair c.toNat = false := by
    have := toNat_lt_or_lt c
    simp only [opensPair, Bool.and_eq_false_iff, decide_eq_false_iff_not]
    omega
  rw [readPieces.eq_def]
  simp only [hcloses, hopens, Bool.false_eq_true, if_false, Char.ofNat_toNat]

/-- The two units of a large character are read as that character. -/
theorem readPieces_pair (fault : Option Fault) {c : Char} (hlarge : 0x10000 ≤ c.toNat)
    (pieces : List Piece) :
    readPieces fault (.unit (0xD800 + (c.toNat - 0x10000) / 0x400) ::
        .unit (0xDC00 + (c.toNat - 0x10000) % 0x400) :: pieces) =
      (c :: ·) <$> readPieces fault pieces := by
  have hlt : c.toNat < 0x110000 := by
    rcases c.valid with h | h
    · exact Nat.lt_trans h (by decide)
    · exact h.2
  have hopens : opensPair (0xD800 + (c.toNat - 0x10000) / 0x400) = true := by
    simp only [opensPair, Bool.and_eq_true, decide_eq_true_eq]
    omega
  have hopening : closesPair (0xD800 + (c.toNat - 0x10000) / 0x400) = false := by
    simp only [closesPair, Bool.and_eq_false_iff, decide_eq_false_iff_not]
    omega
  have hclosing : closesPair (0xDC00 + (c.toNat - 0x10000) % 0x400) = true := by
    simp only [closesPair, Bool.and_eq_true, decide_eq_true_eq]
    omega
  rw [readPieces.eq_def]
  simp only [hopens, hopening, hclosing, Bool.false_eq_true, if_false, if_true,
    pairedChar_eq hlarge]

/-- A scanner of literals passes over spelled characters and their closing quote, and keeps pieces
that read as these characters. -/
theorem SpellsChars.exists_scanLiteral_eq {written text : List Char} (h : SpellsChars written text)
    (rest : List Char) :
    ∃ pieces, scanLiteral (written ++ '"' :: rest) = (⟨pieces, none⟩, some rest) ∧
      readPieces none pieces = .ok text := by
  induction h with
  | nil => exact ⟨[], rfl, rfl⟩
  | @plain c written text hprintable hquote hslash _ ih =>
    obtain ⟨pieces, hscan, hread⟩ := ih
    refine ⟨.plain c :: pieces, ?_, ?_⟩
    · rw [List.cons_append, scanLiteral_plain hprintable hquote hslash, hscan]
      rfl
    · rw [readPieces, hread]
      rfl
  | @short letter c written text hescape _ ih =>
    obtain ⟨pieces, hscan, hread⟩ := ih
    refine ⟨.plain c :: pieces, ?_, ?_⟩
    · rw [List.cons_append, List.cons_append, scanLiteral_short hescape, hscan]
      rfl
    · rw [readPieces, hread]
      rfl
  | @unit digits c written text hunit _ ih =>
    obtain ⟨pieces, hscan, hread⟩ := ih
    refine ⟨.unit c.toNat :: pieces, ?_, ?_⟩
    · rw [List.cons_append, List.cons_append, List.append_assoc, scanLiteral_unit hunit, hscan]
      rfl
    · rw [readPieces_unit, hread]
      rfl
  | @pair opening closing c written text hlarge hopening hclosing _ ih =>
    obtain ⟨pieces, hscan, hread⟩ := ih
    refine ⟨.unit (0xD800 + (c.toNat - 0x10000) / 0x400) ::
      .unit (0xDC00 + (c.toNat - 0x10000) % 0x400) :: pieces, ?_, ?_⟩
    · rw [List.cons_append, List.cons_append, List.append_assoc, List.cons_append,
        List.cons_append, List.append_assoc, scanLiteral_unit hopening, scanLiteral_unit hclosing,
        hscan]
      rfl
    · rw [readPieces_pair none hlarge, hread]
      rfl

/-- A literal whose text is read has no fault. -/
theorem fault_eq_none_of_readPieces {fault : Option Fault} {pieces : List Piece}
    {text : List Char} (h : readPieces fault pieces = .ok text) : fault = none := by
  fun_induction readPieces fault pieces generalizing text with
  | case1 =>
    cases fault with
    | none => rfl
    | some fault => cases h
  | case2 c rest ih =>
    obtain ⟨others, hothers, -⟩ := map_eq_ok.mp h
    exact ih hothers
  | case3 => cases h
  | case4 opening _ _ closing rest _ ih =>
    obtain ⟨others, hothers, -⟩ := map_eq_ok.mp h
    exact ih hothers
  | case5 => cases h
  | case6 => cases h
  | case7 => cases h
  | case8 opening rest _ _ ih =>
    obtain ⟨others, hothers, -⟩ := map_eq_ok.mp h
    exact ih hothers

/-- A text that continues no number. -/
def EndsNumber (rest : List Char) : Prop :=
  ∀ c ∈ rest.head?, c.isDigit = false ∧ c ≠ '.' ∧ c ≠ 'e' ∧ c ≠ 'E'

/-- The digits of a positive number begin with no zero. -/
theorem head?_toDigits_ne {n : Nat} (h : 0 < n) : (Nat.toDigits 10 n).head? ≠ some '0' := by
  induction n using Nat.strongRecOn with
  | ind n ih =>
    by_cases hlt : n < 10
    · have hall : ∀ n < 10, 0 < n → Nat.digitChar n ≠ '0' := by decide
      rw [Nat.toDigits_of_lt_base hlt]
      simpa using hall n hlt h
    · have hshorter := ih (n / 10) (by omega) (by omega)
      rw [Nat.toDigits_of_base_le (by decide) (by omega)]
      cases hdigits : Nat.toDigits 10 (n / 10) with
      | nil => exact absurd hdigits Nat.toDigits_ne_nil
      | cons c digits => rwa [hdigits] at hshorter

/-- A scanner of digits takes the digits of a number and stops behind them. -/
theorem scanDigits_toDigits (n : Nat) {rest : List Char} (hrest : EndsNumber rest) :
    scanDigits (Nat.toDigits 10 n ++ rest) = .read (Nat.toDigits 10 n) rest := by
  have hdigits : ∀ c ∈ Nat.toDigits 10 n, c.isDigit = true := fun c hc =>
    Nat.isDigit_of_mem_toDigits (by decide) (by decide) hc
  have hspan : (Nat.toDigits 10 n ++ rest).span Char.isDigit = (Nat.toDigits 10 n, rest) := by
    rw [List.span_eq_takeWhile_dropWhile, List.takeWhile_append_of_pos hdigits,
      List.dropWhile_append_of_pos hdigits]
    cases rest with
    | nil => simp
    | cons c rest =>
      have hc := (hrest c rfl).1
      simp [hc]
  rw [scanDigits, hspan]
  cases hn : Nat.toDigits 10 n with
  | nil => exact absurd hn Nat.toDigits_ne_nil
  | cons c digits => rfl

/-- A scanner of whole numbers takes the digits of a number. -/
theorem scanWhole_toDigits (n : Nat) {rest : List Char} (hrest : EndsNumber rest) :
    scanWhole (Nat.toDigits 10 n ++ rest) = .read (Nat.toDigits 10 n) rest := by
  rw [scanWhole, scanDigits_toDigits n hrest]
  split
  · next first second others _ heq =>
    rcases Nat.eq_zero_or_pos n with rfl | hpos
    · injection heq with heq
      exact absurd (congrArg List.length heq) (by simp)
    · injection heq with heq
      exact absurd (congrArg List.head? heq) (head?_toDigits_ne hpos)
  · rfl

/-- A number of digits alone is scanned as one. -/
theorem scanUnsigned_toDigits (negative : Bool) (n : Nat) {rest : List Char}
    (hrest : EndsNumber rest) :
    scanUnsigned negative (Nat.toDigits 10 n ++ rest) =
      .read ⟨negative, Nat.toDigits 10 n, none, none⟩ rest := by
  have hfraction : scanFraction rest = .read none rest := by
    rw [scanFraction.eq_def]
    split
    · next text => exact absurd rfl (hrest '.' rfl).2.1
    · rfl
  have hexponent : scanExponent rest = .read none rest := by
    rw [scanExponent.eq_def]
    split
    · next text => exact absurd rfl (hrest 'e' rfl).2.2.1
    · next text => exact absurd rfl (hrest 'E' rfl).2.2.2
    · rfl
  simp only [scanUnsigned, scanWhole_toDigits n hrest, hfraction, hexponent]

/-- More digits spell no smaller number. -/
theorem le_ofDigitChars (digits : List Char) (value : Nat) :
    value ≤ Nat.ofDigitChars 10 digits value := by
  induction digits generalizing value with
  | nil => exact Nat.le_refl value
  | cons c digits ih =>
    rw [Nat.ofDigitChars_cons]
    exact Nat.le_trans (by omega) (ih _)

/-- Digits are kept in full as long as their value fits. -/
theorem foldl_takeWhole {digits : List Char} {value : Nat}
    (hfits : Nat.ofDigitChars 10 digits value ≤ greatestWord) :
    digits.foldl Scaled.takeWhole ⟨value, 0, false⟩ =
      ⟨Nat.ofDigitChars 10 digits value, 0, false⟩ := by
  induction digits generalizing value with
  | nil => rfl
  | cons c digits ih =>
    rw [Nat.ofDigitChars_cons] at hfits ⊢
    have hlonger : 10 * value + digitValue c ≤ greatestWord :=
      Nat.le_trans (le_ofDigitChars digits _) hfits
    have hstep : Scaled.takeWhole ⟨value, 0, false⟩ c = ⟨10 * value + digitValue c, 0, false⟩ := by
      simp only [Scaled.takeWhole, hlonger, and_self, if_true]
    rw [List.foldl_cons, hstep]
    exact ih hfits

/-- The digits of a number that 64 bits hold have its value. -/
theorem scaledWhole_toDigits (negative : Bool) {n : Nat} (hfits : n ≤ greatestWord) :
    (NumberText.scaledWhole ⟨negative, Nat.toDigits 10 n, none, none⟩) = ⟨n, 0, false⟩ := by
  have hvalue : Nat.ofDigitChars 10 (Nat.toDigits 10 n) 0 = n :=
    Nat.ofDigitChars_toDigits (by decide) (by decide)
  rw [NumberText.scaledWhole, foldl_takeWhole (hvalue.symm ▸ hfits), hvalue]

/-- A number without a sign begins with its digits. -/
theorem scanNumber_toDigits (n : Nat) {rest : List Char} (hrest : EndsNumber rest) :
    scanNumber (Nat.toDigits 10 n ++ rest) =
      .read ⟨false, Nat.toDigits 10 n, none, none⟩ rest := by
  rw [← scanUnsigned_toDigits false n hrest, scanNumber.eq_def]
  split
  · next text heq =>
    cases hdigits : Nat.toDigits 10 n with
    | nil => exact absurd hdigits Nat.toDigits_ne_nil
    | cons c digits =>
      have hc : c ∈ Nat.toDigits 10 n := hdigits ▸ List.mem_cons_self
      have hdigit := Nat.isDigit_of_mem_toDigits (by decide) (by decide) hc
      rw [hdigits] at heq
      cases heq
      exact absurd hdigit (by decide)
  · rfl

/-- Digits without a sign have their value. -/
theorem value_toDigits {n : Nat} (hfits : n ≤ greatestWord) :
    NumberText.value ⟨false, Nat.toDigits 10 n, none, none⟩ = some (.integer n) := by
  have hinteger : NumberText.integer? ⟨false, Nat.toDigits 10 n, none, none⟩ = some (n : Int) := by
    simp only [NumberText.integer?, scaledWhole_toDigits false hfits, Option.isSome_none,
      Bool.or_false, Bool.false_eq_true, if_false]
  rw [NumberText.value, hinteger]

/-- Digits behind a minus sign have the opposite of their value. -/
theorem value_neg_toDigits {n : Nat} (hpos : 0 < n) (hfits : n ≤ Nat.pow 2 63) :
    NumberText.value ⟨true, Nat.toDigits 10 n, none, none⟩ = some (.integer (-(n : Int))) := by
  have hword : n ≤ greatestWord := by
    have hhalf : Nat.pow 2 63 = 2 ^ 63 := rfl
    have hgreatest : greatestWord = 2 ^ 64 - 1 := rfl
    omega
  have hinteger : NumberText.integer? ⟨true, Nat.toDigits 10 n, none, none⟩ =
      some (-(n : Int)) := by
    simp only [NumberText.integer?, scaledWhole_toDigits true hword, Option.isSome_none,
      Bool.or_false, Bool.false_eq_true, if_false, if_true, hpos, hfits, and_self]
  rw [NumberText.value, hinteger]

/-- A scanner of numbers takes a whole number that 64 bits hold, and reads it as that number. -/
theorem exists_scanNumber_eq {value : Int} (hword : IsWord value) {rest : List Char}
    (hrest : EndsNumber rest) :
    ∃ number, scanNumber ((toString value).toList ++ rest) = .read number rest ∧
      number.value = some (.integer value) := by
  obtain ⟨hlow, hhigh⟩ := hword
  have hhalf : Nat.pow 2 63 = 2 ^ 63 := rfl
  have hgreatest : greatestWord = 2 ^ 64 - 1 := rfl
  rw [show toString value = value.repr from rfl, Int.repr_eq_if]
  by_cases hsign : 0 ≤ value
  · have hvalue := value_toDigits (n := value.toNat) (by omega)
    rw [Int.toNat_of_nonneg hsign] at hvalue
    rw [if_pos hsign, Nat.toList_repr, scanNumber_toDigits _ hrest]
    exact ⟨_, rfl, hvalue⟩
  · have hvalue := value_neg_toDigits (n := (-value).toNat) (by omega) (by omega)
    rw [Int.toNat_of_nonneg (by omega), Int.neg_neg] at hvalue
    rw [if_neg hsign, String.toList_append, Nat.toList_repr]
    exact ⟨_, scanUnsigned_toDigits true _ hrest, hvalue⟩

end ClientPlan.Json
