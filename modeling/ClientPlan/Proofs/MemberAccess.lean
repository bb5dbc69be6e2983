import ClientPlan.Text.Access

/-!
# Reading accesses back

The text that reads a property off an object ends with a dot and the name, or with the name between
quotes in brackets. Between quotes each backslash and each quote has a backslash of its own before
it, so that a reader who undoes these pairs from left to right cannot take a quote of the name for
the closing one. Hence the text tells which property is read.
-/

namespace ClientPlan.Text

/-- An ASCII letter or digit, an underscore or a dollar sign. -/
def IsPlainChar (c : Char) : Prop :=
  'a' ≤ c ∧ c ≤ 'z' ∨ 'A' ≤ c ∧ c ≤ 'Z' ∨ '0' ≤ c ∧ c ≤ '9' ∨ c = '_' ∨ c = '$'

/-- A name that needs no quotes. -/
structure IsPlainName (name : List Char) : Prop where
  ne_nil : name ≠ []
  chars : ∀ c ∈ name, IsPlainChar c
  first : ∀ c ∈ name.head?, ¬('0' ≤ c ∧ c ≤ '9')

/-- A text as it stands between quotes. -/
def escaped (text : List Char) : List Char := text.flatMap escapedChar

/-- A text in which another one stands in place of a character. -/
def replaced (c : Char) (other text : List Char) : List Char :=
  text.flatMap fun d => if d = c then other else [d]

/-- What stands before the first quote without a backslash of its own, with these backslashes
undone, and what follows that quote. Nothing but a quote or a backslash may have one. -/
def readEscaped : List Char → Option (List Char × List Char)
  | [] => none
  | '"' :: rest => some ([], rest)
  | '\\' :: '"' :: rest => (readEscaped rest).map fun (text, rest) => ('"' :: text, rest)
  | '\\' :: '\\' :: rest => (readEscaped rest).map fun (text, rest) => ('\\' :: text, rest)
  | '\\' :: _ => none
  | c :: rest => (readEscaped rest).map fun (text, rest) => (c :: text, rest)

/-- The letters are those from `a` to `z` and from `A` to `Z`. -/
theorem isAlpha_iff {c : Char} :
    c.isAlpha = true ↔ 'a' ≤ c ∧ c ≤ 'z' ∨ 'A' ≤ c ∧ c ≤ 'Z' := by
  have halpha : c.isAlpha =
      (decide ('A' ≤ c ∧ c ≤ 'Z') || (decide ('a' ≤ c) && decide (c ≤ 'z'))) := rfl
  rw [halpha, Bool.or_eq_true, Bool.and_eq_true, or_comm]
  simp only [decide_eq_true_eq]

/-- A character may stand in a plain identifier exactly if it is plain. -/
theorem inIdentifier_iff {c : Char} : inIdentifier c = true ↔ IsPlainChar c := by
  have hdigit : c.isDigit = (decide ('0' ≤ c) && decide (c ≤ '9')) := rfl
  simp only [inIdentifier, IsPlainChar, Char.isAlphanum, isAlpha_iff, hdigit, Bool.or_eq_true,
    Bool.and_eq_true, decide_eq_true_eq, beq_iff_eq, or_assoc]

/-- A character may begin a plain identifier exactly if it is plain and no digit. -/
theorem opensIdentifier_iff {c : Char} :
    opensIdentifier c = true ↔ IsPlainChar c ∧ ¬('0' ≤ c ∧ c ≤ '9') := by
  have hopens : opensIdentifier c = true ↔
      'a' ≤ c ∧ c ≤ 'z' ∨ 'A' ≤ c ∧ c ≤ 'Z' ∨ c = '_' ∨ c = '$' := by
    simp only [opensIdentifier, isAlpha_iff, Bool.or_eq_true, beq_iff_eq, or_assoc]
  rw [hopens]
  constructor
  · rintro (⟨hlow, hhigh⟩ | ⟨hlow, hhigh⟩ | rfl | rfl)
    · exact ⟨Or.inl ⟨hlow, hhigh⟩, fun hdigit => absurd (Char.le_trans hlow hdigit.2) (by decide)⟩
    · exact ⟨Or.inr (Or.inl ⟨hlow, hhigh⟩),
        fun hdigit => absurd (Char.le_trans hlow hdigit.2) (by decide)⟩
    · simp [IsPlainChar]
    · simp [IsPlainChar]
  · rintro ⟨hlower | hupper | hdigit | hother, hnot⟩
    · exact Or.inl hlower
    · exact Or.inr (Or.inl hupper)
    · exact absurd hdigit hnot
    · exact Or.inr (Or.inr hother)

/-- The plain identifiers are the plain names. -/
theorem isIdentifier_iff {name : List Char} : isIdentifier name = true ↔ IsPlainName name := by
  cases name with
  | nil => exact ⟨fun h => (nomatch h), fun h => absurd rfl h.ne_nil⟩
  | cons c rest =>
    simp only [isIdentifier, Bool.and_eq_true, List.all_eq_true, opensIdentifier_iff,
      inIdentifier_iff]
    constructor
    · rintro ⟨⟨hplain, hfirst⟩, hrest⟩
      refine ⟨List.cons_ne_nil c rest, List.forall_mem_cons.mpr ⟨hplain, hrest⟩, ?_⟩
      rintro _ ⟨⟩
      exact hfirst
    · intro h
      obtain ⟨hplain, hrest⟩ := List.forall_mem_cons.mp h.chars
      exact ⟨⟨hplain, h.first c rfl⟩, hrest⟩

/-- A character other than a quote or a backslash stands for itself. -/
theorem escaped_cons_of_ne {c : Char} (hquote : c ≠ '"') (hslash : c ≠ '\\') (text : List Char) :
    escaped (c :: text) = c :: escaped text := by
  simp only [escaped, List.flatMap_cons, escapedChar, hquote, hslash, or_self, if_false,
    List.cons_append, List.nil_append]

/-- A quote has a backslash before it. -/
theorem escaped_quote (text : List Char) : escaped ('"' :: text) = '\\' :: '"' :: escaped text :=
  rfl

/-- A backslash has another one before it. -/
theorem escaped_backslash (text : List Char) :
    escaped ('\\' :: text) = '\\' :: '\\' :: escaped text := rfl

/-- Backslashes are doubled first, and quotes get theirs afterwards. The other way round, the
backslashes of the quotes would be doubled as well. -/
theorem escaped_eq_replaced (text : List Char) :
    escaped text = replaced '"' ['\\', '"'] (replaced '\\' ['\\', '\\'] text) := by
  rw [replaced, replaced, List.flatMap_assoc, escaped]
  congr 1
  funext c
  by_cases hslash : c = '\\'
  · subst hslash
    rfl
  · by_cases hquote : c = '"'
    · subst hquote
      rfl
    · simp [escapedChar, hslash, hquote]

/-- A reader of a quoted text stops at the closing quote and has read the text. -/
theorem readEscaped_escaped (text rest : List Char) :
    readEscaped (escaped text ++ '"' :: rest) = some (text, rest) := by
  induction text with
  | nil => rfl
  | cons c text ih =>
    by_cases hquote : c = '"'
    · subst hquote
      rw [escaped_quote, List.cons_append, List.cons_append, readEscaped, ih, Option.map_some]
    · by_cases hslash : c = '\\'
      · subst hslash
        rw [escaped_backslash, List.cons_append, List.cons_append, readEscaped, ih,
          Option.map_some]
      · rw [escaped_cons_of_ne hquote hslash, List.cons_append, readEscaped.eq_6, ih,
          Option.map_some]
        all_goals simp_all

/-- Only a quoted text is read, and only as what it quotes. -/
theorem eq_escaped_of_readEscaped {written text rest : List Char}
    (h : readEscaped written = some (text, rest)) : written = escaped text ++ '"' :: rest := by
  fun_induction readEscaped written generalizing text with
  | case1 => cases h
  | case2 rest =>
    cases h
    rfl
  | case3 rest ih =>
    obtain ⟨read, hread, heq⟩ := Option.map_eq_some_iff.mp h
    cases heq
    rw [ih hread]
    rfl
  | case4 rest ih =>
    obtain ⟨read, hread, heq⟩ := Option.map_eq_some_iff.mp h
    cases heq
    rw [ih hread]
    rfl
  | case5 => cases h
  | case6 c rest hquote _ _ hslash ih =>
    obtain ⟨read, hread, heq⟩ := Option.map_eq_some_iff.mp h
    cases heq
    rw [ih hread, escaped_cons_of_ne hquote hslash, List.cons_append]

/-- A text is read exactly as what it quotes, up to its closing quote. -/
theorem readEscaped_eq_some_iff {written text rest : List Char} :
    readEscaped written = some (text, rest) ↔ written = escaped text ++ '"' :: rest := by
  constructor
  · exact eq_escaped_of_readEscaped
  · rintro rfl
    exact readEscaped_escaped text rest

private theorem exists_of_cons_eq_append {c : Char} {text before after : List Char}
    (hquote : c ≠ '"') (h : c :: text = before ++ '"' :: after) :
    ∃ between, before = c :: between ∧ text = between ++ '"' :: after := by
  rcases List.cons_eq_append_iff.mp h with ⟨-, heq⟩ | hbetween
  · cases heq
    exact absurd rfl hquote
  · exact hbetween

/-- Every quote of a quoted text is one of the text itself, and right before it stands a backslash
that belongs to nothing else. -/
theorem exists_of_escaped_eq {text before after : List Char}
    (h : escaped text = before ++ '"' :: after) :
    ∃ first last, text = first ++ '"' :: last ∧ before = escaped first ++ ['\\'] ∧
      after = escaped last := by
  induction text generalizing before with
  | nil =>
    rw [escaped, List.flatMap_nil] at h
    exact absurd h (by simp)
  | cons c text ih =>
    by_cases hquote : c = '"'
    · subst hquote
      rw [escaped_quote] at h
      obtain ⟨between, rfl, hrest⟩ := exists_of_cons_eq_append (by decide) h
      rcases List.cons_eq_append_iff.mp hrest with ⟨rfl, heq⟩ | ⟨between, rfl, hlater⟩
      · cases heq
        exact ⟨[], text, rfl, rfl, rfl⟩
      · obtain ⟨first, last, rfl, rfl, rfl⟩ := ih hlater
        exact ⟨'"' :: first, last, rfl, rfl, rfl⟩
    · by_cases hslash : c = '\\'
      · subst hslash
        rw [escaped_backslash] at h
        obtain ⟨between, rfl, hsecond⟩ := exists_of_cons_eq_append hquote h
        obtain ⟨between, rfl, hrest⟩ := exists_of_cons_eq_append hquote hsecond
        obtain ⟨first, last, rfl, rfl, rfl⟩ := ih hrest
        exact ⟨'\\' :: first, last, rfl, rfl, rfl⟩
      · rw [escaped_cons_of_ne hquote hslash] at h
        obtain ⟨between, rfl, hrest⟩ := exists_of_cons_eq_append hquote h
        obtain ⟨first, last, rfl, rfl, rfl⟩ := ih hrest
        refine ⟨c :: first, last, rfl, ?_, rfl⟩
        rw [escaped_cons_of_ne hquote hslash, List.cons_append]

/-- A plain name is read by a dot. -/
theorem access_of_isPlainName (object : String) {property : String}
    (h : IsPlainName property.toList) : access object property = object ++ "." ++ property :=
  if_pos (isIdentifier_iff.mpr h)

/-- Any other name is read by its quoted form in brackets. -/
theorem access_of_not_isPlainName (object : String) {property : String}
    (h : ¬IsPlainName property.toList) : access object property =
      object ++ "[\"" ++ String.ofList (escaped property.toList) ++ "\"]" :=
  if_neg fun hidentifier => h (isIdentifier_iff.mp hidentifier)

private theorem toList_dotted (object property : String) :
    (object ++ "." ++ property).toList = object.toList ++ '.' :: property.toList := by
  simp [String.toList_append]

private theorem toList_bracketed (object : String) (property : List Char) :
    (object ++ "[\"" ++ String.ofList (escaped property) ++ "\"]").toList =
      object.toList ++ '[' :: '"' :: (escaped property ++ ['"', ']']) := by
  simp [String.toList_append]

/-- No text has both forms. -/
theorem dotted_ne_bracketed (object name : String) (property : List Char) :
    object ++ "." ++ name ≠ object ++ "[\"" ++ String.ofList (escaped property) ++ "\"]" := by
  intro h
  have hlist := congrArg String.toList h
  rw [toList_dotted, toList_bracketed, List.append_cancel_left_eq] at hlist
  cases hlist

/-- The quoted form in brackets belongs to one name. -/
theorem bracketed_inj {object : String} {property other : List Char}
    (h : object ++ "[\"" ++ String.ofList (escaped property) ++ "\"]" =
      object ++ "[\"" ++ String.ofList (escaped other) ++ "\"]") : property = other := by
  have hlist := congrArg String.toList h
  rw [toList_bracketed, toList_bracketed, List.append_cancel_left_eq, List.cons.injEq,
    List.cons.injEq] at hlist
  have hread := congrArg readEscaped hlist.2.2
  rw [readEscaped_escaped, readEscaped_escaped] at hread
  cases hread
  rfl

/-- A property is read by a dot exactly if its name is plain. -/
theorem access_eq_dotted_iff {object property : String} :
    access object property = object ++ "." ++ property ↔ IsPlainName property.toList := by
  by_cases hplain : IsPlainName property.toList
  · exact iff_of_true (access_of_isPlainName object hplain) hplain
  · rw [access_of_not_isPlainName object hplain]
    exact iff_of_false (dotted_ne_bracketed _ _ _).symm hplain

/-- A property is read by its quoted form in brackets exactly if its name is not plain. -/
theorem access_eq_bracketed_iff {object property : String} :
    access object property =
        object ++ "[\"" ++ String.ofList (escaped property.toList) ++ "\"]" ↔
      ¬IsPlainName property.toList := by
  by_cases hplain : IsPlainName property.toList
  · rw [access_of_isPlainName object hplain]
    exact iff_of_false (dotted_ne_bracketed _ _ _) (not_not_intro hplain)
  · exact iff_of_true (access_of_not_isPlainName object hplain) hplain

/-- Different properties of an object are read by different texts. -/
theorem access_inj {object property other : String}
    (h : access object property = access object other) : property = other := by
  by_cases hplain : IsPlainName property.toList
  · rw [access_of_isPlainName object hplain] at h
    by_cases hother : IsPlainName other.toList
    · rw [access_of_isPlainName object hother, String.append_right_inj] at h
      exact h
    · rw [access_of_not_isPlainName object hother] at h
      exact absurd h (dotted_ne_bracketed _ _ _)
  · rw [access_of_not_isPlainName object hplain] at h
    by_cases hother : IsPlainName other.toList
    · rw [access_of_isPlainName object hother] at h
      exact absurd h.symm (dotted_ne_bracketed _ _ _)
    · rw [access_of_not_isPlainName object hother] at h
      exact String.toList_inj.mp (bracketed_inj h)

/-- A property is read by a dot exactly if its name is plain, and by its quoted form in brackets
exactly if it is not. In the quoted form backslashes are doubled first and quotes get theirs then,
so that the backslash before a quote belongs to nothing else. A reader that undoes them stops at the
closing quote with the name, and reads no other text as that name. Hence different properties of an
object are read by different texts. -/
theorem access_unambiguous (object property : String) :
    (access object property = object ++ "." ++ property ↔ IsPlainName property.toList) ∧
    (access object property =
        object ++ "[\"" ++ String.ofList (escaped property.toList) ++ "\"]" ↔
      ¬IsPlainName property.toList) ∧
    escaped property.toList =
      replaced '"' ['\\', '"'] (replaced '\\' ['\\', '\\'] property.toList) ∧
    (∀ before after, escaped property.toList = before ++ '"' :: after →
      ∃ first last, property.toList = first ++ '"' :: last ∧
        before = escaped first ++ ['\\'] ∧ after = escaped last) ∧
    (∀ written rest, readEscaped written = some (property.toList, rest) ↔
      written = escaped property.toList ++ '"' :: rest) ∧
    ∀ other, access object property = access object other → property = other :=
  ⟨access_eq_dotted_iff, access_eq_bracketed_iff, escaped_eq_replaced _,
    fun _ _ => exists_of_escaped_eq, fun _ _ => readEscaped_eq_some_iff, fun _ => access_inj⟩

end ClientPlan.Text
