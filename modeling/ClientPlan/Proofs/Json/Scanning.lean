import ClientPlan.Proofs.Json.Literals
import Mathlib.Data.List.DropRight

/-!
# Scanning values

A text that spells a value is scanned into a node without a fault that denotes this value. What
follows the text is left, apart from blanks.
-/

namespace ClientPlan.Json

namespace Node

mutual

/-- A node without a fault has this value, however deeply containers are nested in it. -/
inductive Denotes : Node → Value → Prop
  | null : Denotes .null .null
  | boolean (value : Bool) : Denotes (.boolean value) (.boolean value)
  | number {number : NumberText} {value : Number} (h : number.value = some value) :
      Denotes (.number number) (.number value)
  | text {literal : Literal} {value : String} (h : literal.text = .ok value) :
      Denotes (.text literal) (.text value)
  | list {nodes : List Node} {values : List Value} (h : DenoteItems nodes values) :
      Denotes (.list nodes none) (.list values)
  | object {nodes : List (Literal × Node)} {members : List (String × Value)}
      (h : DenoteMembers nodes members) : Denotes (.object nodes none) (.object members)

/-- Nodes have these values, one by one. -/
inductive DenoteItems : List Node → List Value → Prop
  | nil : DenoteItems [] []
  | cons {node : Node} {value : Value} {nodes : List Node} {values : List Value}
      (h : Denotes node value) (hrest : DenoteItems nodes values) :
      DenoteItems (node :: nodes) (value :: values)

/-- Literals with nodes have these names and values, one by one. -/
inductive DenoteMembers : List (Literal × Node) → List (String × Value) → Prop
  | nil : DenoteMembers [] []
  | cons {key : Literal} {name : String} {node : Node} {value : Value}
      {nodes : List (Literal × Node)} {members : List (String × Value)} (hkey : key.text = .ok name)
      (h : Denotes node value) (hrest : DenoteMembers nodes members) :
      DenoteMembers ((key, node) :: nodes) ((name, value) :: members)

end

end Node

/-- Blanks at the start of a text are passed over. -/
theorem afterBlanks_append {blanks : List Char} (h : AllBlank blanks) (text : List Char) :
    afterBlanks (blanks ++ text) = afterBlanks text := by
  refine List.dropWhile_append_of_pos fun c hc => ?_
  rcases h c hc with rfl | rfl | rfl | rfl <;> rfl

/-- Blanks are passed over once. -/
theorem afterBlanks_afterBlanks (text : List Char) :
    afterBlanks (afterBlanks text) = afterBlanks text :=
  List.dropWhile_idempotent isBlank text

/-- A node is what follows the blanks. -/
theorem scanNode_afterBlanks (steps : Nat) (text : List Char) :
    scanNode steps (afterBlanks text) = scanNode steps text := by
  cases steps with
  | zero => rfl
  | succ steps => rw [scanNode, scanNode, afterBlanks_afterBlanks]

/-- Items are what follows the blanks. -/
theorem scanItemsFrom_afterBlanks (steps : Nat) (text : List Char) :
    scanItemsFrom steps (afterBlanks text) = scanItemsFrom steps text := by
  cases steps with
  | zero => rfl
  | succ steps => rw [scanItemsFrom, scanItemsFrom, scanNode_afterBlanks]

/-- A list without a fault that has not ended has items. -/
theorem scanItems_eq {steps : Nat} {text : List Char} {nodes : List Node}
    {behind : Option (List Char)} (h : scanItemsFrom steps text = (nodes, none, behind)) :
    scanItems true (steps + 1) text = scanItemsFrom steps text := by
  match steps, h with
  | 0, h => cases h
  | 1, h => cases h
  | steps + 2, h =>
    rw [scanItems.eq_def]
    dsimp only
    split
    · next heq =>
      rw [← scanItemsFrom_afterBlanks, heq] at h
      cases h
    · next heq =>
      rw [← scanItemsFrom_afterBlanks, heq] at h
      cases h
    · next hfirst => cases hfirst
    · next hfirst => cases hfirst
    · exact scanItemsFrom_afterBlanks _ _

/-- A key is scanned as a literal of its name, and a node behind its colon as the value. -/
theorem SpellsKey.exists_scan {key : List Char} {name : String} (h : SpellsKey key name)
    (rest : List Char) :
    ∃ text literal behind, afterBlanks (key ++ rest) = '"' :: text ∧
      scanLiteral text = (literal, some behind) ∧ literal.text = .ok name ∧
      afterBlanks behind = afterBlanks rest := by
  obtain @⟨before, written, after, text, hbefore, hwritten, hafter⟩ := h
  obtain ⟨pieces, hscan, hread⟩ := hwritten.exists_scanLiteral_eq (after ++ rest)
  refine ⟨written ++ '"' :: (after ++ rest), ⟨pieces, none⟩, after ++ rest, ?_, hscan, ?_,
    afterBlanks_append hafter rest⟩
  · rw [List.append_assoc, afterBlanks_append hbefore, List.cons_append, List.append_assoc]
    rfl
  · rw [Literal.text, hread]
    rfl

/-- Members are scanned from a key, a colon and a value on. -/
theorem scanMembersFrom_eq {steps : Nat} {key written rest behind : List Char} {name : String}
    {node : Node} (hkey : SpellsKey key name)
    (hvalue : scanNode steps (written ++ rest) = (node, some behind)) :
    ∃ literal, literal.text = .ok name ∧
      scanMembersFrom (steps + 2) (key ++ ':' :: (written ++ rest)) =
        ((literal, node) :: (scanMembers false (steps + 1) behind).1,
          (scanMembers false (steps + 1) behind).2) := by
  obtain ⟨text, literal, after, hblanks, hscan, hname, hafter⟩ :=
    hkey.exists_scan (':' :: (written ++ rest))
  have hcolon : afterBlanks (':' :: (written ++ rest)) = ':' :: (written ++ rest) := rfl
  refine ⟨literal, hname, ?_⟩
  have hmember : scanMemberValue (steps + 1) after = (node, some behind) := by
    rw [scanMemberValue, hafter, hcolon]
    exact hvalue
  rw [scanMembersFrom, hblanks]
  simp only [hscan, hmember]

/-- Members begin with a key. -/
theorem SpellsMembers.exists_key {written : List Char} {members : List (String × Value)}
    (h : SpellsMembers written members) :
    ∃ key name rest, SpellsKey key name ∧ written = key ++ rest := by
  cases h with
  | last hkey h => exact ⟨_, _, _, hkey, rfl⟩
  | cons hkey h hothers => exact ⟨_, _, _, hkey, rfl⟩

/-- An object that begins with a key has members. -/
theorem scanMembers_eq {written : List Char} {members : List (String × Value)}
    (h : SpellsMembers written members) (steps : Nat) (rest : List Char) :
    scanMembers true (steps + 1) (written ++ rest) = scanMembersFrom steps (written ++ rest) := by
  obtain ⟨key, name, others, hkey, rfl⟩ := h.exists_key
  rw [List.append_assoc]
  obtain ⟨text, literal, after, hblanks, -⟩ := hkey.exists_scan (others ++ rest)
  have hagain : afterBlanks ('"' :: text) = '"' :: text := rfl
  have hfrom : scanMembersFrom steps ('"' :: text) =
      scanMembersFrom steps (key ++ (others ++ rest)) := by
    cases steps with
    | zero => rfl
    | succ steps => rw [scanMembersFrom, scanMembersFrom, hblanks, hagain]
  rw [scanMembers.eq_def]
  dsimp only
  rw [hblanks]
  exact hfrom

/-- A character that belongs to no number ends one. -/
theorem endsNumber_cons {c : Char} (hc : c.isDigit = false ∧ c ≠ '.' ∧ c ≠ 'e' ∧ c ≠ 'E')
    (rest : List Char) : EndsNumber (c :: rest) := by
  intro d hd
  cases hd
  exact hc

/-- Blanks end a number. -/
theorem endsNumber_append {after : List Char} (hafter : AllBlank after) {rest : List Char}
    (hrest : EndsNumber rest) : EndsNumber (after ++ rest) := by
  cases after with
  | nil => exact hrest
  | cons c after =>
    refine endsNumber_cons ?_ (after ++ rest)
    rcases hafter c List.mem_cons_self with rfl | rfl | rfl | rfl <;> decide

/-- A whole number is written with a sign or a digit first. -/
theorem exists_toList_toString_eq (value : Int) :
    ∃ c digits, (toString value).toList = c :: digits ∧ (c = '-' || c.isDigit) = true := by
  rw [show toString value = value.repr from rfl, Int.repr_eq_if]
  split
  · rw [Nat.toList_repr]
    cases hdigits : Nat.toDigits 10 value.toNat with
    | nil => exact absurd hdigits Nat.toDigits_ne_nil
    | cons c digits =>
      have hc : c ∈ Nat.toDigits 10 value.toNat := hdigits ▸ List.mem_cons_self
      have hdigit := Nat.isDigit_of_mem_toDigits (by decide) (by decide) hc
      exact ⟨c, digits, rfl, by rw [hdigit, Bool.or_true]⟩
  · exact ⟨'-', _, by rw [String.toList_append]; rfl, rfl⟩

/-- A sign or a digit begins a number. -/
theorem scanNode_number {c : Char} (hc : (c = '-' || c.isDigit) = true) (steps : Nat)
    (rest : List Char) : scanNode (steps + 1) (c :: rest) = scanNumberNode (c :: rest) := by
  have hblank : ¬isBlank c = true := by
    intro h
    simp only [isBlank, Bool.or_eq_true, beq_iff_eq] at h
    rcases h with ((rfl | rfl) | rfl) | rfl <;> exact absurd hc (by decide)
  have hstay : afterBlanks (c :: rest) = c :: rest := List.dropWhile_cons_of_neg hblank
  rw [scanNode, hstay]
  split
  case h_8 heq =>
    cases heq
    exact if_pos hc
  case h_1 heq => cases heq
  all_goals
    next heq =>
      cases heq
      exact absurd hc (by decide)

/-- A whole number is scanned into its node. -/
theorem exists_scanNode_integer {value : Int} (hword : IsWord value) {rest : List Char}
    (hrest : EndsNumber rest) (steps : Nat) :
    ∃ node, scanNode (steps + 1) ((toString value).toList ++ rest) = (node, some rest) ∧
      node.Denotes (.number (.integer value)) := by
  obtain ⟨number, hscan, hvalue⟩ := exists_scanNumber_eq hword hrest
  obtain ⟨c, digits, hdigits, hc⟩ := exists_toList_toString_eq value
  refine ⟨.number number, ?_, .number hvalue⟩
  rw [hdigits, List.cons_append] at hscan ⊢
  rw [scanNode_number hc, scanNumberNode, hscan]

/-- A quote begins a literal. -/
theorem scanNode_quote (steps : Nat) (rest : List Char) :
    scanNode (steps + 1) ('"' :: rest) =
      (.text (scanLiteral rest).1, (scanLiteral rest).2) := rfl

/-- An opening bracket begins a list. -/
theorem scanNode_bracket {steps : Nat} {rest : List Char} {nodes : List Node}
    {ending : Option Fault} {behind : Option (List Char)}
    (h : scanItems true steps rest = (nodes, ending, behind)) :
    scanNode (steps + 1) ('[' :: rest) = (.list nodes ending, behind) := by
  rw [show scanNode (steps + 1) ('[' :: rest) = (.list (scanItems true steps rest).1
    (scanItems true steps rest).2.1, (scanItems true steps rest).2.2) from rfl, h]

/-- An opening brace begins an object. -/
theorem scanNode_brace {steps : Nat} {rest : List Char} {nodes : List (Literal × Node)}
    {ending : Option Fault} {behind : Option (List Char)}
    (h : scanMembers true steps rest = (nodes, .inl ending, behind)) :
    scanNode (steps + 1) ('{' :: rest) = (.object nodes ending, behind) := by
  have hstay : afterBlanks ('{' :: rest) = '{' :: rest := rfl
  rw [scanNode, hstay]
  simp only [h]

/-- A node is followed by the other items of its list. -/
theorem scanItemsFrom_eq {steps : Nat} {text behind : List Char} {node : Node}
    (h : scanNode steps text = (node, some behind)) :
    scanItemsFrom (steps + 1) text =
      (node :: (scanItems false steps behind).1, (scanItems false steps behind).2) := by
  simp only [scanItemsFrom, h]

/-- A closing bracket ends a list. -/
theorem scanItems_close {blanks : List Char} (hblanks : AllBlank blanks) (first : Bool)
    (steps : Nat) (rest : List Char) :
    scanItems first (steps + 1) (blanks ++ ']' :: rest) = ([], none, some rest) := by
  rw [scanItems.eq_def]
  dsimp only
  rw [afterBlanks_append hblanks]
  rfl

/-- A comma leads to another item. -/
theorem scanItems_comma {blanks : List Char} (hblanks : AllBlank blanks) (steps : Nat)
    (rest : List Char) :
    scanItems false (steps + 1) (blanks ++ ',' :: rest) = scanItemsFrom steps rest := by
  rw [scanItems.eq_def]
  dsimp only
  rw [afterBlanks_append hblanks]
  rfl

/-- A closing brace ends an object. -/
theorem scanMembers_close {blanks : List Char} (hblanks : AllBlank blanks) (first : Bool)
    (steps : Nat) (rest : List Char) :
    scanMembers first (steps + 1) (blanks ++ '}' :: rest) = ([], .inl none, some rest) := by
  rw [scanMembers.eq_def]
  dsimp only
  rw [afterBlanks_append hblanks]
  rfl

/-- A comma leads to another member. -/
theorem scanMembers_comma {blanks : List Char} (hblanks : AllBlank blanks) (steps : Nat)
    (rest : List Char) :
    scanMembers false (steps + 1) (blanks ++ ',' :: rest) = scanMembersFrom steps rest := by
  rw [scanMembers.eq_def]
  dsimp only
  rw [afterBlanks_append hblanks]
  rfl

/-- A text that spells a value is not empty. -/
theorem Spells.length_pos {written : List Char} {value : Value} :
    Spells written value → 0 < written.length
  | .nullWord | .trueWord | .falseWord => by decide
  | .integer _ => by
    obtain ⟨c, digits, hdigits, -⟩ := exists_toList_toString_eq _
    rw [hdigits]
    exact Nat.succ_pos _
  | .text _ | .emptyList _ | .list _ | .emptyObject _ | .object _ => Nat.succ_pos _
  | .padded _ h _ => by
    have := h.length_pos
    simp only [List.length_append]
    omega

-- The scanner counts its calls and not the characters that it reads. Three of them are enough for
-- each character. Blanks behind a value are left to the caller.
mutual

/-- A text that spells a value is scanned into a node of that value. -/
theorem Spells.exists_scanNode_eq {written : List Char} {value : Value} :
    Spells written value → ∀ (steps : Nat) (rest : List Char), 3 * written.length ≤ steps →
      EndsNumber rest →
      ∃ node after, scanNode steps (written ++ rest) = (node, some (after ++ rest)) ∧
        AllBlank after ∧ node.Denotes value
  | .nullWord, steps, rest, hsteps, _ => by
    obtain ⟨steps, rfl⟩ := Nat.exists_eq_add_of_le' (Nat.le_trans (by decide : 1 ≤ 3 * 4) hsteps)
    exact ⟨.null, [], rfl, List.forall_mem_nil _, .null⟩
  | .trueWord, steps, rest, hsteps, _ => by
    obtain ⟨steps, rfl⟩ := Nat.exists_eq_add_of_le' (Nat.le_trans (by decide : 1 ≤ 3 * 4) hsteps)
    exact ⟨.boolean true, [], rfl, List.forall_mem_nil _, .boolean true⟩
  | .falseWord, steps, rest, hsteps, _ => by
    obtain ⟨steps, rfl⟩ := Nat.exists_eq_add_of_le' (Nat.le_trans (by decide : 1 ≤ 3 * 5) hsteps)
    exact ⟨.boolean false, [], rfl, List.forall_mem_nil _, .boolean false⟩
  | .integer hword, steps, rest, hsteps, hrest => by
    have hlength := (Spells.integer hword).length_pos
    obtain ⟨steps, rfl⟩ := Nat.exists_eq_add_of_le' (show 1 ≤ steps by omega)
    obtain ⟨node, hscan, hdenotes⟩ := exists_scanNode_integer hword hrest steps
    exact ⟨node, [], hscan, List.forall_mem_nil _, hdenotes⟩
  | .text h, steps, rest, hsteps, _ => by
    simp only [List.length_cons, List.length_append] at hsteps
    obtain ⟨steps, rfl⟩ := Nat.exists_eq_add_of_le' (show 1 ≤ steps by omega)
    obtain ⟨pieces, hscan, hread⟩ := h.exists_scanLiteral_eq rest
    refine ⟨.text ⟨pieces, none⟩, [], ?_, List.forall_mem_nil _, .text ?_⟩
    · rw [List.cons_append, List.append_assoc, scanNode_quote]
      simp only [List.singleton_append, hscan, List.nil_append]
    · rw [Literal.text, hread]
      rfl
  | .emptyList hblanks, steps, rest, hsteps, _ => by
    simp only [List.length_cons, List.length_append] at hsteps
    obtain ⟨steps, rfl⟩ := Nat.exists_eq_add_of_le' (show 2 ≤ steps by omega)
    refine ⟨.list [] none, [], ?_, List.forall_mem_nil _, .list .nil⟩
    rw [List.cons_append, List.append_assoc]
    exact scanNode_bracket (scanItems_close hblanks true steps rest)
  | .list h, steps, rest, hsteps, _ => by
    simp only [List.length_cons, List.length_append] at hsteps
    obtain ⟨steps, rfl⟩ := Nat.exists_eq_add_of_le' (show 2 ≤ steps by omega)
    obtain ⟨nodes, hscan, hdenote⟩ := h.exists_scanItemsFrom_eq steps rest (by omega)
    refine ⟨.list nodes none, [], ?_, List.forall_mem_nil _, .list hdenote⟩
    rw [List.cons_append, List.append_assoc]
    exact scanNode_bracket ((scanItems_eq hscan).trans hscan)
  | .emptyObject hblanks, steps, rest, hsteps, _ => by
    simp only [List.length_cons, List.length_append] at hsteps
    obtain ⟨steps, rfl⟩ := Nat.exists_eq_add_of_le' (show 2 ≤ steps by omega)
    refine ⟨.object [] none, [], ?_, List.forall_mem_nil _, .object .nil⟩
    rw [List.cons_append, List.append_assoc]
    exact scanNode_brace (scanMembers_close hblanks true steps rest)
  | .object h, steps, rest, hsteps, _ => by
    simp only [List.length_cons, List.length_append] at hsteps
    obtain ⟨steps, rfl⟩ := Nat.exists_eq_add_of_le' (show 2 ≤ steps by omega)
    obtain ⟨nodes, hscan, hdenote⟩ := h.exists_scanMembersFrom_eq steps rest (by omega)
    refine ⟨.object nodes none, [], ?_, List.forall_mem_nil _, .object hdenote⟩
    rw [List.cons_append, List.append_assoc]
    exact scanNode_brace ((scanMembers_eq h steps ('}' :: rest)).trans hscan)
  | .padded hbefore h hafter, steps, rest, hsteps, hrest => by
    simp only [List.length_append] at hsteps
    obtain ⟨node, blanks, hscan, hblanks, hdenotes⟩ :=
      h.exists_scanNode_eq steps (_ ++ rest) (by omega) (endsNumber_append hafter hrest)
    refine ⟨node, blanks ++ _, ?_, List.forall_mem_append.mpr ⟨hblanks, hafter⟩, hdenotes⟩
    rw [← scanNode_afterBlanks, List.append_assoc, afterBlanks_append hbefore,
      scanNode_afterBlanks, List.append_assoc, List.append_assoc]
    exact hscan

/-- Items of a list up to its end are scanned into nodes of these items. -/
theorem SpellsItems.exists_scanItemsFrom_eq {written : List Char} {items : List Value} :
    SpellsItems written items → ∀ (steps : Nat) (rest : List Char), 3 * written.length + 1 ≤ steps →
      ∃ nodes, scanItemsFrom steps (written ++ ']' :: rest) = (nodes, none, some rest) ∧
        Node.DenoteItems nodes items
  | .last h, steps, rest, hsteps => by
    obtain ⟨steps, rfl⟩ := Nat.exists_eq_add_of_le' (show 2 ≤ steps by
      have := h.length_pos
      omega)
    obtain ⟨node, blanks, hscan, hblanks, hdenotes⟩ :=
      h.exists_scanNode_eq (steps + 1) (']' :: rest) (by omega)
        (endsNumber_cons (by decide) rest)
    refine ⟨[node], ?_, .cons hdenotes .nil⟩
    rw [scanItemsFrom_eq hscan, scanItems_close hblanks]
  | .cons h hothers, steps, rest, hsteps => by
    simp only [List.length_cons, List.length_append] at hsteps
    obtain ⟨steps, rfl⟩ := Nat.exists_eq_add_of_le' (show 2 ≤ steps by omega)
    obtain ⟨node, blanks, hscan, hblanks, hdenotes⟩ :=
      h.exists_scanNode_eq (steps + 1) (',' :: (_ ++ ']' :: rest)) (by omega)
        (endsNumber_cons (by decide) _)
    obtain ⟨nodes, hrest, hdenote⟩ :=
      hothers.exists_scanItemsFrom_eq steps rest (by omega)
    refine ⟨node :: nodes, ?_, .cons hdenotes hdenote⟩
    rw [List.append_assoc, List.cons_append, scanItemsFrom_eq hscan, scanItems_comma hblanks, hrest]

/-- Members of an object up to its end are scanned into nodes of these members. -/
theorem SpellsMembers.exists_scanMembersFrom_eq {written : List Char}
    {members : List (String × Value)} :
    SpellsMembers written members → ∀ (steps : Nat) (rest : List Char),
      3 * written.length + 1 ≤ steps →
      ∃ nodes, scanMembersFrom steps (written ++ '}' :: rest) = (nodes, .inl none, some rest) ∧
        Node.DenoteMembers nodes members
  | .last hkey h, steps, rest, hsteps => by
    simp only [List.length_cons, List.length_append] at hsteps
    obtain ⟨steps, rfl⟩ := Nat.exists_eq_add_of_le' (show 2 ≤ steps by omega)
    obtain ⟨node, blanks, hscan, hblanks, hdenotes⟩ :=
      h.exists_scanNode_eq steps ('}' :: rest) (by omega)
        (endsNumber_cons (by decide) rest)
    obtain ⟨literal, hname, hmembers⟩ := scanMembersFrom_eq hkey hscan
    refine ⟨[(literal, node)], ?_, .cons hname hdenotes .nil⟩
    rw [List.append_assoc, List.cons_append, hmembers, scanMembers_close hblanks]
  | .cons hkey h hothers, steps, rest, hsteps => by
    simp only [List.length_cons, List.length_append] at hsteps
    obtain ⟨steps, rfl⟩ := Nat.exists_eq_add_of_le' (show 2 ≤ steps by omega)
    obtain ⟨node, blanks, hscan, hblanks, hdenotes⟩ :=
      h.exists_scanNode_eq steps (',' :: (_ ++ '}' :: rest)) (by omega)
        (endsNumber_cons (by decide) _)
    obtain ⟨literal, hname, hmembers⟩ := scanMembersFrom_eq hkey hscan
    obtain ⟨nodes, hrest, hdenote⟩ :=
      hothers.exists_scanMembersFrom_eq steps rest (by omega)
    refine ⟨(literal, node) :: nodes, ?_, .cons hname hdenotes hdenote⟩
    rw [List.append_assoc, List.cons_append, List.append_assoc, List.cons_append, hmembers,
      scanMembers_comma hblanks, hrest]

end

/-- A text that spells a value is read as a node of that value, with nothing behind it. -/
theorem Spells.exists_ofText_eq {text : String} {value : Value} (h : Spells text.toList value) :
    ∃ node, Draft.ofText text = ⟨node, false⟩ ∧ node.Denotes value := by
  obtain ⟨node, after, hscan, hafter, hdenotes⟩ :=
    h.exists_scanNode_eq (scanSteps text.toList) [] (by rw [scanSteps]; omega)
      (fun c hc => nomatch hc)
  refine ⟨node, ?_, hdenotes⟩
  rw [List.append_nil, List.append_nil] at hscan
  have hblank : afterBlanks after = [] := by
    have := afterBlanks_append hafter []
    rwa [List.append_nil] at this
  simp only [Draft.ofText, hscan, Option.getD_some, hblank, List.isEmpty_nil, Bool.not_true]

end ClientPlan.Json
