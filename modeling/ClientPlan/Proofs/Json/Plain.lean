import ClientPlan.Json.Decoder
import ClientPlan.Proofs.Json.Scanning

/-!
# Plain values

Plain values hold whole numbers only, no object of theirs repeats a key, and they are not nested too
deeply. As JSON values two of them are equal if they differ by the order of members at most. What a
text spells of such a value is read in full, and merging members changes nothing in it.
-/

namespace ClientPlan.Json

namespace Value

/-- A value of null, truth values, whole numbers, texts, and of lists and objects with distinct keys
that are nested at most `depth` deep. -/
inductive IsPlain : (depth : Nat) → Value → Prop
  | null {depth : Nat} : IsPlain depth .null
  | boolean {depth : Nat} (value : Bool) : IsPlain depth (.boolean value)
  | integer {depth : Nat} (value : Int) : IsPlain depth (.number (.integer value))
  | text {depth : Nat} (value : String) : IsPlain depth (.text value)
  | list {depth : Nat} {items : List Value} (hitems : ∀ item ∈ items, IsPlain depth item) :
      IsPlain (depth + 1) (.list items)
  | object {depth : Nat} {members : List (String × Value)} (hkeys : (members.map (·.1)).Nodup)
      (hmembers : ∀ member ∈ members, IsPlain depth member.2) :
      IsPlain (depth + 1) (.object members)

/-- A value that is plain is so at every greater depth. -/
theorem IsPlain.mono {depth room : Nat} (hroom : depth ≤ room) {value : Value}
    (h : value.IsPlain depth) : value.IsPlain room := by
  induction h generalizing room with
  | null => exact .null
  | boolean value => exact .boolean value
  | integer value => exact .integer value
  | text value => exact .text value
  | list _ ih =>
    cases room with
    | zero => exact absurd hroom (Nat.not_succ_le_zero _)
    | succ room => exact .list fun item hitem => ih item hitem (Nat.le_of_succ_le_succ hroom)
  | object hkeys _ ih =>
    cases room with
    | zero => exact absurd hroom (Nat.not_succ_le_zero _)
    | succ room =>
      exact .object hkeys fun member hmember => ih member hmember (Nat.le_of_succ_le_succ hroom)

mutual

/-- Equality as JSON values: members may be arranged differently. -/
inductive Alike : Value → Value → Prop
  | refl (value : Value) : Alike value value
  | list {items items' : List Value} (hitems : AlikeItems items items') :
      Alike (.list items) (.list items')
  | object {members arranged members' : List (String × Value)} (hperm : members.Perm arranged)
      (hmembers : AlikeMembers arranged members') : Alike (.object members) (.object members')

/-- Equality of items, one by one. -/
inductive AlikeItems : List Value → List Value → Prop
  | nil : AlikeItems [] []
  | cons {item item' : Value} {items items' : List Value} (hitem : Alike item item')
      (hitems : AlikeItems items items') : AlikeItems (item :: items) (item' :: items')

/-- Equality of members with the same keys, one by one. -/
inductive AlikeMembers : List (String × Value) → List (String × Value) → Prop
  | nil : AlikeMembers [] []
  | cons {key : String} {value value' : Value} {members members' : List (String × Value)}
      (hvalue : Alike value value') (hmembers : AlikeMembers members members') :
      AlikeMembers ((key, value) :: members) ((key, value') :: members')

end

/-- Members that are equal one by one have the same keys in order. -/
theorem AlikeMembers.map_fst_eq {members members' : List (String × Value)}
    (h : AlikeMembers members members') : members.map (·.1) = members'.map (·.1) := by
  cases h with
  | nil => rfl
  | cons hvalue hmembers => rw [List.map_cons, List.map_cons, hmembers.map_fst_eq]

mutual

/-- A value that equals a plain one is plain. -/
theorem Alike.isPlain {value value' : Value} :
    Alike value value' → ∀ {depth : Nat}, value'.IsPlain depth → value.IsPlain depth
  | .refl _, _, hplain => hplain
  | .list hitems, _, .list hplain => .list (hitems.isPlain hplain)
  | .object hperm hmembers, _, .object hkeys hplain => by
    have hnodup := hmembers.map_fst_eq ▸ hkeys
    exact .object ((hperm.map (·.1)).nodup_iff.mpr hnodup) fun member hmember =>
      hmembers.isPlain hplain member (hperm.mem_iff.mp hmember)

/-- Items that equal plain ones are plain. -/
theorem AlikeItems.isPlain {items items' : List Value} :
    AlikeItems items items' → ∀ {depth : Nat}, (∀ item ∈ items', item.IsPlain depth) →
      ∀ item ∈ items, item.IsPlain depth
  | .nil, _, _ => List.forall_mem_nil _
  | .cons hitem hitems, _, hplain => by
    obtain ⟨hfirst, hrest⟩ := List.forall_mem_cons.mp hplain
    exact List.forall_mem_cons.mpr ⟨hitem.isPlain hfirst, hitems.isPlain hrest⟩

/-- Members that equal plain ones are plain. -/
theorem AlikeMembers.isPlain {members members' : List (String × Value)} :
    AlikeMembers members members' → ∀ {depth : Nat},
      (∀ member ∈ members', member.2.IsPlain depth) → ∀ member ∈ members, member.2.IsPlain depth
  | .nil, _, _ => List.forall_mem_nil _
  | .cons hvalue hmembers, _, hplain => by
    obtain ⟨hfirst, hrest⟩ := List.forall_mem_cons.mp hplain
    exact List.forall_mem_cons.mpr ⟨hvalue.isPlain hfirst, hmembers.isPlain hrest⟩

end

/-- A member with a new key comes after all others. -/
theorem putMember_of_not_mem {key : String} {members : List (String × Value)}
    (h : key ∉ members.map (·.1)) (value : Value) :
    putMember key value members = members ++ [(key, value)] := by
  induction members with
  | nil => rfl
  | cons member members ih =>
    rw [List.map_cons, List.mem_cons, not_or] at h
    obtain ⟨hfirst, hrest⟩ := h
    rw [putMember, if_neg (Ne.symm hfirst), ih hrest, List.cons_append]

/-- Merging keeps items that it does not change. -/
theorem mergedItems_eq {items : List Value} (h : ∀ item ∈ items, item.merged = item) :
    mergedItems items = items := by
  induction items with
  | nil => rfl
  | cons item items ih =>
    obtain ⟨hitem, hitems⟩ := List.forall_mem_cons.mp h
    rw [mergedItems, hitem, ih hitems]

/-- Merging keeps members with distinct keys that it does not change. -/
theorem mergedMembers_eq {kept members : List (String × Value)}
    (hkeys : ((kept ++ members).map (·.1)).Nodup)
    (h : ∀ member ∈ members, member.2.merged = member.2) :
    mergedMembers kept members = kept ++ members := by
  induction members generalizing kept with
  | nil => rw [mergedMembers, List.append_nil]
  | cons member members ih =>
    obtain ⟨key, value⟩ := member
    obtain ⟨hvalue, hmembers⟩ := List.forall_mem_cons.mp h
    have hnew : key ∉ kept.map (·.1) := by
      rw [List.map_append, List.map_cons] at hkeys
      exact fun hmem => (List.nodup_append.mp hkeys).2.2 key hmem key List.mem_cons_self rfl
    have hmore : kept ++ (key, value) :: members = kept ++ [(key, value)] ++ members := by
      rw [List.append_assoc, List.singleton_append]
    rw [mergedMembers, show value.merged = value from hvalue, putMember_of_not_mem hnew,
      ih (hmore ▸ hkeys) hmembers, hmore]

/-- Merging changes nothing in a plain value. -/
theorem IsPlain.merged_eq {depth : Nat} {value : Value} (h : value.IsPlain depth) :
    value.merged = value := by
  induction h with
  | null | boolean | integer | text => rfl
  | list _ ih => rw [merged, mergedItems_eq ih]
  | object hkeys _ ih => rw [merged, mergedMembers_eq (by exact hkeys) ih, List.nil_append]

end Value

/-- The name of a literal is read. -/
theorem Literal.read_eq_of_text_eq {literal : Literal} {name : String}
    (h : literal.text = .ok name) :
    literal.read = .ok name := by
  rw [Literal.read, h]
  rfl

namespace Node

mutual

/-- A node of a plain value is read as that value if there is room for its containers. -/
theorem Denotes.value_eq {node : Node} {value : Value} :
    Denotes node value → ∀ {room : Nat}, value.IsPlain room → node.value room = .ok value
  | .null, _, _ | .boolean _, _, _ => rfl
  | .number h, _, _ => by
    rw [Node.value, NumberText.read, h]
    rfl
  | .text h, _, _ => by
    rw [Node.value, Literal.read_eq_of_text_eq h]
    rfl
  | .list h, room + 1, .list hplain => by
    simp only [Node.value, enter, h.valueItems_eq hplain, stopAt, bind, Except.bind, pure,
      Except.pure]
  | .object h, room + 1, .object _ hplain => by
    simp only [Node.value, enter, h.valueMembers_eq hplain, stopAt, bind, Except.bind, pure,
      Except.pure]

/-- Nodes of plain items are read as these. -/
theorem DenoteItems.valueItems_eq {nodes : List Node} {items : List Value} :
    DenoteItems nodes items → ∀ {room : Nat}, (∀ item ∈ items, item.IsPlain room) →
      valueItems room nodes = .ok items
  | .nil, _, _ => rfl
  | .cons h hrest, _, hplain => by
    obtain ⟨hfirst, hothers⟩ := List.forall_mem_cons.mp hplain
    simp only [valueItems, h.value_eq hfirst, hrest.valueItems_eq hothers, bind, Except.bind, pure,
      Except.pure]

/-- Literals with nodes of plain members are read as these. -/
theorem DenoteMembers.valueMembers_eq {nodes : List (Literal × Node)}
    {members : List (String × Value)} :
    DenoteMembers nodes members → ∀ {room : Nat}, (∀ member ∈ members, member.2.IsPlain room) →
      valueMembers room nodes = .ok members
  | .nil, _, _ => rfl
  | .cons hkey h hrest, _, hplain => by
    obtain ⟨hfirst, hothers⟩ := List.forall_mem_cons.mp hplain
    simp only [valueMembers, Literal.read_eq_of_text_eq hkey, h.value_eq hfirst,
      hrest.valueMembers_eq hothers, bind, Except.bind, pure, Except.pure]

end

end Node

end ClientPlan.Json
