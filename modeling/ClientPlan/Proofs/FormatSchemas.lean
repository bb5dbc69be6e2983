import ClientPlan.Proofs.Format
import ClientPlan.Proofs.Json.Decoders
import ClientPlan.Wire.Reading.Schema

/-!
# Reading written schemas

A schema is read in two passes: its name is taken and its other members are kept, and then the one
that names the kind says which of the others to read. Whatever order the members are in, the schema
that was written is read, with the constant value that the text spells.
-/

namespace ClientPlan.Wire.Reading

open Json

variable {room depth : Nat} {value : Value} {members : List (String × Value)}

/-- The variant of a kind. -/
def variantOf : SchemaKind → SchemaVariant
  | .constant _ _ => .constant
  | .object _ => .object
  | .scalar _ => .scalar
  | .array _ => .array

/-- The slots of a kind. -/
def kindSlots : SchemaKind → List (Slot Value SchemaState)
  | .constant value valueType =>
    [ ⟨"value", .required, fun value => .ok value.merged, (·.value),
        fun state value => { state with value := some value }, .null, value⟩,
      ⟨"valueType", .required, indexOfValue, (·.valueType),
        fun state id => { state with valueType := some id }, 0, valueType⟩ ]
  | .object properties =>
    [ ⟨"properties", .optional, indicesOfValue, (·.properties),
        fun state ids => { state with properties := some ids }, [], properties⟩ ]
  | .scalar type =>
    [ ⟨"scalar", .required, scalarTypeOfValue, (·.scalar),
        fun state type => { state with scalar := some type }, .any, type⟩ ]
  | .array elementType =>
    [ ⟨"elementType", .required, indexOfValue, (·.elementType),
        fun state id => { state with elementType := some id }, 0, elementType⟩ ]

/-- The slots of a kind are the fields of its variant. -/
theorem variantFields_eq (kind : SchemaKind) :
    variantFields (variantOf kind) = (kindSlots kind).map Slot.field := by
  cases kind <;> rfl

/-- The slots of a kind fill their places. -/
theorem kindSlots_fill (kind : SchemaKind) : Slot.Fill (kindSlots kind) {} := by
  cases kind <;> exact ⟨by simp [kindSlots], by simp [kindSlots], by simp [kindSlots]⟩

/-- The slots of a kind make it up. -/
theorem buildKind_eq {kind : SchemaKind} {state : SchemaState}
    (h : ∀ slot ∈ kindSlots kind, (slot.held state).getD slot.missing = slot.content) :
    buildKind state (variantOf kind) = kind := by
  cases kind <;>
    simp only [kindSlots, List.forall_mem_cons, List.not_mem_nil, false_implies, implies_true,
      and_true] at h <;>
    simp only [buildKind, variantOf, h]

/-- A whole number that is not negative is read as an index. -/
theorem decodes_indexOfValue {content : Nat} (h : Writing.index content value) :
    Decodes Eq indexOfValue value content := by
  subst h
  rintro value rfl
  have hsign : (0 : Int) ≤ content := Int.natCast_nonneg content
  simp only [indexOfValue, Decoder.indexOfNumber, hsign, if_true, Int.toNat_natCast]

/-- A list of indices is read one by one. -/
theorem decodes_indicesOfValue {contents : List Nat}
    (h : Writing.list Writing.index contents value) :
    Decodes Eq indicesOfValue value contents := by
  obtain ⟨values, rfl, hvalues⟩ := h
  rintro value rfl
  refine mapM_eq_ok.mpr (hvalues.flip.imp fun value content hindex => ?_)
  exact decodes_indexOfValue hindex value rfl

/-- A primitive kind is read by its name. -/
theorem decodes_scalarTypeOfValue {content : ScalarType}
    (h : Writing.named ScalarType.name content value) :
    Decodes Eq scalarTypeOfValue value content := by
  subst h
  rintro value rfl
  cases content <;> rfl

/-- What is written of a kind fills its slots, with the constant value as it is written. -/
theorem exists_alike_reads {kind : SchemaKind}
    (hplain : ∀ value valueType, kind = .constant value valueType → value.IsPlain depth)
    (h : ∀ entry ∈ Format.kindEntries kind, entry.holds (under entry.key members)) :
    ∃ kind', SchemaKind.Alike kind' kind ∧ kind'.typeName = kind.typeName ∧
      ∀ slot ∈ kindSlots kind', slot.Reads Eq (under slot.key members) := by
  cases kind with
  | constant value valueType =>
    simp only [Format.kindEntries, List.forall_mem_cons] at h
    obtain ⟨⟨written, hwritten, halike⟩, htype, -⟩ := h
    have hmerged := (Value.Alike.isPlain halike (hplain value valueType rfl)).merged_eq
    refine ⟨.constant written valueType, .constant halike valueType, rfl, ?_⟩
    simp only [kindSlots, List.forall_mem_cons]
    refine ⟨Or.inr ⟨written, hwritten, ?_⟩,
      (Slot.accepts_required decodes_indexOfValue).reads _ htype, List.forall_mem_nil _⟩
    rintro value rfl
    exact congrArg Except.ok hmerged
  | object properties =>
    refine ⟨.object properties, .refl _, rfl, (Slot.reads_of_accepts ?_ h).2⟩
    exact .cons (Slot.accepts_defaulted (by decide) decodes_indicesOfValue) .nil
  | scalar type =>
    refine ⟨.scalar type, .refl _, rfl, (Slot.reads_of_accepts ?_ h).2⟩
    exact .cons (Slot.accepts_required decodes_scalarTypeOfValue) .nil
  | array elementType =>
    refine ⟨.array elementType, .refl _, rfl, (Slot.reads_of_accepts ?_ h).2⟩
    exact .cons (Slot.accepts_required decodes_indexOfValue) .nil

/-- Values under one key are not lost with the members that have another key. -/
theorem under_filter_ne {key other : String} (hne : key ≠ other)
    (members : List (String × Value)) :
    under key (members.filter fun member => member.1 ≠ other) = under key members := by
  rw [under, under, List.filter_filter]
  refine congrArg _ (List.filter_congr fun member _ => ?_)
  by_cases hkey : member.1 = key
  · simp [hkey, hne]
  · simp [hkey]

/-- The slot of the member that names the variant. -/
def variantSlot (variant : SchemaVariant) : Slot Value (Option SchemaVariant) :=
  ⟨"type", .required, variantOfValue, fun state => state, fun _ variant => some variant, .constant,
    variant⟩

/-- The variant is read by the name of the kind, wherever its member stands. -/
theorem splitVariant_eq {kind : SchemaKind}
    (h : under "type" members = [.text kind.typeName]) :
    splitVariant members =
      .ok (variantOf kind, members.filter fun member => member.1 ≠ "type") := by
  have hfill : Slot.Fill [variantSlot (variantOf kind)] none :=
    ⟨by simp, by simp [variantSlot], by simp [variantSlot]⟩
  have hreads : ∀ slot ∈ [variantSlot (variantOf kind)],
      slot.Reads Eq (under slot.key ([] ++ members)) := by
    refine List.forall_mem_singleton.mpr (Or.inr ⟨.text kind.typeName, h, ?_⟩)
    rintro value rfl
    cases kind <;> rfl
  have hsteps : List.Forall₂ (fun item member => ∃ node : Value, node = member.2 ∧
      (member.1 ∉ [variantSlot (variantOf kind)].map (·.key) →
        (fun _ => .ok ()) node = (.ok () : Except ReadError Unit)) ∧
      ∀ state, splitVariant.takeVariant state item =
        takeMember ([variantSlot (variantOf kind)].map Slot.field) (fun _ => .ok ()) state
          member.1 node) members members := by
    refine List.forall₂_same.mpr fun member _ => ⟨member.2, rfl, fun _ => rfl, fun state => ?_⟩
    by_cases hkey : member.1 = "type"
    · simp [splitVariant.takeVariant, splitVariant.variantKey, takeMember, variantSlot, Slot.field,
        Field.of, hkey]
    · simp [splitVariant.takeVariant, splitVariant.variantKey, takeMember, variantSlot, Slot.field,
        Field.of, hkey, Ne.symm hkey, bind, Except.bind, pure, Except.pure]
  obtain ⟨variant, hvariant, hfilled⟩ := exists_foldlM_eq hfill hsteps hreads hfill.filled
  have hsome : variant = some (variantOf kind) := by
    refine (hfilled _ List.mem_cons_self).trans (if_pos ?_)
    by_contra hmissing
    have hnil : under "type" members = [] := under_eq_nil.mpr hmissing
    exact List.cons_ne_nil _ _ (h.symm.trans hnil)
  rw [splitVariant, hvariant, hsome]
  rfl

/-- The kind of a schema is read from the members besides its name. -/
theorem schemaKind_eq {kind : SchemaKind} (htype : under "type" members = [.text kind.typeName])
    (hreads : ∀ slot ∈ kindSlots kind, slot.Reads Eq (under slot.key members)) :
    schemaKind members = .ok kind := by
  have hkeys : ∀ slot ∈ kindSlots kind, slot.key ≠ "type" := by
    cases kind <;> simp [kindSlots]
  have hothers : ∀ slot ∈ kindSlots kind, slot.Reads Eq
      (under slot.key ([] ++ members.filter fun member => member.1 ≠ "type")) := by
    intro slot hslot
    rw [List.nil_append, under_filter_ne (hkeys slot hslot)]
    exact hreads slot hslot
  have hsteps : ∀ members : List (String × Value),
      List.Forall₂ (fun item member => ∃ node : Value, node = member.2 ∧
        (member.1 ∉ (kindSlots kind).map (·.key) →
          (fun _ => .ok ()) node = (.ok () : Except ReadError Unit)) ∧
        ∀ state, schemaKind.takeField ((kindSlots kind).map Slot.field) state item =
          takeMember ((kindSlots kind).map Slot.field) (fun _ => .ok ()) state member.1 node)
        members members :=
    fun members => List.forall₂_same.mpr fun member _ =>
      ⟨member.2, rfl, fun _ => rfl, fun _ => rfl⟩
  obtain ⟨state, hstate, hfilled⟩ :=
    exists_foldlM_eq (kindSlots_fill kind) (hsteps _) hothers (kindSlots_fill kind).filled
  obtain ⟨hrequired, hheld⟩ := requireFields_eq_ok hothers hfilled
  simp only [schemaKind, splitVariant_eq htype, variantFields_eq, hstate, hrequired,
    buildKind_eq hheld, bind, Except.bind, pure, Except.pure]

/-- The name of a schema is taken and its other members are kept, wherever the name stands. -/
theorem foldlM_takeSchemaMember {nodes : List (Literal × Node)}
    (hnodes : Node.DenoteMembers nodes members)
    (hvalues : ∀ member ∈ members, Decodes Node.Denotes (Node.value room) member.2 member.2)
    {name : String} {held : SchemaMembers}
    (hname : held.name = none ∧ under nameKey members = [.text name] ∨
      held.name = some name ∧ under nameKey members = []) :
    nodes.foldlM (takeSchemaMember room) held =
      .ok ⟨some name, held.others ++ members.filter fun member => member.1 ≠ nameKey⟩ := by
  induction members generalizing nodes held with
  | nil =>
    cases hnodes
    rcases hname with ⟨-, hmissing⟩ | ⟨hname, -⟩
    · cases hmissing
    · rw [List.filter_nil, List.append_nil, ← hname]
      rfl
  | cons member members ih =>
    cases hnodes with
    | @cons literal key node value nodes _ hkey hnode hrest =>
      obtain ⟨hvalue, hothers⟩ := List.forall_mem_cons.mp hvalues
      by_cases hnamed : key = nameKey
      · subst hnamed
        rw [under_cons_self] at hname
        obtain ⟨hnone, hone⟩ : held.name = none ∧ value :: under nameKey members = [.text name] :=
          hname.resolve_right fun h => List.cons_ne_nil _ _ h.2
        obtain ⟨rfl, hnil⟩ := List.cons.inj hone
        have hread : Decoder.text room node = .ok name := Decoder.decodes_text rfl node hnode
        have hstep : takeSchemaMember room held (literal, node) =
            .ok { held with name := some name } := by
          simp only [takeSchemaMember, Literal.read_eq_of_text_eq hkey, if_true, hnone,
            Option.isSome_none, Bool.false_eq_true, if_false, hread, bind, Except.bind, pure,
            Except.pure]
        rw [List.foldlM_cons, hstep, List.filter_cons_of_neg (by simp)]
        exact ih hrest hothers (Or.inr ⟨rfl, hnil⟩)
      · have hread := hvalue node hnode
        have hstep : takeSchemaMember room held (literal, node) =
            .ok { held with others := held.others ++ [(key, value)] } := by
          simp only [takeSchemaMember, Literal.read_eq_of_text_eq hkey, hnamed, if_false, hread,
            bind, Except.bind, pure, Except.pure]
        have hunder : under nameKey ((key, value) :: members) = under nameKey members := by
          rw [under, List.filter_cons_of_neg (by simpa using hnamed)]
          rfl
        rw [List.foldlM_cons, hstep, List.filter_cons_of_pos (by simpa using hnamed)]
        rw [hunder] at hname
        have hmore : held.others ++ (key, value) :: members.filter (fun member =>
            member.1 ≠ nameKey) = held.others ++ [(key, value)] ++ members.filter fun member =>
              member.1 ≠ nameKey := by
          rw [List.append_assoc]
          rfl
        rw [hmore]
        exact ih hrest hothers hname

/-- What is written once is plain if its writing writes plain values only. -/
theorem isPlain_of_once {α : Type} {writing : Writing α} {content : α} {values : List Value}
    (h : Entry.Once writing content values)
    (hplain : ∀ value, writing content value → value.IsPlain depth) :
    ∀ value ∈ values, value.IsPlain depth := by
  obtain ⟨value, rfl, hvalue⟩ := h
  exact List.forall_mem_singleton.mpr (hplain value hvalue)

/-- An index is plain. -/
theorem isPlain_index {content : Nat} (h : Writing.index content value) : value.IsPlain depth := by
  subst h
  exact .integer content

/-- A value without parts is plain. -/
theorem isPlain_of_isAtom (h : IsAtom value) : value.IsPlain depth := by
  cases h with
  | null => exact .null
  | boolean value => exact .boolean value
  | text value => exact .text value

/-- What stands under the keys of a kind is plain. -/
theorem isPlain_of_kindEntries {kind : SchemaKind} (hdepth : 1 ≤ depth)
    (hplain : ∀ value valueType, kind = .constant value valueType → value.IsPlain depth) :
    ∀ entry ∈ Format.kindEntries kind, ∀ values, entry.holds values →
      ∀ value ∈ values, value.IsPlain depth := by
  cases kind with
  | constant value valueType =>
    simp only [Format.kindEntries, List.forall_mem_cons]
    exact ⟨fun values h => isPlain_of_once h fun written halike =>
        Value.Alike.isPlain halike (hplain value valueType rfl),
      fun values h => isPlain_of_once h fun written hindex => isPlain_index hindex,
      List.forall_mem_nil _⟩
  | object properties =>
    simp only [Format.kindEntries, List.forall_mem_cons]
    refine ⟨fun values h => ?_, List.forall_mem_nil _⟩
    rcases h with ⟨rfl, -⟩ | h
    · exact List.forall_mem_nil _
    · refine isPlain_of_once h fun written hlist => ?_
      obtain ⟨items, rfl, hitems⟩ := hlist
      refine Value.IsPlain.mono hdepth (.list fun item hitem => ?_)
      obtain ⟨content, -, hindex⟩ := exists_of_mem_right hitems hitem
      exact isPlain_index hindex
  | scalar type =>
    simp only [Format.kindEntries, List.forall_mem_cons]
    exact ⟨fun values h => isPlain_of_once h fun written hnamed => hnamed ▸ .text _,
      List.forall_mem_nil _⟩
  | array elementType =>
    simp only [Format.kindEntries, List.forall_mem_cons]
    exact ⟨fun values h => isPlain_of_once h fun written hindex => isPlain_index hindex,
      List.forall_mem_nil _⟩

/-- What stands under a key is the value of a member. -/
theorem mem_under {member : String × Value} (h : member ∈ members) :
    member.2 ∈ under member.1 members :=
  List.mem_map.mpr ⟨member, List.mem_filter.mpr ⟨h, decide_eq_true rfl⟩, rfl⟩

/-- Every member of a written schema is plain. -/
theorem isPlain_of_member {content : Schema} (hdepth : 1 ≤ depth)
    (hplain : content.HasPlainConstant depth) (h : Format.schema content (.object members)) :
    ∀ member ∈ members, member.2.IsPlain depth := by
  intro member hmember
  obtain ⟨_, ⟨⟩, hholds, hothers⟩ := h
  rcases hothers member hmember with hknown | ⟨-, hatom⟩
  · obtain ⟨entry, hentry, hkey⟩ := List.mem_map.mp hknown
    have hvalues := hholds entry hentry
    have hmem : member.2 ∈ under entry.key members := hkey ▸ mem_under hmember
    rcases List.mem_cons.mp hentry with rfl | hentry
    · exact isPlain_of_once hvalues (fun _ hname => hname ▸ .text _) _ hmem
    rcases List.mem_cons.mp hentry with rfl | hentry
    · exact isPlain_of_once hvalues (fun _ htype => htype ▸ .text _) _ hmem
    · exact isPlain_of_kindEntries hdepth hplain entry hentry _ hvalues _ hmem
  · exact isPlain_of_isAtom hatom

/-- A written schema is read, up to the order of members in its constant value. -/
theorem exists_decodes_schema {content : Schema} (hdepth : 1 ≤ depth)
    (hplain : content.HasPlainConstant depth) (h : Format.schema content value) :
    ∃ content' : Schema, content'.Alike content ∧
      Decodes Node.Denotes (schema (depth + 1)) value content' := by
  obtain ⟨members, rfl, hholds, -⟩ := id h
  obtain ⟨⟨_, hname, rfl⟩, hrest⟩ := List.forall_mem_cons.mp hholds
  obtain ⟨⟨_, htype, rfl⟩, hkind⟩ := List.forall_mem_cons.mp hrest
  obtain ⟨kind, halike, htypeName, hreads⟩ := exists_alike_reads hplain hkind
  have hvalues : ∀ member ∈ members,
      Decodes Node.Denotes (Node.value depth) member.2 member.2 := fun member hmember node hnode =>
    hnode.value_eq (isPlain_of_member hdepth hplain h member hmember)
  refine ⟨⟨content.name, kind⟩, ⟨rfl, halike⟩, ?_⟩
  rintro node (_ | _ | _ | _ | _ | hnodes)
  have hheld : ({} : SchemaMembers).name = none ∧
      under nameKey members = [.text content.name] ∨
      ({} : SchemaMembers).name = some content.name ∧ under nameKey members = [] :=
    Or.inl ⟨rfl, hname⟩
  have hmembers := foldlM_takeSchemaMember hnodes hvalues hheld
  have hschema : schemaKind (members.filter fun member => member.1 ≠ nameKey) = .ok kind := by
    refine schemaKind_eq ?_ fun slot hslot => ?_
    · rw [under_filter_ne (by decide), htypeName]
      exact htype
    · have hkey : slot.key ≠ nameKey := by
        revert slot
        cases kind <;> simp [kindSlots, nameKey]
      rw [under_filter_ne hkey]
      exact hreads slot hslot
  simp only [schema, enter, hmembers, stopAt, hschema, List.nil_append, bind, Except.bind, pure,
    Except.pure]

end ClientPlan.Wire.Reading
