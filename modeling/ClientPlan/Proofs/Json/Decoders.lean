import ClientPlan.Proofs.Json.Records

/-!
# Reading written values

Each decoder reads what the matching writing allows: plain values, lists, names, and objects that
write a record.
-/

namespace ClientPlan.Json

variable {ν σ α : Type} {room : Nat} {value : Value}

namespace Decoder

/-- A text is read. -/
theorem decodes_text {content : String} (h : Writing.text content value) :
    Decodes Node.Denotes (Decoder.text room) value content := by
  subst h
  rintro node (_ | _ | _ | h)
  exact Literal.read_eq_of_text_eq h

/-- A truth value is read. -/
theorem decodes_flag {content : Bool} (h : Writing.flag content value) :
    Decodes Node.Denotes (Decoder.flag room) value content := by
  subst h
  rintro node (_ | _)
  rfl

/-- A whole number that is not negative is read as an index. -/
theorem decodes_index {content : Nat} (h : Writing.index content value) :
    Decodes Node.Denotes (Decoder.index room) value content := by
  subst h
  rintro node (_ | _ | h)
  have hsign : (0 : Int) ≤ content := Int.natCast_nonneg content
  simp only [Decoder.index, NumberText.read, h, Decoder.indexOfNumber, hsign, if_true,
    Int.toNat_natCast, bind, Except.bind]

/-- Null is read as nothing. -/
theorem decodes_optional_null {decode : Decoder α} :
    Decodes Node.Denotes (decode.optional room) .null none := by
  rintro node (_ | _)
  rfl

/-- Anything but null is read as something. -/
theorem decodes_optional {decode : Decoder α} {content : α} (hnull : value ≠ .null)
    (h : Decodes Node.Denotes (decode room) value content) :
    Decodes Node.Denotes (decode.optional room) value (some content) := by
  intro node hnode
  have hread := h node hnode
  cases hnode with
  | null => exact absurd rfl hnull
  | _ => simp only [Decoder.optional, hread, Functor.map, Except.map]

/-- Items are read one by one. -/
theorem mapM_eq_of_writes {decode : Decoder α} {item : Writing α} {contents : List α}
    {values : List Value} {nodes : List Node}
    (hitem : ∀ {content value}, item content value →
      Decodes Node.Denotes (decode room) value content)
    (h : List.Forall₂ item contents values) (hnodes : Node.DenoteItems nodes values) :
    nodes.mapM (decode room) = .ok contents := by
  induction h generalizing nodes with
  | nil =>
    cases hnodes
    rfl
  | cons hvalue _ ih =>
    cases hnodes with
    | cons hnode hrest =>
      simp only [List.mapM_cons, hitem hvalue _ hnode, ih hrest, bind, Except.bind, pure,
        Except.pure]

/-- A list is read with its items. -/
theorem decodes_list {decode : Decoder α} {item : Writing α} {contents : List α}
    (hitem : ∀ {content value}, item content value →
      Decodes Node.Denotes (decode room) value content)
    (h : Writing.list item contents value) :
    Decodes Node.Denotes (decode.list (room + 1)) value contents := by
  obtain ⟨values, rfl, hvalues⟩ := h
  rintro node (_ | _ | _ | _ | hnodes)
  simp only [Decoder.list, enter, mapM_eq_of_writes hitem hvalues hnodes, stopAt, bind,
    Except.bind, pure, Except.pure]

/-- A text is read as the variant that it names. -/
theorem decodes_choice {variants : List (String × α)} {name : α → String} {content : α}
    (hvariant : variant variants (name content) = .ok content)
    (h : Writing.named name content value) :
    Decodes Node.Denotes (choice variants room) value content := by
  subst h
  rintro node (_ | _ | _ | htext)
  simp only [choice, Literal.read_eq_of_text_eq htext, hvariant, bind, Except.bind]

end Decoder

/-- A value without parts is passed over. -/
theorem IsAtom.skip_eq (hatom : IsAtom value) {node : Node} (hnode : node.Denotes value) :
    node.skip = .ok () := by
  cases hatom with
  | null =>
    cases hnode
    rfl
  | boolean value =>
    cases hnode
    rfl
  | text value =>
    cases hnode with
    | text h =>
      obtain ⟨characters, hread, -⟩ := map_eq_ok.mp h
      rw [Node.skip, Literal.skip, fault_eq_none_of_readPieces hread]
      rfl

namespace Slot

variable {has : ν → Value → Prop} {presence : Presence} {key : String}

/-- A slot reads whatever values an entry allows under their key. -/
structure Accepts (has : ν → Value → Prop) (slot : Slot ν σ) (entry : Entry) : Prop where
  key : slot.key = entry.key
  reads : ∀ values, entry.holds values → slot.Reads has values

/-- A slot accepts what is written once in every record. -/
theorem accepts_required {decode : ν → Except ReadError α} {held : σ → Option α}
    {hold : σ → α → σ} {missing content : α} {writing : Writing α}
    (h : ∀ {value}, writing content value → Decodes has decode value content) :
    Accepts has ⟨key, presence, decode, held, hold, missing, content⟩
      (.required key writing content) where
  key := rfl
  reads := by
    rintro values ⟨value, rfl, hvalue⟩
    exact Or.inr ⟨value, rfl, h hvalue⟩

/-- A slot accepts what may be left out or written null. -/
theorem accepts_optional {decode : Decoder α} {held : σ → Option (Option α)}
    {hold : σ → Option α → σ} {content : Option α} {writing : Writing α}
    (hpresence : presence ≠ .required) (hnull : ∀ content, ¬writing content .null)
    (h : ∀ {content value}, writing content value →
      Decodes Node.Denotes (decode room) value content) :
    Accepts Node.Denotes ⟨key, presence, decode.optional room, held, hold, none, content⟩
      (.optional key writing content) where
  key := rfl
  reads := by
    intro values hvalues
    cases content with
    | none =>
      rcases hvalues with rfl | rfl
      · exact Or.inl ⟨rfl, hpresence, rfl⟩
      · exact Or.inr ⟨.null, rfl, Decoder.decodes_optional_null⟩
    | some content =>
      obtain ⟨value, rfl, hvalue⟩ := hvalues
      have hsome : value ≠ .null := fun hvalue' => hnull content (hvalue' ▸ hvalue)
      exact Or.inr ⟨value, rfl, Decoder.decodes_optional hsome (h hvalue)⟩

/-- A slot accepts what may be left out where the default is meant. -/
theorem accepts_defaulted {decode : ν → Except ReadError α} {held : σ → Option α}
    {hold : σ → α → σ} {default content : α} {writing : Writing α}
    (hpresence : presence ≠ .required)
    (h : ∀ {value}, writing content value → Decodes has decode value content) :
    Accepts has ⟨key, presence, decode, held, hold, default, content⟩
      (.defaulted key writing default content) where
  key := rfl
  reads := by
    rintro values (⟨rfl, hdefault⟩ | ⟨value, rfl, hvalue⟩)
    · exact Or.inl ⟨rfl, hpresence, hdefault⟩
    · exact Or.inr ⟨value, rfl, h hvalue⟩

/-- Slots that accept entries read whatever members write these. -/
theorem reads_of_accepts {slots : List (Slot ν σ)} {entries : List Entry}
    {members : List (String × Value)} (haccepts : List.Forall₂ (Accepts has) slots entries)
    (h : ∀ entry ∈ entries, entry.holds (under entry.key members)) :
    slots.map (·.key) = entries.map (·.key) ∧
      ∀ slot ∈ slots, slot.Reads has (under slot.key members) := by
  induction haccepts with
  | nil => exact ⟨rfl, List.forall_mem_nil _⟩
  | cons haccept _ ih =>
    obtain ⟨hfirst, hrest⟩ := List.forall_mem_cons.mp h
    obtain ⟨hkeys, hreads⟩ := ih hrest
    refine ⟨by rw [List.map_cons, List.map_cons, haccept.key, hkeys], ?_⟩
    refine List.forall_mem_cons.mpr ⟨?_, hreads⟩
    rw [haccept.key]
    exact haccept.reads _ hfirst

end Slot

/-- Slots are the fields of a record, and a state that they fill makes up the content. -/
structure Record.Lays (record : Record σ α) (room : Nat) (content : α)
    (slots : List (Slot Node σ)) : Prop where
  fields : record.fields room = slots.map Slot.field
  fill : Slot.Fill slots record.start
  build : ∀ state, (∀ slot ∈ slots, (slot.held state).getD slot.missing = slot.content) →
    record.build state = content

/-- Each member of an object is read under its name. -/
theorem forall₂_of_denoteMembers {record : Record σ α} {slots : List (Slot Node σ)}
    (hfields : record.fields room = slots.map Slot.field) {nodes : List (Literal × Node)}
    {members : List (String × Value)} (h : Node.DenoteMembers nodes members)
    (hothers : ∀ member ∈ members, member.1 ∈ slots.map (·.key) ∨ IsAtom member.2) :
    List.Forall₂ (fun item member => ∃ node, Node.Denotes node member.2 ∧
      (member.1 ∉ slots.map (·.key) → node.skip = .ok ()) ∧
      ∀ state, record.takeEntry room state item =
        takeMember (slots.map Slot.field) Node.skip state member.1 node) nodes members := by
  cases h with
  | nil => exact .nil
  | @cons key name node value nodes members hkey hnode hrest =>
    obtain ⟨hfirst, hmore⟩ := List.forall_mem_cons.mp hothers
    refine .cons ⟨node, hnode, fun hnew => ?_, fun state => ?_⟩
      (forall₂_of_denoteMembers hfields hrest hmore)
    · exact (hfirst.resolve_left hnew).skip_eq hnode
    · simp only [Record.takeEntry, Literal.read_eq_of_text_eq hkey, hfields, bind, Except.bind]

/-- An object that writes a record is read as that record. -/
theorem Record.Lays.decodes {record : Record σ α} {content : α} {slots : List (Slot Node σ)}
    (hlays : record.Lays room content slots) {entries : List Entry} {reserved : List String}
    (haccepts : List.Forall₂ (Slot.Accepts Node.Denotes) slots entries)
    (h : WritesRecord entries reserved value) :
    Decodes Node.Denotes (record.decode (room + 1)) value content := by
  obtain ⟨members, rfl, hholds, hothers⟩ := h
  obtain ⟨hkeys, hreads⟩ := Slot.reads_of_accepts haccepts hholds
  rintro node (_ | _ | _ | _ | _ | hnodes)
  have hothers' : ∀ member ∈ members, member.1 ∈ slots.map (·.key) ∨ IsAtom member.2 := by
    intro member hmember
    rw [hkeys]
    exact (hothers member hmember).imp id And.right
  have hsteps := forall₂_of_denoteMembers hlays.fields hnodes hothers'
  have hreads' : ∀ slot ∈ slots, slot.Reads Node.Denotes (under slot.key ([] ++ members)) := hreads
  obtain ⟨state, hstate, hfilled⟩ := exists_foldlM_eq hlays.fill hsteps hreads' hlays.fill.filled
  obtain ⟨hrequired, hheld⟩ := requireFields_eq_ok hreads hfilled
  simp only [Record.decode, enter, hstate, stopAt, hlays.fields, hrequired, hlays.build state hheld,
    bind, Except.bind, pure, Except.pure]

end ClientPlan.Json
