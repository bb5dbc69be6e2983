import ClientPlan.Proofs.Format
import ClientPlan.Proofs.Json.Decoders
import ClientPlan.Wire.CodeModel

/-!
# Reading the format of code models

Every object that writes a property, a parameter, a request or an operation is read as that record,
whatever order its members are in and whatever else it holds.
-/

namespace ClientPlan.Wire.Reading

open Json

variable {room : Nat} {value : Value}

/-- The slots of a property. -/
def propertySlots (room : Nat) (content : Property) : List (Slot Node PropertyState) :=
  [ ⟨"name", .required, Decoder.text room, (·.name),
      fun state name => { state with name := some name }, "", content.name⟩,
    ⟨"displayName", .optional, Decoder.text.optional room, (·.displayName),
      fun state name => { state with displayName := some name }, none, content.displayName⟩,
    ⟨"serializedName", .required, Decoder.text room, (·.serializedName),
      fun state name => { state with serializedName := some name }, "", content.serializedName⟩,
    ⟨"schema", .required, Decoder.index room, (·.schema),
      fun state id => { state with schema := some id }, 0, content.schema⟩,
    ⟨"required", .optional, Decoder.flag room, (·.required),
      fun state flag => { state with required := some flag }, false, content.required⟩ ]

/-- The slots of a property make it up. -/
theorem propertySlots_lay (room : Nat) (content : Property) :
    propertyRecord.Lays room content (propertySlots room content) where
  fields := rfl
  fill := ⟨by simp [propertySlots], by simp [propertySlots],
    by simp [propertySlots, propertyRecord]⟩
  build state h := by
    simp only [propertySlots, List.forall_mem_cons] at h
    obtain ⟨hname, hshown, hwire, hschema, hrequired, -⟩ := h
    simp only [propertyRecord, hname, hshown, hwire, hschema, hrequired]

/-- A written property is read. -/
theorem decodes_property {content : Property} (h : Format.property content value) :
    Decodes Node.Denotes (property (room + 1)) value content :=
  (propertySlots_lay room content).decodes
    (.cons (Slot.accepts_required Decoder.decodes_text) <|
      .cons (Slot.accepts_optional (by decide) (fun _ h => nomatch h) Decoder.decodes_text) <|
      .cons (Slot.accepts_required Decoder.decodes_text) <|
      .cons (Slot.accepts_required Decoder.decodes_index) <|
      .cons (Slot.accepts_defaulted (by decide) Decoder.decodes_flag) .nil) h

/-- The slot of a binding to the protocols. -/
def protocolsSlots {β : Type} (binding : Decoder β) (room : Nat) (content : Protocols β) :
    List (Slot Node (Option (Option β))) :=
  [ ⟨"http", .listed, binding.optional room, fun state => state, fun _ http => some http, none,
      content.http⟩ ]

/-- The slot of a binding to the protocols makes it up. -/
theorem protocolsSlots_lay {β : Type} (binding : Decoder β) (room : Nat) (content : Protocols β) :
    (protocolsRecord binding).Lays room content (protocolsSlots binding room content) where
  fields := rfl
  fill := ⟨by simp [protocolsSlots], by simp [protocolsSlots],
    by simp [protocolsSlots, protocolsRecord]⟩
  build state h := by
    simp only [protocolsSlots, List.forall_mem_cons] at h
    obtain ⟨hhttp, -⟩ := h
    simp only [protocolsRecord, hhttp]

/-- A written binding to the protocols is read. -/
theorem decodes_protocols {β : Type} {binding : Decoder β} {writing : Writing β}
    {content : Protocols β} (hnull : ∀ content, ¬writing content .null)
    (hbinding : ∀ {content value}, writing content value →
      Decodes Node.Denotes (binding room) value content)
    (h : Format.protocols writing content value) :
    Decodes Node.Denotes ((protocolsRecord binding).decode (room + 1)) value content :=
  (protocolsSlots_lay binding room content).decodes
    (.cons (Slot.accepts_optional (by decide) hnull hbinding) .nil) h

/-- The slot of the binding of a parameter to HTTP. -/
def parameterBindingSlots (room : Nat) (content : ParameterBinding) :
    List (Slot Node (Option Location)) :=
  [ ⟨"in", .required, Decoder.choice locations room, fun state => state,
      fun _ location => some location, .path, content.location⟩ ]

/-- The slot of the binding of a parameter makes it up. -/
theorem parameterBindingSlots_lay (room : Nat) (content : ParameterBinding) :
    parameterBindingRecord.Lays room content (parameterBindingSlots room content) where
  fields := rfl
  fill := ⟨by simp [parameterBindingSlots], by simp [parameterBindingSlots],
    by simp [parameterBindingSlots, parameterBindingRecord]⟩
  build state h := by
    simp only [parameterBindingSlots, List.forall_mem_cons] at h
    obtain ⟨hlocation, -⟩ := h
    simp only [parameterBindingRecord, hlocation]

/-- A location is read by its name. -/
theorem variant_location (location : Location) :
    Decoder.variant locations location.name = .ok location := by
  cases location <;> rfl

/-- A written binding of a parameter is read. -/
theorem decodes_parameterBinding {content : ParameterBinding}
    (h : Format.parameterBinding content value) :
    Decodes Node.Denotes (parameterBindingRecord.decode (room + 1)) value content :=
  (parameterBindingSlots_lay room content).decodes
    (.cons (Slot.accepts_required (Decoder.decodes_choice (variant_location _))) .nil) h

/-- The slots of a parameter. -/
def parameterSlots (room : Nat) (content : Parameter) : List (Slot Node ParameterState) :=
  [ ⟨"name", .required, Decoder.text room, (·.name),
      fun state name => { state with name := some name }, "", content.name⟩,
    ⟨"displayName", .optional, Decoder.text.optional room, (·.displayName),
      fun state name => { state with displayName := some name }, none, content.displayName⟩,
    ⟨"serializedName", .required, Decoder.text room, (·.serializedName),
      fun state name => { state with serializedName := some name }, "", content.serializedName⟩,
    ⟨"schema", .required, Decoder.index room, (·.schema),
      fun state id => { state with schema := some id }, 0, content.schema⟩,
    ⟨"protocol", .optional,
      (protocolsRecord parameterBindingRecord.decode).decode.optional room, (·.protocol),
      fun state protocol => { state with protocol := some protocol }, none, content.protocol⟩,
    ⟨"flattened", .optional, Decoder.flag room, (·.flattened),
      fun state flag => { state with flattened := some flag }, false, content.flattened⟩,
    ⟨"required", .optional, Decoder.flag room, (·.required),
      fun state flag => { state with required := some flag }, false, content.required⟩,
    ⟨"groupedBy", .optional, Decoder.index.optional room, (·.groupedBy),
      fun state id => { state with groupedBy := some id }, none, content.groupedBy⟩,
    ⟨"originalParameter", .optional, Decoder.index.optional room, (·.spreadFrom),
      fun state id => { state with spreadFrom := some id }, none, content.spreadFrom⟩,
    ⟨"targetProperty", .optional, Decoder.index.optional room, (·.targetProperty),
      fun state id => { state with targetProperty := some id }, none, content.targetProperty⟩ ]

/-- The slots of a parameter make it up. -/
theorem parameterSlots_lay (room : Nat) (content : Parameter) :
    parameterRecord.Lays room content (parameterSlots room content) where
  fields := rfl
  fill := ⟨by simp [parameterSlots], by simp [parameterSlots],
    by simp [parameterSlots, parameterRecord]⟩
  build state h := by
    simp only [parameterSlots, List.forall_mem_cons] at h
    obtain ⟨hname, hshown, hwire, hschema, hprotocol, hflattened, hrequired, hgroup, hspread,
      htarget, -⟩ := h
    simp only [parameterRecord, hname, hshown, hwire, hschema, hprotocol, hflattened, hrequired,
      hgroup, hspread, htarget]

/-- A written parameter is read. -/
theorem decodes_parameter {content : Parameter} (h : Format.parameter content value) :
    Decodes Node.Denotes (parameter (room + 3)) value content :=
  (parameterSlots_lay (room + 2) content).decodes
    (.cons (Slot.accepts_required Decoder.decodes_text) <|
      .cons (Slot.accepts_optional (by decide) (fun _ h => nomatch h) Decoder.decodes_text) <|
      .cons (Slot.accepts_required Decoder.decodes_text) <|
      .cons (Slot.accepts_required Decoder.decodes_index) <|
      .cons (Slot.accepts_optional (by decide) (fun _ ⟨_, h, _⟩ => nomatch h)
        (decodes_protocols (fun _ ⟨_, h, _⟩ => nomatch h) decodes_parameterBinding)) <|
      .cons (Slot.accepts_defaulted (by decide) Decoder.decodes_flag) <|
      .cons (Slot.accepts_defaulted (by decide) Decoder.decodes_flag) <|
      .cons (Slot.accepts_optional (by decide) (fun _ h => nomatch h) Decoder.decodes_index) <|
      .cons (Slot.accepts_optional (by decide) (fun _ h => nomatch h) Decoder.decodes_index) <|
      .cons (Slot.accepts_optional (by decide) (fun _ h => nomatch h) Decoder.decodes_index)
      .nil) h

/-- The slots of the binding of a request to HTTP. -/
def requestBindingSlots (room : Nat) (content : RequestBinding) :
    List (Slot Node RequestBindingState) :=
  [ ⟨"method", .optional, (Decoder.choice httpMethods).optional room, (·.method),
      fun state method => { state with method := some method }, none, content.method⟩,
    ⟨"path", .optional, Decoder.text.optional room, (·.path),
      fun state path => { state with path := some path }, none, content.path⟩,
    ⟨"mediaTypes", .optional, Decoder.text.list.optional room, (·.mediaTypes),
      fun state types => { state with mediaTypes := some types }, none, content.mediaTypes⟩,
    ⟨"knownMediaType", .optional, (Decoder.choice mediaFamilies).optional room,
      (·.knownMediaType), fun state family => { state with knownMediaType := some family }, none,
      content.knownMediaType⟩ ]

/-- The slots of the binding of a request make it up. -/
theorem requestBindingSlots_lay (room : Nat) (content : RequestBinding) :
    requestBindingRecord.Lays room content (requestBindingSlots room content) where
  fields := rfl
  fill := ⟨by simp [requestBindingSlots], by simp [requestBindingSlots],
    by simp [requestBindingSlots, requestBindingRecord]⟩
  build state h := by
    simp only [requestBindingSlots, List.forall_mem_cons] at h
    obtain ⟨hmethod, hpath, htypes, hfamily, -⟩ := h
    simp only [requestBindingRecord, hmethod, hpath, htypes, hfamily]

/-- A method is read by its name. -/
theorem variant_httpMethod (method : HttpMethod) :
    Decoder.variant httpMethods method.name = .ok method := by
  cases method <;> rfl

/-- A family of media types is read by its name. -/
theorem variant_mediaFamily (family : MediaFamily) :
    Decoder.variant mediaFamilies family.name = .ok family := by
  cases family <;> rfl

/-- A written binding of a request is read. -/
theorem decodes_requestBinding {content : RequestBinding}
    (h : Format.requestBinding content value) :
    Decodes Node.Denotes (requestBindingRecord.decode (room + 2)) value content :=
  (requestBindingSlots_lay (room + 1) content).decodes
    (.cons (Slot.accepts_optional (by decide) (fun _ h => nomatch h)
        (Decoder.decodes_choice (variant_httpMethod _))) <|
      .cons (Slot.accepts_optional (by decide) (fun _ h => nomatch h) Decoder.decodes_text) <|
      .cons (Slot.accepts_optional (by decide) (fun _ ⟨_, h, _⟩ => nomatch h)
        (Decoder.decodes_list Decoder.decodes_text)) <|
      .cons (Slot.accepts_optional (by decide) (fun _ h => nomatch h)
        (Decoder.decodes_choice (variant_mediaFamily _))) .nil) h

/-- The slots of a request. -/
def requestSlots (room : Nat) (content : Request) : List (Slot Node RequestState) :=
  [ ⟨"parameters", .optional, Decoder.index.list room, (·.parameters),
      fun state ids => { state with parameters := some ids }, [], content.parameters⟩,
    ⟨"signatureParameters", .optional, Decoder.index.list room, (·.signatureParameters),
      fun state ids => { state with signatureParameters := some ids }, [],
      content.signatureParameters⟩,
    ⟨"protocol", .optional,
      (protocolsRecord requestBindingRecord.decode).decode.optional room, (·.protocol),
      fun state protocol => { state with protocol := some protocol }, none, content.protocol⟩ ]

/-- The slots of a request make it up. -/
theorem requestSlots_lay (room : Nat) (content : Request) :
    requestRecord.Lays room content (requestSlots room content) where
  fields := rfl
  fill := ⟨by simp [requestSlots], by simp [requestSlots],
    by simp [requestSlots, requestRecord]⟩
  build state h := by
    simp only [requestSlots, List.forall_mem_cons] at h
    obtain ⟨hparameters, hsignature, hprotocol, -⟩ := h
    simp only [requestRecord, hparameters, hsignature, hprotocol]

/-- A written request is read. -/
theorem decodes_request {content : Request} (h : Format.request content value) :
    Decodes Node.Denotes (request (room + 4)) value content :=
  (requestSlots_lay (room + 3) content).decodes
    (.cons (Slot.accepts_defaulted (by decide) (Decoder.decodes_list Decoder.decodes_index)) <|
      .cons (Slot.accepts_defaulted (by decide) (Decoder.decodes_list Decoder.decodes_index)) <|
      .cons (Slot.accepts_optional (by decide) (fun _ ⟨_, h, _⟩ => nomatch h)
        (decodes_protocols (fun _ ⟨_, h, _⟩ => nomatch h) decodes_requestBinding)) .nil) h

/-- The slots of an operation. -/
def operationSlots (room : Nat) (content : Operation) : List (Slot Node OperationState) :=
  [ ⟨"name", .required, Decoder.text room, (·.name),
      fun state name => { state with name := some name }, "", content.name⟩,
    ⟨"requests", .optional, request.list room, (·.requests),
      fun state requests => { state with requests := some requests }, [], content.requests⟩ ]

/-- The slots of an operation make it up. -/
theorem operationSlots_lay (room : Nat) (content : Operation) :
    operationRecord.Lays room content (operationSlots room content) where
  fields := rfl
  fill := ⟨by simp [operationSlots], by simp [operationSlots],
    by simp [operationSlots, operationRecord]⟩
  build state h := by
    simp only [operationSlots, List.forall_mem_cons] at h
    obtain ⟨hname, hrequests, -⟩ := h
    simp only [operationRecord, hname, hrequests]

/-- A written operation is read. -/
theorem decodes_operation {content : Operation} (h : Format.operation content value) :
    Decodes Node.Denotes (operation (room + 6)) value content :=
  (operationSlots_lay (room + 5) content).decodes
    (.cons (Slot.accepts_required Decoder.decodes_text) <|
      .cons (Slot.accepts_defaulted (by decide) (Decoder.decodes_list decodes_request)) .nil) h

end ClientPlan.Wire.Reading
