import ClientPlan.Method.Render.Text
import Mathlib.Algebra.GroupWithZero.Nat
import Mathlib.Data.List.Basic

/-!
# The lines of a method

The text of a transformation is split into lines again when the text of its method is laid out, so
that each of them gets its indent. As long as no name breaks a line, the split undoes the join, and
each output and each mapping stands on a line of its own, in order.
-/

namespace ClientPlan

/-- A text on one line. -/
def Unbroken (text : String) : Prop := ∀ c ∈ text.toList, c ≠ '\n' ∧ c ≠ '\r'

/-- The names in a type. -/
def ClientType.strings : ClientType → List String
  | .list element => element.strings
  | .model name => [name]
  | _ => []

/-- The texts that an argument holds. -/
def Argument.strings (argument : Argument) : List String := argument.name :: argument.type.strings

/-- The texts that a property holds. -/
def ModelProperty.strings (property : ModelProperty) : List String :=
  property.name :: property.serializedName :: property.type.strings

/-- The texts that a source holds. -/
def Source.strings (source : Source) : List String :=
  source.argument.strings ++ source.property.toList.flatMap ModelProperty.strings

/-- The texts that a target holds. -/
def Target.strings (target : Target) : List String :=
  target.argument.strings ++ target.property.toList.flatMap ModelProperty.strings ++
    target.propertyName.toList

/-- The texts that a transformation holds. -/
def Transformation.strings (transformation : Transformation) : List String :=
  transformation.output.strings ++
    transformation.mappings.flatMap fun mapping =>
      mapping.source.strings ++ mapping.target.strings

/-- The texts that a method holds. -/
def ClientMethod.strings (method : ClientMethod) : List String :=
  method.name :: method.contentType :: method.path.toList ++
    method.parameters.flatMap Argument.strings ++
    method.transformations.flatMap Transformation.strings

namespace Unbroken

variable {first second : String}

/-- Texts on one line make up a text on one line. -/
theorem append (hfirst : Unbroken first) (hsecond : Unbroken second) :
    Unbroken (first ++ second) := by
  rw [Unbroken, String.toList_append]
  exact List.forall_mem_append.mpr ⟨hfirst, hsecond⟩

/-- Texts on one line are joined to a text on one line. -/
theorem intercalate {separator : String} {texts : List String} (hseparator : Unbroken separator)
    (h : ∀ text ∈ texts, Unbroken text) : Unbroken (separator.intercalate texts) := by
  induction texts with
  | nil => simp [Unbroken]
  | cons text texts ih =>
    obtain ⟨htext, htexts⟩ := List.forall_mem_cons.mp h
    cases texts with
    | nil => rwa [String.intercalate_singleton]
    | cons next texts =>
      rw [String.intercalate_cons_cons]
      exact (htext.append hseparator).append (ih htexts)

/-- A property is read on one line if its name and its object stand on one. -/
theorem access {object property : String} (hobject : Unbroken object)
    (hproperty : Unbroken property) : Unbroken (Text.access object property) := by
  have hescaped : Unbroken (String.ofList (property.toList.flatMap Text.escapedChar)) := by
    intro c hc
    rw [String.toList_ofList] at hc
    obtain ⟨d, hd, hc⟩ := List.mem_flatMap.mp hc
    have hplain := hproperty d hd
    unfold Text.escapedChar at hc
    split at hc
    · rcases List.mem_cons.mp hc with rfl | hc
      · decide
      · rwa [List.mem_singleton.mp hc]
    · rwa [List.mem_singleton.mp hc]
  unfold Text.access
  split
  · exact (hobject.append (by simp [Unbroken])).append hproperty
  · exact ((hobject.append (by simp [Unbroken])).append hescaped).append (by simp [Unbroken])

end Unbroken

/-- A type stands on one line if the names in it do. -/
theorem ClientType.unbroken_text {type : ClientType} (h : ∀ text ∈ type.strings, Unbroken text) :
    Unbroken type.text := by
  induction type with
  | list element ih => exact (ih h).append (by simp [Unbroken])
  | model name => exact h name List.mem_cons_self
  | _ => simp [Unbroken, ClientType.text]

/-- An argument stands on one line if its name and its type do. -/
theorem Argument.unbroken_text {argument : Argument}
    (h : ∀ text ∈ argument.strings, Unbroken text) : Unbroken argument.text := by
  obtain ⟨hname, htype⟩ := List.forall_mem_cons.mp h
  have hmark : Unbroken (if argument.required then "" else "?") := by
    split <;> simp [Unbroken]
  exact ((hname.append hmark).append (by simp [Unbroken])).append (ClientType.unbroken_text htype)

/-- A source stands on one line if all that it holds does. -/
theorem Source.unbroken_text {source : Source} (h : ∀ text ∈ source.strings, Unbroken text) :
    Unbroken source.text := by
  obtain ⟨hargument, hproperty⟩ := List.forall_mem_append.mp h
  have hname := hargument _ List.mem_cons_self
  unfold Source.text
  cases hread : source.property with
  | none => exact hname
  | some property =>
    refine hname.access (hproperty _ ?_)
    simp [hread, ModelProperty.strings]

/-- A target stands on one line if all that it holds does. -/
theorem Target.unbroken_text {target : Target} (h : ∀ text ∈ target.strings, Unbroken text) :
    Unbroken target.text := by
  obtain ⟨hheld, hproperty⟩ := List.forall_mem_append.mp h
  have hname := (List.forall_mem_append.mp hheld).1 _ List.mem_cons_self
  unfold Target.text
  cases hwritten : target.propertyName with
  | none => exact hname
  | some name =>
    refine hname.access (hproperty _ ?_)
    simp [hwritten]

/-- A mapping stands on one line if both of its sides do. -/
theorem Mapping.unbroken_text {mapping : Mapping}
    (h : ∀ text ∈ mapping.source.strings ++ mapping.target.strings, Unbroken text) :
    Unbroken mapping.text := by
  obtain ⟨hsource, htarget⟩ := List.forall_mem_append.mp h
  exact ((Target.unbroken_text htarget).append (by simp [Unbroken])).append
    (Source.unbroken_text hsource)

/-- The line of a method stands on one line if all that the method holds does. -/
theorem ClientMethod.unbroken_signatureText {method : ClientMethod}
    (h : ∀ text ∈ method.strings, Unbroken text) : Unbroken method.signatureText := by
  simp only [ClientMethod.strings, List.cons_append, List.forall_mem_cons, List.forall_mem_append]
    at h
  obtain ⟨hname, hcontent, ⟨hpath, hparameters⟩, -⟩ := h
  have harguments : ∀ text ∈ method.parameters.map Argument.text, Unbroken text := by
    intro text hmem
    obtain ⟨argument, hargument, rfl⟩ := List.mem_map.mp hmem
    exact Argument.unbroken_text fun text htext =>
      hparameters text (List.mem_flatMap.mpr ⟨argument, hargument, htext⟩)
  have hnotes : ∀ note ∈ method.notes, Unbroken note := by
    simp only [ClientMethod.notes, List.forall_mem_append]
    refine ⟨⟨⟨?_, ?_⟩, hpath⟩, ?_⟩
    · split
      · cases method.kind <;> simp [Unbroken, MethodKind.name]
      · simp
    · intro note hnote
      obtain ⟨verb, -, rfl⟩ := Option.map_eq_some_iff.mp (Option.mem_toList.mp hnote)
      cases verb <;> simp [Unbroken, Wire.HttpMethod.verb]
    · rw [List.forall_mem_singleton]
      exact ((by simp [Unbroken] : Unbroken "(").append hcontent).append (by simp [Unbroken])
  exact (((hname.append (by simp [Unbroken])).append
    (Unbroken.intercalate (by simp [Unbroken]) harguments)).append (by simp [Unbroken])).append
      (Unbroken.intercalate (by simp [Unbroken]) hnotes)

/-- Texts with an indent are joined to the line before them. -/
theorem append_indented (first : String) (texts : List String) :
    first ++ indented texts = "\n".intercalate (first :: texts.map ("  " ++ ·)) := by
  induction texts generalizing first with
  | nil => simp [indented]
  | cons text texts ih =>
    have hbreak : ("\n  " : String) = "\n" ++ "  " := rfl
    rw [List.map_cons, String.intercalate_cons_cons, ← ih]
    simp only [indented, List.map_cons, String.join_cons, hbreak, String.append_assoc]

namespace Text

variable {line : List Char}

/-- What is no feed is kept for the line. -/
theorem linesAfter_append (h : ∀ c ∈ line, c ≠ '\n' ∧ c ≠ '\r') (before rest : List Char) :
    linesAfter before (line ++ rest) = linesAfter (line.reverse ++ before) rest := by
  induction line generalizing before with
  | nil => rfl
  | cons c line ih =>
    obtain ⟨hc, hline⟩ := List.forall_mem_cons.mp h
    rw [List.cons_append, linesAfter, if_neg hc.1, ih hline, List.reverse_cons, List.append_assoc,
      List.singleton_append]

/-- A feed ends the line before it. -/
theorem linesAfter_append_break (h : ∀ c ∈ line, c ≠ '\n' ∧ c ≠ '\r') (rest : List Char) :
    linesAfter [] (line ++ '\n' :: rest) = line :: linesAfter [] rest := by
  have hreturn : dropReturn line.reverse = line.reverse := by
    unfold dropReturn
    split
    next heq =>
      have hmem : '\r' ∈ line := List.mem_reverse.mp (heq ▸ List.mem_cons_self)
      exact absurd rfl (h '\r' hmem).2
    · rfl
  rw [linesAfter_append h, List.append_nil, linesAfter, if_pos rfl, hreturn, List.reverse_reverse]

/-- What follows the last feed is a line unless it is empty. -/
theorem linesAfter_last (h : ∀ c ∈ line, c ≠ '\n' ∧ c ≠ '\r') (hne : line ≠ []) :
    linesAfter [] line = [line] := by
  have hkept := linesAfter_append h [] []
  rw [List.append_nil, List.append_nil, linesAfter] at hkept
  rw [hkept, if_neg (by simpa using hne), List.reverse_reverse]

/-- Splitting a text undoes joining its lines. The last one would be lost if it were empty. -/
theorem lines_intercalate {texts : List String} (hunbroken : ∀ text ∈ texts, Unbroken text)
    (hne : ∀ text ∈ texts, text ≠ "") : lines ("\n".intercalate texts) = texts := by
  induction texts with
  | nil => rfl
  | cons text texts ih =>
    obtain ⟨htext, htexts⟩ := List.forall_mem_cons.mp hunbroken
    obtain ⟨hne, hothers⟩ := List.forall_mem_cons.mp hne
    cases texts with
    | nil =>
      rw [String.intercalate_singleton, lines, linesAfter_last htext (by simpa using hne)]
      simp
    | cons next texts =>
      have hbreak : ("\n" : String).toList = ['\n'] := rfl
      have hlines := ih htexts hothers
      rw [lines] at hlines
      rw [lines, String.intercalate_cons_cons, String.toList_append, String.toList_append,
        List.append_assoc, hbreak, List.singleton_append, linesAfter_append_break htext,
        List.map_cons, hlines, String.ofList_toList]

end Text

/-- The lines of a transformation below its method: the output with one indent, and the mappings
with two. -/
def Transformation.indentedLines (transformation : Transformation) : List String :=
  ("  " ++ transformation.output.text) ::
    transformation.mappings.map fun mapping => "    " ++ mapping.text

namespace Transformation

variable {transformation : Transformation}

/-- All lines of a transformation stand on one line each if all that it holds does. -/
theorem unbroken_lines (h : ∀ text ∈ transformation.strings, Unbroken text) :
    Unbroken transformation.output.text ∧
      ∀ text ∈ transformation.mappings.map Mapping.text, Unbroken text := by
  obtain ⟨houtput, hmappings⟩ := List.forall_mem_append.mp h
  refine ⟨Argument.unbroken_text houtput, fun text htext => ?_⟩
  obtain ⟨mapping, hmapping, rfl⟩ := List.mem_map.mp htext
  exact Mapping.unbroken_text fun text htext =>
    hmappings text (List.mem_flatMap.mpr ⟨mapping, hmapping, htext⟩)

/-- The text of a transformation is split into the lines that it was joined from. -/
theorem lines_text (h : ∀ text ∈ transformation.strings, Unbroken text) :
    Text.lines transformation.text =
      transformation.output.text :: transformation.mappings.map fun mapping =>
        "  " ++ mapping.text := by
  obtain ⟨houtput, hmappings⟩ := unbroken_lines h
  rw [Transformation.text, append_indented, List.map_map, Text.lines_intercalate]
  · rfl
  · refine List.forall_mem_cons.mpr ⟨houtput, fun line hline => ?_⟩
    obtain ⟨mapping, hmapping, rfl⟩ := List.mem_map.mp hline
    exact Unbroken.append (by simp [Unbroken]) (hmappings _ (List.mem_map_of_mem hmapping))
  · refine List.forall_mem_cons.mpr ⟨by simp [Argument.text], fun line hline => ?_⟩
    obtain ⟨mapping, -, rfl⟩ := List.mem_map.mp hline
    simp

/-- Below a method each of these lines gets one more indent. -/
theorem map_lines_text (h : ∀ text ∈ transformation.strings, Unbroken text) :
    (Text.lines transformation.text).map ("  " ++ ·) = transformation.indentedLines := by
  have hindent (text : String) : "  " ++ ("  " ++ text) = "    " ++ text := by
    rw [← String.append_assoc]
    rfl
  simp [lines_text h, indentedLines, hindent]

/-- The lines of a transformation below its method are lines. -/
theorem unbroken_indentedLines (h : ∀ text ∈ transformation.strings, Unbroken text) :
    ∀ line ∈ transformation.indentedLines, Unbroken line := by
  obtain ⟨houtput, hmappings⟩ := unbroken_lines h
  refine List.forall_mem_cons.mpr ⟨Unbroken.append (by simp [Unbroken]) houtput, ?_⟩
  intro line hline
  obtain ⟨mapping, hmapping, rfl⟩ := List.mem_map.mp hline
  exact Unbroken.append (by simp [Unbroken]) (hmappings _ (List.mem_map_of_mem hmapping))

end Transformation

/-- The lines of a method: its own one, and below it those of its transformations. -/
def ClientMethod.textLines (method : ClientMethod) : List String :=
  method.signatureText :: method.transformations.flatMap Transformation.indentedLines

namespace ClientMethod

variable {method : ClientMethod}

/-- What a transformation of a method holds is held by the method. -/
theorem unbroken_strings (h : ∀ text ∈ method.strings, Unbroken text)
    {transformation : Transformation} (hmem : transformation ∈ method.transformations) :
    ∀ text ∈ transformation.strings, Unbroken text := fun text htext =>
  h text (List.mem_append_right _ (List.mem_flatMap.mpr ⟨transformation, hmem, htext⟩))

/-- The lines of a method are lines. -/
theorem unbroken_textLines (h : ∀ text ∈ method.strings, Unbroken text) :
    ∀ line ∈ method.textLines, Unbroken line := by
  refine List.forall_mem_cons.mpr ⟨unbroken_signatureText h, fun line hline => ?_⟩
  obtain ⟨transformation, hmem, hline⟩ := List.mem_flatMap.mp hline
  exact Transformation.unbroken_indentedLines (unbroken_strings h hmem) line hline

/-- The text of a method is joined from its lines. -/
theorem text_eq_intercalate (h : ∀ text ∈ method.strings, Unbroken text) :
    method.text = "\n".intercalate method.textLines := by
  have hlines : ∀ transformation ∈ method.transformations,
      (Text.lines transformation.text).map ("  " ++ ·) = transformation.indentedLines :=
    fun transformation hmem => Transformation.map_lines_text (unbroken_strings h hmem)
  rw [ClientMethod.text, append_indented, List.map_flatMap, List.flatMap_congr hlines]
  rfl

/-- A split at the feeds gives the lines back. -/
theorem splitOn_text_eq (h : ∀ text ∈ method.strings, Unbroken text) :
    method.text.toList.splitOn '\n' = method.textLines.map String.toList := by
  have hbreak : ("\n" : String).toList = ['\n'] := rfl
  rw [text_eq_intercalate h, String.toList_intercalate, hbreak, List.splitOn_intercalate]
  · intro chars hchars hmem
    obtain ⟨line, hline, rfl⟩ := List.mem_map.mp hchars
    exact absurd rfl (unbroken_textLines h line hline '\n' hmem).1
  · exact List.cons_ne_nil _ _

/-- The text of a method whose names break no line has one line for the method itself: its name and
its arguments, and the notes, of which the content type comes last. Below it, for each
transformation in order, there is one line for the output and one for each of the mappings. -/
theorem splitOn_text (h : ∀ text ∈ method.strings, Unbroken text) :
    let notes := (if method.kind = .protocol then ["protocol"] else []) ++
      (method.httpMethod.map (·.verb)).toList ++ method.path.toList
    let signature := method.name ++ "(" ++
      ", ".intercalate (method.parameters.map Argument.text) ++ ")  // " ++
        " ".intercalate (notes ++ ["(" ++ method.contentType ++ ")"])
    (method.text.toList.splitOn '\n').map String.ofList =
        signature :: method.transformations.flatMap (fun transformation =>
          ("  " ++ transformation.output.text) ::
            transformation.mappings.map fun mapping => "    " ++ mapping.text) ∧
      (method.text.toList.splitOn '\n').length =
        1 + (method.transformations.map fun transformation =>
          1 + transformation.mappings.length).sum := by
  intro notes signature
  have hsignature : method.signatureText = signature := by
    cases hkind : method.kind <;>
      simp [signature, notes, ClientMethod.signatureText, ClientMethod.notes, hkind,
        MethodKind.name]
  rw [splitOn_text_eq h, textLines, hsignature]
  constructor
  · simp only [List.map_map, String.ofList_comp_toList, List.map_id]
    rfl
  · simp [List.length_flatMap, Transformation.indentedLines, Nat.add_comm]

end ClientMethod

/-- A search that sends a filter made of two tags, and a page as it is. -/
def searchMethod : ClientMethod :=
  let tags : Argument := ⟨"tags", .list (.model "Tag"), false, none, false⟩
  let filter : Argument := ⟨"filter", .model "Filter", true, some .body, false⟩
  let page : Argument := ⟨"page", .integer, false, some .query, false⟩
  let field (name : String) : ModelProperty := ⟨name, name, .list (.model "Tag"), false⟩
  { name := "search"
    kind := .convenience
    httpMethod := some .post
    path := some "/items"
    contentType := "application/json"
    parameters := [tags, page]
    transformations :=
      [⟨filter, [⟨⟨tags, none⟩, ⟨filter, some (field "any"), some "any"⟩⟩,
          ⟨⟨tags, some (field "x-\"all\"")⟩, ⟨filter, some (field "all"), some "all"⟩⟩]⟩,
        ⟨page, [.direct page]⟩] }

/-- The text of the search has six lines. -/
theorem splitOn_text_search :
    (∀ text ∈ searchMethod.strings, Unbroken text) ∧
    (let notes := (if searchMethod.kind = .protocol then ["protocol"] else []) ++
      (searchMethod.httpMethod.map (·.verb)).toList ++ searchMethod.path.toList
    let signature := searchMethod.name ++ "(" ++
      ", ".intercalate (searchMethod.parameters.map Argument.text) ++ ")  // " ++
        " ".intercalate (notes ++ ["(" ++ searchMethod.contentType ++ ")"])
    (searchMethod.text.toList.splitOn '\n').map String.ofList =
        signature :: searchMethod.transformations.flatMap (fun transformation =>
          ("  " ++ transformation.output.text) ::
            transformation.mappings.map fun mapping => "    " ++ mapping.text) ∧
      (searchMethod.text.toList.splitOn '\n').length =
        1 + (searchMethod.transformations.map fun transformation =>
          1 + transformation.mappings.length).sum) := by
  have hstrings : ∀ text ∈ searchMethod.strings, Unbroken text := by
    simp [searchMethod, Unbroken, ClientMethod.strings, Argument.strings, ClientType.strings,
      Transformation.strings, Source.strings, Target.strings, ModelProperty.strings,
      Mapping.direct]
  exact ⟨hstrings, ClientMethod.splitOn_text hstrings⟩

end ClientPlan
