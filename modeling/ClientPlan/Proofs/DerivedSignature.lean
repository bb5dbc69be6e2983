import ClientPlan.Proofs.Conservation

/-!
# Derived signatures

Where the model fixes no signature, the arguments of a convenience method are collected from the
parameters of its request in one pass. A parameter contributes its group or itself, and an
argument that was contributed before is not taken again. So the signature lists what is
contributed, each argument at the place of its first contributor, and repeating parameters behind
their first occurrence adds nothing to it.
-/

namespace ClientPlan

open Wire (CodeModel ParameterId Request Tables)

section FirstPlaces

variable {α κ : Type}

/-- The first place in a list at which something is found. -/
def FirstAt (f : α → Option κ) (xs : List α) (k : κ) (i : Nat) : Prop :=
  (∃ x, xs[i]? = some x ∧ f x = some k) ∧ ∀ j < i, ∀ x, xs[j]? = some x → f x ≠ some k

namespace FirstAt

variable {f : α → Option κ} {xs : List α} {k : κ} {i : Nat}

/-- The first place lies inside the list. -/
theorem lt_length (h : FirstAt f xs k i) : i < xs.length := by
  obtain ⟨⟨x, hx, -⟩, -⟩ := h
  exact (List.getElem?_eq_some_iff.mp hx).1

/-- More elements at the end leave the first place where it is. -/
theorem append (h : FirstAt f xs k i) (ys : List α) : FirstAt f (xs ++ ys) k i := by
  have hlt := h.lt_length
  obtain ⟨⟨x, hx, hfound⟩, hbefore⟩ := h
  have hat : (xs ++ ys)[i]? = some x := by rwa [List.getElem?_append_left hlt]
  refine ⟨⟨x, hat, hfound⟩, ?_⟩
  intro j hj y hy
  have hjlt : j < xs.length := by omega
  rw [List.getElem?_append_left hjlt] at hy
  exact hbefore j hj y hy

/-- What was not found so far is first found at the end. -/
theorem concat {x : α} (hfound : f x = some k) (hnew : k ∉ xs.filterMap f) :
    FirstAt f (xs ++ [x]) k xs.length := by
  refine ⟨⟨x, by simp, hfound⟩, ?_⟩
  intro j hj y hy heq
  rw [List.getElem?_append_left hj] at hy
  apply hnew
  exact List.mem_filterMap.mpr ⟨y, List.mem_of_getElem? hy, heq⟩

end FirstAt

/-- Without repetitions, the things that are found stand in the order of their first places. -/
theorem exists_firstAt_eraseDups [DecidableEq κ] (f : α → Option κ) (xs : List α) :
    ∃ places : List Nat, places.Pairwise (· < ·) ∧
      List.Forall₂ (FirstAt f xs) (xs.filterMap f).eraseDups places := by
  rw [eraseDups_eq_firstOfEach]
  induction xs using List.reverseRecOn with
  | nil => exact ⟨[], .nil, .nil⟩
  | append_singleton xs x ih =>
    obtain ⟨places, hascending, hfirst⟩ := ih
    have hkept : List.Forall₂ (FirstAt f (xs ++ [x])) (firstOfEach id (xs.filterMap f)) places :=
      hfirst.imp fun _ _ h => h.append [x]
    rw [List.filterMap_append]
    cases hfound : f x with
    | none =>
      have hnone : [x].filterMap f = [] := by simp [hfound]
      rw [hnone, List.append_nil]
      exact ⟨places, hascending, hkept⟩
    | some k =>
      have hone : [x].filterMap f = [k] := by simp [hfound]
      rw [hone, firstOfEach_concat, List.map_id, id_eq]
      by_cases hmem : k ∈ xs.filterMap f
      · rw [if_pos hmem]
        exact ⟨places, hascending, hkept⟩
      · rw [if_neg hmem]
        -- All places so far lie inside the list, in front of the new one.
        have hinside : ∀ place ∈ places, place < xs.length := by
          intro place hplace
          obtain ⟨_, -, h⟩ := exists_of_mem_right hfirst hplace
          exact h.lt_length
        have hplaces : (places ++ [xs.length]).Pairwise (· < ·) := by
          refine List.pairwise_append.mpr ⟨hascending, List.pairwise_singleton _ _, ?_⟩
          intro place hplace last hlast
          rw [List.mem_singleton.mp hlast]
          exact hinside place hplace
        exact ⟨_, hplaces, List.rel_append hkept (.cons (.concat hfound hmem) .nil)⟩

end FirstPlaces

/-- A parameter of a request contributes an argument to the derived signature: its group, or itself
if it has none. It is not constant, and no parameter of the request was spread from it. -/
structure Wire.Request.Contributes (request : Request) (tables : Tables)
    (id taken : ParameterId) : Prop where
  mem : id ∈ request.parameters
  carries : ∃ entry, tables.entryAt id = .ok entry ∧ entry.schema.isConstant = false ∧
    (entry.parameter.groupedBy = some taken ∨ entry.parameter.groupedBy = none ∧ id = taken)
  unspread : ∀ other ∈ request.parameters, ∀ parameter,
    tables.parameters[other]? = some parameter → parameter.spreadFrom ≠ some id

/-- The position of the first parameter of a request that contributes an argument. -/
def Wire.Request.FirstContributes (request : Request) (tables : Tables) (taken : ParameterId)
    (position : Nat) : Prop :=
  (∃ id, request.parameters[position]? = some id ∧ request.Contributes tables id taken) ∧
    ∀ earlier < position, ∀ id, request.parameters[earlier]? = some id →
      ¬ request.Contributes tables id taken

/-- The parameters that some of the given ones were spread from. -/
def spreadsOf (tables : Tables) (ids : List ParameterId) : List ParameterId :=
  ids.filterMap fun id => tables.parameters[id]?.bind (·.spreadFrom)

/-- What a parameter contributes to the signature of a request with the given parameters. -/
def contribution? (tables : Tables) (ids : List ParameterId) (id : ParameterId) :
    Option ParameterId :=
  match tables.entryAt id with
  | .ok entry =>
    if entry.schema.isConstant = false ∧ id ∉ spreadsOf tables ids then some entry.carrier
    else none
  | .error _ => none

variable {tables : Tables} {mapper : Mapper} {operation : String} {request : Request}

/-- Some parameter was spread from each of these. -/
theorem mem_spreadsOf {ids : List ParameterId} {id : ParameterId} :
    id ∈ spreadsOf tables ids ↔ ∃ other ∈ ids, ∃ parameter,
      tables.parameters[other]? = some parameter ∧ parameter.spreadFrom = some id := by
  simp only [spreadsOf, List.mem_filterMap, Option.bind_eq_some_iff]

/-- The carrier of an entry is its group, or itself if it has none. -/
theorem WireEntry.carrier_eq_iff {entry : WireEntry} {taken : ParameterId} :
    entry.carrier = taken ↔ entry.parameter.groupedBy = some taken ∨
      entry.parameter.groupedBy = none ∧ entry.id = taken := by
  unfold carrier
  cases entry.parameter.groupedBy <;> simp

/-- What the parameters of a request contribute. -/
theorem contribution?_eq_some {id taken : ParameterId} (hmem : id ∈ request.parameters) :
    contribution? tables request.parameters id = some taken ↔
      request.Contributes tables id taken := by
  constructor
  · intro h
    unfold contribution? at h
    split at h
    next entry hentry =>
      have hid := (Tables.entryAt_eq_ok.mp hentry).2.2
      obtain ⟨⟨hvaries, hwhole⟩, htaken⟩ := Option.ite_none_right_eq_some.mp h
      have hcarrier := WireEntry.carrier_eq_iff.mp (Option.some.inj htaken)
      rw [hid] at hcarrier
      refine ⟨hmem, ⟨entry, hentry, hvaries, hcarrier⟩, ?_⟩
      intro other hother parameter hparameter hspread
      apply hwhole
      exact mem_spreadsOf.mpr ⟨other, hother, parameter, hparameter, hspread⟩
    next => cases h
  · rintro ⟨-, ⟨entry, hentry, hvaries, htaken⟩, hunspread⟩
    have hid := (Tables.entryAt_eq_ok.mp hentry).2.2
    have hcarrier : entry.carrier = taken := WireEntry.carrier_eq_iff.mpr (hid.symm ▸ htaken)
    have hwhole : id ∉ spreadsOf tables request.parameters := by
      intro hmem
      obtain ⟨other, hother, parameter, hparameter, hspread⟩ := mem_spreadsOf.mp hmem
      exact hunspread other hother parameter hparameter hspread
    simp only [contribution?, hentry]
    rw [if_pos ⟨hvaries, hwhole⟩, hcarrier]

/-- The first place of a contribution is that of its first contributor. -/
theorem FirstAt.firstContributes {taken : ParameterId} {position : Nat}
    (h : FirstAt (contribution? tables request.parameters) request.parameters taken position) :
    request.FirstContributes tables taken position := by
  obtain ⟨⟨id, hat, hfound⟩, hbefore⟩ := h
  refine ⟨⟨id, hat, (contribution?_eq_some (List.mem_of_getElem? hat)).mp hfound⟩, ?_⟩
  intro earlier hlt other hother hcontributes
  apply hbefore earlier hlt other hother
  exact (contribution?_eq_some (List.mem_of_getElem? hother)).mpr hcontributes

/-- A derived signature has what the parameters contribute, each argument once. -/
theorem derivedSignature_eq {ids : List ParameterId} {entries : List WireEntry}
    (hentries : ids.mapM tables.entryAt = .ok entries) :
    derivedSignature entries = (ids.filterMap (contribution? tables ids)).eraseDups := by
  have hsteps := mapM_eq_ok.mp hentries
  have hspread : entries.filterMap (·.parameter.spreadFrom) = spreadsOf tables ids := by
    refine (filterMap_eq_of_forall₂ (fun id entry hstep => ?_) hsteps).symm
    rw [(Tables.entryAt_eq_ok.mp hstep).1]
    rfl
  -- One filter and one map make up the search for contributions.
  have htaken : ids.filterMap (contribution? tables ids) =
      (entries.filter fun entry =>
        !entry.schema.isConstant && !(spreadsOf tables ids).contains entry.id).map
          WireEntry.carrier := by
    rw [← List.filterMap_eq_map, List.filterMap_filter]
    refine filterMap_eq_of_forall₂ (fun id entry hstep => ?_) hsteps
    have hid := (Tables.entryAt_eq_ok.mp hstep).2.2
    simp [contribution?, hstep, hid]
  rw [htaken, derivedSignature, hspread]
  rfl

/-- Repeated parameters contribute nothing new. -/
theorem contributions_eq_of_eraseDups {ids others : List ParameterId}
    (hsame : ids.eraseDups = others.eraseDups) :
    (ids.filterMap (contribution? tables ids)).eraseDups =
      (others.filterMap (contribution? tables others)).eraseDups := by
  have hmem (id : ParameterId) : id ∈ ids ↔ id ∈ others := by
    rw [← List.mem_eraseDups, hsame, List.mem_eraseDups]
  have hspreads (id : ParameterId) : id ∈ spreadsOf tables ids ↔ id ∈ spreadsOf tables others := by
    simp only [mem_spreadsOf, hmem]
  have hcontribution : contribution? tables ids = contribution? tables others := by
    funext id
    simp only [contribution?, hspreads]
  rw [eraseDups_eq_firstOfEach, eraseDups_eq_firstOfEach, hcontribution,
    ← firstOfEach_filterMap_eraseDups id _ ids, hsame, firstOfEach_filterMap_eraseDups]

/-- The signature of a convenience method that the model does not fix. -/
theorem signature_eq_ok_iff (hderived : request.signatureParameters = [])
    {taken : List ParameterId} :
    signature tables request .convenience = .ok taken ↔
      (∃ entries, request.parameters.mapM tables.entryAt = .ok entries) ∧
        taken = (request.parameters.filterMap
          (contribution? tables request.parameters)).eraseDups := by
  unfold signature
  rw [hderived]
  constructor
  · intro h
    obtain ⟨entries, hentries, rfl⟩ := map_eq_ok.mp h
    exact ⟨⟨entries, hentries⟩, derivedSignature_eq hentries⟩
  · rintro ⟨⟨entries, hentries⟩, rfl⟩
    exact map_eq_ok.mpr ⟨entries, hentries, derivedSignature_eq hentries⟩

/-- Repeating parameters of a request leaves its signature as it is. -/
theorem signature_eq_of_eraseDups (hderived : request.signatureParameters = [])
    {ids : List ParameterId} (hsame : ids.eraseDups = request.parameters.eraseDups)
    {taken : List ParameterId} (hsignature : signature tables request .convenience = .ok taken) :
    signature tables { request with parameters := ids } .convenience = .ok taken := by
  obtain ⟨⟨entries, hentries⟩, rfl⟩ := (signature_eq_ok_iff hderived).mp hsignature
  have hfound : ∀ id ∈ ids, ∃ entry, tables.entryAt id = .ok entry := by
    intro id hid
    have hmem : id ∈ request.parameters := by
      rw [← List.mem_eraseDups, ← hsame, List.mem_eraseDups]
      exact hid
    obtain ⟨entry, -, hentry⟩ := exists_mem_of_mapM hentries hmem
    exact ⟨entry, hentry⟩
  have hderived' : ({ request with parameters := ids } : Request).signatureParameters = [] :=
    hderived
  exact (signature_eq_ok_iff hderived').mpr
    ⟨exists_mapM_eq_ok hfound, (contributions_eq_of_eraseDups hsame).symm⟩

/-- A convenience method without a fixed signature takes the arguments that the parameters of its
request contribute, and no others. Each is taken once, and they stand in the order of the positions
of their first contributors. A request with the same parameters, some of them repeated behind their
first occurrence, has the same signature, so that its method takes the same arguments. -/
theorem derived_signature (model : CodeModel) {mapper : Mapper} {operation : String}
    {request : Request} {method : ClientMethod} (hderived : request.signatureParameters = [])
    (hplan : ClientMethod.plan model.toTables mapper operation request .convenience =
      .ok method) :
    ∃ taken : List ParameterId,
      taken.mapM mapper.argument = .ok method.parameters ∧
      taken.Nodup ∧
      (∀ id, id ∈ taken ↔ ∃ contributor, request.Contributes model.toTables contributor id) ∧
      (∃ positions : List Nat, positions.Pairwise (· < ·) ∧
        List.Forall₂ (request.FirstContributes model.toTables) taken positions) ∧
      ∀ ids : List ParameterId, ids.eraseDups = request.parameters.eraseDups →
        signature model.toTables { request with parameters := ids } .convenience = .ok taken ∧
        ∀ repeated, ClientMethod.plan model.toTables mapper operation
            { request with parameters := ids } .convenience = .ok repeated →
          repeated.parameters = method.parameters := by
  obtain ⟨taken, -, hsignature, hparameters, -, -⟩ := ClientMethod.exists_offers model hplan
  obtain ⟨-, htaken⟩ := (signature_eq_ok_iff hderived).mp hsignature
  refine ⟨taken, hparameters, ?_, ?_, ?_, ?_⟩
  · rw [htaken, eraseDups_eq_firstOfEach, ← List.map_id (firstOfEach id _)]
    exact nodup_map_firstOfEach id _
  · intro id
    rw [htaken, List.mem_eraseDups, List.mem_filterMap]
    constructor
    · rintro ⟨contributor, hmem, hfound⟩
      exact ⟨contributor, (contribution?_eq_some hmem).mp hfound⟩
    · rintro ⟨contributor, hcontributes⟩
      exact ⟨contributor, hcontributes.mem,
        (contribution?_eq_some hcontributes.mem).mpr hcontributes⟩
  · obtain ⟨positions, hascending, hfirst⟩ :=
      exists_firstAt_eraseDups (contribution? model.toTables request.parameters) request.parameters
    rw [htaken]
    exact ⟨positions, hascending, hfirst.imp fun _ _ h => h.firstContributes⟩
  · intro ids hsame
    have hrepeated := signature_eq_of_eraseDups hderived hsame hsignature
    refine ⟨hrepeated, fun repeated hplan' => ?_⟩
    obtain ⟨taken', -, hsignature', hparameters', -, -⟩ := ClientMethod.exists_offers model hplan'
    cases hrepeated.symm.trans hsignature'
    exact Except.ok.inj (hparameters'.symm.trans hparameters)

/-- A request that lists a group between its members, and repeats a name. One member is constant,
and another was spread as well. -/
def listedRequest : Request := ⟨[0, 5, 1, 3, 2, 4, 1], [], none⟩

/-- The group stands behind the name, at the place of its first member that is not constant. -/
example : signature pagedModel.toTables listedRequest .convenience = .ok [1, 2] := by decide

/-- The signature of this request is derived from all of its parameters but the user and the
version. -/
theorem derived_signature_listed :
    let mapper := Mapper.ofTables pagedModel.toTables
    let method := { pagedMethod with parameters := pagedMethod.parameters.reverse }
    listedRequest.signatureParameters = [] ∧
      ClientMethod.plan pagedModel.toTables mapper "search" listedRequest .convenience =
        .ok method ∧
      ∃ taken : List ParameterId,
        taken.mapM mapper.argument = .ok method.parameters ∧
        taken.Nodup ∧
        (∀ id, id ∈ taken ↔
          ∃ contributor, listedRequest.Contributes pagedModel.toTables contributor id) ∧
        (∃ positions : List Nat, positions.Pairwise (· < ·) ∧
          List.Forall₂ (listedRequest.FirstContributes pagedModel.toTables) taken positions) ∧
        ∀ ids : List ParameterId, ids.eraseDups = listedRequest.parameters.eraseDups →
          signature pagedModel.toTables { listedRequest with parameters := ids } .convenience =
            .ok taken ∧
          ∀ repeated, ClientMethod.plan pagedModel.toTables mapper "search"
              { listedRequest with parameters := ids } .convenience = .ok repeated →
            repeated.parameters = method.parameters := by
  intro mapper method
  have hplan : ClientMethod.plan pagedModel.toTables mapper "search" listedRequest .convenience =
      .ok method := by cbv
  exact ⟨rfl, hplan, derived_signature pagedModel rfl hplan⟩

end ClientPlan
