import ClientPlan.Proofs.Coverage
import ClientPlan.Proofs.RequestOrder

/-!
# Requests that grow

What a registry makes of a request depends on the parameters of the request alone, and only in its
last step, where flattened parameters are handed on. So a request that goes on where another ends
has the transformations of that one in front, and parameters that it repeats add nothing.
-/

namespace ClientPlan

open Wire (CodeModel ParameterId Request Tables)

variable {tables : Tables} {mapper : Mapper} {request other : Request}
  {registrations : List Registration} {mappings : List Mapping}
  {arguments arguments' : List Argument}

/-- The arguments of flattened parameters that may be handed on, found one by one. -/
theorem eq_filterMap_of_unspread
    (harguments : (unspread tables request registrations).mapM mapper.argument = .ok arguments) :
    arguments = request.parameters.filterMap fun id =>
      if tables.flattens id && id ∉ wholes tables registrations then
        (mapper.argument id).toOption
      else none := by
  rw [eq_filterMap_of_mapM harguments, unspread, List.filterMap_filter]

/-- Requests with the same parameters, apart from repeated ones, hand the same arguments on. -/
theorem rebuilt_eq_of_eraseDups
    (hsame : request.parameters.eraseDups = other.parameters.eraseDups)
    (harguments : (unspread tables request registrations).mapM mapper.argument = .ok arguments)
    (harguments' : (unspread tables other registrations).mapM mapper.argument = .ok arguments') :
    Transformation.rebuilt mappings arguments = Transformation.rebuilt mappings arguments' := by
  apply Transformation.rebuilt_eq_of_firstOfEach
  rw [eq_filterMap_of_unspread harguments, eq_filterMap_of_unspread harguments',
    ← firstOfEach_filterMap_eraseDups, hsame, firstOfEach_filterMap_eraseDups]

/-- More arguments are handed on under new names, each once. -/
theorem exists_rebuilt_append (mappings : List Mapping) (arguments added : List Argument) :
    ∃ handed, Transformation.rebuilt mappings (arguments ++ added) =
        Transformation.rebuilt mappings arguments ++ handingOn handed ∧
      (handed.map (·.name)).Nodup ∧ ∀ argument ∈ handed, argument ∈ added ∧
        argument.name ∉ Transformation.names (Transformation.rebuilt mappings arguments) := by
  refine ⟨(firstOfEach Argument.name added).filter fun argument =>
      argument.name ∉ Transformation.names (Transformation.rebuilt mappings arguments),
    Transformation.rebuilt_append mappings arguments added, ?_, ?_⟩
  · have hnodup := nodup_map_firstOfEach Argument.name added
    exact (List.filter_sublist.map _).nodup hnodup
  · intro argument hmem
    obtain ⟨hpicked, hnew⟩ := List.mem_filter.mp hmem
    exact ⟨mem_of_mem_firstOfEach _ hpicked, of_decide_eq_true hnew⟩

/-- An argument that is handed on in addition is that of a parameter that was added, and that did
not occur before. -/
theorem exists_added_of_mem_handed {more : List ParameterId} {added : List Argument}
    {argument : Argument}
    (harguments : (unspread tables request registrations).mapM mapper.argument = .ok arguments)
    (hadded : (more.filter fun id => tables.flattens id && id ∉ wholes tables registrations).mapM
      mapper.argument = .ok added)
    (hmem : argument ∈ added)
    (hnew : argument.name ∉ Transformation.names (Transformation.rebuilt mappings arguments)) :
    ∃ id ∈ more, id ∉ request.parameters ∧ tables.flattens id = true ∧
      mapper.argument id = .ok argument := by
  obtain ⟨id, hid, hargument⟩ := exists_of_mem_mapM hadded hmem
  obtain ⟨hmore, hkept⟩ := List.mem_filter.mp hid
  have hflattened : tables.flattens id = true := by
    rw [Bool.and_eq_true] at hkept
    exact hkept.1
  refine ⟨id, hmore, ?_, hflattened, hargument⟩
  intro hbefore
  -- Otherwise the argument was already there to be handed on.
  obtain ⟨argument', hmem', hargument'⟩ :=
    exists_mem_of_mapM harguments (List.mem_filter.mpr ⟨hbefore, hkept⟩)
  cases hargument.symm.trans hargument'
  apply hnew
  exact Transformation.mem_names_rebuilt.mpr (Or.inr (List.mem_map_of_mem hmem'))

namespace Registry

variable (model : CodeModel) {registry : Registry}

/-- Parameters of a request that resolves can be handed on. -/
theorem exists_unspread_arguments (hmapper : mapper.Describes model.toTables)
    (hrequest : request.Resolves model.toTables) (registrations : List Registration) :
    ∃ arguments, (unspread model.toTables request registrations).mapM mapper.argument =
      .ok arguments :=
  exists_mapM_eq_ok fun id hid =>
    hmapper.argument id (hrequest.parameters id (List.mem_of_mem_filter hid))

/-- Nothing but the parameters of a request has any influence on its transformations, and of
repeated ones only the first. -/
theorem transformations_eq_of_eraseDups (hmapper : mapper.Describes model.toTables)
    (hwithin : registry.Within model.toTables) (hrequest : request.Resolves model.toTables)
    (hother : other.Resolves model.toTables)
    (hsame : request.parameters.eraseDups = other.parameters.eraseDups) :
    registry.transformations model.toTables mapper request =
      registry.transformations model.toTables mapper other := by
  cases hkind : registry.isProtocol with
  | true => rw [transformations_eq_nil hkind hrequest, transformations_eq_nil hkind hother]
  | false =>
    obtain ⟨arguments, harguments⟩ :=
      exists_unspread_arguments model hmapper hrequest registry.entries
    obtain ⟨arguments', harguments'⟩ :=
      exists_unspread_arguments model hmapper hother registry.entries
    rw [transformations_eq model hkind hwithin hrequest,
      transformations_eq model hkind hwithin hother]
    refine bind_congr_of_ok rfl fun mappings _ => ?_
    rw [harguments, harguments']
    exact congrArg Except.ok (rebuilt_eq_of_eraseDups hsame harguments harguments')

/-- A request that goes on where another ends fails as that one does. Or it has the same
transformations, and behind them hands on parameters that were added, under new names. -/
theorem transformations_append (hmapper : mapper.Describes model.toTables)
    (hwithin : registry.Within model.toTables) (hrequest : request.Resolves model.toTables)
    (hother : other.Resolves model.toTables) {more : List ParameterId}
    (hparameters : other.parameters = request.parameters ++ more) :
    (∃ error, registry.transformations model.toTables mapper request = .error error ∧
      registry.transformations model.toTables mapper other = .error error) ∨
    ∃ (transformations : List Transformation) (handed : List Argument),
      registry.transformations model.toTables mapper request = .ok transformations ∧
      registry.transformations model.toTables mapper other =
        .ok (transformations ++ handingOn handed) ∧
      (handed.map (·.name)).Nodup ∧
      ∀ argument ∈ handed, argument.name ∉ Transformation.names transformations ∧
        ∃ id ∈ more, id ∉ request.parameters ∧ model.toTables.flattens id = true ∧
          mapper.argument id = .ok argument := by
  cases hkind : registry.isProtocol with
  | true =>
    refine Or.inr ⟨[], [], transformations_eq_nil hkind hrequest,
      transformations_eq_nil hkind hother, List.nodup_nil, ?_⟩
    exact fun argument hmem => absurd hmem List.not_mem_nil
  | false =>
    rw [transformations_eq model hkind hwithin hrequest,
      transformations_eq model hkind hwithin hother]
    cases hmappings : registry.inWireOrder.mapM
        (·.mapping model.toTables mapper registry.operation) with
    | error error => exact Or.inl ⟨error, rfl, rfl⟩
    | ok mappings =>
      obtain ⟨arguments, harguments⟩ :=
        exists_unspread_arguments model hmapper hrequest registry.entries
      -- What may be handed on of the longer request splits in the same place.
      have hsplit : unspread model.toTables other registry.entries =
          unspread model.toTables request registry.entries ++ more.filter fun id =>
            model.toTables.flattens id && id ∉ wholes model.toTables registry.entries := by
        rw [unspread, hparameters, List.filter_append, unspread]
      obtain ⟨added, hadded⟩ := exists_mapM_eq_ok fun id hid =>
        hmapper.argument id (hother.parameters id (hparameters ▸
          List.mem_append_right request.parameters (List.mem_of_mem_filter hid)))
      obtain ⟨handed, happended, hnodup, hhanded⟩ := exists_rebuilt_append mappings arguments added
      have hrun : (unspread model.toTables other registry.entries).mapM mapper.argument =
          .ok (arguments ++ added) := by
        rw [hsplit, List.mapM_append]
        exact bind_eq_ok.mpr ⟨arguments, harguments, bind_eq_ok.mpr ⟨added, hadded, rfl⟩⟩
      refine Or.inr ⟨Transformation.rebuilt mappings arguments, handed, ?_, ?_, hnodup, ?_⟩
      · exact bind_eq_ok.mpr ⟨mappings, rfl, bind_eq_ok.mpr ⟨arguments, harguments, rfl⟩⟩
      · rw [← happended]
        exact bind_eq_ok.mpr ⟨mappings, rfl, bind_eq_ok.mpr ⟨_, hrun, rfl⟩⟩
      · intro argument hmem
        obtain ⟨hmemAdded, hnew⟩ := hhanded argument hmem
        exact ⟨hnew, exists_added_of_mem_handed harguments hadded hmemAdded hnew⟩

end Registry

/-- After every run of offers, requests that pass their checks are treated alike as far as their
parameters go. If the parameters of one are those of another with more behind them, then either both
fail in the same way. Or the transformations of the longer one are those of the shorter one, and
behind these some that hand on flattened parameters, under new names, which occur among the
parameters that were added and not before. Requests whose parameters are the same, apart from
repeated ones, have the same transformations, whatever their signatures and their bindings are. -/
theorem transformations_offerAll_append (model : CodeModel) {mapper : Mapper}
    (hmapper : mapper.Describes model.toTables) (operation : String) (isProtocol : Bool)
    (offers : List Registration) {request longer : Request}
    (hcheck : model.checkRequest operation request = .ok ())
    (hcheck' : model.checkRequest operation longer = .ok ()) {more : List ParameterId}
    (hparameters : longer.parameters = request.parameters ++ more) :
    let registry := (Registry.new operation isProtocol).offerAll model.toTables offers
    let run := registry.transformations model.toTables mapper
    ((∃ error, run request = .error error ∧ run longer = .error error) ∨
      ∃ (transformations : List Transformation) (handed : List Argument),
        run request = .ok transformations ∧
        run longer = .ok (transformations ++ handingOn handed) ∧
        (handed.map (·.name)).Nodup ∧
        ∀ argument ∈ handed, argument.name ∉ Transformation.names transformations ∧
          ∃ id ∈ more, id ∉ request.parameters ∧ model.toTables.flattens id = true ∧
            mapper.argument id = .ok argument) ∧
    ∀ other : Request, model.checkRequest operation other = .ok () →
      other.parameters.eraseDups = longer.parameters.eraseDups → run other = run longer := by
  intro registry run
  have hwithin : registry.Within model.toTables :=
    Registry.within_offerAll operation isProtocol offers
  have hrequest := Tables.checkRequest_eq_ok.mp hcheck
  have hlonger := Tables.checkRequest_eq_ok.mp hcheck'
  constructor
  · exact Registry.transformations_append model hmapper hwithin hrequest hlonger hparameters
  · intro other hcheckOther hsame
    have hother := Tables.checkRequest_eq_ok.mp hcheckOther
    exact Registry.transformations_eq_of_eraseDups model hmapper hwithin hother hlonger hsame

/-- A request without settings. -/
def plainRequest : Request := ⟨[0, 1], [], none⟩

/-- The same request with settings behind it, which it repeats, together with the user. It is bound
to a method and has a fixed signature. -/
def grownRequest : Request :=
  ⟨[0, 1, 3, 0, 3], [2], some ⟨some ⟨some .post, some "/users", none, none⟩⟩⟩

/-- The grown request has the transformation of the user in front. -/
theorem transformations_offerAll_append_user :
    let mapper := Mapper.ofTables userModel.toTables
    let registry := (Registry.new "addUser" false).offerAll userModel.toTables userOffers
    let run := registry.transformations userModel.toTables mapper
    let transformations := userMethod.transformations.take 1
    mapper.Describes userModel.toTables ∧
      userModel.checkRequest "addUser" plainRequest = .ok () ∧
      userModel.checkRequest "addUser" grownRequest = .ok () ∧
      grownRequest.parameters = plainRequest.parameters ++ [3, 0, 3] ∧
      run plainRequest = .ok transformations ∧
      (∃ handed : List Argument,
        run grownRequest = .ok (transformations ++ handingOn handed) ∧
        (handed.map (·.name)).Nodup ∧
        ∀ argument ∈ handed, argument.name ∉ Transformation.names transformations ∧
          ∃ id ∈ [3, 0, 3], id ∉ plainRequest.parameters ∧
            userModel.toTables.flattens id = true ∧ mapper.argument id = .ok argument) ∧
      ∀ other : Request, userModel.checkRequest "addUser" other = .ok () →
        other.parameters.eraseDups = grownRequest.parameters.eraseDups →
          run other = run grownRequest := by
  intro mapper registry run transformations
  have hplain : ((Registry.new "addUser" false).offerAll userModel.toTables
      userOffers).transformations userModel.toTables (.ofTables userModel.toTables) plainRequest =
        .ok (userMethod.transformations.take 1) := by cbv
  have hcheck : userModel.checkRequest "addUser" plainRequest = .ok () := rfl
  have hcheck' : userModel.checkRequest "addUser" grownRequest = .ok () := rfl
  have hparameters : grownRequest.parameters = plainRequest.parameters ++ [3, 0, 3] := rfl
  obtain ⟨happended, hsame⟩ := transformations_offerAll_append userModel userModel.describes
    "addUser" false userOffers hcheck hcheck' hparameters
  refine ⟨userModel.describes, hcheck, hcheck', hparameters, hplain, ?_, hsame⟩
  rcases happended with ⟨error, herror, -⟩ | ⟨found, handed, hfound, hgrown, hnodup, hhanded⟩
  · cases hplain.symm.trans herror
  · cases hplain.symm.trans hfound
    exact ⟨handed, hgrown, hnodup, hhanded⟩

end ClientPlan
