import ClientPlan.Proofs.Planning

/-!
# The state of a registry

A registry is a map from argument names to registrations. After a run of offers it holds under
each name the last offer of that name that was accepted. Offers that are skipped or that fail
leave no trace, and offers of different names may come in any order.
-/

namespace ClientPlan

open Wire (CodeModel Tables)

namespace Registration

/-- An offer is accepted if it was made from a grouped or spread parameter of the tables that is
not constant, and the method does not take wire values directly. -/
def isAccepted (tables : Tables) (isProtocol : Bool) (offered : Registration) : Bool :=
  !isProtocol && tables.accepts offered.parameter

/-- The last offer of an argument name. -/
def lastNamed? (name : String) (offers : List Registration) : Option Registration :=
  (offers.filter fun offered => offered.argument.name = name).getLast?

/-- Of the accepted offers of each argument name the last. -/
def lastAccepted (tables : Tables) (isProtocol : Bool) (offers : List Registration) :
    List Registration :=
  lastOfEach (·.argument.name) (offers.filter (·.isAccepted tables isProtocol))

variable {tables : Tables} {isProtocol : Bool} {offers : List Registration}
  {registration : Registration}

/-- An offer is the last accepted one of its name. -/
theorem mem_lastAccepted_iff : registration ∈ lastAccepted tables isProtocol offers ↔
    lastNamed? registration.argument.name (offers.filter (·.isAccepted tables isProtocol)) =
      some registration :=
  mem_lastOfEach _

/-- If different offers have different argument names, each accepted one is the last of its
name. -/
theorem mem_lastAccepted_of_forall_ne
    (hnames : ∀ left ∈ offers, ∀ right ∈ offers, left ≠ right →
      left.argument.name ≠ right.argument.name) :
    registration ∈ lastAccepted tables isProtocol offers ↔
      registration ∈ offers ∧ registration.isAccepted tables isProtocol = true := by
  rw [← List.mem_filter]
  refine ⟨mem_of_mem_lastOfEach _, fun hmem => ?_⟩
  -- The last accepted offer of this name can be no other one.
  have hname : registration.argument.name ∈
      (lastAccepted tables isProtocol offers).map (·.argument.name) := by
    rw [lastAccepted, map_lastOfEach, List.mem_dedup]
    exact List.mem_map_of_mem hmem
  obtain ⟨last, hlast, heq⟩ := List.mem_map.mp hname
  by_cases hsame : last = registration
  · exact hsame ▸ hlast
  · have hoffered := List.mem_of_mem_filter (mem_of_mem_lastOfEach _ hlast)
    exact absurd heq (hnames last hoffered registration (List.mem_of_mem_filter hmem) hsame)

end Registration

open Registration (lastAccepted lastNamed?)

namespace Registry

variable {tables : Tables} {registry : Registry} {registration offered : Registration}

/-- The registration under an argument name. -/
def find? (registry : Registry) (name : String) : Option Registration :=
  registry.entries.find? fun registration => registration.argument.name = name

/-- A registration is found under its own name and under no other. -/
theorem find?_eq_some_iff {name : String} : registry.find? name = some registration ↔
    registration ∈ registry.entries ∧ registration.argument.name = name := by
  unfold find?
  constructor
  · intro h
    exact ⟨List.mem_of_find?_eq_some h, by simpa using List.find?_some h⟩
  · rintro ⟨hmem, hname⟩
    cases hfound : registry.entries.find? fun other => other.argument.name = name with
    | none => exact absurd hname (by simpa using List.find?_eq_none.mp hfound registration hmem)
    | some other =>
      have hother : other.argument.name = name := by simpa using List.find?_some hfound
      exact congrArg some (List.inj_on_of_nodup_map registry.nodup_names
        (List.mem_of_find?_eq_some hfound) hmem (hother.trans hname.symm))

/-- A registry is determined by its method and by which registrations it has. -/
theorem eq_of_perm {left right : Registry} (hoperation : left.operation = right.operation)
    (hkind : left.isProtocol = right.isProtocol) (hperm : left.entries.Perm right.entries) :
    left = right := by
  have hentries : left.entries = right.entries :=
    hperm.eq_of_pairwise (fun _ _ _ _ hlt hgt => absurd hgt (String.lt_asymm hlt))
      left.ordered right.ordered
  obtain ⟨_, _, _, _⟩ := left
  obtain ⟨_, _, _, _⟩ := right
  congr

/-- An offer that is not accepted leaves the registry as it is. -/
theorem offer_eq_self_of_not_isAccepted
    (h : offered.isAccepted tables registry.isProtocol = false) :
    registry.offer tables offered = registry := by
  unfold Registration.isAccepted at h
  cases hkind : registry.isProtocol with
  | true => exact offer_eq_self hkind
  | false =>
    rw [hkind, Bool.not_false, Bool.true_and] at h
    rw [offer_eq hkind, h, if_neg Bool.false_ne_true]

/-- An offer fails exactly when it was made from no parameter of the code model. -/
theorem add_eq (model : CodeModel) (registry : Registry) (offered : Registration) :
    registry.add model.toTables offered.argument offered.parameter =
      if offered.parameter < model.parameters.length then
        .ok (registry.offer model.toTables offered)
      else .error (.unknownParameter registry.operation offered.parameter) := by
  split
  next hlt =>
    obtain ⟨entry, hentry⟩ := model.exists_entryAt hlt
    simp only [offer, add_eq_ok hentry]
  next hnlt =>
    simp only [add, List.getElem?_eq_none (Nat.le_of_not_lt hnlt)]

/-- A run of offers leaves the last accepted offer of each name, whatever the kind of the method. -/
theorem entries_perm_lastAccepted (operation : String) (isProtocol : Bool)
    (offers : List Registration) :
    ((Registry.new operation isProtocol).offerAll tables offers).entries.Perm
      (lastAccepted tables isProtocol offers) := by
  cases isProtocol with
  | true =>
    rw [offerAll_eq_self rfl]
    simp [Registry.new, lastAccepted, Registration.isAccepted]
  | false => exact entries_offerAll_perm operation

/-- A run of offers leaves under each name the last accepted offer of that name. -/
theorem find?_offerAll (operation : String) (isProtocol : Bool) (offers : List Registration)
    (name : String) :
    ((Registry.new operation isProtocol).offerAll tables offers).find? name =
      lastNamed? name (offers.filter (·.isAccepted tables isProtocol)) := by
  ext registration
  rw [find?_eq_some_iff, (entries_perm_lastAccepted operation isProtocol offers).mem_iff,
    Registration.mem_lastAccepted_iff]
  constructor
  · rintro ⟨hlast, rfl⟩
    exact hlast
  · intro hlast
    have hname : registration.argument.name = name := by
      simpa using (List.mem_filter.mp (List.mem_of_getLast? hlast)).2
    exact ⟨hname ▸ hlast, hname⟩

/-- A run of offers leaves one registration for each name of its accepted offers. -/
theorem size_offerAll (operation : String) (isProtocol : Bool) (offers : List Registration) :
    ((Registry.new operation isProtocol).offerAll tables offers).size =
      ((offers.filter (·.isAccepted tables isProtocol)).map (·.argument.name)).dedup.length := by
  rw [size, (entries_perm_lastAccepted operation isProtocol offers).length_eq, lastAccepted,
    ← map_lastOfEach, List.length_map]

/-- A run of offers leaves nothing registered exactly when it has no accepted offer. -/
theorem isEmpty_offerAll (operation : String) (isProtocol : Bool) (offers : List Registration) :
    ((Registry.new operation isProtocol).offerAll tables offers).isEmpty = true ↔
      offers.filter (·.isAccepted tables isProtocol) = [] := by
  rw [isEmpty, List.isEmpty_iff_length_eq_zero, ← size, size_offerAll, List.length_eq_zero_iff,
    List.dedup_eq_nil, List.map_eq_nil_iff]

/-- Runs of the same offers in different orders leave the same registry, if different offers have
different argument names. -/
theorem offerAll_eq_of_perm (operation : String) (isProtocol : Bool)
    {before after : List Registration} (hperm : before.Perm after)
    (hnames : ∀ left ∈ before, ∀ right ∈ before, left ≠ right →
      left.argument.name ≠ right.argument.name) :
    (Registry.new operation isProtocol).offerAll tables before =
      (Registry.new operation isProtocol).offerAll tables after := by
  have hnames' : ∀ left ∈ after, ∀ right ∈ after, left ≠ right →
      left.argument.name ≠ right.argument.name := fun left hleft right hright =>
    hnames left (hperm.mem_iff.mpr hleft) right (hperm.mem_iff.mpr hright)
  obtain ⟨hoperation, hkind⟩ := offerAll_keeps tables (Registry.new operation isProtocol) before
  obtain ⟨hoperation', hkind'⟩ := offerAll_keeps tables (Registry.new operation isProtocol) after
  refine eq_of_perm (hoperation.trans hoperation'.symm) (hkind.trans hkind'.symm)
    ((List.perm_ext_iff_of_nodup (nodup_entries _) (nodup_entries _)).mpr fun registration => ?_)
  rw [(entries_perm_lastAccepted operation isProtocol before).mem_iff,
    (entries_perm_lastAccepted operation isProtocol after).mem_iff,
    Registration.mem_lastAccepted_of_forall_ne hnames,
    Registration.mem_lastAccepted_of_forall_ne hnames', hperm.mem_iff]

end Registry

/-- The registry of a method after a run of offers holds under each name the last accepted offer
of that name, and nothing under other names. It has as many registrations as its accepted offers
have names, and is empty exactly if there was none. The next offer fails exactly when it was made
from no parameter of the code model, whatever the kind of the method, and it changes nothing unless
it is accepted. -/
theorem state_offerAll (model : CodeModel) (operation : String) (isProtocol : Bool)
    (offers : List Registration) :
    let registry := (Registry.new operation isProtocol).offerAll model.toTables offers
    let accepted := offers.filter (·.isAccepted model.toTables isProtocol)
    (∀ name, registry.find? name = lastNamed? name accepted) ∧
    registry.size = (accepted.map (·.argument.name)).dedup.length ∧
    (registry.isEmpty = true ↔ accepted = []) ∧
    ∀ offered : Registration,
      (registry.add model.toTables offered.argument offered.parameter =
        if offered.parameter < model.parameters.length then
          .ok (registry.offer model.toTables offered)
        else .error (.unknownParameter operation offered.parameter)) ∧
      (offered.isAccepted model.toTables isProtocol = false →
        registry.offer model.toTables offered = registry) := by
  intro registry accepted
  have hkeeps := Registry.offerAll_keeps model.toTables (Registry.new operation isProtocol) offers
  have hoperation : registry.operation = operation := hkeeps.1
  have hkind : registry.isProtocol = isProtocol := hkeeps.2
  refine ⟨Registry.find?_offerAll operation isProtocol offers,
    Registry.size_offerAll operation isProtocol offers,
    Registry.isEmpty_offerAll operation isProtocol offers, fun offered => ⟨?_, fun hskipped => ?_⟩⟩
  · have hadd := Registry.add_eq model registry offered
    rwa [hoperation] at hadd
  · apply Registry.offer_eq_self_of_not_isAccepted
    rwa [hkind]

/-- Two of these offers have the same name, with one that is skipped and one that fails behind them.
The later one is found. -/
example : ((Registry.new "addUser" false).offerAll userModel.toTables userOffers).find? "name" =
    some ⟨textArgument "name", 1⟩ := by cbv

/-- If different offers have different argument names, their order matters for nothing: whatever
the mapper and the request, the registry returns the same transformations or fails in the same
way. -/
theorem transformations_offerAll_perm (model : CodeModel) (operation : String) (isProtocol : Bool)
    {before after : List Registration} (hperm : before.Perm after)
    (hnames : ∀ left ∈ before, ∀ right ∈ before, left ≠ right →
      left.argument.name ≠ right.argument.name) :
    ((Registry.new operation isProtocol).offerAll model.toTables before).size =
        ((Registry.new operation isProtocol).offerAll model.toTables after).size ∧
      ∀ mapper request,
        ((Registry.new operation isProtocol).offerAll model.toTables before).transformations
            model.toTables mapper request =
          ((Registry.new operation isProtocol).offerAll model.toTables after).transformations
            model.toTables mapper request := by
  rw [Registry.offerAll_eq_of_perm operation isProtocol hperm hnames]
  exact ⟨rfl, fun _ _ => rfl⟩

/-- Offers of different names. Two were made from the same parameter, one is skipped and one
fails. -/
def namedOffers : List Registration :=
  [⟨textArgument "years", 2⟩, ⟨textArgument "settings", 3⟩, ⟨textArgument "name", 1⟩,
    ⟨textArgument "ghost", 9⟩, ⟨textArgument "age", 2⟩]

/-- These offers may be made in the opposite order. -/
theorem transformations_offerAll_perm_reverse :
    namedOffers.Perm namedOffers.reverse ∧
      (∀ left ∈ namedOffers, ∀ right ∈ namedOffers, left ≠ right →
        left.argument.name ≠ right.argument.name) ∧
      ((Registry.new "addUser" false).offerAll userModel.toTables namedOffers).size =
        ((Registry.new "addUser" false).offerAll userModel.toTables namedOffers.reverse).size ∧
      ∀ mapper request,
        ((Registry.new "addUser" false).offerAll userModel.toTables namedOffers).transformations
            userModel.toTables mapper request =
          ((Registry.new "addUser" false).offerAll userModel.toTables
            namedOffers.reverse).transformations userModel.toTables mapper request := by
  have hperm : namedOffers.Perm namedOffers.reverse := namedOffers.reverse_perm.symm
  have hnames : ∀ left ∈ namedOffers, ∀ right ∈ namedOffers, left ≠ right →
      left.argument.name ≠ right.argument.name := by decide
  exact ⟨hperm, hnames, transformations_offerAll_perm userModel "addUser" false hperm hnames⟩

end ClientPlan
