import ClientPlan.Proofs.Offers

/-!
# The order of resolution

A registry keeps its registrations by name and sorts them by wire parameter when it resolves
them. The sort is stable, so that of one wire parameter the names stay in order. The result
depends on the registrations only: it is their one arrangement by wire parameter and then by
name.
-/

namespace ClientPlan

open Wire (Tables)

namespace Registry

/-- The order in which registrations are resolved. -/
def Precedes (left right : Registration) : Prop :=
  left.parameter < right.parameter ∨
    (left.parameter = right.parameter ∧ left.argument.name < right.argument.name)

/-- No two registrations precede each other. -/
theorem Precedes.asymm {left right : Registration} (h : Precedes left right) :
    ¬ Precedes right left := by
  rcases h with hlt | ⟨heq, hlt⟩
  · rintro (hlt' | ⟨heq', -⟩)
    · exact Nat.lt_asymm hlt hlt'
    · exact Nat.lt_irrefl _ (heq' ▸ hlt)
  · rintro (hlt' | ⟨-, hlt'⟩)
    · exact Nat.lt_irrefl _ (heq ▸ hlt')
    · exact String.lt_irrefl _ (String.lt_trans hlt hlt')

/-- Comparing registrations by their wire parameters only. -/
private def idLe (left right : Registration) : Bool := left.parameter ≤ right.parameter

private theorem idLe_trans (x y z : Registration) (h : idLe x y = true)
    (h' : idLe y z = true) : idLe x z = true :=
  decide_eq_true (Nat.le_trans (of_decide_eq_true h) (of_decide_eq_true h'))

private theorem idLe_total (x y : Registration) : (idLe x y || idLe y x) = true := by
  simpa [idLe] using Nat.le_total x.parameter y.parameter

/-- A stable sort by wire parameters refines the order of argument names it starts from. -/
private theorem pairwise_mergeSort_idLe {entries : List Registration}
    (hordered : entries.Pairwise fun left right => left.argument.name < right.argument.name) :
    (entries.mergeSort idLe).Pairwise Precedes := by
  induction entries with
  | nil => simp
  | cons entry rest ih =>
    obtain ⟨hentry, hrest⟩ := List.pairwise_cons.mp hordered
    have hsorted := List.pairwise_mergeSort idLe_trans idLe_total (entry :: rest)
    -- The first entry goes behind all smaller wire parameters, and before the equal ones.
    obtain ⟨before, after, hcons, htail, hbefore⟩ :=
      List.mergeSort_cons idLe_trans idLe_total entry rest
    have hpairwise := ih hrest
    rw [htail, List.pairwise_append] at hpairwise
    obtain ⟨hfront, hback, hcross⟩ := hpairwise
    rw [hcons, List.pairwise_append, List.pairwise_cons] at hsorted
    rw [hcons, List.pairwise_append, List.pairwise_cons]
    have hafter : ∀ other ∈ after, Precedes entry other := by
      intro other hother
      have hle : entry.parameter ≤ other.parameter :=
        of_decide_eq_true (hsorted.2.1.1 other hother)
      have hmem : other ∈ rest := by
        have hsortedMem : other ∈ rest.mergeSort idLe := htail ▸ List.mem_append_right _ hother
        exact List.mem_mergeSort.mp hsortedMem
      exact (Nat.lt_or_eq_of_le hle).imp_right fun heq => ⟨heq, hentry other hmem⟩
    refine ⟨hfront, ⟨hafter, hback⟩, fun other hother last hlast => ?_⟩
    rcases List.mem_cons.mp hlast with rfl | hlast
    · have hnle := hbefore other hother
      exact Or.inl (Nat.lt_of_not_le (by simpa [idLe] using hnle))
    · exact hcross other hother last hlast

/-- The order of resolution is that of the wire parameters, refined by argument names. -/
theorem pairwise_inWireOrder (registry : Registry) : registry.inWireOrder.Pairwise Precedes :=
  pairwise_mergeSort_idLe registry.ordered

end Registry

/-- The order by wire parameter and then by argument name. -/
def Registration.notAfter (left right : Registration) : Bool :=
  left.parameter < right.parameter ||
    (left.parameter = right.parameter && left.argument.name ≤ right.argument.name)

/-- Registrations sorted by wire parameter, and those of one parameter by argument name. -/
def wireSorted (registrations : List Registration) : List Registration :=
  registrations.mergeSort Registration.notAfter

private theorem notAfter_iff {left right : Registration} : left.notAfter right = true ↔
    left.parameter < right.parameter ∨
      (left.parameter = right.parameter ∧ left.argument.name ≤ right.argument.name) := by
  simp [Registration.notAfter]

private theorem notAfter_trans (x y z : Registration) (h : x.notAfter y = true)
    (h' : y.notAfter z = true) : x.notAfter z = true := by
  rw [notAfter_iff] at h h' ⊢
  rcases h with hlt | ⟨heq, hle⟩
  · rcases h' with hlt' | ⟨heq', -⟩
    · exact Or.inl (Nat.lt_trans hlt hlt')
    · exact Or.inl (heq' ▸ hlt)
  · rcases h' with hlt' | ⟨heq', hle'⟩
    · exact Or.inl (heq ▸ hlt')
    · exact Or.inr ⟨heq.trans heq', String.le_trans hle hle'⟩

private theorem notAfter_total (x y : Registration) : (x.notAfter y || y.notAfter x) = true := by
  rw [Bool.or_eq_true, notAfter_iff, notAfter_iff]
  rcases Nat.lt_trichotomy x.parameter y.parameter with hlt | heq | hgt
  · exact Or.inl (Or.inl hlt)
  · exact (String.le_total x.argument.name y.argument.name).imp (fun hle => Or.inr ⟨heq, hle⟩)
      fun hle => Or.inr ⟨heq.symm, hle⟩
  · exact Or.inr (Or.inl hgt)

/-- Sorting registrations of different names leaves no ties. -/
theorem pairwise_wireSorted {registrations : List Registration}
    (hnodup : (registrations.map (·.argument.name)).Nodup) :
    (wireSorted registrations).Pairwise Registry.Precedes := by
  have hsorted := List.pairwise_mergeSort notAfter_trans notAfter_total registrations
  have hperm := List.mergeSort_perm registrations Registration.notAfter
  have hnames : ((wireSorted registrations).map (·.argument.name)).Nodup :=
    (hperm.map _).nodup_iff.mpr hnodup
  refine hsorted.imp₂ (fun left right hle hne => ?_) (List.pairwise_map.mp hnames)
  refine (notAfter_iff.mp hle).imp_right fun ⟨heq, hname⟩ => ⟨heq, ?_⟩
  exact Std.lt_of_le_of_ne hname hne

/-- A registry resolves the survivors of its offers by wire parameter and then by name. -/
theorem Registry.inWireOrder_offerAll {tables : Tables} (operation : String)
    {offers : List Registration} :
    ((Registry.new operation false).offerAll tables offers).inWireOrder =
      wireSorted (surviving tables offers) := by
  have hperm : ((Registry.new operation false).offerAll tables offers).entries.Perm
      (surviving tables offers) := entries_offerAll_perm operation
  refine List.Perm.eq_of_pairwise (fun left right _ _ h h' => absurd h' h.asymm)
    (pairwise_inWireOrder _) (pairwise_wireSorted (nodup_map_lastOfEach _ _)) ?_
  exact (List.mergeSort_perm _ _).trans (hperm.trans (List.mergeSort_perm _ _).symm)

end ClientPlan
