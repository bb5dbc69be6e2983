import Mathlib.Data.List.Dedup
import Mathlib.Data.List.Forall2
import Mathlib.Data.List.Induction

/-!
# The first and the last of each key

Registrations replace earlier ones of the same name, and records keep the first output of
theirs. Both pick one element for each key of a list: the last one here, the first one
there. What adding one more element at the end does to the pick is all that the
induction over a run needs.
-/

namespace ClientPlan

variable {α κ : Type} [DecidableEq κ] (key : α → κ)

/-- Of the elements with one key the last, in the order of the list. -/
def lastOfEach (xs : List α) : List α := xs.pwFilter fun left right => key left ≠ key right

/-- Of the elements with one key the first, in the order of the list. -/
def firstOfEach (xs : List α) : List α := (lastOfEach key xs.reverse).reverse

/-- Nothing is picked from nothing. -/
@[simp] theorem lastOfEach_nil : lastOfEach key [] = [] := rfl

/-- Nothing is picked from nothing. -/
@[simp] theorem firstOfEach_nil : firstOfEach key [] = [] := rfl

/-- An element in front is kept unless its key occurs again. -/
theorem lastOfEach_cons (x : α) (xs : List α) :
    lastOfEach key (x :: xs) =
      if key x ∈ xs.map key then lastOfEach key xs else x :: lastOfEach key xs := by
  have hneg (y z w : α) (h : key y ≠ key w) : key y ≠ key z ∨ key z ≠ key w := by
    by_cases heq : key y = key z
    · exact Or.inr (heq ▸ h)
    · exact Or.inl heq
  have hiff := List.forall_mem_pwFilter (R := fun left right => key left ≠ key right)
    (fun {y z w} => hneg y z w) x xs
  unfold lastOfEach
  split
  next hmem =>
    obtain ⟨y, hy, heq⟩ := List.mem_map.mp hmem
    exact List.pwFilter_cons_of_neg fun hall => hiff.mp hall y hy heq.symm
  next hnot =>
    refine List.pwFilter_cons_of_pos (hiff.mpr fun y hy heq => hnot ?_)
    exact heq ▸ List.mem_map_of_mem hy

/-- An element at the end replaces the one that had its key. -/
theorem lastOfEach_concat (xs : List α) (x : α) :
    lastOfEach key (xs ++ [x]) =
      (lastOfEach key xs).filter (fun other => key other ≠ key x) ++ [x] := by
  induction xs with
  | nil => simp [lastOfEach_cons]
  | cons y ys ih =>
    rw [List.cons_append, lastOfEach_cons, lastOfEach_cons, ih]
    by_cases hys : key y ∈ ys.map key
    · have hmem : key y ∈ (ys ++ [x]).map key := by
        rw [List.map_append]
        exact List.mem_append_left _ hys
      rw [if_pos hmem, if_pos hys]
    · by_cases heq : key y = key x
      · have hmem : key y ∈ (ys ++ [x]).map key := by simp [heq]
        rw [if_pos hmem, if_neg hys, List.filter_cons_of_neg (by simp [heq])]
      · have hnot : key y ∉ (ys ++ [x]).map key := by
          rw [List.map_append, List.mem_append]
          rintro (h | h)
          · exact hys h
          · exact heq (List.mem_singleton.mp h)
        rw [if_neg hnot, if_neg hys, List.filter_cons_of_pos (by simp [heq]), List.cons_append]

/-- The picked elements are among those of the list. -/
theorem mem_of_mem_lastOfEach {xs : List α} {x : α} (h : x ∈ lastOfEach key xs) : x ∈ xs :=
  List.pwFilter_subset xs h

/-- An element is picked exactly when it is the last one with its key. -/
theorem mem_lastOfEach {xs : List α} {x : α} :
    x ∈ lastOfEach key xs ↔ (xs.filter fun other => key other = key x).getLast? = some x := by
  induction xs using List.reverseRecOn with
  | nil => simp
  | append_singleton xs y ih =>
    rw [lastOfEach_concat, List.mem_append, List.mem_filter, List.mem_singleton, ih,
      List.filter_append]
    by_cases heq : key y = key x
    · simp [heq, eq_comm]
    · have hne : x ≠ y := fun h => heq (h ▸ rfl)
      simp [heq, hne, Ne.symm heq]

/-- The picked elements have different keys. -/
theorem nodup_map_lastOfEach (xs : List α) : ((lastOfEach key xs).map key).Nodup :=
  List.pairwise_map.mpr (List.pairwise_pwFilter xs)

/-- An element at the end is new unless its key occurred before. -/
theorem firstOfEach_concat (xs : List α) (x : α) :
    firstOfEach key (xs ++ [x]) =
      if key x ∈ xs.map key then firstOfEach key xs else firstOfEach key xs ++ [x] := by
  have hmem : key x ∈ xs.reverse.map key ↔ key x ∈ xs.map key := by simp
  unfold firstOfEach
  rw [List.reverse_append, List.reverse_singleton, List.singleton_append, lastOfEach_cons]
  simp only [hmem]
  split <;> simp

/-- The picked elements are among those of the list. -/
theorem mem_of_mem_firstOfEach {xs : List α} {x : α} (h : x ∈ firstOfEach key xs) : x ∈ xs :=
  List.mem_reverse.mp (mem_of_mem_lastOfEach key (List.mem_reverse.mp h))

/-- The picked elements have different keys. -/
theorem nodup_map_firstOfEach (xs : List α) : ((firstOfEach key xs).map key).Nodup := by
  unfold firstOfEach
  rw [List.map_reverse, List.nodup_reverse]
  exact nodup_map_lastOfEach key _

/-- Every key of the list is the key of a picked element. -/
theorem mem_map_firstOfEach {xs : List α} {k : κ} :
    k ∈ (firstOfEach key xs).map key ↔ k ∈ xs.map key := by
  induction xs using List.reverseRecOn with
  | nil => simp
  | append_singleton xs x ih =>
    rw [firstOfEach_concat]
    split
    next hmem =>
      rw [ih, List.map_append, List.mem_append]
      exact ⟨Or.inl, fun h => h.elim id fun h => List.mem_singleton.mp h ▸ hmem⟩
    next =>
      rw [List.map_append, List.map_append, List.mem_append, List.mem_append, ih]

/-- An element is picked if no earlier one has its key. -/
theorem mem_firstOfEach_of_forall_ne {before after : List α} {x : α}
    (h : ∀ y ∈ before, key y ≠ key x) : x ∈ firstOfEach key (before ++ x :: after) := by
  induction after using List.reverseRecOn with
  | nil =>
    have hnew : key x ∉ before.map key := by
      intro hmem
      obtain ⟨y, hy, heq⟩ := List.mem_map.mp hmem
      exact h y hy heq
    rw [firstOfEach_concat, if_neg hnew]
    exact List.mem_concat_self
  | append_singleton after y ih =>
    rw [← List.cons_append, ← List.append_assoc, firstOfEach_concat]
    split
    · exact ih
    · exact List.mem_append_left _ ih

/-- Where alike elements are equal, each of them is picked. -/
theorem mem_firstOfEach_iff {xs : List α} (h : ∀ x ∈ xs, ∀ y ∈ xs, key x = key y → x = y) {x : α} :
    x ∈ firstOfEach key xs ↔ x ∈ xs := by
  refine ⟨mem_of_mem_firstOfEach key, fun hx => ?_⟩
  obtain ⟨y, hy, hkey⟩ := List.mem_map.mp ((mem_map_firstOfEach key).mpr (List.mem_map_of_mem hx))
  rwa [← h y (mem_of_mem_firstOfEach key hy) x hx hkey]

/-- Where alike elements are equal, those of a list in another order are the same up to order. -/
theorem firstOfEach_perm {xs ys : List α} (hperm : xs.Perm ys)
    (h : ∀ x ∈ xs, ∀ y ∈ xs, key x = key y → x = y) :
    (firstOfEach key xs).Perm (firstOfEach key ys) := by
  have h' : ∀ x ∈ ys, ∀ y ∈ ys, key x = key y → x = y := fun x hx y hy =>
    h x (hperm.mem_iff.mpr hx) y (hperm.mem_iff.mpr hy)
  refine (List.perm_ext_iff_of_nodup (nodup_map_firstOfEach key xs).of_map
    (nodup_map_firstOfEach key ys).of_map).mpr fun x => ?_
  rw [mem_firstOfEach_iff key h, mem_firstOfEach_iff key h', hperm.mem_iff]

/-- Dropping repeated elements keeps the first of each. -/
theorem eraseDups_eq_firstOfEach (ks : List κ) : ks.eraseDups = firstOfEach id ks := by
  induction ks using List.reverseRecOn with
  | nil => rfl
  | append_singleton ks k ih =>
    rw [firstOfEach_concat, List.map_id, List.eraseDups_append, ih, id_eq]
    by_cases hmem : k ∈ ks
    · simp [List.removeAll, hmem]
    · simp [List.removeAll, hmem, List.eraseDups_cons]

/-- Elements that are found from repeated ones bring no new key. -/
theorem firstOfEach_filterMap_eraseDups {β : Type} [DecidableEq β] (f : β → Option α)
    (xs : List β) :
    firstOfEach key (xs.eraseDups.filterMap f) = firstOfEach key (xs.filterMap f) := by
  rw [eraseDups_eq_firstOfEach]
  induction xs using List.reverseRecOn with
  | nil => rfl
  | append_singleton xs x ih =>
    have hkeys (k : κ) : k ∈ ((firstOfEach id xs).filterMap f).map key ↔
        k ∈ (xs.filterMap f).map key := by
      rw [← mem_map_firstOfEach, ih, mem_map_firstOfEach]
    rw [firstOfEach_concat, List.map_id, id_eq, List.filterMap_append]
    cases hfound : f x with
    | none =>
      have hnone : [x].filterMap f = [] := by simp [hfound]
      by_cases hmem : x ∈ xs
      · rw [if_pos hmem, ih, hnone, List.append_nil]
      · rw [if_neg hmem, List.filterMap_append, hnone, List.append_nil, List.append_nil, ih]
    | some y =>
      have hone : [x].filterMap f = [y] := by simp [hfound]
      by_cases hmem : x ∈ xs
      · have hknown : key y ∈ (xs.filterMap f).map key :=
          List.mem_map_of_mem (List.mem_filterMap.mpr ⟨x, hmem, hfound⟩)
        rw [if_pos hmem, hone, firstOfEach_concat, if_pos hknown, ih]
      · rw [if_neg hmem, List.filterMap_append, hone, firstOfEach_concat, firstOfEach_concat, ih]
        simp only [hkeys]

/-- The keys of the picked elements are all keys, each once. -/
theorem map_lastOfEach (xs : List α) : (lastOfEach key xs).map key = (xs.map key).dedup := by
  induction xs with
  | nil => rfl
  | cons x xs ih =>
    rw [lastOfEach_cons, List.map_cons]
    split
    next hmem => rw [ih, List.dedup_cons_of_mem hmem]
    next hnot => rw [List.map_cons, ih, List.dedup_cons_of_notMem hnot]

/-- Keys that agree on which elements are alike pick the same elements. -/
theorem lastOfEach_congr {κ' : Type} [DecidableEq κ'] {key' : α → κ'} {xs : List α}
    (h : ∀ x ∈ xs, ∀ y ∈ xs, key x = key y ↔ key' x = key' y) :
    lastOfEach key xs = lastOfEach key' xs := by
  induction xs with
  | nil => rfl
  | cons x xs ih =>
    have hrest := ih fun y hy z hz => h y (List.mem_cons_of_mem _ hy) z (List.mem_cons_of_mem _ hz)
    have hmem : key x ∈ xs.map key ↔ key' x ∈ xs.map key' := by
      have hiff (y : α) (hy : y ∈ xs) : key y = key x ↔ key' y = key' x :=
        h y (List.mem_cons_of_mem _ hy) x List.mem_cons_self
      simp only [List.mem_map]
      exact exists_congr fun y => and_congr_right fun hy => hiff y hy
    simp only [lastOfEach_cons, hmem, hrest]

/-- Picking respects a relation under which related elements have the same key. -/
theorem forall₂_lastOfEach {β : Type} {key' : β → κ} {R : α → β → Prop}
    (hkey : ∀ x y, R x y → key x = key' y) {xs : List α} {ys : List β}
    (h : List.Forall₂ R xs ys) :
    List.Forall₂ R (lastOfEach key xs) (lastOfEach key' ys) := by
  induction h with
  | nil => exact .nil
  | @cons x y xs ys hxy hrest ih =>
    have hkeys : xs.map key = ys.map key' := by
      rw [← List.forall₂_eq_eq_eq, List.forall₂_map_left_iff, List.forall₂_map_right_iff]
      exact hrest.imp hkey
    rw [lastOfEach_cons, lastOfEach_cons, hkey x y hxy, hkeys]
    split
    · exact ih
    · exact .cons hxy ih

end ClientPlan
