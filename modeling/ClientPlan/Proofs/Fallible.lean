import Mathlib.Data.List.Perm.Basic

/-!
# Runs that may fail

The planner is written with early exits. These lemmas say when a sequence or a
traversal of such steps succeeds, and where its failure comes from.
-/

namespace ClientPlan

variable {ε δ α β : Type}

/-- A value by itself is a success. -/
@[simp] theorem pure_eq_ok {a b : α} : (pure a : Except ε α) = .ok b ↔ a = b := by
  simp [pure, Except.pure]

/-- A value by itself is no failure. -/
@[simp] theorem pure_ne_error {a : α} {e : ε} : (pure a : Except ε α) ≠ .error e := by
  simp [pure, Except.pure]

/-- A sequence succeeds exactly when both of its steps do. -/
theorem bind_eq_ok {x : Except ε α} {f : α → Except ε β} {b : β} :
    x >>= f = .ok b ↔ ∃ a, x = .ok a ∧ f a = .ok b := by
  cases x <;> simp [bind, Except.bind]

/-- A sequence that starts with a check succeeds exactly when the check passes and the rest
succeeds. -/
theorem check_bind_eq_ok {x : Except ε Unit} {f : Unit → Except ε β} {b : β} :
    x >>= f = .ok b ↔ x = .ok () ∧ f () = .ok b := by
  cases x <;> simp [bind, Except.bind]

/-- A sequence fails with the failure of its first failing step. -/
theorem bind_eq_error {x : Except ε α} {f : α → Except ε β} {e : ε} :
    x >>= f = .error e ↔ x = .error e ∨ ∃ a, x = .ok a ∧ f a = .error e := by
  cases x <;> simp [bind, Except.bind]

/-- A sequence that starts with a check fails with the check, or with the rest behind it. -/
theorem check_bind_eq_error {x : Except ε Unit} {f : Unit → Except ε β} {e : ε} :
    x >>= f = .error e ↔ x = .error e ∨ x = .ok () ∧ f () = .error e := by
  cases x <;> simp [bind, Except.bind]

/-- Sequences are equal if their first steps are, and their rests behind every success of these. -/
theorem bind_congr_of_ok {x y : Except ε α} {f g : α → Except ε β} (hfirst : x = y)
    (hrest : ∀ a, x = .ok a → f a = g a) : x >>= f = y >>= g := by
  subst hfirst
  cases x with
  | error e => rfl
  | ok a => exact hrest a rfl

/-- A step applied to every success succeeds exactly when the run does. -/
theorem map_eq_ok {x : Except ε α} {f : α → β} {b : β} :
    f <$> x = .ok b ↔ ∃ a, x = .ok a ∧ f a = b := by
  cases x <;> simp [Functor.map, Except.map]

/-- Rewording a failure changes no success. -/
@[simp] theorem mapError_eq_ok {x : Except ε α} {f : ε → δ} {a : α} :
    x.mapError f = .ok a ↔ x = .ok a := by
  cases x <;> simp [Except.mapError]

/-- A reworded failure comes from a failure. -/
theorem mapError_eq_error {x : Except ε α} {f : ε → δ} {e : δ} :
    x.mapError f = .error e ↔ ∃ cause, x = .error cause ∧ f cause = e := by
  cases x <;> simp [Except.mapError]

/-- A traversal succeeds with the results of its steps, in order. -/
theorem mapM_eq_ok {f : α → Except ε β} {xs : List α} {ys : List β} :
    xs.mapM f = .ok ys ↔ List.Forall₂ (fun x y => f x = .ok y) xs ys := by
  induction xs generalizing ys with
  | nil =>
    rw [List.mapM_nil, pure_eq_ok, List.forall₂_nil_left_iff]
    exact eq_comm
  | cons x xs ih =>
    simp only [List.mapM_cons, bind_eq_ok, pure_eq_ok, List.forall₂_cons_left_iff, ih]
    constructor
    · rintro ⟨y, hy, rest, hrest, rfl⟩
      exact ⟨y, rest, hy, hrest, rfl⟩
    · rintro ⟨y, rest, hy, hrest, rfl⟩
      exact ⟨y, hy, rest, hrest, rfl⟩

/-- A traversal succeeds if each of its steps does. -/
theorem exists_mapM_eq_ok {f : α → Except ε β} {xs : List α} (h : ∀ x ∈ xs, ∃ y, f x = .ok y) :
    ∃ ys, xs.mapM f = .ok ys := by
  induction xs with
  | nil => exact ⟨[], rfl⟩
  | cons x xs ih =>
    obtain ⟨y, hy⟩ := h x List.mem_cons_self
    obtain ⟨ys, hys⟩ := ih fun x hx => h x (List.mem_cons_of_mem _ hx)
    exact ⟨y :: ys, by simp only [List.mapM_cons, hy, hys, bind, Except.bind, pure, Except.pure]⟩

/-- A list splits at a wanted element behind passing ones if its head is wanted, or if its head
passes and its rest splits in this way. -/
theorem exists_first_cons {P Q : α → Prop} {x : α} {xs : List α} :
    (∃ before y after, x :: xs = before ++ y :: after ∧ (∀ z ∈ before, P z) ∧ Q y) ↔
      Q x ∨ P x ∧ ∃ before y after, xs = before ++ y :: after ∧ (∀ z ∈ before, P z) ∧ Q y := by
  constructor
  · rintro ⟨before, y, after, heq, hbefore, hy⟩
    rcases List.cons_eq_append_iff.mp heq with ⟨rfl, hxs⟩ | ⟨rest, rfl, hxs⟩
    · obtain ⟨rfl, rfl⟩ := List.cons.inj hxs
      exact Or.inl hy
    · obtain ⟨hx, hrest⟩ := List.forall_mem_cons.mp hbefore
      exact Or.inr ⟨hx, rest, y, after, hxs, hrest, hy⟩
  · rintro (hx | ⟨hx, before, y, after, rfl, hbefore, hy⟩)
    · exact ⟨[], x, xs, rfl, fun _ h => absurd h List.not_mem_nil, hx⟩
    · exact ⟨x :: before, y, after, rfl, List.forall_mem_cons.mpr ⟨hx, hbefore⟩, hy⟩

/-- A traversal fails with the failure of the first step that fails. -/
theorem mapM_eq_error {f : α → Except ε β} {xs : List α} {e : ε} :
    xs.mapM f = .error e ↔ ∃ before x after, xs = before ++ x :: after ∧
      (∀ y ∈ before, ∃ z, f y = .ok z) ∧ f x = .error e := by
  induction xs with
  | nil => simp
  | cons x xs ih =>
    have hstep : (x :: xs).mapM f = .error e ↔
        f x = .error e ∨ (∃ y, f x = .ok y) ∧ xs.mapM f = .error e := by
      simp only [List.mapM_cons, bind_eq_error, pure_ne_error, and_false, exists_false, or_false,
        exists_and_right]
    rw [hstep, ih, exists_first_cons]

/-- A failed traversal has the failure of one of its steps. -/
theorem exists_of_mapM_eq_error {f : α → Except ε β} {xs : List α} {e : ε}
    (h : xs.mapM f = .error e) : ∃ x ∈ xs, f x = .error e := by
  obtain ⟨before, x, after, rfl, -, hx⟩ := mapM_eq_error.mp h
  exact ⟨x, List.mem_append_right _ List.mem_cons_self, hx⟩

/-- A traversal in some strict order fails with the failure of the least element that fails. -/
theorem mapM_eq_error_of_pairwise {R : α → α → Prop} (hasymm : ∀ x y, R x y → ¬ R y x)
    {f : α → Except ε β} {xs : List α} {e : ε} (hordered : xs.Pairwise R) :
    xs.mapM f = .error e ↔
      ∃ x ∈ xs, f x = .error e ∧ ∀ y ∈ xs, R y x → ∃ z, f y = .ok z := by
  rw [mapM_eq_error]
  constructor
  · rintro ⟨before, x, after, rfl, hbefore, hx⟩
    obtain ⟨-, hback, -⟩ := List.pairwise_append.mp hordered
    refine ⟨x, List.mem_append_right _ List.mem_cons_self, hx, fun y hy hyx => ?_⟩
    rcases List.mem_append.mp hy with hy | hy
    · exact hbefore y hy
    · rcases List.mem_cons.mp hy with rfl | hy
      · exact absurd hyx (hasymm y y hyx)
      · exact absurd hyx (hasymm x y ((List.pairwise_cons.mp hback).1 y hy))
  · rintro ⟨x, hmem, hx, hfirst⟩
    obtain ⟨before, after, rfl⟩ := List.append_of_mem hmem
    obtain ⟨-, -, hcross⟩ := List.pairwise_append.mp hordered
    refine ⟨before, x, after, rfl, fun y hy => ?_, hx⟩
    exact hfirst y (List.mem_append_left _ hy) (hcross y hy x List.mem_cons_self)

/-- Traversals of the same list are equal if all their steps are. -/
theorem mapM_congr {f g : α → Except ε β} {xs : List α} (h : ∀ x ∈ xs, f x = g x) :
    xs.mapM f = xs.mapM g := by
  induction xs with
  | nil => rfl
  | cons x xs ih =>
    obtain ⟨hx, hxs⟩ := List.forall_mem_cons.mp h
    rw [List.mapM_cons, List.mapM_cons, hx, ih hxs]

/-- Runs over the same list are equal if they take equal steps from every state. -/
theorem foldlM_congr {f g : β → α → Except ε β} {xs : List α}
    (h : ∀ x ∈ xs, ∀ b, f b x = g b x) (b : β) : xs.foldlM f b = xs.foldlM g b := by
  induction xs generalizing b with
  | nil => rfl
  | cons x xs ih =>
    obtain ⟨hx, hxs⟩ := List.forall_mem_cons.mp h
    rw [List.foldlM_cons, List.foldlM_cons, hx b]
    exact bind_congr_of_ok rfl fun next _ => ih hxs next

/-- Leaving out steps that succeed leaves out their results and nothing else. -/
theorem mapM_filter {f : α → Except ε β} {p : α → Bool} {q : β → Bool} {xs : List α}
    (hresult : ∀ x ∈ xs, ∀ y, f x = .ok y → q y = p x)
    (hleft : ∀ x ∈ xs, p x = false → ∃ y, f x = .ok y) :
    (xs.filter p).mapM f = List.filter q <$> xs.mapM f := by
  induction xs with
  | nil => rfl
  | cons x xs ih =>
    obtain ⟨hx, hxs⟩ := List.forall_mem_cons.mp hresult
    obtain ⟨hxleft, hxsleft⟩ := List.forall_mem_cons.mp hleft
    have ih := ih hxs hxsleft
    rw [List.mapM_cons]
    cases hp : p x with
    | false =>
      obtain ⟨y, hy⟩ := hxleft hp
      have hq : q y = false := (hx y hy).trans hp
      rw [List.filter_cons_of_neg (by simp [hp]), ih, hy]
      cases xs.mapM f with
      | error e => rfl
      | ok ys => simp [bind, Except.bind, pure, Except.pure, Functor.map, Except.map, hq]
    | true =>
      rw [List.filter_cons_of_pos hp, List.mapM_cons, ih]
      cases hy : f x with
      | error e => rfl
      | ok y =>
        have hq : q y = true := (hx y hy).trans hp
        cases xs.mapM f with
        | error e => rfl
        | ok ys => simp [bind, Except.bind, pure, Except.pure, Functor.map, Except.map, hq]

/-- Of two lists that are related element by element, each element of the first has a partner. -/
theorem exists_of_mem_left {R : α → β → Prop} {xs : List α} {ys : List β} {x : α}
    (h : List.Forall₂ R xs ys) (hx : x ∈ xs) : ∃ y ∈ ys, R x y := by
  induction h with
  | nil => cases hx
  | cons hxy _ ih =>
    rcases List.mem_cons.mp hx with rfl | hx
    · exact ⟨_, List.mem_cons_self, hxy⟩
    · obtain ⟨y, hy, hxy'⟩ := ih hx
      exact ⟨y, List.mem_cons_of_mem _ hy, hxy'⟩

/-- Of two lists that are related element by element, each element of the second has a partner. -/
theorem exists_of_mem_right {R : α → β → Prop} {xs : List α} {ys : List β} {y : β}
    (h : List.Forall₂ R xs ys) (hy : y ∈ ys) : ∃ x ∈ xs, R x y :=
  exists_of_mem_left h.flip hy

/-- Of two lists that are related element by element, equal images are collected in order. -/
theorem filterMap_eq_of_forall₂ {γ : Type} {R : α → β → Prop} {f : α → Option γ}
    {g : β → Option γ} (hstep : ∀ x y, R x y → f x = g y) {xs : List α} {ys : List β}
    (h : List.Forall₂ R xs ys) : xs.filterMap f = ys.filterMap g := by
  induction h with
  | nil => rfl
  | cons hxy _ ih => rw [List.filterMap_cons, List.filterMap_cons, hstep _ _ hxy, ih]

/-- Of two lists that are related element by element, equal lists of images are joined in order. -/
theorem flatMap_eq_of_forall₂ {γ : Type} {f : α → List γ} {g : β → List γ} {xs : List α}
    {ys : List β} (h : List.Forall₂ (fun x y => f x = g y) xs ys) :
    xs.flatMap f = ys.flatMap g := by
  induction h with
  | nil => rfl
  | cons hxy _ ih => rw [List.flatMap_cons, List.flatMap_cons, hxy, ih]

/-- Lists that are related element by element are related at each position. -/
theorem rel_getElem?_of_forall₂ {R : α → β → Prop} {xs : List α} {ys : List β}
    (h : List.Forall₂ R xs ys) (i : Nat) : Option.Rel R xs[i]? ys[i]? := by
  induction h generalizing i with
  | nil => exact .none
  | cons hxy _ ih =>
    cases i with
    | zero => exact .some hxy
    | succ i => exact ih i

/-- Elements that stand between two related lists make up a list between these. -/
theorem exists_forall₂_between {γ : Type} {R : α → β → Prop} {S : γ → α → Prop} {T : γ → β → Prop}
    {xs : List α} {ys : List β} (h : List.Forall₂ R xs ys)
    (hbetween : ∀ x ∈ xs, ∀ y, R x y → ∃ z, S z x ∧ T z y) :
    ∃ zs, List.Forall₂ S zs xs ∧ List.Forall₂ T zs ys := by
  induction h with
  | nil => exact ⟨[], .nil, .nil⟩
  | cons hxy _ ih =>
    obtain ⟨hfirst, hrest⟩ := List.forall_mem_cons.mp hbetween
    obtain ⟨z, hz, hz'⟩ := hfirst _ hxy
    obtain ⟨zs, hzs, hzs'⟩ := ih hrest
    exact ⟨z :: zs, .cons hz hzs, .cons hz' hzs'⟩

/-- A traversal that succeeds collects what its steps give. -/
theorem eq_filterMap_of_mapM {f : α → Except ε β} {xs : List α} {ys : List β}
    (h : xs.mapM f = .ok ys) : ys = xs.filterMap fun x => (f x).toOption := by
  rw [← List.filterMap_some (l := ys)]
  refine (filterMap_eq_of_forall₂ (fun x y hstep => ?_) (mapM_eq_ok.mp h)).symm
  rw [hstep]
  rfl

/-- Each result of a traversal is that of one of its steps. -/
theorem exists_of_mem_mapM {f : α → Except ε β} {xs : List α} {ys : List β} {y : β}
    (h : xs.mapM f = .ok ys) (hy : y ∈ ys) : ∃ x ∈ xs, f x = .ok y := by
  obtain ⟨x, hx, hstep⟩ := exists_of_mem_right (mapM_eq_ok.mp h) hy
  exact ⟨x, hx, hstep⟩

/-- Each step of a traversal has its result among those of the traversal. -/
theorem exists_mem_of_mapM {f : α → Except ε β} {xs : List α} {ys : List β} {x : α}
    (h : xs.mapM f = .ok ys) (hx : x ∈ xs) : ∃ y ∈ ys, f x = .ok y := by
  obtain ⟨y, hy, hstep⟩ := exists_of_mem_left (mapM_eq_ok.mp h) hx
  exact ⟨y, hy, hstep⟩

/-- A traversal that succeeds does so in any other order, with its results in another order. -/
theorem exists_mapM_perm {f : α → Except ε β} {xs xs' : List α} {ys : List β}
    (hperm : xs.Perm xs') (h : xs.mapM f = .ok ys) : ∃ ys', xs'.mapM f = .ok ys' ∧ ys.Perm ys' := by
  obtain ⟨ys', hsteps, hsame⟩ := List.perm_comp_forall₂ hperm.symm (mapM_eq_ok.mp h)
  exact ⟨ys', mapM_eq_ok.mpr hsteps, hsame.symm⟩

/-- A check of all entries passes exactly when each of them passes. -/
theorem forM_eq_ok {f : α → Except ε Unit} {xs : List α} :
    xs.forM f = .ok () ↔ ∀ x ∈ xs, f x = .ok () := by
  induction xs with
  | nil => exact ⟨fun _ x hx => absurd hx List.not_mem_nil, fun _ => rfl⟩
  | cons x xs ih =>
    have hcons : (x :: xs).forM f = f x >>= fun _ => xs.forM f := rfl
    rw [hcons, check_bind_eq_ok, List.forall_mem_cons, ih]

/-- A check of all entries fails with the failure of the first one that does not pass. -/
theorem forM_eq_error {f : α → Except ε Unit} {xs : List α} {e : ε} :
    xs.forM f = .error e ↔ ∃ before x after, xs = before ++ x :: after ∧
      (∀ y ∈ before, f y = .ok ()) ∧ f x = .error e := by
  induction xs with
  | nil => simp
  | cons x xs ih =>
    have hcons : (x :: xs).forM f = f x >>= fun _ => xs.forM f := rfl
    rw [hcons, check_bind_eq_error, ih, exists_first_cons]

/-- The entries of two lists are checked one list after the other. -/
theorem forM_append {f : α → Except ε Unit} {xs ys : List α} :
    (xs ++ ys).forM f = xs.forM f >>= fun _ => ys.forM f := by
  simp only [List.forM_eq_forM, List.forM_append]

/-- Entries that are collected from others are checked with them. -/
theorem forM_flatMap {f : β → Except ε Unit} {g : α → List β} {xs : List α} :
    (xs.flatMap g).forM f = xs.forM fun x => (g x).forM f := by
  induction xs with
  | nil => rfl
  | cons x xs ih =>
    rw [List.flatMap_cons, forM_append, ih]
    rfl

/-- Checks that agree element by element agree on the lists. -/
theorem forM_eq_of_forall₂ {f : α → Except ε Unit} {g : β → Except ε Unit} {xs : List α}
    {ys : List β} (h : List.Forall₂ (fun x y => f x = g y) xs ys) : xs.forM f = ys.forM g := by
  induction h with
  | nil => rfl
  | @cons x y xs ys hxy _ ih =>
    have hleft : (x :: xs).forM f = f x >>= fun _ => xs.forM f := rfl
    have hright : (y :: ys).forM g = g y >>= fun _ => ys.forM g := rfl
    rw [hleft, hright, hxy, ih]

/-- A run fails with causes of one kind only. -/
def FailsOnly (cause : ε → Prop) (x : Except ε α) : Prop := ∀ e, x = .error e → cause e

namespace FailsOnly

variable {cause : ε → Prop}

/-- A success fails with no cause. -/
theorem of_eq_ok {x : Except ε α} {a : α} (h : x = .ok a) : FailsOnly cause x := by
  subst h
  exact fun _ herror => nomatch herror

/-- A failure by one of the causes. -/
theorem error {e : ε} (h : cause e) : FailsOnly cause (.error e : Except ε α) := by
  rintro _ ⟨⟩
  exact h

/-- A sequence fails only by what its steps fail by. -/
theorem bind {x : Except ε α} {f : α → Except ε β} (hx : FailsOnly cause x)
    (hf : ∀ a, x = .ok a → FailsOnly cause (f a)) : FailsOnly cause (x >>= f) := by
  intro e h
  rcases bind_eq_error.mp h with h | ⟨a, ha, h⟩
  · exact hx e h
  · exact hf a ha e h

/-- A step that succeeds adds no cause to those of the rest. -/
theorem bind_of_eq_ok {x : Except ε α} {f : α → Except ε β} {a : α} (hx : x = .ok a)
    (hf : FailsOnly cause (f a)) : FailsOnly cause (x >>= f) := by
  subst hx
  exact hf

/-- A traversal fails only by what its steps fail by. -/
theorem mapM {f : α → Except ε β} {xs : List α} (h : ∀ x ∈ xs, FailsOnly cause (f x)) :
    FailsOnly cause (xs.mapM f) := by
  intro e herror
  obtain ⟨x, hx, herror⟩ := exists_of_mapM_eq_error herror
  exact h x hx e herror

end FailsOnly

end ClientPlan
