import Mathlib.Data.List.Forall2
import Mathlib.Tactic.Common

/-!
# Checks one after the other

When a computation that may fail succeeds and when it fails: a sequence of checks fails with the
first of them that does.
-/

namespace LoadReplay.Except

variable {α β ε ε' : Type}

theorem bind_eq_ok_iff {x : Except ε α} {f : α → Except ε β} {b : β} :
    x >>= f = .ok b ↔ ∃ a, x = .ok a ∧ f a = .ok b := by
  cases x <;> simp [bind, Except.bind]

theorem bind_eq_error_iff {x : Except ε α} {f : α → Except ε β} {e : ε} :
    x >>= f = .error e ↔ x = .error e ∨ ∃ a, x = .ok a ∧ f a = .error e := by
  cases x <;> simp [bind, Except.bind]

theorem mapError_eq_ok_iff {x : Except ε α} {f : ε → ε'} {a : α} :
    x.mapError f = .ok a ↔ x = .ok a := by
  cases x <;> simp [Except.mapError]

theorem mapError_eq_error_iff {x : Except ε α} {f : ε → ε'} {e : ε'} :
    x.mapError f = .error e ↔ ∃ e', x = .error e' ∧ f e' = e := by
  cases x <;> simp [Except.mapError]

theorem mapError_bind {x : Except ε α} {f : α → Except ε β} {g : ε → ε'} :
    (x >>= f).mapError g = x.mapError g >>= fun a => (f a).mapError g := by
  cases x <;> rfl

theorem map_eq_ok_iff {x : Except ε α} {f : α → β} {b : β} :
    x.map f = .ok b ↔ ∃ a, x = .ok a ∧ f a = b := by
  cases x <;> simp [Except.map]

theorem toOption_eq_some_iff {x : Except ε α} {a : α} : x.toOption = some a ↔ x = .ok a := by
  cases x <;> simp [Except.toOption]

/-- A computation on each of some values succeeds when all of them do. -/
theorem mapM_eq_ok_iff {f : α → Except ε β} {xs : List α} {ys : List β} :
    xs.mapM f = .ok ys ↔ List.Forall₂ (fun x y => f x = .ok y) xs ys := by
  induction xs generalizing ys with
  | nil =>
    rw [List.mapM_nil, List.forall₂_nil_left_iff]
    exact ⟨fun h => by cases h; rfl, fun h => by rw [h]; rfl⟩
  | cons x xs ih =>
    rw [List.mapM_cons, bind_eq_ok_iff]
    simp only [bind_eq_ok_iff, ih]
    constructor
    · rintro ⟨y, hy, ys, hys, h⟩
      cases h
      exact .cons hy hys
    · rintro (_ | ⟨hy, hys⟩)
      exact ⟨_, hy, _, hys, rfl⟩

/-- A computation on each of some values fails with the first of them that does. -/
theorem mapM_eq_error_iff {f : α → Except ε β} {xs : List α} {e : ε} :
    xs.mapM f = .error e ↔ ∃ before x after, xs = before ++ x :: after ∧
      (∀ y ∈ before, ∃ b, f y = .ok b) ∧ f x = .error e := by
  induction xs with
  | nil => simp [pure, Except.pure]
  | cons x xs ih =>
    have htail (b : β) :
        (xs.mapM f >>= fun bs => pure (b :: bs)) = .error e ↔ xs.mapM f = .error e := by
      rw [bind_eq_error_iff, or_iff_left]
      rintro ⟨_, _, h⟩
      cases h
    rw [List.mapM_cons, bind_eq_error_iff]
    simp only [htail, ih]
    constructor
    · rintro (h | ⟨b, hb, before, y, after, rfl, hbefore, hy⟩)
      · exact ⟨[], x, xs, rfl, List.forall_mem_nil _, h⟩
      · exact ⟨x :: before, y, after, rfl, List.forall_mem_cons.2 ⟨⟨b, hb⟩, hbefore⟩, hy⟩
    · rintro ⟨_ | ⟨_, before⟩, y, after, heq, hbefore, hy⟩
      · cases heq
        exact .inl hy
      · cases heq
        obtain ⟨⟨b, hb⟩, hbefore⟩ := List.forall_mem_cons.1 hbefore
        exact .inr ⟨b, hb, before, y, after, rfl, hbefore, hy⟩

/-- A computation on each of some values succeeds when none of them fails. -/
theorem exists_mapM_eq_ok_iff {f : α → Except ε β} {xs : List α} :
    (∃ ys, xs.mapM f = .ok ys) ↔ ∀ x ∈ xs, ∃ y, f x = .ok y := by
  cases hxs : xs.mapM f with
  | error e =>
    obtain ⟨before, x, after, rfl, -, hx⟩ := mapM_eq_error_iff.1 hxs
    refine iff_of_false nofun fun h => ?_
    obtain ⟨y, hy⟩ := h x (List.mem_append_right _ (List.mem_cons_self ..))
    cases hx.symm.trans hy
  | ok ys =>
    have hys : List.Forall₂ (fun x y => (∃ y, f x = .ok y) ∧ f x = .ok y) xs ys :=
      (mapM_eq_ok_iff.1 hxs).imp fun _ y hy => ⟨⟨y, hy⟩, hy⟩
    exact iff_of_true ⟨ys, rfl⟩ ((List.forall₂_and_left xs ys).1 hys).1

/-- Computations on values of two lists that differ by a change of what they give. -/
theorem mapM_eq_mapError {α' : Type} {f : α → Except ε β} {f' : α' → Except ε β} {g : β → β}
    {e : ε → ε} {xs : List α} {xs' : List α'}
    (h : List.Forall₂ (fun x x' => f' x' = ((f x).map g).mapError e) xs xs') :
    xs'.mapM f' = ((xs.mapM f).map (List.map g)).mapError e := by
  induction h with
  | nil => rfl
  | @cons x x' xs xs' hx _ ih =>
    rw [List.mapM_cons, List.mapM_cons, hx, ih]
    cases f x with
    | error fault => rfl
    | ok b => cases xs.mapM f <;> rfl

end LoadReplay.Except
