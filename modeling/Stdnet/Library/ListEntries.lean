import Mathlib.Data.List.Forall2

/-!
# Entries of Updated Lists

A list that serves as a table: entries are added at the end and replaced in place, and are named by
their position. An entry of the new list is the one that the update is about or an old one.

## Main rules

- `getElem?_concat_cases`, `getElem?_concat_of_some`: an entry was added.
- `getElem?_set_cases`, `getElem?_set_of_some`: an entry was replaced.
- `map_set`, `filterMap_set`: an entry was replaced by one that counts for the same.
- `exists_of_map_eq`, `exists_of_getElem?_set`: what an entry counts for, in the other table.
- `getElem?_set_concat_cases`, `getElem?_set_concat_of_ne`: an entry was replaced and one was added.
- `forall₂_concat`, `forall₂_set`: two tables whose entries are related are updated together.
-/

namespace ListEntries

variable {α : Type*} {xs : List α} {i j : ℕ} {x y : α}

/-- The entries after one more was added. -/
theorem getElem?_concat_cases (h : (xs ++ [x])[i]? = some y) :
    (i = xs.length ∧ y = x) ∨ (i < xs.length ∧ xs[i]? = some y) := by
  rw [List.getElem?_append] at h
  split at h
  next hlt => exact .inr ⟨hlt, h⟩
  next hge =>
    -- past the old entries there is exactly one
    obtain ⟨hlt, hx⟩ := List.getElem?_eq_some_iff.mp h
    have heq : i - xs.length = 0 := Nat.lt_one_iff.mp hlt
    simp only [heq, List.getElem_cons_zero] at hx
    exact .inl ⟨Nat.le_antisymm (Nat.sub_eq_zero_iff_le.mp heq) (Nat.le_of_not_lt hge), hx.symm⟩

/-- The old entries stay where they are. -/
theorem getElem?_concat_of_some (h : xs[i]? = some y) : (xs ++ [x])[i]? = some y := by
  rw [List.getElem?_append_left (List.getElem?_eq_some_iff.mp h).1]
  exact h

/-- The entries after one of them was replaced. -/
theorem getElem?_set_cases (h : (xs.set i x)[j]? = some y) :
    (j = i ∧ y = x) ∨ (j ≠ i ∧ xs[j]? = some y) := by
  rw [List.getElem?_set] at h
  split at h
  next heq =>
    split at h
    next => exact .inl ⟨heq.symm, (Option.some.inj h).symm⟩
    next => cases h
  next hne => exact .inr ⟨fun heq => hne heq.symm, h⟩

theorem getElem?_set_of_some (h : xs[i]? = some x) : (xs.set i y)[i]? = some y := by
  rw [List.getElem?_set_self (List.getElem?_eq_some_iff.mp h).1]

/-- The entry is replaced by one that `f` does not tell from it. -/
theorem map_set {β : Type*} {f : α → β} (h : xs[i]? = some x) (hf : f y = f x) :
    (xs.set i y).map f = xs.map f := by
  induction xs generalizing i with
  | nil => rfl
  | cons z xs ih =>
    cases i with
    | zero =>
      obtain rfl : z = x := Option.some.inj h
      rw [List.set_cons_zero, List.map_cons, List.map_cons, hf]
    | succ i =>
      rw [List.set_cons_succ, List.map_cons, List.map_cons,
        ih (List.getElem?_cons_succ.symm.trans h)]

theorem filterMap_set {β : Type*} {f : α → Option β} (h : xs[i]? = some x) (hf : f y = f x) :
    (xs.set i y).filterMap f = xs.filterMap f := by
  have hmap : ∀ zs : List α, (zs.map f).filterMap id = zs.filterMap f := fun zs =>
    List.filterMap_map
  rw [← hmap, map_set h hf, hmap]

/-- Two tables that `f` does not tell from each other have such entries at each place. -/
theorem exists_of_map_eq {β : Type*} {f : α → β} {ys : List α} (h : xs.map f = ys.map f)
    (hx : xs[i]? = some x) : ∃ y, ys[i]? = some y ∧ f x = f y := by
  have hy : (ys.map f)[i]? = some (f x) := by
    rw [← h, List.getElem?_map, hx]
    rfl
  rw [List.getElem?_map] at hy
  obtain ⟨y, hy, heq⟩ := Option.map_eq_some_iff.mp hy
  exact ⟨y, hy, heq.symm⟩

theorem exists_of_getElem?_set {β : Type*} {f : α → β} {z : α} (h : xs[i]? = some x)
    (hz : (xs.set i y)[j]? = some z) (hf : f y = f x) : ∃ w, xs[j]? = some w ∧ f z = f w :=
  exists_of_map_eq (map_set h hf) hz

/-- The entries after one of them was replaced and another one added. -/
theorem getElem?_set_concat_cases {z : α} (h : (xs.set i x ++ [y])[j]? = some z) :
    (j = xs.length ∧ z = y) ∨ (j = i ∧ j < xs.length ∧ z = x) ∨
      (j ≠ i ∧ j < xs.length ∧ xs[j]? = some z) := by
  rcases getElem?_concat_cases h with ⟨hj, rfl⟩ | ⟨hlt, h⟩ <;> rw [List.length_set] at *
  · exact .inl ⟨hj, rfl⟩
  · rcases getElem?_set_cases h with ⟨rfl, rfl⟩ | ⟨hne, h⟩
    · exact .inr (.inl ⟨rfl, hlt, rfl⟩)
    · exact .inr (.inr ⟨hne, hlt, h⟩)

theorem getElem?_set_concat_of_ne {z : α} (hne : j ≠ i) (h : xs[j]? = some z) :
    (xs.set i x ++ [y])[j]? = some z := by
  refine getElem?_concat_of_some ?_
  rw [List.getElem?_set_ne (Ne.symm hne)]
  exact h

theorem getElem?_set_concat_self {z : α} (h : xs[i]? = some z) :
    (xs.set i x ++ [y])[i]? = some x :=
  getElem?_concat_of_some (getElem?_set_of_some h)

theorem getElem?_set_concat_length : (xs.set i x ++ [y])[xs.length]? = some y := by
  have hlength : (xs.set i x).length = xs.length := List.length_set
  rw [← hlength, List.getElem?_concat_length]

/-! ## Related tables -/

section Related

variable {β : Type*} {R : α → β → Prop} {ys : List β} {z : β}

theorem forall₂_concat (h : List.Forall₂ R xs ys) (hxz : R x z) :
    List.Forall₂ R (xs ++ [x]) (ys ++ [z]) :=
  List.rel_append h (.cons hxz .nil)

theorem forall₂_set (h : List.Forall₂ R xs ys) (i : ℕ) (hxz : R x z) :
    List.Forall₂ R (xs.set i x) (ys.set i z) := by
  induction h generalizing i with
  | nil => exact .nil
  | cons hhead htail ih =>
    cases i with
    | zero => exact .cons hxz htail
    | succ i => exact .cons hhead (ih i)

/-- An entry is related to the one at its place. -/
theorem forall₂_getElem? (h : List.Forall₂ R xs ys) (hx : xs[i]? = some x) :
    ∃ z, ys[i]? = some z ∧ R x z := by
  induction h generalizing i with
  | nil => simp at hx
  | cons hhead htail ih =>
    cases i with
    | zero =>
      simp only [List.getElem?_cons_zero, Option.some.injEq] at hx
      exact ⟨_, List.getElem?_cons_zero, hx ▸ hhead⟩
    | succ i =>
      rw [List.getElem?_cons_succ] at hx
      simpa only [List.getElem?_cons_succ] using ih hx

end Related

end ListEntries
