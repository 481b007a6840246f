import Mathlib.Data.List.Perm.Basic

/-!
# Removal by Swapping with the Last Entry

The constant-time removal from a vector whose order does not matter: the last entry overwrites the
one that is removed and is popped. Parallel vectors stay parallel when the same position is removed
from each of them.

## Main results

- `cons_perm`: the removed entry together with what is left is a permutation of the vector.
- `zipWith_swapRemove`: removal commutes with zipping vectors of equal length.
- `getElem?_of_swapRemove`: entries that stand together after a removal stood together before.
-/

namespace SwapRemove

variable {α β γ : Type*}

/-- The vector without its entry `i`: the last entry overwrites entry `i`, unless it is that entry,
and the last entry is popped. -/
def swapRemove (xs : List α) (i : ℕ) : List α :=
  if i + 1 = xs.length then xs.dropLast
  else
    match xs.getLast? with
    | some x => (xs.set i x).dropLast
    | none => xs

/-- On a vector with a last entry, the removal concerns the entries before it. -/
theorem swapRemove_concat (ys : List α) (l : α) {i : ℕ} (hi : i < (ys ++ [l]).length) :
    swapRemove (ys ++ [l]) i = if i = ys.length then ys else ys.set i l := by
  rw [List.length_append, List.length_singleton] at hi
  simp only [swapRemove, List.length_append, List.length_singleton, Nat.add_right_cancel_iff]
  split
  · -- the last entry itself: nothing is moved
    exact List.dropLast_concat
  · next hne =>
    have hlt : i < ys.length := by omega
    rw [List.getLast?_concat]
    show ((ys ++ [l]).set i l).dropLast = ys.set i l
    rw [List.set_append_left _ _ hlt, List.dropLast_concat]

/-- The removed entry and what is left are the entries of the vector. -/
theorem cons_perm {xs : List α} {i : ℕ} (hi : i < xs.length) :
    (xs[i] :: swapRemove xs i).Perm xs := by
  rcases List.eq_nil_or_concat' xs with rfl | ⟨ys, l, rfl⟩
  · cases hi
  · rw [swapRemove_concat ys l hi]
    split
    next heq =>
      subst heq
      rw [List.getElem_concat_length rfl]
      exact (List.perm_append_singleton l ys).symm
    next hne =>
      have hlt : i < ys.length := by
        rw [List.length_append, List.length_singleton] at hi
        omega
      rw [List.getElem_append_left hlt]
      -- the last entry takes the place of the removed one
      calc ys[i] :: ys.set i l
          _ |>.Perm (ys[i] :: l :: ys.eraseIdx i) :=
            (List.set_perm_cons_eraseIdx hlt l).cons _
          _ |>.Perm (l :: ys[i] :: ys.eraseIdx i) := .swap _ _ _
          _ |>.Perm (l :: ys) := (List.getElem_cons_eraseIdx_perm hlt).cons _
          _ |>.Perm (ys ++ [l]) := (List.perm_append_singleton l ys).symm

theorem zipWith_set (f : α → β → γ) (xs : List α) (ys : List β) (i : ℕ) (x : α) (y : β) :
    List.zipWith f (xs.set i x) (ys.set i y) = (List.zipWith f xs ys).set i (f x y) := by
  -- along both vectors; past the end of either nothing is written
  induction xs generalizing ys i with
  | nil => simp
  | cons a xs ih =>
    cases ys with
    | nil => simp
    | cons b ys =>
      cases i with
      | zero => rfl
      | succ i => exact congrArg (f a b :: ·) (ih ys i)

theorem length_swapRemove {xs : List α} {i : ℕ} (hi : i < xs.length) :
    (swapRemove xs i).length + 1 = xs.length :=
  (cons_perm hi).length_eq

theorem length_swapRemove_eq {xs : List α} {ys : List β} (hlen : xs.length = ys.length) {i : ℕ}
    (hi : i < xs.length) : (swapRemove xs i).length = (swapRemove ys i).length := by
  have h1 := length_swapRemove hi
  have h2 := length_swapRemove (hlen ▸ hi : i < ys.length)
  omega

/-- Removing the same position from two vectors of equal length keeps them parallel. -/
theorem zipWith_swapRemove (f : α → β → γ) {xs : List α} {ys : List β}
    (hlen : xs.length = ys.length) {i : ℕ} (hi : i < xs.length) :
    List.zipWith f (swapRemove xs i) (swapRemove ys i) = swapRemove (List.zipWith f xs ys) i := by
  rcases List.eq_nil_or_concat' xs with rfl | ⟨xs', x, rfl⟩
  · cases hi
  · rcases List.eq_nil_or_concat' ys with rfl | ⟨ys', y, rfl⟩
    · simp at hlen
    · have hlen' : xs'.length = ys'.length := by simpa using hlen
      have hzip : (List.zipWith f xs' ys').length = xs'.length := by
        rw [List.length_zipWith, ← hlen', Nat.min_self]
      -- all three vectors end in an entry, so the removals are those before a last entry
      rw [List.zipWith_append hlen', List.zipWith_cons_cons, List.zipWith_nil_left,
        swapRemove_concat xs' x hi, swapRemove_concat ys' y (hlen ▸ hi),
        swapRemove_concat _ _ (by simpa [hzip] using hi), hzip, ← hlen']
      split
      · rfl
      · exact zipWith_set f xs' ys' i x y

/-- What stands at one position of both vectors after the removal stood at one position before. -/
theorem getElem?_of_swapRemove {xs : List α} {ys : List β} (hlen : xs.length = ys.length) {i j : ℕ}
    (hi : i < xs.length) {x : α} {y : β} (hx : (swapRemove xs i)[j]? = some x)
    (hy : (swapRemove ys i)[j]? = some y) : ∃ k : ℕ, xs[k]? = some x ∧ ys[k]? = some y := by
  have hi' : i < (List.zipWith Prod.mk xs ys).length := by
    rwa [List.length_zipWith, ← hlen, Nat.min_self]
  have hmem : (x, y) ∈ List.zipWith Prod.mk (swapRemove xs i) (swapRemove ys i) := by
    refine List.mem_of_getElem? (i := j) ?_
    rw [List.getElem?_zipWith, hx, hy]
  rw [zipWith_swapRemove _ hlen hi] at hmem
  obtain ⟨k, hk⟩ := List.getElem?_of_mem ((cons_perm hi').mem_iff.mp (List.mem_cons_of_mem _ hmem))
  obtain ⟨x', y', hx', hy', heq⟩ := List.getElem?_zipWith_eq_some.mp hk
  obtain ⟨rfl, rfl⟩ := Prod.mk.inj heq
  exact ⟨k, hx', hy'⟩

end SwapRemove
