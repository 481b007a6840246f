import Mathlib.Data.List.Basic
import Mathlib.Data.List.Nodup

/-!
# Paths of a Successor Function

`Linked next a p b` says that following `next` from `a` visits the nodes `p`, in this order, and
then arrives at `b`. It is the shape of every list threaded through an array: `next` reads the
link stored at a node, and `b` is the end marker.

## Main facts

- `Linked.unique`: the path to an end marker that stores no link is determined by its start.
- `Linked.nodup`: such a path visits no node twice, so there is no cycle.
- `Linked.congr`: writing outside the path leaves it a path.
-/

variable {α : Type*}

/-- Following `next` from `a` visits exactly `p` and then arrives at `b`. -/
def Linked (next : α → Option α) : α → List α → α → Prop
  | a, [], b => a = b
  | a, x :: p, b => a = x ∧ ∃ c, next x = some c ∧ Linked next c p b

namespace Linked

variable {next next' : α → Option α} {a b c x : α} {p q : List α}

/-- Putting a node whose link is the old start in front of a path. -/
theorem push (hlink : next x = some a) (h : Linked next a p b) : Linked next x (x :: p) b :=
  ⟨rfl, a, hlink, h⟩

/-- Writing outside the path leaves it a path. -/
theorem congr (hsame : ∀ x ∈ p, next' x = next x) (h : Linked next a p b) :
    Linked next' a p b := by
  -- along the path: the start moves with each node
  induction p generalizing a with
  | nil => exact h
  | cons x p ih =>
    obtain ⟨rfl, c, hc, hrest⟩ := h
    refine ⟨rfl, c, ?_, ih (fun y hy => hsame y (List.mem_cons_of_mem _ hy)) hrest⟩
    rw [hsame a List.mem_cons_self, hc]

/-- Every node of the path stores a link. -/
theorem link_of_mem (h : Linked next a p b) (hx : x ∈ p) : ∃ c, next x = some c := by
  induction p generalizing a with
  | nil => simp at hx
  | cons y p ih =>
    obtain ⟨rfl, c, hc, hrest⟩ := h
    rcases List.mem_cons.mp hx with rfl | hx
    · exact ⟨c, hc⟩
    · exact ih hrest hx

/-- The nodes from `x` on form the path from `x`. -/
theorem suffix (h : Linked next a (p ++ x :: q) b) : Linked next x (x :: q) b := by
  -- the induction drops the nodes before `x` one by one
  induction p generalizing a with
  | nil =>
    obtain ⟨rfl, hrest⟩ := h
    exact ⟨rfl, hrest⟩
  | cons y p ih =>
    obtain ⟨-, c, -, hrest⟩ := h
    exact ih hrest

/-- The nodes before `x` form a path that ends at `x`. -/
theorem upto (h : Linked next a (p ++ x :: q) b) : Linked next a p x := by
  induction p generalizing a with
  | nil =>
    obtain ⟨rfl, -⟩ := h
    rfl
  | cons y p ih =>
    obtain ⟨rfl, c, hc, hrest⟩ := h
    exact ⟨rfl, c, hc, ih hrest⟩

/-- A path that starts at an end marker without a link is empty. -/
theorem eq_nil (hend : next b = none) (h : Linked next b p b) : p = [] := by
  cases p with
  | nil => rfl
  | cons x p =>
    obtain ⟨rfl, c, hc, -⟩ := h
    rw [hend] at hc
    cases hc

/-- The path to an end marker without a link is determined by its start. -/
theorem unique (hend : next b = none) (hp : Linked next a p b) (hq : Linked next a q b) :
    p = q := by
  -- both paths read the same link at each node, so they move together
  induction p generalizing a q with
  | nil =>
    cases hp
    exact (eq_nil hend hq).symm
  | cons x p ih =>
    obtain ⟨rfl, c, hc, hrest⟩ := hp
    cases q with
    | nil =>
      cases hq
      -- the first path goes on where the second one has reached the end marker
      rw [hend] at hc
      cases hc
    | cons y q =>
      obtain ⟨rfl, d, hd, hrest'⟩ := hq
      have hcd : c = d := by
        rw [hc] at hd
        exact Option.some.inj hd
      subst hcd
      rw [ih hrest hrest']

/-- **No cycle**: a path to an end marker without a link visits no node twice. -/
theorem nodup (hend : next b = none) (h : Linked next a p b) : p.Nodup := by
  induction p generalizing a with
  | nil => exact List.nodup_nil
  | cons x p ih =>
    obtain ⟨rfl, c, hc, hrest⟩ := h
    refine List.nodup_cons.mpr ⟨fun hmem => ?_, ih hrest⟩
    -- a second visit of `a` would give two paths of different length from `a`
    obtain ⟨u, v, huv⟩ := List.append_of_mem hmem
    have hagain : Linked next a (a :: v) b := suffix (huv ▸ hrest)
    have heq : a :: v = a :: p := unique hend hagain ⟨rfl, c, hc, hrest⟩
    have hlen := congrArg List.length (List.cons.inj heq).2
    rw [huv] at hlen
    simp only [List.length_append, List.length_cons] at hlen
    omega

end Linked
