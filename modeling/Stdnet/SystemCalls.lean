import Mathlib.Data.Int.Notation
import Mathlib.Data.List.Basic

/-!
# System Calls and Error Codes

What the code sees of a system call: the `int` it assigned the result to and, when that is negative,
`errno`. The loops of the `_Work` functions are written once, over the `switch (errno)` that each of
them has.
-/

namespace Stdnet

/-! ## Error codes -/

/-- The `errno` values the code distinguishes. `EAGAIN` is `EWOULDBLOCK`. -/
def EINTR : ℤ := 4
def EWOULDBLOCK : ℤ := 11
def EPIPE : ℤ := 32
def ECONNRESET : ℤ := 104
def EINPROGRESS : ℤ := 115

/-- The error categories: `std::system_category`, `_Libevent_error_category` and
`socket_category`. -/
inductive Category where
  | system
  | libevent
  | socket
  deriving DecidableEq, Repr

/-- `std::error_code`. -/
structure ErrorCode where
  value : ℤ
  category : Category
  deriving DecidableEq, Repr

/-! ## Results -/

/-- A system call as its caller sees it: `ok rc` when the `int` result is not negative, `fail e`
when it is and `errno` is `e`. -/
inductive SysResult where
  | ok (rc : ℕ)
  | fail (errno : ℤ)
  deriving DecidableEq, Repr

/-- `if (call(...) < 0) { _Error = std::error_code(errno, std::system_category()); }`. -/
def SysResult.errorCode : SysResult → Option ErrorCode
  | .ok _ => none
  | .fail e => some ⟨e, .system⟩

/-- How a `_Work` function leaves its loop. -/
inductive WorkEnd where
  /-- the call succeeded: `_Complete()` and `return true` -/
  | value (rc : ℕ)
  /-- the peer is gone: the count is 0, `_Complete()` and `return true` -/
  | closed
  /-- `_Error(...)` and `return true` -/
  | error (e : ErrorCode)
  /-- `return false` -/
  | wouldBlock
  deriving DecidableEq, Repr

/-- The `switch (errno)` of the two `_Accept` functions; `none` is the `break` that calls again. -/
def acceptSwitch (e : ℤ) : Option WorkEnd :=
  if e = EINTR then none
  else if e = EWOULDBLOCK then some .wouldBlock
  else some (.error ⟨e, .system⟩)

/-- The `switch (errno)` of `_Receive` and of `_Send`. -/
def transferSwitch (e : ℤ) : Option WorkEnd :=
  if e = ECONNRESET ∨ e = EPIPE then some .closed
  else if e = EINTR then none
  else if e = EWOULDBLOCK then some .wouldBlock
  else some (.error ⟨e, .system⟩)

/-- What one call decides, `none` when the loop goes round again. -/
def verdict (switch : ℤ → Option WorkEnd) : SysResult → Option WorkEnd
  | .ok rc => some (.value rc)
  | .fail e => switch e

/-- The `while (true)` of a `_Work` function. The list holds the results of exactly the calls that
the loop makes; with any other list it has not returned. -/
def workLoop (switch : ℤ → Option WorkEnd) : List SysResult → Option WorkEnd
  | [] => none
  | [r] => verdict switch r
  | r :: rest => if verdict switch r = none then workLoop switch rest else none

/-- The loop ends with the first call that decides something. -/
theorem workLoop_eq_some {switch : ℤ → Option WorkEnd} {rs : List SysResult} {w : WorkEnd} :
    workLoop switch rs = some w ↔
      ∃ again last, rs = again ++ [last] ∧ (∀ r ∈ again, verdict switch r = none) ∧
        verdict switch last = some w := by
  induction rs with
  | nil => simp [workLoop]
  | cons r rest ih =>
    cases rest with
    | nil =>
      simp only [workLoop]
      constructor
      · intro h
        exact ⟨[], r, rfl, by simp, h⟩
      · rintro ⟨again, last, heq, -, hlast⟩
        cases again with
        | nil =>
          cases heq
          exact hlast
        | cons x xs => simp at heq
    | cons r' rest' =>
      simp only [workLoop]
      split
      next hnone =>
        rw [ih]
        constructor
        · rintro ⟨again, last, heq, hagain, hlast⟩
          refine ⟨r :: again, last, by rw [heq]; rfl, fun x hx => ?_, hlast⟩
          rcases List.mem_cons.mp hx with rfl | hx
          · exact hnone
          · exact hagain x hx
        · rintro ⟨again, last, heq, hagain, hlast⟩
          cases again with
          | nil => simp at heq
          | cons x xs =>
            obtain ⟨rfl, htail⟩ := List.cons.inj heq
            exact ⟨xs, last, htail, fun y hy => hagain y (List.mem_cons_of_mem _ hy), hlast⟩
      next hsome =>
        simp only [reduceCtorEq, false_iff]
        rintro ⟨again, last, heq, hagain, -⟩
        cases again with
        | nil => simp at heq
        | cons x xs =>
          obtain ⟨rfl, -⟩ := List.cons.inj heq
          exact hsome (hagain r List.mem_cons_self)

end Stdnet
