import Mathlib.Algebra.Group.Basic
import Mathlib.Algebra.Group.Int.Defs
import Stdnet.LibeventContext

/-!
# Timers

`_Resume_after` and `_Resume_at` split a count of microseconds into the seconds and the microseconds
of a `timeval`. Both write `1000 * count % 1000000` for the microseconds, and `_Resume_after`
converts a count to `unsigned long long` without looking at its sign.

## Main results

- `exact_iff`: there is one timeval for every count.
- `timer_exact_iff`: the code finds it exactly for whole seconds.
- `timers_agree_iff`: the two functions wait for the same time exactly if the count is not negative.
-/

namespace Stdnet

/-! ## Timevals -/

namespace Timeval

/-- The time that a timeval stands for, in microseconds. -/
def micros (tv : Timeval) : ℤ := tv.sec * 1000000 + tv.usec

/-- The timeval stands for `d` microseconds, and its second field for less than a second. -/
structure Exact (d : ℤ) (tv : Timeval) : Prop where
  nonneg : 0 ≤ tv.usec
  lt : tv.usec < 1000000
  micros : tv.micros = d

/-- The division with remainder by a second. -/
def ofMicros (d : ℤ) : Timeval where
  sec := d / 1000000
  usec := d % 1000000

/-- Every count has one timeval. -/
theorem exact_iff {d : ℤ} {tv : Timeval} : Exact d tv ↔ tv = ofMicros d := by
  constructor
  · rintro ⟨hnonneg, hlt, hmicros⟩
    obtain ⟨sec, usec⟩ := tv
    simp only [micros] at *
    have hsec : sec = d / 1000000 := by omega
    have husec : usec = d % 1000000 := by omega
    rw [ofMicros, hsec, husec]
  · rintro rfl
    refine ⟨?_, ?_, ?_⟩ <;> simp only [ofMicros, micros] <;> omega

/-- The fields are those of a division that truncates, and not negative. -/
structure Unwrapped (d : ℤ) (tv : Timeval) : Prop where
  sec : tv.sec = d.tdiv 1000000
  usec : tv.usec = (1000 * d).tmod 1000000
  secNonneg : 0 ≤ tv.sec
  usecNonneg : 0 ≤ tv.usec

end Timeval

namespace LibeventContext

open Timeval

/-! ## The conversion -/

theorem toUnsigned_of_nonneg {n : ℤ} (h : 0 ≤ n) (hlt : n < 2 ^ 63) : toUnsigned n = n := by
  simp only [toUnsigned]
  omega

/-- The conversions of a count that is not negative change nothing. -/
theorem timeval_of_nonneg {d : ℤ} (h : 0 ≤ d) (hlt : 1000 * d < 2 ^ 63) :
    timeval d = { sec := d / 1000000, usec := 1000 * d % 1000000 } := by
  rw [timeval, toUnsigned_of_nonneg h (by omega), toUnsigned_of_nonneg (by omega) hlt]

/-- **When the code's timeval is exact**: the factor 1000 is for a count of seconds only. -/
theorem timeval_exact_iff {d : ℤ} (h : 0 ≤ d) (hlt : 1000 * d < 2 ^ 63) :
    Exact d (timeval d) ↔ d % 1000000 = 0 := by
  rw [exact_iff, timeval_of_nonneg h hlt, ofMicros, Timeval.mk.injEq]
  simp only [true_and]
  omega

/-- The conversion of a negative count adds 2^64, so the time is not 0. -/
theorem timeval_of_neg {d : ℤ} (h : d < 0) (hle : -2 ^ 63 ≤ 1000 * d) :
    0 < (timeval d).micros := by
  simp only [timeval, micros, toUnsigned]
  omega

/-! ## What a submission arms -/

section Submissions

variable (ctx : LibeventContext) (op : CpoState) (env : Env)

/-- The timeval of the event that a submission arms, if it arms one. -/
def arms (e : Effect LibeventContext × Bool) : Option Timeval :=
  if e.2 then e.1.op.extra.bind fun ev => ev.timeout else none

/-- How long the operation waits, in microseconds: not at all if the submission completes it; a
submission that failed has no answer. -/
def waits (e : Effect LibeventContext × Bool) : Option ℤ :=
  if e.1.next = completeCall then some 0 else (arms e).map micros

theorem arms_addEvent {op : CpoState} {tv : Timeval} :
    arms (addEvent ctx op env 0 (some tv)) = if env.eventNew.isSome then none else some tv := by
  unfold addEvent
  cases env.eventNew <;> rfl

theorem arms_resumeAfter (d : ℤ) :
    arms (resumeAfter ctx op env d) = if env.eventNew.isSome then none else some (timeval d) :=
  arms_addEvent ctx env

theorem waits_addEvent {op : CpoState} {tv : Timeval} :
    waits (addEvent ctx op env 0 (some tv)) =
      if env.eventNew.isSome then none else some tv.micros := by
  unfold addEvent
  cases env.eventNew with
  | none => rfl
  | some e => simp [waits, arms, errorCall, completeCall]

/-- `_Resume_after` always makes an event. -/
theorem waits_resumeAfter (d : ℤ) :
    waits (resumeAfter ctx op env d) =
      if env.eventNew.isSome then none else some (timeval d).micros :=
  waits_addEvent ctx env

/-- `_Resume_at` makes an event for a time point that has not passed. -/
theorem resumeAt_eq (d : ℤ) :
    resumeAt ctx op env (env.now + 1000 * d) =
      if d ≤ 0 then
        ({ ctx := ctx, op := op.log (.submitted env none), next := completeCall }, false)
      else addEvent ctx (op.log (.submitted env none)) env 0 (some (timeval d)) := by
  -- a whole number of microseconds comes out of the `duration_cast` as it was
  have hcount : (env.now + 1000 * d - env.now).tdiv 1000 = d := by
    rw [add_sub_cancel_left]
    exact Int.mul_tdiv_cancel_left d (by decide)
  have hpassed : env.now + 1000 * d ≤ env.now ↔ d ≤ 0 := by omega
  simp only [resumeAt, hpassed, hcount]

theorem arms_resumeAt (d : ℤ) :
    arms (resumeAt ctx op env (env.now + 1000 * d)) =
      if d ≤ 0 ∨ env.eventNew.isSome then none else some (timeval d) := by
  rw [resumeAt_eq]
  by_cases hd : d ≤ 0
  · simp [hd, arms]
  · simp only [hd, if_false, false_or]
    exact arms_addEvent ctx env

theorem waits_resumeAt (d : ℤ) :
    waits (resumeAt ctx op env (env.now + 1000 * d)) =
      if d ≤ 0 then some 0 else if env.eventNew.isSome then none else some (timeval d).micros := by
  rw [resumeAt_eq]
  by_cases hd : d ≤ 0
  · simp [hd, waits]
  · simp only [hd, if_false]
    exact waits_addEvent ctx env

end Submissions

/-! ## Exactness -/

/-- **The timevals are exact** for whole seconds, and if there is no event that could be armed. -/
theorem timer_exact_iff (ctx : LibeventContext) (op op' : CpoState) (env env' : Env) {d : ℤ}
    (h : 0 ≤ d) (hlt : 1000 * d < 2 ^ 63) :
    ((∀ tv, arms (resumeAfter ctx op env d) = some tv → Exact d tv) ∧
      ∀ tv, arms (resumeAt ctx op' env' (env'.now + 1000 * d)) = some tv → Exact d tv) ↔
    d % 1000000 = 0 ∨ (env.eventNew.isSome = true ∧ env'.eventNew.isSome = true) := by
  have hexact := timeval_exact_iff h hlt
  rw [arms_resumeAfter, arms_resumeAt]
  constructor
  · rintro ⟨hafter, hat⟩
    by_cases hmod : d % 1000000 = 0
    · exact .inl hmod
    · -- the count is not 0, so both functions would arm the timeval
      have hpos : ¬ d ≤ 0 := by
        intro hle
        obtain rfl : d = 0 := by omega
        exact hmod rfl
      refine .inr ⟨?_, ?_⟩
      · by_contra hnew
        exact hmod (hexact.mp (hafter _ (if_neg hnew)))
      · by_contra hnew
        exact hmod (hexact.mp (hat _ (if_neg (by simp [hpos, hnew]))))
  · rintro (hmod | ⟨hnew, hnew'⟩)
    · have htv := hexact.mpr hmod
      refine ⟨fun tv htv' => ?_, fun tv htv' => ?_⟩
      · split at htv'
        next => cases htv'
        next => exact Option.some.inj htv' ▸ htv
      · split at htv'
        next => cases htv'
        next => exact Option.some.inj htv' ▸ htv
    · simp [hnew, hnew']

/-- The state of a timer that is about to be submitted. -/
def timer (desc : Desc) : CpoState :=
  { desc := desc, token := 0, outstanding := 1 }

/-- One and a half milliseconds become half a second: the timer fires late. -/
theorem timer_late :
    arms (resumeAfter {} (timer (.resumeAfter 1500)) {} 1500) = some ⟨0, 500000⟩ ∧
      ¬ Exact 1500 ⟨0, 500000⟩ := by
  refine ⟨rfl, fun h => ?_⟩
  have hmicros := h.micros
  simp [micros] at hmicros

theorem timer_exact_iff_seconds :
    arms (resumeAfter {} (timer (.resumeAfter 2000000)) {} 2000000) = some ⟨2, 0⟩ ∧
      Exact 2000000 ⟨2, 0⟩ := by
  have hexact := (timer_exact_iff {} (timer (.resumeAfter 2000000)) (timer (.resumeAt 0)) {} {}
    (d := 2000000) (by decide) (by decide)).mpr (.inl (by decide))
  exact ⟨rfl, hexact.1 _ rfl⟩

/-! ## Agreement -/

/-- Where neither submission fails they wait for the same time, a count that is zero or negative
does not wait, and no field is negative or wrapped around. -/
structure Agree (d : ℤ) (after at' : Effect LibeventContext × Bool) : Prop where
  same : ∀ a b, waits after = some a → waits at' = some b → a = b
  passed : d ≤ 0 → (∀ a, waits after = some a → a = 0) ∧ ∀ b, waits at' = some b → b = 0
  fields : (∀ tv, arms after = some tv → Unwrapped d tv) ∧ ∀ tv, arms at' = some tv → Unwrapped d tv

theorem timeval_unwrapped {d : ℤ} (h : 0 ≤ d) (hlt : 1000 * d < 2 ^ 63) :
    Unwrapped d (timeval d) := by
  rw [timeval_of_nonneg h hlt]
  refine ⟨?_, ?_, ?_, ?_⟩
  · exact (Int.tdiv_eq_ediv_of_nonneg h).symm
  · exact (Int.tmod_eq_emod_of_nonneg (by omega)).symm
  · simp only
    omega
  · simp only
    omega

/-- **Relative and absolute timers agree** exactly if the count is not negative, or if the relative
one has no event to arm. -/
theorem timers_agree_iff (ctx : LibeventContext) (op op' : CpoState) (env env' : Env) {d : ℤ}
    (hle : -2 ^ 63 ≤ 1000 * d) (hlt : 1000 * d < 2 ^ 63) :
    Agree d (resumeAfter ctx op env d) (resumeAt ctx op' env' (env'.now + 1000 * d)) ↔
      0 ≤ d ∨ env.eventNew.isSome = true := by
  constructor
  · intro h
    by_contra hneither
    obtain ⟨hneg, hnew⟩ := not_or.mp hneither
    -- the one does not wait, and the other waits for the converted count
    have hafter := (waits_resumeAfter ctx op env d).trans (if_neg hnew)
    have hat := (waits_resumeAt ctx op' env' d).trans (if_pos (by omega))
    have hpos := timeval_of_neg (by omega) hle
    have hsame := h.same _ _ hafter hat
    omega
  · intro h
    -- what is armed at all is armed for a count that is not negative
    have hpos : ∀ tv, arms (resumeAfter ctx op env d) = some tv → 0 ≤ d ∧ tv = timeval d := by
      intro tv htv
      rw [arms_resumeAfter] at htv
      split at htv
      next => cases htv
      next hnew => exact ⟨h.resolve_right hnew, (Option.some.inj htv).symm⟩
    have hpos' : ∀ tv, arms (resumeAt ctx op' env' (env'.now + 1000 * d)) = some tv →
        0 ≤ d ∧ tv = timeval d := by
      intro tv htv
      rw [arms_resumeAt] at htv
      split at htv
      next => cases htv
      next hd => exact ⟨by omega, (Option.some.inj htv).symm⟩
    have hzero : (timeval 0).micros = 0 := by decide
    refine ⟨fun a b ha hb => ?_, fun hd => ⟨fun a ha => ?_, fun b hb => ?_⟩, fun tv htv => ?_,
      fun tv htv => ?_⟩
    · rw [waits_resumeAfter] at ha
      rw [waits_resumeAt] at hb
      split at ha
      next => cases ha
      next hnew =>
        have hd := h.resolve_right hnew
        split at hb
        next hle' =>
          obtain rfl : d = 0 := by omega
          rw [← Option.some.inj ha, ← Option.some.inj hb, hzero]
        next =>
          split at hb
          next => cases hb
          next => exact Option.some.inj (ha.symm.trans hb)
    · rw [waits_resumeAfter] at ha
      split at ha
      next => cases ha
      next hnew =>
        obtain rfl : d = 0 := by
          have := h.resolve_right hnew
          omega
        rw [← Option.some.inj ha, hzero]
    · rw [waits_resumeAt, if_pos hd] at hb
      exact (Option.some.inj hb).symm
    · obtain ⟨hd, rfl⟩ := hpos tv htv
      exact timeval_unwrapped hd hlt
    · obtain ⟨hd, rfl⟩ := hpos' tv htv
      exact timeval_unwrapped hd hlt

/-- A deadline that was missed by a microsecond: the one timer completes at once, the other one
waits for over half a million years. -/
theorem timer_missed :
    waits (resumeAfter {} (timer (.resumeAfter (-1))) {} (-1)) = some 18446744073709550616 ∧
      waits (resumeAt {} (timer (.resumeAt (-1000))) {} (-1000)) = some 0 ∧
      ¬ Agree (-1) (resumeAfter {} (timer (.resumeAfter (-1))) {} (-1))
        (resumeAt {} (timer (.resumeAt (-1000))) {} (-1000)) := by
  have hafter : waits (resumeAfter {} (timer (.resumeAfter (-1))) {} (-1)) =
      some 18446744073709550616 := rfl
  have hat : waits (resumeAt {} (timer (.resumeAt (-1000))) {} (-1000)) = some 0 := rfl
  refine ⟨hafter, hat, fun h => ?_⟩
  have hsame := h.same _ _ hafter hat
  omega

theorem timers_agree_iff_seconds :
    Agree 1500000 (resumeAfter {} (timer (.resumeAfter 1500000)) {} 1500000)
      (resumeAt {} (timer (.resumeAt 1500000007)) { now := 7 } (7 + 1000 * 1500000)) :=
  (timers_agree_iff {} _ _ {} { now := 7 } (by decide) (by decide)).mpr (.inl (by decide))

end LibeventContext

end Stdnet
