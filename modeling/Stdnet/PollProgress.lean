import Stdnet.PollRegistrations

/-!
# Progress of the poll Loop

`run_one` looks for an entry with an event that was asked for or `POLLERR`. `::poll` also reports
`POLLHUP` and `POLLNVAL`, which nobody has to ask for; when there is nothing else the loop calls
`::poll` again with the same entries.

## Main results

- `scan_eq_none`: the scan finds every entry that meets its condition.
- `progress_iff`: when a pass of the loop dispatches an operation; otherwise it is back where it
  was, as often as `::poll` reports the same.
- `not_covered_iff`: which reports are not covered.
-/

namespace Stdnet

namespace PollContext

/-- `POLLHUP` and `POLLNVAL`, the hang-up and the handle that is not open. -/
def POLLHUP : BitVec 16 := 16
def POLLNVAL : BitVec 16 := 32

/-! ## The scan -/

/-- The scan finds nothing exactly if no entry is reported. -/
theorem scan_eq_none {ps : List Pollfd} {n : ℕ} (hn : n ≤ ps.length) :
    scan ps n = none ↔ ∀ (i : ℕ) (p : Pollfd), i < n → ps[i]? = some p → reported p = false := by
  induction n with
  | zero => simp [scan]
  | succ n ih =>
    have hp : ps[n]? = some ps[n] := List.getElem?_eq_getElem (by omega)
    simp only [scan, hp]
    cases hreported : reported ps[n] with
    | true =>
      simp only [if_true, reduceCtorEq, false_iff, not_forall]
      exact ⟨n, ps[n], by omega, hp, by simp [hreported]⟩
    | false =>
      simp only [Bool.false_eq_true, if_false]
      rw [ih (by omega)]
      constructor
      · intro hall i p hi hip
        rcases Nat.lt_succ_iff_lt_or_eq.mp hi with hi | rfl
        · exact hall i p hi hip
        · rw [hp] at hip
          exact Option.some.inj hip ▸ hreported
      · exact fun hall i p hi => hall i p (Nat.lt_succ_of_lt hi)

/-! ## A pass of the loop -/

/-- The context after a `::poll` that has written the `revents`. -/
def polled (s : Run) (revents : List (BitVec 16)) : Run :=
  { s with ctx := { s.ctx with poll := report s.ctx.poll revents } }

/-- The context when the `_Work` of entry `i` is called. -/
def removed (s : Run) (i : ℕ) (r : Registration) : Run :=
  { s with ctx := s.ctx.remove i, dispatched := s.dispatched ++ [r] }

/-- After this `::poll` the loop removes the entry of an operation whose descriptor was reported,
runs its `_Work` and returns 1. -/
def Progresses (s : Run) (work : Script) (revents : List (BitVec 16)) : Prop :=
  ∃ (i : ℕ) (p : Pollfd) (o : OpId), (polled s revents).ctx.poll[i]? = some p ∧ p.revents ≠ 0 ∧
    s.ctx.outstanding[i]? = some o ∧
    loop s work [.ok revents] =
      some ((work.exec (removed (polled s revents) i ⟨o, p.fd, p.events⟩)).map fun t => (t.1, 1))

/-- The loop calls `::poll` again with the same registrations. -/
def GoesBack (s : Run) (work : Script) (revents : List (BitVec 16)) : Prop :=
  (polled s revents).ctx.registrations = s.ctx.registrations ∧
    ∀ rest, loop s work (.ok revents :: rest) = loop (polled s revents) work rest

/-- A descriptor was reported with an event that was asked for, or with `POLLERR`. -/
def Covered (s : Run) (revents : List (BitVec 16)) : Prop :=
  ∃ p ∈ report s.ctx.poll revents, p.revents &&& (p.events ||| POLLERR) ≠ 0

instance (s : Run) (revents : List (BitVec 16)) : Decidable (Covered s revents) :=
  inferInstanceAs (Decidable (∃ p ∈ report s.ctx.poll revents, _))

section Pass

variable {s : Run} {work : Script} {revents : List (BitVec 16)}

theorem reported_iff {p : Pollfd} :
    reported p = true ↔ p.revents &&& (p.events ||| POLLERR) ≠ 0 := by
  simp [reported]

/-- Reporting writes the `revents` only, so what is reported next does not depend on what was. -/
theorem report_report {ps : List Pollfd} (h : revents.length = ps.length)
    (revents' : List (BitVec 16)) : report (report ps revents) revents' = report ps revents' := by
  induction ps generalizing revents revents' with
  | nil => rfl
  | cons p ps ih =>
    cases revents with
    | nil => cases h
    | cons r rs =>
      cases revents' with
      | nil => rfl
      | cons r' rs' =>
        simp only [report, List.zipWith_cons_cons, List.cons.injEq, true_and] at ih ⊢
        exact ih (by simpa using h) rs'

/-- **A report that is covered**. -/
theorem progresses_of_covered (hparallel : s.ctx.Parallel)
    (hlength : revents.length = s.ctx.poll.length) (h : Covered s revents) :
    Progresses s work revents := by
  have hsame : (report s.ctx.poll revents).length = s.ctx.poll.length := length_report hlength
  cases hscan : scan (report s.ctx.poll revents) (report s.ctx.poll revents).length with
  | none =>
    -- the entry that is reported would have been found
    obtain ⟨p, hmem, hp⟩ := h
    obtain ⟨i, hi⟩ := List.getElem?_of_mem hmem
    have hlt := (List.getElem?_eq_some_iff.mp hi).1
    have hfalse := (scan_eq_none le_rfl).mp hscan i p hlt hi
    rw [reported_iff.mpr hp] at hfalse
    cases hfalse
  | some i =>
    obtain ⟨p, hp, hreported⟩ := scan_spec hscan
    have hlt : i < s.ctx.outstanding.length := by
      have := (List.getElem?_eq_some_iff.mp hp).1
      rw [hsame, hparallel] at this
      exact this
    refine ⟨i, p, s.ctx.outstanding[i], hp, ?_, List.getElem?_eq_getElem hlt, ?_⟩
    · -- an entry without `revents` is not reported
      intro hzero
      simp [reported_iff, hzero] at hreported
    · simp only [loop, hlength, if_true, hscan, dispatchAt, hp, List.getElem?_eq_getElem hlt]
      rfl

/-- **A report that is not covered**. -/
theorem goesBack_of_not_covered (hlength : revents.length = s.ctx.poll.length)
    (h : ¬ Covered s revents) : GoesBack s work revents := by
  have hscan : scan (report s.ctx.poll revents) (report s.ctx.poll revents).length = none := by
    refine (scan_eq_none le_rfl).mpr fun i p _ hp => ?_
    rw [← Bool.not_eq_true, reported_iff]
    exact fun hreported => h ⟨p, List.mem_of_getElem? hp, hreported⟩
  refine ⟨registrations_report hlength, fun rest => ?_⟩
  simp only [loop, hlength, if_true, hscan]
  rfl

/-- As often as `::poll` says the same, the loop does not return. -/
theorem spins (n : ℕ) (hlength : revents.length = s.ctx.poll.length) (h : ¬ Covered s revents) :
    loop s work (List.replicate n (.ok revents)) = none := by
  induction n generalizing s with
  | zero => rfl
  | succ n ih =>
    rw [List.replicate_succ, (goesBack_of_not_covered hlength h).2]
    have hreport := report_report hlength revents
    refine ih ?_ ?_
    · rw [polled, length_report hlength, hlength]
    · rwa [Covered, polled, hreport]

/-- **When `run_one` makes progress**: exactly if some descriptor was reported with an event that
was asked for or with `POLLERR`. If not, the loop is back at `::poll` with the same registrations,
and it never returns while `::poll` reports the same. -/
theorem progress_iff (work : Script) (hparallel : s.ctx.Parallel)
    (hlength : revents.length = s.ctx.poll.length) :
    (Progresses s work revents ∧ ¬ GoesBack s work revents ↔ Covered s revents) ∧
      (¬ Covered s revents → GoesBack s work revents ∧
        ∀ n, loop s work (List.replicate n (.ok revents)) = none) := by
  refine ⟨⟨?_, fun h => ?_⟩, fun h => ⟨goesBack_of_not_covered hlength h, fun n =>
    spins n hlength h⟩⟩
  · rintro ⟨-, hback⟩
    by_contra h
    exact hback (goesBack_of_not_covered hlength h)
  · have hprogress : Progresses s work revents := progresses_of_covered hparallel hlength h
    refine ⟨hprogress, fun hback => ?_⟩
    -- a pass that returns does not call `::poll` once more
    obtain ⟨i, p, o, -, -, -, hloop⟩ := hprogress
    rw [hback.2 []] at hloop
    cases hloop

/-- The handle of an accept operation is closed while the operation is registered. -/
def closedHandle : List Call :=
  [.makeSocket 5, .add 0 0 POLLIN (.done false), .release 0 (.ok 0)]

/-- `::poll` reports `POLLNVAL`, and `run_one` does not return. -/
theorem closed_handle_spins : ∃ s : Run, StepMachine.run Run.step {} closedHandle = some s ∧
    s.ctx.registrations = [⟨0, 5, POLLIN⟩] ∧ ¬ Progresses s (.done true) [POLLNVAL] ∧
      ∀ n, loop s (.done true) (List.replicate n (.ok [POLLNVAL])) = none := by
  have hrun : StepMachine.run Run.step {} closedHandle = some _ := rfl
  refine ⟨_, hrun, rfl, ?_, fun n => spins n rfl (by decide)⟩
  rintro ⟨i, p, o, hp, -, -, hloop⟩
  cases hloop

/-- A hang-up together with `POLLIN` is dispatched. -/
theorem progress_iff_hang_up : ∃ s : Run,
    StepMachine.run Run.step {} (closedHandle.take 2) = some s ∧
      Progresses s (.done true) [POLLHUP ||| POLLIN] := by
  refine ⟨_, rfl, ((progress_iff (.done true) ?_ ?_).1.mpr ?_).1⟩
  · rfl
  · rfl
  · decide

end Pass

/-! ## What is not covered -/

/-- What `::poll` writes: events that were asked for, `POLLERR`, `POLLHUP` and `POLLNVAL`. -/
def Possible (p : Pollfd) : Prop :=
  p.revents &&& ~~~(p.events ||| POLLERR ||| POLLHUP ||| POLLNVAL) = 0

/-- Nothing was reported but `POLLHUP` and `POLLNVAL`, neither of which was asked for. -/
def HangUpOnly (p : Pollfd) : Prop :=
  p.revents &&& ~~~((POLLHUP ||| POLLNVAL) &&& ~~~p.events) = 0

theorem eq_zero_iff {x : BitVec 16} : x = 0 ↔ ∀ i < 16, x.getLsbD i = false := by
  constructor
  · rintro rfl i -
    simp
  · intro h
    exact BitVec.eq_of_getLsbD_eq fun i hi => by simp [h i hi]

/-- An entry does not meet the condition exactly if nothing was reported but hang-ups. -/
theorem unseen_iff {p : Pollfd} (h : Possible p) :
    p.revents &&& (p.events ||| POLLERR) = 0 ↔ HangUpOnly p := by
  have hdisjoint : ∀ i < 16, POLLERR.getLsbD i = true →
      POLLHUP.getLsbD i = false ∧ POLLNVAL.getLsbD i = false := by decide
  rw [Possible, eq_zero_iff] at h
  rw [HangUpOnly, eq_zero_iff, eq_zero_iff]
  -- bit by bit
  refine forall₂_congr fun i hi => ?_
  have h := h i hi
  have hdisjoint := hdisjoint i hi
  simp only [BitVec.getLsbD_and, BitVec.getLsbD_or, BitVec.getLsbD_not, hi, decide_true,
    Bool.true_and] at h ⊢
  have hbits : ∀ r e er hu nv : Bool, (r && !(e || er || hu || nv)) = false →
      (er = true → hu = false ∧ nv = false) →
      ((r && (e || er)) = false ↔ (r && !((hu || nv) && !e)) = false) := by decide
  exact hbits _ _ _ _ _ h hdisjoint

/-- **The reports that are not covered** are those of hang-ups and closed handles alone. -/
theorem not_covered_iff {s : Run} {revents : List (BitVec 16)}
    (h : ∀ p ∈ report s.ctx.poll revents, Possible p) :
    ¬ Covered s revents ↔ ∀ p ∈ report s.ctx.poll revents, HangUpOnly p := by
  simp only [Covered, not_exists, not_and, not_not]
  exact forall₂_congr fun p hp => unseen_iff (h p hp)

end PollContext

end Stdnet
