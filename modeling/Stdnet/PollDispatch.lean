import Stdnet.PollProgress
import Stdnet.PollRuns

/-!
# Readiness Indications and `run_one`

`PollContext` submits an operation and delivers a readiness indication to it in one step of the
program. `PollLoop` follows `_Add_Outstanding` and `run_one` line by line, with any vectors and any
`_Work`. In the states that a program reaches the two are the same: `run_one` can dispatch exactly
the operations that are registered, and does to the context what the step does.

## Main results

- `selects_iff`: which operations the scan can find.
- `addOutstanding_of_accept`: what `_Add_Outstanding` does for an accept.
- `runOne_of_ready`: what `run_one` does with the operation that it has found.
-/

namespace Stdnet

namespace PollContext

open ListEntries World SwapRemove

variable {prompt : Prop} {ctx : PollContext} {w w' : PollWorld} {o : OpId} {op : CpoState}
  {env : Env} {revents : List (BitVec 16)}

/-- After a `::poll` with these `revents` the scan of `run_one` finds the entry of the operation. -/
def Selects (ctx : PollContext) (revents : List (BitVec 16)) (o : OpId) : Prop :=
  revents.length = ctx.poll.length ∧ ∃ i,
    scan (report ctx.poll revents) (report ctx.poll revents).length = some i ∧
      ctx.outstanding[i]? = some o

/-- What the `_Work` of an operation does to the context before it calls `_Complete` or `_Error`. -/
def workScript (op : CpoState) (env : Env) : Script :=
  match op.desc, workLoop acceptSwitch env.results with
  | .accept _, some (.value fd) => .makeSocket fd (.done true)
  | _, _ => .done (¬ (op.desc.loop?.isSome ∧ .fail EWOULDBLOCK ∈ env.results))

/-! ## The scan -/

/-- If `::poll` reports an error for one descriptor only, that entry is found. -/
theorem scan_single {ps : List Pollfd} {i : ℕ} (hi : i < ps.length) :
    scan (report ps ((List.replicate ps.length 0).set i POLLERR))
      (report ps ((List.replicate ps.length 0).set i POLLERR)).length = some i := by
  have hentry : ∀ (j : ℕ) (p : Pollfd),
      (report ps ((List.replicate ps.length 0).set i POLLERR))[j]? = some p →
        p.revents = if j = i then POLLERR else 0 := by
    intro j p hp
    obtain ⟨q, r, -, hr, rfl⟩ := List.getElem?_zipWith_eq_some.mp hp
    rcases getElem?_set_cases hr with ⟨rfl, rfl⟩ | ⟨hne, hr⟩
    · simp
    · simp [hne, List.eq_of_mem_replicate (List.mem_of_getElem? hr)]
  cases hscan : scan (report ps ((List.replicate ps.length 0).set i POLLERR))
      (report ps ((List.replicate ps.length 0).set i POLLERR)).length with
  | none =>
    -- the entry with the error would have been found
    have hlt : i < (report ps ((List.replicate ps.length 0).set i POLLERR)).length := by
      rw [length_report (by simp)]
      exact hi
    have hp := List.getElem?_eq_getElem hlt
    have hfalse := (scan_eq_none le_rfl).mp hscan i _ hlt hp
    rw [← Bool.not_eq_true, reported_iff, not_not] at hfalse
    rw [hentry i _ hp, if_pos rfl, BitVec.and_or_distrib_left, BitVec.and_self] at hfalse
    exact absurd (BitVec.or_eq_zero_iff.mp hfalse).2 (by decide)
  | some j =>
    obtain ⟨p, hp, hreported⟩ := scan_spec hscan
    by_cases hj : j = i
    · rw [hj]
    · simp [reported_iff, hentry j p hp, hj] at hreported

/-- **The operations that `run_one` can dispatch** are those that are registered. -/
theorem selects_iff (h : ctx.Parallel) :
    (∃ revents, Selects ctx revents o) ↔ ContextBase.isRegistered ctx o op = true := by
  rw [h.isRegistered_iff]
  constructor
  · rintro ⟨revents, -, i, -, ho⟩
    exact List.mem_of_getElem? ho
  · intro ho
    exact ⟨_, by simp, _, scan_single (h.idxOf_lt ho), List.getElem?_idxOf ho⟩

/-! ## `_Work` as a script -/

theorem exec_workScript {t : Table} {wk : Worked} (h : op.work t env = some wk)
    (hf : wk.fault = false) {s : Run} (hs : s.ctx.sockets = t) :
    (workScript op env).exec s = .ok (s.withSockets wk.table, wk.result) := by
  have hresult := (work_result h hf).2
  have hdone : decide (¬ (op.desc.loop?.isSome ∧ .fail EWOULDBLOCK ∈ env.results)) =
      wk.result := by
    cases hr : wk.result with
    | false => simpa using hresult.mp hr
    | true => exact decide_eq_true fun hblocks => absurd (hresult.mpr hblocks) (by simp [hr])
  have hsame : wk.table = t → s.withSockets wk.table = s := by
    rintro rfl
    rw [← hs]
    rfl
  cases hdesc : op.desc with
  | accept id =>
    have h' := h
    rw [work_accept hdesc] at h'
    rcases acceptWork_table h' hf with ⟨fd, id', hloop, hmake, htrue⟩ | ⟨hloop, htable⟩
    · simp only [workScript, hdesc, hloop, Script.exec, hs, hmake, htrue]
    · unfold workScript
      split
      next fd _ hloop' => exact absurd hloop' (hloop fd)
      next => rw [Script.exec, hdone, hsame htable]
  | _ =>
    have htable := hsame (work_table_of_ne h (by simp [hdesc]))
    rw [hdesc] at hdone
    simp only [workScript, hdesc, Script.exec, htable, hdone]

/-- **One registration**: what a submission of an accept does to the context is what
`_Add_Outstanding` does. -/
theorem addOutstanding_of_accept {id : SocketId} {e : Effect PollContext} {b : Bool}
    (hdesc : op.desc = .accept id) (h : accept ctx o op env = some (e, b)) (hf : e.fault = false) :
    ∃ s', addOutstanding { ctx := ctx } o id op.desc.events (workScript op env).exec = .ok (s', b) ∧
      s'.ctx = e.ctx := by
  simp only [accept, hdesc, Desc.id] at h
  split at h
  next =>
    obtain ⟨rfl, -⟩ := Prod.mk.inj (Option.some.inj h)
    cases hf
  next r hget =>
    have hhandle : ctx.sockets.nativeHandle id = .ok r.handle := by
      rw [Table.nativeHandle, hget]
      rfl
    split at h
    next hblocking =>
      obtain ⟨rfl, rfl⟩ := Prod.mk.inj (Option.some.inj h)
      simp only [addOutstanding, hget, hblocking, if_true, hhandle]
      exact ⟨_, rfl, rfl⟩
    next hblocking =>
      obtain ⟨wk, hwk, heq⟩ := Option.map_eq_some_iff.mp h
      have hwork : (op.log (.submitted env (some r.number))).work ctx.sockets env = some wk := by
        have hdesc' : (op.log (.submitted env (some r.number))).desc = .accept id := hdesc
        rw [work_accept hdesc']
        exact hwk
      have hscript : workScript (op.log (.submitted env (some r.number))) env =
          workScript op env := rfl
      simp only [addOutstanding, hget, hblocking, Bool.false_eq_true, if_false, ← hscript]
      cases hresult : wk.result with
      | true =>
        simp only [hresult, if_true, Prod.mk.injEq] at heq
        obtain ⟨rfl, rfl⟩ := heq
        rw [exec_workScript hwork hf rfl, hresult]
        exact ⟨_, rfl, rfl⟩
      -- the record is looked up once more, in the table that `_Work` has left as it was
      | false =>
        simp only [hresult, Bool.false_eq_true, if_false, Prod.mk.injEq] at heq
        obtain ⟨rfl, rfl⟩ := heq
        have hwf : wk.fault = false ∧ wk.table = ctx.sockets := by
          cases work_spec hwork with
          | stray _ hnone =>
            have hrec : ctx.sockets.record op.desc.id = some r := by
              rw [hdesc]
              exact Container.get_eq_ok.mp hget
            cases hrec.symm.trans hnone
          | settled _ _ _ _ _ _ _ _ _ _ _ _ htrue =>
            cases htrue.symm.trans hresult
          | waiting _ htable _ _ _ _ _ _ hfault => exact ⟨hfault, htable⟩
        rw [exec_workScript hwork hwf.1 rfl, hresult, hwf.2]
        simp only [Run.withSockets, hhandle]
        exact ⟨_, rfl, rfl⟩

/-! ## The dispatch -/

/-- A `run_one` that finds an entry removes it and runs the `_Work` of its operation. -/
theorem runOne_of_scan {s : Run} (work : Script) {i : ℕ}
    (hlength : revents.length = s.ctx.poll.length)
    (hscan : scan (report s.ctx.poll revents) (report s.ctx.poll revents).length = some i)
    (ho : s.ctx.outstanding[i]? = some o) :
    ∃ r, runOne s ⟨[.ok revents], work⟩ =
      some ((work.exec (removed (polled s revents) i r)).map fun t => (t.1, 1)) := by
  obtain ⟨p, hp, -⟩ := scan_spec hscan
  have hne : s.ctx.poll ≠ [] := by
    intro hnil
    rw [hnil] at hp
    cases hp
  refine ⟨⟨o, p.fd, p.events⟩, ?_⟩
  simp only [runOne, if_neg hne, loop, hlength, if_true, hscan, dispatchAt, hp, ho]
  rfl

/-- **One dispatch**: in a state of a program in which no function is executing, a `run_one` whose
scan finds the operation does to the context what the readiness indication does, and returns 1. -/
theorem runOne_of_ready (h : RunInv prompt w) (hselects : Selects w.ctx revents o)
    (hop : w.ops[o]? = some op) (hstep : w.step (.ready o env) = some w')
    (hc' : w'.crashed = false) :
    ∃ s', runOne { ctx := w.ctx } ⟨[.ok revents], workScript op env⟩ = some (.ok (s', 1)) ∧
      s'.ctx.sockets = w'.ctx.sockets ∧ s'.ctx.outstanding = w'.ctx.outstanding ∧
      s'.ctx.registrations = w'.ctx.registrations := by
  obtain ⟨hlength, i, hscan, ho⟩ := hselects
  obtain ⟨r, hrunOne⟩ := runOne_of_scan (s := { ctx := w.ctx }) (workScript op env) hlength hscan ho
  obtain ⟨hlt, rfl⟩ := List.getElem?_eq_some_iff.mp ho
  -- the operation stands at one place only
  have hidx : w.ctx.outstanding.idxOf w.ctx.outstanding[i] = i := h.nodup.idxOf_getElem i hlt
  have hi : i < w.ctx.poll.length := by
    rw [h.parallel]
    exact hlt
  obtain ⟨-, hcases⟩ := step_cases hstep
  cases hcases with
  | @ready _ _ op' e htodo hop' hreg he =>
    cases hop.symm.trans hop'
    have hf := fault_eq_false hc'
    obtain ⟨wk, hwork, rfl⟩ := Option.map_eq_some_iff.mp he
    have hexec := exec_workScript hwork hf (s := removed (polled { ctx := w.ctx } revents) i r) rfl
    have hscript : workScript (op.log .dispatched) env = workScript op env := rfl
    rw [hscript] at hexec
    rw [hexec] at hrunOne
    refine ⟨_, hrunOne, ?_⟩
    rw [apply_ctx hf, hidx]
    refine ⟨rfl, rfl, ?_⟩
    have hparallel : (polled { ctx := w.ctx } revents).ctx.Parallel :=
      (length_report hlength).trans h.parallel
    have hi' : i < (polled { ctx := w.ctx } revents).ctx.poll.length := by
      rw [polled, length_report hlength]
      exact hi
    calc ((polled { ctx := w.ctx } revents).ctx.remove i).registrations
        = swapRemove (polled { ctx := w.ctx } revents).ctx.registrations i :=
          (registrations_remove hparallel hi').2
      _ = swapRemove w.ctx.registrations i := by rw [polled, registrations_report hlength]
      _ = (w.ctx.remove i).registrations := (registrations_remove h.parallel hi).2.symm

end PollContext

end Stdnet
