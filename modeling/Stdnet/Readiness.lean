import Stdnet.LibeventRuns
import Stdnet.PollRuns

/-!
# Operations that Wait for Another Readiness Indication

A `_Work` function returns false when its call reported EWOULDBLOCK. `_Add_Outstanding` honours this
result; the two dispatchers, `_Libevent_callback` and `run_one`, have taken the operation off the
context before and ignore it, so that nothing will ever complete the operation.

## Main results

- `retained_iff`: on both contexts, the runs in which no operation is lost.
-/

namespace Stdnet

open ListEntries History World

section Statement

variable {κ : Type*} [ContextBase κ]

/-- `_Work` has just returned false; or the receiver has not been signalled, and no function is
executing on the operation. -/
def Unfinished (w : World κ) (o : OpId) (op : CpoState) : Prop :=
  op.history.getLast? = some (.worked false) ∨ signals op.history = [] ∧ frames o w.todo = []

/-- The id of the operation names a socket, if it is an operation on one. -/
def Live (w : World κ) (op : CpoState) : Prop :=
  op.desc.onSocket → (ContextBase.sockets w.ctx).record op.desc.id ≠ none

/-- A readiness indication with these results completes the operation: its `_Work` returns true, and
its receiver has been signalled when the function that `_Work` called has returned. -/
def CompletesWith (w : World κ) (o : OpId) (env : Env) : Prop :=
  ∃ w₁ op₁ w₂ op₂, w.step (.ready o env) = some w₁ ∧ w₁.ops[o]? = some op₁ ∧
    op₁.history.getLast? = some (.worked true) ∧
    World.run w₁ [.perform {}, .perform {}] = some w₂ ∧ w₂.crashed = false ∧
    w₂.ops[o]? = some op₂ ∧ signals op₂.history ≠ []

/-- A readiness indication can complete the operation, and none fails to unless one of its calls
reports EWOULDBLOCK. -/
def Completable (w : World κ) (o : OpId) : Prop :=
  (∃ env, CompletesWith w o env) ∧
    ∀ (env : Env) (w' : World κ), w.step (.ready o env) = some w' →
      .fail EWOULDBLOCK ∉ env.results → CompletesWith w o env

/-- Unless an exception has ended the program, no operation is lost: each that is unfinished is
registered with the context and, while its id is live, the event loop can complete it. -/
def Retained (Registered : World κ → OpId → CpoState → Prop) (w : World κ) : Prop :=
  w.crashed = false → ∀ (o : OpId) (op : CpoState), w.ops[o]? = some op → Unfinished w o op →
    Registered w o op ∧ (w.todo = [] → Live w op → Completable w o)

/-- The step is a readiness callback of an accept, a receive or a send on a socket that is open, and
one of its calls reports EWOULDBLOCK. -/
def Blocks (w : World κ) : Label → Prop
  | .ready o env => ∃ op, w.ops[o]? = some op ∧ op.desc.loop?.isSome ∧
      (ContextBase.sockets w.ctx).record op.desc.id ≠ none ∧ .fail EWOULDBLOCK ∈ env.results
  | _ => False

/-- The step starts an operation on a source whose stop was requested. -/
def StartsStopped (w : World κ) : Label → Prop
  | .start _ token => w.stopped token = true
  | _ => False

/-! ## Readiness indications -/

/-- The event loop can deliver a readiness indication to the operation, if it is unfinished. -/
def HeldAt (w : World κ) (o : OpId) (op : CpoState) : Prop :=
  Unfinished w o op → ContextBase.isRegistered w.ctx o op = true

/-- Unless an exception has ended the program, it can for all that are unfinished. -/
def Held (w : World κ) : Prop :=
  w.crashed = false → ∀ (o : OpId) (op : CpoState), w.ops[o]? = some op → HeldAt w o op

/-- The step is a call of `_Cancel` of an operation. On the poll context only a `_Start` that finds
a stop requested makes it. -/
def Cancels (w : World κ) : Label → Prop
  | .perform _ => ∃ o rest, w.todo = .op o .cancel :: rest
  | _ => False

/-- How a readiness callback ends: the program ends because the id of the operation is not live, or
the operation is kept exactly if no call blocked. -/
inductive ReadyEnd (w : World κ) (o : OpId) (op : CpoState) (env : Env) (e : Effect κ) : Prop where
  | stray (hfault : e.fault = true) (hnone : (ContextBase.sockets w.ctx).record op.desc.id = none)
  | worked (hfault : e.fault = false) (hlive : Live w op)
      (hiff : HeldAt (w.apply o [] e) o e.op ↔
        ¬ (op.desc.loop?.isSome ∧ .fail EWOULDBLOCK ∈ env.results))

variable {w w' : World κ} {o : OpId} {op op' : CpoState} {t : Table} {env : Env}

/-- Unless it ends the program, nothing but a blocked call loses the operation. -/
theorem ReadyEnd.not_blocks_iff {e : Effect κ} (h : ReadyEnd w o op env e)
    (hop : w.ops[o]? = some op) :
    ¬ Blocks w (.ready o env) ↔ (e.fault = false → HeldAt (w.apply o [] e) o e.op) := by
  cases h with
  | stray hfault hnone =>
    refine iff_of_true ?_ fun hf => absurd (hfault.symm.trans hf) nofun
    rintro ⟨op', hop', -, hlive, -⟩
    cases hop.symm.trans hop'
    exact hlive hnone
  | worked hfault hlive hiff =>
    rw [hiff]
    constructor
    · rintro hnot - ⟨hloop, hresult⟩
      exact hnot ⟨op, hop, hloop, hlive (Desc.onSocket_of_loop hloop), hresult⟩
    · rintro hnot ⟨op', hop', hloop, -, hresult⟩
      cases hop.symm.trans hop'
      exact hnot hfault ⟨hloop, hresult⟩

/-! ## Steps that leave an operation alone -/

/-- An operation that was just started has steps to run. -/
theorem heldAt_new {l : Label} (hstep : w.step l = some w') (hnone : w.ops[o]? = none)
    (hop' : w'.ops[o]? = some op') : HeldAt w' o op' := by
  obtain ⟨d, token, rfl, rfl, rfl, rfl⟩ := step_new_op hstep hnone hop'
  rintro (hlast | ⟨-, hframes⟩)
  · cases hlast
  · rw [World.start, frames_append, frames_map_self] at hframes
    cases hframes

omit [ContextBase κ] in
/-- No step but the submission and the call of the context ends in `_Work`. -/
theorem perform_last [ContextBase κ] {m : AtomicStep} {stopped : Bool} {env : Env} {ctx : κ}
    {e : Effect κ} (hsubmit : m ≠ .submit) (hcancel : m ≠ .contextCancel)
    (he : m.perform stopped env ctx o op = some e) (b : Bool) :
    e.op.history.getLast? ≠ some (.worked b) := by
  cases m with
  | submit => exact absurd rfl hsubmit
  | contextCancel => exact absurd rfl hcancel
  | complete | error | cancel | cancelComplete =>
    obtain rfl := Option.some.inj he
    by_cases hzero : op.outstanding - 1 = 0 <;>
      simp [decrement, Effect.logSignal, CpoState.log, hzero]
  | emplace =>
    cases stopped <;> obtain rfl := Option.some.inj he <;> simp [Effect.logSignal, CpoState.log]
  | reset =>
    obtain rfl := Option.some.inj he
    cases hcb : op.callback <;> simp [Effect.logSignal, CpoState.log, CpoState.reset, hcb]
  | increment | testStop | enter | leave =>
    obtain rfl := Option.some.inj he
    simp [Effect.logSignal, CpoState.log]

omit [ContextBase κ] in
/-- The report of an outcome decrements the counter, and signals if that makes it zero. -/
theorem perform_report [ContextBase κ] (wk : WorkEnd) (stopped : Bool) (env : Env) (ctx : κ)
    (o : OpId) (op : CpoState) : ∃ s, wk.report.perform stopped env ctx o op =
      some (decrement ctx (op.log (.ran wk.report)) s).logSignal := by
  cases wk with
  | error e => exact ⟨.error e, rfl⟩
  | value | closed | wouldBlock => exact ⟨op.setValue, rfl⟩

omit [ContextBase κ] in
/-- A call on a live socket that fails settles every operation. -/
theorem work_of_live (hlive : op.desc.onSocket → t.record op.desc.id ≠ none) :
    ∃ wk, op.work t { results := [.fail 1] } = some wk := by
  cases hdesc : op.desc with
  | accept id | receive id | send id | connect id =>
    obtain ⟨r, hr⟩ := Option.ne_none_iff_exists'.mp (hlive (by rw [hdesc]; trivial))
    have hget := Container.get_eq_ok.mpr hr
    rw [hdesc] at hget
    simp only [CpoState.work, acceptWork, connectWork, transferWork, withHandle, hdesc, hget]
    exact ⟨_, rfl⟩
  | resumeAfter d | resumeAt p =>
    simp only [CpoState.work, hdesc, timerWork]
    exact ⟨_, rfl⟩

/-- The function that reports the end of an operation resets the stop callback and decrements the
counter; after it the receiver has been signalled. -/
theorem run_report {r : WorkEnd} (hc : w.crashed = false)
    (htodo : w.todo = [.op o .reset, .op o r.report]) (hop : w.ops[o]? = some op)
    (hsignal : signals op.history ≠ [] ∨ op.outstanding = 1) :
    ∃ w' op', World.run w [.perform {}, .perform {}] = some w' ∧ w'.crashed = false ∧
      w'.ops[o]? = some op' ∧ signals op'.history ≠ [] := by
  have hreset : w.step (.perform {}) = some (w.apply o [.op o r.report]
      ⟨w.ctx, (op.log (.ran .reset)).reset, [], none, false⟩) := step_perform hc htodo hop rfl
  have hstate : signals (op.log (.ran .reset)).reset.history = signals op.history ∧
      (op.log (.ran .reset)).reset.outstanding = op.outstanding := by
    cases hcb : op.callback <;> simp [CpoState.reset, CpoState.log, hcb]
  generalize (op.log (.ran .reset)).reset = op₁ at hreset hstate
  obtain ⟨hsame, hout⟩ := hstate
  have hop₁ : (w.apply o [.op o r.report] ⟨w.ctx, op₁, [], none, false⟩).ops[o]? = some op₁ := by
    rw [apply_ops]
    exact getElem?_set_of_some hop
  have hc₁ : (w.apply o [.op o r.report] ⟨w.ctx, op₁, [], none, false⟩).crashed = false := hc
  have htodo₁ : (w.apply o [.op o r.report] ⟨w.ctx, op₁, [], none, false⟩).todo =
    [.op o r.report] := rfl
  generalize w.apply o [.op o r.report] ⟨w.ctx, op₁, [], none, false⟩ = w₁ at *
  obtain ⟨s, hs⟩ := perform_report r (w₁.stopped op₁.token) {} w₁.ctx o op₁
  refine ⟨_, _, (StepMachine.run_cons_eq_some World.step).mpr ⟨w₁, hreset,
    (StepMachine.run_cons_eq_some World.step).mpr ⟨_, step_perform hc₁ htodo₁ hop₁ hs, rfl⟩⟩,
    (apply_crashed ?_).trans hc₁, by rw [apply_ops]; exact getElem?_set_of_some hop₁, ?_⟩
  · by_cases hzero : op₁.outstanding - 1 = 0 <;>
      simp [decrement, Effect.logSignal, CpoState.log, hzero]
  · rw [← hsame, ← hout] at hsignal
    rcases hsignal with hsignal | hone
    · by_cases hzero : op₁.outstanding - 1 = 0 <;>
        simp [decrement, Effect.logSignal, CpoState.log, hzero, hsignal]
    · simp [decrement, Effect.logSignal, CpoState.log, hone]

/-- What a readiness indication does when it runs the `_Work` of `op'` and no call reports
EWOULDBLOCK. -/
theorem completesWith_of_work {f : Table → κ} {wk : Worked} (htodo : w.todo = [])
    (hc : w.crashed = false) (hop : w.ops[o]? = some op)
    (hreg : ContextBase.isRegistered w.ctx o op = true)
    (hready : ContextBase.ready w.ctx o op env =
      (op'.work t env).map fun wk => ⟨f wk.table, wk.op, wk.next, none, wk.fault⟩)
    (hwork : op'.work t env = some wk) (hlive : op'.desc.onSocket → t.record op'.desc.id ≠ none)
    (hsignal : signals op'.history ≠ [] ∨ op'.outstanding = 1)
    (henv : .fail EWOULDBLOCK ∉ env.results) : CompletesWith w o env := by
  rw [hwork, Option.map_some] at hready
  have hstep := step_ready hc htodo hop hreg hready
  cases work_spec hwork with
  | stray hon hnone => exact absurd hnone (hlive hon)
  | waiting _ _ _ _ _ _ _ _ hfault hresult =>
    exact absurd ((work_result hwork hfault).2.mp hresult).2 henv
  | settled r a n added _ hadded _ hop' _ hnext _ hfault hresult =>
    have hlast := (work_result hwork hfault).1
    rw [hresult] at hlast
    have hop₁ : (w.apply o [] ⟨f wk.table, wk.op, wk.next, none, wk.fault⟩).ops[o]? = some wk.op := by
      rw [apply_ops]
      exact getElem?_set_of_some hop
    generalize hw₁ : w.apply o [] ⟨f wk.table, wk.op, wk.next, none, wk.fault⟩ = w₁ at hstep hop₁
    have hc₁ : w₁.crashed = false := by
      rw [← hw₁]
      exact (apply_crashed hfault).trans hc
    have htodo₁ : w₁.todo = [.op o .reset, .op o r.report] := by
      rw [← hw₁]
      simp [World.apply, hfault, hnext]
    have hsignal₁ : signals wk.op.history ≠ [] ∨ wk.op.outstanding = 1 := by
      simpa [hop', signals_of_isWork hadded] using hsignal
    obtain ⟨w₂, op₂, hrun, hc₂, hop₂, hsignals⟩ := run_report hc₁ htodo₁ hop₁ hsignal₁
    exact ⟨w₁, wk.op, w₂, op₂, hstep, hop₁, hlast, hrun, hc₂, hop₂, hsignals⟩

/-- A readiness indication that runs the `_Work` of `op'` can complete the operation. -/
theorem completable_of_ready (op' : CpoState) (f : Table → κ) (htodo : w.todo = [])
    (hc : w.crashed = false) (hop : w.ops[o]? = some op)
    (hreg : ContextBase.isRegistered w.ctx o op = true)
    (hready : ∀ env, ContextBase.ready w.ctx o op env =
      (op'.work (ContextBase.sockets w.ctx) env).map fun wk =>
        ⟨f wk.table, wk.op, wk.next, none, wk.fault⟩)
    (hdesc : op'.desc = op.desc) (hlive : Live w op)
    (hsignal : signals op'.history ≠ [] ∨ op'.outstanding = 1) : Completable w o := by
  have hlive' : op'.desc.onSocket → (ContextBase.sockets w.ctx).record op'.desc.id ≠ none := by
    rw [hdesc]
    exact hlive
  constructor
  · obtain ⟨wk, hwork⟩ := work_of_live hlive'
    exact ⟨_, completesWith_of_work htodo hc hop hreg (hready _) hwork hlive' hsignal (by decide)⟩
  · intro env w' hstep henv
    obtain ⟨-, hcases⟩ := step_cases hstep
    cases hcases with
    | ready _ hop' _ he =>
      cases hop.symm.trans hop'
      rw [hready, Option.map_eq_some_iff] at he
      obtain ⟨wk, hwork, -⟩ := he
      exact completesWith_of_work htodo hc hop hreg (hready env) hwork hlive' hsignal henv

end Statement

/-- How the `_Work` that a readiness callback runs ends: the id of the operation is not live; or it
returns true and has steps to run; or it returns false. -/
theorem work_end {t : Table} {op : CpoState} {env : Env} {wk : Worked}
    (h : op.work t env = some wk) : (wk.fault = true ∧ t.record op.desc.id = none) ∨
      (wk.fault = false ∧ (op.desc.onSocket → t.record op.desc.id ≠ none) ∧
        ∃ b, wk.op.history.getLast? = some (.worked b) ∧ (b = true → wk.next ≠ []) ∧
          (b = false ↔ op.desc.loop?.isSome ∧ .fail EWOULDBLOCK ∈ env.results)) := by
  have hlive : ∀ {added}, CallsOn t op added → op.desc.onSocket → t.record op.desc.id ≠ none := by
    intro added hcalls hon
    obtain ⟨n, r, hcall⟩ := hcalls.some_call.mp hon
    obtain ⟨rec, hrec, -⟩ := hcalls.number n r hcall
    rw [hrec]
    exact Option.some_ne_none rec
  cases work_spec h with
  | stray _ hnone _ _ hfault => exact .inl ⟨hfault, hnone⟩
  | settled _ _ _ _ _ _ hcalls _ _ hnext _ hfault hresult =>
    obtain ⟨hlast, hiff⟩ := work_result h hfault
    refine .inr ⟨hfault, hlive hcalls, wk.result, hlast, fun _ => ?_, hiff⟩
    rw [hnext]
    exact List.cons_ne_nil _ _
  | waiting _ _ _ hcalls _ _ _ _ hfault hresult =>
    obtain ⟨hlast, hiff⟩ := work_result h hfault
    exact .inr ⟨hfault, hlive hcalls, wk.result, hlast,
      fun htrue => absurd (hresult.symm.trans htrue) nofun, hiff⟩

namespace LibeventContext

variable {w w' : LibeventWorld} {o : OpId} {op : CpoState} {stopped : Bool} {env : Env}
  {ctx : LibeventContext} {m : AtomicStep} {rest : List AtomicStep} {e : Effect LibeventContext}

theorem perform_last (he : m.perform stopped env ctx o op = some e) :
    e.op.history.getLast? ≠ some (.worked false) := by
  -- a submission on this context does not run `_Work`
  by_cases hsubmit : m = .submit
  · subst hsubmit
    obtain ⟨r, hspec, rfl⟩ := perform_submit_cases he
    cases hspec <;> simp [Effect.logSignal, CpoState.log]
  · by_cases hcancel : m = .contextCancel
    · subst hcancel
      obtain rfl := Option.some.inj he
      simp [Effect.logSignal, CpoState.log, ContextBase.cancel, cancel, disarm]
    · exact Stdnet.perform_last hsubmit hcancel he false

/-- A function of `_Cpo_State` that returns without a signal leaves an armed event. -/
theorem Phase.armed_of_nil (h : Phase ctx.sockets stopped op (m :: rest))
    (he : m.perform stopped env ctx o op = some e) (hf : e.fault = false)
    (hs : signals e.op.history = []) (hnil : e.next ++ rest = []) : e.op.isArmed = true := by
  obtain ⟨hnext, rfl⟩ := List.append_eq_nil_iff.mp hnil
  generalize hfs : [m] = fs at h
  have hkept := perform_kept he
  obtain ⟨added, hhist, hsignals⟩ := hkept.history
  rw [hhist, signals_append, List.append_eq_nil_iff, hsignals] at hs
  cases h with
  -- the test of the token leads to another step
  | testing h hstop =>
    cases hfs
    subst hstop
    obtain rfl := Option.some.inj he
    cases hnext
  | submitting h =>
    cases hfs
    obtain ⟨-, -, hcalls, hphase⟩ := perform_submit h he hf
    rw [hnext] at hphase
    cases hphase with
    | pending h => exact h.armed.mpr (by rw [hcalls]; exact List.not_mem_nil)
    | done h =>
      have hnil : signals e.op.history = [] := by
        rw [hhist, signals_append, hsignals, hs.1, hs.2]
        rfl
      rw [h.signals] at hnil
      cases hnil
  | reporting h hcb =>
    cases hfs
    obtain ⟨-, -, -, hsignal, -⟩ := h.perform_report hcb he
    rw [hsignal] at hs
    cases hs.2
  | done h =>
    rw [h.signals] at hs
    cases hs.1
  | _ => cases hfs

/-- A readiness callback ends the program if the id of the operation is not live. Otherwise it keeps
the operation exactly if no call blocked, because the event was disarmed. -/
theorem ready_cases (o : OpId) (he : callback w.ctx op env = some e) : ReadyEnd w o op env e := by
  simp only [callback, Option.map_eq_some_iff] at he
  obtain ⟨wk, hwk, rfl⟩ := he
  have hdis : wk.op.isArmed = false := by
    have hdis := isArmed_disarm op
    cases work_spec hwk with
    | stray _ _ _ hop | settled _ _ _ _ _ _ _ hop | waiting _ _ _ _ hop => rw [hop]; exact hdis
  rcases work_end hwk with ⟨hfault, hnone⟩ | ⟨hf, hlive, b, hlast, hnext, hb⟩
  · exact .stray hfault hnone
  refine .worked hf hlive ?_
  have hb' : b = false ↔ op.desc.loop?.isSome ∧ .fail EWOULDBLOCK ∈ env.results := hb
  rw [← hb', HeldAt, Unfinished, frames_apply_self hf, World.frames_nil, List.append_nil]
  simp only [ContextBase.isRegistered, hdis, hlast]
  cases b with
  | false => simp
  | true => simp [hnext rfl]

/-- Nothing but a blocked call loses an operation. -/
theorem held_step {l : Label} (h : RunInv w) (hheld : Held w) (hstep : w.step l = some w') :
    Held w' ↔ ¬ Blocks w l := by
  obtain ⟨hc, hstepped⟩ := step_cases hstep
  constructor
  · rintro hheld' hblocks
    cases hstepped with
    | @ready env o op e htodo hop hreg he =>
      refine ((ready_cases o he).not_blocks_iff hop).mpr (fun hf => ?_) hblocks
      exact hheld' ((apply_crashed hf).trans hc) o e.op (by
        rw [apply_ops]; exact getElem?_set_of_some hop)
    | _ => exact hblocks
  · intro hnot hc' o op' hop'
    cases hold : w.ops[o]? with
    | none => exact heldAt_new hstep hold hop'
    | some op =>
      have hat := hheld hc o op hold
      have hphase := h.phase_of hc hold
      cases step_op hstep hold hop' with
      | same hl hframes =>
        rw [HeldAt, Unfinished, hframes]
        exact hat
      | callback htodo hcb hframes =>
        rintro (hlast | ⟨-, hnil⟩)
        · exact hat (.inl hlast)
        · rw [hframes] at hnil
          cases hnil
      | @perform env m rest e htodo he =>
        have hf := fault_eq_false hc'
        rw [htodo, frames_op_self] at hphase
        rintro (hlast | ⟨hs, hnil⟩)
        · exact absurd hlast (perform_last he)
        · rw [frames_apply_self hf] at hnil
          exact hphase.armed_of_nil he hf hs hnil
      | @ready env e htodo hreg he =>
        exact ((ready_cases o he).not_blocks_iff hold).mp hnot (fault_eq_false hc')

/-- The event of the operation is armed. -/
def Registered (_ : LibeventWorld) (_ : OpId) (op : CpoState) : Prop :=
  op.isArmed = true

/-- An operation whose event is armed has not signalled, so a readiness indication completes it. -/
theorem retained_iff_held (h : RunInv w) : Retained Registered w ↔ Held w := by
  refine ⟨fun hret hc o op hop hun => (hret hc o op hop hun).1, fun hheld hc o op hop hun => ?_⟩
  have harmed : op.isArmed = true := hheld hc o op hop hun
  refine ⟨harmed, fun htodo hlive => ?_⟩
  refine completable_of_ready ((disarm op).log .dispatched) (fun t => { w.ctx with sockets := t })
    htodo hc hop harmed (fun _ => rfl) rfl hlive (.inr ?_)
  have hphase := h.phase_of hc hop
  rw [htodo, World.frames_nil] at hphase
  cases hphase with
  | pending h => exact h.outstanding
  | done h => exact absurd (h.disarmed.symm.trans harmed) nofun

end LibeventContext

namespace PollContext

variable {prompt : Prop} {w w' : PollWorld} {o : OpId} {op : CpoState} {stopped : Bool} {env : Env}
  {ctx : PollContext} {m : AtomicStep} {rest : List AtomicStep} {e : Effect PollContext}

theorem perform_last (hsubmit : m ≠ .submit) (he : m.perform stopped env ctx o op = some e) :
    e.op.history.getLast? ≠ some (.worked false) := by
  by_cases hcancel : m = .contextCancel
  · subst hcancel
    obtain rfl := Option.some.inj he
    simp [Effect.logSignal, CpoState.log, ContextBase.cancel]
  · exact Stdnet.perform_last hsubmit hcancel he false

/-- Only the `_Cancel` in `_Start` leaves an operation without a signal and without steps. -/
theorem Phase.cancel_of_nil (h : Phase prompt stopped op (m :: rest))
    (hprompt : prompt → ctx.sockets.AllBlocking)
    (he : m.perform stopped env ctx o op = some e) (hf : e.fault = false)
    (hs : signals e.op.history = []) (hnil : e.next ++ rest = []) : m = .cancel := by
  obtain ⟨hnext, rfl⟩ := List.append_eq_nil_iff.mp hnil
  generalize hfs : [m] = fs at h
  cases h with
  | testing h hstop =>
    cases hfs
    subst hstop
    obtain rfl := Option.some.inj he
    cases hnext
  | submitting h =>
    cases hfs
    obtain ⟨hphase, hsub, -⟩ := perform_submit h hprompt he hf
    generalize hfs' : e.next = fs' at hphase
    cases hphase with
    | halting h => exact absurd h.unsubmitted hsub
    | answered h => exact absurd hs h.signals
    | _ => rw [hnext] at hfs'; cases hfs'
  | halting h hstop hsteps =>
    generalize hout : op.outstanding = out at hsteps
    cases hsteps <;> cases hfs
    · -- the test of the token finds the stop
      subst hstop
      obtain rfl := Option.some.inj he
      cases hnext
    · rfl
  | answering h hcb =>
    cases hfs
    exact absurd hs (h.perform hcb he).2.2.signals
  | answered h hsteps =>
    exact absurd hs (signalled_of_grows h.signals (perform_kept he).grows)
  | _ => cases hfs

/-- An operation that halted is lost: it is not in the vectors, because it was not submitted. -/
theorem RunInv.not_held_of_halted (h : RunInv prompt w) (hc : w.crashed = false)
    (hop : w.ops[o]? = some op) (hh : Halted op) (hnil : frames o w.todo = []) : ¬ Held w := by
  intro hheld
  have hreg := hheld hc o op hop (.inr ⟨hh.signals, hnil⟩)
  obtain ⟨x, hx, hsub⟩ := h.submitted o (mem_of_isRegistered hreg)
  cases hx.symm.trans hop
  exact hsub hh.unsubmitted

/-- Only an operation that halts comes to the `_Cancel` in `_Start`. -/
theorem Phase.halting_of_cancel (h : Phase prompt stopped op (.cancel :: rest)) :
    Halted op ∧ stopped = true ∧ Halting op.outstanding (.cancel :: rest) := by
  generalize hfs : AtomicStep.cancel :: rest = fs at h
  cases h with
  | halting h hstop hsteps =>
    subst hfs
    exact ⟨h, hstop, hsteps⟩
  | answering h =>
    cases hfs
    rcases h.reporting with hm | ⟨x, hm⟩ <;> cases hm
  | answered h hsteps =>
    subst hfs
    rcases hsteps with hnil | ⟨m, hm, hsteps | hsteps⟩
    · cases hnil
    · cases hsteps
    · cases hsteps
      rcases hm with hm | ⟨x, hm⟩ <;> cases hm
  | _ => cases hfs

/-- The `_Cancel` in `_Start` leaves the operation unsubmitted and without a signal. -/
theorem Phase.halted_of_cancel (h : Phase prompt stopped op (.cancel :: rest))
    (he : AtomicStep.perform .cancel stopped env ctx o op = some e) :
    e.fault = false ∧ e.next ++ rest = [] ∧ Halted e.op := by
  obtain ⟨hh, rfl, hsteps⟩ := h.halting_of_cancel
  obtain ⟨-, hhalted, -⟩ := hh.perform hsteps he
  generalize hout : op.outstanding = out at hsteps
  cases hsteps
  obtain rfl := Option.some.inj he
  have hpos : (op.log (.ran .cancel)).outstanding - 1 ≠ 0 := by simp [CpoState.log, hout]
  refine ⟨?_, ?_, hhalted⟩ <;> simp [decrement, Effect.logSignal, hpos]

/-- An operation in the vectors has signalled when it was started. -/
theorem Phase.signalled_of_submitted (h : Phase prompt stopped op [])
    (hsub : ¬ Unsubmitted op.history) : signals op.history ≠ [] := by
  generalize hfs : ([] : List AtomicStep) = fs at h
  cases h with
  | halting h => exact absurd h.unsubmitted hsub
  | answered h => exact h.signals
  | _ => cases hfs

/-- A readiness indication ends the program if the id of the operation is not live. Otherwise it
keeps the operation exactly if no call blocked, because `run_one` removed its entry. -/
theorem ready_cases (h : RunInv prompt w) (htodo : w.todo = []) (hop : w.ops[o]? = some op)
    (hc : w.crashed = false) (hmem : o ∈ w.ctx.outstanding)
    (he : dispatch w.ctx o op env = some e) : ReadyEnd w o op env e := by
  obtain ⟨op', hop', hsub⟩ := h.submitted o hmem
  cases hop.symm.trans hop'
  have hphase := h.phase hc o op hop
  rw [htodo, World.frames_nil] at hphase
  obtain ⟨wk, hwk, heq⟩ := Option.map_eq_some_iff.mp he
  have hfault : e.fault = wk.fault := by rw [← heq]
  rcases work_end hwk with ⟨hstray, hnone⟩ | ⟨hf, hlive, -⟩
  · exact .stray (hfault.trans hstray) hnone
  rw [← hfault] at hf
  obtain ⟨hphase', -, hout, -, b, hlast, hb⟩ := hphase.dispatch hsub he hf
  refine .worked hf hlive ?_
  have hctx : (w.apply o [] e).ctx = e.ctx := apply_ctx hf
  have hgone : ContextBase.isRegistered (w.apply o [] e).ctx o e.op = false := by
    have hnot : o ∉ e.ctx.outstanding := by
      rw [hout, mem_swapRemove h.nodup hmem]
      exact fun hself => hself.1 rfl
    rw [hctx, ← Bool.not_eq_true]
    exact fun hreg => hnot (mem_of_isRegistered hreg)
  have hsignalled : signals e.op.history ≠ [] :=
    signalled_of_grows (hphase.signalled_of_submitted hsub)
      ((dispatch_silent he).kept true).grows
  rw [← hb, HeldAt, Unfinished, hgone, hlast]
  cases b <;> simp [hsignalled]

/-- Another operation keeps its place in the vectors. -/
theorem mem_of_ne (h : RunInv prompt w) {l : Label} (hstep : w.step l = some w')
    (hl : ∀ env, l ≠ .ready o env) (hmem : o ∈ w.ctx.outstanding) : o ∈ w'.ctx.outstanding := by
  cases (h.vector_cases hstep).1 with
  | same _ hout =>
    rw [hout]
    exact hmem
  | added _ _ _ _ _ _ hout =>
    rw [hout]
    exact List.mem_append_left _ hmem
  | @removed env _ o' hmem' _ hout =>
    rw [hout, mem_swapRemove h.nodup hmem']
    exact ⟨fun hself => hl env (by rw [hself]), hmem⟩

/-- Nothing but a blocked call and the `_Cancel` in `_Start` loses an operation. -/
theorem held_step {l : Label} (h : RunInv prompt w) (hheld : Held w)
    (hstep : w.step l = some w') : Held w' ↔ ¬ Blocks w l ∧ ¬ Cancels w l := by
  obtain ⟨hc, hstepped⟩ := step_cases hstep
  have h' := h.step hstep
  constructor
  · intro hheld'
    refine ⟨fun hblocks => ?_, fun hcancels => ?_⟩
    · cases hstepped with
      | @ready env o op e htodo hop hreg he =>
        have hend := ready_cases h htodo hop hc (mem_of_isRegistered hreg) he
        refine (hend.not_blocks_iff hop).mpr (fun hf => ?_) hblocks
        exact hheld' ((apply_crashed hf).trans hc) o e.op (by
          rw [apply_ops]; exact getElem?_set_of_some hop)
      | _ => exact hblocks
    · cases hstepped with
      | @perform env o m rest op e htodo hop he =>
        obtain ⟨o', rest', htodo'⟩ := hcancels
        obtain ⟨heq, rfl⟩ := List.cons.inj (htodo.symm.trans htodo')
        cases heq
        have hphase := h.phase hc o op hop
        rw [htodo, frames_op_self] at hphase
        obtain ⟨hf, hnil, hhalted⟩ := hphase.halted_of_cancel he
        have hop' : (w.apply o rest e).ops[o]? = some e.op := by
          rw [apply_ops]
          exact getElem?_set_of_some hop
        refine h'.not_held_of_halted ((apply_crashed hf).trans hc) hop' hhalted ?_ hheld'
        rw [frames_apply_self hf]
        exact hnil
      | _ => exact hcancels
  · rintro ⟨hblocks, hcancels⟩ hc' o op' hop'
    cases hold : w.ops[o]? with
    | none => exact heldAt_new hstep hold hop'
    | some op =>
      have hat := hheld hc o op hold
      have hphase := h.phase hc o op hold
      cases step_op hstep hold hop' with
      | same hl hframes =>
        rw [HeldAt, Unfinished, hframes, h'.parallel.isRegistered_iff]
        exact fun hun => mem_of_ne h hstep hl (mem_of_isRegistered (hat hun))
      -- an operation with no step left has taken its stop callback off
      | callback htodo hcb =>
        have hidle := ne_op_of_cons (o := o) htodo fun _ => nofun
        exact absurd hcb (hphase.not_registered (h.frames_nil hold hidle))
      | @perform env m rest e htodo he =>
        have hf := fault_eq_false hc'
        rw [htodo, frames_op_self] at hphase
        rintro (hlast | ⟨hs, hnil⟩)
        -- where the `_Work` of a submission returns false the operation goes into the vectors
        · rw [h'.parallel.isRegistered_iff, apply_ctx hf]
          by_cases hsubmit : m = .submit
          · subst hsubmit
            obtain ⟨-, -, -, hvector⟩ := perform_submit hphase.early_of_submit h.blocking he hf
            cases hvector with
            | added env' r hrec hctx =>
              rw [hctx]
              exact List.mem_append_right _ (List.mem_singleton_self o)
            | same _ _ hne => exact absurd hlast hne
          · exact absurd hlast (perform_last hsubmit he)
        · rw [frames_apply_self hf] at hnil
          obtain rfl := hphase.cancel_of_nil h.blocking he hf hs hnil
          exact absurd ⟨o, rest, htodo⟩ hcancels
      | @ready env e htodo hreg he =>
        have hend := ready_cases h htodo hold hc (mem_of_isRegistered hreg) he
        exact (hend.not_blocks_iff hold).mp hblocks (fault_eq_false hc')

/-- The operation is in `_D_outstanding`, and the entry of `_D_poll` with the same index has its
events and the handle of the socket that it was submitted for. -/
def Registered (w : PollWorld) (o : OpId) (op : CpoState) : Prop :=
  ∃ p, w.ctx.entry o = some p ∧ Watches w.ctx.sockets p op

/-- An operation in the vectors has its own entry there, and has signalled. -/
theorem retained_iff_held (h : RunInv prompt w) (hw : Watched w) :
    Retained Registered w ↔ Held w := by
  constructor
  · intro hret hc o op hop hun
    obtain ⟨⟨p, hp, -⟩, -⟩ := hret hc o op hop hun
    simp [ContextBase.isRegistered, hp]
  · intro hheld hc o op hop hun
    have hreg := hheld hc o op hop hun
    have hmem := mem_of_isRegistered hreg
    obtain ⟨p, hp, hindex⟩ := h.parallel.entry_of_mem hmem
    obtain ⟨x, hx, hwatches⟩ := hw.entries _ p o hindex
      (List.getElem?_idxOf hmem)
    cases hx.symm.trans hop
    refine ⟨⟨p, hp, hwatches⟩, fun htodo hlive => ?_⟩
    obtain ⟨y, hy, hsub⟩ := h.submitted o hmem
    cases hy.symm.trans hop
    have hphase := h.phase hc o op hop
    rw [htodo, World.frames_nil] at hphase
    refine completable_of_ready (op.log .dispatched)
      (fun t => { w.ctx.remove (w.ctx.outstanding.idxOf o) with sockets := t })
      htodo hc hop hreg (fun _ => rfl) rfl hlive (.inl ?_)
    simpa [CpoState.log] using hphase.signalled_of_submitted hsub

/-! ## Operations that are started after the stop was requested -/

/-- No stop callback was constructed after its stop, and none is going to be. -/
def Unhalted (w : PollWorld) : Prop :=
  ∀ (o : OpId) (op : CpoState), w.ops[o]? = some op → .emplaced true ∉ op.history ∧
    (.emplace ∈ frames o w.todo → w.stopped op.token = false)

theorem unhalted_idle (t : Table) : Unhalted (idle t) := by
  intro o op hop
  simp [idle] at hop

/-- The stop callback of an operation is constructed before the submission. -/
theorem Phase.early_of_emplace {fs : List AtomicStep} (h : Phase prompt stopped op fs)
    (hmem : .emplace ∈ fs) : ∃ out, Early op out .idle := by
  cases h with
  | starting h => exact ⟨0, h⟩
  | emplacing h => exact ⟨1, h⟩
  | testing | submitting => simp at hmem
  | halting h hstop hsteps =>
    generalize op.outstanding = out at hsteps
    cases hsteps <;> simp at hmem
  | resetting h | answering h => rcases h.reporting with rfl | ⟨x, rfl⟩ <;> simp at hmem
  | answered h hsteps =>
    rcases hsteps with rfl | ⟨m, hm, hsteps⟩
    · cases hmem
    · rcases hm with rfl | ⟨x, rfl⟩ <;> rcases hsteps with rfl | rfl <;> simp at hmem

/-- Only operations that halt have a stop callback that was constructed after the stop. -/
theorem Phase.halted_of_emplaced {fs : List AtomicStep} (h : Phase prompt stopped op fs)
    (hmem : .emplaced true ∈ op.history) : Halted op ∧ stopped = true := by
  cases h with
  | halting h hstop => exact ⟨h, hstop⟩
  | starting h | emplacing h | testing h | submitting h | resetting h | answering h | answered h =>
    exact absurd hmem h.unstopped

/-- No step but the construction of the callback makes an operation halt. -/
theorem Phase.unhalted_perform (h : Phase prompt stopped op (m :: rest))
    (hprompt : prompt → ctx.sockets.AllBlocking)
    (he : m.perform stopped env ctx o op = some e) (hf : e.fault = false)
    (hun : .emplaced true ∉ op.history) (hstop : .emplace ∈ m :: rest → stopped = false) :
    .emplaced true ∉ e.op.history ∧ (.emplace ∈ e.next ++ rest → stopped = false) := by
  have hnew := (h.perform hprompt he hf).1
  -- if it halts the stop was requested, and if its callback is to be constructed it is early
  have hhalted : .emplaced true ∈ e.op.history → Halted e.op ∧ stopped = true :=
    hnew.halted_of_emplaced
  have hearly : .emplace ∈ e.next ++ rest → ∃ out, Early e.op out .idle := hnew.early_of_emplace
  generalize hfs : m :: rest = fs at h
  cases h with
  | starting h | emplacing h =>
    cases hfs
    have hnot : stopped = false := hstop (by simp)
    exact ⟨fun hmem => absurd ((hhalted hmem).2.symm.trans hnot) nofun, fun _ => hnot⟩
  | testing h hnot =>
    exact ⟨fun hmem => absurd ((hhalted hmem).2.symm.trans hnot) nofun, fun _ => hnot⟩
  | submitting h =>
    cases hfs
    have hsubmitted := (perform_submit h hprompt he hf).2.1
    refine ⟨fun hmem => hsubmitted (hhalted hmem).1.unsubmitted, fun hmem => ?_⟩
    obtain ⟨out, hearly⟩ := hearly hmem
    exact absurd hearly.unsubmitted hsubmitted
  | halting h => exact absurd h.emplaced hun
  | resetting h hcb =>
    cases hfs
    obtain rfl := Option.some.inj he
    have hreset : (op.log (.ran .reset)).reset = { op.log (.ran .reset) with callback := .idle } :=
      CpoState.reset_of_registered hcb
    refine ⟨fun hmem => ?_, fun hmem => ?_⟩
    · simp only [Effect.logSignal, hreset] at hmem
      simp [CpoState.log, hun] at hmem
    · rcases h.reporting with rfl | ⟨x, rfl⟩ <;> simp [Effect.logSignal] at hmem
  | answering h hcb =>
    cases hfs
    have hsignalled : History.signals e.op.history ≠ [] :=
      (h.perform hcb he).2.2.signals
    refine ⟨fun hmem => hsignalled (hhalted hmem).1.signals, fun hmem => ?_⟩
    obtain ⟨out, hearly⟩ := hearly hmem
    exact absurd hearly.signals hsignalled
  | answered h =>
    have hsignalled : History.signals e.op.history ≠ [] :=
      signalled_of_grows h.signals (perform_kept he).grows
    refine ⟨fun hmem => hsignalled (hhalted hmem).1.signals, fun hmem => ?_⟩
    obtain ⟨out, hearly⟩ := hearly hmem
    exact absurd hearly.signals hsignalled

/-- As long as no operation is started on a source whose stop was requested, none halts. -/
theorem Unhalted.step {l : Label} (hu : Unhalted w) (h : RunInv prompt w)
    (hstep : w.step l = some w') (hc' : w'.crashed = false) (hl : ¬ StartsStopped w l) :
    Unhalted w' := by
  obtain ⟨hc, -⟩ := step_cases hstep
  intro o op' hop'
  cases hold : w.ops[o]? with
  | none =>
    obtain ⟨d, token, rfl, rfl, rfl, rfl⟩ := step_new_op hstep hold hop'
    exact ⟨List.not_mem_nil, fun _ => Bool.not_eq_true _ ▸ hl⟩
  | some op =>
    obtain ⟨hun, hstop⟩ := hu o op hold
    have hphase := h.phase hc o op hold
    cases step_op hstep hold hop' with
    | same _ hframes =>
      refine ⟨hun, fun hmem => ?_⟩
      rw [hframes] at hmem
      rcases step_stopped_eq hstep with heq | hmay
      · rw [heq]
        exact hstop hmem
      -- no code of the program or of a receiver runs before the callback is constructed
      · obtain ⟨out, hearly⟩ := hphase.early_of_emplace hmem
        rw [h.frames_nil hold (ne_op_of_userMay hmay o) hearly.signals] at hmem
        cases hmem
    | callback htodo hcb =>
      have hidle := ne_op_of_cons (o := o) htodo fun _ => nofun
      exact absurd hcb (hphase.not_registered (h.frames_nil hold hidle))
    | @perform env m rest e htodo he =>
      have hf := fault_eq_false hc'
      rw [htodo, frames_op_self] at hphase hstop
      rw [frames_apply_self hf, apply_stopped, (perform_kept he).token]
      exact hphase.unhalted_perform h.blocking he hf hun hstop
    | @ready env e htodo hreg he =>
      have hf := fault_eq_false hc'
      obtain ⟨x, hx, hsub⟩ := h.submitted o (mem_of_isRegistered hreg)
      cases hx.symm.trans hold
      rw [htodo, World.frames_nil] at hphase
      have hsignalled := signalled_of_grows (hphase.signalled_of_submitted hsub)
        ((dispatch_silent he).kept true).grows
      have hnew := (hphase.dispatch hsub he hf).1
      rw [frames_apply_self hf, World.frames_nil, List.append_nil]
      refine ⟨fun hmem => hsignalled (hnew.halted_of_emplaced hmem).1.signals, fun hmem => ?_⟩
      obtain ⟨out, hearly⟩ := hnew.early_of_emplace hmem
      exact absurd hearly.signals hsignalled

theorem Unhalted.not_cancels {l : Label} (hu : Unhalted w) (h : RunInv prompt w)
    (hstep : w.step l = some w') : ¬ Cancels w l := by
  intro hcancels
  obtain ⟨hc, hcases⟩ := step_cases hstep
  cases hcases with
  | @perform env o m rest op e htodo hop he =>
    obtain ⟨o', rest', htodo'⟩ := hcancels
    obtain ⟨heq, rfl⟩ := List.cons.inj (htodo.symm.trans htodo')
    cases heq
    have hphase := h.phase hc o op hop
    rw [htodo, frames_op_self] at hphase
    exact (hu o op hop).1 hphase.halting_of_cancel.1.emplaced
  | _ => exact hcancels

/-- An operation that was started on a source whose stop was requested is lost when `_Start` has
returned. -/
theorem RunInv.not_held_of_startsStopped {l : Label} {ls : List Label} {w₀ : PollWorld}
    (h : RunInv prompt w₀) (hl : StartsStopped w₀ l) (hstep : w₀.step l = some w)
    (hrun : World.run w ls = some w') (htodo : w'.todo = []) (hc : w'.crashed = false) :
    ¬ Held w' := by
  have h' := (h.step hstep).run hrun
  obtain ⟨-, hcases⟩ := step_cases hstep
  cases hcases with
  | @start d token hmay =>
    have hop : (w₀.start d token).ops[w₀.ops.length]? = some { desc := d, token := token } :=
      List.getElem?_concat_length
    obtain ⟨op', hop', -, hstops⟩ := (stopsAtStart_start (d := d) hl).run hop hrun
    have hphase := h'.phase hc _ op' hop'
    have hemplaced : .emplaced true ∈ op'.history := hstops.2.resolve_right (by simp [htodo])
    exact h'.not_held_of_halted hc hop' (hphase.halted_of_emplaced hemplaced).1 (by simp [htodo])
  | _ => exact hl.elim

end PollContext

/-! ## Runs -/

theorem LibeventContext.held_initial : Held LibeventContext.initial := by
  intro _ o op hop
  simp [LibeventContext.initial] at hop

theorem PollContext.held_idle (t : Table) : Held (PollContext.idle t) := by
  intro _ o op hop
  simp [PollContext.idle] at hop

namespace LibeventContext

/-- On the libevent context a run loses no operation exactly if no readiness callback blocks. -/
theorem stepsAll_retained_iff (ls : List Label) :
    StepMachine.StepsAll World.step (fun _ _ w' => Retained Registered w') initial ls ↔
      StepMachine.StepsAll World.step (fun w l _ => ¬ Blocks w l) initial ls := by
  rw [StepMachine.stepsAll_iff World.step (Q := fun _ _ w' => Held w')
    (fun _ _ _ (h : RunInv _) hstep => h.step hstep)
    (fun _ _ _ h hstep => retained_iff_held (h.step hstep)) ls runInv_initial]
  exact StepMachine.statesAll_iff_stepsAll World.step (fun _ _ _ => RunInv.step)
    (fun _ _ _ h hheld hstep => held_step h hheld hstep) ls runInv_initial held_initial

end LibeventContext

namespace PollContext

/-- The step neither blocks nor starts an operation whose stop was requested. -/
def Harmless (w : PollWorld) (l : Label) (_ : PollWorld) : Prop :=
  ¬ Blocks w l ∧ ¬ StartsStopped w l

variable {t : Table} {w : PollWorld}

theorem stepsAll_retained_iff_held (ht : t.Ok) (ls : List Label) :
    StepMachine.StepsAll World.step (fun _ _ w' => Retained Registered w') (idle t) ls ↔
      StepMachine.StepsAll World.step (fun _ _ w' => Held w') (idle t) ls :=
  StepMachine.stepsAll_iff World.step (I := fun w => RunInv False w ∧ Watched w)
    (fun _ _ _ h hstep => ⟨h.1.step hstep, h.2.step h.1 hstep⟩)
    (fun _ _ _ h hstep => retained_iff_held (h.1.step hstep) (h.2.step h.1 hstep)) ls
    ⟨runInv_idle False.elim, watched_idle ht⟩

theorem stepsAll_held_iff (t : Table) (ls : List Label) :
    StepMachine.StepsAll World.step (fun _ _ w' => Held w') (idle t) ls ↔
      StepMachine.StepsAll World.step (fun w l _ => ¬ Blocks w l ∧ ¬ Cancels w l) (idle t) ls :=
  StepMachine.statesAll_iff_stepsAll World.step
    (fun _ _ _ (h : RunInv False _) hstep => h.step hstep)
    (fun _ _ _ h hheld hstep => held_step h hheld hstep) ls (runInv_idle False.elim) (held_idle t)

/-- Where no operation is started on a source whose stop was requested, no `_Start` comes to its
`_Cancel`. -/
theorem stepsAll_held_of_harmless (t : Table) (ls : List Label)
    (hall : StepMachine.StepsAll World.step Harmless (idle t) ls) :
    StepMachine.StepsAll World.step (fun _ _ w' => Held w') (idle t) ls := by
  rw [stepsAll_held_iff]
  refine StepMachine.stepsAll_of_stepsAll World.step
    (I := fun w => RunInv False w ∧ (w.crashed = false → Unhalted w)) ?_ ls
    ⟨runInv_idle False.elim, fun _ => unhalted_idle t⟩ hall
  rintro w l w' ⟨h, hun⟩ hstep ⟨hblocks, hstarts⟩
  have hunhalted := hun (step_cases hstep).1
  exact ⟨⟨h.step hstep, fun hc' => hunhalted.step h hstep hc' hstarts⟩, hblocks,
    hunhalted.not_cancels h hstep⟩

/-- When every function has returned, nothing else has kept all operations. -/
theorem harmless_of_stepsAll_held {ls : List Label} (hrun : World.run (idle t) ls = some w)
    (htodo : w.todo = []) (hc : w.crashed = false)
    (hall : StepMachine.StepsAll World.step (fun _ _ w' => Held w') (idle t) ls) :
    StepMachine.StepsAll World.step Harmless (idle t) ls := by
  by_contra hnot
  obtain ⟨ls₁, l, ls₂, w₁, w₂, rfl, hrun₁, hstep, hharm⟩ :=
    (StepMachine.not_stepsAll_iff World.step).mp hnot
  have hblocks : ¬ Blocks w₁ l := by
    intro hblocks
    refine (StepMachine.not_stepsAll_iff World.step).mpr ?_ ((stepsAll_held_iff t _).mp hall)
    exact ⟨ls₁, l, ls₂, w₁, w₂, rfl, hrun₁, hstep, fun h => h.1 hblocks⟩
  have hstarts : StartsStopped w₁ l := by
    by_contra hstarts
    exact hharm ⟨hblocks, hstarts⟩
  have h₁ : RunInv False w₁ := (runInv_idle False.elim).run hrun₁
  obtain ⟨x, hx, hrest⟩ := (StepMachine.run_append_eq_some World.step).mp hrun
  obtain rfl := Option.some.inj (hrun₁.symm.trans hx)
  obtain ⟨y, hy, hrun₂⟩ := (StepMachine.run_cons_eq_some World.step).mp hrest
  obtain rfl := Option.some.inj (hstep.symm.trans hy)
  exact h₁.not_held_of_startsStopped hstarts hstep hrun₂ htodo hc
    (StepMachine.run_invariant_of_stepsAll World.step (I := Held) (fun _ _ _ _ _ h => h) (held_idle t)
      hrun hall)

end PollContext

/-- **Exactness**: on the libevent context no operation is lost in any state of a run exactly if no
call made by a readiness callback reports EWOULDBLOCK. On the poll context, with any sockets in
either mode, no operation is lost in any state of a run in which, besides, no operation is started on
a source whose stop was requested; and if every function has returned at its end, one is lost in any
other run. -/
theorem retained_iff {t : Table} (ht : t.Ok) (ls : List Label) :
    (StepMachine.StepsAll World.step (fun _ _ w' => Retained LibeventContext.Registered w')
        LibeventContext.initial ls ↔
      StepMachine.StepsAll World.step (fun w l _ => ¬ Blocks w l) LibeventContext.initial ls) ∧
    (StepMachine.StepsAll World.step (fun w l _ => ¬ Blocks w l ∧ ¬ StartsStopped w l)
        (PollContext.idle t) ls →
      StepMachine.StepsAll World.step (fun _ _ w' => Retained PollContext.Registered w')
        (PollContext.idle t) ls) ∧
    (∀ w : World PollContext, World.run (PollContext.idle t) ls = some w → w.todo = [] →
      w.crashed = false →
      (StepMachine.StepsAll World.step (fun _ _ w' => Retained PollContext.Registered w')
          (PollContext.idle t) ls ↔
        StepMachine.StepsAll World.step (fun w l _ => ¬ Blocks w l ∧ ¬ StartsStopped w l)
          (PollContext.idle t) ls)) := by
  have hheld := PollContext.stepsAll_retained_iff_held ht ls
  refine ⟨LibeventContext.stepsAll_retained_iff ls, fun hall => ?_, fun w hrun htodo hc => ?_⟩
  · exact hheld.mpr (PollContext.stepsAll_held_of_harmless t ls hall)
  · rw [hheld]
    exact ⟨PollContext.harmless_of_stepsAll_held hrun htodo hc,
      PollContext.stepsAll_held_of_harmless t ls⟩

/-- A table with one socket, in non-blocking mode. -/
def nonBlocking : Table where
  container := { records := [.record { handle := 5, blocking := false, number := 0 }], free := 1 }
  made := 1

/-- An accept on it would block when it is submitted, and is completed by the readiness indication
that comes later. -/
def acceptLater : List Label :=
  [.start (.accept 0) 0, .perform {}, .perform {}, .perform {},
    .perform { results := [.fail EWOULDBLOCK] }, .perform {}, .perform {}, .userReturn,
    .ready 0 { results := [.ok 9] }, .perform {}, .perform {}]

theorem nonBlocking_ok : nonBlocking.Ok := by
  have hone : ∀ i r, nonBlocking.container.recordAt i = some r →
      i = 0 ∧ r = { handle := 5, blocking := false, number := 0 } := by
    intro i r hr
    cases i with
    | zero => exact ⟨rfl, (Option.some.inj hr).symm⟩
    | succ i => simp [nonBlocking, Container.recordAt] at hr
  constructor
  case wellFormed =>
    refine ⟨[], rfl, fun i n hnext => ?_⟩
    cases i <;> simp [nonBlocking, Container.next] at hnext
  case small => decide
  case range =>
    intro i r hr
    obtain ⟨-, rfl⟩ := hone i r hr
    decide
  case handles | numbers =>
    intro i j r r' hr hr' _
    rw [(hone i r hr).1, (hone j r' hr').1]
  case liveMade =>
    intro i r hr
    obtain ⟨-, rfl⟩ := hone i r hr
    decide
  case releasedMade => exact fun n hn => absurd hn List.not_mem_nil
  case liveOrReleased =>
    intro n hn
    exact .inr ⟨0, _, rfl, (Nat.lt_one_iff.mp hn).symm⟩

/-- The accept is registered when its first `_Work` has returned false. -/
theorem retained_iff_acceptLater :
    StepMachine.StepsAll World.step (fun _ _ w' => Retained PollContext.Registered w')
      (PollContext.idle nonBlocking) acceptLater := by
  refine (retained_iff nonBlocking_ok acceptLater).2.1 ?_
  rintro _ ⟨⟩
  refine ⟨⟨id, Bool.false_ne_true⟩, ?_⟩
  iterate 7
    rintro _ ⟨⟩
    refine ⟨⟨id, id⟩, ?_⟩
  rintro _ ⟨⟩
  refine ⟨⟨?_, id⟩, ?_⟩
  · rintro ⟨op, -, -, -, hmem⟩
    simp at hmem
  iterate 2
    rintro _ ⟨⟩
    refine ⟨⟨id, id⟩, ?_⟩
  trivial

/-- A receive whose readiness was spurious: `recvmsg` reports EWOULDBLOCK. -/
def spuriousReceive : List Label :=
  [.makeSocket 7, .start (.receive 0) 0, .perform {}, .perform {}, .perform {}, .perform {},
    .ready 0 { results := [.fail EWOULDBLOCK] }]

/-- An accept whose readiness was spurious. -/
def spuriousAccept : List Label :=
  [.makeSocket 7, .start (.accept 0) 0, .perform {}, .perform {}, .perform {}, .perform {},
    .perform {}, .perform {}, .userReturn, .ready 0 { results := [.fail EWOULDBLOCK] }]

/-- After it the receive is pending and its event is not armed; on the poll context the accept is in
neither vector. -/
theorem not_retained :
    (¬ ∀ (ls : List Label) (w : World LibeventContext),
      World.run LibeventContext.initial ls = some w → Retained LibeventContext.Registered w) ∧
    ¬ ∀ (ls : List Label) (w : World PollContext),
      World.run (PollContext.idle {}) ls = some w → Retained PollContext.Registered w := by
  constructor
  · intro h
    obtain ⟨harmed, -⟩ := h spuriousReceive _ rfl rfl 0 _ rfl (.inl rfl)
    exact Bool.false_ne_true harmed
  · intro h
    obtain ⟨⟨p, hp, -⟩, -⟩ := h spuriousAccept _ rfl rfl 0 _ rfl (.inl rfl)
    exact absurd hp nofun

end Stdnet
