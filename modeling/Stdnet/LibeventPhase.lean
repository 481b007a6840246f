import Stdnet.CallStack
import Stdnet.LibeventContext
import Stdnet.WorkOutcome

/-!
# The Life of an Operation on the libevent Context

On one thread the steps still to be run on an operation, its counter and its stop callback determine
each other. `Phase` lists the combinations that occur, from `_Start` to the steps that are left over
after the receiver was signalled, and what the history says in each of them.

## Main results

- `submit_spec`: what the submission of an operation does.
- `Phase.perform`: running the next step of an operation leads from phase to phase.
- `Phase.callback`: so does a readiness indication.
-/

namespace Stdnet

namespace LibeventContext

open History

/-! ## Submission -/

/-- The socket that an operation is submitted for, by the number of the record its id names. -/
def SubmittedOn (t : Table) (d : Desc) : Option ℕ → Prop
  | some k => d.onSocket ∧ ∃ r, t.record d.id = some r ∧ r.number = k
  | none => ¬ d.onSocket

theorem record_none_of_get {t : Table} {id : SocketId} {f : Fault}
    (h : t.container.get id = .error f) : t.record id = none := by
  cases hr : t.record id with
  | none => rfl
  | some r =>
    rw [Container.get_eq_ok.mpr hr] at h
    cases h

/-- A submission throws because the id is not live, leaves an armed event, or ends the operation at
once: then it returns false and the steps of the report come first. -/
inductive SubmitCases (ctx : LibeventContext) (op : CpoState) (env : Env) :
    Effect LibeventContext × Bool → Prop where
  | refused (hnone : ctx.sockets.record op.desc.id = none) :
      SubmitCases ctx op env ({ ctx := ctx, op := op.log .refused, fault := true }, false)
  | armed (n : Option ℕ) (ev : Event) (hon : SubmittedOn ctx.sockets op.desc n)
      (hend : op.desc.submitEnd env = none) (harmed : ev.armed = true) :
      SubmitCases ctx op env
        ({ ctx := ctx, op := { op.log (.submitted env n) with extra := some ev } }, true)
  | ended (n : Option ℕ) (w : WorkEnd) (hon : SubmittedOn ctx.sockets op.desc n)
      (hend : op.desc.submitEnd env = some w)
      (hdelivers : ∀ op', op'.desc = op.desc → Delivers ctx.sockets op' w) :
      SubmitCases ctx op env
        ({ ctx := ctx, op := op.log (.submitted env n), next := [.reset, w.report] }, false)

theorem addEvent_spec {ctx : LibeventContext} {op : CpoState} {env : Env} {n : Option ℕ}
    (hon : SubmittedOn ctx.sockets op.desc n)
    (hend : op.desc.submitEnd env = env.eventNew.map fun e => .error ⟨e, .libevent⟩)
    (flags : BitVec 16) (timeout : Option Timeval) :
    SubmitCases ctx op env (addEvent ctx (op.log (.submitted env n)) env flags timeout) := by
  unfold addEvent
  cases hnew : env.eventNew with
  | none => exact .armed n _ hon (by rw [hend, hnew]; rfl) rfl
  | some e =>
    exact .ended n (.error ⟨e, .libevent⟩) hon (by rw [hend, hnew]; rfl) fun _ _ => trivial

theorem withHandle_spec {ctx : LibeventContext} {op : CpoState} {env : Env}
    (hsocket : op.desc.onSocket) {body : CpoState → Effect LibeventContext × Bool}
    (h : ∀ n, SubmittedOn ctx.sockets op.desc (some n) →
      SubmitCases ctx op env (body (op.log (.submitted env (some n))))) :
    SubmitCases ctx op env (withHandle ctx op env body) := by
  unfold withHandle
  cases hget : ctx.sockets.container.get op.desc.id with
  | error f => exact .refused (record_none_of_get hget)
  | ok r => exact h r.number ⟨hsocket, r, Container.get_eq_ok.mp hget, rfl⟩

theorem connect_spec {ctx : LibeventContext} {op : CpoState} {env : Env} {id : SocketId}
    (hdesc : op.desc = .connect id) : SubmitCases ctx op env (connect ctx op env) := by
  -- the lookup comes first; only then is `fcntl` called
  refine withHandle_spec (by rw [hdesc]; trivial) fun n hon => ?_
  cases hfcntl : env.fcntl with
  -- `fcntl` failed: `_Error` is called at once
  | fail e =>
    refine .ended (some n) (.error ⟨e, .system⟩) hon ?_ fun _ _ => trivial
    simp only [hdesc, Desc.submitEnd, hfcntl]
  | ok _ =>
    cases hconn : env.connect with
    -- connected at once: `_Complete` is called inside `_Submit`
    | ok rc =>
      refine .ended (some n) (.value rc) hon ?_ fun op' hop' => ?_
      · simp only [hdesc, Desc.submitEnd, hfcntl, hconn]
      · simp only [Delivers, hop', hdesc]
    | fail e =>
      simp only []
      split
      -- EINPROGRESS or EINTR: an event is armed for the socket to become writable
      next hpending =>
        refine addEvent_spec hon ?_ _ _
        simp only [hdesc, Desc.submitEnd, hfcntl, hconn, if_pos hpending]
      next hfailed =>
        refine .ended (some n) (.error ⟨e, .system⟩) hon ?_ fun _ _ => trivial
        simp only [hdesc, Desc.submitEnd, hfcntl, hconn, if_neg hfailed]

theorem resumeAt_spec {ctx : LibeventContext} {op : CpoState} {env : Env} {time : ℤ}
    (hdesc : op.desc = .resumeAt time) : SubmitCases ctx op env (resumeAt ctx op env time) := by
  have hon : SubmittedOn ctx.sockets op.desc none := by
    rw [hdesc]
    exact fun h => h
  unfold resumeAt
  simp only []
  split
  -- the point of time has passed: no timer is armed
  next hpast =>
    refine .ended none (.value 0) hon ?_ fun op' hop' => ?_
    · simp only [hdesc, Desc.submitEnd, if_pos hpast]
    · simp only [Delivers, hop', hdesc]
  next hfuture =>
    refine addEvent_spec hon ?_ _ _
    simp only [hdesc, Desc.submitEnd, if_neg hfuture]

/-- Every submission is one of the cases. -/
theorem submit_spec (ctx : LibeventContext) (op : CpoState) (env : Env) :
    SubmitCases ctx op env (submit ctx op env) := by
  cases hdesc : op.desc with
  -- these three arm an event for the handle and make no call yet
  | accept id | receive id | send id =>
    simp only [submit, hdesc, accept, receive, send]
    exact withHandle_spec (by rw [hdesc]; trivial) fun n hon =>
      addEvent_spec hon (by rw [hdesc]; rfl) _ _
  | connect id =>
    simp only [submit, hdesc]
    exact connect_spec hdesc
  | resumeAfter d =>
    simp only [submit, hdesc, resumeAfter]
    exact addEvent_spec (by rw [hdesc]; exact fun h => h) (by rw [hdesc]; rfl) _ _
  | resumeAt time =>
    simp only [submit, hdesc]
    exact resumeAt_spec hdesc

/-- The step of a submission: a submission that returns false is followed by the `_Complete` of
`_Start`. -/
theorem perform_submit_cases {ctx : LibeventContext} {o : OpId} {op : CpoState} {env : Env}
    {stopped : Bool} {e : Effect LibeventContext}
    (he : AtomicStep.perform .submit stopped env ctx o op = some e) :
    ∃ r, SubmitCases ctx (op.log (.ran .submit)) env r ∧
      e = { r.1 with next := if r.2 then r.1.next else r.1.next ++ completeCall }.logSignal := by
  simp only [AtomicStep.perform, AtomicStep.exec, ContextBase.submit, Option.map_some,
    Option.some.injEq] at he
  exact ⟨_, submit_spec ctx (op.log (.ran .submit)) env, he.symm⟩

/-! ## Phases -/

/-- The signal that reports how an operation ended. -/
def Reports (d : Desc) : WorkEnd → Signal → Prop
  | .error e, s => s = .error e
  | .value n, s =>
    match d with
    | .accept _ => ∃ id, s = .value (.socket (some id))
    | .receive _ | .send _ => s = .value (.count n)
    | .connect _ | .resumeAfter _ | .resumeAt _ => s = .value .unit
  -- only a transfer ends with the peer's close, reported as no bytes
  | .closed, s =>
    match d with
    | .receive _ | .send _ => s = .value (.count 0)
    | _ => False
  | .wouldBlock, _ => False

/-- No result is reported as a stop, and an error is reported as itself. -/
theorem not_reports_stopped {d : Desc} {w : WorkEnd} : ¬ Reports d w .stopped := by
  cases w <;> cases d <;> simp [Reports]

theorem Reports.eq_error {d : Desc} {w : WorkEnd} {e : ErrorCode} (h : Reports d w (.error e)) :
    w = .error e := by
  cases w with
  | error e' => rw [Signal.error.inj h]
  -- these are reported as a value or not at all
  | value | closed | wouldBlock => cases d <;> simp [Reports] at h

/-- An operation left to the event loop: its event is armed until a call reports EWOULDBLOCK. -/
structure Pending (op : CpoState) : Prop where
  signals : signals op.history = []
  findings : findings op.desc op.history = []
  deferred : Deferred op.desc op.history
  armed : op.isArmed = true ↔ .fail EWOULDBLOCK ∉ calls op.history
  outstanding : op.outstanding = 1
  callback : op.callback = .registered

/-- An operation whose stop callback is being executed, by `request_stop` or inside `_Start`, which
then still has to test the token. -/
structure Cancelling (op : CpoState) (out : ℤ) (tail : List AtomicStep) : Prop where
  signals : signals op.history = []
  findings : findings op.desc op.history = []
  outstanding : op.outstanding = out
  callback : op.callback = .executing
  tail : (tail = [] ∧ Deferred op.desc op.history) ∨
    (tail = [.testStop] ∧ Unsubmitted op.history ∧ .emplaced true ∈ op.history)

/-- An operation that has ended and not signalled: `_Start` calls `_Complete` once more if the end
came inside `_Submit`. -/
structure Ending (t : Table) (op : CpoState) (w : WorkEnd) (tail : List AtomicStep) : Prop where
  signals : signals op.history = []
  findings : findings op.desc op.history = [w]
  delivers : Delivers t op w
  disarmed : op.isArmed = false
  outstanding : op.outstanding = 1
  unstopped : .emplaced true ∉ op.history
  tail : (tail = [] ∧ Deferred op.desc op.history) ∨
    (tail = completeCall ∧ ¬ Deferred op.desc op.history)

/-- The steps that are left over after the signal: none that touches the operation if its end came
from the event loop or from `request_stop`, else the rest of `_Start`. -/
inductive Leftover (stopped : Bool) (op : CpoState) : List AtomicStep → Prop where
  | clean {fs : List AtomicStep} (hdef : Deferred op.desc op.history) (hlate : late op.history = [])
      (hout : op.outstanding = 0) (hfs : fs = [] ∨ fs = [.leave]) : Leftover stopped op fs
  | early {fs : List AtomicStep} (hdef : ¬ Deferred op.desc op.history) (hout : op.outstanding = 0)
      (hfs : stopped = true ∧ (fs = [.leave, .testStop] ∨ fs = [.testStop]) ∨
        fs = [.reset, .cancel] ∨ fs = completeCall) : Leftover stopped op fs
  | late {fs : List AtomicStep} (hdef : ¬ Deferred op.desc op.history)
      (hlate : late op.history ≠ [])
      (hfs : op.outstanding = 0 ∧ (fs = [.cancel] ∨ fs = [.complete]) ∨
        op.outstanding = -1 ∧ fs = []) : Leftover stopped op fs

/-- An operation that has signalled its receiver. -/
structure Done (stopped : Bool) (op : CpoState) (s : Signal) : Prop where
  signals : signals op.history = [s]
  cause : (s = .stopped ∧ findings op.desc op.history = [] ∧ stopped = true) ∨
    ∃ w, findings op.desc op.history = [w] ∧ Reports op.desc w s
  unsubmitted : .emplaced true ∈ op.history → Unsubmitted op.history ∧ s = .stopped
  disarmed : op.isArmed = false
  unregistered : op.callback ≠ .registered

/-- The phases of an operation; the list holds the steps still to be run on it. -/
inductive Phase (t : Table) (stopped : Bool) (op : CpoState) : List AtomicStep → Prop where
  | starting (h : Early op 0 .idle) : Phase t stopped op [.increment, .emplace, .testStop]
  | emplacing (h : Early op 1 .idle) : Phase t stopped op [.emplace, .testStop]
  | testing (h : Early op 1 .registered) (hstop : stopped = false) : Phase t stopped op [.testStop]
  | submitting (h : Early op 1 .registered) : Phase t stopped op [.submit]
  | pending (h : Pending op) : Phase t stopped op []
  | entering {tail : List AtomicStep} (h : Cancelling op 1 tail) (hstop : stopped = true) :
      Phase t stopped op (.enter :: .leave :: tail)
  | cancelling {tail : List AtomicStep} (h : Cancelling op 2 tail) (hstop : stopped = true) :
      Phase t stopped op (.contextCancel :: .leave :: tail)
  | cancelled {tail : List AtomicStep} (h : Cancelling op 2 tail) (hstop : stopped = true)
      (harmed : op.isArmed = false) :
      Phase t stopped op (.cancelComplete :: .cancel :: .leave :: tail)
  | stopping {tail : List AtomicStep} (h : Cancelling op 1 tail) (hstop : stopped = true)
      (harmed : op.isArmed = false) : Phase t stopped op (.cancel :: .leave :: tail)
  | ending {w : WorkEnd} {tail : List AtomicStep} (h : Ending t op w tail)
      (hcb : op.callback = .registered) : Phase t stopped op (.reset :: w.report :: tail)
  | reporting {w : WorkEnd} {tail : List AtomicStep} (h : Ending t op w tail)
      (hcb : op.callback = .idle) : Phase t stopped op (w.report :: tail)
  | done {s : Signal} {fs : List AtomicStep} (h : Done stopped op s) (hfs : Leftover stopped op fs) :
      Phase t stopped op fs

/-! ## One step -/

section Perform

variable {t : Table} {stopped : Bool} {env : Env} {ctx : LibeventContext} {o : OpId} {op : CpoState}
  {m : AtomicStep} {rest tail : List AtomicStep} {e : Effect LibeventContext}

theorem Cancelling.ran {out : ℤ} (h : Cancelling op out tail) (m : AtomicStep) (out' : ℤ)
    (ev : Option Event) :
    Cancelling { op.log (.ran m) with outstanding := out', extra := ev } out' tail where
  signals := by simp [CpoState.log, h.signals]
  findings := by simp [CpoState.log, h.findings]
  outstanding := rfl
  callback := h.callback
  tail := by simpa [CpoState.log] using h.tail

theorem Ending.ran {w : WorkEnd} (h : Ending t op w tail) (m : AtomicStep) (cb : Callback) :
    Ending t { op.log (.ran m) with callback := cb } w tail where
  signals := by simp [CpoState.log, h.signals]
  findings := by simp [CpoState.log, h.findings]
  delivers := by cases w <;> exact h.delivers
  disarmed := h.disarmed
  outstanding := h.outstanding
  unstopped := by simp [CpoState.log, h.unstopped]
  tail := by simpa [CpoState.log] using h.tail

theorem reports_of_delivers {w : WorkEnd} (h : Delivers t op w) :
    Reports op.desc w (w.signal op) := by
  cases w with
  | error e => rfl
  | wouldBlock => exact h
  | value n =>
    cases hdesc : op.desc with
    | accept id =>
      simp only [Delivers, hdesc] at h
      obtain ⟨id', r, hid, -, -⟩ := h
      exact ⟨id', by simp only [WorkEnd.signal, CpoState.setValue, hdesc, hid]⟩
    | receive id | send id =>
      simp only [Delivers, hdesc] at h
      simp only [Reports, WorkEnd.signal, CpoState.setValue, hdesc, h]
    | connect id | resumeAfter d | resumeAt p =>
      simp only [Reports, WorkEnd.signal, CpoState.setValue, hdesc]
  | closed =>
    cases hdesc : op.desc with
    | receive id | send id =>
      simp only [Delivers, hdesc] at h
      simp only [Reports, WorkEnd.signal, CpoState.setValue, hdesc, h]
    | accept id | connect id | resumeAfter d | resumeAt p => simp only [Delivers, hdesc] at h

/-- The submission of an early operation: it is left pending, or its end is about to be reported. -/
theorem perform_submit (h : Early op 1 .registered)
    (he : AtomicStep.perform .submit stopped env ctx o op = some e) (hf : e.fault = false) :
    e.ctx = ctx ∧ e.signal = none ∧ calls e.op.history = [] ∧
      Phase ctx.sockets stopped e.op e.next := by
  have hran : Early (op.log (.ran .submit)) 1 .registered := by
    simpa [CpoState.log, h.outstanding, h.callback] using h.ran .submit
  obtain ⟨r, hspec, rfl⟩ := perform_submit_cases he
  -- the three cases read the operation after the entry of the step itself
  generalize op.log (.ran .submit) = op' at hspec hran
  cases hspec with
  -- an exception was excluded
  | refused hnone =>
    cases hf
  | armed n ev hon hend harmed =>
    refine ⟨rfl, rfl, ?_, .pending ⟨?_, ?_, ?_, ?_, hran.outstanding, hran.callback⟩⟩
    · simp [Effect.logSignal, CpoState.log, hran.calls]
    · simp [Effect.logSignal, CpoState.log, hran.signals]
    · simp [Effect.logSignal, CpoState.log, hran.findings, hend]
    · have hdef : Deferred op'.desc op'.history :=
        ⟨hran.unstopped, fun env n hn => absurd hn (hran.unsubmitted env n)⟩
      simp [Effect.logSignal, CpoState.log, hdef, hend]
    · simp [Effect.logSignal, CpoState.log, CpoState.isArmed, harmed, hran.calls]
  -- `_Complete` or `_Error` was called inside `_Submit`; `_Start` calls `_Complete` once more
  | ended n w hon hend hdelivers =>
    refine ⟨rfl, rfl, ?_,
      .ending ⟨?_, ?_, ?_, ?_, hran.outstanding, ?_, .inr ⟨rfl, ?_⟩⟩ hran.callback⟩
    · simp [Effect.logSignal, CpoState.log, hran.calls]
    · simp [Effect.logSignal, CpoState.log, hran.signals]
    · simp [Effect.logSignal, CpoState.log, hran.findings, hend]
    · exact hdelivers _ rfl
    · simp [Effect.logSignal, CpoState.log, CpoState.isArmed, hran.extra]
    · simp [Effect.logSignal, CpoState.log, hran.unstopped]
    · simp [Effect.logSignal, CpoState.log, hend]

/-- The step that signals the end of an operation. -/
theorem Ending.perform_report {w : WorkEnd} (h : Ending t op w tail) (hcb : op.callback = .idle)
    (he : w.report.perform stopped env ctx o op = some e) :
    e.ctx = ctx ∧ e.fault = false ∧ e.next = [] ∧ e.signal = some (w.signal op) ∧
      Phase t stopped e.op tail := by
  have hran := h.ran w.report .idle
  -- `complete` and `error` both decrement the counter and send the signal at zero
  have hexec : w.report.exec stopped env ctx o (op.log (.ran w.report)) =
      some (decrement ctx (op.log (.ran w.report)) (w.signal op)) := by
    cases w <;> rfl
  have hout : (op.log (.ran w.report)).outstanding - 1 = 0 := by
    simp [CpoState.log, h.outstanding]
  simp only [AtomicStep.perform, hexec, Option.map_some, Option.some.injEq, decrement,
    Effect.logSignal, hout, if_true] at he
  subst he
  refine ⟨rfl, rfl, rfl, rfl, .done (s := w.signal op)
    ⟨?_, .inr ⟨w, ?_, reports_of_delivers h.delivers⟩, ?_, h.disarmed, ?_⟩ ?_⟩
  · simpa [CpoState.log] using h.signals
  · simpa [CpoState.log] using h.findings
  · intro hmem
    simp [CpoState.log, h.unstopped] at hmem
  · simp [CpoState.log, hcb]
  · have hlate : late ((op.history ++ [.ran w.report]) ++ [.signalled (w.signal op)]) = [] :=
      late_append_signalled hran.signals _
    -- the tail says whether `_Start` still has its own call of `_Complete` to make
    rcases h.tail with ⟨rfl, hdef⟩ | ⟨rfl, hdef⟩
    · exact .clean (by simpa [CpoState.log] using hdef) hlate rfl (.inl rfl)
    · exact .early (by simpa [CpoState.log] using hdef) rfl (.inr (.inr rfl))

/-- The step that signals that an operation was stopped. -/
theorem Cancelling.perform_cancel (h : Cancelling op 1 tail) (hstop : stopped = true)
    (harmed : op.isArmed = false) (he : AtomicStep.perform .cancel stopped env ctx o op = some e) :
    e.ctx = ctx ∧ e.fault = false ∧ e.next = [] ∧ e.signal = some .stopped ∧
      Phase t stopped e.op (.leave :: tail) := by
  have hran := h.ran .cancel 0 op.extra
  have hout : (op.log (.ran .cancel)).outstanding - 1 = 0 := by
    simp [CpoState.log, h.outstanding]
  simp only [AtomicStep.perform, AtomicStep.exec, Option.map_some, Option.some.injEq, decrement,
    Effect.logSignal, hout, if_true] at he
  subst he
  refine ⟨rfl, rfl, rfl, rfl, .done (s := .stopped) ⟨?_, .inl ⟨rfl, ?_, hstop⟩, ?_, harmed, ?_⟩ ?_⟩
  · simpa [CpoState.log] using h.signals
  · simpa [CpoState.log] using h.findings
  · intro hmem
    rcases h.tail with ⟨-, hdef⟩ | ⟨-, huns, -⟩
    · simp [CpoState.log, hdef.1] at hmem
    · simp [CpoState.log, huns]
  · simp [CpoState.log, h.callback]
  · have hlate : late ((op.history ++ [.ran .cancel]) ++ [.signalled .stopped]) = [] :=
      late_append_signalled hran.signals _
    -- inside `_Start` the callback returns to its constructor, from `request_stop` to the loop
    rcases h.tail with ⟨rfl, hdef⟩ | ⟨rfl, -, hmem⟩
    · exact .clean (by simpa [CpoState.log] using hdef) hlate rfl (.inr rfl)
    · refine .early (fun hdef => ?_) rfl (.inl ⟨hstop, .inl rfl⟩)
      exact hdef.1 (by simp [CpoState.log, hmem])

/-- A signalled operation is not going to be submitted, and its callback has been constructed. -/
theorem Leftover.not_mem {fs : List AtomicStep} (h : Leftover stopped op fs) :
    .submit ∉ fs ∧ .emplace ∉ fs := by
  cases h with
  | clean _ _ _ hfs => rcases hfs with rfl | rfl <;> simp
  | early _ _ hfs => rcases hfs with ⟨-, rfl | rfl⟩ | rfl | rfl <;> simp [completeCall]
  | late _ _ hfs => rcases hfs with ⟨-, rfl | rfl⟩ | ⟨-, rfl⟩ <;> simp

/-- The receiver was signalled before, and a left-over step does not signal it again. -/
theorem Leftover.perform {s : Signal} (h : Done stopped op s)
    (hfs : Leftover stopped op (m :: rest)) (he : m.perform stopped env ctx o op = some e) :
    e.ctx = ctx ∧ e.fault = false ∧ e.signal = none ∧ Phase t stopped e.op (e.next ++ rest) := by
  have hsig : History.signals op.history ≠ [] := by simp [h.signals]
  have hdone : ∀ (out : ℤ) (cb : Callback), cb ≠ .registered →
      Done stopped { op.log (.ran m) with outstanding := out, callback := cb } s := by
    intro out cb hcb
    refine ⟨?_, ?_, ?_, h.disarmed, hcb⟩
    · simp [CpoState.log, h.signals]
    · simpa [CpoState.log] using h.cause
    · simpa [CpoState.log] using h.unsubmitted
  -- a step of the base class after the signal touches the operation late
  have hlate : m.touches = true → History.late (op.history ++ [.ran m]) ≠ [] := by
    intro hm
    rw [late_append_of_signalled hsig]
    simp [touch, hm]
  -- `_D_callback` is unregistered, so that `reset` has nothing to do
  have hreset : (op.log (.ran .reset)).reset = op.log (.ran .reset) :=
    CpoState.reset_of_ne h.unregistered
  cases hfs with
  -- only the return from the callback is left, and it does not touch the operation
  | clean hdef hl hout hfs =>
    rcases hfs with hfs | hfs <;> cases hfs
    simp only [AtomicStep.perform, AtomicStep.exec, Option.map_some, Option.some.injEq,
      Effect.logSignal] at he
    subst he
    refine ⟨rfl, rfl, rfl, .done (hdone op.outstanding .idle (by simp))
      (.clean ?_ ?_ hout (.inl rfl))⟩
    · simpa [CpoState.log] using hdef
    · show History.late (op.history ++ [.ran .leave]) = []
      rw [late_append_of_signalled hsig, hl]
      rfl
  | early hdef hout hfs =>
    have hdef' : ∀ m', ¬ Deferred op.desc (op.history ++ [.ran m']) := by
      intro m'
      simpa using hdef
    rcases hfs with ⟨hstop, hfs | hfs⟩ | hfs | hfs <;> cases hfs
    · -- the stop callback returns to `emplace`
      simp only [AtomicStep.perform, AtomicStep.exec, Option.map_some, Option.some.injEq,
        Effect.logSignal] at he
      subst he
      exact ⟨rfl, rfl, rfl, .done (hdone op.outstanding .idle (by simp))
        (.early (hdef' .leave) hout (.inl ⟨hstop, .inr rfl⟩))⟩
    · -- the test of the token finds the stop that was requested
      subst hstop
      simp only [AtomicStep.perform, AtomicStep.exec, Option.map_some, Option.some.injEq,
        Effect.logSignal] at he
      subst he
      exact ⟨rfl, rfl, rfl, .done (hdone op.outstanding op.callback h.unregistered)
        (.early (hdef' .testStop) hout (.inr (.inl rfl)))⟩
    · simp only [AtomicStep.perform, AtomicStep.exec, Option.map_some, Option.some.injEq,
        Effect.logSignal, hreset] at he
      subst he
      exact ⟨rfl, rfl, rfl, .done (hdone op.outstanding op.callback h.unregistered)
        (.late (hdef' .reset) (hlate rfl) (.inl ⟨hout, .inl rfl⟩))⟩
    · simp only [AtomicStep.perform, AtomicStep.exec, Option.map_some, Option.some.injEq,
        Effect.logSignal, hreset] at he
      subst he
      exact ⟨rfl, rfl, rfl, .done (hdone op.outstanding op.callback h.unregistered)
        (.late (hdef' .reset) (hlate rfl) (.inl ⟨hout, .inr rfl⟩))⟩
  | late hdef hl hfs =>
    -- the counter goes below zero, so no second signal is sent
    have hdef' : ∀ m', ¬ Deferred op.desc (op.history ++ [.ran m']) := by
      intro m'
      simpa using hdef
    rcases hfs with ⟨hout, hfs | hfs⟩ | ⟨-, hfs⟩
    · cases hfs
      have hneg : (op.log (.ran .cancel)).outstanding - 1 = -1 := by simp [CpoState.log, hout]
      simp only [AtomicStep.perform, AtomicStep.exec, Option.map_some, Option.some.injEq, decrement,
        Effect.logSignal, hneg, Int.neg_eq_zero, one_ne_zero, if_false] at he
      subst he
      exact ⟨rfl, rfl, rfl, .done (hdone (-1) op.callback h.unregistered)
        (.late (hdef' .cancel) (hlate rfl) (.inr ⟨rfl, rfl⟩))⟩
    · cases hfs
      have hneg : (op.log (.ran .complete)).outstanding - 1 = -1 := by simp [CpoState.log, hout]
      simp only [AtomicStep.perform, AtomicStep.exec, Option.map_some, Option.some.injEq, decrement,
        Effect.logSignal, hneg, Int.neg_eq_zero, one_ne_zero, if_false] at he
      subst he
      exact ⟨rfl, rfl, rfl, .done (hdone (-1) op.callback h.unregistered)
        (.late (hdef' .complete) (hlate rfl) (.inr ⟨rfl, rfl⟩))⟩
    · cases hfs

theorem isArmed_disarm (op : CpoState) : (disarm op).isArmed = false := by
  cases hex : op.extra <;> simp [disarm, CpoState.isArmed, hex]

/-- What a signal says: the stop, or the end of an operation, with the value it delivers. -/
def Says (t : Table) (op : CpoState) (s : Signal) : Prop :=
  s = .stopped ∨ ∃ w, findings op.desc op.history = [w] ∧ Delivers t op w ∧ s = w.signal op

/-- **Phase step**: the next step of an operation leads to the phase with the steps it leaves, and
if it signals the receiver, it is for the first time. -/
theorem Phase.perform (h : Phase ctx.sockets stopped op (m :: rest))
    (he : m.perform stopped env ctx o op = some e) (hf : e.fault = false) :
    e.ctx = ctx ∧ Phase ctx.sockets stopped e.op (e.next ++ rest) ∧
      ∀ s, e.signal = some s → History.signals op.history = [] ∧ Says ctx.sockets op s := by
  cases h with
  -- `_Start`: the counter, the callback, the test of the token, then the submission
  | starting h =>
    have hran : Early _ 1 .idle := h.ran .increment
    simp only [AtomicStep.perform, AtomicStep.exec, Option.map_some, Option.some.injEq,
      Effect.logSignal] at he
    subst he
    refine ⟨rfl, .emplacing ?_, by simp⟩
    simpa [CpoState.log, h.outstanding, h.callback] using hran
  | emplacing h =>
    simp only [AtomicStep.perform, AtomicStep.exec] at he
    split at he
    next hstop =>
      -- the stop was requested before: the callback is run by its constructor
      simp only [Option.map_some, Option.some.injEq, Effect.logSignal] at he
      subst he
      refine ⟨rfl, .entering ⟨?_, ?_, h.outstanding, rfl, .inr ⟨rfl, ?_, ?_⟩⟩ hstop, by simp⟩
      · simp [CpoState.log, h.signals]
      · simp [CpoState.log, h.findings]
      · simp [CpoState.log, h.unsubmitted]
      · simp [CpoState.log]
    next hstop =>
      simp only [Option.map_some, Option.some.injEq, Effect.logSignal] at he
      subst he
      refine ⟨rfl, .testing ⟨?_, ?_, ?_, ?_, ?_, h.extra, h.acceptId, h.outstanding, rfl⟩
        (by simpa using hstop), by simp⟩
      · simp [CpoState.log, h.signals]
      · simp [CpoState.log, h.findings]
      · simp [CpoState.log, h.calls]
      · simp [CpoState.log, h.unsubmitted]
      · simp [CpoState.log, h.unstopped]
  | testing h hstop =>
    have hran : Early _ 1 .registered := h.ran .testStop
    subst hstop
    simp only [AtomicStep.perform, AtomicStep.exec, Option.map_some, Option.some.injEq,
      Effect.logSignal] at he
    subst he
    refine ⟨rfl, .submitting ?_, by simp⟩
    simpa [CpoState.log, h.outstanding, h.callback] using hran
  | submitting h =>
    obtain ⟨hctx, hsignal, -, hphase⟩ := perform_submit h he hf
    rw [List.append_nil]
    exact ⟨hctx, hphase, by simp [hsignal]⟩
  -- the callback: the counter goes to two and comes down again before the signal
  | entering h hstop =>
    have hran := h.ran .enter 2 op.extra
    have hout : (op.log (.ran .enter)).outstanding + 1 = 2 := by simp [CpoState.log, h.outstanding]
    simp only [AtomicStep.perform, AtomicStep.exec, Option.map_some, Option.some.injEq,
      Effect.logSignal, hout] at he
    subst he
    exact ⟨rfl, .cancelling hran hstop, by simp⟩
  | cancelling h hstop =>
    simp only [AtomicStep.perform, AtomicStep.exec, ContextBase.cancel, cancel, Option.map_some,
      Option.some.injEq, Effect.logSignal] at he
    subst he
    refine ⟨rfl, .cancelled ?_ hstop ?_, by simp⟩
    · simpa [CpoState.log, disarm, h.outstanding] using
        h.ran .contextCancel 2 (op.extra.map fun ev => { ev with armed := false })
    · exact isArmed_disarm _
  | cancelled h hstop harmed =>
    have hran := h.ran .cancelComplete 1 op.extra
    have hout : (op.log (.ran .cancelComplete)).outstanding - 1 = 1 := by
      simp [CpoState.log, h.outstanding]
    simp only [AtomicStep.perform, AtomicStep.exec, Option.map_some, Option.some.injEq, decrement,
      Effect.logSignal, hout, one_ne_zero, if_false] at he
    subst he
    exact ⟨rfl, .stopping hran hstop harmed, by simp⟩
  | stopping h hstop harmed =>
    obtain ⟨hctx, -, hnext, hsignal, hphase⟩ := h.perform_cancel hstop harmed he
    rw [hnext, List.nil_append, hsignal]
    refine ⟨hctx, hphase, fun s hs => ⟨h.signals, .inl (Option.some.inj hs).symm⟩⟩
  -- `_Complete` or `_Error`: the callback is unregistered before the counter moves
  | ending h hcb =>
    have hran := h.ran .reset .idle
    have hreset : (op.log (.ran .reset)).reset = { op.log (.ran .reset) with callback := .idle } :=
      CpoState.reset_of_registered hcb
    simp only [AtomicStep.perform, AtomicStep.exec, Option.map_some, Option.some.injEq,
      Effect.logSignal, hreset] at he
    subst he
    exact ⟨rfl, .reporting hran rfl, by simp⟩
  | reporting h hcb =>
    obtain ⟨hctx, -, hnext, hsignal, hphase⟩ := h.perform_report hcb he
    rw [hnext, List.nil_append, hsignal]
    refine ⟨hctx, hphase, fun s hs => ⟨h.signals, .inr ⟨_, h.findings, h.delivers, ?_⟩⟩⟩
    exact (Option.some.inj hs).symm
  -- after the signal only left-over steps are run, and they send nothing
  | done h hfs =>
    obtain ⟨hctx, -, hsignal, hphase⟩ := hfs.perform h he
    exact ⟨hctx, hphase, by simp [hsignal]⟩

/-- **Dispatch step**: a readiness indication ends a pending operation or leaves it pending. -/
theorem Phase.dispatch (h : Phase ctx.sockets stopped op []) (harmed : op.isArmed = true)
    (hok : ctx.sockets.Ok) (he : callback ctx op env = some e) (hf : e.fault = false) :
    ctx.sockets.Extends e.ctx.sockets ∧ e.signal = none ∧
      Phase e.ctx.sockets stopped e.op e.next := by
  cases h with
  -- an operation that has signalled has no armed event
  | done h hfs => simp [h.disarmed] at harmed
  | pending h =>
    simp only [callback, Option.map_eq_some_iff] at he
    obtain ⟨wk, hwk, rfl⟩ := he
    have hdis := isArmed_disarm op
    generalize hop : (disarm op).log .dispatched = op' at hwk
    cases work_spec hwk with
    | stray _ _ _ _ hfault => simp [hfault] at hf
    -- `_Work` found the result and called `_Complete` or `_Error`
    | settled w a n added hext hadded _ hwop hfind hnext hdelivers _ =>
      subst hop
      refine ⟨hext hok, rfl, ?_⟩
      simp only [hnext]
      refine .ending ⟨?_, ?_, hdelivers hok, ?_, ?_, ?_, .inl ⟨rfl, ?_⟩⟩ ?_
      all_goals simp only [hwop]
      · simp [CpoState.log, disarm, h.signals, signals_of_isWork hadded]
      · have hfind' : findings op.desc added = [w] := hfind
        simp [CpoState.log, disarm, h.findings, hfind']
      · exact hdis
      · exact h.outstanding
      · have := (deferred_of_isWork (d := op.desc) hadded).1
        simp [CpoState.log, disarm, h.deferred.1, this]
      · simp [CpoState.log, disarm, h.deferred, deferred_of_isWork hadded]
      · exact h.callback
    -- a call reported EWOULDBLOCK: `_Work` returns false, and the event stays disarmed
    | waiting added htable hadded _ hwop hfind hnext hblock _ =>
      subst hop
      rw [htable, hnext, hwop]
      refine ⟨.refl hok, rfl, .pending ⟨?_, ?_, ?_, ?_, h.outstanding, h.callback⟩⟩
      · simp [CpoState.log, disarm, h.signals, signals_of_isWork hadded]
      · have hfind' : findings op.desc added = [] := hfind
        simp [CpoState.log, disarm, h.findings, hfind']
      · simp [CpoState.log, disarm, h.deferred, deferred_of_isWork hadded]
      · have hblock' : SysResult.fail EWOULDBLOCK ∈ calls added := hblock
        have hdis' : CpoState.isArmed { (disarm op).log .dispatched with
            history := ((disarm op).log .dispatched).history ++ added } = false := hdis
        rw [hdis']
        simp [hblock']

/-! ## What no step changes -/

theorem submit_silent (ctx : LibeventContext) (op : CpoState) (env : Env) :
    Silent op (submit ctx op env).1 := by
  have hspec := submit_spec ctx op env
  generalize submit ctx op env = r at hspec
  cases hspec with
  | refused hnone => exact ⟨rfl, rfl, rfl, rfl, rfl, [.refused], rfl, rfl⟩
  | armed n ev hon hend harmed => exact ⟨rfl, rfl, rfl, rfl, rfl, [.submitted env n], rfl, rfl⟩
  | ended n w hon hend hdelivers => exact ⟨rfl, rfl, rfl, rfl, rfl, [.submitted env n], rfl, rfl⟩

theorem callback_silent (he : callback ctx op env = some e) : Silent op e := by
  simp only [callback, Option.map_eq_some_iff] at he
  obtain ⟨wk, hwk, rfl⟩ := he
  cases work_spec hwk with
  | stray _ _ _ hop _ =>
    simp only [hop]
    exact ⟨rfl, rfl, rfl, rfl, rfl, [.dispatched, .stray], by simp [CpoState.log, disarm], rfl⟩
  | settled w a n added _ hadded _ hop =>
    simp only [hop]
    exact ⟨rfl, rfl, rfl, rfl, rfl, .dispatched :: added, by simp [CpoState.log, disarm], by
      simp [signals_of_isWork hadded]⟩
  | waiting added _ hadded _ hop =>
    simp only [hop]
    exact ⟨rfl, rfl, rfl, rfl, rfl, .dispatched :: added, by simp [CpoState.log, disarm], by
      simp [signals_of_isWork hadded]⟩

instance : LawfulContext LibeventContext where
  submit_silent {ctx _ op env _ _} h := by
    have hsilent := submit_silent ctx op env
    have heq : submit ctx op env = _ := Option.some.inj h
    rw [heq] at hsilent
    exact hsilent
  cancel_silent _ _ := ⟨rfl, rfl, rfl, rfl, rfl, [], (List.append_nil _).symm, rfl⟩
  ready_silent := callback_silent

/-- An operation whose submission or `_Work` threw. -/
structure Dropped (op : CpoState) : Prop where
  signals : signals op.history = []
  findings : findings op.desc op.history = []
  deferred : Deferred op.desc op.history
  outstanding : op.outstanding = 1

/-- Only an early operation is submitted. -/
theorem Phase.early_of_submit (h : Phase t stopped op (.submit :: rest)) :
    Early op 1 .registered := by
  generalize hfs : AtomicStep.submit :: rest = fs at h
  cases h with
  | submitting h => exact h
  -- the report of a result is not a submission
  | @reporting w tail h hcb => cases w <;> cases hfs
  | done h hl => exact (hl.not_mem.1 (hfs ▸ List.mem_cons_self)).elim
  | _ => cases hfs

/-- An exception comes out of a step only if it is a submission that looked up the id of a free
slot. -/
theorem refused_of_fault (he : m.perform stopped env ctx o op = some e) (hf : e.fault = true) :
    m = .submit ∧ e.op = (op.log (.ran .submit)).log .refused := by
  -- no other step looks up an id
  have hsubmit : m = .submit := by
    cases m with
    | submit => rfl
    | emplace =>
      simp only [AtomicStep.perform, AtomicStep.exec] at he
      split at he <;> obtain rfl := Option.some.inj he <;> cases hf
    | complete | error | cancel | cancelComplete =>
      obtain rfl := Option.some.inj he
      simp only [decrement, Effect.logSignal] at hf
      split at hf <;> cases hf
    | _ =>
      obtain rfl := Option.some.inj he
      cases hf
  subst hsubmit
  obtain ⟨r, hspec, rfl⟩ := perform_submit_cases he
  cases hspec with
  | armed n ev hon hend harmed =>
    cases hf
  | ended n w hon hend hdelivers =>
    cases hf
  | refused hnone =>
    exact ⟨rfl, rfl⟩

/-- An exception comes out of a readiness callback only if `_Work` looked up the id of a free
slot. -/
theorem stray_of_fault (he : callback ctx op env = some e) (hf : e.fault = true) :
    e.op = ((disarm op).log .dispatched).log .stray := by
  simp only [callback, Option.map_eq_some_iff] at he
  obtain ⟨wk, hwk, rfl⟩ := he
  cases work_spec hwk with
  | settled w a n added _ _ _ _ _ _ _ hfault => simp [hfault] at hf
  | waiting added _ _ _ _ _ _ _ hfault => simp [hfault] at hf
  | stray _ _ _ hop _ => exact hop

theorem Phase.perform_fault (h : Phase t stopped op (m :: rest))
    (he : m.perform stopped env ctx o op = some e) (hf : e.fault = true) : Dropped e.op := by
  obtain ⟨rfl, hop⟩ := refused_of_fault he hf
  have hearly := h.early_of_submit
  have hdef : Deferred op.desc op.history :=
    ⟨hearly.unstopped, fun env n hn => absurd hn (hearly.unsubmitted env n)⟩
  rw [hop]
  refine ⟨?_, ?_, ?_, hearly.outstanding⟩
  · simp [CpoState.log, hearly.signals]
  · simp [CpoState.log, hearly.findings]
  · simp [CpoState.log, hdef]

theorem Phase.dispatch_fault (h : Phase t stopped op []) (harmed : op.isArmed = true)
    (he : callback ctx op env = some e) (hf : e.fault = true) : Dropped e.op := by
  cases h with
  -- nothing is armed after the signal
  | done h hfs => simp [h.disarmed] at harmed
  | pending h =>
    rw [stray_of_fault he hf]
    refine ⟨?_, ?_, ?_, h.outstanding⟩
    · simp [CpoState.log, disarm, h.signals]
    · simp [CpoState.log, disarm, h.findings]
    · simp [CpoState.log, disarm, h.deferred]

end Perform

end LibeventContext

end Stdnet
