import Stdnet.CallStack
import Stdnet.PollContext
import Stdnet.WorkOutcome

/-!
# The Life of an Operation on the poll Context

`_Accept` registers the operation and returns false, which `_Start` takes for a completion: the
receiver is signalled at once and the operation stays in the vectors. `_Cancel` is empty, so that an
operation started after the stop keeps the count of its stop callback and never signals.

## Main results

- `Phase.perform`: running the next step of an operation leads from phase to phase.
- `perform_submit`: what the submission does to the vectors.
- `Phase.dispatch`: a readiness indication reaches operations that have signalled.
-/

namespace Stdnet

namespace PollContext

open History SwapRemove

/-! ## Phases -/

/-- The steps that report the end of an operation. -/
def Reporting (m : AtomicStep) : Prop :=
  m = .complete ∨ ∃ e, m = .error e

/-- An operation whose stop callback was constructed after the stop. -/
structure Halted (op : CpoState) : Prop where
  signals : signals op.history = []
  unsubmitted : Unsubmitted op.history
  emplaced : .emplaced true ∈ op.history
  unregistered : op.callback ≠ .registered

/-- The counter of such an operation and the steps that are left of its `_Start`. -/
inductive Halting : ℤ → List AtomicStep → Prop where
  | entering : Halting 1 [.enter, .leave, .testStop]
  | cancelling : Halting 2 [.contextCancel, .leave, .testStop]
  | leaving : Halting 2 [.leave, .testStop]
  | testing : Halting 2 [.testStop]
  | resetting : Halting 2 [.reset, .cancel]
  | stopping : Halting 2 [.cancel]
  | halted : Halting 1 []

/-- An operation that is about to signal with the step `m`. If `prompt`, the accepts among them
signal without a socket. -/
structure Answering (prompt : Prop) (op : CpoState) (m : AtomicStep) : Prop where
  signals : signals op.history = []
  unstopped : .emplaced true ∉ op.history
  outstanding : op.outstanding = 1
  reporting : Reporting m
  prompt : prompt → ∀ id, op.desc = .accept id → m = .complete ∧ op.acceptId = none

/-- An operation that has signalled. -/
structure Answered (prompt : Prop) (op : CpoState) : Prop where
  signals : signals op.history ≠ []
  unstopped : .emplaced true ∉ op.history
  outstanding : op.outstanding ≤ 0
  unregistered : op.callback ≠ .registered
  prompt : prompt → ∀ id, op.desc = .accept id → History.signals op.history = [.value (.socket none)]

/-- The phases of an operation; the list holds the steps still to be run on it. -/
inductive Phase (prompt : Prop) (stopped : Bool) (op : CpoState) : List AtomicStep → Prop where
  | starting (h : Early op 0 .idle) : Phase prompt stopped op [.increment, .emplace, .testStop]
  | emplacing (h : Early op 1 .idle) : Phase prompt stopped op [.emplace, .testStop]
  | testing (h : Early op 1 .registered) (hstop : stopped = false) :
      Phase prompt stopped op [.testStop]
  | submitting (h : Early op 1 .registered) : Phase prompt stopped op [.submit]
  | halting {fs : List AtomicStep} (h : Halted op) (hstop : stopped = true)
      (hfs : Halting op.outstanding fs) : Phase prompt stopped op fs
  | resetting {m : AtomicStep} (h : Answering prompt op m) (hcb : op.callback = .registered) :
      Phase prompt stopped op [.reset, m]
  | answering {m : AtomicStep} (h : Answering prompt op m) (hcb : op.callback = .idle) :
      Phase prompt stopped op [m]
  | answered {fs : List AtomicStep} (h : Answered prompt op)
      (hfs : fs = [] ∨ ∃ m, Reporting m ∧ (fs = [.reset, m] ∨ fs = [m])) : Phase prompt stopped op fs

section Perform

variable {prompt : Prop} {stopped : Bool} {env : Env} {ctx : PollContext} {o : OpId} {op : CpoState}
  {m : AtomicStep} {rest : List AtomicStep} {e : Effect PollContext}

theorem reporting_report {w : WorkEnd} : Reporting w.report := by
  cases w with
  | error e => exact .inr ⟨e, rfl⟩
  | value | closed | wouldBlock => exact .inl rfl

/-! ## Submission -/

theorem work_accept {id : SocketId} (hdesc : op.desc = .accept id) (t : Table) :
    op.work t env = acceptWork t op env := by
  simp only [CpoState.work, hdesc]

/-- The `_Work` of an accept makes a socket of the handle that the last `accept` returned. -/
theorem acceptWork_table {t : Table} {wk : Worked} (h : acceptWork t op env = some wk)
    (hf : wk.fault = false) :
    (∃ fd id, workLoop acceptSwitch env.results = some (.value fd) ∧
        t.makeSocket fd = .ok (id, wk.table) ∧ wk.result = true) ∨
      ((∀ fd, workLoop acceptSwitch env.results ≠ some (.value fd)) ∧ wk.table = t) := by
  rcases withHandle_cases h with ⟨-, rfl⟩ | ⟨r, -, hbody⟩
  · cases hf
  simp only at hbody
  split at hbody
  next fd hloop =>
    split at hbody
    next =>
      split at hbody
      next id t' hmake =>
        obtain rfl := Option.some.inj hbody
        exact .inl ⟨fd, id, hloop, hmake, rfl⟩
      next => cases hbody
    next => cases hbody
  next => cases hbody
  next hloop => exact .inr ⟨by simp [hloop], by rw [← Option.some.inj hbody]; rfl⟩
  next hloop => exact .inr ⟨by simp [hloop], by rw [← Option.some.inj hbody]; rfl⟩
  next => cases hbody

/-- No other `_Work` changes the table. -/
theorem work_table_of_ne {t : Table} {wk : Worked} (h : op.work t env = some wk)
    (hdesc : ∀ id, op.desc ≠ .accept id) : wk.table = t := by
  cases hd : op.desc with
  | accept id => exact absurd hd (hdesc id)
  | connect id | receive id | send id =>
    simp only [CpoState.work, hd, connectWork, transferWork] at h
    rcases withHandle_cases h with ⟨-, rfl⟩ | ⟨r, -, hbody⟩
    · rfl
    split at hbody <;> (try split at hbody) <;>
      first | (rw [← Option.some.inj hbody]; rfl) | cases hbody
  | resumeAfter d | resumeAt p =>
    simp only [CpoState.work, hd, timerWork, Option.some.injEq] at h
    rw [← h]
    rfl

theorem allBlocking_work {t : Table} (ht : t.AllBlocking) {wk : Worked}
    (h : op.work t env = some wk) : wk.table.AllBlocking := by
  cases hdesc : op.desc with
  | accept id =>
    cases hf : wk.fault with
    | true =>
      cases work_spec h with
      | stray _ _ htable => exact htable ▸ ht
      | waiting _ htable => exact htable ▸ ht
      | settled _ _ _ _ _ _ _ _ _ _ _ hfault => exact absurd (hf.symm.trans hfault) nofun
    | false =>
      rw [work_accept hdesc] at h
      rcases acceptWork_table h hf with ⟨fd, id', -, hmake, -⟩ | ⟨-, heq⟩
      · exact ht.of_makeSocket hmake
      · exact heq ▸ ht
  | _ => exact (work_table_of_ne h (by simp [hdesc])) ▸ ht

/-- A `_Work` makes no more than one socket. -/
theorem work_steps {t : Table} {wk : Worked} (h : op.work t env = some wk) : t.Steps wk.table where
  blocking ht := allBlocking_work ht h
  ok ht := by
    cases work_spec h with
    | stray _ _ htable => rw [htable]; exact ht
    | waiting _ htable => rw [htable]; exact ht
    | settled _ _ _ _ hext => exact (hext ht).ok
  evolves ht := by
    cases work_spec h with
    | stray _ _ htable => rw [htable]; exact .refl t
    | waiting _ htable => rw [htable]; exact .refl t
    | settled _ _ _ _ hext => exact (hext ht).evolves

/-- A `_Work` constructs no stop callback. -/
theorem not_emplaced_of_isWork {added : List OpEvent} (hadded : ∀ x ∈ added, IsWork x) {b : Bool} :
    .emplaced b ∉ added :=
  fun hmem => hadded _ hmem

/-- A submission throws because the id is not live; does nothing; registers the operation with the
handle of the socket that the id names; or, on a socket in non-blocking mode, accepts at once. -/
inductive SubmitCases (ctx : PollContext) (o : OpId) (op : CpoState) (env : Env) :
    Effect PollContext × Bool → Prop where
  | refused : SubmitCases ctx o op env ({ ctx := ctx, op := op.log .refused, fault := true }, false)
  | ignored (hdesc : ∀ id, op.desc ≠ .accept id) :
      SubmitCases ctx o op env ({ ctx := ctx, op := op.log (.submitted env none) }, false)
  | registered (r : SocketRecord) (added : List OpEvent)
      (hrec : ctx.sockets.record op.desc.id = some r) (hadded : ∀ x ∈ added, IsWork x) :
      SubmitCases ctx o op env
        ({ ctx := ctx.register o r.handle op.desc.events
           op := { op with history := op.history ++ .submitted env (some r.number) :: added } },
          false)
  | ended (n : ℕ) (w : WorkEnd) (wk : Worked) (added : List OpEvent) (hadded : ∀ x ∈ added, IsWork x)
      (hmode : ¬ ctx.sockets.AllBlocking) (hsteps : ctx.sockets.Steps wk.table)
      (a : Option SocketId) (c : ℕ)
      (hlast : (op.history ++ .submitted env (some n) :: added).getLast? = some (.worked true))
      (hop : wk.op = { op with
        acceptId := a, count := c, history := op.history ++ .submitted env (some n) :: added }) :
      SubmitCases ctx o op env
        ({ ctx := { ctx with sockets := wk.table }, op := wk.op, next := [.reset, w.report] }, true)

theorem submit_spec {r : Effect PollContext × Bool} (h : submit ctx o op env = some r) :
    SubmitCases ctx o op env r := by
  cases hdesc : op.desc with
  | connect id | receive id | send id | resumeAfter d | resumeAt p =>
    simp only [submit, hdesc, Option.some.injEq] at h
    subst h
    exact .ignored (by simp [hdesc])
  | accept id =>
    simp only [submit, hdesc, accept] at h
    split at h
    next =>
      obtain rfl := Option.some.inj h
      exact .refused
    next rec hget =>
      have hrec : ctx.sockets.record op.desc.id = some rec := by
        rw [hdesc]
        exact Container.get_eq_ok.mp hget
      split at h
      next hblocking =>
        obtain rfl := Option.some.inj h
        exact .registered rec [] hrec (by simp)
      next hblocking =>
        obtain ⟨wk, hwk, rfl⟩ := Option.map_eq_some_iff.mp h
        -- `_Work` is only tried on a socket in non-blocking mode
        have hmode : ¬ ctx.sockets.AllBlocking := fun hall =>
          hblocking (hall.blocking (Container.get_eq_ok.mp hget))
        have hwork : (op.log (.submitted env (some rec.number))).work ctx.sockets env = some wk := by
          have hdesc' : (op.log (.submitted env (some rec.number))).desc = .accept id := hdesc
          rw [work_accept hdesc']
          exact hwk
        have happ : ∀ added, op.history ++ [.submitted env (some rec.number)] ++ added =
            op.history ++ .submitted env (some rec.number) :: added := by simp
        cases work_spec hwork with
        | stray _ hnone =>
          -- the record was just found
          exact absurd (hrec.symm.trans hnone) nofun
        | settled w a c added _ hadded _ hop _ hnext _ hfault hresult =>
          have hlast := (work_result hwork hfault).1
          simp only [CpoState.log, happ] at hop
          simp only [hop, hresult] at hlast
          simp only [hresult, if_true, hnext, hfault]
          exact .ended rec.number w wk added hadded hmode (work_steps hwork) a c hlast hop
        | waiting added htable hadded _ hop _ hnext _ hfault hresult =>
          simp only [CpoState.log, happ] at hop
          simp only [hresult, Bool.false_eq_true, if_false, hnext, hop]
          exact .registered rec added hrec hadded

/-- An operation is appended to the vectors, with the handle of the socket that it was submitted for;
or they are left alone, and it was not `_Work` that returned false. -/
inductive VectorEnd (ctx : PollContext) (o : OpId) (op : CpoState) (e : Effect PollContext) : Prop
    where
  | added (env : Env) (r : SocketRecord) (hrec : ctx.sockets.record op.desc.id = some r)
      (hctx : e.ctx = ctx.register o r.handle op.desc.events)
      (hsubmitted : .submitted env (some r.number) ∈ e.op.history)
  | same (hpoll : e.ctx.poll = ctx.poll) (houtstanding : e.ctx.outstanding = ctx.outstanding)
      (hlast : e.op.history.getLast? ≠ some (.worked false))

/-- What the submission of an early operation does: the operation is about to signal, and it is
appended to the vectors or these are left alone. -/
theorem perform_submit (h : Early op 1 .registered) (hprompt : prompt → ctx.sockets.AllBlocking)
    (he : AtomicStep.perform .submit stopped env ctx o op = some e) (hf : e.fault = false) :
    Phase prompt stopped e.op e.next ∧ ¬ Unsubmitted e.op.history ∧
      ctx.sockets.Steps e.ctx.sockets ∧ VectorEnd ctx o op e := by
  have hran : Early (op.log (.ran .submit)) 1 .registered := by
    simpa [CpoState.log, h.outstanding, h.callback] using h.ran .submit
  simp only [AtomicStep.perform, AtomicStep.exec, Option.map_map, Option.map_eq_some_iff] at he
  obtain ⟨⟨e', b⟩, hsubmit, rfl⟩ := he
  have hdesc' : (op.log (.ran .submit)).desc = op.desc := rfl
  generalize op.log (.ran .submit) = op' at hsubmit hran hdesc'
  have hsubmitted : ∀ (n : Option ℕ) (added : List OpEvent),
      ¬ Unsubmitted (op'.history ++ .submitted env n :: added) := by
    intro n added huns
    exact huns env n (by simp)
  cases submit_spec hsubmit with
  | refused => cases hf
  -- the context has no code for these operations: they are reported as completed
  | ignored hdesc =>
    refine ⟨.resetting ⟨?_, ?_, hran.outstanding, .inl rfl, fun _ id hid => absurd hid (hdesc id)⟩
      hran.callback, hsubmitted none [], .refl _, .same rfl rfl ?_⟩
    · simp [Effect.logSignal, CpoState.log, hran.signals]
    · simp [Effect.logSignal, CpoState.log, hran.unstopped]
    · simp [Effect.logSignal, CpoState.log]
  | registered r added hrec hadded =>
    -- `_Start` takes the false result for a completion
    refine ⟨.resetting ⟨?_, ?_, hran.outstanding, .inl rfl, fun _ _ _ => ⟨rfl, hran.acceptId⟩⟩
      hran.callback, hsubmitted (some r.number) added, .refl _,
      .added env r (hdesc' ▸ hrec) (by rw [← hdesc']; rfl) (by simp [Effect.logSignal])⟩
    · simp [Effect.logSignal, hran.signals, signals_of_isWork hadded]
    · simp [Effect.logSignal, hran.unstopped, not_emplaced_of_isWork hadded]
  | ended n w wk added hadded hmode hsteps a c hlast hop =>
    simp only [Function.comp_apply, Effect.logSignal, hop, if_true]
    refine ⟨.resetting ⟨?_, ?_, hran.outstanding, reporting_report,
      fun hp => absurd (hprompt hp) hmode⟩ hran.callback, hsubmitted (some n) added, hsteps,
      .same rfl rfl ?_⟩
    · simp [hran.signals, signals_of_isWork hadded]
    · simp [hran.unstopped, not_emplaced_of_isWork hadded]
    · simp [hlast]

/-! ## One step -/

/-- A report decrements the counter, and signals if that makes it zero. -/
theorem exec_reporting (stopped : Bool) (env : Env) (ctx : PollContext) (o : OpId) (op : CpoState)
    (hm : Reporting m) : ∃ s, (m = .complete → s = op.setValue) ∧
    m.perform stopped env ctx o op = some ((decrement ctx (op.log (.ran m)) s).logSignal) := by
  rcases hm with rfl | ⟨e, rfl⟩
  · exact ⟨op.setValue, fun _ => rfl, rfl⟩
  · exact ⟨.error e, nofun, rfl⟩

/-- The first report signals the receiver. -/
theorem Answering.perform (h : Answering prompt op m) (hcb : op.callback = .idle)
    (he : m.perform stopped env ctx o op = some e) :
    e.ctx = ctx ∧ e.next = [] ∧ Answered prompt e.op := by
  obtain ⟨s, hs, hexec⟩ := exec_reporting stopped env ctx o op h.reporting
  have hout : (op.log (.ran m)).outstanding - 1 = 0 := by simp [CpoState.log, h.outstanding]
  rw [hexec, Option.some.injEq] at he
  simp only [decrement, hout, if_true, Effect.logSignal] at he
  subst he
  refine ⟨rfl, rfl, ?_, ?_, ?_, ?_, fun hp id hid => ?_⟩
  · simp [CpoState.log]
  · simp [CpoState.log, h.unstopped]
  · simp [CpoState.log]
  · simp [CpoState.log, hcb]
  · obtain ⟨hm, hnone⟩ := h.prompt hp id hid
    have hid' : op.desc = .accept id := hid
    simp [CpoState.log, h.signals, hs hm, CpoState.setValue, hid', hnone]

/-- A later report does not reach zero. -/
theorem Answered.perform (h : Answered prompt op) (hm : Reporting m)
    (he : m.perform stopped env ctx o op = some e) :
    e.ctx = ctx ∧ e.next = [] ∧ Answered prompt e.op := by
  obtain ⟨s, hs, hexec⟩ := exec_reporting stopped env ctx o op hm
  have hle := h.outstanding
  have hout : (op.log (.ran m)).outstanding - 1 ≠ 0 := by
    simp only [CpoState.log]
    omega
  rw [hexec, Option.some.injEq] at he
  simp only [decrement, hout, if_false, Effect.logSignal] at he
  subst he
  refine ⟨rfl, rfl, ?_, ?_, ?_, h.unregistered, fun hp id hid => ?_⟩
  · simpa [CpoState.log] using h.signals
  · simpa [CpoState.log] using h.unstopped
  · simp only [CpoState.log]
    omega
  · simpa [CpoState.log] using h.prompt hp id hid

theorem Halted.ran (h : Halted op) (m : AtomicStep) (out : ℤ) {cb : Callback}
    (hcb : cb ≠ .registered) :
    Halted { op.log (.ran m) with outstanding := out, callback := cb } where
  signals := by simp [CpoState.log, h.signals]
  unsubmitted := by simp [CpoState.log, h.unsubmitted]
  emplaced := by simp [CpoState.log, h.emplaced]
  unregistered := hcb

/-- An operation whose stop callback was constructed after the stop goes through its steps without a
signal: `_Cancel` of the context does nothing and the counter stops at 1. -/
theorem Halted.perform (h : Halted op) (hfs : Halting op.outstanding (m :: rest))
    (he : m.perform true env ctx o op = some e) :
    e.ctx = ctx ∧ Halted e.op ∧ Halting e.op.outstanding (e.next ++ rest) := by
  have hcb : (op.log (.ran m)).callback ≠ .registered := h.unregistered
  generalize hout : op.outstanding = out at hfs
  cases hfs with
  -- the callback increments the counter, and nothing takes the increment back
  | entering =>
    obtain rfl := Option.some.inj he
    have hnext : (1 : ℤ) < (op.log (.ran .enter)).outstanding + 1 := by simp [CpoState.log, hout]
    simp only [Effect.logSignal, hnext, if_true]
    refine ⟨trivial, h.ran .enter _ hcb, ?_⟩
    simp only [CpoState.log, hout]
    exact .cancelling
  | cancelling =>
    obtain rfl := Option.some.inj he
    refine ⟨rfl, h.ran .contextCancel _ hcb, ?_⟩
    show Halting op.outstanding _
    rw [hout]
    exact .leaving
  | leaving =>
    obtain rfl := Option.some.inj he
    refine ⟨rfl, h.ran .leave _ (by simp), ?_⟩
    show Halting op.outstanding _
    rw [hout]
    exact .testing
  | testing =>
    obtain rfl := Option.some.inj he
    refine ⟨rfl, h.ran .testStop _ hcb, ?_⟩
    show Halting op.outstanding _
    rw [hout]
    exact .resetting
  | resetting =>
    obtain rfl := Option.some.inj he
    have hreset : (op.log (.ran .reset)).reset = op.log (.ran .reset) :=
      CpoState.reset_of_ne h.unregistered
    simp only [Effect.logSignal, hreset]
    refine ⟨trivial, h.ran .reset _ hcb, ?_⟩
    show Halting op.outstanding _
    rw [hout]
    exact .stopping
  -- so the `_Cancel` in `_Start` finds 2 and sends nothing
  | stopping =>
    obtain rfl := Option.some.inj he
    have hpos : (op.log (.ran .cancel)).outstanding - 1 = 1 := by simp [CpoState.log, hout]
    simp only [decrement, Effect.logSignal, hpos, one_ne_zero, if_false]
    exact ⟨trivial, h.ran .cancel _ hcb, .halted⟩

/-- **Phase step**: the next step of an operation leads to the phase with the steps it leaves; only
the submission changes the context. -/
theorem Phase.perform (h : Phase prompt stopped op (m :: rest))
    (hprompt : prompt → ctx.sockets.AllBlocking)
    (he : m.perform stopped env ctx o op = some e) (hf : e.fault = false) :
    Phase prompt stopped e.op (e.next ++ rest) ∧ (m ≠ .submit → e.ctx = ctx) := by
  generalize hfs : m :: rest = fs at h
  cases h with
  | starting h =>
    cases hfs
    have hran : Early _ 1 .idle := h.ran .increment
    obtain rfl := Option.some.inj he
    refine ⟨.emplacing ?_, fun _ => rfl⟩
    simpa [Effect.logSignal, CpoState.log, h.outstanding, h.callback] using hran
  | emplacing h =>
    cases hfs
    simp only [AtomicStep.perform, AtomicStep.exec] at he
    split at he
    next hstop =>
      -- the stop was requested before: the callback is run by its constructor
      obtain rfl := Option.some.inj he
      refine ⟨.halting ⟨?_, ?_, ?_, by simp [Effect.logSignal]⟩ hstop ?_, fun _ => rfl⟩
      · simp [Effect.logSignal, CpoState.log, h.signals]
      · simp [Effect.logSignal, CpoState.log, h.unsubmitted]
      · simp [Effect.logSignal, CpoState.log]
      · show Halting op.outstanding _
        rw [h.outstanding]
        exact .entering
    next hstop =>
      obtain rfl := Option.some.inj he
      refine ⟨.testing ⟨?_, ?_, ?_, ?_, ?_, h.extra, h.acceptId, h.outstanding, rfl⟩
        (by simpa using hstop), fun _ => rfl⟩
      · simp [Effect.logSignal, CpoState.log, h.signals]
      · simp [Effect.logSignal, CpoState.log, h.findings]
      · simp [Effect.logSignal, CpoState.log, h.calls]
      · simp [Effect.logSignal, CpoState.log, h.unsubmitted]
      · simp [Effect.logSignal, CpoState.log, h.unstopped]
  | testing h hstop =>
    cases hfs
    have hran : Early _ 1 .registered := h.ran .testStop
    subst hstop
    obtain rfl := Option.some.inj he
    refine ⟨.submitting ?_, fun _ => rfl⟩
    simpa [Effect.logSignal, CpoState.log, h.outstanding, h.callback] using hran
  | submitting h =>
    cases hfs
    rw [List.append_nil]
    exact ⟨(perform_submit h hprompt he hf).1, fun hne => absurd rfl hne⟩
  | halting h hstop hsteps =>
    subst hfs hstop
    obtain ⟨hctx, hop, hsteps'⟩ := h.perform hsteps he
    exact ⟨.halting hop rfl hsteps', fun _ => hctx⟩
  | resetting h hcb =>
    cases hfs
    obtain rfl := Option.some.inj he
    have hreset : (op.log (.ran .reset)).reset = { op.log (.ran .reset) with callback := .idle } :=
      CpoState.reset_of_registered hcb
    simp only [Effect.logSignal, hreset]
    refine ⟨.answering ⟨?_, ?_, h.outstanding, h.reporting, h.prompt⟩ rfl, fun _ => trivial⟩
    · simpa [CpoState.log] using h.signals
    · simpa [CpoState.log] using h.unstopped
  | answering h hcb =>
    cases hfs
    obtain ⟨hctx, hnext, hop⟩ := h.perform hcb he
    rw [hnext]
    exact ⟨.answered hop (.inl rfl), fun _ => hctx⟩
  | answered h hsteps =>
    subst hfs
    rcases hsteps with hnil | ⟨m', hm', hsteps | hsteps⟩
    · cases hnil
    · cases hsteps
      obtain rfl := Option.some.inj he
      have hreset : (op.log (.ran .reset)).reset = op.log (.ran .reset) :=
        CpoState.reset_of_ne h.unregistered
      simp only [Effect.logSignal, hreset]
      refine ⟨.answered ⟨?_, ?_, h.outstanding, h.unregistered, fun hp id hid => ?_⟩
        (.inr ⟨m', hm', .inr rfl⟩), fun _ => trivial⟩
      · simpa [CpoState.log] using h.signals
      · simpa [CpoState.log] using h.unstopped
      · simpa [CpoState.log] using h.prompt hp id hid
    · cases hsteps
      obtain ⟨hctx, hnext, hop⟩ := h.perform hm' he
      rw [hnext]
      exact ⟨.answered hop (.inl rfl), fun _ => hctx⟩

/-! ## Dispatch -/

theorem mem_swapRemove {os : List OpId} (hos : os.Nodup) (ho : o ∈ os) :
    ∀ o', o' ∈ swapRemove os (os.idxOf o) ↔ o' ≠ o ∧ o' ∈ os := by
  intro o'
  have hlt : os.idxOf o < os.length := List.idxOf_lt_length_of_mem ho
  have hperm : (o :: swapRemove os (os.idxOf o)).Perm os := by
    have hget : os[os.idxOf o] = o := List.getElem_idxOf hlt
    have := cons_perm hlt
    rwa [hget] at this
  have hnodup := hperm.nodup_iff.mpr hos
  rw [← hperm.mem_iff, List.mem_cons]
  constructor
  · intro hmem
    exact ⟨fun heq => (List.nodup_cons.mp hnodup).1 (heq ▸ hmem), .inr hmem⟩
  · rintro ⟨hne, heq | hmem⟩
    · exact absurd heq hne
    · exact hmem

theorem nodup_swapRemove {os : List OpId} (hos : os.Nodup) (ho : o ∈ os) :
    (swapRemove os (os.idxOf o)).Nodup := by
  have hlt : os.idxOf o < os.length := List.idxOf_lt_length_of_mem ho
  exact (List.nodup_cons.mp ((cons_perm hlt).nodup_iff.mpr hos)).2

/-- **Dispatch step**: the operation is taken out of the vectors and its `_Work` is run; it has
signalled before, so what `_Work` finds changes only the counter. -/
theorem Phase.dispatch (h : Phase prompt stopped op []) (hsub : ¬ Unsubmitted op.history)
    (he : dispatch ctx o op env = some e) (hf : e.fault = false) :
    Phase prompt stopped e.op e.next ∧
      e.ctx.poll = swapRemove ctx.poll (ctx.outstanding.idxOf o) ∧
      e.ctx.outstanding = swapRemove ctx.outstanding (ctx.outstanding.idxOf o) ∧
      ctx.sockets.Steps e.ctx.sockets ∧
      ∃ b, e.op.history.getLast? = some (.worked b) ∧
        (b = false ↔ op.desc.loop?.isSome ∧ .fail EWOULDBLOCK ∈ env.results) := by
  generalize hfs : ([] : List AtomicStep) = fs at h
  cases h with
  -- an operation that halted was not submitted, so it is not in the vectors
  | halting h => exact absurd h.unsubmitted hsub
  | answered h hsteps =>
    simp only [PollContext.dispatch, Option.map_eq_some_iff] at he
    obtain ⟨wk, hwk, rfl⟩ := he
    have hresult := work_result hwk hf
    refine ⟨?_, rfl, rfl, work_steps hwk, wk.result, hresult⟩
    cases work_spec hwk with
    | stray _ _ _ _ hfault => exact absurd (hfault.symm.trans hf) nofun
    | settled w a n added _ hadded _ hop _ hnext =>
      simp only [hop, hnext]
      refine .answered ⟨?_, ?_, h.outstanding, h.unregistered, fun hp id hid => ?_⟩
        (.inr ⟨_, reporting_report, .inl rfl⟩)
      · simpa [CpoState.log, signals_of_isWork hadded] using h.signals
      · simpa [CpoState.log, not_emplaced_of_isWork hadded] using h.unstopped
      · simpa [CpoState.log, signals_of_isWork hadded] using h.prompt hp id hid
    | waiting added _ hadded _ hop _ hnext =>
      simp only [hop, hnext]
      refine .answered ⟨?_, ?_, h.outstanding, h.unregistered, fun hp id hid => ?_⟩ (.inl rfl)
      · simpa [CpoState.log, signals_of_isWork hadded] using h.signals
      · simpa [CpoState.log, not_emplaced_of_isWork hadded] using h.unstopped
      · simpa [CpoState.log, signals_of_isWork hadded] using h.prompt hp id hid
  | _ => cases hfs

/-! ## What the functions of the context leave alone -/

theorem dispatch_silent (he : dispatch ctx o op env = some e) : Silent op e := by
  simp only [dispatch, Option.map_eq_some_iff] at he
  obtain ⟨wk, hwk, rfl⟩ := he
  cases work_spec hwk with
  | stray _ _ _ hop _ =>
    simp only [hop]
    exact ⟨rfl, rfl, rfl, rfl, rfl, [.dispatched, .stray], by simp [CpoState.log], rfl⟩
  | settled w a n added _ hadded _ hop =>
    simp only [hop]
    exact ⟨rfl, rfl, rfl, rfl, rfl, .dispatched :: added, by simp [CpoState.log], by
      simp [signals_of_isWork hadded]⟩
  | waiting added _ hadded _ hop =>
    simp only [hop]
    exact ⟨rfl, rfl, rfl, rfl, rfl, .dispatched :: added, by simp [CpoState.log], by
      simp [signals_of_isWork hadded]⟩

theorem submit_silent {b : Bool} (h : submit ctx o op env = some (e, b)) : Silent op e := by
  cases submit_spec h with
  | refused => exact ⟨rfl, rfl, rfl, rfl, rfl, [.refused], rfl, rfl⟩
  | ignored hdesc => exact ⟨rfl, rfl, rfl, rfl, rfl, [.submitted env none], rfl, rfl⟩
  | registered r added hrec hadded =>
    exact ⟨rfl, rfl, rfl, rfl, rfl, _, rfl, by simp [signals_of_isWork hadded]⟩
  | ended n w wk added hadded hmode hsteps a c hlast hop =>
    simp only [hop]
    exact ⟨rfl, rfl, rfl, rfl, rfl, _, rfl, by simp [signals_of_isWork hadded]⟩

instance : LawfulContext PollContext where
  submit_silent := submit_silent
  cancel_silent _ _ := ⟨rfl, rfl, rfl, rfl, rfl, [], (List.append_nil _).symm, rfl⟩
  ready_silent := dispatch_silent

end Perform

end PollContext

end Stdnet
