import Stdnet.Cancellation

/-!
# The Outcome of a Connect

A connect on the libevent context makes its calls in two places: `fcntl` and `connect` inside
`_Start`, whose `_Complete` follows every submission that returned false, and `getsockopt` in the
event loop. What the receiver is told is the outcome of these calls, unless a stop was requested
before.

## Main results

- `Attempt.outcome_eq_value_iff`: when an attempt succeeds.
- `Unstopped.step`: when an operation is about to be submitted or to report a result, no stop has
  been requested.
- `Attempted.step`: a connect makes the calls of one attempt.
- `connect_outcome`: what a connect signals.
-/

namespace Stdnet

open History

/-! ## Attempts -/

/-- What the calls of an attempt to connect return, as far as they are made. -/
structure Attempt where
  fcntl : SysResult
  connect : SysResult
  eventNew : Option ℤ
  getsockopt : SysResult
  soError : ℤ

namespace Attempt

/-- The connection is under way and an event waits for its end. -/
def InProgress (a : Attempt) : Prop :=
  (∃ rc, a.fcntl = .ok rc) ∧ (∃ e, a.connect = .fail e ∧ (e = EINPROGRESS ∨ e = EINTR)) ∧
    a.eventNew = none

/-- The attempt led to a connection. -/
def Succeeds (a : Attempt) : Prop :=
  ((∃ rc, a.fcntl = .ok rc) ∧ ∃ rc, a.connect = .ok rc) ∨
    (a.InProgress ∧ (∃ rc, a.getsockopt = .ok rc) ∧ a.soError = 0)

/-- What the receiver should be told: the error of the first call that failed, or the value. -/
def outcome (a : Attempt) : Signal :=
  match a.fcntl with
  | .fail e => .error ⟨e, .system⟩
  | .ok _ =>
    match a.connect with
    | .ok _ => .value .unit
    | .fail e =>
      if e = EINPROGRESS ∨ e = EINTR then
        match a.eventNew with
        | some e => .error ⟨e, .libevent⟩
        | none =>
          match a.getsockopt with
          | .fail e => .error ⟨e, .system⟩
          | .ok _ => if a.soError = 0 then .value .unit else .error ⟨a.soError, .system⟩
      else .error ⟨e, .system⟩

variable {a : Attempt}

/-- The outcome of an attempt that is in progress is what `getsockopt` says. -/
theorem InProgress.outcome_eq (h : a.InProgress) :
    a.outcome = match a.getsockopt with
      | .fail e => .error ⟨e, .system⟩
      | .ok _ => if a.soError = 0 then .value .unit else .error ⟨a.soError, .system⟩ := by
  obtain ⟨⟨rc, hfcntl⟩, ⟨e, hconnect, hunder⟩, hnew⟩ := h
  simp only [outcome, hfcntl, hconnect, hnew, if_pos hunder]

/-- **Success**: the value is the outcome of the attempts that succeed. -/
theorem outcome_eq_value_iff : a.outcome = .value .unit ↔ a.Succeeds := by
  constructor
  · intro h
    cases hfcntl : a.fcntl with
    | fail e => simp only [outcome, hfcntl, reduceCtorEq] at h
    | ok rc =>
      cases hconnect : a.connect with
      | ok rc' => exact .inl ⟨⟨rc, hfcntl⟩, rc', hconnect⟩
      | fail e =>
        by_cases hunder : e = EINPROGRESS ∨ e = EINTR
        · cases hnew : a.eventNew with
          | some e' => simp only [outcome, hfcntl, hconnect, if_pos hunder, hnew, reduceCtorEq] at h
          | none =>
            have hprogress : a.InProgress := ⟨⟨rc, hfcntl⟩, ⟨e, hconnect, hunder⟩, hnew⟩
            rw [hprogress.outcome_eq] at h
            -- `getsockopt` decides
            cases hget : a.getsockopt with
            | fail e' => simp only [hget, reduceCtorEq] at h
            | ok rc' =>
              simp only [hget] at h
              split at h
              next hzero => exact .inr ⟨hprogress, ⟨rc', hget⟩, hzero⟩
              next => cases h
        · simp only [outcome, hfcntl, hconnect, if_neg hunder, reduceCtorEq] at h
  · rintro (⟨⟨rc, hfcntl⟩, rc', hconnect⟩ | ⟨hprogress, ⟨rc, hget⟩, hzero⟩)
    · simp only [outcome, hfcntl, hconnect]
    · simp only [hprogress.outcome_eq, hget, hzero, if_true]

end Attempt

/-! ## What the history says about the calls -/

/-- The entry records calls of a connect. -/
def OpEvent.isRequest : OpEvent → Bool
  | .submitted _ _ | .called _ _ | .soError _ => true
  | _ => false

/-- The entries of the calls of a connect. -/
def History.requests (h : History) : List OpEvent := h.filter OpEvent.isRequest

@[simp] theorem History.requests_nil : requests [] = [] := rfl

@[simp] theorem History.requests_cons (e : OpEvent) {h : History} :
    requests (e :: h) = if e.isRequest then e :: requests h else requests h :=
  List.filter_cons

@[simp] theorem History.requests_append {h h' : History} :
    requests (h ++ h') = requests h ++ requests h' :=
  List.filter_append _ _

/-- What settles a connect are its calls. -/
theorem findings_requests (id : SocketId) (h : History) :
    findings (.connect id) (requests h) = findings (.connect id) h := by
  induction h with
  | nil => rfl
  | cons e h ih =>
    rw [findings_cons, ← ih]
    cases e <;> simp [OpEvent.isRequest]

/-- The entries record this attempt. -/
inductive Attempt.RecordedAs (a : Attempt) : List OpEvent → Prop where
  | submitted {env : Env} {n : Option ℕ} (hfcntl : env.fcntl = a.fcntl)
      (hconnect : env.connect = a.connect) (hnew : env.eventNew = a.eventNew) :
      a.RecordedAs [.submitted env n]
  -- `getsockopt` is called for an attempt that is in progress
  | failed {env : Env} {n : Option ℕ} {k : ℕ} {e : ℤ} (hfcntl : env.fcntl = a.fcntl)
      (hconnect : env.connect = a.connect) (hnew : env.eventNew = a.eventNew)
      (hprogress : a.InProgress) (hget : a.getsockopt = .fail e) :
      a.RecordedAs [.submitted env n, .called k (.fail e)]
  | asked {env : Env} {n : Option ℕ} {k rc : ℕ} (hfcntl : env.fcntl = a.fcntl)
      (hconnect : env.connect = a.connect) (hnew : env.eventNew = a.eventNew)
      (hprogress : a.InProgress) (hget : a.getsockopt = .ok rc) :
      a.RecordedAs [.submitted env n, .called k (.ok rc), .soError a.soError]

section Recorded

variable {a : Attempt} {id : SocketId} {es : List OpEvent} {env : Env}

theorem submitEnd_of_inProgress (id : SocketId) (hfcntl : env.fcntl = a.fcntl)
    (hconnect : env.connect = a.connect) (hnew : env.eventNew = a.eventNew) (h : a.InProgress) :
    (Desc.connect id).submitEnd env = none := by
  obtain ⟨⟨rc, hok⟩, ⟨e, hfail, hunder⟩, hnone⟩ := h
  simp only [Desc.submitEnd, hfcntl, hconnect, hnew, hok, hfail, if_pos hunder, hnone,
    Option.map_none]

theorem inProgress_of_submitEnd (hfcntl : env.fcntl = a.fcntl) (hconnect : env.connect = a.connect)
    (hnew : env.eventNew = a.eventNew) (h : (Desc.connect id).submitEnd env = none) :
    a.InProgress := by
  simp only [Desc.submitEnd, hfcntl, hconnect, hnew] at h
  split at h
  next => cases h
  next => cases h
  next rc e hok hfail =>
    split at h
    next hunder => exact ⟨⟨rc, hok⟩, ⟨e, hfail, hunder⟩, Option.map_eq_none_iff.mp h⟩
    next => cases h

/-- What the submission settled is the outcome. -/
theorem signal_of_submitEnd {op : CpoState} (hdesc : op.desc = .connect id)
    (hfcntl : env.fcntl = a.fcntl) (hconnect : env.connect = a.connect)
    (hnew : env.eventNew = a.eventNew) {x : WorkEnd}
    (h : (Desc.connect id).submitEnd env = some x) : x.signal op = a.outcome := by
  have hvalue : op.setValue = .value .unit := by simp only [CpoState.setValue, hdesc]
  simp only [Desc.submitEnd, hfcntl, hconnect, hnew] at h
  split at h
  next e hfail =>
    obtain rfl := Option.some.inj h
    simp only [WorkEnd.signal, Attempt.outcome, hfail]
  next rc rc' hok hconn =>
    obtain rfl := Option.some.inj h
    simp only [WorkEnd.signal, Attempt.outcome, hok, hconn, hvalue]
  next rc e hok hconn =>
    split at h
    next hunder =>
      obtain ⟨e', he', rfl⟩ := Option.map_eq_some_iff.mp h
      simp only [WorkEnd.signal, Attempt.outcome, hok, hconn, if_pos hunder, he']
    next hfailed =>
      obtain rfl := Option.some.inj h
      simp only [WorkEnd.signal, Attempt.outcome, hok, hconn, if_neg hfailed]

/-- **The signal of a recorded attempt**: what settles the connect is reported as the outcome. -/
theorem Attempt.RecordedAs.signal {op : CpoState} {x : WorkEnd} (h : a.RecordedAs es)
    (hdesc : op.desc = .connect id) (hx : findings (.connect id) es = [x]) :
    x.signal op = a.outcome := by
  have hvalue : op.setValue = .value .unit := by simp only [CpoState.setValue, hdesc]
  cases h with
  | submitted hfcntl hconnect hnew =>
    rw [findings_singleton, Desc.decides] at hx
    refine signal_of_submitEnd hdesc hfcntl hconnect hnew ?_
    rwa [Option.toList_eq_singleton_iff] at hx
  | failed hfcntl hconnect hnew hprogress hget =>
    have hnone := submitEnd_of_inProgress id hfcntl hconnect hnew hprogress
    simp only [findings_cons, Desc.decides, hnone, Option.toList_none, Option.toList_some,
      findings_nil, List.nil_append, List.append_nil, List.cons.injEq, and_true] at hx
    rw [← hx, hprogress.outcome_eq, hget]
    rfl
  | asked hfcntl hconnect hnew hprogress hget =>
    have hnone := submitEnd_of_inProgress id hfcntl hconnect hnew hprogress
    rw [hprogress.outcome_eq, hget]
    by_cases hzero : a.soError = 0
    · simp only [findings_cons, Desc.decides, hnone, hzero, if_true, Option.toList_none,
        Option.toList_some, findings_nil, List.nil_append, List.append_nil, List.cons.injEq,
        and_true] at hx
      simp only [← hx, WorkEnd.signal, hvalue, hzero, if_true]
    · simp only [findings_cons, Desc.decides, hnone, if_neg hzero, Option.toList_none,
        Option.toList_some, findings_nil, List.nil_append, List.append_nil, List.cons.injEq,
        and_true] at hx
      simp only [← hx, WorkEnd.signal, if_neg hzero]

theorem Attempt.RecordedAs.mem_submitted (h : a.RecordedAs es) :
    ∃ env n, .submitted env n ∈ es := by
  cases h <;> exact ⟨_, _, List.mem_cons_self⟩

/-- An attempt that settled nothing is in progress, and `getsockopt` was not called. -/
theorem Attempt.RecordedAs.inProgress (h : a.RecordedAs es) (hx : findings (.connect id) es = []) :
    a.InProgress ∧ ∃ env n, es = [.submitted env n] ∧ env.fcntl = a.fcntl ∧
      env.connect = a.connect ∧ env.eventNew = a.eventNew := by
  cases h with
  | submitted hfcntl hconnect hnew =>
    rw [findings_singleton, Desc.decides, Option.toList_eq_nil_iff] at hx
    exact ⟨inProgress_of_submitEnd hfcntl hconnect hnew hx, _, _, rfl, hfcntl, hconnect, hnew⟩
  | failed => simp [findings_cons] at hx
  | asked =>
    by_cases hzero : a.soError = 0 <;> simp [findings_cons, hzero] at hx

end Recorded

/-! ## The calls of a step -/

/-- `getsockopt`, as `_Work` records it: the id of the operation is not live, or the call was made
once, and once it succeeded what it stored was looked at. -/
theorem connectWork_requests {t : Table} {op : CpoState} {env : Env} {wk : Worked} {id : SocketId}
    (hdesc : op.desc = .connect id) (h : op.work t env = some wk) :
    (wk.fault = true ∧ requests wk.op.history = requests op.history) ∨
      ∃ k, (∃ e, env.results = [.fail e] ∧
          requests wk.op.history = requests op.history ++ [.called k (.fail e)]) ∨
        ∃ rc, env.results = [.ok rc] ∧
          requests wk.op.history =
            requests op.history ++ [.called k (.ok rc), .soError env.soError] := by
  simp only [CpoState.work, hdesc, connectWork] at h
  rcases withHandle_cases h with ⟨-, rfl⟩ | ⟨r, -, hbody⟩
  · exact .inl ⟨rfl, by simp [CpoState.log, OpEvent.isRequest]⟩
  · refine .inr ⟨r.number, ?_⟩
    split at hbody
    next e hres =>
      obtain rfl := Option.some.inj hbody
      refine .inl ⟨e, hres, ?_⟩
      simp [worked, CpoState.log, CpoState.logCalls, hres, OpEvent.isRequest]
    next rc hres =>
      refine .inr ⟨rc, hres, ?_⟩
      split at hbody <;> obtain rfl := Option.some.inj hbody <;>
        simp [worked, CpoState.log, CpoState.logCalls, hres, OpEvent.isRequest]
    next => cases hbody

/-- The steps with which an operation goes on: its submission and the report of its result. -/
def AtomicStep.proceeds : AtomicStep → Bool
  | .submit | .reset | .complete | .error _ => true
  | _ => false

namespace LibeventContext

open World

variable {w w' : LibeventWorld} {l : Label} {ls : List Label} {o : OpId} {op op' : CpoState}
  {id : SocketId} {stopped : Bool} {env : Env} {ctx : LibeventContext} {m : AtomicStep}
  {e : Effect LibeventContext}

/-- Only the submission makes calls, and only it creates an event. -/
theorem perform_requests (hm : m ≠ .submit) (he : m.perform stopped env ctx o op = some e) :
    requests e.op.history = requests op.history ∧ (op.extra = none → e.op.extra = none) := by
  cases m with
  | submit => exact absurd rfl hm
  | contextCancel =>
    obtain rfl := Option.some.inj he
    refine ⟨by simp [Effect.logSignal, CpoState.log, ContextBase.cancel, LibeventContext.cancel,
      disarm, OpEvent.isRequest], fun hnone => ?_⟩
    simp [Effect.logSignal, CpoState.log, ContextBase.cancel, LibeventContext.cancel, disarm, hnone]
  | complete | error | cancel | cancelComplete =>
    obtain rfl := Option.some.inj he
    by_cases hzero : op.outstanding - 1 = 0 <;>
      simp [decrement, Effect.logSignal, CpoState.log, hzero, OpEvent.isRequest]
  | emplace =>
    cases stopped <;> obtain rfl := Option.some.inj he <;>
      simp [Effect.logSignal, CpoState.log, OpEvent.isRequest]
  | reset =>
    obtain rfl := Option.some.inj he
    cases hcb : op.callback <;>
      simp [Effect.logSignal, CpoState.log, CpoState.reset, hcb, OpEvent.isRequest]
  | increment | testStop | enter | leave =>
    obtain rfl := Option.some.inj he
    simp [Effect.logSignal, CpoState.log, OpEvent.isRequest]

/-- The submission of an operation records its calls, unless the id of the operation is not live. -/
theorem submit_requests (he : AtomicStep.perform .submit stopped env ctx o op = some e) :
    (∃ n, requests e.op.history = requests op.history ++ [.submitted env n]) ∨
      (requests e.op.history = requests op.history ∧ e.op.extra = op.extra) := by
  obtain ⟨r, hspec, rfl⟩ := perform_submit_cases he
  cases hspec with
  | refused hnone =>
    exact .inr ⟨by simp [Effect.logSignal, CpoState.log, OpEvent.isRequest], rfl⟩
  | armed n ev hon hend harmed =>
    exact .inl ⟨n, by simp [Effect.logSignal, CpoState.log, OpEvent.isRequest]⟩
  | ended n w hon hend hdelivers =>
    exact .inl ⟨n, by simp [Effect.logSignal, CpoState.log, OpEvent.isRequest]⟩

/-- What `getsockopt` returned completes an attempt that is in progress. -/
theorem recordedAs_worked {a : Attempt} {t : Table} {wk : Worked}
    (hrec : a.RecordedAs (requests op.history))
    (hfind : findings (.connect id) (requests op.history) = []) (hdesc : op.desc = .connect id)
    (hwk : ((disarm op).log .dispatched).work t env = some wk) :
    ∃ a : Attempt, a.RecordedAs (requests wk.op.history) := by
  obtain ⟨⟨hok, hunder, hnew⟩, env', n, hreq, hf, hco, hn⟩ := hrec.inProgress hfind
  have hdesc' : ((disarm op).log .dispatched).desc = .connect id := hdesc
  have hbefore : requests ((disarm op).log .dispatched).history = [.submitted env' n] := by
    simp only [CpoState.log, disarm, requests_append, hreq]
    rfl
  rcases connectWork_requests hdesc' hwk with
    ⟨-, hreq'⟩ | ⟨k, ⟨e, -, hreq'⟩ | ⟨rc, -, hreq'⟩⟩ <;>
    rw [hbefore] at hreq'
  · exact ⟨a, by rw [hreq']; exact .submitted hf hco hn⟩
  · refine ⟨{ a with getsockopt := .fail e }, ?_⟩
    rw [hreq']
    exact .failed hf hco hn ⟨hok, hunder, hnew⟩ rfl
  · refine ⟨{ a with getsockopt := .ok rc, soError := env.soError }, ?_⟩
    rw [hreq']
    exact .asked hf hco hn ⟨hok, hunder, hnew⟩ rfl

/-- A connect has made no call, or those of one attempt. -/
def Attempted (op : CpoState) : Prop :=
  (requests op.history = [] ∧ op.extra = none) ∨ ∃ a : Attempt, a.RecordedAs (requests op.history)

/-- **Attempts**: what a connect calls, step by step, are the calls of one attempt. -/
theorem Attempted.step (ha : Attempted op) (h : RunInv w) (hop : w.ops[o]? = some op)
    (hdesc : op.desc = .connect id) (hstep : w.step l = some w') (hop' : w'.ops[o]? = some op') :
    Attempted op' := by
  obtain ⟨hc, -⟩ := step_cases hstep
  have hphase := h.phase_of hc hop
  cases step_op hstep hop hop' with
  | same | callback => exact ha
  | @perform env m rest e htodo he =>
    by_cases hm : m = .submit
    · subst hm
      rw [htodo, frames_op_self] at hphase
      -- the first submission
      have hearly := hphase.early_of_submit
      have hnone : requests op.history = [] := by
        rcases ha with ⟨hnil, -⟩ | ⟨a, hrec⟩
        · exact hnil
        · obtain ⟨env', n, hmem⟩ := hrec.mem_submitted
          exact absurd (List.mem_filter.mp hmem).1 (hearly.unsubmitted env' n)
      rcases submit_requests he with ⟨n, hreq⟩ | ⟨hreq, hextra⟩
      · refine .inr ⟨⟨env.fcntl, env.connect, env.eventNew, .ok 0, 0⟩, ?_⟩
        rw [hreq, hnone]
        exact .submitted rfl rfl rfl
      · exact .inl ⟨hreq.trans hnone, hextra.trans hearly.extra⟩
    · obtain ⟨hreq, hextra⟩ := perform_requests hm he
      rcases ha with ⟨hnil, hnone⟩ | ⟨a, hrec⟩
      · exact .inl ⟨hreq.trans hnil, hextra hnone⟩
      · exact .inr ⟨a, by rw [hreq]; exact hrec⟩
  | @ready env e htodo hreg he =>
    have harmed : op.isArmed = true := hreg
    rw [htodo, World.frames_nil] at hphase
    cases hphase with
    | done hdone => simp [hdone.disarmed] at harmed
    | pending hpending =>
      obtain ⟨a, hrec⟩ : ∃ a : Attempt, a.RecordedAs (requests op.history) := by
        rcases ha with ⟨-, hnone⟩ | hrec
        -- without an event there is nothing to deliver
        · simp [CpoState.isArmed, hnone] at harmed
        · exact hrec
      have hfind := hpending.findings
      rw [hdesc, ← findings_requests] at hfind
      simp only [ContextBase.ready, callback, Option.map_eq_some_iff] at he
      obtain ⟨wk, hwk, rfl⟩ := he
      exact .inr (recordedAs_worked hrec hfind hdesc hwk)

/-! ## Operations that go on -/

/-- An operation that has not signalled and is about to be submitted or to report a result: no stop
has been requested. -/
def Unstopped (w : LibeventWorld) (o : OpId) (op : CpoState) : Prop :=
  signals op.history = [] → (∃ m ∈ frames o w.todo, m.proceeds = true) →
    w.stopped op.token = false

/-- Only the test of the token and the submission lead to a step with which an operation goes on. -/
theorem perform_next {m' : AtomicStep} (he : m.perform stopped env ctx o op = some e)
    (hm' : m' ∈ e.next) (hproceeds : m'.proceeds = true) : m = .submit ∨ m = .testStop := by
  cases m with
  | submit => exact .inl rfl
  | testStop => exact .inr rfl
  | emplace =>
    cases stopped <;> obtain rfl := Option.some.inj he
    · cases hm'
    · simp only [Effect.logSignal, callbackCall, List.mem_cons, List.not_mem_nil, or_false] at hm'
      rcases hm' with rfl | rfl <;> cases hproceeds
  | enter =>
    obtain rfl := Option.some.inj he
    simp only [Effect.logSignal] at hm'
    split at hm'
    · rw [List.mem_singleton.mp hm'] at hproceeds
      cases hproceeds
    · cases hm'
  | contextCancel =>
    obtain rfl := Option.some.inj he
    simp only [Effect.logSignal, ContextBase.cancel, LibeventContext.cancel, List.mem_cons,
      List.not_mem_nil, or_false] at hm'
    rcases hm' with rfl | rfl <;> cases hproceeds
  | complete | error | cancel | cancelComplete =>
    obtain rfl := Option.some.inj he
    simp only [decrement, Effect.logSignal] at hm'
    split at hm' <;> cases hm'
  | increment | reset | leave =>
    obtain rfl := Option.some.inj he
    cases hm'

theorem Phase.unstopped_of_testStop {t : Table} {rest : List AtomicStep}
    (h : Phase t stopped op (.testStop :: rest)) (hs : signals op.history = []) :
    stopped = false := by
  generalize hfs : AtomicStep.testStop :: rest = fs at h
  cases h with
  | testing h hstop => exact hstop
  | @reporting w tail h hcb => cases w <;> cases hfs
  | done h => simp [h.signals] at hs
  | _ => cases hfs

theorem Unstopped.step (hu : Unstopped w o op) (h : RunInv w) (hop : w.ops[o]? = some op)
    (hstep : w.step l = some w') (hop' : w'.ops[o]? = some op') : Unstopped w' o op' := by
  obtain ⟨hc, -⟩ := step_cases hstep
  rintro hs ⟨m, hm, hproceeds⟩
  cases step_op hstep hop hop' with
  | same hl hframes =>
    rw [hframes] at hm
    rcases step_stopped_eq hstep with heq | hmay
    · rw [heq]
      exact hu hs ⟨m, hm, hproceeds⟩
    -- no code that could request a stop runs before the steps of the operation
    · rw [h.frames_nil hop (ne_op_of_userMay hmay o) hs] at hm
      cases hm
  | callback htodo hcb hframes =>
    rw [hframes, h.frames_nil hop (ne_op_of_cons htodo fun _ => nofun) hs, List.append_nil] at hm
    simp only [callbackCall, List.mem_cons, List.not_mem_nil, or_false] at hm
    rcases hm with rfl | rfl <;> cases hproceeds
  | @perform env m₀ rest e htodo he =>
    have hkept := perform_kept he
    obtain ⟨added, hhist, -⟩ := hkept.history
    rw [hhist, signals_append, List.append_eq_nil_iff] at hs
    rw [apply_stopped, hkept.token]
    have hphase := h.phase_of hc hop
    rw [htodo, frames_op_self] at hphase
    cases hf : e.fault with
    | true =>
      rw [apply_of_fault hf] at hm
      exact hu hs.1 ⟨m, hm, hproceeds⟩
    | false =>
      rw [frames_apply_self hf, List.mem_append] at hm
      have hself : m₀ ∈ frames o w.todo := by
        rw [htodo, frames_op_self]
        exact List.mem_cons_self
      rcases hm with hm | hm
      · rcases perform_next he hm hproceeds with rfl | rfl
        · exact hu hs.1 ⟨_, hself, rfl⟩
        · exact hphase.unstopped_of_testStop hs.1
      · refine hu hs.1 ⟨m, ?_, hproceeds⟩
        rw [htodo, frames_op_self]
        exact List.mem_cons_of_mem _ hm
  | @ready env e htodo hreg he =>
    rw [apply_stopped, (callback_silent he).token]
    by_contra hstop
    -- nothing is delivered after a stop
    rw [h.not_registered hc htodo hop (by simpa using hstop)] at hreg
    cases hreg

/-- An operation whose result is known is about to report it. -/
theorem Phase.proceeds_of_finding {t : Table} {fs : List AtomicStep} {x : WorkEnd}
    (h : Phase t stopped op fs) (hs : signals op.history = [])
    (hx : findings op.desc op.history = [x]) : ∃ m ∈ fs, m.proceeds = true := by
  cases h with
  | ending h => exact ⟨.reset, List.mem_cons_self, rfl⟩
  | @reporting w tail h => exact ⟨w.report, List.mem_cons_self, by cases w <;> rfl⟩
  | done h => simp [h.signals] at hs
  | starting h | emplacing h | testing h | submitting h | pending h | entering h | cancelling h
    | cancelled h | stopping h => simp [h.findings] at hx

/-- **The signal of an operation**: a stop that was requested before, or else its result. -/
theorem RunInv.signal_cases (h : RunInv w) (hu : Unstopped w o op) (hop : w.ops[o]? = some op)
    (hstep : w.step l = some w') (hop' : w'.ops[o]? = some op') (hs : signals op.history = [])
    {s : Signal} (hs' : s ∈ signals op'.history) :
    (w.stopped op.token = true ∧ s = .stopped) ∨
      (w.stopped op.token = false ∧ ∃ x, findings op.desc op.history = [x] ∧ s = x.signal op) := by
  obtain ⟨hc, -⟩ := step_cases hstep
  rcases (h.signal_step hstep hop hop' hs hs').1 with rfl | ⟨x, hx, -, rfl⟩
  · refine .inl ⟨?_, rfl⟩
    -- the operation was stopped after the step, and the step requests no stop
    have hstop : w'.stopped op'.token = true := by
      rcases (h.step hstep).phase o op' hop' with hphase | ⟨-, hdropped⟩
      · rcases hphase.signals_or_done with hnil | ⟨y, hdone, -⟩
        · rw [hnil] at hs'
          cases hs'
        · rw [hdone.signals, List.mem_singleton] at hs'
          subst hs'
          rcases hdone.cause with ⟨-, -, hstop⟩ | ⟨x, -, hreports⟩
          · exact hstop
          · exact absurd hreports not_reports_stopped
      · rw [hdropped.signals] at hs'
        cases hs'
    cases step_op hstep hop hop' with
    | same | callback => simp [hs] at hs'
    | perform htodo he => rwa [apply_stopped, (perform_kept he).token] at hstop
    | ready htodo hreg he => rwa [apply_stopped, (callback_silent he).token] at hstop
  · exact .inr ⟨hu hs ((h.phase_of hc hop).proceeds_of_finding hs hx), x, hx, rfl⟩

/-! ## Runs -/

/-- A property of operations that is kept by every step and holds of an operation that was just
started holds of all operations in the states that a program reaches. -/
theorem Reachable.op_invariant {P : LibeventWorld → OpId → CpoState → Prop}
    (hnew : ∀ {w : LibeventWorld} (d : Desc) (token : Source), RunInv w →
      P (w.start d token) w.ops.length { desc := d, token := token })
    (hstep : ∀ {w w' : LibeventWorld} {l : Label} {o : OpId} {op op' : CpoState}, P w o op →
      RunInv w → w.ops[o]? = some op → w.step l = some w' → w'.ops[o]? = some op' → P w' o op')
    (h : Reachable w) (hop : w.ops[o]? = some op) : P w o op := by
  obtain ⟨ls, hrun⟩ := h
  refine (StepMachine.run_invariant World.step (I := fun w => RunInv w ∧
    ∀ (o : OpId) (op : CpoState), w.ops[o]? = some op → P w o op) ?_
    ⟨runInv_initial, fun o op h => by simp [initial] at h⟩ hrun).2 o op hop
  rintro w₁ l w₂ ⟨hinv, hall⟩ hstep₁
  refine ⟨hinv.step hstep₁, fun o₂ op₂ hop₂ => ?_⟩
  cases hold : w₁.ops[o₂]? with
  | some op₁ => exact hstep (hall o₂ op₁ hold) hinv hold hstep₁ hop₂
  | none =>
    obtain ⟨d, token, rfl, rfl, rfl, rfl⟩ := step_new_op hstep₁ hold hop₂
    exact hnew d token hinv

theorem Reachable.unstopped (h : Reachable w) (hop : w.ops[o]? = some op) : Unstopped w o op := by
  refine h.op_invariant (P := Unstopped) (fun d token hinv => ?_) (fun hu => hu.step) hop
  rintro - ⟨m, hm, hproceeds⟩
  -- `_Start` begins with steps that do not depend on the token
  rw [World.start, frames_append, hinv.frames_length, frames_map_self, List.append_nil] at hm
  simp only [startCall, List.mem_cons, List.not_mem_nil, or_false] at hm
  rcases hm with rfl | rfl | rfl <;> cases hproceeds

theorem Reachable.attempted (h : Reachable w) (hop : w.ops[o]? = some op)
    (hdesc : op.desc = .connect id) : Attempted op := by
  refine h.op_invariant (P := fun _ _ op => ∀ id, op.desc = .connect id → Attempted op)
    (fun d token _ id _ => .inl ⟨rfl, rfl⟩) ?_ hop id hdesc
  intro w w' l o op op' ha hinv hop hstep hop' id hdesc'
  obtain ⟨x, hx, hd, -⟩ := step_grows hstep hop
  cases hx.symm.trans hop'
  exact (ha id (hd ▸ hdesc')).step hinv hop (hd ▸ hdesc') hstep hop'

/-! ## Operations whose stop was requested -/

/-- A stop was requested, and the operation is not going to be submitted any more; its calls are
`es`, and it was not signalled anything but the stop. -/
structure Halted (es : List OpEvent) (w : LibeventWorld) (o : OpId) (op : CpoState) : Prop where
  stopped : w.stopped op.token = true
  unsubmitted : .submit ∉ frames o w.todo
  made : requests op.history = es
  said : signals op.history = [] ∨ signals op.history = [.stopped]

/-- No step leads to the submission after a stop. -/
theorem submit_not_mem_next (he : m.perform true env ctx o op = some e) (hm : m ≠ .submit) :
    .submit ∉ e.next := by
  intro hmem
  rcases perform_next he hmem rfl with rfl | rfl
  · exact hm rfl
  · obtain rfl := Option.some.inj he
    simp [Effect.logSignal] at hmem

theorem Halted.step {es : List OpEvent} (hh : Halted es w o op) (h : RunInv w)
    (hu : Unstopped w o op) (hop : w.ops[o]? = some op) (hstep : w.step l = some w')
    (hop' : w'.ops[o]? = some op') : Halted es w' o op' := by
  obtain ⟨hc, -⟩ := step_cases hstep
  have hsignals : signals op'.history = [] ∨ signals op'.history = [.stopped] := by
    rcases hh.said with hs | hs
    · rcases (h.step hstep).signals_cases hop' with hnil | ⟨s, hone⟩
      · exact .inl hnil
      · rcases h.signal_cases hu hop hstep hop' hs (s := s) (by simp [hone]) with
          ⟨-, rfl⟩ | ⟨hno, -⟩
        · exact .inr hone
        · rw [hh.stopped] at hno
          cases hno
    · obtain ⟨x, hx, hone⟩ := h.step_signals hstep hop hs
      cases hx.symm.trans hop'
      exact .inr hone
  cases step_op hstep hop hop' with
  | same hl hframes =>
    exact ⟨step_stopped hstep hh.stopped, by rw [hframes]; exact hh.unsubmitted, hh.made,
      hsignals⟩
  | callback htodo hcb hframes =>
    refine ⟨step_stopped hstep hh.stopped, ?_, hh.made, hsignals⟩
    rw [hframes, List.mem_append]
    rintro (hm | hm)
    · simp [callbackCall] at hm
    · exact hh.unsubmitted hm
  | @perform env m rest e htodo he =>
    have hunsubmitted := hh.unsubmitted
    rw [htodo, frames_op_self, List.mem_cons, not_or] at hunsubmitted
    have hm : m ≠ .submit := fun heq => hunsubmitted.1 heq.symm
    rw [hh.stopped] at he
    refine ⟨by rw [apply_stopped, (perform_kept he).token]; exact hh.stopped, ?_,
      (perform_requests hm he).1.trans hh.made, hsignals⟩
    cases hf : e.fault with
    | true =>
      rw [apply_of_fault hf]
      exact hh.unsubmitted
    | false =>
      rw [frames_apply_self hf, List.mem_append]
      rintro (hmem | hmem)
      · exact submit_not_mem_next he hm hmem
      · exact hunsubmitted.2 hmem
  | ready htodo hreg he =>
    rw [h.not_registered hc htodo hop hh.stopped] at hreg
    cases hreg

theorem Halted.run {es : List OpEvent} (hh : Halted es w o op) (h : Reachable w)
    (hop : w.ops[o]? = some op) (hrun : World.run w ls = some w') :
    ∃ op', w'.ops[o]? = some op' ∧ op'.token = op.token ∧ Halted es w' o op' := by
  suffices hkept : ∃ op', w'.ops[o]? = some op' ∧
      Unstopped w' o op' ∧ op'.token = op.token ∧ Halted es w' o op' by
    obtain ⟨op', hop', -, htoken, hh'⟩ := hkept
    exact ⟨op', hop', htoken, hh'⟩
  refine h.inv.run_op
    (P := fun w' op' => Unstopped w' o op' ∧ op'.token = op.token ∧ Halted es w' o op') hrun ?_ hop
    ⟨h.unstopped hop, rfl, hh⟩
  rintro w₁ w₂ l op₁ ⟨hu, htoken, hh₁⟩ hinv hop₁ hstep
  obtain ⟨op₂, hop₂, -, htoken₂, -⟩ := step_grows hstep hop₁
  exact ⟨op₂, hop₂, hu.step hinv hop₁ hstep hop₂, htoken₂.trans htoken,
    hh₁.step hinv hu hop₁ hstep hop₂⟩

/-- After a stop that comes before the signal the operation makes no call any more and is signalled
nothing but the stop; and it has been, as soon as code of the program or of a receiver runs and no
`request_stop` is calling the callbacks of its source. -/
theorem Reachable.halted (h : Reachable w) (hop : w.ops[o]? = some op)
    (hstop : w.stopped op.token = true) (hs : signals op.history = [])
    (hrun : World.run w ls = some w') :
    ∃ op', w'.ops[o]? = some op' ∧ requests op'.history = requests op.history ∧
      (signals op'.history = [] ∨ signals op'.history = [.stopped]) ∧
      (w'.crashed = false → w'.userMay = true → .stopLoop op.token ∉ w'.todo →
        signals op'.history = [.stopped]) := by
  have hunsubmitted : .submit ∉ frames o w.todo := by
    intro hmem
    have := h.unstopped hop hs ⟨_, hmem, rfl⟩
    rw [hstop] at this
    cases this
  obtain ⟨op', hop', htoken, hh⟩ :=
    Halted.run ⟨hstop, hunsubmitted, rfl, .inl hs⟩ h hop hrun
  refine ⟨op', hop', hh.made, hh.said, fun hc hmay hloop => ?_⟩
  rcases hh.said with hnil | hone
  · -- its callback would be registered with no loop left to call it
    obtain ⟨hpending, -⟩ := (h.run hrun).inv.pending_of_userMay hc hmay hop' hnil
    have hmem := (h.run hrun).inv.waiting o op' hop' hpending.callback hh.stopped
    rw [htoken] at hmem
    exact absurd hmem hloop
  · exact hone

/-! ## Progress -/

/-- Bounds the number of steps that a step leads to, itself included. -/
def rank : AtomicStep → ℕ
  | .increment | .reset | .complete | .error _ | .cancel | .cancelComplete | .leave => 1
  | .contextCancel => 3
  | .enter => 4
  | .emplace | .testStop => 6
  | .submit => 5

/-- The rank of the steps that are left to be run on an operation. -/
def rankOf (ms : List AtomicStep) : ℕ := (ms.map rank).sum

theorem rankOf_eq_zero {ms : List AtomicStep} (h : rankOf ms = 0) : ms = [] := by
  cases ms with
  | nil => rfl
  | cons m ms =>
    have hpos : 0 < rank m := by cases m <;> exact Nat.succ_pos _
    simp only [rankOf, List.map_cons, List.sum_cons] at h
    omega

/-- Every step can be run. -/
theorem exists_perform (m : AtomicStep) (stopped : Bool) (env : Env) (ctx : LibeventContext)
    (o : OpId) (op : CpoState) :
    ∃ e : Effect LibeventContext, m.perform stopped env ctx o op = some e := by
  cases m with
  | emplace => cases stopped <;> exact ⟨_, rfl⟩
  | _ => exact ⟨_, rfl⟩

/-- The rank drops. -/
theorem rankOf_next (he : m.perform stopped env ctx o op = some e) : rankOf e.next < rank m := by
  cases m with
  | submit =>
    obtain ⟨r, hspec, rfl⟩ := perform_submit_cases he
    -- at most the report of a result and the `_Complete` of `_Start`
    cases hspec with
    | refused | armed =>
      simp [Effect.logSignal, completeCall, rankOf, rank]
    | ended n w =>
      cases w <;> simp [Effect.logSignal, completeCall, WorkEnd.report, rankOf, rank]
  | emplace | testStop =>
    cases stopped <;> obtain rfl := Option.some.inj he <;>
      simp [Effect.logSignal, callbackCall, rankOf, rank]
  | enter =>
    obtain rfl := Option.some.inj he
    simp only [Effect.logSignal]
    split <;> simp [rankOf, rank]
  | complete | error | cancel | cancelComplete =>
    obtain rfl := Option.some.inj he
    simp only [decrement, Effect.logSignal]
    split <;> simp [rankOf, rank]
  | contextCancel | increment | reset | leave =>
    obtain rfl := Option.some.inj he
    simp [Effect.logSignal, ContextBase.cancel, LibeventContext.cancel, rankOf, rank]

/-- Nothing is thrown as long as the id of the operation is live. -/
theorem fault_of_live (he : m.perform stopped env ctx o op = some e)
    (hlive : ctx.sockets.record op.desc.id ≠ none) : e.fault = false := by
  by_contra hf
  obtain ⟨rfl, -⟩ := refused_of_fault he (by simpa using hf)
  obtain ⟨r, hspec, rfl⟩ := perform_submit_cases he
  cases hspec with
  | refused hnone => exact hlive hnone
  | armed | ended =>
    exact hf rfl

/-- The program is running and `op` is what became of the operation, whose id is live. -/
structure Running (ctx : LibeventContext) (before : CpoState) (o : OpId) (w : LibeventWorld) :
    Prop where
  inv : RunInv w
  alive : w.crashed = false
  kept : w.ctx = ctx
  live : ctx.sockets.record before.desc.id ≠ none
  grown : ∃ op, w.ops[o]? = some op ∧ op.desc = before.desc ∧ before.history <+: op.history

/-- The receiver was signalled, or no function is executing on the operation. -/
def AtRest (o : OpId) (w : LibeventWorld) : Prop :=
  ∀ op, w.ops[o]? = some op → signals op.history ≠ [] ∨ frames o w.todo = []

/-- The next step of an operation. -/
theorem Running.perform {before : CpoState} (h : Running ctx before o w) (hrest : ¬ AtRest o w)
    (env : Env) : ∃ w', w.step (.perform env) = some w' ∧ Running ctx before o w' ∧
      rankOf (frames o w'.todo) < rankOf (frames o w.todo) := by
  simp only [AtRest, not_forall, not_or, not_not] at hrest
  obtain ⟨op, hop, hs, hframes⟩ := hrest
  obtain ⟨m, ms, hms⟩ := List.exists_cons_of_ne_nil hframes
  -- the steps of the operation are the innermost ones
  obtain ⟨r, htodo⟩ := h.inv.top o op hop hs
  rw [hms, List.map_cons, List.cons_append] at htodo
  obtain ⟨x, hx, hdesc, hpre⟩ := h.grown
  cases hx.symm.trans hop
  obtain ⟨e, he⟩ := exists_perform m (w.stopped op.token) env w.ctx o op
  have hf : e.fault = false := fault_of_live he (by rw [h.kept, hdesc]; exact h.live)
  have hstep : w.step (.perform env) = some (w.apply o (ms.map (.op o) ++ r) e) := by
    simp only [World.step, h.alive, Bool.false_eq_true, if_false, htodo, hop, he, Option.map_some]
  have hphase := h.inv.phase_of h.alive hop
  rw [hms] at hphase
  obtain ⟨op', hop', hdesc', -, hpre'⟩ := step_grows hstep hop
  refine ⟨_, hstep, ⟨h.inv.step hstep, (apply_crashed hf).trans h.alive, ?_, h.live, op', hop',
    hdesc'.trans hdesc, hpre.trans hpre'⟩, ?_⟩
  · rw [apply_ctx hf, (hphase.perform he hf).1, h.kept]
  · have hrest : frames o (ms.map (.op o) ++ r) = ms := by
      have hsplit : frames o w.todo = m :: frames o (ms.map (.op o) ++ r) := by
        rw [htodo, frames_op_self]
      rw [hms] at hsplit
      exact (List.cons.inj hsplit).2.symm
    have hnext := rankOf_next he
    rw [frames_apply_self hf, hrest, hms]
    simp only [rankOf, List.map_append, List.sum_append, List.map_cons, List.sum_cons] at hnext ⊢
    omega

/-- **Progress**: whatever the calls of the steps return, an operation with a live id comes to rest,
after a number of steps that is known before. -/
theorem Running.rests {before : CpoState} (h : Running ctx before o w)
    (hls : ∀ l ∈ ls, ∃ env, l = .perform env) (hlength : rankOf (frames o w.todo) ≤ ls.length) :
    ∃ ls' w', ls' <+: ls ∧ World.run w ls' = some w' ∧ Running ctx before o w' ∧ AtRest o w' := by
  refine StepMachine.run_reaches World.step (r := fun w => rankOf (frames o w.todo)) ?_ ?_ h hls
    hlength
  · exact fun w h hzero op hop => .inr (rankOf_eq_zero hzero)
  · rintro w - h hrest ⟨env, rfl⟩
    exact h.perform hrest env

/-- A connect that has not signalled and on which no function is executing waits for its event: its
attempt is in progress. -/
theorem Reachable.waits (h : Reachable w) (hc : w.crashed = false) (hop : w.ops[o]? = some op)
    (hdesc : op.desc = .connect id) (hs : signals op.history = [])
    (hframes : frames o w.todo = []) :
    op.isArmed = true ∧ ∃ a : Attempt, a.RecordedAs (requests op.history) ∧ a.InProgress := by
  have hphase := h.inv.phase_of hc hop
  rw [hframes] at hphase
  cases hphase with
  | done hdone => simp [hdone.signals] at hs
  | pending hpending =>
    have hfind := hpending.findings
    rw [hdesc, ← findings_requests] at hfind
    -- `_Work` has not been run, so that no call reported EWOULDBLOCK
    have harmed : calls op.history = [] → op.isArmed = true := by
      intro hcalls
      rw [hpending.armed, hcalls]
      exact List.not_mem_nil
    have hcalls : (∀ n r, .called n r ∉ requests op.history) → calls op.history = [] := by
      intro hnone
      rw [List.eq_nil_iff_forall_not_mem]
      intro r hr
      obtain ⟨n, hn⟩ := mem_calls.mp hr
      exact hnone n r (List.mem_filter.mpr ⟨hn, rfl⟩)
    rcases h.attempted hop hdesc with ⟨hnil, hextra⟩ | ⟨a, hrec⟩
    · have := harmed (hcalls (by simp [hnil]))
      simp [CpoState.isArmed, hextra] at this
    · obtain ⟨hprogress, env, n, hreq, -⟩ := hrec.inProgress hfind
      exact ⟨harmed (hcalls (by simp [hreq])), a, hrec, hprogress⟩

/-- What `_Libevent_callback` does for a connect whose id is live. -/
theorem callback_connect {r : SysResult} (hdesc : op.desc = .connect id)
    (hlive : ctx.sockets.record id ≠ none) (hres : env.results = [r]) :
    ∃ e, callback ctx op env = some e ∧ e.fault = false ∧ e.ctx = ctx ∧
      findings op.desc e.op.history ≠ [] := by
  obtain ⟨rec, hrec⟩ := Option.ne_none_iff_exists'.mp hlive
  have hwork : ((disarm op).log .dispatched).desc = .connect id := hdesc
  have hget : ctx.sockets.container.get (Desc.connect id).id = .ok rec :=
    Container.get_eq_ok.mpr hrec
  simp only [callback, CpoState.work, hwork, connectWork, Stdnet.withHandle, hget, hres]
  cases r with
  | fail e =>
    refine ⟨_, rfl, rfl, rfl, ?_⟩
    simp [worked, CpoState.log, CpoState.logCalls, hdesc]
  | ok rc =>
    by_cases hzero : env.soError = 0
    · simp only [hzero, if_true]
      refine ⟨_, rfl, rfl, rfl, ?_⟩
      simp [worked, CpoState.log, CpoState.logCalls, hdesc]
    · simp only [if_neg hzero]
      refine ⟨_, rfl, rfl, rfl, ?_⟩
      simp [worked, CpoState.log, CpoState.logCalls, hdesc, hzero]

/-- **Readiness**: when the event loop delivers a readiness indication to a connect that waits for
it, the receiver is signalled, whatever `getsockopt` returns. -/
theorem Reachable.readied (h : Reachable w) (hc : w.crashed = false) (hop : w.ops[o]? = some op)
    (hdesc : op.desc = .connect id) (hs : signals op.history = []) (htodo : w.todo = [])
    (hlive : w.ctx.sockets.record id ≠ none) {r : SysResult} (hres : env.results = [r]) :
    ∃ w₁ n, w.step (.ready o env) = some w₁ ∧
      ∀ ls : List Label, (∀ l ∈ ls, ∃ env, l = .perform env) → n ≤ ls.length →
        ∃ ls' w₂ op₂ s, ls' <+: ls ∧ World.run w₁ ls' = some w₂ ∧ w₂.ops[o]? = some op₂ ∧
          signals op₂.history = [s] := by
  obtain ⟨harmed, -⟩ := h.waits hc hop hdesc hs (by rw [htodo]; rfl)
  obtain ⟨e, he, hf, hctx, hfind⟩ := callback_connect hdesc hlive hres
  have hstep : w.step (.ready o env) = some (w.apply o [] e) := step_ready hc htodo hop harmed he
  obtain ⟨op₁, hop₁, hdesc₁, -⟩ := step_grows hstep hop
  have hop₁' : (w.apply o [] e).ops[o]? = some e.op := by
    rw [apply_ops]
    exact ListEntries.getElem?_set_of_some hop
  cases hop₁.symm.trans hop₁'
  have hrunning : Running (w.apply o [] e).ctx e.op o (w.apply o [] e) := by
    refine ⟨h.inv.step hstep, (apply_crashed hf).trans hc, rfl, ?_, e.op, hop₁, rfl,
      List.prefix_refl _⟩
    rw [apply_ctx hf, hctx, hdesc₁, hdesc]
    exact hlive
  refine ⟨_, rankOf (frames o (w.apply o [] e).todo), hstep, fun ls hls hlength => ?_⟩
  obtain ⟨ls', w₂, hpre, hrun, hrunning₂, hrest⟩ := hrunning.rests hls hlength
  obtain ⟨op₂, hop₂, hdesc₂, added, hadded⟩ := hrunning₂.grown
  refine ⟨ls', w₂, op₂, ?_⟩
  rcases hrunning₂.inv.signals_cases hop₂ with hnil | ⟨s, hone⟩
  · -- an operation at rest that was not signalled was not settled, but this one was
    have hframes := (hrest op₂ hop₂).resolve_left fun hne => hne hnil
    have hphase := hrunning₂.inv.phase_of hrunning₂.alive hop₂
    rw [hframes] at hphase
    cases hphase with
    | done hdone => simp [hdone.signals] at hnil
    | pending hpending =>
      have hnone := hpending.findings
      rw [hdesc₂, hdesc₁, ← hadded, findings_append, List.append_eq_nil_iff] at hnone
      exact absurd hnone.1 hfind
  · exact ⟨s, hpre, hrun, hop₂, hone⟩

/-! ## The outcome -/

/-- The step that signals the receiver of a connect sends the stop if one was requested before, and
else the outcome of the attempt that was made. -/
def SignalsOutcome (w : LibeventWorld) (o : OpId) (op : CpoState) : Prop :=
  ∀ (l : Label) (w' : LibeventWorld) (op' : CpoState) (s : Signal), w.step l = some w' →
    w'.ops[o]? = some op' → signals op.history = [] → signals op'.history = [s] →
      (w.stopped op.token = true → s = .stopped) ∧
      (w.stopped op.token = false →
        (∃ a : Attempt, a.RecordedAs (requests op.history)) ∧
          ∀ a : Attempt, a.RecordedAs (requests op.history) →
            s = a.outcome ∧ (s = .value .unit ↔ a.Succeeds))

theorem Reachable.signalsOutcome (h : Reachable w) (hop : w.ops[o]? = some op)
    (hdesc : op.desc = .connect id) : SignalsOutcome w o op := by
  intro l w' op' s hstep hop' hs hs'
  have hmem : s ∈ signals op'.history := by simp [hs']
  rcases h.inv.signal_cases (h.unstopped hop) hop hstep hop' hs hmem with
    ⟨hstop, rfl⟩ | ⟨hno, x, hx, rfl⟩
  · exact ⟨fun _ => rfl, fun hno => absurd (hstop.symm.trans hno) nofun⟩
  · refine ⟨fun hstop => absurd (hstop.symm.trans hno) nofun, fun _ => ?_⟩
    rw [hdesc, ← findings_requests] at hx
    have houtcome : ∀ a : Attempt, a.RecordedAs (requests op.history) → x.signal op = a.outcome :=
      fun a ha => ha.signal hdesc hx
    refine ⟨?_, fun a ha => ⟨houtcome a ha, ?_⟩⟩
    · rcases h.attempted hop hdesc with ⟨hnil, -⟩ | hrec
      -- without a call there would be no result
      · rw [hnil] at hx
        cases hx
      · exact hrec
    · rw [houtcome a ha]
      exact Attempt.outcome_eq_value_iff

/-- **The outcome of a connect**. In every reachable state, for every operation that connects:

- its receiver was signalled at most once;
- the step that signals it sends the stop if one was requested before, and else the outcome of the
  attempt, which is the value exactly if the attempt succeeded;
- if it was not signalled and no function is executing on it, its attempt is in progress and its
  event is armed;
- if it was not signalled and a stop was requested, it makes no further call, in whatever way the
  program goes on; it is signalled nothing but the stop, and it has been when no `request_stop` is
  calling the callbacks of its source any more;
- if it was not signalled and its socket is open, it comes to rest, whatever its calls return;
- a readiness indication delivered to it while its socket is open leads to the signal. -/
theorem connect_outcome (h : Reachable w) (hop : w.ops[o]? = some op)
    (hdesc : op.desc = .connect id) :
    (signals op.history = [] ∨ ∃ s, signals op.history = [s]) ∧
    SignalsOutcome w o op ∧
    (w.crashed = false → signals op.history = [] → frames o w.todo = [] →
      op.isArmed = true ∧ ∃ a : Attempt, a.RecordedAs (requests op.history) ∧ a.InProgress) ∧
    (w.stopped op.token = true → signals op.history = [] →
      ∀ (ls : List Label) (w' : LibeventWorld), World.run w ls = some w' →
        ∃ op', w'.ops[o]? = some op' ∧ requests op'.history = requests op.history ∧
          (signals op'.history = [] ∨ signals op'.history = [.stopped]) ∧
          (w'.crashed = false → w'.userMay = true → .stopLoop op.token ∉ w'.todo →
            signals op'.history = [.stopped])) ∧
    (w.crashed = false → signals op.history = [] → w.ctx.sockets.record id ≠ none →
      ∃ n, ∀ ls : List Label, (∀ l ∈ ls, ∃ env, l = .perform env) → n ≤ ls.length →
        ∃ ls' w', ls' <+: ls ∧ World.run w ls' = some w' ∧ w'.crashed = false ∧ AtRest o w') ∧
    (w.crashed = false → signals op.history = [] → w.todo = [] →
      w.ctx.sockets.record id ≠ none → ∀ (env : Env) (r : SysResult), env.results = [r] →
        ∃ w₁ n, w.step (.ready o env) = some w₁ ∧
          ∀ ls : List Label, (∀ l ∈ ls, ∃ env, l = .perform env) → n ≤ ls.length →
            ∃ ls' w₂ op₂ s, ls' <+: ls ∧ World.run w₁ ls' = some w₂ ∧ w₂.ops[o]? = some op₂ ∧
              signals op₂.history = [s]) := by
  refine ⟨h.inv.signals_cases hop, h.signalsOutcome hop hdesc, ?_, ?_, ?_, ?_⟩
  · exact fun hc hs hframes => h.waits hc hop hdesc hs hframes
  · exact fun hstop hs ls w' hrun => h.halted hop hstop hs hrun
  · intro hc hs hlive
    have hrunning : Running w.ctx op o w :=
      ⟨h.inv, hc, rfl, by rw [hdesc]; exact hlive, op, hop, rfl, List.prefix_refl _⟩
    refine ⟨rankOf (frames o w.todo), fun ls hls hlength => ?_⟩
    obtain ⟨ls', w', hpre, hrun, hrunning', hrest⟩ := hrunning.rests hls hlength
    exact ⟨ls', w', hpre, hrun, hrunning'.alive, hrest⟩
  · exact fun hc hs htodo hlive env r hres => h.readied hc hop hdesc hs htodo hlive hres

/-- A connection that is refused at once (ECONNREFUSED), up to the step that signals it. -/
def refusedAtOnce : List Label :=
  [.makeSocket 5, .start (.connect 0) 0, .perform {}, .perform {}, .perform {},
    .perform { connect := .fail 111 }, .perform {}]

/-- The attempt is reported as the error, although `_Start` is going to call `_Complete`. -/
theorem connect_outcome_refused : ∃ w w' op op', World.run initial refusedAtOnce = some w ∧
    World.step w (.perform {}) = some w' ∧ w.ops[0]? = some op ∧ w'.ops[0]? = some op' ∧
    frames 0 w'.todo = completeCall ∧ signals op'.history = [.error ⟨111, .system⟩] ∧
    ¬ Attempt.Succeeds ⟨.ok 0, .fail 111, none, .ok 0, 0⟩ := by
  refine ⟨_, _, _, _, rfl, rfl, rfl, rfl, rfl, rfl, fun hsucceeds => ?_⟩
  have hreach : Reachable _ := ⟨refusedAtOnce, rfl⟩
  have hstep := (connect_outcome hreach (o := 0) rfl rfl).2.1 (.perform {}) _ _ _ rfl rfl rfl rfl
  have houtcome := (hstep.2 rfl).2 ⟨.ok 0, .fail 111, none, .ok 0, 0⟩ (.submitted rfl rfl rfl)
  cases houtcome.2.mpr hsucceeds

end LibeventContext

end Stdnet
