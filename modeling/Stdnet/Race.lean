import Stdnet.LibeventPhase

/-!
# Three Parties and One Operation

One operation on the libevent context, with the atomic steps of three threads in every order: the
one on which the upstream sender completes and `_Start` runs, the one that calls `request_stop`, and
the one of the event loop. The counter `_D_outstanding` goes below zero in some of these orders, and
some report the end of the operation twice.

## Main results

- `Stage`: what the three lists of steps, the counter and the stop callback can be together.
- `Stage.starter`, `Stage.stopper`, `Stage.dispatcher`, `Stage.ready`: the steps of each party.
- `signalled_once`: the receiver is signalled at most once, and exactly once when all steps were run
  and an outcome was reported.
- `step_of_unfinished`: the parties never wait for each other in a circle.
-/

namespace Stdnet

/-- How the upstream sender completes. -/
inductive UpstreamEnd where
  | value
  | error (e : ErrorCode)
  | stopped
  deriving DecidableEq, Repr

/-- What `_Upstream_receiver` passes on to the receiver; a value starts the operation instead. -/
def UpstreamEnd.signal? : UpstreamEnd → Option Signal
  | .value => none
  | .error e => some (.error e)
  | .stopped => some .stopped

/-- The steps that report an outcome to the operation: `_Complete`, `_Error` or `_Cancel`. -/
def AtomicStep.reports : AtomicStep → Bool
  | .complete | .error _ | .cancel => true
  | _ => false

/-- The steps that can be left over when the receiver has been signalled. None of them increments
the counter or leads to one that does. -/
def AtomicStep.trailing : AtomicStep → Bool
  | .testStop | .submit | .reset | .complete | .error _ | .cancel | .leave => true
  | .increment | .emplace | .enter | .contextCancel | .cancelComplete => false

namespace LibeventContext

open History

/-! ## The three parties -/

/-- The threads that run steps on the operation. -/
inductive Party where
  /-- the upstream sender completes and `_Start` runs -/
  | starter
  /-- `request_stop` runs the stop callback -/
  | stopper
  /-- the event loop runs the readiness callback -/
  | dispatcher
  deriving DecidableEq, Repr

/-- A context, one of its operations, its stop source and the steps that each party still has to run
on the operation. -/
structure Race where
  ctx : LibeventContext := {}
  op : CpoState
  upstream : Option UpstreamEnd := none
  stopped : Bool := false
  /-- `request_stop` has not returned -/
  stopping : Bool := false
  starter : List AtomicStep := []
  stopper : List AtomicStep := []
  dispatcher : List AtomicStep := []
  crashed : Bool := false
  deriving DecidableEq, Repr

/-- The choices of the parties, of the operating system and of the rest of the program. -/
inductive RaceLabel where
  /-- the upstream sender completes -/
  | upstream (u : UpstreamEnd)
  /-- `request_stop` is called -/
  | requestStop
  /-- the stop source calls the registered callback -/
  | callback
  /-- the stop source finds no registered callback: `request_stop` returns -/
  | stopDone
  /-- the next step of a party is run -/
  | perform (p : Party) (env : Env)
  /-- the event loop delivers a readiness indication -/
  | ready (env : Env)
  /-- the rest of the program creates a socket -/
  | makeSocket (fd : Handle)
  /-- the rest of the program releases a socket -/
  | release (id : SocketId) (close : SysResult)
  deriving DecidableEq, Repr

namespace Race

/-- The steps that a party still has to run. -/
def steps (w : Race) : Party → List AtomicStep
  | .starter => w.starter
  | .stopper => w.stopper
  | .dispatcher => w.dispatcher

def setSteps (w : Race) (ms : List AtomicStep) : Party → Race
  | .starter => { w with starter := ms }
  | .stopper => { w with stopper := ms }
  | .dispatcher => { w with dispatcher := ms }

/-- The completion of the upstream sender arrives at `_Upstream_receiver`. -/
def arrive (w : Race) (u : UpstreamEnd) : Race :=
  match u.signal? with
  | some s => { w with upstream := some u, op := w.op.log (.signalled s) }
  | none => { w with upstream := some u, starter := startCall }

/-- The effect of a step of a party; an exception that escapes ends the program. -/
def apply (w : Race) (p : Party) (rest : List AtomicStep) (e : Effect LibeventContext) : Race :=
  if e.fault then { w with op := e.op, crashed := true }
  else { w with ctx := e.ctx, op := e.op }.setSteps (e.next ++ rest) p

/-- The destructor of a stop callback waits while the callback is executed by another thread. When
`emplace` executes it, the thread is the one that would reset it, and it returns first. -/
def waits (w : Race) (m : AtomicStep) : Bool :=
  m = .reset ∧ w.op.callback = .executing

/-- One step. -/
def step (w : Race) (l : RaceLabel) : Option Race :=
  if w.crashed then none
  else
    match l with
    | .upstream u => if w.upstream = none then some (w.arrive u) else none
    | .requestStop => some (if w.stopped then w else { w with stopped := true, stopping := true })
    | .callback =>
      if w.stopping ∧ w.stopper = [] ∧ w.op.callback = .registered then
        some { w with op := { w.op with callback := .executing }, stopper := callbackCall }
      else none
    | .stopDone =>
      if w.stopping ∧ w.stopper = [] ∧ w.op.callback ≠ .registered then
        some { w with stopping := false }
      else none
    | .perform p env =>
      match w.steps p with
      | m :: rest =>
        if w.waits m then none
        else (m.perform w.stopped env w.ctx 0 w.op).map (w.apply p rest)
      | [] => none
    | .ready env =>
      if w.dispatcher = [] ∧ w.op.isArmed then
        (LibeventContext.callback w.ctx w.op env).map (w.apply .dispatcher [])
      else none
    | .makeSocket fd =>
      if w.ctx.sockets.Fresh fd then
        match w.ctx.sockets.makeSocket fd with
        | .ok (_, t) => some { w with ctx := { sockets := t } }
        | .error _ => none
      else none
    | .release id close =>
      match w.ctx.sockets.release id close with
      | .ok (t, _) => some { w with ctx := { sockets := t } }
      | .error _ => some w

/-- The operation before its upstream sender completes. -/
def initial (d : Desc) (token : Source) : Race :=
  { op := { desc := d, token := token } }

abbrev run (w : Race) (ls : List RaceLabel) : Option Race :=
  StepMachine.run step w ls

/-- What a step can do, with everything that it requires. -/
inductive StepCases (w : Race) : RaceLabel → Race → Prop where
  | upstream {u : UpstreamEnd} (hup : w.upstream = none) : StepCases w (.upstream u) (w.arrive u)
  | requestAgain (hstop : w.stopped = true) : StepCases w .requestStop w
  | requestStop (hstop : w.stopped = false) :
      StepCases w .requestStop { w with stopped := true, stopping := true }
  | callback (hstopping : w.stopping = true) (hsteps : w.stopper = [])
      (hcb : w.op.callback = .registered) :
      StepCases w .callback
        { w with op := { w.op with callback := .executing }, stopper := callbackCall }
  | stopDone (hstopping : w.stopping = true) (hsteps : w.stopper = [])
      (hcb : w.op.callback ≠ .registered) : StepCases w .stopDone { w with stopping := false }
  | perform {p : Party} {env : Env} {m : AtomicStep} {rest : List AtomicStep}
      {e : Effect LibeventContext} (hsteps : w.steps p = m :: rest)
      (hfree : m = .reset → w.op.callback ≠ .executing)
      (he : m.perform w.stopped env w.ctx 0 w.op = some e) :
      StepCases w (.perform p env) (w.apply p rest e)
  | ready {env : Env} {e : Effect LibeventContext} (hsteps : w.dispatcher = [])
      (harmed : w.op.isArmed = true) (he : LibeventContext.callback w.ctx w.op env = some e) :
      StepCases w (.ready env) (w.apply .dispatcher [] e)
  | makeSocket {fd : Handle} {id : SocketId} {t : Table} (hfresh : w.ctx.sockets.Fresh fd)
      (hmake : w.ctx.sockets.makeSocket fd = .ok (id, t)) :
      StepCases w (.makeSocket fd) { w with ctx := { sockets := t } }
  | released {id : SocketId} {close : SysResult} {t : Table} {e : Option ErrorCode}
      (hrelease : w.ctx.sockets.release id close = .ok (t, e)) :
      StepCases w (.release id close) { w with ctx := { sockets := t } }
  | notReleased {id : SocketId} {close : SysResult} : StepCases w (.release id close) w

theorem step_cases {w w' : Race} {l : RaceLabel} (h : w.step l = some w') : StepCases w l w' := by
  simp only [step, Option.ite_none_left_eq_some] at h
  obtain ⟨-, h⟩ := h
  cases l with
  | upstream u =>
    simp only [Option.ite_none_right_eq_some, Option.some.injEq] at h
    obtain ⟨hup, rfl⟩ := h
    exact .upstream hup
  | requestStop =>
    obtain rfl := Option.some.inj h
    split
    next hstop => exact .requestAgain hstop
    next hstop => exact .requestStop (by simpa using hstop)
  | callback =>
    simp only [Option.ite_none_right_eq_some, Option.some.injEq] at h
    obtain ⟨⟨hstopping, hsteps, hcb⟩, rfl⟩ := h
    exact .callback hstopping hsteps hcb
  | stopDone =>
    simp only [Option.ite_none_right_eq_some, Option.some.injEq] at h
    obtain ⟨⟨hstopping, hsteps, hcb⟩, rfl⟩ := h
    exact .stopDone hstopping hsteps hcb
  | perform p env =>
    simp only at h
    split at h
    next m rest hsteps =>
      simp only [Option.ite_none_left_eq_some, Option.map_eq_some_iff, waits, decide_eq_true_eq,
        not_and] at h
      obtain ⟨hfree, e, he, rfl⟩ := h
      exact .perform hsteps hfree he
    next => cases h
  | ready env =>
    simp only [Option.ite_none_right_eq_some, Option.map_eq_some_iff] at h
    obtain ⟨⟨hsteps, harmed⟩, e, he, rfl⟩ := h
    exact .ready hsteps harmed he
  | makeSocket fd =>
    simp only [Option.ite_none_right_eq_some] at h
    obtain ⟨hfresh, h⟩ := h
    split at h
    next id t hmake =>
      obtain rfl := Option.some.inj h
      exact .makeSocket hfresh hmake
    next => cases h
  | release id close =>
    simp only at h
    split at h
    next t e hrelease =>
      obtain rfl := Option.some.inj h
      exact .released hrelease
    next => exact Option.some.inj h ▸ .notReleased

end Race

/-! ## What a step leaves alone -/

/-- The entries that were added to the history signal, settle and report nothing, and the results of
the operation are unchanged; its event may have been disarmed. -/
structure Inert (op op' : CpoState) : Prop where
  desc : op'.desc = op.desc
  acceptId : op'.acceptId = op.acceptId
  count : op'.count = op.count
  extra : op'.extra = op.extra ∨ op'.extra = (disarm op).extra
  history : ∃ added, op'.history = op.history ++ added ∧ signals added = [] ∧
    findings op.desc added = [] ∧ ∀ m, .ran m ∈ added → m.reports = false

variable {up : Option UpstreamEnd} {stopped : Bool} {env : Env} {ctx : LibeventContext} {o : OpId}
  {op op' : CpoState} {m : AtomicStep} {rest S P D : List AtomicStep} {e : Effect LibeventContext}

/-- A step that reports nothing and submits nothing, with its entry in the history. -/
theorem Inert.ran (op : CpoState) (hm : m.reports = false) (out : ℤ) (cb : Callback) :
    Inert op { op.log (.ran m) with outstanding := out, callback := cb } :=
  ⟨rfl, rfl, rfl, .inl rfl, [.ran m], rfl, rfl, rfl, by simpa using hm⟩

theorem Inert.signals (h : Inert op op') : signals op'.history = signals op.history := by
  obtain ⟨added, hadded, hsig, -, -⟩ := h.history
  rw [hadded, signals_append, hsig, List.append_nil]

theorem Inert.findings (h : Inert op op') :
    findings op'.desc op'.history = findings op.desc op.history := by
  obtain ⟨added, hadded, -, hfind, -⟩ := h.history
  rw [hadded, h.desc, findings_append, hfind, List.append_nil]

theorem Inert.ran_of_reports (h : Inert op op') (hm : m.reports = true)
    (hran : .ran m ∈ op'.history) : .ran m ∈ op.history := by
  obtain ⟨added, hadded, -, -, hnone⟩ := h.history
  rw [hadded, List.mem_append] at hran
  -- the entries that were added report nothing
  refine hran.resolve_right fun hmem => ?_
  rw [hnone m hmem] at hm
  cases hm

theorem Inert.setValue (h : Inert op op') : op'.setValue = op.setValue := by
  simp only [CpoState.setValue, h.desc, h.acceptId, h.count]

theorem Inert.disarmed (h : Inert op op') (harmed : op.isArmed = false) : op'.isArmed = false := by
  rcases h.extra with hex | hex
  · simpa only [CpoState.isArmed, hex] using harmed
  · have := isArmed_disarm op
    simpa only [CpoState.isArmed, hex] using this

/-! ## Parts of the invariant -/

/-- Nothing was reported to the operation, nor passed on to the receiver. -/
structure Unreported (op : CpoState) : Prop where
  signals : signals op.history = []
  steps : ∀ m, .ran m ∈ op.history → m.reports = false

/-- The operation was not submitted: it has no event, and nothing that could have ended it. -/
structure Bare (op : CpoState) : Prop where
  findings : findings op.desc op.history = []
  extra : op.extra = none

/-- A result `w` ended the operation: the signal that reports it is determined, and no event is
armed any more. -/
structure Ended (op : CpoState) (w : WorkEnd) : Prop where
  findings : findings op.desc op.history = [w]
  reports : Reports op.desc w (w.signal op)
  disarmed : op.isArmed = false

theorem Unreported.of_steps (h : Unreported op)
    (hsig : History.signals op'.history = History.signals op.history)
    (hran : ∀ m, m.reports = true → .ran m ∈ op'.history → .ran m ∈ op.history) :
    Unreported op' where
  signals := hsig.trans h.signals
  steps m hm := by
    by_contra htrue
    have hm' := h.steps m (hran m (by simpa using htrue) hm)
    exact htrue hm'

theorem Unreported.inert (h : Unreported op) (hi : Inert op op') : Unreported op' :=
  h.of_steps hi.signals fun _ => hi.ran_of_reports

theorem Bare.inert (h : Bare op) (hi : Inert op op') : Bare op' where
  findings := hi.findings.trans h.findings
  extra := by
    rcases hi.extra with hex | hex
    · rw [hex, h.extra]
    · simp only [hex, disarm, h.extra, Option.map_none]

theorem Ended.inert {w : WorkEnd} (h : Ended op w) (hi : Inert op op') : Ended op' w where
  findings := hi.findings.trans h.findings
  reports := by
    have hsignal : w.signal op' = w.signal op := by
      cases w with
      | error e => rfl
      | value | closed | wouldBlock => exact hi.setValue
    rw [hsignal, hi.desc]
    exact h.reports
  disarmed := hi.disarmed h.disarmed

/-- How far the starter and the event loop are while the stop callback is registered or executed.
None of the steps that they can run then moves the counter. -/
inductive Progress (stopped : Bool) (op : CpoState) : List AtomicStep → List AtomicStep → Prop where
  | testing (h : Bare op) : Progress stopped op [.testStop] []
  | refusing (h : Bare op) (hstop : stopped = true) : Progress stopped op [.reset, .cancel] []
  | submitting (h : Bare op) : Progress stopped op [.submit] []
  | pending (h : findings op.desc op.history = []) : Progress stopped op [] []
  | ended {w : WorkEnd} (h : Ended op w) :
      Progress stopped op (.reset :: w.report :: completeCall) []
  | dispatched {w : WorkEnd} (h : Ended op w) : Progress stopped op [] [.reset, w.report]

/-- What is left of a call of the stop callback, with the counter before it. -/
inductive Called : ℤ → List AtomicStep → Prop where
  | entering : Called 1 [.enter, .leave]
  | cancelling : Called 2 [.contextCancel, .leave]
  | cancelled : Called 2 [.cancelComplete, .cancel, .leave]
  | stopping : Called 1 [.cancel, .leave]

/-- The stop callback was taken off the stop source, and the next step signals the receiver. -/
inductive Closing (stopped : Bool) (op : CpoState) : List AtomicStep → List AtomicStep → Prop where
  | refused (h : Bare op) (hstop : stopped = true) : Closing stopped op [.cancel] []
  | ended {w : WorkEnd} (h : Ended op w) : Closing stopped op (w.report :: completeCall) []
  | dispatched {w : WorkEnd} (h : Ended op w) : Closing stopped op [] [w.report]

/-- Why the receiver was signalled `s`. -/
inductive Cause (up : Option UpstreamEnd) (stopped : Bool) (op : CpoState)
    (S P D : List AtomicStep) (s : Signal) : Prop where
  | upstream {u : UpstreamEnd} (hup : up = some u) (hs : u.signal? = some s)
      (hdisarmed : op.isArmed = false) (hnil : S = [] ∧ P = [] ∧ D = [])
  | stop (hup : up = some .value) (hstop : stopped = true) (hs : s = .stopped)
      (hran : ∃ m, .ran m ∈ op.history ∧ m.reports = true)
  | ended {w : WorkEnd} (hup : up = some .value) (hfind : findings op.desc op.history = [w])
      (hs : Reports op.desc w s) (hdisarmed : op.isArmed = false) (hnil : P = [] ∧ D = [])
      (hS : ∀ m ∈ S, m = .reset ∨ m = .complete) (hran : .ran w.report ∈ op.history)
      (herror : ∀ e, .ran (.error e) ∈ op.history → w = .error e)

/-- The receiver was signalled: no step that is left increments the counter, which is zero or less,
so no step brings it to zero again. -/
structure Signalled (up : Option UpstreamEnd) (stopped : Bool) (op : CpoState)
    (S P D : List AtomicStep) (s : Signal) : Prop where
  signals : signals op.history = [s]
  outstanding : op.outstanding ≤ 0
  unregistered : op.callback ≠ .registered
  trailing : ∀ m ∈ S ++ P ++ D, m.trailing = true
  /-- a callback that is executed has only to return -/
  executing : op.callback = .executing → P = [.leave] ∨ ∃ rest, S = .leave :: rest
  cause : Cause up stopped op S P D s

/-- **Invariant**: the steps that are left to the starter, the stop request and the event loop, with
the counter and the stop callback. -/
inductive Stage (up : Option UpstreamEnd) (stopped : Bool) (op : CpoState) :
    List AtomicStep → List AtomicStep → List AtomicStep → Prop where
  | idle (hup : up = none) (hun : Unreported op) (hbare : Bare op) (hout : op.outstanding = 0)
      (hcb : op.callback = .idle) : Stage up stopped op [] [] []
  | starting (hup : up = some .value) (hun : Unreported op) (hbare : Bare op)
      (hout : op.outstanding = 0) (hcb : op.callback = .idle) : Stage up stopped op startCall [] []
  | emplacing (hup : up = some .value) (hun : Unreported op) (hbare : Bare op)
      (hout : op.outstanding = 1) (hcb : op.callback = .idle) :
      Stage up stopped op [.emplace, .testStop] [] []
  | constructed {ms : List AtomicStep} (hup : up = some .value) (hsig : signals op.history = [])
      (hbare : Bare op) (hstop : stopped = true) (hcb : op.callback = .executing)
      (hcall : Called op.outstanding ms) :
      Stage up stopped op (ms ++ [.testStop]) [] []
  | running {S D : List AtomicStep} (hup : up = some .value) (hun : Unreported op)
      (hout : op.outstanding = 1) (hcb : op.callback = .registered) (h : Progress stopped op S D) :
      Stage up stopped op S [] D
  | called {S P D : List AtomicStep} (hup : up = some .value) (hsig : signals op.history = [])
      (hstop : stopped = true) (hcb : op.callback = .executing) (hcall : Called op.outstanding P)
      (h : Progress stopped op S D) :
      Stage up stopped op S P D
  | closing {S D : List AtomicStep} (hup : up = some .value) (hun : Unreported op)
      (hout : op.outstanding = 1) (hcb : op.callback = .idle) (h : Closing stopped op S D) :
      Stage up stopped op S [] D
  | signalled {S P D : List AtomicStep} {s : Signal} (h : Signalled up stopped op S P D s) :
      Stage up stopped op S P D

theorem Progress.inert (h : Progress stopped op S D) (hi : Inert op op') :
    Progress stopped op' S D := by
  cases h with
  | testing h => exact .testing (h.inert hi)
  | refusing h hstop => exact .refusing (h.inert hi) hstop
  | submitting h => exact .submitting (h.inert hi)
  | pending h => exact .pending (hi.findings.trans h)
  | ended h => exact .ended (h.inert hi)
  | dispatched h => exact .dispatched (h.inert hi)

/-! ## The starter and the event loop -/

/-- A function of the context was run: the counter, the stop callback and the receiver are as they
were, and nothing was reported. -/
structure Steady (op op' : CpoState) : Prop where
  outstanding : op'.outstanding = op.outstanding
  callback : op'.callback = op.callback
  history : ∃ added, op'.history = op.history ++ added ∧ signals added = [] ∧
    ∀ m, .ran m ∈ added → m.reports = false

theorem Steady.signals (h : Steady op op') :
    History.signals op'.history = History.signals op.history := by
  obtain ⟨added, hadded, hsig, -⟩ := h.history
  rw [hadded, signals_append, hsig, List.append_nil]

theorem Steady.unreported (h : Steady op op') (hun : Unreported op) : Unreported op' := by
  refine hun.of_steps h.signals fun m hm hran => ?_
  obtain ⟨added, hadded, -, hnone⟩ := h.history
  rw [hadded, List.mem_append] at hran
  refine hran.resolve_right fun hmem => ?_
  rw [hnone m hmem] at hm
  cases hm

/-- The submission of an operation leaves it pending or ends it. -/
theorem Bare.submit (h : Bare op) (he : AtomicStep.perform .submit stopped env ctx o op = some e)
    (hf : e.fault = false) :
    e.ctx = ctx ∧ Steady op e.op ∧ Progress stopped e.op e.next [] := by
  obtain ⟨r, hspec, rfl⟩ := perform_submit_cases he
  cases hspec with
  -- an id that names no record is a fault
  | refused hnone =>
    cases hf
  | armed n ev hon hend harmed =>
    have hend' : op.desc.submitEnd env = none := hend
    refine ⟨rfl, ⟨rfl, rfl, [.ran .submit, .submitted env n], ?_, rfl, ?_⟩, .pending ?_⟩
    · simp [Effect.logSignal, CpoState.log]
    · simp [AtomicStep.reports]
    · simp [Effect.logSignal, CpoState.log, h.findings, hend']
  | ended n w hon hend hdelivers =>
    have hend' : op.desc.submitEnd env = some w := hend
    refine ⟨rfl, ⟨rfl, rfl, [.ran .submit, .submitted env n], ?_, rfl, ?_⟩, .ended ⟨?_, ?_, ?_⟩⟩
    · simp [Effect.logSignal, CpoState.log]
    · simp [AtomicStep.reports]
    · simp [Effect.logSignal, CpoState.log, h.findings, hend']
    · exact reports_of_delivers (hdelivers _ rfl)
    · simp [Effect.logSignal, CpoState.log, CpoState.isArmed, h.extra]

/-- The starter, while the callback is registered or executed. -/
theorem Progress.starter (h : Progress stopped op (m :: rest) D) (hm : m ≠ .reset)
    (he : m.perform stopped env ctx o op = some e) (hf : e.fault = false) :
    e.ctx = ctx ∧ Steady op e.op ∧ Progress stopped e.op (e.next ++ rest) D := by
  cases h with
  | testing h =>
    obtain rfl := Option.some.inj he
    have hbare := h.inert (Inert.ran op (m := .testStop) rfl op.outstanding op.callback)
    refine ⟨rfl, ⟨rfl, rfl, [.ran .testStop], rfl, rfl, by simp [AtomicStep.reports]⟩, ?_⟩
    simp only [Effect.logSignal, List.append_nil]
    -- a stop that is requested after this test is left to the callback
    split
    next hstop => exact .refusing hbare hstop
    next => exact .submitting hbare
  | refusing | ended => exact absurd rfl hm
  | submitting h =>
    rw [List.append_nil]
    exact h.submit he hf

/-- What `_Libevent_callback` does: the operation is over, or it waits for another indication. -/
theorem callback_cases (hok : ctx.sockets.Ok) (he : callback ctx op env = some e)
    (hf : e.fault = false) :
    e.ctx.sockets.Ok ∧ Steady op e.op ∧
      (e.next = [] ∧ findings e.op.desc e.op.history = findings op.desc op.history ∨
        ∃ w, e.next = [.reset, w.report] ∧ (findings op.desc op.history = [] → Ended e.op w)) := by
  simp only [callback, Option.map_eq_some_iff] at he
  obtain ⟨wk, hwk, rfl⟩ := he
  have hdis := isArmed_disarm op
  -- `_Work` leaves the entry of the dispatch and those of its calls, and none of them reports
  have hran : ∀ {added : List OpEvent}, (∀ e ∈ added, IsWork e) →
      ∀ m, OpEvent.ran m ∈ OpEvent.dispatched :: added → m.reports = false := by
    intro added hadded m hmem
    simp only [List.mem_cons, reduceCtorEq, false_or] at hmem
    exact (hadded _ hmem).elim
  cases work_spec hwk with
  | stray _ _ _ _ hfault => simp [hfault] at hf
  | settled w a n added hext hadded _ hop hfind hnext hdelivers _ =>
    have hfind' : findings op.desc added = [w] := hfind
    have hreports := reports_of_delivers (hdelivers hok)
    simp only [hop] at hreports ⊢
    refine ⟨(hext hok).ok, ⟨rfl, rfl, .dispatched :: added, ?_, ?_, hran hadded⟩,
      .inr ⟨w, hnext, fun hnil => ⟨?_, hreports, hdis⟩⟩⟩
    · simp [CpoState.log, disarm]
    · simp [signals_of_isWork hadded]
    · simp [CpoState.log, disarm, hnil, hfind']
  | waiting added htable hadded _ hop hfind hnext hblock _ =>
    have hfind' : findings op.desc added = [] := hfind
    simp only [htable, hop]
    refine ⟨hok, ⟨rfl, rfl, .dispatched :: added, ?_, ?_, hran hadded⟩, .inl ⟨hnext, ?_⟩⟩
    · simp [CpoState.log, disarm]
    · simp [signals_of_isWork hadded]
    · simp [CpoState.log, disarm, hfind']

/-- An armed event belongs to an operation that `_Start` has submitted. -/
theorem Progress.submitted (h : Progress stopped op S []) (harmed : op.isArmed = true) :
    S = [] ∧ findings op.desc op.history = [] := by
  cases h with
  -- before the submission there is no event
  | testing h | refusing h | submitting h =>
    simp only [CpoState.isArmed, h.extra, Bool.false_eq_true] at harmed
  | pending h => exact ⟨rfl, h⟩
  | ended h =>
    rw [h.disarmed] at harmed
    cases harmed

/-- The event loop, while the callback is registered or executed. -/
theorem Progress.ready (h : Progress stopped op S []) (harmed : op.isArmed = true)
    (hok : ctx.sockets.Ok) (he : LibeventContext.callback ctx op env = some e)
    (hf : e.fault = false) : Steady op e.op ∧ Progress stopped e.op S e.next := by
  obtain ⟨rfl, hfind⟩ := h.submitted harmed
  obtain ⟨-, hsteady, ⟨hnext, hsame⟩ | ⟨w, hnext, hended⟩⟩ := callback_cases hok he hf
  · rw [hnext]
    exact ⟨hsteady, .pending (hsame.trans hfind)⟩
  · rw [hnext]
    exact ⟨hsteady, .dispatched (hended hfind)⟩

/-! ## The steps that move the counter -/

/-- The counter comes to zero: the signal is sent. -/
theorem decrement_last (ctx : LibeventContext) {op : CpoState} (m : AtomicStep) (s : Signal)
    (hout : op.outstanding = 1) :
    (decrement ctx (op.log (.ran m)) s).logSignal =
      { ctx := ctx, signal := some s
        op := { op with outstanding := 0, history := op.history ++ [.ran m] ++ [.signalled s] } } := by
  simp [decrement, Effect.logSignal, CpoState.log, hout]

/-- The counter does not come to zero: nothing is sent. -/
theorem decrement_other (ctx : LibeventContext) {op : CpoState} (m : AtomicStep) (s : Signal)
    (hout : op.outstanding ≠ 1) :
    (decrement ctx (op.log (.ran m)) s).logSignal =
      { ctx := ctx, op := { op.log (.ran m) with outstanding := op.outstanding - 1 } } := by
  have hne : (op.log (.ran m)).outstanding - 1 ≠ 0 := by
    show op.outstanding - 1 ≠ 0
    omega
  simp only [decrement, Effect.logSignal, hne, if_false]
  rfl

theorem perform_report (w : WorkEnd) (he : w.report.perform stopped env ctx o op = some e) :
    e = (decrement ctx (op.log (.ran w.report)) (w.signal op)).logSignal := by
  cases w <;> exact (Option.some.inj he).symm

theorem report_reports (w : WorkEnd) : w.report.reports = true := by
  cases w <;> rfl

theorem report_trailing (w : WorkEnd) : w.report.trailing = true := by
  cases w <;> rfl

/-- Only `_Error` of the error that ended the operation is `_Error`. -/
theorem eq_error_of_report {w : WorkEnd} {e : ErrorCode} (h : w.report = .error e) :
    w = .error e := by
  cases w with
  | error e' => rw [AtomicStep.error.inj h]
  | value | closed | wouldBlock => cases h

/-- The step that reports the end of an operation signals the receiver. What the starter has left
are the steps of a second report. -/
theorem Ended.report {w : WorkEnd} (h : Ended op w) (hup : up = some .value) (hun : Unreported op)
    (hout : op.outstanding = 1) (hcb : op.callback = .idle)
    (hS : ∀ m ∈ S, m = .reset ∨ m = .complete)
    (he : w.report.perform stopped env ctx o op = some e) :
    e.ctx = ctx ∧ e.next = [] ∧ Signalled up stopped e.op S [] [] (w.signal op) := by
  have heq := perform_report w he
  -- the counter comes to zero
  rw [decrement_last ctx w.report (w.signal op) hout] at heq
  subst heq
  refine ⟨rfl, rfl, ?_, le_rfl, ?_, ?_, ?_, .ended hup ?_ h.reports h.disarmed ⟨rfl, rfl⟩ hS ?_ ?_⟩
  · simp [hun.signals]
  · simp only [hcb]
    exact nofun
  · simp only [List.append_nil]
    intro m hm
    rcases hS m hm with rfl | rfl <;> rfl
  · simp only [hcb]
    exact nofun
  · simp [h.findings]
  · simp
  · intro e' hran
    simp only [List.mem_append, List.mem_singleton, OpEvent.ran.injEq, reduceCtorEq, or_false] at hran
    rcases hran with hran | hran
    · have := hun.steps _ hran
      cases this
    · exact eq_error_of_report hran.symm

/-- `_Cancel` of the operation, with nothing else outstanding, signals that it was stopped. -/
theorem perform_cancel (hup : up = some .value) (hsig : signals op.history = []) 
    (hstop : stopped = true) (hout : op.outstanding = 1) (hcb : op.callback ≠ .registered)
    (htrail : ∀ m ∈ S ++ P ++ D, m.trailing = true)
    (hexec : op.callback = .executing → P = [.leave] ∨ ∃ rest, S = .leave :: rest)
    (he : AtomicStep.perform .cancel stopped env ctx o op = some e) :
    e.ctx = ctx ∧ e.next = [] ∧ Signalled up stopped e.op S P D .stopped := by
  rw [← Option.some.inj he]
  show (decrement ctx (op.log (.ran .cancel)) .stopped).logSignal.ctx = ctx ∧ _
  rw [decrement_last ctx .cancel .stopped hout]
  refine ⟨rfl, rfl, ?_, le_rfl, hcb, htrail, hexec, .stop hup hstop rfl ⟨.cancel, ?_, rfl⟩⟩
  · simp [hsig]
  · simp

/-- A step of the stop callback, before the receiver is signalled. -/
theorem Called.perform (h : Called op.outstanding (m :: rest)) (hm : m ≠ .cancel)
    (he : m.perform stopped env ctx o op = some e) :
    e.ctx = ctx ∧ e.fault = false ∧ Inert op e.op ∧ e.op.callback = op.callback ∧
      Called e.op.outstanding (e.next ++ rest) := by
  generalize hout : op.outstanding = n at h
  cases h with
  -- the callback increments the counter first, so `_Complete` does not bring it to zero
  | entering =>
    obtain rfl := Option.some.inj he
    refine ⟨rfl, rfl, Inert.ran op rfl _ _, rfl, ?_⟩
    simp only [Effect.logSignal, CpoState.log, hout]
    exact .cancelling
  | cancelling =>
    obtain rfl := Option.some.inj he
    refine ⟨rfl, rfl, ⟨rfl, rfl, rfl, .inr rfl, [.ran .contextCancel], rfl, rfl, rfl, ?_⟩, rfl, ?_⟩
    · simp [AtomicStep.reports]
    · show Called op.outstanding [.cancelComplete, .cancel, .leave]
      rw [hout]
      exact .cancelled
  -- `_Cancel_callback::_Complete` takes the increment back
  | cancelled =>
    have heq : e = (decrement ctx (op.log (.ran .cancelComplete)) .stopped).logSignal :=
      (Option.some.inj he).symm
    rw [decrement_other ctx .cancelComplete .stopped (by omega)] at heq
    subst heq
    refine ⟨rfl, rfl, Inert.ran op rfl _ _, rfl, ?_⟩
    simp only [hout]
    exact .stopping
  | stopping => exact absurd rfl hm

theorem Called.of_cancel {n : ℤ} (h : Called n (.cancel :: rest)) : n = 1 ∧ rest = [.leave] := by
  cases h
  exact ⟨rfl, rfl⟩

theorem Called.eq_cons {n : ℤ} (h : Called n P) : ∃ m rest, P = m :: rest := by
  cases h <;> exact ⟨_, _, rfl⟩

theorem Called.ne_reset {n : ℤ} (h : Called n (m :: rest)) : m ≠ .reset := by
  cases h <;> nofun

/-! ## After the signal -/

/-- A report that comes after the signal only counts down. -/
theorem perform_late (hm : m = .complete ∨ m = .cancel ∨ ∃ e', m = .error e')
    (hout : op.outstanding ≤ 0) (he : m.perform stopped env ctx o op = some e) :
    e = { ctx := ctx, op := { op.log (.ran m) with outstanding := op.outstanding - 1 } } := by
  have hne : op.outstanding ≠ 1 := by omega
  rcases hm with rfl | rfl | ⟨e', rfl⟩ <;>
    exact (Option.some.inj he).symm.trans (decrement_other ctx _ _ hne)

/-- A step that is left over keeps the counter from coming to zero and leads to such steps. -/
theorem perform_trailing (hm : m.trailing = true) (hout : op.outstanding ≤ 0)
    (hcb : op.callback ≠ .registered) (he : m.perform stopped env ctx o op = some e)
    (hf : e.fault = false) :
    e.ctx = ctx ∧ signals e.op.history = signals op.history ∧ e.op.outstanding ≤ 0 ∧
      e.op.callback ≠ .registered ∧
      (e.op.callback = .executing → op.callback = .executing ∧ m ≠ .leave) ∧
        ∀ m' ∈ e.next, m'.trailing = true := by
  cases m with
  -- either branch of `_Start` leads to such steps
  | testStop =>
    obtain rfl := Option.some.inj he
    refine ⟨rfl, by simp [Effect.logSignal, CpoState.log], hout, hcb, fun h => ⟨h, by simp⟩, ?_⟩
    simp only [Effect.logSignal]
    split <;> simp [AtomicStep.trailing]
  -- there is no registered callback to take off
  | reset =>
    obtain rfl := Option.some.inj he
    have hreset : (op.log (.ran .reset)).reset = op.log (.ran .reset) := CpoState.reset_of_ne hcb
    have hop : (Effect.logSignal { ctx := ctx, op := (op.log (.ran .reset)).reset }).op =
        op.log (.ran .reset) := hreset
    rw [hop]
    exact ⟨rfl, by simp [CpoState.log], hout, hcb, fun h => ⟨h, by simp⟩,
      by simp [Effect.logSignal]⟩
  | leave =>
    obtain rfl := Option.some.inj he
    exact ⟨rfl, by simp [Effect.logSignal, CpoState.log], hout, by simp [Effect.logSignal],
      by simp [Effect.logSignal], by simp [Effect.logSignal]⟩
  -- the counter leaves zero downwards
  | complete | cancel | error =>
    obtain rfl := perform_late (by simp) hout he
    exact ⟨rfl, by simp [CpoState.log], by simp only; omega, hcb, fun h => ⟨h, by simp⟩, by simp⟩
  -- a submission after the signal arms an event or leads to a second report
  | submit =>
    obtain ⟨r, hspec, rfl⟩ := perform_submit_cases he
    cases hspec with
    | refused hnone =>
      cases hf
    | armed n ev hon hend harmed =>
      exact ⟨rfl, by simp [Effect.logSignal, CpoState.log], hout, hcb, fun h => ⟨h, by simp⟩,
        by simp [Effect.logSignal]⟩
    | ended n w hon hend hdelivers =>
      refine ⟨rfl, by simp [Effect.logSignal, CpoState.log], hout, hcb, fun h => ⟨h, by simp⟩, ?_⟩
      intro m' hm'
      have hmem : m' ∈ [.reset, w.report, .reset, .complete] := hm'
      simp only [List.mem_cons, List.not_mem_nil, or_false] at hmem
      rcases hmem with rfl | rfl | rfl | rfl
      · rfl
      · exact report_trailing w
      · rfl
      · rfl
  | increment | emplace | enter | contextCancel | cancelComplete => cases hm

/-- The steps of a second report. -/
theorem perform_again (hm : m = .reset ∨ m = .complete) (hout : op.outstanding ≤ 0)
    (hcb : op.callback ≠ .registered) (he : m.perform stopped env ctx o op = some e) :
    ∃ out, e = { ctx := ctx, op := { op.log (.ran m) with outstanding := out } } := by
  rcases hm with rfl | rfl
  · have hreset : (op.log (.ran .reset)).reset = op.log (.ran .reset) := CpoState.reset_of_ne hcb
    have heq : e = { ctx := ctx, op := (op.log (.ran .reset)).reset } := (Option.some.inj he).symm
    rw [hreset] at heq
    exact ⟨op.outstanding, heq⟩
  · exact ⟨_, perform_late (.inl rfl) hout he⟩

/-- Histories only grow, so what was reported stays reported. -/
theorem ran_of_perform {m' : AtomicStep} (he : m.perform stopped env ctx o op = some e)
    (hran : .ran m' ∈ op.history) : .ran m' ∈ e.op.history := by
  obtain ⟨added, hadded, -⟩ := (perform_kept he).history
  rw [hadded]
  exact List.mem_append_left _ hran

/-- A left-over step, whichever party runs it. -/
theorem Signalled.perform {s : Signal} {S' P' D' : List AtomicStep}
    (h : Signalled up stopped op S P D s) (hm : m ∈ S ++ P ++ D)
    (he : m.perform stopped env ctx o op = some e) (hf : e.fault = false)
    (hsteps : ∀ m' ∈ S' ++ P' ++ D', m' ∈ e.next ∨ m' ∈ S ++ P ++ D)
    (hexec : m ≠ .leave → (P = [.leave] ∨ ∃ rest, S = .leave :: rest) →
      P' = [.leave] ∨ ∃ rest, S' = .leave :: rest)
    (hcause : Cause up stopped e.op S' P' D' s) :
    e.ctx = ctx ∧ Signalled up stopped e.op S' P' D' s := by
  obtain ⟨hctx, hsig, hout, hcb, hcb', hnext⟩ :=
    perform_trailing (h.trailing m hm) h.outstanding h.unregistered he hf
  refine ⟨hctx, hsig.trans h.signals, hout, hcb, fun m' hm' => ?_, fun hcall => ?_, hcause⟩
  · exact (hsteps m' hm').elim (hnext m') (h.trailing m')
  · obtain ⟨hcall', hne⟩ := hcb' hcall
    exact hexec hne (h.executing hcall')

/-- After `set_stopped` it does not matter which steps are left. -/
theorem Cause.perform_stop {s : Signal} {S' P' D' : List AtomicStep} (hup : up = some .value)
    (hstop : stopped = true) (hs : s = .stopped)
    (hran : ∃ m, .ran m ∈ op.history ∧ m.reports = true)
    (he : m.perform stopped env ctx o op = some e) : Cause up stopped e.op S' P' D' s := by
  obtain ⟨m', hm', hreports⟩ := hran
  exact .stop hup hstop hs ⟨m', ran_of_perform he hm', hreports⟩

/-! ## Every party keeps the invariant -/

/-- The callback is taken off the stop source. -/
theorem perform_reset (hcb : op.callback = .registered)
    (he : AtomicStep.perform .reset stopped env ctx o op = some e) :
    e = { ctx := ctx, op := { op.log (.ran .reset) with callback := .idle } } := by
  have hreset : (op.log (.ran .reset)).reset = { op.log (.ran .reset) with callback := .idle } :=
    CpoState.reset_of_registered hcb
  rw [← hreset]
  exact (Option.some.inj he).symm

/-- The starter takes the callback off; its next step signals the receiver. -/
theorem Progress.reset (h : Progress stopped op (.reset :: rest) D) (hi : Inert op op') :
    Closing stopped op' rest D := by
  cases h with
  | refusing h hstop => exact .refused (h.inert hi) hstop
  | ended h => exact .ended (h.inert hi)

/-- The event loop has only the report of the end to run. -/
theorem Progress.dispatcher (h : Progress stopped op S (m :: rest)) :
    m = .reset ∧ S = [] ∧ ∃ w, Ended op w ∧ rest = [w.report] := by
  cases h with
  | dispatched h => exact ⟨rfl, rfl, _, h, rfl⟩

/-- **Starter step**. -/
theorem Stage.starter (h : Stage up stopped op (m :: rest) P D)
    (hfree : m = .reset → op.callback ≠ .executing)
    (he : m.perform stopped env ctx o op = some e) (hf : e.fault = false) :
    e.ctx = ctx ∧ Stage up stopped e.op (e.next ++ rest) P D := by
  generalize hS : m :: rest = S at h
  cases h with
  | idle => cases hS
  | starting hup hun hbare hout hcb =>
    cases hS
    obtain rfl := Option.some.inj he
    have hinert := Inert.ran op (m := .increment) rfl (op.outstanding + 1) op.callback
    refine ⟨rfl, .emplacing hup (hun.inert hinert) (hbare.inert hinert) ?_ hcb⟩
    show op.outstanding + 1 = 1
    rw [hout, zero_add]
  | emplacing hup hun hbare hout hcb =>
    cases hS
    simp only [AtomicStep.perform, AtomicStep.exec] at he
    split at he
    next hstop =>
      -- the stop was requested before: the constructor calls the callback
      obtain rfl := Option.some.inj he
      refine ⟨rfl, .constructed hup ?_ ⟨?_, hbare.extra⟩ hstop rfl ?_⟩
      · simp [Effect.logSignal, CpoState.log, hun.signals]
      · simp [Effect.logSignal, CpoState.log, hbare.findings]
      · show Called op.outstanding callbackCall
        rw [hout]
        exact .entering
    next hstop =>
      obtain rfl := Option.some.inj he
      have hinert : Inert op { (op.log (.ran .emplace)).log (.emplaced false) with
          callback := .registered } := by
        refine ⟨rfl, rfl, rfl, .inl rfl, [.ran .emplace, .emplaced false], ?_, rfl, rfl, ?_⟩
        · simp [CpoState.log]
        · simp [AtomicStep.reports]
      exact ⟨rfl, .running hup (hun.inert hinert) hout rfl (.testing (hbare.inert hinert))⟩
  | @constructed ms hup hsig hbare hstop hcb hcall =>
    obtain ⟨m', ms', rfl⟩ := hcall.eq_cons
    obtain ⟨rfl, rfl⟩ := List.cons.inj (hS.trans (List.cons_append ..))
    -- `_Cancel` is the step of the callback that signals
    by_cases hm : m = .cancel
    · subst hm
      obtain ⟨hout, rfl⟩ := hcall.of_cancel
      have htrail : ∀ m ∈ [AtomicStep.leave, .testStop] ++ [] ++ [], m.trailing = true := by
        simp [AtomicStep.trailing]
      obtain ⟨hctx, hnext, hsig'⟩ :=
        perform_cancel hup hsig hstop hout (by simp [hcb]) htrail
        (fun _ => .inr ⟨_, rfl⟩) he
      rw [hnext]
      exact ⟨hctx, .signalled hsig'⟩
    · obtain ⟨hctx, -, hinert, hcb', hcall'⟩ := hcall.perform hm he
      rw [← List.append_assoc]
      exact ⟨hctx, .constructed hup (hinert.signals.trans hsig) (hbare.inert hinert) hstop
        (hcb'.trans hcb) hcall'⟩
  | running hup hun hout hcb h =>
    subst hS
    -- once the callback is off, no stop comes between and the next step signals
    by_cases hm : m = .reset
    · subst hm
      have hinert := Inert.ran op (m := .reset) rfl op.outstanding .idle
      rw [perform_reset hcb he]
      exact ⟨rfl, .closing hup (hun.inert hinert) hout rfl (h.reset hinert)⟩
    · obtain ⟨hctx, hsteady, h'⟩ := h.starter hm he hf
      exact ⟨hctx, .running hup (hsteady.unreported hun) (hsteady.outstanding.trans hout)
        (hsteady.callback.trans hcb) h'⟩
  | called hup hsig hstop hcb hcall h =>
    subst hS
    -- the reset waits until the callback returns
    have hm : m ≠ .reset := fun hm => hfree hm hcb
    obtain ⟨hctx, hsteady, h'⟩ := h.starter hm he hf
    refine ⟨hctx, .called hup (hsteady.signals.trans hsig) hstop (hsteady.callback.trans hcb) ?_ h'⟩
    rw [hsteady.outstanding]
    exact hcall
  | closing hup hun hout hcb h =>
    cases h with
    | refused hbare hstop =>
      cases hS
      obtain ⟨hctx, hnext, hsig⟩ :=
        perform_cancel (S := []) (P := []) (D := []) hup hun.signals hstop hout
        (by simp [hcb]) (by simp) (by simp [hcb]) he
      rw [hnext]
      exact ⟨hctx, .signalled hsig⟩
    | ended h =>
      cases hS
      obtain ⟨hctx, hnext, hsig⟩ :=
        h.report (S := completeCall) hup hun hout hcb (by simp [completeCall]) he
      rw [hnext]
      exact ⟨hctx, .signalled hsig⟩
    | dispatched h => cases hS
  | @signalled _ P D s h =>
    subst hS
    have hsteps : ∀ m' ∈ (e.next ++ rest) ++ P ++ D, m' ∈ e.next ∨ m' ∈ (m :: rest) ++ P ++ D := by
      intro m' hm'
      simp only [List.mem_append, List.mem_cons] at hm' ⊢
      tauto
    have hcause : Cause up stopped e.op (e.next ++ rest) P D s := by
      cases h.cause with
      | upstream hup hs hdisarmed hnil => cases hnil.1
      | stop hup hstop hs hran => exact .perform_stop hup hstop hs hran he
      | ended hup hfind hs hdisarmed hnil hS hran herror =>
        -- the second report of an operation that was over when it was submitted
        have hm := hS m List.mem_cons_self
        obtain ⟨out, heq⟩ := perform_again hm h.outstanding h.unregistered he
        have hother : ∀ m', OpEvent.ran m' ∈ op.history ++ [.ran m] → m'.reports = true →
            m' ≠ .complete → .ran m' ∈ op.history := by
          intro m' hm' hreports hne
          simp only [List.mem_append, List.mem_singleton, OpEvent.ran.injEq] at hm'
          refine hm'.resolve_right ?_
          rintro rfl
          rcases hm with rfl | rfl
          · cases hreports
          · exact hne rfl
        subst heq
        refine .ended hup ?_ hs hdisarmed hnil (fun m' hm' => hS m' (List.mem_cons_of_mem _ hm')) ?_ ?_
        · simpa [CpoState.log] using hfind
        · exact List.mem_append_left _ hran
        · exact fun e' he' => herror e' (hother _ he' rfl (by simp))
    refine (h.perform (by simp) he hf hsteps (fun hne hexec => ?_) hcause).imp_right .signalled
    refine .inl (hexec.resolve_right ?_)
    rintro ⟨_, heq⟩
    exact hne (List.cons.inj heq).1

theorem Progress.trailing (h : Progress stopped op S D) : ∀ m ∈ S ++ D, m.trailing = true := by
  cases h with
  | testing | refusing | submitting | pending => simp [AtomicStep.trailing]
  | @ended w _ | @dispatched w _ =>
    have hw := report_trailing w
    intro m hm
    simp only [completeCall, List.append_nil, List.nil_append, List.mem_cons, List.not_mem_nil,
      or_false] at hm
    rcases hm with rfl | rfl | rfl | rfl <;> first | rfl | exact hw

/-- **Stopper step**. -/
theorem Stage.stopper (h : Stage up stopped op S (m :: rest) D)
    (he : m.perform stopped env ctx o op = some e) (hf : e.fault = false) :
    e.ctx = ctx ∧ Stage up stopped e.op S (e.next ++ rest) D := by
  cases h with
  | called hup hsig hstop hcb hcall h =>
    by_cases hm : m = .cancel
    · subst hm
      obtain ⟨hout, rfl⟩ := hcall.of_cancel
      -- what the starter and the event loop have left brings the counter below zero
      have htrail : ∀ m ∈ S ++ [.leave] ++ D, m.trailing = true := by
        intro m hm
        simp only [List.mem_append, List.mem_singleton] at hm
        rcases hm with (hm | rfl) | hm
        · exact h.trailing m (List.mem_append_left _ hm)
        · rfl
        · exact h.trailing m (List.mem_append_right _ hm)
      obtain ⟨hctx, hnext, hsig'⟩ :=
        perform_cancel hup hsig hstop hout (by rw [hcb]; exact nofun) htrail (fun _ => .inl rfl) he
      rw [hnext]
      exact ⟨hctx, .signalled hsig'⟩
    · obtain ⟨hctx, -, hinert, hcb', hcall'⟩ := hcall.perform hm he
      exact ⟨hctx, .called hup (hinert.signals.trans hsig) hstop (hcb'.trans hcb) hcall'
        (h.inert hinert)⟩
  | @signalled _ _ _ s h =>
    have hsteps : ∀ m' ∈ S ++ (e.next ++ rest) ++ D, m' ∈ e.next ∨ m' ∈ S ++ (m :: rest) ++ D := by
      intro m' hm'
      simp only [List.mem_append, List.mem_cons] at hm' ⊢
      tauto
    have hcause : Cause up stopped e.op S (e.next ++ rest) D s := by
      cases h.cause with
      | upstream hup hs hdisarmed hnil => cases hnil.2.1
      | stop hup hstop hs hran => exact .perform_stop hup hstop hs hran he
      | ended hup hfind hs hdisarmed hnil => cases hnil.1
    refine (h.perform (by simp) he hf hsteps (fun hne hexec => ?_) hcause).imp_right .signalled
    exact .inr (hexec.resolve_left fun heq => hne (List.cons.inj heq).1)

/-- **Dispatcher step**. -/
theorem Stage.dispatcher (h : Stage up stopped op S P (m :: rest))
    (hfree : m = .reset → op.callback ≠ .executing)
    (he : m.perform stopped env ctx o op = some e) (hf : e.fault = false) :
    e.ctx = ctx ∧ Stage up stopped e.op S P (e.next ++ rest) := by
  cases h with
  | running hup hun hout hcb h =>
    obtain ⟨rfl, rfl, w, hended, rfl⟩ := h.dispatcher
    have hinert := Inert.ran op (m := .reset) rfl op.outstanding .idle
    rw [perform_reset hcb he]
    exact ⟨rfl, .closing hup (hun.inert hinert) hout rfl (.dispatched (hended.inert hinert))⟩
  -- the reset of the event loop waits for the callback too
  | called hup hsig hstop hcb hcall h =>
    exact absurd hcb (hfree h.dispatcher.1)
  | closing hup hun hout hcb h =>
    cases h with
    | dispatched h =>
      obtain ⟨hctx, hnext, hsig⟩ := h.report (S := []) hup hun hout hcb nofun he
      rw [hnext]
      exact ⟨hctx, .signalled hsig⟩
  | @signalled _ _ _ s h =>
    have hsteps : ∀ m' ∈ S ++ P ++ (e.next ++ rest), m' ∈ e.next ∨ m' ∈ S ++ P ++ (m :: rest) := by
      intro m' hm'
      simp only [List.mem_append, List.mem_cons] at hm' ⊢
      tauto
    have hcause : Cause up stopped e.op S P (e.next ++ rest) s := by
      cases h.cause with
      | upstream hup hs hdisarmed hnil => cases hnil.2.2
      | stop hup hstop hs hran => exact .perform_stop hup hstop hs hran he
      | ended hup hfind hs hdisarmed hnil => cases hnil.2
    exact (h.perform (by simp) he hf hsteps (fun _ => id) hcause).imp_right .signalled

/-- An operation that was not submitted has no event. -/
theorem Bare.disarmed (h : Bare op) : op.isArmed = false := by
  simp only [CpoState.isArmed, h.extra]

/-- **Dispatch step**: the event of an operation that has signalled may still be armed, if it was
submitted while the stop callback cancelled it. -/
theorem Stage.ready (h : Stage up stopped op S P []) (harmed : op.isArmed = true)
    (hok : ctx.sockets.Ok) (he : LibeventContext.callback ctx op env = some e)
    (hf : e.fault = false) : Stage up stopped e.op S P e.next := by
  have hbare : ¬ Bare op := fun hbare => by
    rw [hbare.disarmed] at harmed
    cases harmed
  cases h with
  | idle _ _ h | starting _ _ h | emplacing _ _ h | constructed _ _ h => exact absurd h hbare
  | running hup hun hout hcb h =>
    obtain ⟨hsteady, h'⟩ := h.ready harmed hok he hf
    exact .running hup (hsteady.unreported hun) (hsteady.outstanding.trans hout)
      (hsteady.callback.trans hcb) h'
  | called hup hsig hstop hcb hcall h =>
    obtain ⟨hsteady, h'⟩ := h.ready harmed hok he hf
    refine .called hup (hsteady.signals.trans hsig) hstop (hsteady.callback.trans hcb) ?_ h'
    rw [hsteady.outstanding]
    exact hcall
  | closing hup hun hout hcb h =>
    cases h with
    | refused h hstop => exact absurd h hbare
    | ended h =>
      rw [h.disarmed] at harmed
      cases harmed
  | @signalled _ _ _ s h =>
    cases h.cause with
    | upstream _ _ hdisarmed | ended _ _ _ hdisarmed =>
      rw [hdisarmed] at harmed
      cases harmed
    -- `_Work` is run once more, and what it leads to are left-over steps
    | stop hup hstop hs hran =>
      obtain ⟨-, hsteady, hnext⟩ := callback_cases hok he hf
      obtain ⟨m, hm, hreports⟩ := hran
      obtain ⟨added, hadded, -⟩ := hsteady.history
      refine .signalled ⟨hsteady.signals.trans h.signals, ?_, ?_, ?_, ?_,
        .stop hup hstop hs ⟨m, ?_, hreports⟩⟩
      · rw [hsteady.outstanding]
        exact h.outstanding
      · rw [hsteady.callback]
        exact h.unregistered
      · intro m' hm'
        rcases List.mem_append.mp hm' with hm' | hm'
        · exact h.trailing m' (by rw [List.append_nil]; exact hm')
        · rcases hnext with ⟨hnext, -⟩ | ⟨w, hnext, -⟩
          · rw [hnext] at hm'
            cases hm'
          · rw [hnext] at hm'
            simp only [List.mem_cons, List.not_mem_nil, or_false] at hm'
            rcases hm' with rfl | rfl
            · rfl
            · exact report_trailing w
      · rw [hsteady.callback]
        exact h.executing
      · rw [hadded]
        exact List.mem_append_left _ hm

/-! ## The other steps -/

theorem Inert.ran_mono (h : Inert op op') (hran : .ran m ∈ op.history) : .ran m ∈ op'.history := by
  obtain ⟨added, hadded, -⟩ := h.history
  rw [hadded]
  exact List.mem_append_left _ hran

/-- Entries that say nothing do not matter to the invariant. -/
theorem Stage.inert (h : Stage up stopped op S P D) (hi : Inert op op')
    (hout : op'.outstanding = op.outstanding) (hcb : op'.callback = op.callback) :
    Stage up stopped op' S P D := by
  cases h with
  | idle hup hun hbare ho hc =>
    exact .idle hup (hun.inert hi) (hbare.inert hi) (hout.trans ho) (hcb.trans hc)
  | starting hup hun hbare ho hc =>
    exact .starting hup (hun.inert hi) (hbare.inert hi) (hout.trans ho) (hcb.trans hc)
  | emplacing hup hun hbare ho hc =>
    exact .emplacing hup (hun.inert hi) (hbare.inert hi) (hout.trans ho) (hcb.trans hc)
  | constructed hup hsig hbare hstop hc hcall =>
    exact .constructed hup (hi.signals.trans hsig) (hbare.inert hi) hstop (hcb.trans hc)
      (hout ▸ hcall)
  | running hup hun ho hc h =>
    exact .running hup (hun.inert hi) (hout.trans ho) (hcb.trans hc) (h.inert hi)
  | called hup hsig hstop hc hcall h =>
    exact .called hup (hi.signals.trans hsig) hstop (hcb.trans hc) (hout ▸ hcall) (h.inert hi)
  | closing hup hun ho hc h =>
    refine .closing hup (hun.inert hi) (hout.trans ho) (hcb.trans hc) ?_
    cases h with
    | refused h hstop => exact .refused (h.inert hi) hstop
    | ended h => exact .ended (h.inert hi)
    | dispatched h => exact .dispatched (h.inert hi)
  | @signalled _ _ _ s h =>
    have hcause : Cause up stopped op' S P D s := by
      cases h.cause with
      | upstream hup hs hdisarmed hnil => exact .upstream hup hs (hi.disarmed hdisarmed) hnil
      | stop hup hstop hs hran =>
        obtain ⟨m, hm, hreports⟩ := hran
        exact .stop hup hstop hs ⟨m, hi.ran_mono hm, hreports⟩
      | ended hup hfind hs hdisarmed hnil hS hran herror =>
        exact .ended hup (hi.findings.trans hfind) (hi.desc ▸ hs) (hi.disarmed hdisarmed) hnil hS
          (hi.ran_mono hran) fun e he => herror e (hi.ran_of_reports rfl he)
    exact .signalled ⟨hi.signals.trans h.signals, hout ▸ h.outstanding, hcb ▸ h.unregistered,
      h.trailing, fun hexec => h.executing (hcb ▸ hexec), hcause⟩

/-- An exception that escapes from a step leaves the operation as it was. -/
theorem Stage.perform_fault (h : Stage up stopped op S P D)
    (he : m.perform stopped env ctx o op = some e) (hf : e.fault = true) :
    Stage up stopped e.op S P D := by
  obtain ⟨-, hop⟩ := refused_of_fault he hf
  rw [hop]
  refine h.inert ⟨rfl, rfl, rfl, .inl rfl, [.ran .submit, .refused], ?_, rfl, rfl, ?_⟩ rfl rfl
  · simp [CpoState.log]
  · simp [AtomicStep.reports]

theorem Stage.ready_fault (h : Stage up stopped op S P D)
    (he : LibeventContext.callback ctx op env = some e) (hf : e.fault = true) :
    Stage up stopped e.op S P D := by
  rw [stray_of_fault he hf]
  refine h.inert ⟨rfl, rfl, rfl, .inr rfl, [.dispatched, .stray], ?_, rfl, ?_, ?_⟩ rfl rfl
  · simp [CpoState.log, disarm]
  · simp
  · simp

/-- A stop may be requested at any time. -/
theorem Stage.requestStop (h : Stage up stopped op S P D) : Stage up true op S P D := by
  cases h with
  | idle hup hun hbare hout hcb => exact .idle hup hun hbare hout hcb
  | starting hup hun hbare hout hcb => exact .starting hup hun hbare hout hcb
  | emplacing hup hun hbare hout hcb => exact .emplacing hup hun hbare hout hcb
  | constructed hup hsig hbare hstop hcb hcall => exact .constructed hup hsig hbare rfl hcb hcall
  | running hup hun hout hcb h =>
    refine .running hup hun hout hcb ?_
    cases h with
    | testing h => exact .testing h
    | refusing h _ => exact .refusing h rfl
    | submitting h => exact .submitting h
    | pending h => exact .pending h
    | ended h => exact .ended h
    | dispatched h => exact .dispatched h
  | called hup hsig hstop hcb hcall h =>
    subst hstop
    exact .called hup hsig rfl hcb hcall h
  | closing hup hun hout hcb h =>
    refine .closing hup hun hout hcb ?_
    cases h with
    | refused h _ => exact .refused h rfl
    | ended h => exact .ended h
    | dispatched h => exact .dispatched h
  | @signalled _ _ _ s h =>
    refine .signalled ⟨h.signals, h.outstanding, h.unregistered, h.trailing, h.executing, ?_⟩
    cases h.cause with
    | upstream hup hs hdisarmed hnil => exact .upstream hup hs hdisarmed hnil
    | stop hup _ hs hran => exact .stop hup rfl hs hran
    | ended hup hfind hs hdisarmed hnil hS hran herror =>
      exact .ended hup hfind hs hdisarmed hnil hS hran herror

/-- The stop source calls the callback; the operation may just be under submission, or its end about
to be reported. -/
theorem Stage.callback (h : Stage up stopped op S [] D) (hstop : stopped = true)
    (hcb : op.callback = .registered) :
    Stage up stopped { op with callback := .executing } S callbackCall D := by
  cases h with
  | running hup hun hout _ h =>
    have hinert : Inert op { op with callback := .executing } :=
      ⟨rfl, rfl, rfl, .inl rfl, [], by simp, rfl, rfl, nofun⟩
    refine .called hup hun.signals hstop rfl ?_ (h.inert hinert)
    show Called op.outstanding callbackCall
    rw [hout]
    exact .entering
  | idle _ _ _ _ h | starting _ _ _ _ h | emplacing _ _ _ _ h | constructed _ _ _ _ h
  | called _ _ _ h | closing _ _ _ h =>
    rw [h] at hcb
    cases hcb
  | signalled h => exact absurd hcb h.unregistered

/-- Before the upstream sender completes, nothing runs on the operation. -/
theorem Stage.of_none (h : Stage none stopped op S P D) :
    S = [] ∧ P = [] ∧ D = [] ∧ Unreported op ∧ Bare op ∧ op.outstanding = 0 ∧
      op.callback = .idle := by
  cases h with
  | idle _ hun hbare hout hcb => exact ⟨rfl, rfl, rfl, hun, hbare, hout, hcb⟩
  | starting h | emplacing h | constructed h | running h | called h | closing h => cases h
  | signalled h =>
    cases h.cause with
    | upstream h | stop h | ended h => cases h

/-- The receiver was not signalled, or as `Signalled` says. -/
theorem Stage.signals_cases (h : Stage up stopped op S P D) :
    signals op.history = [] ∨ ∃ s, Signalled up stopped op S P D s := by
  cases h with
  | idle _ hun | starting _ hun | emplacing _ hun | running _ hun | closing _ hun =>
    exact .inl hun.signals
  | constructed _ hsig | called _ hsig => exact .inl hsig
  | signalled h => exact .inr ⟨_, h⟩

/-- An operation that has not signalled when all steps were run was not started, or it is pending
and its callback is registered. -/
theorem Stage.unsignalled (h : Stage up stopped op S P D) (hS : S = []) (hP : P = []) (hD : D = [])
    (hsig : signals op.history = []) :
    Unreported op ∧ (up = none ∨
      up = some .value ∧ op.callback = .registered ∧ findings op.desc op.history = []) := by
  cases h with
  | idle hup hun => exact ⟨hun, .inl hup⟩
  | starting | emplacing => cases hS
  | constructed => exact absurd hS (List.append_ne_nil_of_right_ne_nil _ (List.cons_ne_nil _ _))
  | running hup hun hout hcb h =>
    refine ⟨hun, .inr ⟨hup, hcb, ?_⟩⟩
    cases h with
    | pending h => exact h
    | testing | refusing | submitting | ended => cases hS
    | dispatched => cases hD
  | called _ _ _ _ hcall =>
    obtain ⟨m, rest, heq⟩ := hcall.eq_cons
    rw [hP] at heq
    cases heq
  | closing _ _ _ _ h =>
    cases h with
    | refused | ended => cases hS
    | dispatched => cases hD
  | signalled h =>
    rw [h.signals] at hsig
    cases hsig

namespace Race

/-- What holds in every state of every order of the steps. -/
structure RunInv (w : Race) : Prop where
  stage : Stage w.upstream w.stopped w.op w.starter w.stopper w.dispatcher
  ok : w.ctx.sockets.Ok
  /-- a stop request that finds the callback registered has not returned -/
  request : w.op.callback = .registered → w.stopped = true → w.stopping = true
  stopped : w.stopping = true → w.stopped = true

theorem RunInv.arrive {w : Race} (h : RunInv w) (hup : w.upstream = none) (u : UpstreamEnd) :
    RunInv (w.arrive u) := by
  have hstage := h.stage
  rw [hup] at hstage
  -- the starter has not run, so an error or a stop is passed on with nothing else going on
  obtain ⟨hS, hP, hD, hun, hbare, hout, hcb⟩ := hstage.of_none
  have hsignal : ∀ s, u.signal? = some s →
      Stage (some u) w.stopped (w.op.log (.signalled s)) w.starter w.stopper w.dispatcher := by
    intro s hs
    rw [hS, hP, hD]
    refine .signalled (s := s) ⟨?_, hout.le, ?_, by simp, ?_, .upstream rfl hs ?_ ⟨rfl, rfl, rfl⟩⟩
    · simp [CpoState.log, hun.signals]
    · show w.op.callback ≠ .registered
      simp [hcb]
    · show w.op.callback = .executing → _
      simp [hcb]
    · exact hbare.disarmed
  cases u with
  | value =>
    refine ⟨?_, h.ok, h.request, h.stopped⟩
    show Stage (some .value) w.stopped w.op startCall w.stopper w.dispatcher
    rw [hP, hD]
    exact .starting rfl hun hbare hout hcb
  | error e => exact ⟨hsignal _ rfl, h.ok, h.request, h.stopped⟩
  | stopped => exact ⟨hsignal _ rfl, h.ok, h.request, h.stopped⟩

/-- A step that a party runs. -/
theorem RunInv.perform {w : Race} (h : RunInv w) {p : Party} {m : AtomicStep}
    {rest : List AtomicStep}
    {env : Env} {e : Effect LibeventContext} (hsteps : w.steps p = m :: rest)
    (hfree : m = .reset → w.op.callback ≠ .executing)
    (he : m.perform w.stopped env w.ctx 0 w.op = some e) : RunInv (w.apply p rest e) := by
  have hrequest : e.op.callback = .registered → w.stopped = true → w.stopping = true := by
    intro hcb hstop
    -- a callback is registered only where no stop was requested
    rcases (perform_kept he).callback hcb with hcb | hnot
    · exact h.request hcb hstop
    · rw [hstop] at hnot
      cases hnot
  cases hf : e.fault with
  | true =>
    simp only [apply, hf, if_true]
    exact ⟨h.stage.perform_fault he hf, h.ok, hrequest, h.stopped⟩
  | false =>
    have hstage := h.stage
    have hok : e.ctx = w.ctx → e.ctx.sockets.Ok := fun hctx => hctx ▸ h.ok
    simp only [apply, hf, Bool.false_eq_true, if_false]
    cases p with
    | starter =>
      rw [show w.starter = m :: rest from hsteps] at hstage
      obtain ⟨hctx, hstage⟩ := hstage.starter hfree he hf
      exact ⟨hstage, hok hctx, hrequest, h.stopped⟩
    | stopper =>
      rw [show w.stopper = m :: rest from hsteps] at hstage
      obtain ⟨hctx, hstage⟩ := hstage.stopper he hf
      exact ⟨hstage, hok hctx, hrequest, h.stopped⟩
    | dispatcher =>
      rw [show w.dispatcher = m :: rest from hsteps] at hstage
      obtain ⟨hctx, hstage⟩ := hstage.dispatcher hfree he hf
      exact ⟨hstage, hok hctx, hrequest, h.stopped⟩

/-- A readiness indication that the event loop delivers. -/
theorem RunInv.ready {w : Race} (h : RunInv w) {env : Env} {e : Effect LibeventContext}
    (hsteps : w.dispatcher = []) (harmed : w.op.isArmed = true)
    (he : LibeventContext.callback w.ctx w.op env = some e) :
    RunInv (w.apply .dispatcher [] e) := by
  have hrequest : e.op.callback = .registered → w.stopped = true → w.stopping = true := by
    rw [(callback_silent he).callback]
    exact h.request
  have hstage := h.stage
  rw [hsteps] at hstage
  cases hf : e.fault with
  | true =>
    simp only [apply, hf, if_true]
    exact ⟨by simpa only [hsteps] using hstage.ready_fault he hf, h.ok, hrequest, h.stopped⟩
  | false =>
    simp only [apply, hf, Bool.false_eq_true, if_false]
    refine ⟨?_, (callback_cases h.ok he hf).1, hrequest, h.stopped⟩
    show Stage w.upstream w.stopped e.op w.starter w.stopper (e.next ++ [])
    rw [List.append_nil]
    exact hstage.ready harmed h.ok he hf

/-- **Step lemma**: every step keeps the invariant. -/
theorem RunInv.step {w w' : Race} {l : RaceLabel} (h : RunInv w) (hstep : w.step l = some w') :
    RunInv w' := by
  cases step_cases hstep with
  | upstream hup => exact h.arrive hup _
  | requestAgain => exact h
  | requestStop => exact ⟨h.stage.requestStop, h.ok, fun _ _ => rfl, fun _ => rfl⟩
  | callback hstopping hsteps hcb =>
    have hstage := h.stage
    rw [hsteps] at hstage
    exact ⟨hstage.callback (h.stopped hstopping) hcb, h.ok, nofun, h.stopped⟩
  | stopDone _ _ hcb => exact ⟨h.stage, h.ok, fun hreg => absurd hreg hcb, nofun⟩
  | perform hsteps hfree he => exact h.perform hsteps hfree he
  | ready hsteps harmed he => exact h.ready hsteps harmed he
  | makeSocket hfresh hmake =>
    exact ⟨h.stage, (Table.Extends.of_makeSocket h.ok hfresh hmake).ok, h.request, h.stopped⟩
  | released hrelease =>
    obtain ⟨r, -, hok, -⟩ := Table.release_cases h.ok hrelease
    exact ⟨h.stage, hok, h.request, h.stopped⟩
  | notReleased => exact h

/-- **Run lemma**: so does every order of the steps. -/
theorem RunInv.run {d : Desc} {token : Source} {ls : List RaceLabel} {w : Race}
    (hrun : run (initial d token) ls = some w) : RunInv w := by
  refine StepMachine.run_invariant Race.step (fun _ _ _ => RunInv.step) ?_ hrun
  exact ⟨.idle rfl ⟨rfl, nofun⟩ ⟨rfl, rfl⟩ rfl rfl, Table.ok_empty, nofun, nofun⟩

/-! ## The signals -/

/-- No party has a step left to run, and no `request_stop` is being executed. -/
def Finished (w : Race) : Prop :=
  w.starter = [] ∧ w.stopper = [] ∧ w.dispatcher = [] ∧ w.stopping = false

/-- An outcome was reported to the operation: by its upstream sender, which did not complete with a
value, or by `_Complete`, `_Error` or `_Cancel`. -/
def Reported (w : Race) : Prop :=
  (∃ u s, w.upstream = some u ∧ u.signal? = some s) ∨ ∃ m, .ran m ∈ w.op.history ∧ m.reports = true

/-- When all steps were run, the receiver was signalled if and only if an outcome was reported. -/
theorem RunInv.finished {w : Race} (h : RunInv w) (hfin : w.Finished) :
    signals w.op.history ≠ [] ↔ w.Reported := by
  obtain ⟨hS, hP, hD, -⟩ := hfin
  constructor
  · intro hne
    obtain ⟨s, hs⟩ := h.stage.signals_cases.resolve_left hne
    cases hs.cause with
    | upstream hup hu => exact .inl ⟨_, s, hup, hu⟩
    | stop _ _ _ hran => exact .inr hran
    | ended _ _ _ _ _ _ hran => exact .inr ⟨_, hran, report_reports _⟩
  · intro hreported hsig
    obtain ⟨hun, hup⟩ := h.stage.unsignalled hS hP hD hsig
    rcases hreported with ⟨u, s, hu, hs⟩ | ⟨m, hm, hreports⟩
    · rcases hup with hup | ⟨hup, -⟩
      · rw [hup] at hu
        cases hu
      · rw [hup] at hu
        cases hu
        cases hs
    · rw [hun.steps m hm] at hreports
      cases hreports

/-- When all steps were run, an operation that was started has signalled its receiver if a stop was
requested or a result ended it. -/
theorem RunInv.settled {w : Race} (h : RunInv w) (hfin : w.Finished)
    (hup : w.upstream = some .value)
    (hend : w.stopped = true ∨ findings w.op.desc w.op.history ≠ []) :
    signals w.op.history ≠ [] := by
  intro hsig
  obtain ⟨hS, hP, hD, hdone⟩ := hfin
  obtain ⟨-, hnone | ⟨-, hcb, hfind⟩⟩ := h.stage.unsignalled hS hP hD hsig
  · rw [hnone] at hup
    cases hup
  · rcases hend with hstop | hne
    · -- the request would not have returned
      rw [h.request hcb hstop] at hdone
      cases hdone
    · exact hne hfind

/-- The results that end an operation with a value: not an error. -/
theorem reports_value {d : Desc} {w : WorkEnd} {v : Value} (h : Reports d w (.value v))
    (e : ErrorCode) : w ≠ .error e := by
  rintro rfl
  cases h

/-- **One signal**: whatever the upstream sender and the system calls return and in whatever order
the starter, the stop request and the event loop run their steps,

- the receiver is signalled at most once;
- when no step is left to be run, it was signalled exactly once if an outcome was reported to the
  operation, and not at all otherwise; an operation that was started and stopped, or ended by a
  result of its submission or of its `_Work`, is among those with a report;
- it was signalled `set_stopped` only if the upstream sender was stopped or a stop was requested;
- it was signalled `set_value` only if the upstream sender completed with a value, `_Error` was
  never called, and a single result ended the operation, whose value it was sent;
- it was signalled `set_error` only with an error of the upstream sender or the one that ended the
  operation. -/
theorem signalled_once {d : Desc} {token : Source} {ls : List RaceLabel} {w : Race}
    (hrun : run (initial d token) ls = some w) :
    (signals w.op.history).length ≤ 1 ∧
    (w.Finished →
      ((signals w.op.history).length = 1 ↔ w.Reported) ∧
      (w.upstream = some .value → w.stopped = true ∨ findings w.op.desc w.op.history ≠ [] →
        (signals w.op.history).length = 1)) ∧
    (.stopped ∈ signals w.op.history → w.upstream = some .stopped ∨ w.stopped = true) ∧
    (∀ v, .value v ∈ signals w.op.history →
      w.upstream = some .value ∧ (∀ e, .ran (.error e) ∉ w.op.history) ∧
        ∃ n, findings w.op.desc w.op.history = [n] ∧ Reports w.op.desc n (.value v)) ∧
    (∀ e, .error e ∈ signals w.op.history →
      w.upstream = some (.error e) ∨ findings w.op.desc w.op.history = [.error e]) := by
  have h : RunInv w := .run hrun
  have hlen : (signals w.op.history).length ≤ 1 := by
    rcases h.stage.signals_cases with hnil | ⟨s, hs⟩
    · simp [hnil]
    · simp [hs.signals]
  have hone : (signals w.op.history).length = 1 ↔ signals w.op.history ≠ [] := by
    rw [ne_eq, ← List.length_eq_zero_iff]
    omega
  have hcause : ∀ s ∈ signals w.op.history,
      Cause w.upstream w.stopped w.op w.starter w.stopper w.dispatcher s := by
    intro s hs
    obtain ⟨s', hs'⟩ := h.stage.signals_cases.resolve_left (List.ne_nil_of_mem hs)
    rw [hs'.signals, List.mem_singleton] at hs
    exact hs ▸ hs'.cause
  refine ⟨hlen, fun hfin => ⟨?_, fun hup hend => ?_⟩, fun hs => ?_, fun v hv => ?_, fun e he => ?_⟩
  · rw [hone]
    exact h.finished hfin
  · rw [hone]
    exact h.settled hfin hup hend
  · cases hcause _ hs with
    | @upstream u hup hu =>
      cases u <;> cases hu
      exact .inl hup
    | stop _ hstop => exact .inr hstop
    | ended _ _ hreports => exact absurd hreports not_reports_stopped
  · cases hcause _ hv with
    | @upstream u hup hu => cases u <;> cases hu
    | stop _ _ hs => cases hs
    | @ended n hup hfind hreports _ _ _ _ herror =>
      exact ⟨hup, fun e he => reports_value hreports e (herror e he), n, hfind, hreports⟩
  · cases hcause _ he with
    | @upstream u hup hu =>
      cases u <;> cases hu
      exact .inl hup
    | stop _ _ hs => cases hs
    | ended _ hfind hreports => exact .inr (hreports.eq_error ▸ hfind)

/-- A receive is submitted while its stop callback is being executed, and becomes ready after it was
stopped. -/
def submitWhileStopped : List RaceLabel :=
  [.makeSocket 7, .upstream .value, .perform .starter {}, .perform .starter {}, .perform .starter {},
    .requestStop, .callback, .perform .stopper {}, .perform .stopper {}, .perform .starter {},
    .ready { results := [.ok 3] }, .perform .stopper {}, .perform .stopper {}, .perform .stopper {},
    .perform .dispatcher {}, .perform .dispatcher {}, .stopDone]

/-- The counter goes below zero, and the receiver is signalled once. -/
theorem signalled_once_submitWhileStopped : ∃ w,
    run (initial (.receive 0) 0) submitWhileStopped = some w ∧ w.Finished ∧ w.op.outstanding = -1 ∧
      (signals w.op.history).length = 1 := by
  have hrun : ∃ w, run (initial (.receive 0) 0) submitWhileStopped = some w ∧ w.Finished ∧
      w.op.outstanding = -1 ∧ .ran .cancel ∈ w.op.history :=
    ⟨_, rfl, ⟨rfl, rfl, rfl, rfl⟩, rfl, by decide⟩
  obtain ⟨w, hrun, hfin, hout, hran⟩ := hrun
  exact ⟨w, hrun, hfin, hout, ((signalled_once hrun).2.1 hfin).1.mpr (.inr ⟨.cancel, hran, rfl⟩)⟩

end Race

/-! ## No deadlock -/

/-- Every step can be run, whatever the system calls return. -/
theorem perform_some (m : AtomicStep) (stopped : Bool) (env : Env) (ctx : LibeventContext)
    (o : OpId) (op : CpoState) : ∃ e, m.perform stopped env ctx o op = some e := by
  cases m with
  | emplace =>
    simp only [AtomicStep.perform, AtomicStep.exec]
    split <;> exact ⟨_, rfl⟩
  | _ => exact ⟨_, rfl⟩

/-- A stop callback that is executed has a next step, and it is not one that waits for the
callback. -/
theorem Stage.executing (h : Stage up stopped op S P D) (hcb : op.callback = .executing) :
    (∃ m rest, P = m :: rest ∧ m ≠ .reset) ∨ ∃ m rest, S = m :: rest ∧ m ≠ .reset := by
  cases h with
  | idle _ _ _ _ h | starting _ _ _ _ h | emplacing _ _ _ _ h | running _ _ _ h | closing _ _ _ h =>
    rw [h] at hcb
    cases hcb
  | constructed _ _ _ _ _ hcall =>
    obtain ⟨m, rest, rfl⟩ := hcall.eq_cons
    exact .inr ⟨m, rest ++ [.testStop], rfl, hcall.ne_reset⟩
  | called _ _ _ _ hcall =>
    obtain ⟨m, rest, rfl⟩ := hcall.eq_cons
    exact .inl ⟨m, rest, rfl, hcall.ne_reset⟩
  | signalled h =>
    rcases h.executing hcb with rfl | ⟨rest, rfl⟩
    · exact .inl ⟨.leave, [], rfl, nofun⟩
    · exact .inr ⟨.leave, rest, rfl, nofun⟩

namespace Race

theorem step_perform {w : Race} (hc : w.crashed = false) {p : Party} {m : AtomicStep}
    {rest : List AtomicStep} (hsteps : w.steps p = m :: rest)
    (hfree : m = .reset → w.op.callback ≠ .executing) (env : Env) :
    ∃ w', w.step (.perform p env) = some w' := by
  obtain ⟨e, he⟩ := perform_some m w.stopped env w.ctx 0 w.op
  have hwaits : w.waits m = false := by
    simpa only [waits, decide_eq_false_iff_not, not_and] using hfree
  refine ⟨w.apply p rest e, ?_⟩
  simp only [step, hc, hsteps, hwaits, he, Option.map_some, Bool.false_eq_true, if_false]

/-- **No deadlock**: as long as a party has steps to run or `request_stop` has not returned, one of
the parties can run its next step, or the stop source can go on. -/
theorem step_of_unfinished {d : Desc} {token : Source} {ls : List RaceLabel} {w : Race}
    (hrun : run (initial d token) ls = some w) (hc : w.crashed = false) (hfin : ¬ w.Finished)
    (env : Env) :
    (∃ p w', w.step (.perform p env) = some w') ∨ (∃ w', w.step .callback = some w') ∨
      ∃ w', w.step .stopDone = some w' := by
  have h : RunInv w := .run hrun
  by_cases hexec : w.op.callback = .executing
  · rcases h.stage.executing hexec with ⟨m, rest, hsteps, hm⟩ | ⟨m, rest, hsteps, hm⟩
    · exact .inl ⟨.stopper, step_perform (p := .stopper) hc hsteps (fun heq => absurd heq hm) env⟩
    · exact .inl ⟨.starter, step_perform (p := .starter) hc hsteps (fun heq => absurd heq hm) env⟩
  by_cases hnil : ∀ p, w.steps p = []
  · have hstopping : w.stopping = true := by
      by_contra hnot
      exact hfin ⟨hnil .starter, hnil .stopper, hnil .dispatcher, by simpa using hnot⟩
    have hstopper : w.stopper = [] := hnil .stopper
    simp only [step, hc, Bool.false_eq_true, if_false]
    right
    by_cases hcb : w.op.callback = .registered
    · exact .inl ⟨_, if_pos ⟨hstopping, hstopper, hcb⟩⟩
    · exact .inr ⟨_, if_pos ⟨hstopping, hstopper, hcb⟩⟩
  · obtain ⟨p, hp⟩ := not_forall.mp hnil
    obtain ⟨m, rest, hsteps⟩ := List.exists_cons_of_ne_nil hp
    exact .inl ⟨p, step_perform hc hsteps (fun _ => hexec) env⟩

end Race

end LibeventContext

end Stdnet
