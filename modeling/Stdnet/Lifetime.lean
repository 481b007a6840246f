import Stdnet.LibeventRuns

/-!
# Use of an Operation after its Completion

When a receiver is signalled, its owner may destroy the operation. On the libevent context nothing
uses a signalled operation whose completion was left to the event loop. When the completion happens
inside `_Start` instead, because a stop was requested before or because the submission ended the
operation at once, the rest of `_Start` still resets the stop callback and decrements the counter
to −1: the second decrement hides the double completion from the receiver, not the access.

## Main results

- `Reachable.untouched`: an operation that is left to the event loop is not used after its signal.
- `Reachable.first_late`: the first use after the signal comes before the event loop is entered
  again.
- `untouched_iff_deferred`: no other operation has that property once `_Start` has returned.
- `Reachable.alone`: while such an operation is completed no other function is executing.
-/

namespace Stdnet

namespace LibeventContext

open ListEntries History World

/-- Nothing used the operation after its receiver was signalled, its counter did not go below zero
and no event is armed for it. -/
structure Untouched (op : CpoState) : Prop where
  late : late op.history = []
  outstanding : 0 ≤ op.outstanding
  disarmed : signals op.history ≠ [] → op.isArmed = false

variable {t : Table} {stopped : Bool} {w : LibeventWorld} {o : OpId} {op : CpoState}

theorem untouched_of_signals_nil (hs : signals op.history = []) (hout : 0 ≤ op.outstanding) :
    Untouched op where
  late := late_of_signals_nil hs
  outstanding := hout
  disarmed hne := absurd hs hne

theorem Done.untouched_iff {s : Signal} {fs : List AtomicStep} (h : Done stopped op s)
    (hfs : Leftover stopped op fs) (hdef : Deferred op.desc op.history ∨ fs = []) :
    Untouched op ↔ Deferred op.desc op.history := by
  cases hfs with
  | clean hdef' hlate hout _ =>
    exact iff_of_true ⟨hlate, hout.ge, fun _ => h.disarmed⟩ hdef'
  | early hdef' hout hfs =>
    rcases hdef with hdef | rfl
    · exact absurd hdef hdef'
    · rcases hfs with ⟨-, hfs | hfs⟩ | hfs | hfs <;> cases hfs
  | late hdef' hlate _ => exact iff_of_false (fun hu => hlate hu.late) hdef'

/-- In every phase an operation whose completion is deferred is untouched, and when no step is left
to be run only such an operation is. -/
theorem Phase.untouched_iff {fs : List AtomicStep} (h : Phase t stopped op fs)
    (hdef : Deferred op.desc op.history ∨ fs = []) :
    Untouched op ↔ Deferred op.desc op.history := by
  -- before the signal both sides hold, once no step is left
  have hopen : signals op.history = [] → 0 ≤ op.outstanding →
      (fs = [] → Deferred op.desc op.history) →
      (Untouched op ↔ Deferred op.desc op.history) := fun hs hout hnil =>
    iff_of_true (untouched_of_signals_nil hs hout) (hdef.elim (fun h => h) hnil)
  cases h with
  | starting h | emplacing h | testing h | submitting h =>
    exact hopen h.signals (by simp [h.outstanding]) nofun
  | pending h => exact hopen h.signals (by simp [h.outstanding]) fun _ => h.deferred
  | entering h | cancelling h | cancelled h | stopping h | ending h | reporting h =>
    exact hopen h.signals (by simp [h.outstanding]) nofun
  | done h hfs => exact h.untouched_iff hfs hdef

theorem Dropped.untouched (h : Dropped op) : Untouched op :=
  untouched_of_signals_nil h.signals (by simp [h.outstanding])

/-- **Lifetime**: in every reachable state, an operation that was started with no stop requested and
that its submission left pending has not been used after its completion. -/
theorem Reachable.untouched (h : Reachable w) (hop : w.ops[o]? = some op)
    (hdef : Deferred op.desc op.history) : Untouched op := by
  rcases h.inv.phase o op hop with hphase | ⟨-, hdropped⟩
  · exact (hphase.untouched_iff (.inl hdef)).mpr hdef
  · exact hdropped.untouched

/-- When no function is executing on an operation and nothing touched it after its completion, its
completion was deferred. -/
theorem Reachable.deferred_of_untouched (h : Reachable w) (hop : w.ops[o]? = some op)
    (hrest : frames o w.todo = []) (hu : Untouched op) : Deferred op.desc op.history := by
  rcases h.inv.phase o op hop with hphase | ⟨-, hdropped⟩
  · exact (hphase.untouched_iff (.inr hrest)).mp hu
  · exact hdropped.deferred

/-- **Exactness**: once no function is executing on an operation, nothing has used it after its
completion if and only if no stop was requested when it was started and its submission left it
pending. In every state before that the condition is enough. -/
theorem untouched_iff_deferred {w : LibeventWorld} (h : Reachable w) {o : OpId} {op : CpoState}
    (hop : w.ops[o]? = some op) :
    (Deferred op.desc op.history → Untouched op) ∧
      (frames o w.todo = [] → (Untouched op ↔ Deferred op.desc op.history)) :=
  ⟨h.untouched hop, fun hrest => ⟨h.deferred_of_untouched hop hrest, h.untouched hop⟩⟩

/-- The run of a timer that is stopped while it is pending. -/
def stopWhilePending : List Label :=
  [.start (.resumeAfter 5) 0, .perform {}, .perform {}, .perform {}, .perform {}, .requestStop 0,
    .callback 0, .perform {}, .perform {}, .perform {}, .perform {}, .userReturn, .perform {},
    .stopDone]

/-- A timer stopped while it is pending is not used after `set_stopped`. -/
theorem untouched_iff_deferred_pending : ∃ w op, World.run initial stopWhilePending = some w ∧
    w.ops[0]? = some op ∧ signals op.history = [.stopped] ∧
      (Untouched op ↔ Deferred op.desc op.history) :=
  ⟨_, _, rfl, rfl, rfl,
    (untouched_iff_deferred (o := 0) ⟨stopWhilePending, rfl⟩ rfl).2 rfl⟩

/-- The run of a timer that is started after the stop was requested. -/
def stopBeforeStart : List Label :=
  [.requestStop 0, .stopDone, .start (.resumeAfter 5) 0, .perform {}, .perform {}, .perform {},
    .perform {}, .perform {}, .perform {}, .userReturn, .perform {}, .perform {}, .perform {},
    .perform {}]

/-- A timer started after the stop was requested is used after `set_stopped`, and its counter ends
at −1. -/
theorem not_untouched : ¬ ∀ (w : LibeventWorld) (o : OpId) (op : CpoState),
    Reachable w → w.ops[o]? = some op → Untouched op := by
  intro h
  have hu := h _ 0 _ ⟨stopBeforeStart, rfl⟩ rfl
  exact absurd hu.outstanding (by decide)

/-! ## The first use after the signal -/

/-- When no function is executing on an operation that was not used after its signal, its completion
was deferred. -/
theorem Reachable.deferred_of_late_nil (h : Reachable w) (hop : w.ops[o]? = some op)
    (hrest : frames o w.todo = []) (hlate : late op.history = []) :
    Deferred op.desc op.history := by
  rcases h.inv.phase o op hop with hphase | ⟨-, hdropped⟩
  · rw [hrest] at hphase
    cases hphase with
    | pending h => exact h.deferred
    | done h hfs =>
      cases hfs with
      | clean hdef _ _ _ => exact hdef
      | early _ _ hfs => rcases hfs with ⟨-, hfs | hfs⟩ | hfs | hfs <;> cases hfs
      | late _ hne _ => exact absurd hlate hne
  · exact hdropped.deferred

/-- The first step that uses a signalled operation is not the last one that `_Start` runs on it. -/
theorem Leftover.first_late {s : Signal} {m : AtomicStep} {rest : List AtomicStep} {env : Env}
    {ctx : LibeventContext} {e : Effect LibeventContext} (h : Done stopped op s)
    (hfs : Leftover stopped op (m :: rest)) (he : m.perform stopped env ctx o op = some e)
    (hnil : History.late op.history = []) (hne : History.late e.op.history ≠ []) : rest ≠ [] := by
  have hsig : signals op.history ≠ [] := by simp [h.signals]
  -- neither the return of the callback nor the test of the token uses the operation
  have huntouched : ∀ m', m'.touches = false → History.late (op.history ++ [.ran m']) = [] := by
    intro m' hm'
    rw [late_append_of_signalled hsig, hnil]
    simp [touch, hm']
  cases hfs with
  | clean _ _ _ hfs =>
    rcases hfs with hfs | hfs <;> cases hfs
    obtain rfl := Option.some.inj he
    exact absurd (huntouched .leave rfl) hne
  | early _ _ hfs =>
    rcases hfs with ⟨-, hfs | hfs⟩ | hfs | hfs <;> cases hfs
    · exact List.cons_ne_nil _ _
    · obtain rfl := Option.some.inj he
      exact absurd (huntouched .testStop rfl) hne
    · exact List.cons_ne_nil _ _
    · exact List.cons_ne_nil _ _
  | late _ hlate _ => exact absurd hnil hlate

/-- A step after which an operation has been used after its signal for the first time is one inside
`_Start`, which goes on to use it. -/
theorem Reachable.first_late (h : Reachable w) {l : Label} {w' : LibeventWorld} {op' : CpoState}
    (hstep : w.step l = some w') (hop : w.ops[o]? = some op) (hop' : w'.ops[o]? = some op')
    (hnil : late op.history = []) (hne : late op'.history ≠ []) : w'.todo ≠ [] := by
  obtain ⟨hc, -⟩ := step_cases hstep
  obtain ⟨x, hx, hcases⟩ := step_op_cases hstep hop
  cases hx.symm.trans hop'
  cases hcases with
  | same | callback => exact absurd hnil hne
  | ready htodo hreg he =>
    -- an operation that is registered has not signalled, and the context signals nothing
    have hs : signals op.history = [] := by
      by_contra hsignalled
      have hdisarmed : ContextBase.isRegistered w.ctx o op = false :=
        h.inv.disarmed hop hsignalled
      rw [hdisarmed] at hreg
      cases hreg
    obtain ⟨added, hhist, hnone⟩ := (LawfulContext.ready_silent he).history
    refine absurd (late_of_signals_nil ?_) hne
    rw [hhist, signals_append, hs, hnone, List.nil_append]
  | @perform env m rest e htodo he =>
    cases hf : e.fault with
    | true =>
      rw [apply_of_fault hf, htodo]
      exact List.cons_ne_nil _ _
    | false =>
      have hphase := h.inv.phase_of hc hop
      rw [htodo, frames_op_self] at hphase
      rcases hphase.signals_or_done with hs | ⟨s, hdone, hfs⟩
      · -- before the signal nothing is late, and the signal calls a receiver
        obtain ⟨added, hhist, hsignals⟩ := (perform_kept he).history
        cases hsig : e.signal with
        | none =>
          refine absurd (late_of_signals_nil ?_) hne
          rw [hhist, signals_append, hs, hsignals, hsig, List.nil_append]
          rfl
        | some s => simp [World.apply, hf, hsig]
      · intro htodo'
        have hframes : e.next ++ frames o rest = [] := by
          rw [← frames_apply_self hf, htodo', World.frames_nil]
        exact hfs.first_late hdone he hnil hne (List.append_eq_nil_iff.mp hframes).2

/-! ## Completion by the event loop -/

/-- No function of `_Start` and of a stop callback settles an operation that is left to the event
loop. -/
theorem findings_of_perform {m : AtomicStep} {env : Env} {ctx : LibeventContext}
    {e : Effect LibeventContext} (he : m.perform stopped env ctx o op = some e)
    (hdef : Deferred op.desc e.op.history) :
    findings op.desc e.op.history = findings op.desc op.history := by
  cases m with
  | submit =>
    obtain ⟨r, hspec, rfl⟩ := perform_submit_cases he
    cases hspec with
    | refused hnone => simp [Effect.logSignal, CpoState.log]
    | armed n ev hon hend harmed =>
      have hend : op.desc.submitEnd env = none := hend
      simp [Effect.logSignal, CpoState.log, hend]
    | ended n w hon hend hdelivers =>
      -- the submission has ended the operation
      have hnone := hdef.2 env n (by simp [Effect.logSignal, CpoState.log])
      cases hnone.symm.trans hend
  | emplace =>
    simp only [AtomicStep.perform, AtomicStep.exec] at he
    split at he <;> obtain rfl := Option.some.inj he <;> simp [Effect.logSignal, CpoState.log]
  | complete | error | cancel | cancelComplete =>
    obtain rfl := Option.some.inj he
    by_cases hzero : op.outstanding - 1 = 0 <;>
      simp [decrement, Effect.logSignal, CpoState.log, hzero]
  | contextCancel =>
    obtain rfl := Option.some.inj he
    simp [Effect.logSignal, CpoState.log, ContextBase.cancel, LibeventContext.cancel, disarm]
  | reset =>
    obtain rfl := Option.some.inj he
    cases hcb : op.callback <;> simp [Effect.logSignal, CpoState.log, CpoState.reset, hcb]
  | increment | testStop | enter | leave =>
    obtain rfl := Option.some.inj he
    simp [Effect.logSignal, CpoState.log]

/-- While an operation that was left to the event loop is completed, no other function is
executing. -/
def Alone (w : LibeventWorld) (o : OpId) (op : CpoState) : Prop :=
  signals op.history = [] → Deferred op.desc op.history → findings op.desc op.history ≠ [] →
    w.todo = (frames o w.todo).map (.op o)

/-- An operation that was settled and has not signalled has steps left. -/
theorem Phase.ending_of_findings {fs : List AtomicStep} (h : Phase t stopped op fs)
    (hs : signals op.history = []) (hf : findings op.desc op.history ≠ []) :
    .emplaced true ∉ op.history ∧ ∃ m ms, fs = m :: ms := by
  cases h with
  | ending h _ | reporting h _ => exact ⟨h.unstopped, _, _, rfl⟩
  | starting h | emplacing h | testing h | submitting h | pending h | entering h | cancelling h
    | cancelled h | stopping h => exact absurd h.findings hf
  | done h _ => exact absurd (h.signals.symm.trans hs) (List.cons_ne_nil _ _)

theorem Alone.step (halone : Alone w o op) (h : RunInv w) (hop : w.ops[o]? = some op) {l : Label}
    {w' : LibeventWorld} (hstep : w.step l = some w') {op' : CpoState}
    (hop' : w'.ops[o]? = some op') : Alone w' o op' := by
  intro hs' hdef' hf'
  obtain ⟨x, hx, hdesc, -, added, hhist⟩ := step_grows hstep hop
  cases hx.symm.trans hop'
  rw [hdesc] at hdef' hf'
  have hdef : Deferred op.desc op.history := by
    rw [← hhist, deferred_append] at hdef'
    exact hdef'.1
  have hs : signals op.history = [] := by
    rw [← hhist, signals_append, List.append_eq_nil_iff] at hs'
    exact hs'.1
  obtain ⟨hc, hcases⟩ := step_cases hstep
  by_cases hf : findings op.desc op.history = []
  · -- only a readiness indication settles it, and then no function is executing
    cases step_op hstep hop hop' with
    | same | callback => exact absurd hf hf'
    | perform htodo he => exact absurd ((findings_of_perform he hdef').trans hf) hf'
    | @ready env e htodo hreg he =>
      cases hfault : e.fault with
      | true => rw [apply_of_fault hfault, htodo]; rfl
      | false =>
        have hnone := (callback_silent he).signal
        simp [World.apply, hfault, hnone]
  · -- its steps are the only ones on the call stack
    have htodo := halone hs hdef hf
    obtain ⟨-, m, ms, hframes⟩ := (h.phase_of hc hop).ending_of_findings hs hf
    rw [hframes, List.map_cons] at htodo
    cases hcases with
    | start hmay | requestStop hmay | makeSocket hmay | released hmay =>
      exact absurd htodo (ne_op_of_userMay hmay o m _)
    | notReleased =>
      rw [hframes, List.map_cons]
      exact htodo
    | userReturn htodo' | stopDone htodo' | callback htodo' | ready htodo' =>
      cases htodo'.symm.trans htodo
    | @perform env o' m' rest y e htodo' hy he =>
      obtain ⟨heq, rfl⟩ := List.cons.inj (htodo'.symm.trans htodo)
      obtain ⟨rfl, rfl⟩ := Frame.op.inj heq
      cases hy.symm.trans hop
      cases hfault : e.fault with
      | true =>
        rw [apply_of_fault hfault, hframes, List.map_cons]
        exact htodo
      | false =>
        -- it sends no signal, so only its own steps are added
        have hnone : e.signal = none := by
          obtain ⟨added', hhist', hsignals⟩ := (perform_kept he).history
          rw [apply_ops, getElem?_set_of_some hop] at hop'
          rw [← Option.some.inj hop', hhist', signals_append, hsignals, hs] at hs'
          exact Option.toList_eq_nil_iff.mp hs'
        rw [frames_apply_self hfault]
        simp [World.apply, hfault, hnone]

theorem Reachable.alone (h : Reachable w) (hop : w.ops[o]? = some op) : Alone w o op := by
  obtain ⟨ls, hrun⟩ := h
  refine (StepMachine.run_invariant World.step (I := fun w => RunInv w ∧
    ∀ (o : OpId) (op : CpoState), w.ops[o]? = some op → Alone w o op) (fun w l w' h hstep => ?_)
    ⟨runInv_initial, fun o op hop => by cases hop⟩ hrun).2 o op hop
  refine ⟨h.1.step hstep, fun o op' hop' => ?_⟩
  cases hold : w.ops[o]? with
  | some op => exact (h.2 o op hold).step h.1 hold hstep hop'
  | none =>
    obtain ⟨d, token, -, -, rfl, -⟩ := step_new_op hstep hold hop'
    exact fun _ _ hf => absurd rfl hf

/-- An operation whose submission cannot succeed at once is completed with a value while no other
function is executing. -/
theorem Reachable.alone_of_value {w' : LibeventWorld} (h : Reachable w) {l : Label}
    (hstep : w.step l = some w') (hop : w.ops[o]? = some op) {op' : CpoState}
    (hop' : w'.ops[o]? = some op') (hs : signals op.history = []) {v : Value}
    (hv : .value v ∈ signals op'.history)
    (hdesc : ∀ env x, op.desc.submitEnd env = some x → ∃ e, x = .error e) :
    ∃ ms : List AtomicStep, w.todo = ms.map (.op o) := by
  obtain ⟨hsaid, -⟩ := h.inv.signal_step hstep hop hop' hs hv
  obtain ⟨hc, -⟩ := step_cases hstep
  rcases hsaid with heq | ⟨x, hx, -, hvalue⟩
  · cases heq
  have hf : findings op.desc op.history ≠ [] := by simp [hx]
  obtain ⟨hun, -⟩ := (h.inv.phase_of hc hop).ending_of_findings hs hf
  refine ⟨_, h.alone hop hs ⟨hun, fun env n hmem => ?_⟩ hf⟩
  -- the submission would have found an error
  by_contra hsome
  obtain ⟨y, hy⟩ := Option.ne_none_iff_exists'.mp hsome
  obtain ⟨e, rfl⟩ := hdesc env y hy
  have hmem' : .error e ∈ findings op.desc op.history := List.mem_filterMap.mpr ⟨_, hmem, hy⟩
  rw [hx, List.mem_singleton] at hmem'
  rw [← hmem'] at hvalue
  cases hvalue

end LibeventContext

end Stdnet
