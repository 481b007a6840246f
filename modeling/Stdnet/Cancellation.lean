import Stdnet.LibeventRuns

/-!
# Cancellation on the libevent Context

What holds when `request_stop` returns, of the operations whose receivers use its stop source and of
all others.

## Main results

- `cancellation`: every operation of the source has signalled exactly once; those that were pending
  have signalled `set_stopped`, are not armed and never run their `_Work` again; those started later
  have signalled `set_stopped` and submitted nothing; operations of sources with no stop requested
  are as before.
-/

namespace Stdnet

open History

/-- The steps of a stop callback. -/
def AtomicStep.inCallback : AtomicStep → Bool
  | .enter | .contextCancel | .cancelComplete | .cancel | .leave => true
  | _ => false

namespace LibeventContext

open World

variable {w w' : LibeventWorld} {l : Label} {ls : List Label} {o : OpId} {op op' : CpoState}
  {s : Source}

/-! ## Operations that were pending when the stop was requested -/

/-- The steps of a stop callback lead to such steps; they settle nothing and dispatch nothing. -/
theorem perform_inCallback {stopped : Bool} {env : Env} {ctx : LibeventContext} {m : AtomicStep}
    {e : Effect LibeventContext} (hm : m.inCallback = true)
    (he : m.perform stopped env ctx o op = some e) :
    (∀ m' ∈ e.next, m'.inCallback = true) ∧
      findings e.op.desc e.op.history = findings op.desc op.history ∧
      e.op.history.count .dispatched = op.history.count .dispatched := by
  cases m with
  -- the context's `_Cancel` or the signal comes next
  | enter =>
    obtain rfl := Option.some.inj he
    refine ⟨?_, by simp [Effect.logSignal, CpoState.log], by simp [Effect.logSignal, CpoState.log]⟩
    simp only [Effect.logSignal]
    split <;> simp [AtomicStep.inCallback]
  | contextCancel =>
    obtain rfl := Option.some.inj he
    simp [Effect.logSignal, CpoState.log, ContextBase.cancel, LibeventContext.cancel, disarm,
      AtomicStep.inCallback]
  | leave =>
    obtain rfl := Option.some.inj he
    simp [Effect.logSignal, CpoState.log]
  | cancel | cancelComplete =>
    obtain rfl := Option.some.inj he
    by_cases hzero : op.outstanding - 1 = 0 <;>
      simp [decrement, Effect.logSignal, CpoState.log, hzero]
  | _ => cases hm

/-- A stop was requested, nothing settled the operation, and only steps of its stop callback are
left to be run on it; `n` counts its dispatches. -/
structure StopOnly (w : LibeventWorld) (o : OpId) (n : ℕ) (op : CpoState) : Prop where
  stopped : w.stopped op.token = true
  findings : findings op.desc op.history = []
  dispatched : op.history.count .dispatched = n
  steps : ∀ m ∈ frames o w.todo, m.inCallback = true

/-- After a stop request the event loop has nothing to deliver to its operations. -/
theorem RunInv.not_ready (h : RunInv w) (hc : w.crashed = false) (htodo : w.todo = [])
    (hop : w.ops[o]? = some op) (hstop : w.stopped op.token = true) : op.isArmed = false := by
  have hphase := h.phase_of hc hop
  rw [htodo, World.frames_nil] at hphase
  cases hphase with
  | done h => exact h.disarmed
  | pending hp =>
    have hmem := h.waiting o op hop hp.callback hstop
    rw [htodo] at hmem
    cases hmem

/-- So the loop does not find such an operation among the events that are ready. -/
theorem RunInv.not_registered (h : RunInv w) (hc : w.crashed = false) (htodo : w.todo = [])
    (hop : w.ops[o]? = some op) (hstop : w.stopped op.token = true) :
    ContextBase.isRegistered w.ctx o op = false :=
  h.not_ready hc htodo hop hstop

theorem StopOnly.step {n : ℕ} (hs : StopOnly w o n op) (h : RunInv w) (hop : w.ops[o]? = some op)
    (hstep : w.step l = some w') :
    ∃ op', w'.ops[o]? = some op' ∧ op'.token = op.token ∧ StopOnly w' o n op' := by
  obtain ⟨op', hop', hcases⟩ := step_op_cases hstep hop
  obtain ⟨hc, -⟩ := step_cases hstep
  refine ⟨op', hop', ?_⟩
  cases hcases with
  | same _ hframes =>
    exact ⟨rfl, step_stopped hstep hs.stopped, hs.findings, hs.dispatched, by
      rw [hframes]; exact hs.steps⟩
  -- the callback is called: its two steps come before those that are left
  | callback htodo hcb hframes =>
    refine ⟨rfl, step_stopped hstep hs.stopped, hs.findings, hs.dispatched, fun m hm => ?_⟩
    rw [hframes, List.mem_append] at hm
    rcases hm with hm | hm
    · simp only [callbackCall, List.mem_cons, List.not_mem_nil, or_false] at hm
      rcases hm with rfl | rfl <;> rfl
    · exact hs.steps m hm
  | @perform env m rest e htodo he =>
    have hm : m.inCallback = true :=
      hs.steps m (by rw [htodo, frames_op_self]; exact List.mem_cons_self)
    obtain ⟨hnext, hfind, hcount⟩ := perform_inCallback hm he
    have htoken := (perform_kept he).token
    refine ⟨htoken, ?_, hfind.trans hs.findings, hcount.trans hs.dispatched, fun m' hm' => ?_⟩
    · rw [htoken]
      exact step_stopped hstep hs.stopped
    · cases hf : e.fault with
      | true =>
        rw [apply_of_fault hf] at hm'
        exact hs.steps m' hm'
      | false =>
        rw [frames_apply_self hf, List.mem_append] at hm'
        rcases hm' with hm' | hm'
        · exact hnext m' hm'
        · exact hs.steps m' (by rw [htodo, frames_op_self]; exact List.mem_cons_of_mem _ hm')
  -- a stopped operation with no step left is not armed
  | ready htodo hreg he =>
    rw [h.not_registered hc htodo hop hs.stopped] at hreg
    cases hreg

theorem StopOnly.run {n : ℕ} (hs : StopOnly w o n op) (h : RunInv w) (hop : w.ops[o]? = some op)
    (hrun : World.run w ls = some w') :
    ∃ op', w'.ops[o]? = some op' ∧ op'.token = op.token ∧ StopOnly w' o n op' := by
  refine h.run_op (P := fun w' op' => op'.token = op.token ∧ StopOnly w' o n op') hrun ?_ hop
    ⟨rfl, hs⟩
  rintro w₁ w₂ l op₁ ⟨htoken, hs₁⟩ hinv hop₁ hstep
  obtain ⟨op₂, hop₂, htoken₂, hs₂⟩ := hs₁.step hinv hop₁ hstep
  exact ⟨op₂, hop₂, htoken₂.trans htoken, hs₂⟩

/-! ## Operations that are started after the stop was requested -/

/-- The operations started since `n₀` were counted, on a source with a requested stop. -/
def LaterStop (n₀ : ℕ) (s : Source) (w : LibeventWorld) : Prop :=
  w.stopped s = true ∧ ∀ (o : OpId) (op : CpoState), n₀ ≤ o → w.ops[o]? = some op → op.token = s →
    StopsAtStart w o op

theorem LaterStop.step {n₀ : ℕ} (h : LaterStop n₀ s w) (hstep : w.step l = some w') :
    LaterStop n₀ s w' := by
  refine ⟨step_stopped hstep h.1, fun o op' hle hop' htoken => ?_⟩
  cases hold : w.ops[o]? with
  | some op =>
    obtain ⟨x, hx, -, htoken', -⟩ := step_grows hstep hold
    cases hx.symm.trans hop'
    obtain ⟨y, hy, -, hstops⟩ := (h.2 o op hle hold (htoken'.symm.trans htoken)).step hold hstep
    cases hy.symm.trans hop'
    exact hstops
  -- an operation that this step starts still has to construct its callback
  | none =>
    obtain ⟨d, token, rfl, rfl, rfl, rfl⟩ := step_new_op hstep hold hop'
    subst htoken
    exact stopsAtStart_start h.1

theorem LaterStop.run {n₀ : ℕ} (h : LaterStop n₀ s w) (hrun : World.run w ls = some w') :
    LaterStop n₀ s w' :=
  StepMachine.run_invariant World.step (fun _ _ _ => LaterStop.step) h hrun

/-! ## Operations of other sources -/

/-- Without a readiness indication and without a stop, a pending operation stays as it is. -/
theorem Pending.step (h : RunInv w) (hop : w.ops[o]? = some op) (hnil : frames o w.todo = [])
    (hstop : w.stopped op.token = false) (hl : ∀ o' env, l ≠ .ready o' env)
    (hstep : w.step l = some w') : w'.ops[o]? = some op ∧ frames o w'.todo = [] := by
  obtain ⟨op', hop', hcases⟩ := step_op_cases hstep hop
  cases hcases with
  | same _ hframes => exact ⟨hop', hframes.trans hnil⟩
  -- a loop over the callbacks of a source means that its stop was requested
  | callback htodo =>
    have := h.loops op.token (by rw [htodo]; exact List.mem_cons_self)
    rw [hstop] at this
    cases this
  | perform htodo he =>
    rw [htodo, frames_op_self] at hnil
    cases hnil
  | ready => exact absurd rfl (hl _ _)

theorem Pending.run (h : RunInv w) (hop : w.ops[o]? = some op) (hnil : frames o w.todo = [])
    (hl : ∀ o' env, .ready o' env ∉ ls) (hrun : World.run w ls = some w')
    (hstop : w'.stopped op.token = false) : w'.ops[o]? = some op := by
  -- each step leaves the operation as it is, so that the rest of the run starts from it
  induction ls generalizing w with
  | nil =>
    obtain rfl := Option.some.inj hrun
    exact hop
  | cons l ls ih =>
    obtain ⟨w₁, hstep, hrest⟩ := (StepMachine.run_cons_eq_some World.step).mp hrun
    obtain ⟨hop₁, hnil₁⟩ := Pending.step h hop hnil (not_stopped_of_run hrun hstop)
      (fun o' env heq => hl o' env (by rw [heq]; exact List.mem_cons_self)) hstep
    exact ih (h.step hstep) hop₁ hnil₁ (fun o' env hmem => hl o' env (List.mem_cons_of_mem _ hmem))
      hrest

/-! ## When `request_stop` returns -/

/-- `request_stop` is called on `s` in the state `w`; in `w'` the program's or a receiver's code is
running and no `request_stop` on `s` is executing any more. The event loop was not run meanwhile. -/
structure Returned (s : Source) (w : LibeventWorld) (ls : List Label) (w' : LibeventWorld) :
    Prop where
  run : World.run w (.requestStop s :: ls) = some w'
  alive : w'.crashed = false
  code : w'.userMay = true
  returned : .stopLoop s ∉ w'.todo
  noLoop : ∀ o env, .ready o env ∉ ls

/-- The state in which the callbacks are about to be called. -/
theorem Returned.split (hret : Returned s w ls w') :
    w.crashed = false ∧ w.userMay = true ∧ (w.requestStop s).stopped s = true ∧
      World.step w (.requestStop s) = some (w.requestStop s) ∧
      World.run (w.requestStop s) ls = some w' := by
  obtain ⟨w₁, hstep, hrun⟩ := (StepMachine.run_cons_eq_some World.step).mp hret.run
  obtain ⟨hc, hcases⟩ := step_cases hstep
  cases hcases with
  | requestStop hmay =>
    refine ⟨hc, hmay, ?_, hstep, hrun⟩
    unfold World.requestStop
    split
    · assumption
    · simp

theorem Returned.stopped (hret : Returned s w ls w') : w'.stopped s = true := by
  obtain ⟨-, -, hstop, -, hrun⟩ := hret.split
  exact stopped_of_run hrun hstop

/-- Every operation of the source has signalled. -/
theorem Returned.signalled (hret : Returned s w ls w') (h : RunInv w') (hop : w'.ops[o]? = some op)
    (htoken : op.token = s) : ∃ x, signals op.history = [x] := by
  rcases h.signals_cases hop with hnil | hone
  · obtain ⟨hpending, -⟩ := h.pending_of_userMay hret.alive hret.code hop hnil
    -- its callback would be registered with no loop left to call it
    have hstop : w'.stopped op.token = true := by rw [htoken]; exact hret.stopped
    have hmem := h.waiting o op hop hpending.callback hstop
    rw [htoken] at hmem
    exact absurd hmem hret.returned
  · exact hone

/-- **Cancellation**: when a `request_stop` on `s` that was called in a reachable state returns,

- every operation of the source that was started has signalled its receiver, exactly once;
- one that had not signalled before the call has signalled `set_stopped`; from then on its event is
  not armed and its `_Work` is not run any more than before the call;
- one that was started after the call has signalled `set_stopped` and was not submitted;
- an operation whose own source has no requested stop has signalled what it had signalled before,
  and is in the same state, registration included, if that was nothing. -/
theorem cancellation {s : Source} {w w' : LibeventWorld} {ls : List Label} (h : Reachable w)
    (hret : Returned s w ls w') :
    (∀ (o : OpId) (op : CpoState), w'.ops[o]? = some op → op.token = s →
      ∃ x, signals op.history = [x]) ∧
    (∀ (o : OpId) (op : CpoState), w.ops[o]? = some op → op.token = s → signals op.history = [] →
      ∀ (ls' : List Label) (w'' : LibeventWorld), World.run w' ls' = some w'' →
        ∃ op', w''.ops[o]? = some op' ∧ signals op'.history = [.stopped] ∧ op'.isArmed = false ∧
          op'.history.count .dispatched = op.history.count .dispatched) ∧
    (∀ (o : OpId) (op : CpoState), w.ops.length ≤ o → w'.ops[o]? = some op → op.token = s →
      signals op.history = [.stopped] ∧ Unsubmitted op.history) ∧
    (∀ (o : OpId) (op : CpoState), w.ops[o]? = some op → w'.stopped op.token = false →
      ∃ op', w'.ops[o]? = some op' ∧ signals op'.history = signals op.history ∧
        (signals op.history = [] → op' = op)) := by
  obtain ⟨hc, hmay, hstop₁, hstep, hrun⟩ := hret.split
  have hw' : Reachable w' := h.run hret.run
  have h₁ : RunInv (w.requestStop s) := h.inv.step hstep
  have hops₁ : (w.requestStop s).ops = w.ops := by
    unfold World.requestStop
    split <;> rfl
  have hframes₁ : ∀ o, frames o (w.requestStop s).todo = frames o w.todo := by
    intro o
    unfold World.requestStop
    split
    · rfl
    · exact frames_stopLoop _ _ _
  refine ⟨fun o op hop htoken => hret.signalled hw'.inv hop htoken, ?_, ?_, ?_⟩
  · intro o op hop htoken hs ls' w'' hrun'
    -- the second statement: pending before, and only stop steps can reach it after
    obtain ⟨hpending, hnil⟩ := h.inv.pending_of_userMay hc hmay hop hs
    have hstops : StopOnly (w.requestStop s) o (op.history.count .dispatched) op :=
      ⟨by rw [htoken]; exact hstop₁, hpending.findings, rfl, by rw [hframes₁, hnil]; simp⟩
    have hop₁ : (w.requestStop s).ops[o]? = some op := by rw [hops₁]; exact hop
    obtain ⟨op₂, hop₂, htoken₂, hstops₂⟩ := hstops.run h₁ hop₁ hrun
    obtain ⟨x, hx⟩ := hret.signalled hw'.inv hop₂ (htoken₂.trans htoken)
    -- what happens later keeps the signal and the count of dispatches
    obtain ⟨op₃, hop₃, -, hstops₃⟩ := hstops₂.run hw'.inv hop₂ hrun'
    have hinv₃ : RunInv w'' := (hw'.run hrun').inv
    obtain ⟨op₄, hop₄, hy⟩ := hw'.inv.run_signals hrun' hop₂ hx
    cases hop₄.symm.trans hop₃
    have hne : signals op₃.history ≠ [] := by simp [hy]
    refine ⟨op₃, hop₃, ?_, hinv₃.disarmed hop₃ hne, hstops₃.dispatched⟩
    rcases (hw'.run hrun').account hop₃ (.inl hne) with ⟨-, hnil' | hstopped⟩ | ⟨w, s, hf, -, -⟩
    · exact absurd hnil' hne
    · exact hstopped
    · rw [hstops₃.findings] at hf
      cases hf
  · intro o op hle hop htoken
    -- the third: nothing was started after the request when it is made
    have hlater : LaterStop w.ops.length s (w.requestStop s) := by
      refine ⟨hstop₁, fun o' op' hle' hop' _ => ?_⟩
      rw [hops₁] at hop'
      exact absurd (List.getElem?_eq_some_iff.mp hop').1 (not_lt.mpr hle')
    obtain ⟨-, hcases⟩ := (hlater.run hrun).2 o op hle hop htoken
    obtain ⟨x, hx⟩ := hret.signalled hw'.inv hop htoken
    rcases (hw'.inv.phase_of hret.alive hop).signals_or_done with hnil | ⟨y, hdone, hfs⟩
    · rw [hx] at hnil
      cases hnil
    · obtain ⟨huns, rfl⟩ := hdone.unsubmitted (hcases.resolve_right hfs.not_mem.2)
      exact ⟨hdone.signals, huns⟩
  · intro o op hop hstop
    -- the fourth: pending operations are left alone, signals stay
    rcases h.inv.signals_cases hop with hnil | ⟨x, hx⟩
    · obtain ⟨-, hframes⟩ := h.inv.pending_of_userMay hc hmay hop hnil
      have hop' := Pending.run h₁ (by rw [hops₁]; exact hop) (by rw [hframes₁]; exact hframes)
        hret.noLoop hrun hstop
      exact ⟨op, hop', rfl, fun _ => rfl⟩
    · obtain ⟨op', hop', hx'⟩ := h.inv.run_signals hret.run hop hx
      exact ⟨op', hop', hx'.trans hx.symm, fun hnil => by rw [hnil] at hx; cases hx⟩

/-- A pending timer. -/
def pendingTimer : List Label :=
  [.start (.resumeAfter 5) 0, .perform {}, .perform {}, .perform {}, .perform {}]

/-- The timer is stopped; its completion starts another timer of the source. -/
def stopAndStart : List Label :=
  [.callback 0, .perform {}, .perform {}, .perform {}, .perform {}, .start (.resumeAfter 9) 0,
    .perform {}, .perform {}, .perform {}, .perform {}, .perform {}, .perform {}, .userReturn,
    .perform {}, .perform {}, .perform {}, .perform {}, .userReturn, .perform {}, .stopDone]

/-- The other timer has signalled `set_stopped` when `request_stop` returns. -/
theorem cancellation_stopAndStart : ∃ w w' op, World.run initial pendingTimer = some w ∧
    World.run w (.requestStop 0 :: stopAndStart) = some w' ∧ w'.ops[1]? = some op ∧
    signals op.history = [.stopped] ∧ Unsubmitted op.history := by
  refine ⟨_, _, _, rfl, rfl, rfl, ?_⟩
  have hreach : Reachable _ := ⟨pendingTimer, rfl⟩
  exact (@cancellation 0 _ _ stopAndStart hreach
    ⟨rfl, rfl, rfl, List.not_mem_nil, by simp [stopAndStart]⟩).2.2.1 1 _ le_rfl rfl rfl

end LibeventContext

end Stdnet
