import Stdnet.EventLoop
import Stdnet.History

/-!
# The Call Stack

What holds of the call stack whatever context the program drives, as long as the functions of the
context leave the counter, the stop callback and the receiver of an operation to `_Cpo_State`.

## Main results

- `perform_kept`: what a step on an operation keeps.
- `step_grows`: histories only grow.
- `Stack.step`: the steps of an operation that has not signalled are the innermost ones of the call
  stack, so no code of the program or of a receiver runs before them.
- `StopsAtStart.run`: an operation that is started when its stop was requested has its stop callback
  called by the constructor.
-/

namespace Stdnet

open ListEntries History

section Effects

variable {κ : Type*}

/-- What a function of a context leaves alone: it adds entries to the history, and no signal. -/
structure Silent (op : CpoState) (e : Effect κ) : Prop where
  desc : e.op.desc = op.desc
  token : e.op.token = op.token
  callback : e.op.callback = op.callback
  outstanding : e.op.outstanding = op.outstanding
  signal : e.signal = none
  history : ∃ added, e.op.history = op.history ++ added ∧ History.signals added = []

/-- What every step keeps: the description and the token, the history so far, and a callback that is
not registered unless no stop was requested. -/
structure Kept (stopped : Bool) (op : CpoState) (e : Effect κ) : Prop where
  desc : e.op.desc = op.desc
  token : e.op.token = op.token
  callback : e.op.callback = .registered → op.callback = .registered ∨ stopped = false
  history : ∃ added, e.op.history = op.history ++ added ∧ History.signals added = e.signal.toList

theorem Silent.kept {op : CpoState} {e : Effect κ} (h : Silent op e) (stopped : Bool) :
    Kept stopped op e where
  desc := h.desc
  token := h.token
  callback hcb := .inl (h.callback ▸ hcb)
  history := by
    rw [h.signal]
    exact h.history

theorem Kept.grows {stopped : Bool} {op : CpoState} {e : Effect κ} (h : Kept stopped op e) :
    op.history <+: e.op.history := by
  obtain ⟨added, hhist, -⟩ := h.history
  exact ⟨added, hhist.symm⟩

theorem Silent.logSignal {op : CpoState} {e : Effect κ} (h : Silent op e) : e.logSignal = e := by
  rw [Effect.logSignal, h.signal]

theorem Kept.of_decrement {stopped : Bool} {ctx : κ} {op : CpoState} {m : AtomicStep} {s : Signal}
    {e : Effect κ} (h : e = (decrement ctx (op.log (.ran m)) s).logSignal) : Kept stopped op e := by
  subst h
  by_cases hzero : op.outstanding - 1 = 0
  · refine ⟨?_, ?_, ?_, [.ran m, .signalled s], ?_, ?_⟩ <;>
      simp +contextual [decrement, Effect.logSignal, CpoState.log, hzero]
  · refine ⟨?_, ?_, ?_, [.ran m], ?_, ?_⟩ <;>
      simp +contextual [decrement, Effect.logSignal, CpoState.log, hzero]

/-- A context whose functions leave the counter, the callback and the receiver alone. -/
class LawfulContext (κ : Type*) [ContextBase κ] : Prop where
  submit_silent : ∀ {ctx : κ} {o : OpId} {op : CpoState} {env : Env} {e : Effect κ} {b : Bool},
    ContextBase.submit ctx o op env = some (e, b) → Silent op e
  cancel_silent : ∀ (ctx : κ) (op : CpoState), Silent op (ContextBase.cancel ctx op)
  ready_silent : ∀ {ctx : κ} {o : OpId} {op : CpoState} {env : Env} {e : Effect κ},
    ContextBase.ready ctx o op env = some e → Silent op e

/-- The entry of the step itself comes before those of a function of the context. -/
theorem Silent.kept_ran {op : CpoState} {m : AtomicStep} {e : Effect κ}
    (h : Silent (op.log (.ran m)) e) (stopped : Bool) : Kept stopped op e where
  desc := h.desc
  token := h.token
  callback hcb := .inl (by rw [h.callback] at hcb; exact hcb)
  history := by
    obtain ⟨added, hhist, hnil⟩ := h.history
    refine ⟨.ran m :: added, ?_, ?_⟩
    · rw [hhist]
      simp [CpoState.log]
    · rw [h.signal]
      simp [hnil]

variable [ContextBase κ] [LawfulContext κ]

theorem perform_kept {m : AtomicStep} {stopped : Bool} {env : Env} {ctx : κ} {o : OpId}
    {op : CpoState}
    {e : Effect κ} (he : m.perform stopped env ctx o op = some e) : Kept stopped op e := by
  cases m with
  | increment | leave | enter =>
    obtain rfl := Option.some.inj he
    exact ⟨rfl, rfl, by simp +contextual [Effect.logSignal, CpoState.log], _, rfl, rfl⟩
  -- the steps that move the counter down, with or without a signal
  | complete | error | cancel | cancelComplete => exact .of_decrement (Option.some.inj he).symm
  | contextCancel =>
    obtain rfl := Option.some.inj he
    have hsilent := LawfulContext.cancel_silent ctx (op.log (.ran .contextCancel))
    rw [hsilent.logSignal]
    exact hsilent.kept_ran stopped
  | testStop =>
    obtain rfl := Option.some.inj he
    exact ⟨rfl, rfl, .inl, [.ran .testStop], rfl, rfl⟩
  -- only the callback changes, and never to a registered one
  | reset =>
    obtain rfl := Option.some.inj he
    refine ⟨?_, ?_, ?_, [.ran .reset], ?_, rfl⟩ <;>
      (cases hcb : op.callback <;> simp [Effect.logSignal, CpoState.log, CpoState.reset, hcb])
  -- a callback is registered here, and only if no stop was requested
  | emplace =>
    simp only [AtomicStep.perform, AtomicStep.exec] at he
    split at he
    next hstop =>
      obtain rfl := Option.some.inj he
      exact ⟨rfl, rfl, by simp [Effect.logSignal], [.ran .emplace, .emplaced true], by
        simp [Effect.logSignal, CpoState.log], rfl⟩
    next hstop =>
      obtain rfl := Option.some.inj he
      exact ⟨rfl, rfl, fun _ => .inr (by simpa using hstop), [.ran .emplace, .emplaced false], by
        simp [Effect.logSignal, CpoState.log], rfl⟩
  | submit =>
    simp only [AtomicStep.perform, AtomicStep.exec, Option.map_map, Option.map_eq_some_iff] at he
    obtain ⟨⟨e', b⟩, hsubmit, rfl⟩ := he
    have hsilent := LawfulContext.submit_silent hsubmit
    -- what `_Start` does with the result of the submission changes nothing but the next steps
    have hnext : ∀ next, Silent (op.log (.ran .submit)) { e' with next := next } := fun next =>
      ⟨hsilent.desc, hsilent.token, hsilent.callback, hsilent.outstanding, hsilent.signal,
        hsilent.history⟩
    show Kept stopped op (Effect.logSignal { e' with next := _ })
    rw [(hnext _).logSignal]
    exact (hnext _).kept_ran stopped

end Effects

/-! ## Operations before their submission -/

/-- An operation that was not submitted yet, with no stop requested when its callback was
constructed. -/
structure Early (op : CpoState) (out : ℤ) (cb : Callback) : Prop where
  signals : signals op.history = []
  findings : findings op.desc op.history = []
  calls : calls op.history = []
  unsubmitted : Unsubmitted op.history
  unstopped : .emplaced true ∉ op.history
  extra : op.extra = none
  acceptId : op.acceptId = none
  outstanding : op.outstanding = out
  callback : op.callback = cb

/-- The step is in the history and the rest is unchanged. -/
theorem Early.ran {out out' : ℤ} {cb cb' : Callback} (h : Early op out cb) (m : AtomicStep) :
    Early { op.log (.ran m) with outstanding := out', callback := cb' } out' cb' where
  signals := by simp [CpoState.log, h.signals]
  findings := by simp [CpoState.log, h.findings]
  calls := by simp [CpoState.log, h.calls]
  unsubmitted := by simp [CpoState.log, h.unsubmitted]
  unstopped := by simp [CpoState.log, h.unstopped]
  extra := h.extra
  acceptId := h.acceptId
  outstanding := rfl
  callback := rfl

namespace World

variable {κ : Type*} [ContextBase κ]

/-! ## Growth -/

/-- A step keeps the description and the token of an operation, and its history only grows. -/
theorem step_grows [LawfulContext κ] {w w' : World κ} {o : OpId} {op : CpoState} {l : Label}
    (hstep : w.step l = some w') (hop : w.ops[o]? = some op) :
    ∃ op', w'.ops[o]? = some op' ∧ op'.desc = op.desc ∧ op'.token = op.token ∧
      op.history <+: op'.history := by
  obtain ⟨op', hop', hcases⟩ := step_op_cases hstep hop
  refine ⟨op', hop', ?_⟩
  cases hcases with
  | same | callback => exact ⟨rfl, rfl, List.prefix_refl _⟩
  | perform htodo he =>
    have hkept := perform_kept he
    exact ⟨hkept.desc, hkept.token, hkept.grows⟩
  | ready htodo hreg he =>
    have hkept := (LawfulContext.ready_silent he).kept true
    exact ⟨hkept.desc, hkept.token, hkept.grows⟩

/-! ## The innermost frames -/

/-- The call stack is about operations that were started, and the steps of an operation that has not
signalled are the innermost ones. -/
structure Stack (w : World κ) : Prop where
  known : ∀ o m, Frame.op o m ∈ w.todo → o < w.ops.length
  top : ∀ (o : OpId) (op : CpoState), w.ops[o]? = some op → signals op.history = [] →
    ∃ rest, w.todo = (frames o w.todo).map (.op o) ++ rest

variable {w w' : World κ} {o : OpId} {op : CpoState}

omit [ContextBase κ] in
/-- Nothing is left to be run on an operation that has not signalled, unless its steps are the
innermost ones. -/
theorem Stack.frames_nil (h : Stack w) (hop : w.ops[o]? = some op)
    (htop : ∀ m rest, w.todo ≠ .op o m :: rest) (hs : signals op.history = []) :
    frames o w.todo = [] := by
  obtain ⟨rest, htodo⟩ := h.top o op hop hs
  -- if there were a step left, the stack would start with it
  cases hframes : frames o w.todo with
  | nil => rfl
  | cons m ms =>
    rw [hframes] at htodo
    exact absurd htodo (htop m _)

omit [ContextBase κ] in
theorem ne_op_of_userMay (hmay : w.userMay = true) (o : OpId) (m : AtomicStep) (rest : List Frame) :
    w.todo ≠ .op o m :: rest := by
  intro htodo
  simp [userMay, htodo] at hmay

omit [ContextBase κ] in
/-- The innermost function is not a step of the operation `o`. -/
theorem ne_op_of_cons {f : Frame} {fs : List Frame} (htodo : w.todo = f :: fs)
    (hf : ∀ m, f ≠ .op o m) (m : AtomicStep) (rest : List Frame) : w.todo ≠ .op o m :: rest := by
  intro heq
  rw [htodo] at heq
  exact hf m (List.cons.inj heq).1

omit [ContextBase κ] in
/-- No function is executing. -/
theorem ne_op_of_nil (htodo : w.todo = []) (o : OpId) (m : AtomicStep) (rest : List Frame) :
    w.todo ≠ .op o m :: rest := by
  rw [htodo]
  exact nofun

omit [ContextBase κ] in
/-- A step of another operation is not a step of the operation `o`. -/
theorem ne_op_of_ne {o' : OpId} (ho : o' ≠ o) {m' : AtomicStep} (m : AtomicStep) :
    Frame.op o m' ≠ .op o' m := by
  intro heq
  cases heq
  exact ho rfl

omit [ContextBase κ] in
theorem Stack.frames_length (h : Stack w) : frames w.ops.length w.todo = [] := by
  rw [List.eq_nil_iff_forall_not_mem]
  intro m hm
  exact absurd (h.known _ m (mem_frames.mp hm)) (lt_irrefl _)

omit [ContextBase κ] in
/-- A step of the program's own code, or the return from a function, that changes no operation. -/
theorem Stack.quiet (h : Stack w) (hops : w'.ops = w.ops)
    (hidle : ∀ o m rest, w.todo ≠ .op o m :: rest)
    (hframes : ∀ o, frames o w'.todo = frames o w.todo) : Stack w' where
  known o m hm := by
    rw [hops]
    rw [← mem_frames, hframes, mem_frames] at hm
    exact h.known o m hm
  top o op hop hs := by
    rw [hops] at hop
    rw [hframes, h.frames_nil hop (hidle o) hs]
    exact ⟨_, rfl⟩

omit [ContextBase κ] in
theorem Stack.start (h : Stack w) (hmay : w.userMay = true) (d : Desc) (token : Source) :
    Stack (w.start d token) where
  known o m hm := by
    simp only [World.start, List.mem_append, List.mem_map, Frame.op.injEq] at hm
    rw [World.start, List.length_append, List.length_singleton]
    rcases hm with ⟨m', -, rfl, -⟩ | hm
    · exact Nat.lt_succ_self _
    · exact (h.known o m hm).trans (Nat.lt_succ_self _)
  top o op hop hs := by
    -- the steps of the new operation are the innermost ones; no other has any
    rcases getElem?_concat_cases hop with ⟨rfl, rfl⟩ | ⟨hlt, hop⟩
    · rw [World.start, frames_append, h.frames_length, frames_map_self, List.append_nil]
      exact ⟨_, rfl⟩
    · rw [World.start, frames_append, frames_map_of_ne hlt.ne',
        h.frames_nil hop (ne_op_of_userMay hmay o) hs]
      exact ⟨_, rfl⟩

omit [ContextBase κ] in
theorem Stack.callback (h : Stack w) (hop : w.ops[o]? = some op) {rest : List Frame}
    (htodo : w.todo = .stopLoop op.token :: rest) :
    Stack { w with
      ops := w.ops.set o { op with callback := .executing }
      todo := callbackCall.map (.op o) ++ w.todo } := by
  -- the innermost function is `request_stop`, so no step comes before it
  have hidle : ∀ (o' : OpId) m rest', w.todo ≠ .op o' m :: rest' :=
    fun o' => ne_op_of_cons htodo fun _ => nofun
  refine ⟨fun o' m hm => ?_, fun o' op' hop' hs => ?_⟩
  · rw [List.length_set]
    simp only [List.mem_append, List.mem_map, Frame.op.injEq] at hm
    rcases hm with ⟨m', -, rfl, -⟩ | hm
    · exact (List.getElem?_eq_some_iff.mp hop).1
    · exact h.known o' m hm
  · rcases getElem?_set_cases hop' with ⟨rfl, rfl⟩ | ⟨ho', hop'⟩
    · rw [frames_append, h.frames_nil hop (hidle o') hs, frames_map_self, List.append_nil]
      exact ⟨_, rfl⟩
    · rw [frames_append, frames_map_of_ne ho'.symm, h.frames_nil hop' (hidle o') hs]
      exact ⟨_, rfl⟩

omit [ContextBase κ] in
/-- A step on operation `o` puts the steps it leads to in front of the old ones; `rest` is what is
left of the call stack. -/
theorem Stack.apply (h : Stack w) (hop : w.ops[o]? = some op) {rest : List Frame} {e : Effect κ}
    {stopped : Bool} (hkept : Kept stopped op e)
    (htodo : w.todo = rest ∨ ∃ m, w.todo = .op o m :: rest)
    (hidle : ∀ o', o' ≠ o → ∀ m r, w.todo ≠ .op o' m :: r) : Stack (w.apply o rest e) := by
  obtain ⟨added, hhist, hsignals⟩ := hkept.history
  have hlength : (w.apply o rest e).ops.length = w.ops.length := by
    rw [apply_ops, List.length_set]
  have hmem : ∀ f ∈ rest, f ∈ w.todo := by
    intro f hf
    -- the step that was run is not on the rest of the stack
    rcases htodo with htodo | ⟨m, htodo⟩ <;> rw [htodo]
    · exact hf
    · exact List.mem_cons_of_mem _ hf
  have hother : ∀ o', o' ≠ o → frames o' rest = frames o' w.todo := by
    intro o' ho'
    rcases htodo with htodo | ⟨m, htodo⟩ <;> rw [htodo]
    rw [frames_op_of_ne ho'.symm]
  refine ⟨fun o' m hm => ?_, fun o' op' hop' hs => ?_⟩
  · rw [hlength]
    unfold World.apply at hm
    split at hm
    next => exact h.known o' m hm
    next =>
      simp only [List.mem_append, List.mem_map, Frame.op.injEq] at hm
      rcases hm with (⟨m', -, rfl, -⟩ | hm) | hm
      · exact (List.getElem?_eq_some_iff.mp hop).1
      · split at hm <;> simp at hm
      · exact h.known o' m (hmem _ hm)
  · rw [apply_ops] at hop'
    rcases getElem?_set_cases hop' with ⟨rfl, rfl⟩ | ⟨ho', hop'⟩
    · -- without a signal the new steps are put in front of the old ones
      rw [hhist, signals_append, hsignals, List.append_eq_nil_iff] at hs
      obtain ⟨r, hr⟩ := h.top o' op hop hs.1
      -- the operation has still not signalled, so the step sent no signal
      have hnone : e.signal = none := by
        cases hsig : e.signal with
        | none => rfl
        | some s => rw [hsig] at hs; cases hs.2
      have hrest : ∃ r, rest = (frames o' rest).map (.op o') ++ r := by
        rcases htodo with htodo | ⟨m, htodo⟩ <;> rw [htodo] at hr
        · exact ⟨r, hr⟩
        · rw [frames_op_self, List.map_cons, List.cons_append, List.cons.injEq] at hr
          exact ⟨r, hr.2⟩
      cases hf : e.fault with
      | true =>
        refine ⟨r, ?_⟩
        rw [apply_of_fault hf]
        exact hr
      | false =>
        obtain ⟨r, hr⟩ := hrest
        refine ⟨r, ?_⟩
        rw [frames_apply_self hf, List.map_append, List.append_assoc, ← hr]
        simp [World.apply, hf, hnone]
    · -- another operation that has not signalled has no steps on the stack
      rw [frames_apply_of_ne ho'.symm (hother o' ho'), h.frames_nil hop' (hidle o' ho') hs]
      exact ⟨_, rfl⟩

theorem Stack.step [LawfulContext κ] {l : Label} (h : Stack w) (hstep : w.step l = some w') :
    Stack w' := by
  obtain ⟨-, hcases⟩ := step_cases hstep
  cases hcases with
  | start hmay => exact h.start hmay _ _
  | requestStop hmay =>
    unfold World.requestStop
    split
    next => exact h
    next => exact h.quiet rfl (ne_op_of_userMay hmay) fun o => by rw [frames_stopLoop]
  | makeSocket hmay | released hmay => exact h.quiet rfl (ne_op_of_userMay hmay) fun _ => rfl
  | notReleased => exact h
  | userReturn htodo =>
    refine h.quiet rfl (fun o => ne_op_of_cons htodo fun _ => nofun) fun o => ?_
    rw [htodo, frames_user]
  | stopDone htodo =>
    refine h.quiet rfl (fun o => ne_op_of_cons htodo fun _ => nofun) fun o => ?_
    rw [htodo, frames_stopLoop]
  | callback htodo hop hcb => exact h.callback hop htodo
  | @perform env o m rest op e htodo hop he =>
    exact h.apply hop (perform_kept he) (.inr ⟨m, htodo⟩) fun o' ho' =>
      ne_op_of_cons htodo (ne_op_of_ne ho')
  | @ready env o op e htodo hop hreg he =>
    exact h.apply hop ((LawfulContext.ready_silent he).kept true) (.inl htodo) fun o' _ =>
      ne_op_of_nil htodo o'

/-! ## Operations that are started after the stop was requested -/

/-- The stop callback is still to be constructed, or it was constructed with the stop requested. -/
def StopsAtStart (w : World κ) (o : OpId) (op : CpoState) : Prop :=
  w.stopped op.token = true ∧ (.emplaced true ∈ op.history ∨ .emplace ∈ frames o w.todo)

theorem StopsAtStart.step [LawfulContext κ] {l : Label} (hs : StopsAtStart w o op)
    (hop : w.ops[o]? = some op) (hstep : w.step l = some w') :
    ∃ op', w'.ops[o]? = some op' ∧ op'.token = op.token ∧ StopsAtStart w' o op' := by
  obtain ⟨op', hop', hcases⟩ := step_op_cases hstep hop
  obtain ⟨x, hx, -, htoken, hpre⟩ := step_grows hstep hop
  cases hx.symm.trans hop'
  refine ⟨op', hop', htoken, by rw [htoken]; exact step_stopped hstep hs.1, ?_⟩
  rcases hs.2 with hmem | hframe
  -- a history only grows
  · exact .inl (hpre.subset hmem)
  · cases hcases with
    | same _ hframes => exact .inr (by rw [hframes]; exact hframe)
    | callback htodo hcb hframes =>
      exact .inr (by rw [hframes]; exact List.mem_append_right _ hframe)
    | @perform env m rest e htodo he =>
      -- the construction of the callback is the step that leaves `StopsAtStart` on the left
      by_cases hm : m = .emplace
      · subst hm
        simp only [AtomicStep.perform, AtomicStep.exec, hs.1, if_true, Option.map_some,
          Option.some.injEq] at he
        subst he
        exact .inl (by simp [Effect.logSignal, CpoState.log])
      · rw [htodo, frames_op_self] at hframe
        have hrest : .emplace ∈ frames o rest := by
          rcases List.mem_cons.mp hframe with heq | hrest
          · exact absurd heq.symm hm
          · exact hrest
        right
        cases hf : e.fault with
        | true =>
          rw [apply_of_fault hf, htodo, frames_op_self]
          exact List.mem_cons_of_mem _ hrest
        | false =>
          rw [frames_apply_self hf]
          exact List.mem_append_right _ hrest
    | ready htodo hreg he =>
      rw [htodo] at hframe
      cases hframe

theorem StopsAtStart.run [LawfulContext κ] {ls : List Label} (hs : StopsAtStart w o op)
    (hop : w.ops[o]? = some op) (hrun : World.run w ls = some w') :
    ∃ op', w'.ops[o]? = some op' ∧ op'.token = op.token ∧ StopsAtStart w' o op' := by
  refine StepMachine.run_invariant World.step
    (I := fun w => ∃ op', w.ops[o]? = some op' ∧ op'.token = op.token ∧ StopsAtStart w o op')
    ?_ ⟨op, hop, rfl, hs⟩ hrun
  rintro w₁ l w₂ ⟨op₁, hop₁, htoken, hs₁⟩ hstep
  obtain ⟨op₂, hop₂, htoken', hs₂⟩ := hs₁.step hop₁ hstep
  exact ⟨op₂, hop₂, htoken'.trans htoken, hs₂⟩

omit [ContextBase κ] in
/-- The operation that is started when its stop was requested. -/
theorem stopsAtStart_start {d : Desc} {token : Source} (hstop : w.stopped token = true) :
    StopsAtStart (w.start d token) w.ops.length { desc := d, token := token } := by
  refine ⟨hstop, .inr ?_⟩
  rw [World.start, frames_append, frames_map_self]
  simp [startCall]

end World

end Stdnet
