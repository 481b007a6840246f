import Stdnet.EventLoop
import Stdnet.LibeventPhase

/-!
# Runs of the libevent Context

The invariant of single-threaded programs on the libevent context: the socket table is well formed,
every operation is in a phase with the steps that the call stack holds for it, and the stop sources
and the call stack agree.

## Main results

- `RunInv.step`: every step of the program and of the event loop preserves the invariant.
- `Reachable.inv`: it holds in every reachable state.
- `Reachable.account`: the signal of an operation and the result that settled it determine each
  other.
-/

namespace Stdnet

namespace LibeventContext

open ListEntries History World

/-- A program that runs a libevent context. -/
abbrev LibeventWorld := World LibeventContext

/-- An operation is in a phase, unless its submission or its `_Work` ended the program. -/
def Accounted (w : LibeventWorld) (o : OpId) (op : CpoState) : Prop :=
  Phase w.ctx.sockets (w.stopped op.token) op (frames o w.todo) ∨ (w.crashed = true ∧ Dropped op)

/-- The invariant of runs. -/
structure RunInv (w : LibeventWorld) : Prop extends Stack w where
  table : w.ctx.sockets.Ok
  phase : ∀ (o : OpId) (op : CpoState), w.ops[o]? = some op → Accounted w o op
  loops : ∀ s, Frame.stopLoop s ∈ w.todo → w.stopped s = true
  /-- a registered callback of a source with a requested stop is going to be called -/
  waiting : ∀ (o : OpId) (op : CpoState), w.ops[o]? = some op → op.callback = .registered →
    w.stopped op.token = true → Frame.stopLoop op.token ∈ w.todo

/-- The initial states: no socket, no operation, nothing on the call stack. -/
def initial : LibeventWorld := { ctx := {} }

theorem runInv_initial : RunInv initial where
  table := Table.ok_empty
  phase o op h := by simp [initial] at h
  known o m h := by simp [initial] at h
  top o op h := by simp [initial] at h
  loops s h := by simp [initial] at h
  waiting o op h := by simp [initial] at h

/-- A phase that no other step can disturb: nothing of the operation is left to be run, or it has
signalled. -/
theorem Phase.weaken {t t' : Table} {stopped stopped' : Bool} {op : CpoState} {fs : List AtomicStep}
    (h : Phase t stopped op fs) (hfs : signals op.history = [] → fs = [])
    (hstop : stopped = true → stopped' = true) : Phase t' stopped' op fs := by
  cases h with
  | pending h => exact .pending h
  | done h hl =>
    refine .done ⟨h.signals, ?_, h.unsubmitted, h.disarmed, h.unregistered⟩ ?_
    · exact h.cause.imp (fun ⟨hs, hf, ht⟩ => ⟨hs, hf, hstop ht⟩) id
    · cases hl with
      | clean hdef hl hout hfs => exact .clean hdef hl hout hfs
      | early hdef hout hfs => exact .early hdef hout (hfs.imp (fun ⟨ht, hfs⟩ => ⟨hstop ht, hfs⟩) id)
      | late hdef hl hfs => exact .late hdef hl hfs
  -- every other phase has steps left to be run and has not signalled
  | starting h | emplacing h | testing h | submitting h | entering h | cancelling h | cancelled h
    | stopping h | ending h | reporting h => exact absurd (hfs h.signals) (by simp)

section Step

variable {w w' : LibeventWorld} {o : OpId} {op : CpoState}

theorem Accounted.weaken {w' : LibeventWorld} (h : Accounted w o op)
    (hfs : signals op.history = [] → frames o w.todo = [])
    (hstop : ∀ s, w.stopped s = true → w'.stopped s = true)
    (htodo : frames o w'.todo = frames o w.todo) (hcrashed : w.crashed = true → w'.crashed = true) :
    Accounted w' o op := by
  rcases h with h | ⟨hc, h⟩
  · exact .inl (by rw [htodo]; exact h.weaken hfs (hstop _))
  · exact .inr ⟨hcrashed hc, h⟩

/-- A step of the program's own code, or the return from a function, that changes no operation. -/
theorem RunInv.quiet (h : RunInv w) (hops : w'.ops = w.ops) (htable : w'.ctx.sockets.Ok)
    (hidle : ∀ o m rest, w.todo ≠ .op o m :: rest)
    (hstop : ∀ s, w.stopped s = true → w'.stopped s = true)
    (hframes : ∀ o, frames o w'.todo = frames o w.todo)
    (hcrashed : w.crashed = true → w'.crashed = true)
    (hloops : ∀ s, Frame.stopLoop s ∈ w'.todo → w'.stopped s = true)
    (hwaiting : ∀ (o : OpId) (op : CpoState), w.ops[o]? = some op → op.callback = .registered →
      w'.stopped op.token = true → Frame.stopLoop op.token ∈ w'.todo) : RunInv w' where
  toStack := h.toStack.quiet hops hidle hframes
  table := htable
  phase o op hop := by
    rw [hops] at hop
    exact (h.phase o op hop).weaken (h.frames_nil hop (hidle o)) hstop (hframes o) hcrashed
  loops := hloops
  waiting o op hop := by
    rw [hops] at hop
    exact hwaiting o op hop

theorem RunInv.start (h : RunInv w) (hmay : w.userMay = true) (d : Desc) (token : Source) :
    RunInv (w.start d token) := by
  have hnew := h.frames_length
  have hold : ∀ o, o ≠ w.ops.length → frames o (w.start d token).todo = frames o w.todo := by
    intro o ho
    simp [World.start, frames_map_of_ne ho.symm]
  -- the new operation is the last one; the old ones keep their place
  have hsplit : ∀ (o : OpId) (op : CpoState), (w.start d token).ops[o]? = some op →
      (o = w.ops.length ∧ op = { desc := d, token := token }) ∨
        (o ≠ w.ops.length ∧ w.ops[o]? = some op) := by
    intro o op hop
    rcases getElem?_concat_cases hop with hnew | ⟨hlt, hop⟩
    · exact .inl hnew
    · exact .inr ⟨hlt.ne, hop⟩
  refine ⟨h.toStack.start hmay d token, h.table, fun o op hop => ?_, ?_, ?_⟩
  · rcases hsplit o op hop with ⟨rfl, rfl⟩ | ⟨ho, hop⟩
    · refine .inl ?_
      have : frames w.ops.length (w.start d token).todo = startCall := by
        simp [World.start, hnew]
      rw [this]
      exact .starting ⟨rfl, rfl, rfl, by simp, by simp, rfl, rfl, rfl, rfl⟩
    · exact (h.phase o op hop).weaken (h.frames_nil hop (ne_op_of_userMay hmay o)) (fun _ => id)
        (hold o ho) id
  · intro s hs
    simp only [World.start, List.mem_append, List.mem_map, reduceCtorEq, and_false, exists_false,
      false_or] at hs
    exact h.loops s hs
  · intro o op hop hcb hstop
    rcases hsplit o op hop with ⟨rfl, rfl⟩ | ⟨ho, hop⟩
    · cases hcb
    · exact List.mem_append_right _ (h.waiting o op hop hcb hstop)

theorem RunInv.requestStop (h : RunInv w) (hmay : w.userMay = true) (s : Source) :
    RunInv (w.requestStop s) := by
  unfold World.requestStop
  split
  next => exact h
  -- the first request: `stopped` is set and the loop over the callbacks starts
  next hs =>
    refine h.quiet rfl h.table (ne_op_of_userMay hmay) ?_ (fun o => by simp) id ?_ ?_
    · intro s' hs'
      by_cases heq : s' = s <;> simp [Function.update, heq, hs']
    · intro s' hs'
      rcases List.mem_cons.mp hs' with heq | hmem
      · cases heq
        simp
      · have := h.loops s' hmem
        by_cases heq : s' = s <;> simp [Function.update, heq, this]
    · intro o op hop hcb hstop
      by_cases heq : op.token = s
      · rw [heq]
        exact List.mem_cons_self
      · have hstop' : Function.update w.stopped s true op.token = true := hstop
        rw [Function.update_of_ne heq] at hstop'
        exact List.mem_cons_of_mem _ (h.waiting o op hop hcb hstop')

theorem Phase.signals_or_done {t : Table} {stopped : Bool} {fs : List AtomicStep}
    (h : Phase t stopped op fs) :
    signals op.history = [] ∨ ∃ s, Done stopped op s ∧ Leftover stopped op fs := by
  cases h with
  | done h hfs => exact .inr ⟨_, h, hfs⟩
  | starting h | emplacing h | testing h | submitting h | pending h | entering h | cancelling h
    | cancelled h | stopping h | ending h | reporting h => exact .inl h.signals

theorem Phase.pending_of {t : Table} {stopped : Bool} (h : Phase t stopped op [])
    (hcb : op.callback = .registered) : Pending op := by
  cases h with
  | pending h => exact h
  | done h => exact absurd hcb h.unregistered

/-- In a state that can take a step every operation is in a phase. -/
theorem RunInv.phase_of (h : RunInv w) (hc : w.crashed = false) (hop : w.ops[o]? = some op) :
    Phase w.ctx.sockets (w.stopped op.token) op (frames o w.todo) := by
  rcases h.phase o op hop with h | ⟨hc', -⟩
  · exact h
  · rw [hc] at hc'
    cases hc'

theorem RunInv.callback (h : RunInv w) (hc : w.crashed = false) {rest : List Frame}
    (htodo : w.todo = .stopLoop op.token :: rest) (hop : w.ops[o]? = some op)
    (hcb : op.callback = .registered) :
    RunInv { w with
      ops := w.ops.set o { op with callback := .executing }
      todo := callbackCall.map (.op o) ++ w.todo } := by
  have hidle : ∀ (o' : OpId) m rest', w.todo ≠ .op o' m :: rest' :=
    fun o' => ne_op_of_cons htodo fun _ => nofun
  -- a registered callback with no step to be run belongs to a pending operation
  have hpending : Pending op := by
    have hphase := h.phase_of hc hop
    have hs : signals op.history = [] := by
      rcases hphase.signals_or_done with hs | ⟨s, hs, -⟩
      · exact hs
      · exact absurd hcb hs.unregistered
    rw [h.frames_nil hop (hidle o) hs] at hphase
    exact hphase.pending_of hcb
  have hnil : frames o w.todo = [] := h.frames_nil hop (hidle o) hpending.signals
  -- the steps of the callback are run on `o` alone
  have hother : ∀ o', o' ≠ o →
      frames o' (callbackCall.map (.op o) ++ w.todo) = frames o' w.todo := by
    intro o' ho'
    rw [frames_append, frames_map_of_ne ho'.symm, List.nil_append]
  refine ⟨h.toStack.callback hop htodo, h.table, fun o' op' hop' => ?_, ?_, ?_⟩
  · rcases getElem?_set_cases hop' with ⟨rfl, rfl⟩ | ⟨ho', hop'⟩
    · refine .inl ?_
      rw [frames_append, hnil, frames_map_self, List.append_nil]
      refine .entering ⟨hpending.signals, hpending.findings, hpending.outstanding, rfl,
        .inl ⟨rfl, hpending.deferred⟩⟩ (h.loops op.token ?_)
      rw [htodo]
      exact List.mem_cons_self
    · exact (h.phase o' op' hop').weaken (h.frames_nil hop' (hidle o')) (fun _ => id)
        (hother o' ho') id
  · intro s hs
    simp only [List.mem_append, List.mem_map, reduceCtorEq, and_false, exists_false, false_or] at hs
    exact h.loops s hs
  · intro o' op' hop' hcb' hstop
    rcases getElem?_set_cases hop' with ⟨rfl, rfl⟩ | ⟨ho', hop'⟩
    · cases hcb'
    · exact List.mem_append_right _ (h.waiting o' op' hop' hcb' hstop)

/-- An exception ends the program: only the history of its operation has changed. -/
theorem RunInv.crash (h : RunInv w) (hop : w.ops[o]? = some op) {x : CpoState} (hx : Dropped x)
    (hstack : Stack { w with ops := w.ops.set o x, crashed := true }) (htoken : x.token = op.token)
    (hcb : x.callback = .registered → op.callback = .registered ∨ w.stopped op.token = false) :
    RunInv { w with ops := w.ops.set o x, crashed := true } := by
  refine ⟨hstack, h.table, fun o' op' hop' => ?_, h.loops, ?_⟩
  · rcases getElem?_set_cases hop' with ⟨rfl, rfl⟩ | ⟨ho', hop'⟩
    -- the operation that threw is accounted for by the crash, the others as before
    · exact .inr ⟨rfl, hx⟩
    · exact (h.phase o' op' hop').imp id fun ⟨_, h⟩ => ⟨rfl, h⟩
  · intro o' op' hop' hcb' hstop
    rcases getElem?_set_cases hop' with ⟨rfl, rfl⟩ | ⟨ho', hop'⟩
    · rw [htoken] at hstop ⊢
      rcases hcb hcb' with hcb | hno
      · exact h.waiting o' op hop hcb hstop
      · exact absurd (hno.symm.trans hstop) (by simp)
    · exact h.waiting o' op' hop' hcb' hstop

/-- A step on operation `o` that leads to a phase preserves the invariant; `rest` is what is left of
the call stack. -/
theorem RunInv.apply (h : RunInv w) (hop : w.ops[o]? = some op) {rest : List Frame}
    {e : Effect LibeventContext} (hstack : Stack (w.apply o rest e)) (hf : e.fault = false)
    (htable : e.ctx.sockets.Ok) (hkept : Kept (w.stopped op.token) op e)
    (hphase : Phase e.ctx.sockets (w.stopped op.token) e.op (e.next ++ frames o rest))
    (hidle : ∀ o', o' ≠ o → ∀ m r, w.todo ≠ .op o' m :: r)
    (htodo : w.todo = rest ∨ ∃ m, w.todo = .op o m :: rest) : RunInv (w.apply o rest e) := by
  -- the step and the steps that follow it are on the operation `o`
  have hother : ∀ o', o' ≠ o → frames o' (w.apply o rest e).todo = frames o' w.todo := by
    intro o' ho'
    refine frames_apply_of_ne ho'.symm ?_
    rcases htodo with htodo | ⟨m, htodo⟩ <;> rw [htodo]
    rw [frames_op_of_ne ho'.symm]
  have hops : (w.apply o rest e).ops = w.ops.set o e.op := apply_ops w o rest e
  have hctx : (w.apply o rest e).ctx = e.ctx := apply_ctx hf
  have hstop : (w.apply o rest e).stopped = w.stopped := apply_stopped w o rest e
  -- the loops of the stop sources stay on the call stack
  have hloop : ∀ s, Frame.stopLoop s ∈ (w.apply o rest e).todo ↔ Frame.stopLoop s ∈ w.todo := by
    intro s
    have hrest : Frame.stopLoop s ∈ w.todo ↔ Frame.stopLoop s ∈ rest := by
      rcases htodo with htodo | ⟨m, htodo⟩ <;> rw [htodo]
      simp
    rw [hrest]
    cases hsig : e.signal <;> simp [World.apply, hf, hsig]
  refine ⟨hstack, by rw [hctx]; exact htable, fun o' op' hop' => ?_, fun s hs => ?_,
    fun o' op' hop' hcb hst => ?_⟩
  · rw [hops] at hop'
    rcases getElem?_set_cases hop' with ⟨rfl, rfl⟩ | ⟨ho', hop'⟩
    · exact .inl (by rw [hctx, hstop, frames_apply_self hf, hkept.token]; exact hphase)
    · refine (h.phase o' op' hop').weaken (h.frames_nil hop' (hidle o' ho')) ?_ (hother o' ho') ?_
      · rw [hstop]
        exact fun _ => id
      · rw [apply_crashed hf]
        exact id
  · rw [hstop]
    exact h.loops s ((hloop s).mp hs)
  · rw [hops] at hop'
    rw [hstop] at hst
    rw [hloop]
    rcases getElem?_set_cases hop' with ⟨rfl, rfl⟩ | ⟨ho', hop'⟩
    · rw [hkept.token] at hst ⊢
      -- registered before the step, or registered by it with no stop requested
      rcases hkept.callback hcb with hcb | hno
      · exact h.waiting o' op hop hcb hst
      · rw [hst] at hno
        cases hno
    · exact h.waiting o' op' hop' hcb hst

theorem RunInv.perform (h : RunInv w) (hc : w.crashed = false) {m : AtomicStep} {rest : List Frame}
    {env : Env} {e : Effect LibeventContext} (hstack : Stack (w.apply o rest e))
    (htodo : w.todo = .op o m :: rest) (hop : w.ops[o]? = some op)
    (he : m.perform (w.stopped op.token) env w.ctx o op = some e) : RunInv (w.apply o rest e) := by
  have hphase := h.phase_of hc hop
  rw [htodo, frames_op_self] at hphase
  have hkept := perform_kept he
  cases hf : e.fault with
  | true =>
    rw [apply_of_fault hf] at hstack ⊢
    exact h.crash hop (hphase.perform_fault he hf) hstack hkept.token hkept.callback
  | false =>
    obtain ⟨hctx, hphase', -⟩ := hphase.perform he hf
    exact h.apply hop hstack hf (by rw [hctx]; exact h.table) hkept (by rw [hctx]; exact hphase')
      (fun o' ho' => ne_op_of_cons htodo (ne_op_of_ne ho')) (.inr ⟨m, htodo⟩)

theorem RunInv.ready (h : RunInv w) (hc : w.crashed = false) {env : Env}
    {e : Effect LibeventContext} (hstack : Stack (w.apply o [] e)) (htodo : w.todo = [])
    (hop : w.ops[o]? = some op) (harmed : op.isArmed = true)
    (he : LibeventContext.callback w.ctx op env = some e) : RunInv (w.apply o [] e) := by
  have hphase := h.phase_of hc hop
  rw [htodo, World.frames_nil] at hphase
  have hkept : Kept (w.stopped op.token) op e := (callback_silent he).kept _
  cases hf : e.fault with
  | true =>
    rw [apply_of_fault hf] at hstack ⊢
    exact h.crash hop (hphase.dispatch_fault harmed he hf) hstack hkept.token hkept.callback
  | false =>
    obtain ⟨htable, -, hphase'⟩ := hphase.dispatch harmed h.table he hf
    exact h.apply hop hstack hf htable.ok hkept (by simpa using hphase')
      (fun o' _ => ne_op_of_nil htodo o') (.inl htodo)

/-- **Invariant step**: every step of the program and of the event loop preserves the invariant. -/
theorem RunInv.step {l : Label} (h : RunInv w) (hstep : w.step l = some w') : RunInv w' := by
  obtain ⟨hc, hcases⟩ := step_cases hstep
  cases hcases with
  | start hmay => exact h.start hmay _ _
  | requestStop hmay => exact h.requestStop hmay _
  | makeSocket hmay hfresh hmake =>
    have hok := (Table.Extends.of_makeSocket h.table hfresh hmake).ok
    exact h.quiet rfl hok (ne_op_of_userMay hmay) (fun _ => id) (fun _ => rfl) id h.loops h.waiting
  | released hmay hrelease =>
    obtain ⟨r, -, hok, -⟩ := Table.release_cases h.table hrelease
    exact h.quiet rfl hok (ne_op_of_userMay hmay) (fun _ => id) (fun _ => rfl) id h.loops h.waiting
  | notReleased => exact h
  -- returning code of the program or a receiver leaves every operation alone
  | userReturn htodo =>
    have hidle := fun o => ne_op_of_cons (o := o) htodo fun _ => nofun
    refine h.quiet rfl h.table hidle (fun _ => id) ?_ id ?_ ?_
    · intro o
      rw [htodo, frames_user]
    · intro s hs
      exact h.loops s (by rw [htodo]; exact List.mem_cons_of_mem _ hs)
    · intro o op hop hcb hst
      have := h.waiting o op hop hcb hst
      rw [htodo] at this
      simpa using this
  | callback htodo hop hcb => exact h.callback hc htodo hop hcb
  | stopDone htodo hnone =>
    have hidle := fun o => ne_op_of_cons (o := o) htodo fun _ => nofun
    refine h.quiet rfl h.table hidle (fun _ => id) ?_ id ?_ ?_
    · intro o
      rw [htodo, frames_stopLoop]
    · intro s hs
      exact h.loops s (by rw [htodo]; exact List.mem_cons_of_mem _ hs)
    · -- the callbacks of the source that was served have all been called
      intro o op hop hcb hst
      have hmem := h.waiting o op hop hcb hst
      rw [htodo] at hmem
      rcases List.mem_cons.mp hmem with heq | hmem
      · cases heq
        exact absurd hcb (hnone op (List.mem_of_getElem? hop) rfl)
      · exact hmem
  | perform htodo hop he => exact h.perform hc (h.toStack.step hstep) htodo hop he
  | ready htodo hop hreg he => exact h.ready hc (h.toStack.step hstep) htodo hop hreg he

/-! ## What a step does -/

/-- A receiver is signalled by a step of its operation, which changes nothing in the context. -/
theorem RunInv.signal_step (h : RunInv w) {l : Label} (hstep : w.step l = some w')
    (hop : w.ops[o]? = some op) {op' : CpoState} (hop' : w'.ops[o]? = some op')
    (hs : signals op.history = []) {s : Signal} (hs' : s ∈ signals op'.history) :
    Says w.ctx.sockets op s ∧ w'.ctx = w.ctx := by
  obtain ⟨hc, -⟩ := step_cases hstep
  have hphase := h.phase_of hc hop
  cases step_op hstep hop hop' with
  | same | callback => simp [hs] at hs'
  | @perform env m rest e htodo he =>
    rw [htodo, frames_op_self] at hphase
    obtain ⟨added, hhist, hsignals⟩ := (perform_kept he).history
    rw [hhist, signals_append, hs, hsignals, List.nil_append, Option.mem_toList] at hs'
    cases hf : e.fault with
    | true =>
      -- the exception came out before anything was sent
      have hnil := (hphase.perform_fault he hf).signals
      rw [hhist, signals_append, hsignals, hs', List.append_eq_nil_iff] at hnil
      cases hnil.2
    | false =>
      obtain ⟨hctx, -, hsaid⟩ := hphase.perform he hf
      exact ⟨(hsaid s hs').2, (apply_ctx hf).trans hctx⟩
  | @ready env e htodo hreg he =>
    rw [htodo, World.frames_nil] at hphase
    obtain ⟨added, hhist, hsignals⟩ := ((callback_silent he).kept true).history
    rw [hhist, signals_append, hs, hsignals, List.nil_append, Option.mem_toList] at hs'
    cases hf : e.fault with
    | true =>
      -- `_Work` threw before it called `_Complete` or `_Error`
      have hnil := (hphase.dispatch_fault hreg he hf).signals
      rw [hhist, signals_append, hsignals, hs', List.append_eq_nil_iff] at hnil
      cases hnil.2
    | false =>
      -- `_Work` only makes `_Complete` or `_Error` the next step; the signal comes later
      have hnone := (hphase.dispatch hreg h.table he hf).2.1
      rw [hs'] at hnone
      cases hnone

/-- What a step does to the socket table. -/
theorem RunInv.step_evolves {l : Label} (h : RunInv w) (hstep : w.step l = some w') :
    w.ctx.sockets.Evolves w'.ctx.sockets := by
  obtain ⟨hc, hcases⟩ := step_cases hstep
  cases hcases with
  | requestStop hmay =>
    unfold World.requestStop
    split <;> exact .refl _
  | makeSocket hmay hfresh hmake => exact (Table.Extends.of_makeSocket h.table hfresh hmake).evolves
  | released hmay hrelease => exact .of_release h.table hrelease
  | start | notReleased | userReturn | callback | stopDone => exact .refl _
  | @perform env o m rest op e htodo hop he =>
    cases hf : e.fault with
    | true =>
      rw [apply_of_fault hf]
      exact .refl _
    | false =>
      have hphase := h.phase_of hc hop
      rw [htodo, frames_op_self] at hphase
      obtain ⟨hctx, -⟩ := hphase.perform he hf
      rw [apply_ctx hf, hctx]
      exact .refl _
  | @ready env o op e htodo hop hreg he =>
    cases hf : e.fault with
    | true =>
      rw [apply_of_fault hf]
      exact .refl _
    | false =>
      have hphase := h.phase_of hc hop
      rw [htodo, World.frames_nil] at hphase
      rw [apply_ctx hf]
      exact (hphase.dispatch hreg h.table he hf).1.evolves

/-! ## Operations at rest -/

/-- While the program's own code or a receiver's code runs, an operation that has not signalled is
pending in the event loop. -/
theorem RunInv.pending_of_userMay (h : RunInv w) (hc : w.crashed = false) (hmay : w.userMay = true)
    (hop : w.ops[o]? = some op) (hs : signals op.history = []) :
    Pending op ∧ frames o w.todo = [] := by
  have hnil := h.frames_nil hop (ne_op_of_userMay hmay o) hs
  have hphase := h.phase_of hc hop
  rw [hnil] at hphase
  refine ⟨?_, hnil⟩
  cases hphase with
  | pending h => exact h
  | done h => simp [h.signals] at hs

theorem RunInv.signals_cases (h : RunInv w) (hop : w.ops[o]? = some op) :
    signals op.history = [] ∨ ∃ s, signals op.history = [s] := by
  rcases h.phase o op hop with hphase | ⟨-, hdropped⟩
  · exact hphase.signals_or_done.imp id fun ⟨s, hs, _⟩ => ⟨s, hs.signals⟩
  · exact .inl hdropped.signals

/-- No event is armed for an operation that has signalled. -/
theorem RunInv.disarmed (h : RunInv w) (hop : w.ops[o]? = some op)
    (hs : signals op.history ≠ []) : op.isArmed = false := by
  rcases h.phase o op hop with hphase | ⟨-, hdropped⟩
  · rcases hphase.signals_or_done with hnil | ⟨s, hdone, -⟩
    · exact absurd hnil hs
    · exact hdone.disarmed
  · exact absurd hdropped.signals hs

/-- A signal is the last one. -/
theorem RunInv.step_signals {l : Label} (h : RunInv w) (hstep : w.step l = some w')
    (hop : w.ops[o]? = some op) {s : Signal} (hs : signals op.history = [s]) :
    ∃ op', w'.ops[o]? = some op' ∧ signals op'.history = [s] := by
  obtain ⟨op', hop', -, -, added, hhist⟩ := step_grows hstep hop
  refine ⟨op', hop', ?_⟩
  -- histories grow, and no history has two signals
  rcases (h.step hstep).signals_cases hop' with hnil | ⟨s', hone⟩
  · rw [← hhist, signals_append, hs] at hnil
    cases hnil
  · rw [hone]
    rw [← hhist, signals_append, hs] at hone
    rw [(List.cons.inj hone).1]

/-- What every step keeps of one operation, a run keeps of it. -/
theorem RunInv.run_op {ls : List Label} {P : LibeventWorld → CpoState → Prop} (h : RunInv w)
    (hrun : World.run w ls = some w')
    (hstep : ∀ {w w' : LibeventWorld} {l : Label} {op : CpoState}, P w op → RunInv w →
      w.ops[o]? = some op → w.step l = some w' → ∃ op', w'.ops[o]? = some op' ∧ P w' op')
    (hop : w.ops[o]? = some op) (hp : P w op) : ∃ op', w'.ops[o]? = some op' ∧ P w' op' := by
  refine (StepMachine.run_invariant World.step
    (I := fun w => RunInv w ∧ ∃ op, w.ops[o]? = some op ∧ P w op) ?_ ⟨h, op, hop, hp⟩ hrun).2
  rintro w₁ l w₂ ⟨hinv, op₁, hop₁, hp₁⟩ hstep₁
  exact ⟨hinv.step hstep₁, hstep hp₁ hinv hop₁ hstep₁⟩

theorem RunInv.run_signals {ls : List Label} (h : RunInv w) (hrun : World.run w ls = some w')
    (hop : w.ops[o]? = some op) {s : Signal} (hs : signals op.history = [s]) :
    ∃ op', w'.ops[o]? = some op' ∧ signals op'.history = [s] :=
  h.run_op (P := fun _ op => signals op.history = [s]) hrun
    (fun hs hinv hop hstep => hinv.step_signals hstep hop hs) hop hs

end Step

/-- The states that a program reaches. -/
def Reachable (w : LibeventWorld) : Prop :=
  ∃ ls, World.run initial ls = some w

theorem Reachable.inv {w : LibeventWorld} (h : Reachable w) : RunInv w := by
  obtain ⟨ls, hrun⟩ := h
  exact StepMachine.run_invariant World.step (fun _ _ _ => RunInv.step) runInv_initial hrun

theorem Reachable.run {w w' : LibeventWorld} (h : Reachable w) {ls : List Label}
    (hrun : World.run w ls = some w') : Reachable w' := by
  obtain ⟨ls', hrun'⟩ := h
  exact ⟨ls' ++ ls, (StepMachine.run_append_eq_some World.step).mpr ⟨w, hrun', hrun⟩⟩

/-! ## Accounts -/

/-- An operation that was settled by nothing has signalled nothing but a stop, and one that was
settled has signalled its result. -/
def Balanced (op : CpoState) : Prop :=
  (findings op.desc op.history = [] ∧
      (signals op.history = [] ∨ signals op.history = [.stopped])) ∨
    ∃ w s, findings op.desc op.history = [w] ∧ signals op.history = [s] ∧ Reports op.desc w s

/-- The account of an operation is balanced once it has signalled, and whenever no function is
executing on it. -/
theorem Reachable.account {w : LibeventWorld} (h : Reachable w) {o : OpId} {op : CpoState}
    (hop : w.ops[o]? = some op)
    (hend : signals op.history ≠ [] ∨ frames o w.todo = []) : Balanced op := by
  rcases h.inv.phase o op hop with hphase | ⟨-, hdropped⟩
  · -- whether a step is left to be run decides which phases are at rest
    generalize frames o w.todo = fs at hphase hend
    cases hphase with
    | done h =>
      rcases h.cause with ⟨rfl, hf, -⟩ | ⟨w, hf, hr⟩
      · exact .inl ⟨hf, .inr h.signals⟩
      · exact .inr ⟨w, _, hf, h.signals, hr⟩
    | pending h => exact .inl ⟨h.findings, .inl h.signals⟩
    | starting h | emplacing h | testing h | submitting h | entering h | cancelling h | cancelled h
      | stopping h | ending h | reporting h =>
      rcases hend with hs | hfs
      · exact absurd h.signals hs
      · cases hfs
  · exact .inl ⟨hdropped.findings, .inl hdropped.signals⟩

end LibeventContext

end Stdnet
