import Mathlib.Logic.Function.Basic
import Stdnet.Library.ListEntries
import Stdnet.Library.StepMachine
import Stdnet.Operation

/-!
# Single-Threaded Runs of a Context

A program that drives one context from one thread: its own code starts operations, requests stops,
creates and releases sockets, and lets the event loop deliver readiness indications. The receivers'
code runs inside completions and may do all of this except run the event loop.

The state is the context, the operations started so far, the stop sources and the call stack: the
list of what the functions being executed still have to do, the innermost first. The label of a step
resolves what the program and the operating system decide.
-/

namespace Stdnet

/-- What is still to be done by a function on the call stack. -/
inductive Frame where
  /-- the code of a receiver, called by a completion -/
  | user
  /-- `request_stop`, running the callbacks of its stop source -/
  | stopLoop (s : Source)
  /-- a step on an operation -/
  | op (o : OpId) (m : AtomicStep)
  deriving DecidableEq, Repr

/-- A context, its operations in the order in which they were started, the stop sources and the call
stack. -/
structure World (κ : Type*) where
  ctx : κ
  ops : List CpoState := []
  stopped : Source → Bool := fun _ => false
  todo : List Frame := []
  crashed : Bool := false

/-- The choices of the program and of the operating system. -/
inductive Label where
  /-- the program starts an operation: the upstream sender completes with a value -/
  | start (d : Desc) (token : Source)
  /-- the program calls `request_stop` -/
  | requestStop (s : Source)
  /-- the program creates a socket -/
  | makeSocket (fd : Handle)
  /-- the program releases a socket, by closing or destroying its owner -/
  | release (id : SocketId) (close : SysResult)
  /-- the code of a receiver returns -/
  | userReturn
  /-- the stop source calls a registered callback; their order is not specified -/
  | callback (o : OpId)
  /-- the stop source finds no registered callback: `request_stop` returns -/
  | stopDone
  /-- the next step on the call stack is run -/
  | perform (env : Env)
  /-- the event loop delivers a readiness indication -/
  | ready (o : OpId) (env : Env)

namespace World

open ListEntries

variable {κ : Type*} [ContextBase κ]

/-- The program's own code or a receiver's code is being executed. -/
def userMay (w : World κ) : Bool :=
  match w.todo with
  | [] | .user :: _ => true
  | _ => false

/-- `_Start()` of a new operation. -/
def start (w : World κ) (d : Desc) (token : Source) : World κ :=
  { w with
    ops := w.ops ++ [{ desc := d, token := token }]
    todo := startCall.map (.op w.ops.length) ++ w.todo }

/-- `request_stop`: nothing happens if a stop has already been requested. -/
def requestStop (w : World κ) (s : Source) : World κ :=
  if w.stopped s then w
  else { w with stopped := Function.update w.stopped s true, todo := .stopLoop s :: w.todo }

/-- The effect of a step on operation `o`; `rest` is the call stack below the step. A signal calls
the code of the receiver. An exception that escapes ends the program. -/
def apply (w : World κ) (o : OpId) (rest : List Frame) (e : Effect κ) : World κ :=
  if e.fault then { w with ops := w.ops.set o e.op, crashed := true }
  else
    -- the steps of the call made come first, then the receiver, then the caller
    { w with
      ctx := e.ctx
      ops := w.ops.set o e.op
      todo := e.next.map (.op o) ++ (if e.signal.isSome then [.user] else []) ++ rest }

/-- The operation has its callback registered with the stop source `s`. -/
def listens (op : CpoState) (s : Source) : Bool :=
  op.token = s ∧ op.callback = .registered

/-- One step. A failing `_Release` throws before anything changes. -/
def step (w : World κ) (l : Label) : Option (World κ) :=
  if w.crashed then none
  else
    match l with
    | .start d token => if w.userMay then some (w.start d token) else none
    | .requestStop s => if w.userMay then some (w.requestStop s) else none
    | .makeSocket fd =>
      if w.userMay ∧ (ContextBase.sockets w.ctx).Fresh fd then
        match (ContextBase.sockets w.ctx).makeSocket fd with
        | .ok (_, t) => some { w with ctx := ContextBase.withSockets w.ctx t }
        | .error _ => none
      else none
    | .release id close =>
      if w.userMay then
        match (ContextBase.sockets w.ctx).release id close with
        | .ok (t, _) => some { w with ctx := ContextBase.withSockets w.ctx t }
        | .error _ => some w
      else none
    | .userReturn =>
      match w.todo with
      | .user :: rest => some { w with todo := rest }
      | _ => none
    -- the loop of `request_stop` pops a callback and runs it
    | .callback o =>
      match w.todo, w.ops[o]? with
      | .stopLoop s :: _, some op =>
        if listens op s then
          some { w with
            ops := w.ops.set o { op with callback := .executing }
            todo := callbackCall.map (.op o) ++ w.todo }
        else none
      | _, _ => none
    -- no callback of the source is registered: the loop of `request_stop` ends
    | .stopDone =>
      match w.todo with
      | .stopLoop s :: rest => if w.ops.any (listens · s) then none else some { w with todo := rest }
      | _ => none
    -- the innermost function goes on
    | .perform env =>
      match w.todo with
      | .op o m :: rest =>
        match w.ops[o]? with
        | some op => (m.perform (w.stopped op.token) env w.ctx o op).map (w.apply o rest)
        | none => none
      | _ => none
    -- the event loop runs only when no function is executing
    | .ready o env =>
      match w.todo, w.ops[o]? with
      | [], some op =>
        if ContextBase.isRegistered w.ctx o op then
          (ContextBase.ready w.ctx o op env).map (w.apply o [])
        else none
      | _, _ => none

omit [ContextBase κ] in
@[simp] theorem apply_ops (w : World κ) (o : OpId) (rest : List Frame) (e : Effect κ) :
    (w.apply o rest e).ops = w.ops.set o e.op := by
  unfold apply
  split <;> rfl

omit [ContextBase κ] in
@[simp] theorem apply_stopped (w : World κ) (o : OpId) (rest : List Frame) (e : Effect κ) :
    (w.apply o rest e).stopped = w.stopped := by
  unfold apply
  split <;> rfl

omit [ContextBase κ] in
/-- An exception changes nothing but its operation. -/
theorem apply_of_fault {w : World κ} {o : OpId} {rest : List Frame} {e : Effect κ}
    (hf : e.fault = true) :
    w.apply o rest e = { w with ops := w.ops.set o e.op, crashed := true } := by
  rw [apply, if_pos hf]

omit [ContextBase κ] in
theorem apply_ctx {w : World κ} {o : OpId} {rest : List Frame} {e : Effect κ}
    (hf : e.fault = false) : (w.apply o rest e).ctx = e.ctx := by
  simp [apply, hf]

omit [ContextBase κ] in
theorem apply_crashed {w : World κ} {o : OpId} {rest : List Frame} {e : Effect κ}
    (hf : e.fault = false) : (w.apply o rest e).crashed = w.crashed := by
  simp [apply, hf]

omit [ContextBase κ] in
/-- A step after which the program runs on threw nothing. -/
theorem fault_eq_false {w : World κ} {o : OpId} {rest : List Frame} {e : Effect κ}
    (hc : (w.apply o rest e).crashed = false) : e.fault = false := by
  cases hf : e.fault with
  | false => rfl
  | true =>
    rw [apply_of_fault hf] at hc
    cases hc

/-- What a step can do, with everything that it requires. -/
inductive StepCases (w : World κ) : Label → World κ → Prop where
  | start {d : Desc} {token : Source} (hmay : w.userMay = true) :
      StepCases w (.start d token) (w.start d token)
  | requestStop {s : Source} (hmay : w.userMay = true) :
      StepCases w (.requestStop s) (w.requestStop s)
  | makeSocket {fd : Handle} {id : SocketId} {t : Table} (hmay : w.userMay = true)
      (hfresh : (ContextBase.sockets w.ctx).Fresh fd)
      (hmake : (ContextBase.sockets w.ctx).makeSocket fd = .ok (id, t)) :
      StepCases w (.makeSocket fd) { w with ctx := ContextBase.withSockets w.ctx t }
  | released {id : SocketId} {close : SysResult} {t : Table} {e : Option ErrorCode}
      (hmay : w.userMay = true)
      (hrelease : (ContextBase.sockets w.ctx).release id close = .ok (t, e)) :
      StepCases w (.release id close) { w with ctx := ContextBase.withSockets w.ctx t }
  | notReleased {id : SocketId} {close : SysResult} {f : Fault} (hmay : w.userMay = true)
      (hrelease : (ContextBase.sockets w.ctx).release id close = .error f) :
      StepCases w (.release id close) w
  | userReturn {rest : List Frame} (htodo : w.todo = .user :: rest) :
      StepCases w .userReturn { w with todo := rest }
  | callback {o : OpId} {op : CpoState} {rest : List Frame}
      (htodo : w.todo = .stopLoop op.token :: rest) (hop : w.ops[o]? = some op)
      (hcb : op.callback = .registered) :
      StepCases w (.callback o) { w with
        ops := w.ops.set o { op with callback := .executing }
        todo := callbackCall.map (.op o) ++ w.todo }
  | stopDone {s : Source} {rest : List Frame} (htodo : w.todo = .stopLoop s :: rest)
      (hnone : ∀ op ∈ w.ops, op.token = s → op.callback ≠ .registered) :
      StepCases w .stopDone { w with todo := rest }
  | perform {env : Env} {o : OpId} {m : AtomicStep} {rest : List Frame} {op : CpoState}
      {e : Effect κ}
      (htodo : w.todo = .op o m :: rest) (hop : w.ops[o]? = some op)
      (he : m.perform (w.stopped op.token) env w.ctx o op = some e) :
      StepCases w (.perform env) (w.apply o rest e)
  | ready {env : Env} {o : OpId} {op : CpoState} {e : Effect κ}
      (htodo : w.todo = []) (hop : w.ops[o]? = some op)
      (hreg : ContextBase.isRegistered w.ctx o op = true)
      (he : ContextBase.ready w.ctx o op env = some e) :
      StepCases w (.ready o env) (w.apply o [] e)

theorem step_cases {w w' : World κ} {l : Label} (h : w.step l = some w') :
    w.crashed = false ∧ StepCases w l w' := by
  unfold step at h
  split at h
  next => cases h
  next hcrashed =>
    refine ⟨by simpa using hcrashed, ?_⟩
    cases l with
    | start d token =>
      simp only [Option.ite_none_right_eq_some, Option.some.injEq] at h
      obtain ⟨hmay, rfl⟩ := h
      exact .start hmay
    | requestStop s =>
      simp only [Option.ite_none_right_eq_some, Option.some.injEq] at h
      obtain ⟨hmay, rfl⟩ := h
      exact .requestStop hmay
    | makeSocket fd =>
      simp only [Option.ite_none_right_eq_some] at h
      obtain ⟨⟨hmay, hfresh⟩, h⟩ := h
      split at h
      next id t hmake =>
        obtain rfl := Option.some.inj h
        exact .makeSocket hmay hfresh hmake
      next => cases h
    | release id close =>
      simp only [Option.ite_none_right_eq_some] at h
      obtain ⟨hmay, h⟩ := h
      split at h
      next t e hrelease =>
        obtain rfl := Option.some.inj h
        exact .released hmay hrelease
      next f hrelease =>
        obtain rfl := Option.some.inj h
        exact .notReleased hmay hrelease
    | userReturn =>
      simp only at h
      split at h
      next rest htodo =>
        obtain rfl := Option.some.inj h
        exact .userReturn htodo
      next => cases h
    | callback o =>
      simp only at h
      split at h
      next s rest op htodo hop =>
        simp only [Option.ite_none_right_eq_some, listens, decide_eq_true_eq, Option.some.injEq] at h
        obtain ⟨⟨rfl, hcb⟩, rfl⟩ := h
        exact .callback htodo hop hcb
      next => cases h
    | stopDone =>
      simp only at h
      split at h
      next s rest htodo =>
        simp only [Option.ite_none_left_eq_some, List.any_eq_true, listens, decide_eq_true_eq,
          not_exists, not_and, Option.some.injEq] at h
        obtain ⟨hnone, rfl⟩ := h
        exact .stopDone htodo hnone
      next => cases h
    | perform env =>
      simp only at h
      split at h
      next o m rest htodo =>
        split at h
        next op hop =>
          obtain ⟨e, he, rfl⟩ := Option.map_eq_some_iff.mp h
          exact .perform htodo hop he
        next => cases h
      next => cases h
    | ready o env =>
      simp only at h
      split at h
      next op htodo hop =>
        simp only [Option.ite_none_right_eq_some] at h
        obtain ⟨hreg, h⟩ := h
        obtain ⟨e, he, rfl⟩ := Option.map_eq_some_iff.mp h
        exact .ready htodo hop hreg he
      next => cases h

theorem step_perform {w : World κ} {o : OpId} {m : AtomicStep} {rest : List Frame} {op : CpoState}
    {env : Env} {e : Effect κ} (hc : w.crashed = false) (htodo : w.todo = .op o m :: rest)
    (hop : w.ops[o]? = some op) (he : m.perform (w.stopped op.token) env w.ctx o op = some e) :
    w.step (.perform env) = some (w.apply o rest e) := by
  simp [step, hc, htodo, hop, he]

theorem step_ready {w : World κ} {o : OpId} {op : CpoState} {env : Env} {e : Effect κ}
    (hc : w.crashed = false) (htodo : w.todo = []) (hop : w.ops[o]? = some op)
    (hreg : ContextBase.isRegistered w.ctx o op = true)
    (he : ContextBase.ready w.ctx o op env = some e) :
    w.step (.ready o env) = some (w.apply o [] e) := by
  simp [step, hc, htodo, hop, hreg, he]

/-- The runs of a context: the state after the labels, `none` if one of them is not possible. -/
abbrev run (w : World κ) (ls : List Label) : Option (World κ) :=
  StepMachine.run step w ls

/-! ## The steps still to be run on an operation -/

/-- The step of a frame, if it is one on operation `o`. -/
def frameOf (o : OpId) : Frame → Option AtomicStep
  | .op o' m => if o' = o then some m else none
  | _ => none

/-- The steps on the call stack that are for operation `o`. -/
def frames (o : OpId) (todo : List Frame) : List AtomicStep :=
  todo.filterMap (frameOf o)

@[simp] theorem frames_nil (o : OpId) : frames o [] = [] := rfl

@[simp] theorem frames_append (o : OpId) (fs gs : List Frame) :
    frames o (fs ++ gs) = frames o fs ++ frames o gs :=
  List.filterMap_append

@[simp] theorem frames_user (o : OpId) (fs : List Frame) : frames o (.user :: fs) = frames o fs :=
  List.filterMap_cons_none rfl

@[simp] theorem frames_stopLoop (o : OpId) (s : Source) (fs : List Frame) :
    frames o (.stopLoop s :: fs) = frames o fs :=
  List.filterMap_cons_none rfl

@[simp] theorem frames_op_self (o : OpId) (m : AtomicStep) (fs : List Frame) :
    frames o (.op o m :: fs) = m :: frames o fs :=
  List.filterMap_cons_some (if_pos rfl)

theorem frames_op_of_ne {o o' : OpId} (h : o' ≠ o) (m : AtomicStep) (fs : List Frame) :
    frames o (.op o' m :: fs) = frames o fs :=
  List.filterMap_cons_none (if_neg h)

@[simp] theorem frames_map_self (o : OpId) (ms : List AtomicStep) :
    frames o (ms.map (.op o)) = ms := by
  induction ms with
  | nil => rfl
  | cons m ms ih => rw [List.map_cons, frames_op_self, ih]

theorem frames_map_of_ne {o o' : OpId} (h : o' ≠ o) (ms : List AtomicStep) :
    frames o (ms.map (.op o')) = [] := by
  induction ms with
  | nil => rfl
  | cons m ms ih => rw [List.map_cons, frames_op_of_ne h, ih]

theorem mem_frames {o : OpId} {m : AtomicStep} {todo : List Frame} :
    m ∈ frames o todo ↔ .op o m ∈ todo := by
  simp only [frames, List.mem_filterMap]
  constructor
  · rintro ⟨f, hf, hm⟩
    cases f with
    | op o' m' =>
      simp only [frameOf, Option.ite_none_right_eq_some, Option.some.injEq] at hm
      obtain ⟨rfl, rfl⟩ := hm
      exact hf
    | user => cases hm
    | stopLoop s => cases hm
  · intro h
    exact ⟨_, h, if_pos rfl⟩

/-! ## What a step does to one operation -/

/-- The operation `op` at `o` and what it is after a step: unchanged, or called back by its stop
source, or the subject of the step. -/
inductive OpCases (w : World κ) (o : OpId) (op : CpoState) : Label → World κ → CpoState → Prop where
  | same {l : Label} {w' : World κ} (hl : ∀ env, l ≠ .ready o env)
      (hframes : frames o w'.todo = frames o w.todo) : OpCases w o op l w' op
  | callback {rest : List Frame} {w' : World κ} (htodo : w.todo = .stopLoop op.token :: rest)
      (hcb : op.callback = .registered)
      (hframes : frames o w'.todo = callbackCall ++ frames o w.todo) :
      OpCases w o op (.callback o) w' { op with callback := .executing }
  | perform {env : Env} {m : AtomicStep} {rest : List Frame} {e : Effect κ}
      (htodo : w.todo = .op o m :: rest)
      (he : m.perform (w.stopped op.token) env w.ctx o op = some e) :
      OpCases w o op (.perform env) (w.apply o rest e) e.op
  | ready {env : Env} {e : Effect κ} (htodo : w.todo = [])
      (hreg : ContextBase.isRegistered w.ctx o op = true)
      (he : ContextBase.ready w.ctx o op env = some e) :
      OpCases w o op (.ready o env) (w.apply o [] e) e.op

omit [ContextBase κ] in
/-- The call stack after a step on operation `o`. -/
theorem frames_apply_self {w : World κ} {o : OpId} {rest : List Frame} {e : Effect κ}
    (hf : e.fault = false) : frames o (w.apply o rest e).todo = e.next ++ frames o rest := by
  simp only [apply, hf, Bool.false_eq_true, if_false, frames_append, frames_map_self]
  cases e.signal <;> simp

omit [ContextBase κ] in
theorem frames_apply_of_ne {w : World κ} {o o' : OpId} (ho : o' ≠ o) {rest : List Frame}
    {e : Effect κ} (hrest : frames o rest = frames o w.todo) :
    frames o (w.apply o' rest e).todo = frames o w.todo := by
  unfold apply
  -- an exception leaves the call stack as it is
  split
  next => rfl
  next =>
    simp only [frames_append, frames_map_of_ne ho, hrest]
    cases e.signal <;> simp

theorem step_op_cases {w w' : World κ} {l : Label} (hstep : w.step l = some w') {o : OpId}
    {op : CpoState} (hop : w.ops[o]? = some op) :
    ∃ op', w'.ops[o]? = some op' ∧ OpCases w o op l w' op' := by
  obtain ⟨-, hcases⟩ := step_cases hstep
  cases hcases with
  | start hmay =>
    -- a new operation is appended, so the old ones stay where they are
    have hlt := (List.getElem?_eq_some_iff.mp hop).1
    refine ⟨op, ?_, .same nofun ?_⟩
    · rw [World.start, List.getElem?_append_left hlt]
      exact hop
    · simp only [World.start, frames_append, frames_map_of_ne hlt.ne', List.nil_append]
  | requestStop hmay =>
    unfold World.requestStop
    split
    · exact ⟨op, hop, .same nofun rfl⟩
    · exact ⟨op, hop, .same nofun (frames_stopLoop _ _ _)⟩
  | makeSocket | released | notReleased => exact ⟨op, hop, .same nofun rfl⟩
  | userReturn htodo => exact ⟨op, hop, .same nofun (by rw [htodo, frames_user])⟩
  | stopDone htodo => exact ⟨op, hop, .same nofun (by rw [htodo, frames_stopLoop])⟩
  | @callback o' x rest htodo hx hcb =>
    by_cases ho : o' = o
    · subst ho
      cases hx.symm.trans hop
      exact ⟨_, getElem?_set_of_some hop,
        .callback htodo hcb (by rw [frames_append, frames_map_self])⟩
    · refine ⟨op, by rw [List.getElem?_set_ne ho]; exact hop, .same nofun ?_⟩
      rw [frames_append, frames_map_of_ne ho, List.nil_append]
  | @perform env o' m rest x e htodo hx he =>
    by_cases ho : o' = o
    · subst ho
      cases hx.symm.trans hop
      exact ⟨_, by rw [apply_ops]; exact getElem?_set_of_some hop, .perform htodo he⟩
    · exact ⟨op, by rw [apply_ops, List.getElem?_set_ne ho]; exact hop,
        .same nofun (frames_apply_of_ne ho (by rw [htodo, frames_op_of_ne ho]))⟩
  | @ready env o' x e htodo hx hreg he =>
    by_cases ho : o' = o
    · subst ho
      cases hx.symm.trans hop
      exact ⟨_, by rw [apply_ops]; exact getElem?_set_of_some hop, .ready htodo hreg he⟩
    · exact ⟨op, by rw [apply_ops, List.getElem?_set_ne ho]; exact hop,
        .same (fun env heq => ho (by cases heq; rfl)) (frames_apply_of_ne ho (by rw [htodo]))⟩

/-- What a step does to an operation, when it is known how the step leaves it. -/
theorem step_op {w w' : World κ} {l : Label} (hstep : w.step l = some w') {o : OpId}
    {op op' : CpoState} (hop : w.ops[o]? = some op) (hop' : w'.ops[o]? = some op') :
    OpCases w o op l w' op' := by
  obtain ⟨x, hx, hcases⟩ := step_op_cases hstep hop
  cases hx.symm.trans hop'
  exact hcases

/-- An operation that was not there before a step was started by it. -/
theorem step_new_op {w w' : World κ} {l : Label} (hstep : w.step l = some w') {o : OpId}
    {op' : CpoState} (hnone : w.ops[o]? = none) (hop' : w'.ops[o]? = some op') :
    ∃ d token, l = .start d token ∧ o = w.ops.length ∧ op' = { desc := d, token := token } ∧
      w' = w.start d token := by
  obtain ⟨-, hcases⟩ := step_cases hstep
  -- every step but a start keeps the number of operations
  have hsame : w'.ops.length = w.ops.length → False := by
    intro hlen
    have hlt := (List.getElem?_eq_some_iff.mp hop').1
    rw [hlen] at hlt
    rw [List.getElem?_eq_getElem hlt] at hnone
    cases hnone
  cases hcases with
  | start hmay =>
    rcases getElem?_concat_cases hop' with ⟨rfl, rfl⟩ | ⟨-, hop'⟩
    · exact ⟨_, _, rfl, rfl, rfl, rfl⟩
    · rw [hnone] at hop'
      cases hop'
  | requestStop hmay =>
    refine (hsame ?_).elim
    unfold World.requestStop
    split <;> rfl
  | makeSocket | released | notReleased | userReturn | stopDone => exact (hsame rfl).elim
  | callback => exact (hsame List.length_set).elim
  | perform | ready => exact (hsame (by rw [apply_ops, List.length_set])).elim

/-- Only the program's own code and the code of a receiver request stops. -/
theorem step_stopped_eq {w w' : World κ} {l : Label} (hstep : w.step l = some w') :
    w'.stopped = w.stopped ∨ w.userMay = true := by
  obtain ⟨-, hcases⟩ := step_cases hstep
  cases hcases with
  | requestStop hmay => exact .inr hmay
  | perform | ready => exact .inl (apply_stopped _ _ _ _)
  | _ => exact .inl rfl

/-- A stop request is never taken back. -/
theorem step_stopped {w w' : World κ} {l : Label} (hstep : w.step l = some w') {s : Source}
    (hs : w.stopped s = true) : w'.stopped s = true := by
  obtain ⟨-, hcases⟩ := step_cases hstep
  cases hcases with
  | @requestStop s' hmay =>
    unfold World.requestStop
    split
    · exact hs
    · by_cases heq : s = s' <;> simp [Function.update, heq, hs]
  | perform | ready => rw [apply_stopped]; exact hs
  | _ => exact hs

theorem stopped_of_run {w w' : World κ} {ls : List Label} (hrun : World.run w ls = some w')
    {s : Source} (hs : w.stopped s = true) : w'.stopped s = true :=
  StepMachine.run_invariant World.step (fun _ _ _ hs hstep => step_stopped hstep hs) hs hrun

theorem not_stopped_of_run {w w' : World κ} {ls : List Label} (hrun : World.run w ls = some w')
    {s : Source} (hs : w'.stopped s = false) : w.stopped s = false := by
  by_contra hstop
  rw [stopped_of_run hrun (by simpa using hstop)] at hs
  cases hs

end World

end Stdnet
