import Stdnet.Lifetime
import Stdnet.Senders

/-!
# Coroutines

Programs whose functions `co_await` operations, as those of `examples` do: a coroutine is suspended
in one operation, whose receiver resumes it. What its code does between two suspensions is a
parameter. When it is resumed it may request a stop and spawn other coroutines before it awaits its
next operation, all within the receiver's code; its operations have the stop token that it was
spawned with.

An operation is part of the frame of the coroutine that awaits it. When its receiver was signalled
the coroutine has gone on or was destroyed, and the operation is gone: if the library uses it then,
the behaviour of the program is undefined, as it is when the code of a coroutine makes it so. From
there on a program is not followed.

Any number of coroutines run on one context, beside any other code that uses it.

## Main results

- `Coherent.step`: every operation is one of at most one coroutine, which has no other operation
  outstanding.
- `coroutine_runs`: what a coroutine does among all the others it does alone.
- `coroutines_settle`: what became of the coroutines when the event loop is entered.
- `task_undefined_iff`: when the behaviour of a program is undefined.
- `deferred_of_loop`: no program gets to the event loop with an operation of a coroutine that was
  completed inside `_Start`.
-/

namespace Stdnet

/-- The code of a coroutine with arguments in `α`, whose state where it is suspended is in `σ`. -/
structure Coroutine (α σ ε : Type*) where
  /-- up to the first `co_await` -/
  call : α → σ
  /-- the operation it is suspended in, none when it has returned -/
  await : σ → Option Desc
  /-- it goes on with what its operation signalled and what the operating system has stored; none
  when this is not what the operating system does -/
  resume : σ → Signal → ε → Option σ
  /-- a stop that it requests before it awaits the operation -/
  stops : σ → Option Source := fun _ => none
  /-- the coroutines that it spawns then, with the sources of their tokens -/
  spawns : σ → List (α × Source) := fun _ => []
  /-- the behaviour of the program is undefined from here on -/
  undefined : σ → Bool := fun _ => false

/-- A coroutine that is resumed with these signals, one after the other. -/
abbrev Coroutine.run {α σ ε : Type*} (C : Coroutine α σ ε) (s : σ) (xs : List (Signal × ε)) :
    Option σ :=
  StepMachine.run (fun s x => C.resume s x.1 x.2) s xs

/-- A coroutine that was spawned. -/
structure Task (α σ ε : Type*) where
  arg : α
  token : Source
  state : σ
  /-- the operations it has awaited -/
  ops : List OpId := []
  /-- what it was resumed with -/
  resumed : List (Signal × ε) := []
  /-- the coroutine that has spawned it, none if other code has -/
  parent : Option ℕ := none

/-- What it was called with and what it was resumed with, which determine where it is. -/
def Task.past {α σ ε : Type*} (p : Task α σ ε) : α × List (Signal × ε) := (p.arg, p.resumed)

/-- What the code of a receiver has still to do before it returns. -/
inductive Duty (α : Type*) where
  | requestStop (s : Source)
  /-- the coroutine `k` spawns one with these arguments -/
  | spawn (k : ℕ) (a : α) (token : Source)
  /-- the coroutine `k` awaits its operation -/
  | await (k : ℕ)
  deriving DecidableEq, Repr

def Duty.task {α : Type*} : Duty α → Option ℕ
  | .await k => some k
  | .requestStop _ | .spawn _ _ _ => none

namespace LibeventContext

open ListEntries History World

/-- A program that spawns coroutines. -/
structure Tasks (α σ ε : Type*) where
  world : LibeventWorld := initial
  tasks : List (Task α σ ε) := []
  /-- the coroutine of each operation, none if other code has started it -/
  owners : List (Option ℕ) := []
  /-- what the receivers on the call stack have to do, the innermost one first -/
  receivers : List (List (Duty α)) := []
  undefined : Bool := false

inductive TaskAction (α ε : Type*) where
  /-- the program calls the coroutine with these arguments and starts it -/
  | spawn (a : α) (token : Source)
  /-- the code of the innermost receiver goes on -/
  | resume
  /-- any other step; `x` is what the operating system has stored for an operation that signals -/
  | step (l : Label) (x : ε)

namespace Tasks

variable {α σ ε : Type*} (C : Coroutine α σ ε)

/-- What a coroutine has to do when it is resumed in this state. -/
def duties (k : ℕ) (s : σ) : List (Duty α) :=
  (C.stops s).toList.map .requestStop ++ ((C.spawns s).map fun x => .spawn k x.1 x.2) ++
    if (C.await s).isSome then [.await k] else []

/-- The operation `o` has signalled its receiver, which left the world `w`. -/
def deliver (c : Tasks α σ ε) (w : LibeventWorld) (o : OpId) (s : Signal) (x : ε) :
    Option (Tasks α σ ε) :=
  match c.owners[o]? with
  | none => none
  | some none => some { c with world := w, receivers := [] :: c.receivers }
  | some (some k) =>
    match c.tasks[k]? with
    | none => none
    | some p => (C.resume p.state s x).map fun s' =>
        { c with
          world := w
          tasks := c.tasks.set k { p with state := s', resumed := p.resumed ++ [(s, x)] }
          receivers := duties C k s' :: c.receivers
          undefined := C.undefined s' }

/-- The innermost receiver has something to do before it may return. -/
def busy (c : Tasks α σ ε) : Bool :=
  match c.receivers with
  | (_ :: _) :: _ => true
  | _ => false

/-- A coroutine was called; the start of its first operation leaves the world `w`. -/
def spawned (c : Tasks α σ ε) (w : LibeventWorld) (parent : Option ℕ) (a : α) (token : Source) :
    Tasks α σ ε :=
  { c with
    world := w
    tasks := c.tasks ++ [{
      arg := a
      token := token
      state := C.call a
      ops := [c.world.ops.length]
      parent := parent }]
    owners := c.owners ++ [some c.tasks.length] }

/-- A coroutine is called and started. -/
def spawn (c : Tasks α σ ε) (parent : Option ℕ) (a : α) (token : Source) :
    Option (Tasks α σ ε) :=
  match C.await (C.call a) with
  | none => none
  | some d => (c.world.step (.start d token)).map fun w => c.spawned C w parent a token

/-- One action. -/
def act (c : Tasks α σ ε) (a : TaskAction α ε) : Option (Tasks α σ ε) :=
  match a with
  | .spawn a token => c.spawn C none a token
  | .resume =>
    match c.receivers with
    | (.requestStop s :: ds) :: rest => (c.world.step (.requestStop s)).map fun w =>
        { c with world := w, receivers := ds :: rest }
    | (.spawn k a token :: ds) :: rest =>
      { c with receivers := ds :: rest }.spawn C (some k) a token
    | (.await k :: ds) :: rest =>
      match c.tasks[k]? with
      | none => none
      | some p =>
        match C.await p.state with
        | none => none
        | some d => (c.world.step (.start d p.token)).map fun w =>
            { c with
              world := w
              tasks := c.tasks.set k { p with ops := p.ops ++ [c.world.ops.length] }
              owners := c.owners ++ [some k]
              receivers := ds :: rest }
    | _ => none
  | .step l x =>
    if isReturn l && c.busy then none
    else (c.world.step l).bind fun w =>
      match delivery c.world l with
      | some (o, s) => c.deliver C w o s x
      | none =>
        some { c with
          world := w
          owners := if isStart l then c.owners ++ [none] else c.owners
          receivers := if isReturn l then c.receivers.tail else c.receivers }

/-- An operation of a coroutine was used after its receiver had been signalled. -/
def dangling (c : Tasks α σ ε) : Bool :=
  (c.owners.zip c.world.ops).any fun x => x.1.isSome && !(late x.2.history).isEmpty

/-- The use of an operation that is gone makes the behaviour undefined. -/
def check (c : Tasks α σ ε) : Tasks α σ ε := { c with undefined := c.undefined || c.dangling }

/-- One step, of a program whose behaviour is defined so far. -/
def step (c : Tasks α σ ε) (a : TaskAction α ε) : Option (Tasks α σ ε) :=
  if c.undefined then none else (c.act C a).map check

/-- The programs after a list of actions. -/
abbrev run (c : Tasks α σ ε) (as : List (TaskAction α ε)) : Option (Tasks α σ ε) :=
  StepMachine.run (step C) c as

end Tasks

/-! ## The receivers on the call stack -/

section Receivers

variable {w w' : LibeventWorld} {l : Label}

/-- The number of receivers whose code is being executed. -/
def userFrames (todo : List Frame) : ℕ := todo.count .user

theorem userFrames_ops (o : OpId) (ms : List AtomicStep) (fs : List Frame) :
    userFrames (ms.map (.op o) ++ fs) = userFrames fs := by
  have hnone : (ms.map (Frame.op o)).count .user = 0 := by
    rw [List.count_eq_zero]
    simp
  rw [userFrames, List.count_append, hnone, Nat.zero_add, userFrames]

@[simp] theorem userFrames_user (fs : List Frame) : userFrames (.user :: fs) = userFrames fs + 1 :=
  List.count_cons_self

@[simp] theorem userFrames_stopLoop (s : Source) (fs : List Frame) :
    userFrames (.stopLoop s :: fs) = userFrames fs :=
  List.count_cons_of_ne (by simp)

theorem userFrames_start (w : LibeventWorld) (d : Desc) (token : Source) :
    userFrames (w.start d token).todo = userFrames w.todo :=
  userFrames_ops _ _ _

theorem userFrames_requestStop (w : LibeventWorld) (s : Source) :
    userFrames (w.requestStop s).todo = userFrames w.todo := by
  unfold World.requestStop
  split
  · rfl
  · exact userFrames_stopLoop _ _

/-- A signal calls a receiver, and a return leaves one. -/
theorem userFrames_step (hstep : w.step l = some w') :
    userFrames w'.todo + (if isReturn l then 1 else 0) =
      userFrames w.todo + (delivery w l).toList.length := by
  obtain ⟨-, hcases⟩ := step_cases hstep
  cases hcases with
  | start hmay => exact userFrames_ops _ _ _
  | requestStop hmay => exact userFrames_requestStop _ _
  | makeSocket | released | notReleased => rfl
  | userReturn htodo =>
    rw [htodo, userFrames_user]
    rfl
  | callback htodo hop hcb => exact userFrames_ops _ _ _
  | stopDone htodo hnone =>
    rw [htodo, userFrames_stopLoop]
    rfl
  | @perform env o m rest op e htodo hop he =>
    rw [delivery_perform htodo hop he, htodo]
    have hrest : userFrames (.op o m :: rest) = userFrames rest := userFrames_ops o [m] rest
    rw [hrest]
    cases hs : e.signal with
    | none =>
      cases hf : e.fault with
      | true =>
        rw [apply_of_fault hf, htodo]
        exact hrest
      | false =>
        simp only [World.apply, hf, hs, Bool.false_eq_true, if_false, Option.isSome_none,
          List.append_nil]
        exact userFrames_ops _ _ _
    | some s =>
      obtain ⟨hnext, hf⟩ := next_of_signal he hs
      simp only [World.apply, hf, hs, hnext, Bool.false_eq_true, if_false, Option.isSome_some, if_true,
        List.map_nil, List.nil_append, List.singleton_append, userFrames_user]
      rfl
  | @ready env o op e htodo hop hreg he =>
    have hs : e.signal = none := (callback_silent he).signal
    cases hf : e.fault with
    | true =>
      rw [apply_of_fault hf]
      rfl
    | false =>
      simp only [World.apply, hf, hs, Bool.false_eq_true, if_false, Option.isSome_none, htodo,
        List.append_assoc]
      exact userFrames_ops o e.next []

end Receivers

namespace Tasks

variable {α σ ε : Type*} {C : Coroutine α σ ε}

/-! ## One coroutine -/

/-- The operations of a coroutine are those that its code awaits when it is resumed with what they
have signalled, and all but the last one have signalled. -/
structure Ordered (C : Coroutine α σ ε) (w : LibeventWorld) (p : Task α σ ε) : Prop where
  run : C.run (C.call p.arg) p.resumed = some p.state
  entries : ∀ i o, p.ops[i]? = some o → ∃ op s, w.ops[o]? = some op ∧ op.token = p.token ∧
    C.run (C.call p.arg) (p.resumed.take i) = some s ∧ C.await s = some op.desc ∧
    signals op.history = (p.resumed[i]?.map Prod.fst).toList
  resumed_le : p.resumed.length ≤ p.ops.length
  ops_le : p.ops.length ≤ p.resumed.length + 1

section Ordered

variable {w w' : LibeventWorld} {p : Task α σ ε} {o : OpId} {s' : σ} {s : Signal} {x : ε}

/-- Nothing that leaves the operations and their signals alone matters. -/
theorem Ordered.keep (h : Ordered C w p) (hkeep : ∀ o ∈ p.ops, ∀ op, w.ops[o]? = some op →
    ∃ op', w'.ops[o]? = some op' ∧ op'.desc = op.desc ∧ op'.token = op.token ∧
      signals op'.history = signals op.history) : Ordered C w' p where
  run := h.run
  entries i o ho := by
    obtain ⟨op, t, hop, htoken, hrun, hawait, hsignals⟩ := h.entries i o ho
    obtain ⟨op', hop', hdesc', htoken', hsignals'⟩ := hkeep o (List.mem_of_getElem? ho) op hop
    exact ⟨op', t, hop', htoken'.trans htoken, hrun, hdesc' ▸ hawait, hsignals'.trans hsignals⟩
  resumed_le := h.resumed_le
  ops_le := h.ops_le

theorem Ordered.start (h : Ordered C w p) (d : Desc) (token : Source) :
    Ordered C (w.start d token) p :=
  h.keep fun _ _ op hop => ⟨op, getElem?_concat_of_some hop, rfl, rfl, rfl⟩

theorem ordered_spawn {a : α} {token : Source} {d : Desc} (hd : C.await (C.call a) = some d)
    (parent : Option ℕ) : Ordered C (w.start d token) {
      arg := a
      token := token
      state := C.call a
      ops := [w.ops.length]
      parent := parent } where
  run := rfl
  entries i o ho := by
    cases i with
    | zero =>
      obtain rfl := Option.some.inj ho
      exact ⟨{ desc := d, token := token }, C.call a, List.getElem?_concat_length, rfl, rfl, hd, rfl⟩
    | succ i => cases ho
  resumed_le := Nat.zero_le _
  ops_le := le_refl _

/-- The coroutine awaits its next operation. -/
theorem Ordered.await (h : Ordered C w p) (hdue : p.ops.length = p.resumed.length) {d : Desc}
    (hd : C.await p.state = some d) :
    Ordered C (w.start d p.token) { p with ops := p.ops ++ [w.ops.length] } where
  run := h.run
  entries i o ho := by
    rcases getElem?_concat_cases ho with ⟨rfl, rfl⟩ | ⟨-, ho⟩
    · refine ⟨{ desc := d, token := p.token }, p.state, List.getElem?_concat_length, rfl, ?_, hd, ?_⟩
      · show C.run _ (p.resumed.take p.ops.length) = _
        rw [hdue, List.take_length]
        exact h.run
      · show [] = (p.resumed[p.ops.length]?.map Prod.fst).toList
        rw [hdue, List.getElem?_length]
        rfl
    · exact (h.start d p.token).entries i o ho
  resumed_le := by
    rw [List.length_append]
    exact h.resumed_le.trans (Nat.le_add_right _ _)
  ops_le := by
    rw [List.length_append, hdue]
    exact le_refl _

/-- The operation that signals is the one that the coroutine is suspended in. -/
theorem Ordered.position (h : Ordered C w p) {op : CpoState} (hop : w.ops[o]? = some op)
    (hnil : signals op.history = []) {i : ℕ} (hi : p.ops[i]? = some o) :
    i = p.resumed.length ∧ p.ops.length = p.resumed.length + 1 := by
  obtain ⟨op', t, hop', -, -, -, hsignals⟩ := h.entries i o hi
  cases hop.symm.trans hop'
  have hlt := (List.getElem?_eq_some_iff.mp hi).1
  have hle := h.ops_le
  have hge : p.resumed.length ≤ i := by
    cases hx : p.resumed[i]? with
    | none => exact List.getElem?_eq_none_iff.mp hx
    | some x =>
      rw [hnil, hx] at hsignals
      cases hsignals
  omega

/-- The coroutine is resumed with what its operation has signalled. -/
theorem Ordered.resume (h : Ordered C w p) (hd : SignalsOnly w w' o s) (ho : o ∈ p.ops)
    {op : CpoState} (hop : w.ops[o]? = some op) (hnil : signals op.history = [])
    (hresume : C.resume p.state s x = some s') :
    Ordered C w' { p with state := s', resumed := p.resumed ++ [(s, x)] } := by
  obtain ⟨i, hi⟩ := List.mem_iff_getElem?.mp ho
  obtain ⟨rfl, hlength⟩ := h.position hop hnil hi
  refine ⟨?_, fun j o' ho' => ?_, ?_, ?_⟩
  · exact (StepMachine.run_append_eq_some _).mpr
      ⟨_, h.run, (StepMachine.run_cons_eq_some _).mpr ⟨_, hresume, rfl⟩⟩
  · have hlt := (List.getElem?_eq_some_iff.mp ho').1
    have hle : j ≤ p.resumed.length := by
      rw [hlength] at hlt
      exact Nat.lt_succ_iff.mp hlt
    obtain ⟨x₁, t, hx₁, htoken, hrun, hawait, hsignals⟩ := h.entries j o' ho'
    obtain ⟨x₂, hx₂, hdesc₂, htoken₂, hsignals₂⟩ := hd o' x₁ hx₁
    refine ⟨x₂, t, hx₂, htoken₂.trans htoken, ?_, hdesc₂ ▸ hawait, ?_⟩
    · show C.run _ ((p.resumed ++ [(s, x)]).take j) = _
      rw [List.take_append_of_le_length hle]
      exact hrun
    · rw [hsignals₂, hsignals]
      show _ = ((p.resumed ++ [(s, x)])[j]?.map Prod.fst).toList
      by_cases heq : o' = o
      · -- an operation stands at one position only
        subst heq
        cases hop.symm.trans hx₁
        obtain ⟨rfl, -⟩ := h.position hop hnil ho'
        rw [if_pos rfl, List.getElem?_length, List.getElem?_concat_length]
        rfl
      · have hne : j ≠ p.resumed.length := by
          rintro rfl
          exact heq (Option.some.inj (ho'.symm.trans hi))
        rw [if_neg heq, List.append_nil, List.getElem?_append_left (by omega)]
  · show (p.resumed ++ [(s, x)]).length ≤ p.ops.length
    rw [List.length_append, hlength]
    exact le_refl _
  · show p.ops.length ≤ (p.resumed ++ [(s, x)]).length + 1
    rw [List.length_append, hlength]
    exact Nat.le_add_right _ _

end Ordered

/-! ## Steps -/

/-- What a step can do, with everything that it requires. -/
inductive ActionCases (C : Coroutine α σ ε) (c : Tasks α σ ε) :
    TaskAction α ε → Tasks α σ ε → Prop where
  | spawn {a : α} {token : Source} {d : Desc} {w : LibeventWorld}
      (hd : C.await (C.call a) = some d) (hw : c.world.step (.start d token) = some w) :
      ActionCases C c (.spawn a token) (c.spawned C w none a token)
  | spawned {k : ℕ} {a : α} {token : Source} {ds : List (Duty α)} {rest : List (List (Duty α))}
      {d : Desc} {w : LibeventWorld} (hrs : c.receivers = (.spawn k a token :: ds) :: rest)
      (hd : C.await (C.call a) = some d) (hw : c.world.step (.start d token) = some w) :
      ActionCases C c .resume ({ c with receivers := ds :: rest }.spawned C w (some k) a token)
  | requestStop {s : Source} {ds : List (Duty α)} {rest : List (List (Duty α))} {w : LibeventWorld}
      (hrs : c.receivers = (.requestStop s :: ds) :: rest)
      (hw : c.world.step (.requestStop s) = some w) :
      ActionCases C c .resume { c with world := w, receivers := ds :: rest }
  | await {k : ℕ} {ds : List (Duty α)} {rest : List (List (Duty α))} {p : Task α σ ε} {d : Desc}
      {w : LibeventWorld} (hrs : c.receivers = (.await k :: ds) :: rest)
      (hp : c.tasks[k]? = some p) (hd : C.await p.state = some d)
      (hw : c.world.step (.start d p.token) = some w) :
      ActionCases C c .resume { c with
        world := w
        tasks := c.tasks.set k { p with ops := p.ops ++ [c.world.ops.length] }
        owners := c.owners ++ [some k]
        receivers := ds :: rest }
  | start {d : Desc} {token : Source} {x : ε} {w : LibeventWorld}
      (hw : c.world.step (.start d token) = some w) :
      ActionCases C c (.step (.start d token) x) { c with world := w, owners := c.owners ++ [none] }
  | quiet {l : Label} {x : ε} {w : LibeventWorld} (hl : isStart l = false)
      (hbusy : ¬ (isReturn l && c.busy) = true) (hw : c.world.step l = some w)
      (hnone : delivery c.world l = none) :
      ActionCases C c (.step l x) { c with
        world := w
        receivers := if isReturn l then c.receivers.tail else c.receivers }
  | other {l : Label} {x : ε} {o : OpId} {s : Signal} {w : LibeventWorld}
      (hw : c.world.step l = some w) (hsome : delivery c.world l = some (o, s))
      (ho : c.owners[o]? = some none) :
      ActionCases C c (.step l x) { c with world := w, receivers := [] :: c.receivers }
  | resumed {l : Label} {x : ε} {o : OpId} {s : Signal} {k : ℕ} {p : Task α σ ε} {s' : σ}
      {w : LibeventWorld} (hw : c.world.step l = some w)
      (hsome : delivery c.world l = some (o, s)) (ho : c.owners[o]? = some (some k))
      (hp : c.tasks[k]? = some p) (hresume : C.resume p.state s x = some s') :
      ActionCases C c (.step l x) { c with
        world := w
        tasks := c.tasks.set k { p with state := s', resumed := p.resumed ++ [(s, x)] }
        receivers := duties C k s' :: c.receivers
        undefined := C.undefined s' }

theorem spawn_eq_some {c c' : Tasks α σ ε} {parent : Option ℕ} {a : α} {token : Source}
    (hstep : c.spawn C parent a token = some c') :
    ∃ d w, C.await (C.call a) = some d ∧ c.world.step (.start d token) = some w ∧
      c' = c.spawned C w parent a token := by
  unfold Tasks.spawn at hstep
  split at hstep
  next => cases hstep
  next d hd =>
    obtain ⟨w, hw, rfl⟩ := Option.map_eq_some_iff.mp hstep
    exact ⟨d, w, hd, hw, rfl⟩

theorem act_cases {c c' : Tasks α σ ε} {a : TaskAction α ε} (hact : c.act C a = some c') :
    ActionCases C c a c' := by
  cases a with
  | spawn a token =>
    obtain ⟨d, w, hd, hw, rfl⟩ := spawn_eq_some hact
    exact .spawn hd hw
  | resume =>
    simp only [act] at hact
    split at hact
    next s ds rest hrs =>
      obtain ⟨w, hw, rfl⟩ := Option.map_eq_some_iff.mp hact
      exact .requestStop hrs hw
    next k a token ds rest hrs =>
      obtain ⟨d, w, hd, hw, rfl⟩ := spawn_eq_some hact
      exact .spawned hrs hd hw
    next k ds rest hrs =>
      split at hact
      next => cases hact
      next p hp =>
        split at hact
        next => cases hact
        next d hd =>
          obtain ⟨w, hw, rfl⟩ := Option.map_eq_some_iff.mp hact
          exact .await hrs hp hd hw
    next => cases hact
  | step l x =>
    simp only [act, Option.ite_none_left_eq_some, Option.bind_eq_some_iff] at hact
    obtain ⟨hbusy, w, hw, hact⟩ := hact
    split at hact
    next o s hsome =>
      unfold Tasks.deliver at hact
      split at hact
      next => cases hact
      next ho =>
        obtain rfl := Option.some.inj hact
        exact .other hw hsome ho
      next k ho =>
        split at hact
        next => cases hact
        next p hp =>
          obtain ⟨s', hresume, rfl⟩ := Option.map_eq_some_iff.mp hact
          exact .resumed hw hsome ho hp hresume
    next hnone =>
      obtain rfl := Option.some.inj hact
      cases hl : isStart l with
      | true =>
        cases l with
        | start d token => exact .start hw
        | _ => cases hl
      | false => exact .quiet hl hbusy hw hnone

theorem action_cases {c c' : Tasks α σ ε} {a : TaskAction α ε} (hstep : c.step C a = some c') :
    c.undefined = false ∧ ∃ c₁, ActionCases C c a c₁ ∧ c' = c₁.check := by
  unfold Tasks.step at hstep
  split at hstep
  next => cases hstep
  next hdefined =>
    obtain ⟨c₁, hact, rfl⟩ := Option.map_eq_some_iff.mp hstep
    exact ⟨by simpa using hdefined, c₁, act_cases hact, rfl⟩

/-! ## All coroutines -/

/-- The coroutines that have to await an operation before the receivers return. -/
def awaiting (rs : List (List (Duty α))) : List ℕ := rs.flatten.filterMap Duty.task

/-- Every operation is one of at most one coroutine; those between two operations are the ones that
the receivers on the call stack have to let go on. -/
structure Coherent (C : Coroutine α σ ε) (c : Tasks α σ ε) : Prop where
  reachable : Reachable c.world
  depth : c.receivers.length = userFrames c.world.todo
  ordered : ∀ (k : ℕ) (p : Task α σ ε), c.tasks[k]? = some p → Ordered C c.world p
  length : c.owners.length = c.world.ops.length
  covered : ∀ (o : OpId) (k : ℕ), c.owners[o]? = some (some k) →
    ∃ p, c.tasks[k]? = some p ∧ o ∈ p.ops
  owned : ∀ (k : ℕ) (p : Task α σ ε) (o : OpId), c.tasks[k]? = some p → o ∈ p.ops →
    c.owners[o]? = some (some k)
  nodup : (awaiting c.receivers).Nodup
  due : ∀ (k : ℕ) (p : Task α σ ε), c.tasks[k]? = some p →
    (k ∈ awaiting c.receivers ↔ p.ops.length = p.resumed.length ∧ (C.await p.state).isSome)
  known : ∀ k ∈ awaiting c.receivers, k < c.tasks.length

theorem coherent_initial (C : Coroutine α σ ε) : Coherent C {} where
  reachable := ⟨[], rfl⟩
  depth := rfl
  ordered k p h := by cases h
  length := rfl
  covered o k h := by cases h
  owned k p o h := by cases h
  nodup := List.nodup_nil
  due k p h := by cases h
  known k h := by cases h

variable {c c' : Tasks α σ ε} {a : TaskAction α ε} {l : Label} {w : LibeventWorld}

theorem flatten_tail (h : c.busy = false) : c.receivers.tail.flatten = c.receivers.flatten := by
  unfold busy at h
  split at h
  next => cases h
  next hbusy =>
    cases hr : c.receivers with
    | nil => rfl
    | cons ds rest =>
      cases ds with
      | nil => rfl
      | cons d ds => exact absurd hr (hbusy d ds rest)

/-- A receiver returns when it has nothing left to do. -/
theorem flatten_quiet (hbusy : ¬ (isReturn l && c.busy) = true) :
    (if isReturn l then c.receivers.tail else c.receivers).flatten = c.receivers.flatten := by
  split
  next hreturn =>
    rw [hreturn, Bool.true_and, Bool.not_eq_true] at hbusy
    exact flatten_tail hbusy
  next => rfl

theorem awaiting_quiet (hbusy : ¬ (isReturn l && c.busy) = true) :
    awaiting (if isReturn l then c.receivers.tail else c.receivers) = awaiting c.receivers :=
  congrArg (List.filterMap Duty.task) (flatten_quiet hbusy)

theorem signals_of_undelivered (hstep : c.world.step l = some w)
    (hnone : delivery c.world l = none) {o : OpId} {op op' : CpoState}
    (hop : c.world.ops[o]? = some op) (hop' : w.ops[o]? = some op') :
    signals op'.history = signals op.history := by
  rcases delivery_cases hstep with ⟨-, hsame⟩ | ⟨o', s', hsome, -⟩
  · exact hsame o op op' hop hop'
  · rw [hnone] at hsome
    cases hsome

theorem step_start (hstep : c.world.step (.start d token) = some w) : w = c.world.start d token := by
  obtain ⟨-, hcases⟩ := step_cases hstep
  cases hcases with
  | start hmay => rfl

/-- A step that signals no receiver and starts no operation. -/
theorem Coherent.silent (h : Coherent C c) (hl : isStart l = false)
    (hstep : c.world.step l = some w) (hnone : delivery c.world l = none) {rs : List (List (Duty α))}
    (hrs : rs.length + (if isReturn l then 1 else 0) = c.receivers.length)
    (hawaiting : awaiting rs = awaiting c.receivers) :
    Coherent C { c with world := w, receivers := rs } where
  reachable := h.reachable.step hstep
  depth := by
    have hframes := userFrames_step hstep
    rw [hnone, ← h.depth, ← hrs] at hframes
    exact (Nat.add_right_cancel hframes).symm
  ordered k p hp := (h.ordered k p hp).keep fun o ho op hop => by
    obtain ⟨op', hop', hdesc, htoken, -⟩ := step_grows hstep hop
    exact ⟨op', hop', hdesc, htoken, signals_of_undelivered hstep hnone hop hop'⟩
  length := h.length.trans (length_step hstep hl).symm
  covered := h.covered
  owned := h.owned
  nodup := by
    rw [hawaiting]
    exact h.nodup
  due := by
    rw [hawaiting]
    exact h.due
  known := by
    rw [hawaiting]
    exact h.known

/-- A receiver returns that has nothing to do, or none does. -/
theorem Coherent.quiet (h : Coherent C c) (hl : isStart l = false)
    (hbusy : ¬ (isReturn l && c.busy) = true) (hstep : c.world.step l = some w)
    (hnone : delivery c.world l = none) :
    Coherent C { c with
      world := w
      receivers := if isReturn l then c.receivers.tail else c.receivers } := by
  refine h.silent hl hstep hnone ?_ (awaiting_quiet hbusy)
  cases hr : isReturn l with
  | false => rfl
  | true =>
    -- the receiver that returns is on the call stack
    have hframes := userFrames_step hstep
    rw [hnone, hr, ← h.depth] at hframes
    have hpos : 0 < c.receivers.length := Nat.lt_of_lt_of_eq (Nat.succ_pos _) hframes
    rw [if_pos rfl, if_pos rfl, List.length_tail]
    omega

/-- Code that is not a coroutine's starts an operation. -/
theorem Coherent.start (h : Coherent C c) {d : Desc} {token : Source}
    (hstep : c.world.step (.start d token) = some w) :
    Coherent C { c with world := w, owners := c.owners ++ [none] } := by
  have hreach := h.reachable.step hstep
  obtain rfl := step_start hstep
  refine ⟨hreach, ?_, fun k p hp => (h.ordered k p hp).start d token, ?_, fun o k hk => ?_,
    fun k p o hp ho => getElem?_concat_of_some (h.owned k p o hp ho), h.nodup, h.due, h.known⟩
  · rw [h.depth, userFrames_start]
  · simp [World.start, h.length]
  · rcases getElem?_concat_cases hk with ⟨-, hnew⟩ | ⟨-, hk⟩
    · cases hnew
    · exact h.covered o k hk

theorem Coherent.spawn (h : Coherent C c) {parent : Option ℕ} {a : α} {d : Desc} {token : Source}
    (hd : C.await (C.call a) = some d) (hstep : c.world.step (.start d token) = some w) :
    Coherent C (c.spawned C w parent a token) := by
  have hreach := h.reachable.step hstep
  obtain rfl := step_start hstep
  refine ⟨hreach, ?_, fun k p hp => ?_, ?_, fun o k hk => ?_, fun k p o hp ho => ?_, h.nodup,
    fun k p hp => ?_, fun k hk => ?_⟩
  · exact h.depth.trans (userFrames_start c.world d token).symm
  · rcases getElem?_concat_cases hp with ⟨-, rfl⟩ | ⟨-, hp⟩
    · exact ordered_spawn hd parent
    · exact (h.ordered k p hp).start d token
  · simp [Tasks.spawned, World.start, h.length]
  · rcases getElem?_concat_cases hk with ⟨rfl, hnew⟩ | ⟨-, hk⟩
    · obtain rfl := Option.some.inj hnew
      exact ⟨_, List.getElem?_concat_length, by simp [h.length]⟩
    · obtain ⟨p, hp, ho⟩ := h.covered o k hk
      exact ⟨p, getElem?_concat_of_some hp, ho⟩
  · rcases getElem?_concat_cases hp with ⟨rfl, rfl⟩ | ⟨-, hp⟩
    · rw [List.mem_singleton.mp ho, ← h.length]
      exact List.getElem?_concat_length
    · exact getElem?_concat_of_some (h.owned k p o hp ho)
  · rcases getElem?_concat_cases hp with ⟨rfl, rfl⟩ | ⟨-, hp⟩
    -- the new coroutine is suspended in its first operation
    · refine iff_of_false (fun hk => (h.known _ hk).ne rfl) fun hlength => ?_
      cases hlength.1
    · exact h.due k p hp
  · show k < (c.tasks ++ _).length
    rw [List.length_append]
    exact (h.known k hk).trans_le (Nat.le_add_right _ _)

/-- The receivers have done something else than to let a coroutine go on. -/
theorem Coherent.receivers (h : Coherent C c) {rs : List (List (Duty α))}
    (hrs : rs.length = c.receivers.length) (hawaiting : awaiting rs = awaiting c.receivers) :
    Coherent C { c with receivers := rs } where
  reachable := h.reachable
  depth := hrs.trans h.depth
  ordered := h.ordered
  length := h.length
  covered := h.covered
  owned := h.owned
  nodup := by
    rw [hawaiting]
    exact h.nodup
  due := by
    rw [hawaiting]
    exact h.due
  known := by
    rw [hawaiting]
    exact h.known

/-- The innermost receiver requests a stop. -/
theorem Coherent.requestStop (h : Coherent C c) {s : Source} {ds : List (Duty α)}
    {rest : List (List (Duty α))} (hrs : c.receivers = (.requestStop s :: ds) :: rest)
    (hstep : c.world.step (.requestStop s) = some w) :
    Coherent C { c with world := w, receivers := ds :: rest } :=
  h.silent rfl hstep rfl (by rw [hrs]; rfl) (by rw [hrs]; rfl)

/-- A coroutine that was resumed awaits its next operation. -/
theorem Coherent.await (h : Coherent C c) {k : ℕ} {ds : List (Duty α)} {rest : List (List (Duty α))}
    (hrs : c.receivers = (.await k :: ds) :: rest) {p : Task α σ ε} (hp : c.tasks[k]? = some p)
    {d : Desc} (hd : C.await p.state = some d)
    (hstep : c.world.step (.start d p.token) = some w) :
    Coherent C { c with
      world := w
      tasks := c.tasks.set k { p with ops := p.ops ++ [c.world.ops.length] }
      owners := c.owners ++ [some k]
      receivers := ds :: rest } := by
  have hreach := h.reachable.step hstep
  obtain rfl := step_start hstep
  have hawaiting : awaiting c.receivers = k :: awaiting (ds :: rest) := by
    rw [hrs]
    rfl
  have hnodup := h.nodup
  rw [hawaiting, List.nodup_cons] at hnodup
  obtain ⟨hdue, -⟩ := (h.due k p hp).mp (hawaiting ▸ List.mem_cons_self)
  refine ⟨hreach, ?_, fun k' p' hp' => ?_, ?_, fun o k' hk' => ?_, fun k' p' o hp' ho => ?_,
    hnodup.2, fun k' p' hp' => ?_, fun k' hk' => ?_⟩
  · rw [userFrames_start, ← h.depth, hrs]
    rfl
  · rcases getElem?_set_cases hp' with ⟨rfl, rfl⟩ | ⟨-, hp'⟩
    · exact (h.ordered k' p hp).await hdue hd
    · exact (h.ordered k' p' hp').start d p.token
  · simp [World.start, h.length]
  · rcases getElem?_concat_cases hk' with ⟨rfl, hnew⟩ | ⟨-, hk'⟩
    · obtain rfl := Option.some.inj hnew
      exact ⟨_, getElem?_set_of_some hp, by simp [h.length]⟩
    · obtain ⟨p', hp', ho'⟩ := h.covered o k' hk'
      by_cases heq : k = k'
      · subst heq
        cases hp.symm.trans hp'
        exact ⟨_, getElem?_set_of_some hp, List.mem_append_left _ ho'⟩
      · exact ⟨p', (List.getElem?_set_ne heq).trans hp', ho'⟩
  · rcases getElem?_set_cases hp' with ⟨rfl, rfl⟩ | ⟨-, hp'⟩
    · rcases List.mem_append.mp ho with ho | ho
      · exact getElem?_concat_of_some (h.owned k' p o hp ho)
      · rw [List.mem_singleton.mp ho, ← h.length]
        exact List.getElem?_concat_length
    · exact getElem?_concat_of_some (h.owned k' p' o hp' ho)
  · rcases getElem?_set_cases hp' with ⟨rfl, rfl⟩ | ⟨hne, hp'⟩
    -- it is suspended again
    · refine iff_of_false hnodup.1 fun hlength => ?_
      rw [List.length_append, hdue] at hlength
      exact Nat.succ_ne_self _ hlength.1
    · rw [← h.due k' p' hp', hawaiting, List.mem_cons, or_iff_right hne]
  · rw [List.length_set]
    exact h.known k' (hawaiting ▸ List.mem_cons_of_mem _ hk')

/-- A step signals the receiver of the operation `o`. -/
structure Signals (c : Tasks α σ ε) (w : LibeventWorld) (o : OpId) (s : Signal) : Prop where
  reachable : Reachable w
  only : SignalsOnly c.world w o s
  length : w.ops.length = c.world.ops.length
  frames : userFrames w.todo = userFrames c.world.todo + 1

theorem Coherent.signals (h : Coherent C c) (hstep : c.world.step l = some w) {o : OpId} {s : Signal}
    (hsome : delivery c.world l = some (o, s)) : Signals c w o s := by
  rcases delivery_cases hstep with ⟨hnone, -⟩ | ⟨o', s', hsome', -, -, -, hlength, hsignals⟩
  · rw [hsome] at hnone
    cases hnone
  · obtain ⟨rfl, rfl⟩ := Prod.mk.inj (Option.some.inj (hsome.symm.trans hsome'))
    refine ⟨h.reachable.step hstep, fun o' op hop => ?_, hlength, ?_⟩
    · obtain ⟨op', hop', hdesc, htoken, -⟩ := step_grows hstep hop
      exact ⟨op', hop', hdesc, htoken, hsignals o' op op' hop hop'⟩
    · have hframes := userFrames_step hstep
      rw [hsome] at hframes
      cases l with
      | perform env => exact hframes
      | _ => cases hsome

variable {o : OpId} {s : Signal} {x : ε}

/-- The receiver that is signalled is not a coroutine's. -/
theorem Coherent.other (h : Coherent C c) (hs : Signals c w o s) (ho : c.owners[o]? = some none) :
    Coherent C { c with world := w, receivers := [] :: c.receivers } where
  reachable := hs.reachable
  depth := by rw [hs.frames, ← h.depth, List.length_cons]
  ordered k p hp := (h.ordered k p hp).keep fun o' ho' op hop => by
    obtain ⟨op', hop', hdesc, htoken, hsignals⟩ := hs.only o' op hop
    have hne : o' ≠ o := by
      rintro rfl
      have howner := h.owned k p o' hp ho'
      rw [ho] at howner
      cases howner
    rw [if_neg hne, List.append_nil] at hsignals
    exact ⟨op', hop', hdesc, htoken, hsignals⟩
  length := h.length.trans hs.length.symm
  covered := h.covered
  owned := h.owned
  nodup := h.nodup
  due := h.due
  known := h.known

theorem task_eq_none {k : ℕ} {s : σ} {d : Duty α}
    (hd : d ∈ (C.stops s).toList.map .requestStop ++
      (C.spawns s).map fun x => Duty.spawn k x.1 x.2) : d.task = none := by
  rcases List.mem_append.mp hd with hd | hd
  all_goals
    obtain ⟨x, -, rfl⟩ := List.mem_map.mp hd
    rfl

/-- A coroutine lets no other one go on. -/
theorem task_of_mem_duties {k j : ℕ} {s : σ} {d : Duty α} (hd : d ∈ duties C k s)
    (hj : d.task = some j) : j = k := by
  rcases List.mem_append.mp hd with hd | hd
  · rw [task_eq_none hd] at hj
    cases hj
  · split at hd
    · obtain rfl := List.mem_singleton.mp hd
      exact (Option.some.inj hj).symm
    · cases hd

theorem awaiting_duties (C : Coroutine α σ ε) (k : ℕ) (s : σ) (rs : List (List (Duty α))) :
    awaiting (duties C k s :: rs) = if (C.await s).isSome then k :: awaiting rs else awaiting rs := by
  rw [awaiting, List.flatten_cons, List.filterMap_append, duties, List.filterMap_append,
    List.filterMap_eq_nil_iff.mpr fun d hd => task_eq_none hd]
  split <;> rfl

/-- The coroutine `k` is suspended in the operation `o`, which has not signalled. -/
structure SuspendedIn (c : Tasks α σ ε) (k : ℕ) (p : Task α σ ε) (o : OpId) (op : CpoState) :
    Prop where
  entry : c.world.ops[o]? = some op
  token : op.token = p.token
  unsignalled : signals op.history = []
  last : p.ops[p.resumed.length]? = some o
  length : p.ops.length = p.resumed.length + 1
  idle : k ∉ awaiting c.receivers

/-- A coroutine whose operation is about to signal is suspended in it. -/
theorem Coherent.suspended (h : Coherent C c) (hs : Signals c w o s) {k : ℕ}
    (ho : c.owners[o]? = some (some k)) {p : Task α σ ε} (hp : c.tasks[k]? = some p) :
    ∃ op, SuspendedIn c k p o op := by
  obtain ⟨p', hp', hmem⟩ := h.covered o k ho
  cases hp.symm.trans hp'
  obtain ⟨i, hi⟩ := List.mem_iff_getElem?.mp hmem
  obtain ⟨op, -, hop, htoken, -⟩ := (h.ordered k p hp).entries i o hi
  have hnil := Composed.unsignalled_of_step hs.reachable hs.only hop
  obtain ⟨rfl, hlength⟩ := (h.ordered k p hp).position hop hnil hi
  refine ⟨op, hop, htoken, hnil, hi, hlength, ?_⟩
  rw [h.due k p hp, hlength]
  intro hdue
  exact Nat.succ_ne_self _ hdue.1

/-- A coroutine is resumed. -/
theorem Coherent.resume (h : Coherent C c) (hs : Signals c w o s) {k : ℕ}
    (ho : c.owners[o]? = some (some k)) {p : Task α σ ε} (hp : c.tasks[k]? = some p) {s' : σ}
    (hresume : C.resume p.state s x = some s') :
    Coherent C { c with
      world := w
      tasks := c.tasks.set k { p with state := s', resumed := p.resumed ++ [(s, x)] }
      receivers := duties C k s' :: c.receivers
      undefined := C.undefined s' } := by
  obtain ⟨op, hop, -, hnil, hlast, hlength, hsuspended⟩ := h.suspended hs ho hp
  refine ⟨hs.reachable, ?_, fun k' p' hp' => ?_, h.length.trans hs.length.symm, fun o' k' hk' => ?_,
    fun k' p' o' hp' ho' => ?_, ?_, fun k' p' hp' => ?_, fun k' hk' => ?_⟩
  · rw [hs.frames, ← h.depth, List.length_cons]
  · rcases getElem?_set_cases hp' with ⟨rfl, rfl⟩ | ⟨hne, hp'⟩
    · exact (h.ordered k' p hp).resume hs.only (List.mem_of_getElem? hlast) hop hnil hresume
    · refine (h.ordered k' p' hp').keep fun o' ho' op' hop' => ?_
      obtain ⟨op'', hop'', hdesc, htoken, hsignals⟩ := hs.only o' op' hop'
      have hne' : o' ≠ o := by
        rintro rfl
        exact hne (Option.some.inj (Option.some.inj ((h.owned k' p' o' hp' ho').symm.trans ho)))
      rw [if_neg hne', List.append_nil] at hsignals
      exact ⟨op'', hop'', hdesc, htoken, hsignals⟩
  · obtain ⟨p', hp', ho'⟩ := h.covered o' k' hk'
    by_cases heq : k = k'
    · subst heq
      cases hp.symm.trans hp'
      exact ⟨_, getElem?_set_of_some hp, ho'⟩
    · exact ⟨p', (List.getElem?_set_ne heq).trans hp', ho'⟩
  · rcases getElem?_set_cases hp' with ⟨rfl, rfl⟩ | ⟨-, hp'⟩
    · exact h.owned k' p o' hp ho'
    · exact h.owned k' p' o' hp' ho'
  · rw [awaiting_duties]
    split
    · exact List.nodup_cons.mpr ⟨hsuspended, h.nodup⟩
    · exact h.nodup
  · rw [awaiting_duties]
    rcases getElem?_set_cases hp' with ⟨rfl, rfl⟩ | ⟨hne, hp'⟩
    · have hlength' : p.ops.length = (p.resumed ++ [(s, x)]).length := by
        rw [hlength, List.length_append, List.length_singleton]
      split
      next hsome => exact iff_of_true List.mem_cons_self ⟨hlength', hsome⟩
      next hnone => exact iff_of_false hsuspended fun hdue => hnone hdue.2
    · rw [← h.due k' p' hp']
      split
      · rw [List.mem_cons, or_iff_right hne]
      · rfl
  · rw [List.length_set]
    rw [awaiting_duties] at hk'
    split at hk'
    · rcases List.mem_cons.mp hk' with rfl | hk'
      · exact (List.getElem?_eq_some_iff.mp hp).1
      · exact h.known k' hk'
    · exact h.known k' hk'

theorem Coherent.act (h : Coherent C c) (hcases : ActionCases C c a c') : Coherent C c' := by
  cases hcases with
  | spawn hd hw => exact h.spawn hd hw
  | spawned hrs hd hw =>
    exact (h.receivers (by rw [hrs]; rfl) (by rw [hrs]; rfl)).spawn hd hw
  | requestStop hrs hw => exact h.requestStop hrs hw
  | await hrs hp hd hw => exact h.await hrs hp hd hw
  | start hw => exact h.start hw
  | quiet hl hbusy hw hnone => exact h.quiet hl hbusy hw hnone
  | other hw hsome ho => exact h.other (h.signals hw hsome) ho
  | resumed hw hsome ho hp hresume => exact h.resume (h.signals hw hsome) ho hp hresume

theorem Coherent.check (h : Coherent C c) : Coherent C c.check :=
  ⟨h.reachable, h.depth, h.ordered, h.length, h.covered, h.owned, h.nodup, h.due, h.known⟩

theorem Coherent.step (h : Coherent C c) (hstep : c.step C a = some c') : Coherent C c' := by
  obtain ⟨-, c₁, hcases, rfl⟩ := action_cases hstep
  exact (h.act hcases).check

theorem coherent_run {as : List (TaskAction α ε)} (hrun : Tasks.run C {} as = some c) :
    Coherent C c :=
  StepMachine.run_invariant (Tasks.step C) (fun _ _ _ h hstep => h.step hstep)
    (coherent_initial C) hrun

/-- A step of the context is a step of the program, unless it lets a receiver return that has not
done what it has to, or brings a coroutine what the operating system does not. -/
theorem Coherent.enabled (h : Coherent C c) (hc : c.undefined = false)
    (hbusy : isReturn l = true → c.busy = false) (hstep : c.world.step l = some w)
    (hresume : ∀ o s k p, delivery c.world l = some (o, s) → c.owners[o]? = some (some k) →
      c.tasks[k]? = some p → ∃ s', C.resume p.state s x = some s') :
    ∃ c', c.step C (.step l x) = some c' := by
  have hguard : ¬ (isReturn l && c.busy) = true := by
    cases hr : isReturn l with
    | false => simp
    | true => simp [hbusy hr]
  simp only [Tasks.step, Tasks.act, hc, Bool.false_eq_true, if_false, if_neg hguard, hstep,
    Option.bind_some]
  rcases delivery_cases hstep with ⟨hnone, -⟩ | ⟨o, s, hsome, -, -, ⟨op, hop⟩, -⟩
  · rw [hnone]
    exact ⟨_, rfl⟩
  · rw [hsome]
    have hlt : o < c.owners.length := h.length ▸ (List.getElem?_eq_some_iff.mp hop).1
    have ho := List.getElem?_eq_getElem hlt
    cases howner : c.owners[o] with
    | none =>
      rw [howner] at ho
      simp only [Tasks.deliver, ho]
      exact ⟨_, rfl⟩
    | some k =>
      rw [howner] at ho
      obtain ⟨p, hp, -⟩ := h.covered o k ho
      obtain ⟨s', hs'⟩ := hresume o s k p hsome ho hp
      simp only [Tasks.deliver, ho, hp, hs', Option.map_some]
      exact ⟨_, rfl⟩

/-! ## What becomes of a coroutine -/

variable {as : List (TaskAction α ε)} {k : ℕ} {p : Task α σ ε}

/-- What holds where a coroutine begins and is kept whenever it is resumed holds of every coroutine
of every program. -/
theorem state_invariant {I : α → σ → Prop} (hcall : ∀ a, I a (C.call a))
    (hresume : ∀ a s y x s', I a s → C.resume s y x = some s' → I a s')
    (hrun : Tasks.run C {} as = some c) (hp : c.tasks[k]? = some p) : I p.arg p.state :=
  StepMachine.run_invariant _ (I := I p.arg) (fun _ _ _ h hstep => hresume _ _ _ _ _ h hstep)
    (hcall p.arg) ((coherent_run hrun).ordered k p hp).run

/-- Among any others a coroutine does what it does alone: it is resumed with what its operations
have signalled. These are its own, it awaits each of them in the state in which the ones before have
left it, and all but the last one have signalled, each of them once. -/
theorem coroutine_runs (hrun : Tasks.run C {} as = some c) (hp : c.tasks[k]? = some p) :
    C.run (C.call p.arg) p.resumed = some p.state ∧
      (∀ i o, p.ops[i]? = some o → ∃ op s, c.world.ops[o]? = some op ∧ op.token = p.token ∧
        C.run (C.call p.arg) (p.resumed.take i) = some s ∧ C.await s = some op.desc ∧
        signals op.history = (p.resumed[i]?.map Prod.fst).toList ∧
        ∀ k' p', c.tasks[k']? = some p' → o ∈ p'.ops → k' = k) ∧
      p.resumed.length ≤ p.ops.length ∧ p.ops.length ≤ p.resumed.length + 1 := by
  have h := coherent_run hrun
  have hp' := h.ordered k p hp
  refine ⟨hp'.run, fun i o ho => ?_, hp'.resumed_le, hp'.ops_le⟩
  obtain ⟨op, s, hop, htoken, hs, hawait, hsignals⟩ := hp'.entries i o ho
  refine ⟨op, s, hop, htoken, hs, hawait, hsignals, fun k' p' hk' ho' => ?_⟩
  have howner := h.owned k p o hp (List.mem_of_getElem? ho)
  rw [h.owned k' p' o hk' ho'] at howner
  exact Option.some.inj (Option.some.inj howner)

/-- No receiver's code is executing. -/
theorem Coherent.receivers_nil (h : Coherent C c) (hloop : InEventLoop c.world) :
    c.receivers = [] := by
  rw [← List.length_eq_zero_iff, h.depth, hloop.1]
  rfl

/-- A coroutine has returned, or the operation that it is suspended in waits. -/
theorem Coherent.settles (h : Coherent C c) (hloop : InEventLoop c.world)
    (hp : c.tasks[k]? = some p) :
    (C.await p.state = none ∧ p.ops.length = p.resumed.length) ∨
      (p.ops.length = p.resumed.length + 1 ∧ c.world.stopped p.token = false ∧
        ∃ o op, p.ops.getLast? = some o ∧ c.world.ops[o]? = some op ∧
          C.await p.state = some op.desc ∧ (op.isArmed = true ∨ LeftBehind c.world op)) := by
  have hp' := h.ordered k p hp
  have hle := hp'.resumed_le
  have hge := hp'.ops_le
  by_cases hlength : p.ops.length = p.resumed.length
  · -- no receiver is on the call stack, so it has nothing to go on with
    have hnil := h.receivers_nil hloop
    refine .inl ⟨?_, hlength⟩
    by_contra hawait
    have hdue := (h.due k p hp).mpr ⟨hlength, Option.isSome_iff_ne_none.mpr hawait⟩
    rw [hnil] at hdue
    cases hdue
  · have hlt : p.resumed.length < p.ops.length := by omega
    have ho := List.getElem?_eq_getElem hlt
    obtain ⟨op, s, hop, htoken, hs, hawait, hsignals⟩ := hp'.entries _ _ ho
    rw [List.take_length, hp'.run, Option.some.injEq] at hs
    rw [List.getElem?_length] at hsignals
    rcases settled_cases h.reachable hloop hop with ⟨-, hstop, hwaits⟩ | ⟨-, s', hs'⟩
    · refine .inr ⟨by omega, htoken ▸ hstop, _, op, ?_, hop, hs ▸ hawait, hwaits⟩
      rw [List.getLast?_eq_getElem?, show p.ops.length - 1 = p.resumed.length by omega]
      exact ho
    · rw [hs'] at hsignals
      cases hsignals

/-- Where no function is executing, a coroutine has returned, or its stop was not requested and the
operation that it is suspended in waits in the event base or was left behind. -/
theorem coroutines_settle (hrun : Tasks.run C {} as = some c) (hloop : InEventLoop c.world)
    (hp : c.tasks[k]? = some p) :
    (C.await p.state = none ∧ p.ops.length = p.resumed.length) ∨
      (p.ops.length = p.resumed.length + 1 ∧ c.world.stopped p.token = false ∧
        ∃ o op, p.ops.getLast? = some o ∧ c.world.ops[o]? = some op ∧
          C.await p.state = some op.desc ∧ (op.isArmed = true ∨ LeftBehind c.world op)) :=
  (coherent_run hrun).settles hloop hp

/-! ## Undefined behaviour -/

/-- The operation of a coroutine was used after its receiver had been signalled. -/
def Dangles (c : Tasks α σ ε) (op : CpoState) : Prop :=
  ∃ (k : ℕ) (p : Task α σ ε) (o : OpId), c.tasks[k]? = some p ∧ o ∈ p.ops ∧
    c.world.ops[o]? = some op ∧ late op.history ≠ []

theorem Coherent.dangling_iff (h : Coherent C c) : c.dangling = true ↔ ∃ op, Dangles c op := by
  rw [dangling, List.any_eq_true]
  constructor
  · rintro ⟨⟨owner, op⟩, hmem, hlate⟩
    obtain ⟨o, ho⟩ := List.mem_iff_getElem?.mp hmem
    obtain ⟨howner, hop⟩ := List.getElem?_zip_eq_some.mp ho
    simp only [Bool.and_eq_true, Bool.not_eq_true', List.isEmpty_eq_false_iff] at hlate
    obtain ⟨k, rfl⟩ := Option.isSome_iff_exists.mp hlate.1
    obtain ⟨p, hp, hmem⟩ := h.covered o k howner
    exact ⟨op, k, p, o, hp, hmem, hop, hlate.2⟩
  · rintro ⟨op, k, p, o, hp, hmem, hop, hlate⟩
    have ho := List.getElem?_zip_eq_some (z := (some k, op)).mpr ⟨h.owned k p o hp hmem, hop⟩
    exact ⟨_, List.mem_of_getElem? ho, by simp [hlate]⟩

/-- Such an operation was not left to the event loop. -/
theorem Coherent.not_deferred (h : Coherent C c) {op : CpoState} (hop : Dangles c op) :
    ¬ Deferred op.desc op.history := by
  obtain ⟨k, p, o, -, -, hop, hlate⟩ := hop
  exact fun hdef => hlate (h.reachable.untouched hop hdef).late

/-- An action is a step of the context, and the operations keep their coroutines. -/
theorem ActionCases.world (hcases : ActionCases C c a c') :
    (∃ l, c.world.step l = some c'.world) ∧ c.owners <+: c'.owners := by
  cases hcases with
  | spawn hd hw | spawned hrs hd hw | await hrs hp hd hw | start hw =>
    exact ⟨⟨_, hw⟩, List.prefix_append _ _⟩
  | requestStop hrs hw => exact ⟨⟨_, hw⟩, List.prefix_refl _⟩
  | quiet hl hbusy hw hnone => exact ⟨⟨_, hw⟩, List.prefix_refl _⟩
  | other hw hsome ho => exact ⟨⟨_, hw⟩, List.prefix_refl _⟩
  | resumed hw hsome ho hp hresume => exact ⟨⟨_, hw⟩, List.prefix_refl _⟩

/-- A use of an operation that is gone comes from a function that is still executing. -/
theorem Coherent.executing_of_dangles (h : Coherent C c) (h' : Coherent C c')
    (hcases : ActionCases C c a c') (hno : ¬ ∃ op, Dangles c op) {op : CpoState}
    (hop : Dangles c' op) : c'.world.todo ≠ [] := by
  obtain ⟨⟨l, hw⟩, howners⟩ := hcases.world
  obtain ⟨k, p, o, hp, hmem, hop, hlate⟩ := hop
  cases hold : c.world.ops[o]? with
  | none =>
    -- the operation has just been started, with nothing in its history
    obtain ⟨d, token, -, -, rfl, -⟩ := step_new_op hw hold hop
    exact absurd rfl hlate
  | some x =>
    refine h.reachable.first_late hw hold hop ?_ hlate
    by_contra hx
    have hlt : o < c.owners.length := h.length ▸ (List.getElem?_eq_some_iff.mp hold).1
    have howner := h'.owned k p o hp hmem
    obtain ⟨added, hadded⟩ := howners
    rw [← hadded, List.getElem?_append_left hlt] at howner
    obtain ⟨q, hq, hmem'⟩ := h.covered o k howner
    exact hno ⟨x, k, q, o, hq, hmem', hold, hx⟩

/-- Nothing else makes the behaviour undefined, and it becomes so within some function. -/
structure Checked (c : Tasks α σ ε) : Prop where
  dangling : c.dangling = true → c.undefined = true
  executing : c.undefined = true → c.world.todo ≠ []

theorem Checked.step (h : Checked c) (hc : Coherent C c) (hstep : c.step C a = some c') :
    Checked c' := by
  obtain ⟨hdefined, c₁, hcases, rfl⟩ := action_cases hstep
  have hc₁ := hc.act hcases
  refine ⟨fun hdangling => Bool.or_eq_true_iff.mpr (.inr hdangling), fun hundefined => ?_⟩
  rcases Bool.or_eq_true_iff.mp hundefined with hundefined | hdangling
  · -- the code of a coroutine runs in a receiver
    have hreceivers : c₁.receivers ≠ [] := by
      cases hcases with
      | resumed hw hsome ho hp hresume => exact List.cons_ne_nil _ _
      | _ =>
        have hbefore : c.undefined = true := hundefined
        rw [hdefined] at hbefore
        cases hbefore
    intro htodo
    have hdepth := hc₁.depth
    rw [show c₁.world.todo = [] from htodo] at hdepth
    exact hreceivers (List.length_eq_zero_iff.mp hdepth)
  · obtain ⟨op, hop⟩ := hc₁.dangling_iff.mp hdangling
    show c₁.world.todo ≠ []
    refine hc.executing_of_dangles hc₁ hcases (fun hold => ?_) hop
    rw [h.dangling (hc.dangling_iff.mpr hold)] at hdefined
    cases hdefined

theorem checked_run (hrun : Tasks.run C {} as = some c) : Checked c := by
  refine (StepMachine.run_invariant (Tasks.step C) (I := fun c => Coherent C c ∧ Checked c)
    (fun c a c' h hstep => ⟨h.1.step hstep, h.2.step h.1 hstep⟩) ⟨coherent_initial C, ?_⟩ hrun).2
  exact ⟨(fun h => by cases h), (fun h => by cases h)⟩

/-- The behaviour becomes undefined while some function is executing, not in the event loop. -/
theorem defined_of_loop (hrun : Tasks.run C {} as = some c) (hloop : InEventLoop c.world) :
    c.undefined = false := by
  by_contra hundefined
  exact (checked_run hrun).executing (by simpa using hundefined) hloop.1

/-- In the event loop every operation of a coroutine was left to it: those that were completed
inside `_Start` have been used after that. -/
theorem deferred_of_loop (hrun : Tasks.run C {} as = some c) (hloop : InEventLoop c.world)
    (hp : c.tasks[k]? = some p) (ho : o ∈ p.ops) {op : CpoState} (hop : c.world.ops[o]? = some op) :
    Deferred op.desc op.history := by
  have hc := coherent_run hrun
  have hrest : frames o c.world.todo = [] := by rw [hloop.1, World.frames_nil]
  refine hc.reachable.deferred_of_late_nil hop hrest ?_
  by_contra hlate
  have hundefined := (checked_run hrun).dangling
    (hc.dangling_iff.mpr ⟨op, k, p, o, hp, ho, hop, hlate⟩)
  rw [defined_of_loop hrun hloop] at hundefined
  cases hundefined

/-- An action leaves every coroutine in its state but the one that it resumes. -/
theorem ActionCases.states (hcases : ActionCases C c a c') (hc : c.undefined = false) :
    (c'.undefined = false ∧ ∀ (k : ℕ) (p' : Task α σ ε), c'.tasks[k]? = some p' →
        p'.state = C.call p'.arg ∨ ∃ p, c.tasks[k]? = some p ∧ p'.state = p.state) ∨
      ∃ (k : ℕ) (p p' : Task α σ ε), c.tasks[k]? = some p ∧ c'.tasks = c.tasks.set k p' ∧
        c'.undefined = C.undefined p'.state := by
  cases hcases with
  | spawn hd hw | spawned hrs hd hw =>
    refine .inl ⟨hc, fun k p' hp' => ?_⟩
    rcases getElem?_concat_cases hp' with ⟨-, rfl⟩ | ⟨-, hp'⟩
    · exact .inl rfl
    · exact .inr ⟨p', hp', rfl⟩
  | @await k ds rest p d w hrs hp hd hw =>
    exact .inl ⟨hc, fun k' p' hp' => .inr (exists_of_getElem?_set hp hp' rfl)⟩
  | resumed hw hsome ho hp hresume => exact .inr ⟨_, _, _, hp, rfl, rfl⟩
  | requestStop | start | quiet | other => exact .inl ⟨hc, fun k p' hp' => .inr ⟨p', hp', rfl⟩⟩

/-- The code of a coroutine makes the behaviour undefined. -/
abbrev Broken (C : Coroutine α σ ε) (c : Tasks α σ ε) : Prop :=
  ∃ (k : ℕ) (p : Task α σ ε), c.tasks[k]? = some p ∧ C.undefined p.state = true

theorem ActionCases.broken_iff (hcall : ∀ a, C.undefined (C.call a) = false)
    (hcases : ActionCases C c a c') (hc : c.undefined = false) (hno : ¬ Broken C c) :
    c'.undefined = true ↔ Broken C c' := by
  rcases hcases.states hc with ⟨hc', hstates⟩ | ⟨k, p, p', hp, htasks, hc'⟩
  · refine iff_of_false (by simp [hc']) ?_
    rintro ⟨k, p', hp', hundefined⟩
    rcases hstates k p' hp' with hnew | ⟨p, hp, hsame⟩
    · rw [hnew, hcall] at hundefined
      cases hundefined
    · exact hno ⟨k, p, hp, hsame ▸ hundefined⟩
  · rw [hc', Broken, htasks]
    constructor
    · exact fun hundefined => ⟨k, p', getElem?_set_of_some hp, hundefined⟩
    · rintro ⟨k', x, hx, hundefined⟩
      rcases getElem?_set_cases hx with ⟨rfl, rfl⟩ | ⟨-, hx⟩
      · exact hundefined
      · exact absurd ⟨k', x, hx, hundefined⟩ hno

/-- The behaviour of a program is undefined exactly if the code of one of its coroutines has made it
so or an operation of a coroutine was used after its signal. -/
theorem task_undefined_iff (hcall : ∀ a, C.undefined (C.call a) = false)
    (hrun : Tasks.run C {} as = some c) :
    c.undefined = true ↔ Broken C c ∨ ∃ op, Dangles c op := by
  refine (StepMachine.run_invariant (Tasks.step C) (I := fun c => Coherent C c ∧
    (c.undefined = true ↔ Broken C c ∨ ∃ op, Dangles c op)) (fun c a c' h hstep => ?_)
    ⟨coherent_initial C, by simp [Dangles]⟩ hrun).2
  obtain ⟨hc, c₁, hcases, rfl⟩ := action_cases hstep
  refine ⟨h.1.step hstep, ?_⟩
  have hno : ¬ Broken C c := fun hbroken => by
    rw [h.2.mpr (.inl hbroken)] at hc
    cases hc
  show (c₁.undefined || c₁.dangling) = true ↔ _
  rw [Bool.or_eq_true, hcases.broken_iff hcall hc hno, (h.1.act hcases).dangling_iff]
  exact Iff.rfl

/-! ## Clients -/

/-- A coroutine that awaits operations one after the other and is left by an error or a stop. -/
def straight (ds : α → List Desc) : Coroutine α (List Desc) Unit where
  call := ds
  await := List.head?
  resume s y _ :=
    match y with
    | .value _ => some s.tail
    | .error _ | .stopped => some []

/-- The coroutine of `client.cpp`. -/
def client : Coroutine SocketId (List Desc) Unit := straight fun id => [.connect id, .send id]

/-- `make_client` of `accu-client-2024.cpp`. -/
def accuClient : Coroutine SocketId (List Desc) Unit :=
  straight fun id => [.connect id, .send id, .receive id]

/-- When the connection is made and its message is sent it waits for the answer. -/
example : accuClient.run (accuClient.call 0) [(.value .unit, ()), (.value (.count 5), ())] =
    some [.receive 0] := rfl

/-- The connection of the client is under way, then made; 5 bytes are sent. -/
def helloSent : List (TaskAction SocketId Unit) :=
  [.step (.makeSocket 7) (), .spawn 0 0, .step (.perform {}) (), .step (.perform {}) (),
    .step (.perform {}) (), .step (.perform { connect := .fail EINPROGRESS }) (),
    .step (.ready 0 { results := [.ok 0] }) (), .step (.perform {}) (), .step (.perform {}) (),
    -- the coroutine awaits the send
    .resume, .step (.perform {}) (), .step (.perform {}) (), .step (.perform {}) (),
    .step (.perform {}) (), .step .userReturn (), .step (.ready 1 { results := [.ok 5] }) (),
    .step (.perform {}) (), .step (.perform {}) (), .step .userReturn ()]

theorem run_helloSent : ∃ c p, Tasks.run client {} helloSent = some c ∧ InEventLoop c.world ∧
    c.tasks[0]? = some p ∧ p.arg = 0 ∧ p.state = [] ∧ p.ops = [0, 1] ∧
    p.resumed = [(.value .unit, ()), (.value (.count 5), ())] :=
  ⟨_, _, rfl, ⟨rfl, rfl⟩, rfl, rfl, rfl, rfl, rfl⟩

theorem coroutine_runs_helloSent : ∃ c p, Tasks.run client {} helloSent = some c ∧
    c.tasks[0]? = some p ∧ p.ops = [0, 1] ∧
    client.run (client.call 0) [(.value .unit, ()), (.value (.count 5), ())] = some [] := by
  obtain ⟨c, p, hrun, -, hp, harg, hstate, hops, hresumed⟩ := run_helloSent
  have hown := (coroutine_runs hrun hp).1
  rw [harg, hstate, hresumed] at hown
  exact ⟨c, p, hrun, hp, hops, hown⟩

theorem coroutines_settle_helloSent : ∃ c p, Tasks.run client {} helloSent = some c ∧
    c.tasks[0]? = some p ∧ client.await p.state = none := by
  obtain ⟨c, p, hrun, hloop, hp, -, -, hops, hresumed⟩ := run_helloSent
  refine ⟨c, p, hrun, hp, ?_⟩
  rcases coroutines_settle hrun hloop hp with hreturned | hwaits
  · exact hreturned.1
  · rw [hops, hresumed] at hwaits
    exact absurd hwaits.1 (by simp)

end Tasks

end LibeventContext

end Stdnet
