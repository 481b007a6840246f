import Stdnet.RunLoop

/-!
# Senders

`_Cpo_Sender` and `_Upstream_receiver` of `cpo.hpp`: an operation may be built on another sender
and is then the receiver of that one. Starting the outermost operation state starts the innermost
one; `set_value` of an upstream operation starts the next one, `set_error` and `set_stopped` are
passed on to the receiver that the whole sender was connected to. All operations of a sender have
the stop token of that receiver.

## Main results

- `Coherent.step`, `Coherent.enabled`: a program that starts senders is one that starts their
  operations, each of them for its sender.
- `operations_in_order`: the operations of a sender follow each other, and its receiver is signalled
  what the last one of them is.
- `senders_settle`: what became of the senders when nothing is left to be run.
-/

namespace Stdnet

/-- `_Upstream_receiver` has no `set_value` that takes a value. -/
def Desc.isVoid : Desc → Bool
  | .connect _ | .resumeAfter _ | .resumeAt _ => true
  | .accept _ | .receive _ | .send _ => false

/-- A `_Cpo_Sender` with the operations that it is built on, the innermost one first; that one is
built on `just()`. -/
structure Sender where
  upstream : List Desc
  desc : Desc
  void : ∀ d ∈ upstream, d.isVoid = true

/-- All operations of a sender in the order in which they are started. -/
def Sender.descs (s : Sender) : List Desc := s.upstream ++ [s.desc]

/-- The operation state of a sender that was started. -/
structure SenderState where
  sender : Sender
  token : Source
  /-- the operations that were started -/
  ops : List OpId
  /-- what the receiver was signalled -/
  signals : List Signal := []

/-- The operation to start next. -/
def SenderState.next (p : SenderState) : Option Desc := p.sender.descs[p.ops.length]?

namespace LibeventContext

open ListEntries History World

/-- The receiver that a step signals. -/
def delivery (w : LibeventWorld) : Label → Option (OpId × Signal)
  | .perform env =>
    match w.todo with
    | .op o m :: _ =>
      match w.ops[o]? with
      | some op => ((m.perform (w.stopped op.token) env w.ctx o op).bind (·.signal)).map (o, ·)
      | none => none
    | _ => none
  | _ => none

/-- A program that starts senders. -/
structure Composed where
  world : LibeventWorld := initial
  senders : List SenderState := []
  /-- the sender of each operation -/
  owners : List ℕ := []
  /-- which of the receivers on the call stack are `_Upstream_receiver`s, the innermost one first -/
  receivers : List Bool := []

inductive Action where
  /-- the program connects a sender to a receiver with this token and starts it -/
  | start (s : Sender) (token : Source)
  /-- any other step -/
  | step (l : Label)

/-- What the code of the program or of a receiver does but to start a sender. -/
def isUser : Label → Bool
  | .requestStop _ | .makeSocket _ | .release _ _ => true
  | _ => false

def isStart : Label → Bool
  | .start _ _ => true
  | _ => false

def isReturn : Label → Bool
  | .userReturn => true
  | _ => false

namespace Composed

/-- The innermost receiver is an `_Upstream_receiver`, whose code only returns. -/
def inUpstream (c : Composed) : Bool := c.receivers.head? = some true

/-- `set_value` of the `_Upstream_receiver` of the sender `k`: `_D_state->_Start()`. -/
def proceed (c : Composed) (w : LibeventWorld) (k : ℕ) (p : SenderState) (d : Desc) : Composed where
  world := w.start d p.token
  senders := c.senders.set k { p with ops := p.ops ++ [w.ops.length] }
  owners := c.owners ++ [k]
  receivers := true :: c.receivers

/-- The receiver that the sender `k` was connected to is signalled. -/
def finish (c : Composed) (w : LibeventWorld) (k : ℕ) (p : SenderState) (s : Signal) : Composed where
  world := w
  senders := c.senders.set k { p with signals := p.signals ++ [s] }
  owners := c.owners
  receivers := false :: c.receivers

/-- The operation `o` has signalled its receiver, which left the world `w`. -/
def deliver (c : Composed) (w : LibeventWorld) (o : OpId) (s : Signal) : Option Composed :=
  match c.owners[o]? with
  | none => none
  | some k =>
    match c.senders[k]? with
    | none => none
    | some p =>
      match s with
      | .value v =>
        match p.next with
        | some d => some (c.proceed w k p d)
        | none => some (c.finish w k p (.value v))
      -- `set_error` and `set_stopped` of `_Upstream_receiver` pass it on
      | .error e => some (c.finish w k p (.error e))
      | .stopped => some (c.finish w k p .stopped)

/-- One step. Every operation is one of a sender. -/
def step (c : Composed) : Action → Option Composed
  | .start s token =>
    match s.descs with
    | [] => none
    | d :: _ =>
      if c.inUpstream then none
      else (c.world.step (.start d token)).map fun w =>
        { c with
          world := w
          senders := c.senders ++ [{ sender := s, token := token, ops := [c.world.ops.length] }]
          owners := c.owners ++ [c.senders.length] }
  | .step l =>
    if isStart l || (isUser l && c.inUpstream) then none
    else (c.world.step l).bind fun w =>
      match delivery c.world l with
      | some (o, s) => c.deliver w o s
      | none =>
        some { c with
          world := w
          receivers := if isReturn l then c.receivers.tail else c.receivers }

/-- The programs after a list of actions. -/
abbrev run (c : Composed) (as : List Action) : Option Composed := StepMachine.run step c as

end Composed

/-! ## Deliveries -/

section Delivery

variable {w w' : LibeventWorld} {l : Label} {o o' : OpId} {op op' : CpoState} {s : Signal}

theorem delivery_perform {env : Env} {m : AtomicStep} {rest : List Frame}
    {e : Effect LibeventContext} (htodo : w.todo = .op o m :: rest) (hop : w.ops[o]? = some op)
    (he : m.perform (w.stopped op.token) env w.ctx o op = some e) :
    delivery w (.perform env) = e.signal.map (o, ·) := by
  simp only [delivery, htodo, hop, he, Option.bind_some]

/-- Only `_Complete`, `_Error` and `_Cancel` signal, and they do nothing after it. -/
theorem next_of_signal {m : AtomicStep} {stopped : Bool} {env : Env} {ctx : LibeventContext}
    {e : Effect LibeventContext} (he : m.perform stopped env ctx o op = some e)
    (hs : e.signal = some s) : e.next = [] ∧ e.fault = false := by
  cases m with
  | complete | error | cancel | cancelComplete =>
    obtain rfl := Option.some.inj he
    simp only [decrement, Effect.logSignal]
    split <;> exact ⟨rfl, rfl⟩
  | submit =>
    simp only [AtomicStep.perform, AtomicStep.exec, Option.map_map, Option.map_eq_some_iff] at he
    obtain ⟨⟨e', b⟩, hsubmit, rfl⟩ := he
    have hnone := (LawfulContext.submit_silent hsubmit).signal
    simp [Effect.logSignal, hnone] at hs
  | emplace =>
    simp only [AtomicStep.perform, AtomicStep.exec] at he
    split at he
    all_goals
      obtain rfl := Option.some.inj he
      cases hs
  | _ =>
    obtain rfl := Option.some.inj he
    cases hs

/-- A step signals nothing, or it is a step of the operation that signals its receiver and leaves
the receiver's code on the call stack. -/
theorem delivery_cases (hstep : w.step l = some w') :
    (delivery w l = none ∧ ∀ (o : OpId) (op op' : CpoState), w.ops[o]? = some op →
        w'.ops[o]? = some op' → signals op'.history = signals op.history) ∨
      ∃ o s, delivery w l = some (o, s) ∧ w'.userMay = true ∧ w'.crashed = false ∧
        (∃ op, w.ops[o]? = some op) ∧ w'.ops.length = w.ops.length ∧
        ∀ (o' : OpId) (op op' : CpoState), w.ops[o']? = some op → w'.ops[o']? = some op' →
          signals op'.history = signals op.history ++ if o' = o then [s] else [] := by
  obtain ⟨hc, hcases⟩ := step_cases hstep
  have hsame : ∀ {x : LibeventWorld}, x.ops = w.ops → ∀ (o : OpId) (op op' : CpoState),
      w.ops[o]? = some op → x.ops[o]? = some op' → signals op'.history = signals op.history := by
    intro x hx o op op' hop hop'
    rw [hx, hop] at hop'
    rw [Option.some.inj hop']
  cases hcases with
  | start hmay =>
    refine .inl ⟨rfl, fun o op op' hop hop' => ?_⟩
    cases (getElem?_concat_of_some hop).symm.trans hop'
    rfl
  | requestStop hmay =>
    refine .inl ⟨rfl, hsame ?_⟩
    unfold World.requestStop
    split <;> rfl
  | callback htodo hop hcb =>
    refine .inl ⟨rfl, fun o' op₁ op₁' hop₁ hop₁' => ?_⟩
    rcases getElem?_set_cases hop₁' with ⟨rfl, rfl⟩ | ⟨-, hop₁'⟩
    · cases hop.symm.trans hop₁
      rfl
    · cases hop₁.symm.trans hop₁'
      rfl
  | @perform env o m rest op e htodo hop he =>
    obtain ⟨added, hhist, hsignals⟩ := (perform_kept he).history
    have hops : ∀ (o' : OpId) (x x' : CpoState), w.ops[o']? = some x →
        (w.apply o rest e).ops[o']? = some x' →
        signals x'.history = signals x.history ++ if o' = o then e.signal.toList else [] := by
      intro o' x x' hx hx'
      rw [apply_ops] at hx'
      rcases getElem?_set_cases hx' with ⟨rfl, rfl⟩ | ⟨hne, hx'⟩
      · cases hop.symm.trans hx
        rw [hhist, signals_append, hsignals, if_pos rfl]
      · cases hx.symm.trans hx'
        rw [if_neg hne, List.append_nil]
    rw [delivery_perform htodo hop he]
    cases hs : e.signal with
    | none =>
      rw [hs] at hops
      refine .inl ⟨rfl, fun o' x x' hx hx' => ?_⟩
      rw [hops o' x x' hx hx']
      simp
    | some s =>
      rw [hs] at hops
      obtain ⟨hnext, hf⟩ := next_of_signal he hs
      refine .inr ⟨o, s, rfl, ?_, (apply_crashed hf).trans hc, ⟨op, hop⟩, ?_, hops⟩
      · simp [World.apply, hf, hs, hnext, userMay]
      · rw [apply_ops, List.length_set]
  | @ready env o op e htodo hop hreg he =>
    obtain ⟨added, hhist, hsignals⟩ := ((callback_silent he).kept true).history
    rw [(callback_silent he).signal, Option.toList_none] at hsignals
    refine .inl ⟨rfl, fun o' op₁ op₁' hop₁ hop₁' => ?_⟩
    rw [apply_ops] at hop₁'
    rcases getElem?_set_cases hop₁' with ⟨rfl, rfl⟩ | ⟨-, hop₁'⟩
    · cases hop.symm.trans hop₁
      rw [hhist, signals_append, hsignals, List.append_nil]
    · cases hop₁.symm.trans hop₁'
      rfl
  | _ => exact .inl ⟨rfl, hsame rfl⟩

theorem length_step (hstep : w.step l = some w') (hl : isStart l = false) :
    w'.ops.length = w.ops.length := by
  obtain ⟨-, hcases⟩ := step_cases hstep
  cases hcases with
  | start hmay => cases hl
  | requestStop hmay =>
    unfold World.requestStop
    split <;> rfl
  | callback htodo hop hcb => exact List.length_set
  | perform htodo hop he => rw [apply_ops, List.length_set]
  | ready htodo hop hreg he => rw [apply_ops, List.length_set]
  | _ => rfl

theorem Reachable.step (h : Reachable w) (hstep : w.step l = some w') : Reachable w' := by
  have hrun : World.run w [l] = some w' := (StepMachine.run_cons_eq_some _).mpr ⟨w', hstep, rfl⟩
  exact h.run hrun

end Delivery

/-! ## The operations of a sender -/

/-- The operations that were started are the first ones of the sender; all but the last one have
signalled a value, and the receiver was signalled what that one has signalled. -/
structure InOrder (w : LibeventWorld) (p : SenderState) : Prop where
  entries : ∀ i o, p.ops[i]? = some o → ∃ op, w.ops[o]? = some op ∧
    p.sender.descs[i]? = some op.desc ∧ op.token = p.token ∧
    (i + 1 < p.ops.length → ∃ v, signals op.history = [.value v])
  active : ∃ o op, p.ops.getLast? = some o ∧ w.ops[o]? = some op ∧ signals op.history = p.signals
  complete : ∀ v, .value v ∈ p.signals → p.next = none

section InOrder

variable {w w' : LibeventWorld} {p : SenderState} {o : OpId} {d : Desc} {token : Source}

/-- Nothing that leaves the operations and their signals alone matters. -/
theorem InOrder.keep (h : InOrder w p) (hkeep : ∀ o ∈ p.ops, ∀ op, w.ops[o]? = some op →
    ∃ op', w'.ops[o]? = some op' ∧ op'.desc = op.desc ∧ op'.token = op.token ∧
      signals op'.history = signals op.history) : InOrder w' p where
  entries i o ho := by
    obtain ⟨op, hop, hdesc, htoken, hvalue⟩ := h.entries i o ho
    obtain ⟨op', hop', hdesc', htoken', hsignals⟩ := hkeep o (List.mem_of_getElem? ho) op hop
    exact ⟨op', hop', hdesc'.symm ▸ hdesc, htoken'.trans htoken, hsignals ▸ hvalue⟩
  active := by
    obtain ⟨o, op, ho, hop, hlast⟩ := h.active
    obtain ⟨op', hop', -, -, hsignals⟩ := hkeep o (List.mem_of_getLast? ho) op hop
    exact ⟨o, op', ho, hop', hsignals.trans hlast⟩
  complete := h.complete

theorem InOrder.start (h : InOrder w p) (d : Desc) (token : Source) :
    InOrder (w.start d token) p :=
  h.keep fun _ _ op hop => ⟨op, getElem?_concat_of_some hop, rfl, rfl, rfl⟩

theorem inOrder_first {s : Sender} {ds : List Desc} (hs : s.descs = d :: ds) :
    InOrder (w.start d token) { sender := s, token := token, ops := [w.ops.length] } where
  entries i o ho := by
    cases i with
    | zero =>
      obtain rfl := Option.some.inj ho
      refine ⟨{ desc := d, token := token }, ?_, by rw [hs]; rfl, rfl, fun h => ?_⟩
      · exact List.getElem?_concat_length
      · exact absurd h (by simp)
    | succ i => cases ho
  active := ⟨_, { desc := d, token := token }, rfl, List.getElem?_concat_length, rfl⟩
  complete v h := by cases h

/-- A step that signals the receiver of the operation `o`. -/
def SignalsOnly (w w' : LibeventWorld) (o : OpId) (s : Signal) : Prop :=
  ∀ (o' : OpId) (op : CpoState), w.ops[o']? = some op → ∃ op', w'.ops[o']? = some op' ∧
    op'.desc = op.desc ∧ op'.token = op.token ∧
    signals op'.history = signals op.history ++ if o' = o then [s] else []

theorem InOrder.other {s : Signal} (h : InOrder w p) (hd : SignalsOnly w w' o s) (ho : o ∉ p.ops) :
    InOrder w' p := by
  refine h.keep fun o' ho' op hop => ?_
  obtain ⟨op', hop', hdesc, htoken, hsignals⟩ := hd o' op hop
  have hne : o' ≠ o := fun heq => ho (heq ▸ ho')
  rw [if_neg hne, List.append_nil] at hsignals
  exact ⟨op', hop', hdesc, htoken, hsignals⟩

/-- The operation that signals is the last one that was started. -/
theorem InOrder.last_of_unsignalled (h : InOrder w p) (ho : o ∈ p.ops) {op : CpoState}
    (hop : w.ops[o]? = some op) (hnil : signals op.history = []) :
    p.ops.getLast? = some o ∧ p.signals = [] := by
  obtain ⟨i, hi⟩ := List.mem_iff_getElem?.mp ho
  obtain ⟨x, hx, -, -, hvalue⟩ := h.entries i o hi
  cases hop.symm.trans hx
  have hlast : ¬ i + 1 < p.ops.length := by
    intro hlt
    obtain ⟨v, hv⟩ := hvalue hlt
    rw [hnil] at hv
    cases hv
  have hget : p.ops.getLast? = some o := by
    have hlt := (List.getElem?_eq_some_iff.mp hi).1
    rw [List.getLast?_eq_getElem?, show p.ops.length - 1 = i by omega, hi]
  obtain ⟨o', op', ho', hop', hsignals⟩ := h.active
  cases hget.symm.trans ho'
  cases hop.symm.trans hop'
  exact ⟨hget, hsignals.symm.trans hnil⟩

/-- The entries of the operations before the last one are about other operations than the one that
signals. -/
theorem InOrder.entry (h : InOrder w p) {s : Signal} (hd : SignalsOnly w w' o s) {op : CpoState}
    (hop : w.ops[o]? = some op) (hnil : signals op.history = []) {i : ℕ} {o' : OpId}
    (hi : p.ops[i]? = some o') : ∃ op', w'.ops[o']? = some op' ∧
      p.sender.descs[i]? = some op'.desc ∧ op'.token = p.token ∧
      (i + 1 < p.ops.length → ∃ v, signals op'.history = [.value v]) := by
  obtain ⟨x, hx, hdesc, htoken, hvalue⟩ := h.entries i o' hi
  obtain ⟨x', hx', hdesc', htoken', hsignals⟩ := hd o' x hx
  refine ⟨x', hx', hdesc' ▸ hdesc, htoken'.trans htoken, fun hlt => ?_⟩
  obtain ⟨v, hv⟩ := hvalue hlt
  have hne : o' ≠ o := by
    rintro rfl
    cases hop.symm.trans hx
    rw [hnil] at hv
    cases hv
  exact ⟨v, by rw [hsignals, if_neg hne, List.append_nil, hv]⟩

/-- The next operation is started when the last one has signalled a value. -/
theorem InOrder.proceed (h : InOrder w p) {v : Value} (hd : SignalsOnly w w' o (.value v))
    (ho : o ∈ p.ops) {op : CpoState} (hop : w.ops[o]? = some op) (hnil : signals op.history = [])
    (hnext : p.next = some d) :
    InOrder (w'.start d p.token) { p with ops := p.ops ++ [w'.ops.length] } := by
  obtain ⟨hlast, hsignals⟩ := h.last_of_unsignalled ho hop hnil
  refine ⟨fun i o' ho' => ?_, ⟨_, { desc := d, token := p.token }, List.getLast?_concat, ?_, ?_⟩, ?_⟩
  · rcases getElem?_concat_cases ho' with ⟨rfl, rfl⟩ | ⟨hlt, ho'⟩
    · refine ⟨{ desc := d, token := p.token }, List.getElem?_concat_length, hnext, rfl, fun hlt => ?_⟩
      exact absurd hlt (by simp)
    · obtain ⟨x, hx, hdesc, htoken, hvalue⟩ := h.entry hd hop hnil ho'
      refine ⟨x, getElem?_concat_of_some hx, hdesc, htoken, fun _ => ?_⟩
      by_cases hend : i + 1 < p.ops.length
      · exact hvalue hend
      · -- this is the operation that has signalled the value
        have hi : o' = o := by
          rw [List.getLast?_eq_getElem?, show p.ops.length - 1 = i by omega, ho'] at hlast
          exact Option.some.inj hlast
        subst hi
        obtain ⟨y, hy, -, -, hy'⟩ := hd o' op hop
        cases hx.symm.trans hy
        exact ⟨v, by rw [hy', hnil, if_pos rfl, List.nil_append]⟩
  · exact List.getElem?_concat_length
  · exact hsignals.symm
  · intro v' hv'
    rw [show p.signals = [] from hsignals] at hv'
    cases hv'

/-- The receiver of the sender is signalled. -/
theorem InOrder.finish (h : InOrder w p) {s : Signal} (hd : SignalsOnly w w' o s) (ho : o ∈ p.ops)
    {op : CpoState} (hop : w.ops[o]? = some op) (hnil : signals op.history = [])
    (hnext : ∀ v, s = .value v → p.next = none) :
    InOrder w' { p with signals := p.signals ++ [s] } := by
  obtain ⟨hlast, hsignals⟩ := h.last_of_unsignalled ho hop hnil
  obtain ⟨op', hop', -, -, hop''⟩ := hd o op hop
  refine ⟨fun i o' ho' => h.entry hd hop hnil ho', ⟨o, op', hlast, hop', ?_⟩, ?_⟩
  · rw [hop'', hnil, hsignals, if_pos rfl]
  · intro v hv
    simp only [hsignals, List.nil_append, List.mem_singleton] at hv
    exact hnext v hv.symm

end InOrder

/-! ## Programs that start senders -/

namespace Composed

/-- Every operation is one of exactly one sender, whose operations are in order. -/
structure Coherent (c : Composed) : Prop where
  reachable : Reachable c.world
  ordered : ∀ (k : ℕ) (p : SenderState), c.senders[k]? = some p → InOrder c.world p
  length : c.owners.length = c.world.ops.length
  covered : ∀ (o : OpId) (k : ℕ), c.owners[o]? = some k → ∃ p, c.senders[k]? = some p ∧ o ∈ p.ops
  owned : ∀ (k : ℕ) (p : SenderState) (o : OpId), c.senders[k]? = some p → o ∈ p.ops → c.owners[o]? = some k

theorem coherent_initial : Coherent {} where
  reachable := ⟨[], rfl⟩
  ordered k p h := by cases h
  length := rfl
  covered o k h := by cases h
  owned k p o h := by cases h

variable {c c' : Composed} {a : Action} {l : Label} {w : LibeventWorld}

theorem Coherent.start (h : Coherent c) {s : Sender} {token : Source} {d : Desc} {ds : List Desc}
    (hs : s.descs = d :: ds) (hstep : c.world.step (.start d token) = some w) :
    Coherent { c with
      world := w
      senders := c.senders ++ [{ sender := s, token := token, ops := [c.world.ops.length] }]
      owners := c.owners ++ [c.senders.length] } := by
  have hreach := h.reachable.step hstep
  obtain ⟨-, hcases⟩ := step_cases hstep
  cases hcases with
  | start hmay =>
    refine ⟨hreach, fun k p hp => ?_, ?_, fun o k hk => ?_, fun k p o hp ho => ?_⟩
    · rcases getElem?_concat_cases hp with ⟨-, rfl⟩ | ⟨-, hp⟩
      · exact inOrder_first hs
      · exact (h.ordered k p hp).start d token
    · simp [World.start, h.length]
    · rcases getElem?_concat_cases hk with ⟨rfl, rfl⟩ | ⟨-, hk⟩
      · exact ⟨_, List.getElem?_concat_length, by simp [h.length]⟩
      · obtain ⟨p, hp, ho⟩ := h.covered o k hk
        exact ⟨p, getElem?_concat_of_some hp, ho⟩
    · rcases getElem?_concat_cases hp with ⟨rfl, rfl⟩ | ⟨-, hp⟩
      · rw [List.mem_singleton.mp ho, ← h.length]
        exact List.getElem?_concat_length
      · exact getElem?_concat_of_some (h.owned k p o hp ho)

/-- A step that signals no receiver. -/
theorem Coherent.quiet (h : Coherent c) (hl : isStart l = false) (hstep : c.world.step l = some w)
    (hsignals : ∀ (o : OpId) (op op' : CpoState), c.world.ops[o]? = some op →
      w.ops[o]? = some op' → signals op'.history = signals op.history) (rs : List Bool) :
    Coherent { c with world := w, receivers := rs } where
  reachable := h.reachable.step hstep
  ordered k p hp := (h.ordered k p hp).keep fun o ho op hop => by
    obtain ⟨op', hop', hdesc, htoken, -⟩ := step_grows hstep hop
    exact ⟨op', hop', hdesc, htoken, hsignals o op op' hop hop'⟩
  length := h.length.trans (length_step hstep hl).symm
  covered := h.covered
  owned := h.owned

/-- A step signals the receiver of the operation `o`, which is one of the sender `k`. -/
structure Delivered (c : Composed) (w : LibeventWorld) (o : OpId) (s : Signal) (k : ℕ)
    (p : SenderState) : Prop where
  reachable : Reachable w
  only : SignalsOnly c.world w o s
  length : w.ops.length = c.world.ops.length
  owner : c.owners[o]? = some k
  sender : c.senders[k]? = some p
  mem : o ∈ p.ops
  unsignalled : ∃ op, c.world.ops[o]? = some op ∧ signals op.history = []

/-- The operation is one of no other sender. -/
theorem Coherent.other (h : Coherent c) {o : OpId} {s : Signal} {k k' : ℕ} {p p' : SenderState}
    (hd : Delivered c w o s k p) (hne : k' ≠ k) (hp' : c.senders[k']? = some p') :
    InOrder w p' := by
  refine (h.ordered k' p' hp').other hd.only fun ho => hne ?_
  exact Option.some.inj ((h.owned k' p' o hp' ho).symm.trans hd.owner)

theorem Coherent.finish (h : Coherent c) {o : OpId} {s : Signal} {k : ℕ} {p : SenderState}
    (hd : Delivered c w o s k p) (hnext : ∀ v, s = .value v → p.next = none) :
    Coherent (c.finish w k p s) := by
  obtain ⟨op, hop, hnil⟩ := hd.unsignalled
  refine ⟨hd.reachable, fun k' p' hp' => ?_, h.length.trans hd.length.symm, fun o' k' hk' => ?_,
    fun k' p' o' hp' ho' => ?_⟩
  · rcases getElem?_set_cases hp' with ⟨rfl, rfl⟩ | ⟨hne, hp'⟩
    · exact (h.ordered k' p hd.sender).finish hd.only hd.mem hop hnil hnext
    · exact h.other hd hne hp'
  · obtain ⟨p', hp', ho'⟩ := h.covered o' k' hk'
    by_cases heq : k = k'
    · subst heq
      cases hd.sender.symm.trans hp'
      exact ⟨_, getElem?_set_of_some hp', ho'⟩
    · exact ⟨p', (List.getElem?_set_ne heq).trans hp', ho'⟩
  · rcases getElem?_set_cases hp' with ⟨rfl, rfl⟩ | ⟨-, hp'⟩
    · exact h.owned k' p o' hd.sender ho'
    · exact h.owned k' p' o' hp' ho'

theorem Coherent.proceed (h : Coherent c) {o : OpId} {v : Value} {k : ℕ} {p : SenderState} {d : Desc}
    (hd : Delivered c w o (.value v) k p) (hmay : w.userMay = true) (hc : w.crashed = false)
    (hnext : p.next = some d) : Coherent (c.proceed w k p d) := by
  obtain ⟨op, hop, hnil⟩ := hd.unsignalled
  have hstart : World.step w (.start d p.token) = some (w.start d p.token) := by
    simp only [World.step, hc, hmay, Bool.false_eq_true, if_false, if_true]
  have hlength : c.owners.length = w.ops.length := h.length.trans hd.length.symm
  refine ⟨hd.reachable.step hstart, fun k' p' hp' => ?_, ?_, fun o' k' hk' => ?_,
    fun k' p' o' hp' ho' => ?_⟩
  · rcases getElem?_set_cases hp' with ⟨rfl, rfl⟩ | ⟨hne, hp'⟩
    · exact (h.ordered k' p hd.sender).proceed hd.only hd.mem hop hnil hnext
    · exact (h.other hd hne hp').start d p.token
  · simp [Composed.proceed, World.start, hlength]
  · rcases getElem?_concat_cases hk' with ⟨rfl, rfl⟩ | ⟨-, hk'⟩
    · exact ⟨_, getElem?_set_of_some hd.sender, by simp [hlength]⟩
    · obtain ⟨p', hp', ho'⟩ := h.covered o' k' hk'
      by_cases heq : k = k'
      · subst heq
        cases hd.sender.symm.trans hp'
        exact ⟨_, getElem?_set_of_some hp', List.mem_append_left _ ho'⟩
      · exact ⟨p', (List.getElem?_set_ne heq).trans hp', ho'⟩
  · rcases getElem?_set_cases hp' with ⟨rfl, rfl⟩ | ⟨-, hp'⟩
    · rcases List.mem_append.mp ho' with ho' | ho'
      · exact getElem?_concat_of_some (h.owned k' p o' hd.sender ho')
      · rw [List.mem_singleton.mp ho', ← hlength]
        exact List.getElem?_concat_length
    · exact getElem?_concat_of_some (h.owned k' p' o' hp' ho')

/-- No operation signals twice. -/
theorem unsignalled_of_step (hreach : Reachable w) {x : LibeventWorld} {o : OpId} {s : Signal}
    (hd : SignalsOnly x w o s) {op : CpoState} (hop : x.ops[o]? = some op) :
    signals op.history = [] := by
  obtain ⟨op', hop', -, -, hsignals⟩ := hd o op hop
  rw [if_pos rfl] at hsignals
  rcases hreach.inv.signals_cases hop' with hnil | ⟨y, hy⟩
  · rw [hsignals] at hnil
    exact absurd hnil (List.append_ne_nil_of_right_ne_nil _ (List.cons_ne_nil _ _))
  · rw [hsignals] at hy
    exact (List.append_eq_singleton_iff.mp hy).elim And.left fun hwrong => by cases hwrong.2

theorem Coherent.deliver (h : Coherent c) (hstep : c.world.step l = some w) {o : OpId} {s : Signal}
    (hlength : w.ops.length = c.world.ops.length) (hd : SignalsOnly c.world w o s)
    (hmay : w.userMay = true) (hc : w.crashed = false) (hdeliver : c.deliver w o s = some c') :
    Coherent c' := by
  have hreach := h.reachable.step hstep
  unfold Composed.deliver at hdeliver
  split at hdeliver
  next => cases hdeliver
  next k hk =>
    split at hdeliver
    next => cases hdeliver
    next p hp =>
      obtain ⟨p', hp', ho⟩ := h.covered o k hk
      cases hp.symm.trans hp'
      obtain ⟨i, hi⟩ := List.mem_iff_getElem?.mp ho
      obtain ⟨op, hop, -⟩ := (h.ordered k p hp).entries i o hi
      have hdelivered : Delivered c w o s k p :=
        ⟨hreach, hd, hlength, hk, hp, ho, op, hop, unsignalled_of_step hreach hd hop⟩
      split at hdeliver
      next v =>
        split at hdeliver
        next d hnext =>
          obtain rfl := Option.some.inj hdeliver
          exact h.proceed hdelivered hmay hc hnext
        next hnext =>
          obtain rfl := Option.some.inj hdeliver
          exact h.finish hdelivered fun _ _ => hnext
      next e =>
        obtain rfl := Option.some.inj hdeliver
        exact h.finish hdelivered fun v hv => by cases hv
      next =>
        obtain rfl := Option.some.inj hdeliver
        exact h.finish hdelivered fun v hv => by cases hv

theorem Coherent.step (h : Coherent c) (hstep : c.step a = some c') : Coherent c' := by
  cases a with
  | start s token =>
    simp only [Composed.step] at hstep
    split at hstep
    next => cases hstep
    next d ds hs =>
      simp only [Option.ite_none_left_eq_some] at hstep
      obtain ⟨w, hw, rfl⟩ := Option.map_eq_some_iff.mp hstep.2
      exact h.start hs hw
  | step l =>
    simp only [Composed.step, Option.ite_none_left_eq_some, Option.bind_eq_some_iff] at hstep
    obtain ⟨hl, w, hw, hstep⟩ := hstep
    have hstart : isStart l = false := by
      cases hs : isStart l with
      | false => rfl
      | true => simp [hs] at hl
    rcases delivery_cases hw with ⟨hnone, hsame⟩ | ⟨o, s, hsome, hmay, hc, -, hlength, hsignals⟩
    · rw [hnone] at hstep
      obtain rfl := Option.some.inj hstep
      exact h.quiet hstart hw hsame _
    · rw [hsome] at hstep
      refine h.deliver hw hlength (fun o' op hop => ?_) hmay hc hstep
      obtain ⟨op', hop', hdesc, htoken, -⟩ := step_grows hw hop
      exact ⟨op', hop', hdesc, htoken, hsignals o' op op' hop hop'⟩

theorem coherent_run {as : List Action} (hrun : Composed.run {} as = some c) : Coherent c :=
  StepMachine.run_invariant Composed.step (fun _ _ _ h hstep => h.step hstep) coherent_initial hrun

/-- A step of the operations is a step of the program: every receiver is the one of a sender. -/
theorem Coherent.enabled (h : Coherent c) (hl : isStart l = false)
    (hu : isUser l = true → c.inUpstream = false) (hstep : c.world.step l = some w) :
    ∃ c', c.step (.step l) = some c' := by
  have hguard : ¬ (isStart l || (isUser l && c.inUpstream)) = true := by
    cases hlabel : isUser l with
    | false => simp [hl]
    | true => simp [hl, hu hlabel]
  simp only [Composed.step, if_neg hguard, hstep, Option.bind_some]
  rcases delivery_cases hstep with ⟨hnone, -⟩ | ⟨o, s, hsome, -, -, ⟨op, hop⟩, -, -⟩
  · rw [hnone]
    exact ⟨_, rfl⟩
  · rw [hsome]
    have hlt : o < c.owners.length := h.length ▸ (List.getElem?_eq_some_iff.mp hop).1
    have hk := List.getElem?_eq_getElem hlt
    obtain ⟨p, hp, -⟩ := h.covered o _ hk
    simp only [Composed.deliver, hk, hp]
    cases s with
    | error e | stopped => exact ⟨_, rfl⟩
    | value v =>
      cases p.next with
      | some d => exact ⟨_, rfl⟩
      | none => exact ⟨_, rfl⟩

end Composed

/-! ## What becomes of a sender -/

section Senders

variable {c : Composed} {as : List Action} {k : ℕ} {p : SenderState}

/-- An operation without a value reports none. -/
theorem value_of_void {d : Desc} {r : WorkEnd} {v : Value} (hd : d.isVoid = true)
    (h : Reports d r (.value v)) : v = .unit := by
  cases d with
  | connect id | resumeAfter n | resumeAt n =>
    cases r with
    | value n => exact Signal.value.inj h
    | error e | closed | wouldBlock => cases h
  | accept id | receive id | send id => cases hd

theorem signal_of_void {w : LibeventWorld} (h : RunInv w) {o : OpId} {op : CpoState} {v : Value}
    (hop : w.ops[o]? = some op) (hd : op.desc.isVoid = true)
    (hs : signals op.history = [.value v]) : v = .unit := by
  rcases h.phase o op hop with hphase | ⟨-, hdropped⟩
  · rcases hphase.signals_or_done with hnil | ⟨s, hdone, -⟩
    · rw [hnil] at hs
      cases hs
    · obtain rfl := List.singleton_inj.mp (hdone.signals.symm.trans hs)
      rcases hdone.cause with ⟨hstopped, -⟩ | ⟨r, -, hreports⟩
      · cases hstopped
      · exact value_of_void hd hreports
  · rw [hdropped.signals] at hs
    cases hs

theorem InOrder.length_le {w : LibeventWorld} (h : InOrder w p) :
    0 < p.ops.length ∧ p.ops.length ≤ p.sender.descs.length := by
  obtain ⟨o, op, ho, -, -⟩ := h.active
  have hne : p.ops ≠ [] := fun hnil => by
    rw [hnil] at ho
    cases ho
  have hpos := List.length_pos_iff.mpr hne
  rw [List.getLast?_eq_getElem?] at ho
  obtain ⟨x, -, hdesc, -, -⟩ := h.entries _ o ho
  have hlt := (List.getElem?_eq_some_iff.mp hdesc).1
  omega

/-- The operations of a sender are started one after the other, each when the one before it has
signalled, once, that it has succeeded; its receiver is signalled once at most, what the last one
that was started has signalled, and a value only if all of them were started. -/
theorem operations_in_order (hrun : Composed.run {} as = some c) (hp : c.senders[k]? = some p) :
    (∀ i o, p.ops[i]? = some o → ∃ op, c.world.ops[o]? = some op ∧
      p.sender.descs[i]? = some op.desc ∧ op.token = p.token ∧
      signals op.history = if i + 1 < p.ops.length then [.value .unit] else p.signals) ∧
    0 < p.ops.length ∧ p.ops.length ≤ p.sender.descs.length ∧ p.signals.length ≤ 1 ∧
    ∀ v, .value v ∈ p.signals → p.ops.length = p.sender.descs.length := by
  have h := Composed.coherent_run hrun
  have hinv := h.reachable.inv
  have hp' := h.ordered k p hp
  obtain ⟨hpos, hle⟩ := hp'.length_le
  obtain ⟨o, op, ho, hop, hlast⟩ := hp'.active
  refine ⟨fun i o' ho' => ?_, hpos, hle, ?_, fun v hv => ?_⟩
  · obtain ⟨x, hx, hdesc, htoken, hvalue⟩ := hp'.entries i o' ho'
    refine ⟨x, hx, hdesc, htoken, ?_⟩
    split
    next hlt =>
      obtain ⟨v, hv⟩ := hvalue hlt
      -- all operations but the outermost one are upstream of another
      have hvoid : x.desc.isVoid = true := by
        have hlt' : i < p.sender.upstream.length := by
          rw [Sender.descs, List.length_append, List.length_singleton] at hle
          omega
        rw [Sender.descs, List.getElem?_append_left hlt'] at hdesc
        exact p.sender.void _ (List.mem_of_getElem? hdesc)
      rw [hv, signal_of_void hinv hx hvoid hv]
    next hge =>
      have hi := (List.getElem?_eq_some_iff.mp ho').1
      rw [List.getLast?_eq_getElem?, show p.ops.length - 1 = i by omega, ho'] at ho
      cases ho
      cases hop.symm.trans hx
      exact hlast
  · rcases hinv.signals_cases hop with hnil | ⟨s, hs⟩
    · rw [← hlast, hnil]
      exact Nat.zero_le _
    · rw [← hlast, hs]
      exact le_refl _
  · have hnone := hp'.complete v hv
    rw [SenderState.next, List.getElem?_eq_none_iff] at hnone
    exact Nat.le_antisymm hle hnone

/-- When no function is executing, a sender has signalled its receiver, or its last operation waits
in the event base or was left behind and its stop was not requested. When `request_stop` on its
source has returned it has signalled, in a receiver's code as well. -/
theorem senders_settle (hrun : Composed.run {} as = some c) (hp : c.senders[k]? = some p) :
    (InEventLoop c.world → (∃ s, p.signals = [s]) ∨
      (p.signals = [] ∧ c.world.stopped p.token = false ∧
        ∃ o op, p.ops.getLast? = some o ∧ c.world.ops[o]? = some op ∧
          (op.isArmed = true ∨ LeftBehind c.world op))) ∧
    (c.world.crashed = false → c.world.userMay = true → c.world.stopped p.token = true →
      .stopLoop p.token ∉ c.world.todo → ∃ s, p.signals = [s]) := by
  have h := Composed.coherent_run hrun
  have hp' := h.ordered k p hp
  obtain ⟨o, op, ho, hop, hlast⟩ := hp'.active
  have htoken : op.token = p.token := by
    obtain ⟨i, hi⟩ := List.mem_iff_getElem?.mp (List.mem_of_getLast? ho)
    obtain ⟨x, hx, -, htoken, -⟩ := hp'.entries i o hi
    cases hop.symm.trans hx
    exact htoken
  rw [← hlast]
  refine ⟨fun hloop => ?_, fun hc hmay hstop hreturned => ?_⟩
  · rcases settled_cases h.reachable hloop hop with ⟨hnil, hstop, hwaits⟩ | ⟨-, hsignalled⟩
    · exact .inr ⟨hnil, htoken ▸ hstop, o, op, ho, hop, hwaits⟩
    · exact .inl hsignalled
  · have hinv := h.reachable.inv
    refine (hinv.signals_cases hop).resolve_left fun hnil => ?_
    -- a requested stop would still be calling the stop callback
    obtain ⟨hpending, -⟩ := hinv.pending_of_userMay hc hmay hop hnil
    exact hreturned (htoken ▸ hinv.waiting o op hop hpending.callback (htoken.symm ▸ hstop))

/-- A connection is made, then data is received; the socket has been made. -/
def connectAndReceive : Sender where
  upstream := [.connect 0]
  desc := .receive 0
  void := by simp [Desc.isVoid]

/-- The connection is under way, then made; the receive gets 3 bytes. -/
def connectedAndReceived : List Action :=
  [.step (.makeSocket 7), .start connectAndReceive 0, .step (.perform {}), .step (.perform {}),
    .step (.perform {}), .step (.perform { connect := .fail EINPROGRESS }),
    .step (.ready 0 { results := [.ok 0] }), .step (.perform {}), .step (.perform {}),
    -- `_Upstream_receiver` starts the receive
    .step (.perform {}), .step (.perform {}), .step (.perform {}), .step (.perform {}),
    .step .userReturn, .step (.ready 1 { results := [.ok 3] }), .step (.perform {}),
    .step (.perform {}), .step .userReturn]

theorem operations_in_order_connectAndReceive : ∃ c p, Composed.run {} connectedAndReceived = some c ∧
    c.senders[0]? = some p ∧ p.ops = [0, 1] ∧ p.signals = [.value (.count 3)] ∧
      p.signals.length ≤ 1 :=
  ⟨_, _, rfl, rfl, rfl, rfl,
    (operations_in_order (show Composed.run {} connectedAndReceived = some _ from rfl)
      (k := 0) rfl).2.2.2.1⟩

/-- The connection is under way when its stop is requested. -/
def stoppedWhileConnecting : List Action :=
  [.step (.makeSocket 7), .start connectAndReceive 0, .step (.perform {}), .step (.perform {}),
    .step (.perform {}), .step (.perform { connect := .fail EINPROGRESS }),
    .step (.requestStop 0), .step (.callback 0), .step (.perform {}), .step (.perform {}),
    .step (.perform {}), .step (.perform {}), .step .userReturn, .step (.perform {}), .step .stopDone]

theorem senders_settle_connectAndReceive :
    (∃ c p, Composed.run {} connectedAndReceived = some c ∧ c.senders[0]? = some p ∧
      ∃ s, p.signals = [s]) ∧
    ∃ c p, Composed.run {} stoppedWhileConnecting = some c ∧ c.senders[0]? = some p ∧
      c.world.stopped p.token = true ∧ ∃ s, p.signals = [s] := by
  constructor
  · have hrun : Composed.run {} connectedAndReceived = some _ := rfl
    refine ⟨_, _, hrun, rfl, ?_⟩
    exact ((senders_settle hrun (k := 0) rfl).1 ⟨rfl, rfl⟩).resolve_right fun h => by cases h.1
  · have hrun : Composed.run {} stoppedWhileConnecting = some _ := rfl
    exact ⟨_, _, hrun, rfl, rfl, (senders_settle hrun (k := 0) rfl).2 rfl rfl rfl List.not_mem_nil⟩

end Senders

end LibeventContext

end Stdnet
