import Stdnet.LibeventRuns
import Stdnet.PollRuns

/-!
# The Two Contexts under One Script

A script starts accepts, requests stops and delivers readiness with the results of `accept()`. It is
played on each context; the internal steps of the two runs are different, the events are the same.

`_Accept` returns true on the libevent context when the operation is pending, and false on the poll
context, where `_Start` then completes it without a socket. No accept gets the same signal from
both contexts.

## Main results

- `accept_results`: what the two `_Accept` functions return for the same operation.
- `PollContext.signals_accept`: the signal of an accept on the poll context.
- `sameSignals_iff`: the scripts that give all receivers the same signals start no accept.
-/

namespace Stdnet

open ListEntries History World

/-! ## Scripts -/

/-- An event of a script. -/
inductive ScriptEvent where
  | makeSocket (fd : Handle)
  | accept (id : SocketId) (token : Source)
  | requestStop (s : Source)
  | ready (o : OpId) (results : List SysResult)

/-- The label by which a program takes the event. -/
def ScriptEvent.label : ScriptEvent → Label
  | .makeSocket fd => .makeSocket fd
  | .accept id token => .start (.accept id) token
  | .requestStop s => .requestStop s
  | .ready o results => .ready o { results := results }

/-- The labels that are not events: the library, the stop sources and the return of a receiver. -/
def Label.internal : Label → Bool
  | .perform _ | .callback _ | .stopDone | .userReturn => true
  | _ => false

/-- The events of the run along `ls` are those of the script. -/
def Plays (es : List ScriptEvent) (ls : List Label) : Prop :=
  ls.filter (fun l => !l.internal) = es.map ScriptEvent.label

/-- Nothing is left to be run, and the program has not ended. -/
def Settled {κ : Type*} (w : World κ) : Prop :=
  w.todo = [] ∧ w.crashed = false

/-- Every receiver has been sent the same signals. -/
def SameSignals {κ κ' : Type*} (w : World κ) (w' : World κ') : Prop :=
  ∀ o : OpId, w.ops[o]?.map (signals ·.history) = w'.ops[o]?.map (signals ·.history)

/-! ## What the labels say -/

/-- The operation that a label starts. -/
def Label.started : Label → List (Desc × Source)
  | .start d token => [(d, token)]
  | _ => []

section Labels

variable {κ : Type*} [ContextBase κ]

/-- The operations and their tokens are those that were started. -/
theorem run_started [LawfulContext κ] {w w' : World κ} {ls : List Label}
    (hrun : World.run w ls = some w') : w'.ops.map (fun op => (op.desc, op.token)) =
      w.ops.map (fun op => (op.desc, op.token)) ++ ls.flatMap Label.started := by
  refine StepMachine.run_trace World.step (f := fun w => w.ops.map fun op => (op.desc, op.token)) ?_
    hrun
  intro w l w' hstep
  obtain ⟨-, hcases⟩ := step_cases hstep
  -- what an operation is and the source of its token never change
  have hset : ∀ {o : OpId} {op x : CpoState}, w.ops[o]? = some op → x.desc = op.desc →
      x.token = op.token → (w.ops.set o x).map (fun op => (op.desc, op.token)) =
        w.ops.map fun op => (op.desc, op.token) := by
    intro o op x hop hdesc htoken
    apply List.ext_getElem?
    intro i
    rw [List.getElem?_map, List.getElem?_map]
    by_cases hi : i = o
    · rw [hi, getElem?_set_of_some hop, hop]
      simp [hdesc, htoken]
    · rw [List.getElem?_set_ne (Ne.symm hi)]
  cases hcases with
  | start hmay => simp [World.start, Label.started]
  | requestStop hmay =>
    unfold World.requestStop
    split <;> simp [Label.started]
  | makeSocket | released | notReleased | userReturn | stopDone => simp [Label.started]
  | callback htodo hop hcb => simpa [Label.started] using hset hop rfl rfl
  | perform htodo hop he =>
    have hkept := perform_kept he
    simpa [Label.started] using hset hop hkept.desc hkept.token
  | ready htodo hop hreg he =>
    have hsilent := LawfulContext.ready_silent he
    simpa [Label.started] using hset hop hsilent.desc hsilent.token

/-- A stop has been requested exactly if there was a request. -/
theorem run_stopped {w w' : World κ} {ls : List Label} (hrun : World.run w ls = some w')
    (s : Source) : w'.stopped s = true ↔ w.stopped s = true ∨ ∃ l ∈ ls, l = .requestStop s := by
  refine StepMachine.run_flag World.step (P := fun w => w.stopped s = true) ?_ hrun
  intro w l w' hstep
  obtain ⟨-, hcases⟩ := step_cases hstep
  cases hcases with
  | @requestStop s' hmay =>
    unfold World.requestStop
    split
    -- a second request for the same source does nothing
    next hs' =>
      simp only [Label.requestStop.injEq]
      exact ⟨.inl, fun h => h.elim id fun heq => heq ▸ hs'⟩
    next =>
      simp only [Label.requestStop.injEq]
      by_cases heq : s = s'
      · simp [heq]
      · rw [Function.update_of_ne heq]
        exact ⟨.inl, fun h => h.elim id fun heq' => absurd heq'.symm heq⟩
  | perform | ready => simp
  | _ => simp [World.start]

/-- The internal labels start nothing. -/
theorem flatMap_started_filter (ls : List Label) :
    (ls.filter fun l => !l.internal).flatMap Label.started = ls.flatMap Label.started := by
  induction ls with
  | nil => rfl
  | cons l ls ih =>
    rw [List.filter_cons, List.flatMap_cons, ← ih]
    cases l <;> rfl

/-- What a script starts. -/
theorem flatMap_started {es : List ScriptEvent} {ls : List Label} (hplays : Plays es ls) :
    ls.flatMap Label.started = es.flatMap fun e => e.label.started := by
  rw [← flatMap_started_filter, hplays, List.flatMap_map]

/-- The stop sources that a script stops. -/
theorem exists_requestStop {es : List ScriptEvent} {ls : List Label} (hplays : Plays es ls)
    (s : Source) : (∃ l ∈ ls, l = .requestStop s) ↔ ∃ e ∈ es, e.label = .requestStop s := by
  have hmem : ∀ l : Label, l.internal = false → (l ∈ ls ↔ l ∈ es.map ScriptEvent.label) := by
    intro l hl
    rw [← hplays, List.mem_filter, hl]
    simp
  simp only [exists_eq_right, hmem (.requestStop s) rfl, List.mem_map]

end Labels

/-! ## The two contexts -/

/-- **The returned bool**: for an operation on a live id whose event can be made, `_Accept` of the
libevent context leaves it pending and returns true; that of the poll context leaves an operation on
a socket in blocking mode pending and returns false. -/
theorem accept_results {ctx : LibeventContext} {ctx' : PollContext} {o : OpId} {op : CpoState}
    {id : SocketId} {r : SocketRecord} {env : Env} (hdesc : op.desc = .accept id)
    (hr : ctx.sockets.record id = some r) (hr' : ctx'.sockets.record id = some r)
    (hnew : env.eventNew = none) (hmode : r.blocking = true) :
    (∃ e, ctx.submit op env = (e, true) ∧ e.next = [] ∧ e.op.isArmed = true) ∧
      ∃ e, ctx'.submit o op env = some (e, false) ∧ e.next = [] ∧ o ∈ e.ctx.outstanding := by
  have hget := Container.get_eq_ok.mpr hr
  have hget' := Container.get_eq_ok.mpr hr'
  constructor
  · simp only [LibeventContext.submit, hdesc, LibeventContext.accept, LibeventContext.withHandle,
      Desc.id, hget, LibeventContext.addEvent, hnew]
    exact ⟨_, rfl, rfl, rfl⟩
  · simp only [PollContext.submit, hdesc, PollContext.accept, Desc.id, hget', hmode, if_true]
    exact ⟨_, rfl, rfl, List.mem_append_right _ (List.mem_singleton_self o)⟩

/-- On the libevent context no accept is completed without a socket, and an accept signals once a
stop is requested. -/
theorem LibeventContext.signals_accept {w : LibeventWorld} (h : Reachable w) (hsettled : Settled w)
    {o : OpId} {op : CpoState} (hop : w.ops[o]? = some op) :
    signals op.history ≠ [.value (.socket none)] ∧
      (w.stopped op.token = true → signals op.history ≠ []) := by
  obtain ⟨htodo, hc⟩ := hsettled
  constructor
  · intro hs
    rcases h.account hop (.inl (by simp [hs])) with ⟨-, hnil | hstopped⟩ | ⟨x, s, -, hsig, hreports⟩
    · simp [hs] at hnil
    · simp [hs] at hstopped
    -- what settles an accept on this context delivers a socket or an error
    · rw [hs, List.cons.injEq] at hsig
      rw [← hsig.1] at hreports
      cases x with
      | error e => cases hreports
      | wouldBlock => exact hreports
      | value n => cases hdesc : op.desc <;> simp [Reports, hdesc] at hreports
      | closed => cases hdesc : op.desc <;> simp [Reports, hdesc] at hreports
  · intro hstop hs
    have hmay : w.userMay = true := by simp [World.userMay, htodo]
    obtain ⟨hpending, -⟩ := h.inv.pending_of_userMay hc hmay hop hs
    -- its callback would still have to be called
    have hmem := h.inv.waiting o op hop hpending.callback hstop
    rw [htodo] at hmem
    cases hmem

/-- On the poll context an accept is completed without a socket, unless a stop was requested before
it was started; then it never signals. -/
theorem PollContext.signals_accept {w : PollWorld} (h : RunInv True w) (hsettled : Settled w)
    {o : OpId} {op : CpoState} (hop : w.ops[o]? = some op) {id : SocketId}
    (hdesc : op.desc = .accept id) : signals op.history = [.value (.socket none)] ∨
      (signals op.history = [] ∧ w.stopped op.token = true) := by
  obtain ⟨htodo, hc⟩ := hsettled
  have hphase := h.phase hc o op hop
  rw [htodo, World.frames_nil] at hphase
  generalize hfs : ([] : List AtomicStep) = fs at hphase
  cases hphase with
  | halting h hstop => exact .inr ⟨h.signals, hstop⟩
  | answered h => exact .inl (h.prompt trivial id hdesc)
  | _ => cases hfs

/-- **Interchange**: when a script has been played on both contexts, starting without sockets, and
nothing is left to be run on either, the receivers have been sent the same signals if and only if
the script starts no accept. -/
theorem sameSignals_iff {es : List ScriptEvent} {ls ls' : List Label} {w : World LibeventContext}
    {w' : World PollContext} (hplays : Plays es ls) (hplays' : Plays es ls')
    (hrun : World.run LibeventContext.initial ls = some w)
    (hrun' : World.run (PollContext.idle {}) ls' = some w')
    (hsettled : Settled w) (hsettled' : Settled w') :
    SameSignals w w' ↔ ∀ id token, ScriptEvent.accept id token ∉ es := by
  have hreach : LibeventContext.Reachable w := ⟨ls, hrun⟩
  have hinv' : PollContext.RunInv True w' :=
    (PollContext.runInv_idle fun _ r hr => absurd hr List.not_mem_nil).run hrun'
  have hops : w.ops.map (fun op => (op.desc, op.token)) = es.flatMap fun e => e.label.started := by
    rw [run_started hrun, flatMap_started hplays]
    rfl
  have hops' :
      w'.ops.map (fun op => (op.desc, op.token)) = es.flatMap fun e => e.label.started := by
    rw [run_started hrun', flatMap_started hplays']
    rfl
  have hstopped : ∀ s, w.stopped s = true ↔ w'.stopped s = true := by
    intro s
    rw [run_stopped hrun, run_stopped hrun', exists_requestStop hplays, exists_requestStop hplays']
    rfl
  constructor
  · intro hsame id token hmem
    have hstarted : (Desc.accept id, token) ∈ es.flatMap fun e => e.label.started :=
      List.mem_flatMap.mpr ⟨_, hmem, List.mem_singleton_self _⟩
    -- the operation that this event started, in both runs
    obtain ⟨o, hget⟩ := List.mem_iff_getElem?.mp hstarted
    have hget' := hget
    rw [← hops, List.getElem?_map, Option.map_eq_some_iff] at hget
    rw [← hops', List.getElem?_map, Option.map_eq_some_iff] at hget'
    obtain ⟨op, hop, heq⟩ := hget
    obtain ⟨op', hop', heq'⟩ := hget'
    obtain ⟨-, rfl⟩ := Prod.mk.inj heq
    obtain ⟨hdesc', htoken'⟩ := Prod.mk.inj heq'
    have hsignals : signals op.history = signals op'.history := by simpa [hop, hop'] using hsame o
    obtain ⟨hsocket, hstop⟩ := LibeventContext.signals_accept hreach hsettled hop
    rcases PollContext.signals_accept hinv' hsettled' hop' hdesc' with hvalue | ⟨hnil, hstop'⟩
    · exact hsocket (hsignals.trans hvalue)
    · refine hstop ?_ (hsignals.trans hnil)
      rw [hstopped, ← htoken']
      exact hstop'
  -- without an accept neither run has an operation
  · intro hnone
    have hnil : (es.flatMap fun e => e.label.started) = [] := by
      rw [List.flatMap_eq_nil_iff]
      intro e he
      cases e with
      | accept id token => exact absurd he (hnone id token)
      | makeSocket | requestStop | ready => rfl
    rw [hnil, List.map_eq_nil_iff] at hops hops'
    intro o
    rw [hops, hops']

/-- A socket, an accept on it, and a readiness indication with which `accept()` returns 9. -/
def acceptScript : List ScriptEvent :=
  [.makeSocket 7, .accept 0 0, .ready 0 [.ok 9]]

/-- The script on the libevent context: the accept is pending until the readiness indication. -/
def acceptOnLibevent : List Label :=
  [.makeSocket 7, .start (.accept 0) 0, .perform {}, .perform {}, .perform {}, .perform {},
    .ready 0 { results := [.ok 9] }, .perform {}, .perform {}, .userReturn]

/-- The script on the poll context: `_Start` completes the accept before the readiness
indication. -/
def acceptOnPoll : List Label :=
  [.makeSocket 7, .start (.accept 0) 0, .perform {}, .perform {}, .perform {}, .perform {},
    .perform {}, .perform {}, .userReturn, .ready 0 { results := [.ok 9] }, .perform {},
    .perform {}]

theorem plays_acceptOnLibevent : Plays acceptScript acceptOnLibevent := rfl

theorem plays_acceptOnPoll : Plays acceptScript acceptOnPoll := rfl

/-- The script plays on both, and the receiver is sent different signals. -/
theorem sameSignals_iff_accept : ∃ w w',
    World.run LibeventContext.initial acceptOnLibevent = some w ∧
      World.run (PollContext.idle {}) acceptOnPoll = some w' ∧
      (SameSignals w w' ↔ ∀ id token, ScriptEvent.accept id token ∉ acceptScript) := by
  have hrun : World.run LibeventContext.initial acceptOnLibevent = some _ := rfl
  have hrun' : World.run (PollContext.idle {}) acceptOnPoll = some _ := rfl
  exact ⟨_, _, hrun, hrun', sameSignals_iff plays_acceptOnLibevent plays_acceptOnPoll hrun hrun'
    ⟨rfl, rfl⟩ ⟨rfl, rfl⟩⟩

/-- The libevent context sends the socket with handle 9, the poll context no socket. -/
theorem not_sameSignals :
    ¬ ∀ (es : List ScriptEvent) (ls ls' : List Label) (w : World LibeventContext)
      (w' : World PollContext), Plays es ls → Plays es ls' →
      World.run LibeventContext.initial ls = some w → World.run (PollContext.idle {}) ls' = some w' →
      Settled w → Settled w' → SameSignals w w' := by
  intro h
  have hrun : World.run LibeventContext.initial acceptOnLibevent = some _ := rfl
  have hrun' : World.run (PollContext.idle {}) acceptOnPoll = some _ := rfl
  have hsame := h acceptScript _ _ _ _ plays_acceptOnLibevent plays_acceptOnPoll hrun hrun'
    ⟨rfl, rfl⟩ ⟨rfl, rfl⟩ 0
  exact absurd hsame (by decide)

end Stdnet
