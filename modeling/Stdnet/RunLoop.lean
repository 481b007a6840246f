import Mathlib.Algebra.Order.BigOperators.Group.List
import Stdnet.ConnectOutcome

/-!
# The Run Loop

`io_context::run` and the `run_one` of the libevent context. One pass is a call of
`event_base_loop` with EVLOOP_ONCE: it returns 1 if no event is armed; else it waits until there are
active events, calls all of them back and returns 0, or returns -1 if it cannot wait. Which events
become active is up to the operating system.

## Main results

- `Attended.step`: the event base calls an operation back once at most.
- `run_passes`: how often `run` goes round and what it returns.
- `run_settles`: what became of the operations when `run` returns.
-/

namespace Stdnet

/-- How often `_Work` of the operation was run. -/
def CpoState.visits (op : CpoState) : ℕ := op.history.count .dispatched

namespace LibeventContext

open ListEntries History World

/-- A readiness callback: what the calls of `_Work` return, and the steps that are taken until the
callback returns to the event base. -/
structure Dispatch where
  op : OpId
  env : Env
  labels : List Label

/-- What a call of `event_base_loop` does: it cannot wait, or it calls back the active events. -/
inductive Pass where
  | failed
  | active (ds : List Dispatch)

/-- The event base is in charge: no function of the library, a receiver or the program is executing,
and no exception has ended the program. -/
def InEventLoop (w : LibeventWorld) : Prop := w.todo = [] ∧ w.crashed = false

instance (w : LibeventWorld) : Decidable (InEventLoop w) := inferInstanceAs (Decidable (_ ∧ _))

/-- The steps of a callback. -/
def untilReturn : LibeventWorld → List Label → Option LibeventWorld
  | w, [] => if InEventLoop w then some w else none
  | w, l :: ls => if w.todo = [] then none else (w.step l).bind (untilReturn · ls)

/-- The event base calls an operation back. -/
def dispatch (w : LibeventWorld) (d : Dispatch) : Option LibeventWorld :=
  (w.step (.ready d.op d.env)).bind (untilReturn · d.labels)

/-- Some event is armed. -/
def hasEvents (w : LibeventWorld) : Bool := w.ops.any CpoState.isArmed

/-- `event_base_loop(.., EVLOOP_ONCE)`. -/
def eventBaseLoop (w : LibeventWorld) : Pass → Option (LibeventWorld × ℤ)
  | .failed => if hasEvents w then some (w, -1) else none
  | .active [] => if hasEvents w then none else some (w, 1)
  | .active (d :: ds) => (StepMachine.run dispatch w (d :: ds)).map fun w' => (w', 0)

/-- `run_one`. -/
def runOne (w : LibeventWorld) (p : Pass) : Option (LibeventWorld × ℕ) :=
  (eventBaseLoop w p).map fun r => (r.1, if 0 = r.2 then 1 else 0)

/-- `io_context::run`, with its passes; `count` is `_Count`. -/
def IoContext.run (w : LibeventWorld) (count : ℕ) : List Pass → Option (LibeventWorld × ℕ)
  | [] => none
  | p :: ps =>
    (runOne w p).bind fun r =>
      if r.2 = 0 then if ps.isEmpty then some (r.1, count) else none
      else IoContext.run r.1 (count + r.2) ps

/-- The callbacks of a pass. -/
def Pass.callbacks : Pass → ℕ
  | .failed => 0
  | .active ds => ds.length

/-! ## How often an operation is called back -/

/-- An armed event was not called back, and no operation is called back twice. -/
structure Attended (op : CpoState) : Prop where
  unvisited : op.isArmed = true → op.visits = 0
  once : op.visits ≤ 1
  unsubmitted : Unsubmitted op.history → op.isArmed = false ∧ op.visits = 0

section Visits

variable {ctx : LibeventContext} {o : OpId} {op op' : CpoState} {m : AtomicStep} {stopped : Bool}
  {env : Env} {e : Effect LibeventContext} {w w' : LibeventWorld} {l : Label}

/-- Only the entry of a readiness callback counts. -/
theorem visits_of_history {added : List OpEvent} (h : op'.history = op.history ++ added)
    (hadded : .dispatched ∉ added) : op'.visits = op.visits := by
  rw [CpoState.visits, h, List.count_append, List.count_eq_zero.mpr hadded, CpoState.visits,
    Nat.add_zero]

theorem visits_log_ran (op : CpoState) (m : AtomicStep) : (op.log (.ran m)).visits = op.visits :=
  visits_of_history rfl (by simp)

theorem decrement_visits (op : CpoState) (m : AtomicStep) (s : Signal) :
    (decrement ctx (op.log (.ran m)) s).logSignal.op.visits = op.visits ∧
      ((decrement ctx (op.log (.ran m)) s).logSignal.op.isArmed = true → op.isArmed = true) := by
  by_cases hzero : op.outstanding - 1 = 0
  · simp [decrement, Effect.logSignal, CpoState.log, CpoState.visits, CpoState.isArmed, hzero]
  · simp [decrement, Effect.logSignal, CpoState.log, CpoState.visits, CpoState.isArmed, hzero]

/-- A step that is not a readiness callback runs no `_Work`, and no step but the submission arms an
event. -/
theorem perform_visits (he : m.perform stopped env ctx o op = some e) :
    e.op.visits = op.visits ∧ (m ≠ .submit → e.op.isArmed = true → op.isArmed = true) := by
  cases m with
  | submit =>
    obtain ⟨r, hspec, rfl⟩ := perform_submit_cases he
    refine ⟨?_, fun h => absurd rfl h⟩
    rw [← visits_log_ran op .submit]
    cases hspec with
    | refused hnone => exact visits_of_history rfl (by simp)
    | armed n ev hon hend harmed => exact visits_of_history rfl (by simp)
    | ended n w hon hend hdelivers => exact visits_of_history rfl (by simp)
  | emplace =>
    simp only [AtomicStep.perform, AtomicStep.exec] at he
    split at he
    all_goals
      obtain rfl := Option.some.inj he
      refine ⟨?_, fun _ => id⟩
      rw [← visits_log_ran op .emplace]
      exact visits_of_history rfl (by simp)
  | reset =>
    obtain rfl := Option.some.inj he
    cases hcb : op.callback <;>
      simp [Effect.logSignal, CpoState.reset, CpoState.log, CpoState.visits, CpoState.isArmed, hcb]
  | contextCancel =>
    obtain rfl := Option.some.inj he
    refine ⟨visits_log_ran op _, fun _ harmed => ?_⟩
    exact absurd (harmed.symm.trans (isArmed_disarm (op.log _))) (by simp)
  | complete | error | cancel | cancelComplete =>
    obtain rfl := Option.some.inj he
    exact ⟨(decrement_visits op _ _).1, fun _ => (decrement_visits op _ _).2⟩
  | _ =>
    obtain rfl := Option.some.inj he
    exact ⟨visits_log_ran op _, fun _ => id⟩

/-- A readiness callback runs `_Work` once and leaves no event armed. -/
theorem callback_visits (he : callback ctx op env = some e) :
    e.op.visits = op.visits + 1 ∧ e.op.isArmed = false := by
  simp only [callback, Option.map_eq_some_iff] at he
  obtain ⟨wk, hwk, rfl⟩ := he
  have hdisarmed := isArmed_disarm op
  have hlog : ((disarm op).log .dispatched).visits = op.visits + 1 := by
    rw [CpoState.visits, CpoState.log, List.count_append, List.count_singleton_self]
    rfl
  have hwork : ∀ added : List OpEvent, (∀ x ∈ added, IsWork x) → .dispatched ∉ added :=
    fun added hadded hmem => hadded _ hmem
  rw [← hlog]
  cases work_spec hwk with
  | stray hon hnone htable hop hfault =>
    rw [hop]
    exact ⟨visits_of_history rfl (by simp), hdisarmed⟩
  | settled r a n added hext hadded hcalls hop =>
    rw [hop]
    exact ⟨visits_of_history rfl (hwork added hadded), hdisarmed⟩
  | waiting added htable hadded hcalls hop =>
    rw [hop]
    exact ⟨visits_of_history rfl (hwork added hadded), hdisarmed⟩

theorem Attended.step (ha : Attended op) (h : RunInv w) (hop : w.ops[o]? = some op)
    (hstep : w.step l = some w') (hop' : w'.ops[o]? = some op') : Attended op' := by
  obtain ⟨hc, -⟩ := step_cases hstep
  obtain ⟨x, hx, -, -, hpre⟩ := step_grows hstep hop
  cases hx.symm.trans hop'
  have hunsubmitted : Unsubmitted op'.history → Unsubmitted op.history :=
    fun hu env n hmem => hu env n (hpre.subset hmem)
  cases step_op hstep hop hop' with
  | same => exact ha
  | callback => exact ⟨ha.unvisited, ha.once, ha.unsubmitted⟩
  | @perform env m rest e htodo he =>
    obtain ⟨hvisits, harmed⟩ := perform_visits he
    by_cases hm : m = .submit
    · -- an operation is submitted once, and was not called back before
      subst hm
      have hphase := h.phase_of hc hop
      rw [htodo, frames_op_self] at hphase
      obtain ⟨-, hzero⟩ := ha.unsubmitted hphase.early_of_submit.unsubmitted
      rw [hzero] at hvisits
      refine ⟨fun _ => hvisits, hvisits ▸ Nat.zero_le _, fun hu => ⟨?_, hvisits⟩⟩
      obtain ⟨r, hspec, rfl⟩ := perform_submit_cases he
      cases hspec with
      | refused hnone => exact (ha.unsubmitted hphase.early_of_submit.unsubmitted).1
      | armed n ev hon hend hev =>
        exact absurd (by simp [Effect.logSignal, CpoState.log]) (hu env n)
      | ended n w hon hend hdelivers =>
        exact absurd (by simp [Effect.logSignal, CpoState.log]) (hu env n)
    · refine ⟨fun hev => hvisits.trans (ha.unvisited (harmed hm hev)), hvisits ▸ ha.once,
        fun hu => ?_⟩
      obtain ⟨hdisarmed, hzero⟩ := ha.unsubmitted (hunsubmitted hu)
      refine ⟨?_, hvisits.trans hzero⟩
      by_contra hev
      rw [harmed hm (by simpa using hev)] at hdisarmed
      cases hdisarmed
  | @ready env e htodo hreg he =>
    obtain ⟨hvisits, hdisarmed⟩ := callback_visits he
    have hzero := ha.unvisited hreg
    refine ⟨fun harmed => ?_, by omega, fun hu => ?_⟩
    · rw [hdisarmed] at harmed
      cases harmed
    · exact absurd (hreg.symm.trans (ha.unsubmitted (hunsubmitted hu)).1) (by simp)

theorem Reachable.attended (h : Reachable w) (hop : w.ops[o]? = some op) : Attended op :=
  h.op_invariant (P := fun _ _ op => Attended op)
    (fun _ _ _ => ⟨fun _ => rfl, Nat.zero_le _, fun _ => ⟨rfl, rfl⟩⟩)
    (fun ha hinv hop hstep hop' => ha.step hinv hop hstep hop') hop

/-- The sum after an entry was replaced. -/
theorem sum_map_set {α : Type*} {f : α → ℕ} {xs : List α} {i : ℕ} {x y : α}
    (h : xs[i]? = some x) :
    ((xs.set i y).map f).sum + f x = (xs.map f).sum + f y := by
  induction xs generalizing i with
  | nil => cases h
  | cons a xs ih =>
    cases i with
    | zero =>
      obtain rfl := Option.some.inj h
      simp only [List.set_cons_zero, List.map_cons, List.sum_cons]
      omega
    | succ i =>
      have hrest := ih (List.getElem?_cons_succ.symm.trans h)
      simp only [List.set_cons_succ, List.map_cons, List.sum_cons]
      omega

/-- How often operations were called back. -/
def visits (w : LibeventWorld) : ℕ := (w.ops.map CpoState.visits).sum

theorem visits_apply {rest : List Frame} {n : ℕ} (hop : w.ops[o]? = some op)
    (h : e.op.visits = op.visits + n) : visits (w.apply o rest e) = visits w + n := by
  have hsum := sum_map_set (f := CpoState.visits) (y := e.op) hop
  rw [visits, visits, apply_ops]
  omega

/-- The readiness callbacks of a step. -/
def Label.visits : Label → ℕ
  | .ready _ _ => 1
  | _ => 0

/-- Only the event base calls back. -/
theorem step_visits (hstep : w.step l = some w') : visits w' = visits w + Label.visits l := by
  obtain ⟨-, hcases⟩ := step_cases hstep
  cases hcases with
  | start hmay => simp [World.start, visits, CpoState.visits, Label.visits]
  | requestStop hmay =>
    unfold World.requestStop
    split <;> rfl
  | @callback o op rest htodo hop hcb =>
    have hsum := sum_map_set (f := CpoState.visits) (y := { op with callback := .executing }) hop
    exact Nat.add_right_cancel hsum
  | perform htodo hop he => exact visits_apply hop (perform_visits he).1
  | ready htodo hop hreg he => exact visits_apply hop (callback_visits he).1
  | _ => rfl

end Visits

/-! ## Passes -/

section Passes

variable {w w' : LibeventWorld} {ls : List Label} {d : Dispatch} {ds : List Dispatch} {p : Pass}
  {ps : List Pass} {count n : ℕ}

/-- Nothing is called back before a callback returns. -/
theorem untilReturn_spec (h : untilReturn w ls = some w') :
    World.run w ls = some w' ∧ InEventLoop w' ∧ visits w' = visits w := by
  induction ls generalizing w with
  | nil =>
    simp only [untilReturn, Option.ite_none_right_eq_some, Option.some.injEq] at h
    obtain ⟨hloop, rfl⟩ := h
    exact ⟨rfl, hloop, rfl⟩
  | cons l ls ih =>
    simp only [untilReturn, Option.ite_none_left_eq_some, Option.bind_eq_some_iff] at h
    obtain ⟨htodo, t, hstep, hrest⟩ := h
    obtain ⟨hrun, hloop, hvisits⟩ := ih hrest
    refine ⟨(StepMachine.run_cons_eq_some _).mpr ⟨t, hstep, hrun⟩, hloop, ?_⟩
    rw [hvisits, step_visits hstep]
    -- a readiness callback needs an empty call stack
    obtain ⟨-, hcases⟩ := step_cases hstep
    cases hcases with
    | ready hnil => exact absurd hnil htodo
    | _ => rfl

theorem dispatch_spec (h : dispatch w d = some w') :
    (∃ ls, World.run w ls = some w') ∧ InEventLoop w' ∧ visits w' = visits w + 1 := by
  obtain ⟨t, hstep, hrest⟩ := Option.bind_eq_some_iff.mp h
  obtain ⟨hrun, hloop, hvisits⟩ := untilReturn_spec hrest
  refine ⟨⟨_, (StepMachine.run_cons_eq_some _).mpr ⟨t, hstep, hrun⟩⟩, hloop, ?_⟩
  rw [hvisits, step_visits hstep]
  rfl

/-- What the callbacks of a pass do, one after the other. -/
theorem callbacks_spec (h : StepMachine.run dispatch w ds = some w') (hloop : InEventLoop w) :
    (∃ ls, World.run w ls = some w') ∧ InEventLoop w' ∧ visits w' = visits w + ds.length := by
  induction ds generalizing w with
  | nil =>
    obtain rfl := Option.some.inj h
    exact ⟨⟨[], rfl⟩, hloop, rfl⟩
  | cons d ds ih =>
    obtain ⟨t, hd, hrest⟩ := (StepMachine.run_cons_eq_some _).mp h
    obtain ⟨⟨ls, hrun⟩, ht, hvisits⟩ := dispatch_spec hd
    obtain ⟨⟨ls', hrun'⟩, hloop', hvisits'⟩ := ih hrest ht
    refine ⟨⟨ls ++ ls', (StepMachine.run_append_eq_some _).mpr ⟨t, hrun, hrun'⟩⟩, hloop', ?_⟩
    rw [hvisits', hvisits, List.length_cons]
    omega

/-- A pass calls something back, or it finds nothing armed, or it fails. -/
inductive PassCases (w : LibeventWorld) : Pass → LibeventWorld → ℕ → Prop where
  | failed (harmed : hasEvents w = true) : PassCases w .failed w 0
  | nothing (hnone : hasEvents w = false) : PassCases w (.active []) w 0
  | called {ds : List Dispatch} {w' : LibeventWorld} (hne : ds ≠ [])
      (hrun : StepMachine.run dispatch w ds = some w') : PassCases w (.active ds) w' 1

theorem runOne_cases (h : runOne w p = some (w', n)) : PassCases w p w' n := by
  obtain ⟨⟨t, rc⟩, hloop, heq⟩ := Option.map_eq_some_iff.mp h
  obtain ⟨rfl, rfl⟩ := Prod.mk.inj heq
  cases p with
  | failed =>
    simp only [eventBaseLoop, Option.ite_none_right_eq_some, Option.some.injEq, Prod.mk.injEq]
      at hloop
    obtain ⟨harmed, rfl, rfl⟩ := hloop
    exact .failed harmed
  | active ds =>
    cases ds with
    | nil =>
      simp only [eventBaseLoop, Option.ite_none_left_eq_some, Option.some.injEq, Prod.mk.injEq]
        at hloop
      obtain ⟨hnone, rfl, rfl⟩ := hloop
      exact .nothing (by simpa using hnone)
    | cons d ds =>
      obtain ⟨t', hrun, heq'⟩ := Option.map_eq_some_iff.mp hloop
      obtain ⟨rfl, rfl⟩ := Prod.mk.inj heq'
      exact .called (List.cons_ne_nil _ _) hrun

/-- What every pass of a run keeps. -/
theorem runOne_spec (h : runOne w p = some (w', n)) (hloop : InEventLoop w) :
    (∃ ls, World.run w ls = some w') ∧ InEventLoop w' ∧ visits w' = visits w + p.callbacks := by
  cases runOne_cases h with
  | failed harmed => exact ⟨⟨[], rfl⟩, hloop, rfl⟩
  | nothing hnone => exact ⟨⟨[], rfl⟩, hloop, rfl⟩
  | called hne hrun => exact callbacks_spec hrun hloop

/-- The passes of a run: all but the last one call something back, and that one does not. -/
theorem run_spec (h : IoContext.run w count ps = some (w', n)) (hloop : InEventLoop w) :
    (∃ ls, World.run w ls = some w') ∧ InEventLoop w' ∧
      visits w' = visits w + (ps.map Pass.callbacks).sum ∧
      n + 1 = count + ps.length ∧
      (∀ p ∈ ps.dropLast, p.callbacks ≠ 0) ∧
      ((ps.getLast? = some .failed ∧ hasEvents w' = true) ∨
        (ps.getLast? = some (.active []) ∧ hasEvents w' = false)) := by
  induction ps generalizing w count with
  | nil => cases h
  | cons p ps ih =>
    obtain ⟨⟨t, c⟩, hone, hrest⟩ := Option.bind_eq_some_iff.mp h
    obtain ⟨⟨ls, hrun⟩, ht, hvisits⟩ := runOne_spec hone hloop
    cases runOne_cases hone with
    | failed harmed =>
      simp only [if_true, Option.ite_none_right_eq_some, List.isEmpty_iff, Option.some.injEq,
        Prod.mk.injEq] at hrest
      obtain ⟨rfl, rfl, rfl⟩ := hrest
      exact ⟨⟨ls, hrun⟩, ht, hvisits, rfl, by simp, .inl ⟨rfl, harmed⟩⟩
    | nothing hnone =>
      simp only [if_true, Option.ite_none_right_eq_some, List.isEmpty_iff, Option.some.injEq,
        Prod.mk.injEq] at hrest
      obtain ⟨rfl, rfl, rfl⟩ := hrest
      exact ⟨⟨ls, hrun⟩, ht, hvisits, rfl, by simp, .inr ⟨rfl, hnone⟩⟩
    | @called ds _ hne hcalled =>
      obtain ⟨⟨ls', hrun'⟩, hloop', hvisits', hcount, hcalls, hlast⟩ := ih hrest ht
      have hps : ps ≠ [] := by
        rintro rfl
        cases hrest
      refine ⟨⟨ls ++ ls', (StepMachine.run_append_eq_some _).mpr ⟨t, hrun, hrun'⟩⟩, hloop', ?_, ?_,
        ?_, ?_⟩
      · rw [hvisits', hvisits, List.map_cons, List.sum_cons, Nat.add_assoc]
      · rw [hcount, List.length_cons]
        omega
      · rw [List.dropLast_cons_of_ne_nil hps]
        refine List.forall_mem_cons.mpr ⟨?_, hcalls⟩
        simpa [Pass.callbacks] using hne
      · obtain ⟨x, xs, rfl⟩ := List.exists_cons_of_ne_nil hps
        rw [List.getLast?_cons_cons]
        exact hlast

/-! ## What `run` returns -/

theorem sum_eq_length_iff {xs : List ℕ} (h : ∀ x ∈ xs, 1 ≤ x) :
    xs.sum = xs.length ↔ ∀ x ∈ xs, x ≤ 1 := by
  induction xs with
  | nil => simp
  | cons x xs ih =>
    obtain ⟨hx, hxs⟩ := List.forall_mem_cons.mp h
    have hle := List.length_le_sum_of_one_le xs hxs
    rw [List.sum_cons, List.length_cons, List.forall_mem_cons, ← ih hxs]
    omega

/-- `run` returns the number of its passes that called something back, which are all but the last
one. No operation is called back twice, so that it returns after as many passes as operations were
started, at the latest; it returns the number of the callbacks exactly if none of its passes made
several. -/
theorem run_passes (h : Reachable w) (hloop : InEventLoop w)
    (hrun : IoContext.run w 0 ps = some (w', n)) :
    visits w' = visits w + (ps.map Pass.callbacks).sum ∧
      (∀ op ∈ w'.ops, op.visits ≤ 1) ∧ visits w' ≤ w'.ops.length ∧
      n + 1 = ps.length ∧ (∀ p ∈ ps.dropLast, p.callbacks ≠ 0) ∧
      (∃ p, ps.getLast? = some p ∧ p.callbacks = 0) ∧ n ≤ (ps.map Pass.callbacks).sum ∧
      (n = (ps.map Pass.callbacks).sum ↔ ∀ p ∈ ps, p.callbacks ≤ 1) := by
  obtain ⟨⟨ls, hsteps⟩, -, hvisits, hcount, hcalls, hlast⟩ := run_spec hrun hloop
  have honce : ∀ op ∈ w'.ops, op.visits ≤ 1 := by
    intro op hop
    obtain ⟨o, ho⟩ := List.mem_iff_getElem?.mp hop
    exact ((h.run hsteps).attended ho).once
  have htotal : visits w' ≤ w'.ops.length := by
    have hsum := List.sum_le_card_nsmul (w'.ops.map CpoState.visits) 1 (by simpa using honce)
    simpa [visits] using hsum
  -- all callbacks are those of the passes before the last one
  obtain ⟨p, hp, hzero⟩ : ∃ p, ps.getLast? = some p ∧ p.callbacks = 0 := by
    rcases hlast with ⟨hp, -⟩ | ⟨hp, -⟩
    · exact ⟨_, hp, rfl⟩
    · exact ⟨_, hp, rfl⟩
  obtain ⟨qs, rfl⟩ := List.getLast?_eq_some_iff.mp hp
  rw [List.dropLast_concat] at hcalls
  have hpos : ∀ x ∈ qs.map Pass.callbacks, 1 ≤ x := by
    intro x hx
    obtain ⟨q, hq, rfl⟩ := List.mem_map.mp hx
    exact Nat.one_le_iff_ne_zero.mpr (hcalls q hq)
  have hle := List.length_le_sum_of_one_le _ hpos
  have hiff := sum_eq_length_iff hpos
  simp only [List.map_append, List.map_singleton, List.sum_append, List.sum_singleton, hzero,
    Nat.add_zero, List.length_append, List.length_singleton, List.length_map, List.forall_mem_map,
    List.mem_append, List.mem_singleton, or_imp, forall_and, forall_eq, Nat.zero_le, and_true,
    Nat.zero_add] at hvisits hcount hle hiff ⊢
  rw [List.dropLast_concat]
  refine ⟨hvisits, honce, htotal, hcount, hcalls, ⟨p, List.getLast?_concat, hzero⟩, by omega, ?_⟩
  rw [← hiff]
  omega

/-- Two receives on one socket that are pending in the event base. -/
def twoReceives : List Label :=
  [.makeSocket 7, .start (.receive 0) 0, .perform {}, .perform {}, .perform {}, .perform {},
    .start (.receive 0) 1, .perform {}, .perform {}, .perform {}, .perform {}]

/-- One pass calls both back; the first one is told that there is nothing to receive. -/
def bothReady : List Pass :=
  [.active [⟨0, { results := [.fail EWOULDBLOCK] }, []⟩,
    ⟨1, { results := [.ok 3] }, [.perform {}, .perform {}, .userReturn]⟩], .active []]

theorem run_twoReceives : ∃ w w' op, World.run initial twoReceives = some w ∧ InEventLoop w ∧
    IoContext.run w 0 bothReady = some (w', 1) ∧ w'.ops[0]? = some op ∧
      signals op.history = [] ∧ calls op.history = [.fail EWOULDBLOCK] :=
  ⟨_, _, _, rfl, ⟨rfl, rfl⟩, rfl, rfl, rfl, rfl⟩

theorem run_passes_twoReceives : ∃ w w', World.run initial twoReceives = some w ∧
    IoContext.run w 0 bothReady = some (w', 1) ∧ (∀ op ∈ w'.ops, op.visits ≤ 1) ∧
      visits w' ≤ w'.ops.length := by
  obtain ⟨w, w', -, hrun, hloop, hpasses, -⟩ := run_twoReceives
  obtain ⟨-, honce, htotal, -⟩ := run_passes ⟨twoReceives, hrun⟩ hloop hpasses
  exact ⟨w, w', hrun, hpasses, honce, htotal⟩

/-! ## What became of the operations -/

/-- A call of `_Work` reported EWOULDBLOCK; nothing has settled the operation or stopped it. -/
structure LeftBehind (w : LibeventWorld) (op : CpoState) : Prop where
  blocked : .fail EWOULDBLOCK ∈ calls op.history
  unsettled : findings op.desc op.history = []
  unstopped : w.stopped op.token = false

/-- Where no function is executing, an operation has been signalled, or it waits in the event base or
was left behind, and its stop was not requested. -/
theorem settled_cases (h : Reachable w) (hloop : InEventLoop w) {o : OpId} {op : CpoState}
    (hop : w.ops[o]? = some op) :
    (signals op.history = [] ∧ w.stopped op.token = false ∧
        (op.isArmed = true ∨ LeftBehind w op)) ∨
      (¬ LeftBehind w op ∧ ∃ s, signals op.history = [s]) := by
  have hinv := h.inv
  have hphase := hinv.phase_of hloop.2 hop
  rw [hloop.1, World.frames_nil] at hphase
  cases hphase with
  | pending hpending =>
    have hstop : w.stopped op.token = false := by
      -- a requested stop would still be calling the stop callback
      by_contra hstopped
      have hmem := hinv.waiting o op hop hpending.callback (by simpa using hstopped)
      rw [hloop.1] at hmem
      cases hmem
    refine .inl ⟨hpending.signals, hstop, ?_⟩
    by_cases harmed : op.isArmed = true
    · exact .inl harmed
    · refine .inr ⟨?_, hpending.findings, hstop⟩
      by_contra hblocked
      exact harmed (hpending.armed.mpr hblocked)
  | done hdone hleft =>
    refine .inr ⟨fun hbehind => ?_, _, hdone.signals⟩
    rcases hdone.cause with ⟨-, -, hstopped⟩ | ⟨r, hfound, -⟩
    · rw [hbehind.unstopped] at hstopped
      cases hstopped
    · rw [hbehind.unsettled] at hfound
      cases hfound

/-- When `run` returns and the event base did not fail, every operation has been signalled exactly
once, but those that were left behind when `_Work` returned false: these have not. -/
theorem run_settles (h : Reachable w) (hloop : InEventLoop w)
    (hrun : IoContext.run w 0 ps = some (w', n)) (hend : ps.getLast? ≠ some .failed) {o : OpId}
    {op : CpoState} (hop : w'.ops[o]? = some op) :
    (LeftBehind w' op ∧ signals op.history = []) ∨
      (¬ LeftBehind w' op ∧ ∃ s, signals op.history = [s]) := by
  obtain ⟨⟨ls, hsteps⟩, hloop', -, -, -, hlast⟩ := run_spec hrun hloop
  obtain ⟨-, hnone⟩ := hlast.resolve_left fun hfailed => hend hfailed.1
  rcases settled_cases (h.run hsteps) hloop' hop with ⟨hnil, -, harmed | hbehind⟩ | hsettled
  · exact absurd (List.any_eq_true.mpr ⟨op, List.mem_of_getElem? hop, harmed⟩)
      (by rw [← hasEvents, hnone]; simp)
  · exact .inl ⟨hbehind, hnil⟩
  · exact .inr hsettled

theorem run_settles_twoReceives : ∃ w w' op, World.run initial twoReceives = some w ∧
    IoContext.run w 0 bothReady = some (w', 1) ∧ w'.ops[0]? = some op ∧ LeftBehind w' op := by
  obtain ⟨w, w', op, hrun, hloop, hpasses, hop, hnil, -⟩ := run_twoReceives
  have hsettled := run_settles ⟨twoReceives, hrun⟩ hloop hpasses (by simp [bothReady]) hop
  rw [hnil] at hsettled
  obtain ⟨hbehind, -⟩ | ⟨-, s, hs⟩ := hsettled
  · exact ⟨w, w', op, hrun, hpasses, hop, hbehind⟩
  · cases hs

/-- An operation that was left behind is never called back again: it stays as it is, whatever the
program does, until its stop is requested. -/
theorem left_behind_until_stop (h : Reachable w) (hloop : InEventLoop w) {o : OpId} {op : CpoState}
    (hop : w.ops[o]? = some op) (hbehind : LeftBehind w op) (hrun : World.run w ls = some w')
    (hstop : w'.stopped op.token = false) : w'.ops[o]? = some op := by
  have hnil : frames o w.todo = [] := by rw [hloop.1, World.frames_nil]
  have hdisarmed : op.isArmed = false := by
    have hphase := h.inv.phase_of hloop.2 hop
    rw [hnil] at hphase
    cases hphase with
    | pending hpending =>
      by_contra harmed
      exact hpending.armed.mp (by simpa using harmed) hbehind.blocked
    | done hdone hleft => exact hdone.disarmed
  have hinv := h.inv
  clear h hloop hbehind
  induction ls generalizing w with
  | nil =>
    obtain rfl := Option.some.inj hrun
    exact hop
  | cons l ls ih =>
    obtain ⟨w₁, hstep, hrest⟩ := (StepMachine.run_cons_eq_some World.step).mp hrun
    obtain ⟨op', hop', hcases⟩ := step_op_cases hstep hop
    cases hcases with
    | same hl hframes => exact ih hop' hrest (hframes.trans hnil) (hinv.step hstep)
    | callback htodo =>
      -- its stop was requested before
      have hstopped := hinv.loops op.token (by rw [htodo]; exact List.mem_cons_self)
      rw [not_stopped_of_run hrun hstop] at hstopped
      cases hstopped
    | perform htodo he =>
      rw [htodo, frames_op_self] at hnil
      cases hnil
    | ready htodo hreg he => exact absurd (hreg.symm.trans hdisarmed) (by simp)

/-- The stop of another source does not help a receive that was left behind. -/
theorem left_behind_until_stop_twoReceives : ∃ w w' op, World.run initial
      (twoReceives ++ [.ready 0 { results := [.fail EWOULDBLOCK] }]) = some w ∧
    World.run w [.requestStop 1] = some w' ∧ w.ops[0]? = some op ∧ w'.ops[0]? = some op :=
  ⟨_, _, _, rfl, rfl, rfl, left_behind_until_stop (o := 0)
    ⟨twoReceives ++ [.ready 0 { results := [.fail EWOULDBLOCK] }], rfl⟩ ⟨rfl, rfl⟩ rfl
    ⟨List.mem_singleton_self _, rfl, rfl⟩ (show World.run _ [.requestStop 1] = some _ from rfl) rfl⟩

end Passes

end LibeventContext

end Stdnet
