import Stdnet.Library.SwapRemove
import Stdnet.Work

/-!
# The poll Context

Model of `_Poll_context`: the two parallel vectors `_D_poll` and `_D_outstanding`,
`_Add_Outstanding`, the scan and the removal in `run_one`, and the operations, of which only
`_Accept` is implemented.
-/

namespace Stdnet

open SwapRemove

/-- `::pollfd`. -/
structure Pollfd where
  fd : Handle
  events : BitVec 16
  revents : BitVec 16 := 0
  deriving DecidableEq, Repr

/-- `POLLERR`. -/
def POLLERR : BitVec 16 := 8

/-- `_Poll_context`; an `_Io_base*` is the name of its operation. -/
structure PollContext where
  sockets : Table := {}
  poll : List Pollfd := []
  outstanding : List OpId := []
  deriving DecidableEq, Repr

namespace PollContext

/-- `revents & (events | POLLERR)`. -/
def reported (p : Pollfd) : Bool := p.revents &&& (p.events ||| POLLERR) != 0

/-- The two vectors have equal length. -/
def Parallel (ctx : PollContext) : Prop := ctx.poll.length = ctx.outstanding.length

/-- The entry of `_D_poll` with the index that the operation has in `_D_outstanding`. -/
def entry (ctx : PollContext) (o : OpId) : Option Pollfd :=
  if o ∈ ctx.outstanding then ctx.poll[ctx.outstanding.idxOf o]? else none

/-- The two `emplace_back` of `_Add_Outstanding`. -/
def register (ctx : PollContext) (o : OpId) (fd : Handle) (events : BitVec 16) : PollContext :=
  { ctx with
    poll := ctx.poll ++ [{ fd := fd, events := events }]
    outstanding := ctx.outstanding ++ [o] }

/-- The removal in `run_one`, from both vectors. -/
def remove (ctx : PollContext) (i : ℕ) : PollContext :=
  { ctx with poll := swapRemove ctx.poll i, outstanding := swapRemove ctx.outstanding i }

/-- `_Accept`, with `_Add_Outstanding`: on a socket in non-blocking mode `_Work` is tried first, and
when it returns true so does `_Accept`; else the operation is registered and the result is false. -/
def accept (ctx : PollContext) (o : OpId) (op : CpoState) (env : Env) :
    Option (Effect PollContext × Bool) :=
  match ctx.sockets.container.get op.desc.id with
  | .error _ => some ({ ctx := ctx, op := op.log .refused, fault := true }, false)
  | .ok r =>
    -- the record is looked up for its mode and once more for its handle
    let op := op.log (.submitted env (some r.number))
    if r.blocking then
      some ({ ctx := ctx.register o r.handle op.desc.events, op := op }, false)
    else
      (acceptWork ctx.sockets op env).map fun w =>
        -- `_Work` has completed the operation, which is not registered then
        if w.result then
          ({ ctx := { ctx with sockets := w.table }, op := w.op, next := w.next, fault := w.fault },
            true)
        else
          ({ ctx := ctx.register o r.handle op.desc.events, op := w.op, next := w.next }, false)

/-- `_D_data._Submit(this)` on this context: the functions other than `_Accept` return `{}`. -/
def submit (ctx : PollContext) (o : OpId) (op : CpoState) (env : Env) :
    Option (Effect PollContext × Bool) :=
  match op.desc with
  | .accept _ => accept ctx o op env
  | .connect _ | .receive _ | .send _ | .resumeAfter _ | .resumeAt _ =>
    -- the value-initialised result is false, which `_Start` takes for the end
    some ({ ctx := ctx, op := op.log (.submitted env none) }, false)

/-- `run_one` for the operation whose entry it selected: the entry is removed, `_Work` is run and
its result ignored. -/
def dispatch (ctx : PollContext) (o : OpId) (op : CpoState) (env : Env) :
    Option (Effect PollContext) :=
  -- the entry is gone before `_Work` runs, whatever it returns
  let ctx' := ctx.remove (ctx.outstanding.idxOf o)
  ((op.log .dispatched).work ctx.sockets env).map fun w =>
    { ctx := { ctx' with sockets := w.table }, op := w.op, next := w.next, fault := w.fault }

instance : ContextBase PollContext where
  sockets := sockets
  withSockets ctx t := { ctx with sockets := t }
  submit := submit
  -- `_Cancel` is empty
  cancel ctx op := { ctx := ctx, op := op }
  -- `::poll` reports an operation through its entry of `_D_poll`
  isRegistered ctx o _ := (ctx.entry o).isSome
  ready := dispatch

variable {ctx : PollContext} {o : OpId} {op : CpoState}

theorem mem_of_isRegistered (h : ContextBase.isRegistered ctx o op = true) :
    o ∈ ctx.outstanding := by
  by_contra hnot
  simp [ContextBase.isRegistered, entry, hnot] at h

theorem Parallel.idxOf_lt (h : ctx.Parallel) (ho : o ∈ ctx.outstanding) :
    ctx.outstanding.idxOf o < ctx.poll.length := by
  rw [h]
  exact List.idxOf_lt_length_of_mem ho

theorem Parallel.entry_of_mem (h : ctx.Parallel) (ho : o ∈ ctx.outstanding) :
    ∃ p, ctx.entry o = some p ∧ ctx.poll[ctx.outstanding.idxOf o]? = some p := by
  have hlt := h.idxOf_lt ho
  exact ⟨_, by rw [entry, if_pos ho, List.getElem?_eq_getElem hlt], List.getElem?_eq_getElem hlt⟩

/-- While the vectors are parallel every operation in `_D_outstanding` can be reported. -/
theorem Parallel.isRegistered_iff (h : ctx.Parallel) :
    ContextBase.isRegistered ctx o op = true ↔ o ∈ ctx.outstanding := by
  refine ⟨mem_of_isRegistered, fun ho => ?_⟩
  obtain ⟨p, hp, -⟩ := h.entry_of_mem ho
  simp [ContextBase.isRegistered, hp]

end PollContext

end Stdnet
