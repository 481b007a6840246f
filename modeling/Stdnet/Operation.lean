import Stdnet.SocketTable

/-!
# Operation States

`_Cpo_State` of `cpo.hpp` and the interface `_Context_base` that it runs against.

The member functions of `_Cpo_State` and of its `_Cancel_callback` are cut into the atomic steps at
which another thread, a stop callback or the code of a receiver can come in between: a call is the
list of the steps it makes, and `AtomicStep.perform` runs one of them. A step may put further steps
in front of what its caller still has to do.

Each operation records its history: the steps run on it, what the system calls made for it returned
and the signals its receiver was sent. No step reads the history.
-/

namespace Stdnet

/-- An operation is named by the number of operations started before it. -/
abbrev OpId := ℕ

/-- A stop source: the tokens of the receivers that share it name it. -/
abbrev Source := ℕ

/-! ## Descriptions and signals -/

/-- What an operation is built from: the `_Data` of `_Accept_desc`, `_Connect_desc`,
`_Receive_desc`, `_Send_desc`, `_Resume_after_desc` (a count of microseconds) and `_Resume_at_desc`
(a point of `system_clock`, in nanoseconds). -/
inductive Desc where
  | accept (id : SocketId)
  | connect (id : SocketId)
  | receive (id : SocketId)
  | send (id : SocketId)
  | resumeAfter (duration : ℤ)
  | resumeAt (time : ℤ)
  deriving DecidableEq, Repr

/-- `_Id()`; the timers return `{}`. -/
def Desc.id : Desc → SocketId
  | .accept id | .connect id | .receive id | .send id => id
  -- a value-initialised `_Socket_id` is 0, an id that a socket may have
  | .resumeAfter _ | .resumeAt _ => 0

/-- `POLLIN`. -/
def POLLIN : BitVec 16 := 1

/-- `_Events()`: `POLLIN` for all operations on sockets, nothing for the timers. -/
def Desc.events : Desc → BitVec 16
  | .accept _ | .connect _ | .receive _ | .send _ => POLLIN
  | .resumeAfter _ | .resumeAt _ => 0

/-- What `set_value` passes on: the `std::optional` id that `_Accept_desc::_Data::_Set_value`
dereferences, a count, or nothing. -/
inductive Value where
  | socket (id : Option SocketId)
  | count (n : ℕ)
  | unit
  deriving DecidableEq, Repr

/-- The three completion signals of a receiver. -/
inductive Signal where
  | value (v : Value)
  | error (e : ErrorCode)
  | stopped
  deriving DecidableEq, Repr

/-! ## Atomic steps -/

/-- The atomic steps of `_Cpo_State` and `_Cancel_callback`. -/
inductive AtomicStep where
  /-- `_Start`: `++_D_outstanding` -/
  | increment
  /-- `_Start`: `_D_callback.emplace(_Token, _Cancel_callback(this))` -/
  | emplace
  /-- `_Start`: `if (_Token.stop_requested())` -/
  | testStop
  /-- `_Start`: `if (!_D_data._Submit(this))` -/
  | submit
  /-- `_D_callback.reset()` -/
  | reset
  /-- `_Complete`: `if (0 == --_D_outstanding)` and `_Set_value` -/
  | complete
  /-- `_Error`: `if (0 == --_D_outstanding)` and `set_error` -/
  | error (e : ErrorCode)
  /-- `_Cancel`: `if (0 == --_D_outstanding)` and `set_stopped` -/
  | cancel
  /-- `_Cancel_callback::operator()`: `if (1 < ++_D_outstanding)` -/
  | enter
  /-- `_Cancel_callback::operator()`: `_Get_scheduler()._Cancel(this, _D_state)` -/
  | contextCancel
  /-- `_Cancel_callback::_Complete`, which its `_Cancel` and `_Error` call -/
  | cancelComplete
  /-- `_Cancel_callback::operator()` has returned to the stop source -/
  | leave
  deriving DecidableEq, Repr

/-- `_Start()`. -/
def startCall : List AtomicStep := [.increment, .emplace, .testStop]

/-- `_Complete()`. -/
def completeCall : List AtomicStep := [.reset, .complete]

/-- `_Error(e)`. -/
def errorCall (e : ErrorCode) : List AtomicStep := [.reset, .error e]

/-- `_Cancel_callback::operator()()`, run by the stop source. -/
def callbackCall : List AtomicStep := [.enter, .leave]

/-- The steps that read or write the operation state. `testStop` asks a copy of the token and
`leave` is the stop source's. -/
def AtomicStep.touches : AtomicStep → Bool
  | .testStop | .leave => false
  | _ => true

/-! ## The environment of a step -/

/-- What the calls made during one step return. A step uses the fields it has calls for. -/
structure Env where
  /-- the error value if `event_new` or `evtimer_new` returned `nullptr` -/
  eventNew : Option ℤ := none
  fcntl : SysResult := .ok 0
  connect : SysResult := .ok 0
  /-- `system_clock::now()`, in nanoseconds -/
  now : ℤ := 0
  /-- `accept`, `recvmsg`, `sendmsg` or `getsockopt`, in the order of the calls -/
  results : List SysResult := []
  /-- what a successful `getsockopt` stores as `SO_ERROR` -/
  soError : ℤ := 0
  deriving DecidableEq, Repr

/-- The history of an operation. -/
inductive OpEvent where
  /-- a step was run on the operation -/
  | ran (m : AtomicStep)
  /-- the stop callback was constructed, with a stop already requested or not -/
  | emplaced (stopped : Bool)
  /-- `_Submit` was called; for an operation on a socket, its id named this one -/
  | submitted (env : Env) (number : Option ℕ)
  /-- `_Submit` looked up the id of a free slot -/
  | refused
  /-- a readiness callback ran `_Work` -/
  | dispatched
  /-- `_Work` made a system call on this socket -/
  | called (number : ℕ) (result : SysResult)
  /-- `getsockopt` stored this `SO_ERROR` -/
  | soError (v : ℤ)
  /-- `_Work` looked up the id of a free slot -/
  | stray
  /-- `_Work` returned -/
  | worked (result : Bool)
  | signalled (s : Signal)
  deriving DecidableEq, Repr

/-! ## Operation states -/

/-- The stop callback in `_D_callback`, as the stop source sees it. -/
inductive Callback where
  | idle
  | registered
  | executing
  deriving DecidableEq, Repr

/-- A `::timeval`. -/
structure Timeval where
  sec : ℤ
  usec : ℤ
  deriving DecidableEq, Repr

/-- A libevent `event`, owned through `_Extra`: the flags it was created with, whether it is armed
in the event base, and the timeout it was added with. -/
structure Event where
  flags : BitVec 16
  armed : Bool
  timeout : Option Timeval := none
  deriving DecidableEq, Repr

/-- `_Cpo_State`: the `_Io_base` fields the contexts use, the operation's results, the counter and
the stop callback. -/
structure CpoState where
  desc : Desc
  token : Source
  /-- `_Extra` -/
  extra : Option Event := none
  /-- `std::get<2>` of an `_Accept_operation` -/
  acceptId : Option SocketId := none
  /-- `std::get<2>` of a `_Receive_operation` or `_Send_operation` -/
  count : ℕ := 0
  /-- `_D_outstanding` -/
  outstanding : ℤ := 0
  /-- `_D_callback` -/
  callback : Callback := .idle
  history : List OpEvent := []
  deriving DecidableEq, Repr

namespace CpoState

/-- Appends to the history. -/
def log (op : CpoState) (e : OpEvent) : CpoState :=
  { op with history := op.history ++ [e] }

/-- The event is armed in the event base. -/
def isArmed (op : CpoState) : Bool :=
  match op.extra with
  | some ev => ev.armed
  | none => false

/-- `_Set_value`: the signal a completed operation sends. -/
def setValue (op : CpoState) : Signal :=
  match op.desc with
  | .accept _ => .value (.socket op.acceptId)
  | .receive _ | .send _ => .value (.count op.count)
  | .connect _ | .resumeAfter _ | .resumeAt _ => .value .unit

/-- `_D_callback.reset()`: a callback that has not been called is taken off the stop source. -/
def reset (op : CpoState) : CpoState :=
  match op.callback with
  | .registered => { op with callback := .idle }
  | _ => op

theorem reset_of_registered {op : CpoState} (h : op.callback = .registered) :
    op.reset = { op with callback := .idle } := by
  simp only [reset, h]

theorem reset_of_ne {op : CpoState} (h : op.callback ≠ .registered) : op.reset = op := by
  unfold reset
  split
  next hcb => exact absurd hcb h
  next => rfl

end CpoState

/-! ## Effects -/

/-- What a step does: the context and the operation after it, the steps it makes its caller run
next, the signal it sends the receiver, and whether an exception escaped from a `noexcept` function,
which ends the program. -/
structure Effect (κ : Type*) where
  ctx : κ
  op : CpoState
  next : List AtomicStep := []
  signal : Option Signal := none
  fault : Bool := false

/-- The part of `_Context_base` that operations use. -/
class ContextBase (κ : Type*) where
  /-- `_D_sockets` -/
  sockets : κ → Table
  withSockets : κ → Table → κ
  /-- `_Accept`, `_Connect`, `_Receive`, `_Send`, `_Resume_after`, `_Resume_at`: what the call does,
  with the steps of the `_Complete` or `_Error` it calls, and the `bool` it returns -/
  submit : κ → OpId → CpoState → Env → Option (Effect κ × Bool)
  /-- `_Cancel` -/
  cancel : κ → CpoState → Effect κ
  /-- a readiness indication can be delivered to the operation -/
  isRegistered : κ → OpId → CpoState → Bool
  /-- a readiness indication is delivered: `_Libevent_callback`, or `run_one` after `poll` -/
  ready : κ → OpId → CpoState → Env → Option (Effect κ)

section Steps

variable {κ : Type*}

/-- `if (0 == --_D_outstanding)` and then the signal. -/
def decrement (ctx : κ) (op : CpoState) (s : Signal) : Effect κ :=
  { ctx := ctx
    op := { op with outstanding := op.outstanding - 1 }
    signal := if op.outstanding - 1 = 0 then some s else none }

/-- One atomic step; `stopped` is what the stop token answers. -/
def AtomicStep.exec [ContextBase κ] (stopped : Bool) (env : Env) (ctx : κ) (o : OpId)
    (op : CpoState) : AtomicStep → Option (Effect κ)
  | .increment => some { ctx := ctx, op := { op with outstanding := op.outstanding + 1 } }
  | .emplace =>
    -- the constructor of a stop callback calls it at once if a stop has been requested
    if stopped then
      some { ctx := ctx, op := { op.log (.emplaced true) with callback := .executing },
             next := callbackCall }
    else
      some { ctx := ctx, op := { op.log (.emplaced false) with callback := .registered } }
  -- `_Start` cancels without a submission, or goes on with it
  | .testStop =>
    some { ctx := ctx, op := op, next := if stopped then [.reset, .cancel] else [.submit] }
  | .submit =>
    -- a false result makes `_Start` call `_Complete`, after what `_Submit` itself called
    (ContextBase.submit ctx o op env).map fun (e, result) =>
      { e with next := if result then e.next else e.next ++ completeCall }
  | .reset => some { ctx := ctx, op := op.reset }
  | .complete => some (decrement ctx op op.setValue)
  | .error e => some (decrement ctx op (.error e))
  | .cancel => some (decrement ctx op .stopped)
  -- a counter that was 0 or less belongs to an operation that is over: nothing to cancel
  | .enter =>
    some { ctx := ctx, op := { op with outstanding := op.outstanding + 1 },
           next := if 1 < op.outstanding + 1 then [.contextCancel] else [] }
  | .contextCancel => some (ContextBase.cancel ctx op)
  | .cancelComplete => some (decrement ctx op .stopped)
  | .leave => some { ctx := ctx, op := { op with callback := .idle } }

/-- The signal of an effect goes into the history. -/
def Effect.logSignal (e : Effect κ) : Effect κ :=
  match e.signal with
  | some s => { e with op := e.op.log (.signalled s) }
  | none => e

/-- One atomic step with its entries in the history. -/
def AtomicStep.perform [ContextBase κ] (m : AtomicStep) (stopped : Bool) (env : Env) (ctx : κ)
    (o : OpId) (op : CpoState) : Option (Effect κ) :=
  -- the entry of the step comes before those that the step makes
  (m.exec stopped env ctx o (op.log (.ran m))).map Effect.logSignal

end Steps

end Stdnet
