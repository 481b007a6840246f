import Stdnet.Work

/-!
# The libevent Context

Model of `_Libevent_context`: the functions that submit an operation to the event base, `_Cancel`,
and `_Libevent_callback`. The event base itself is the `armed` flag of each operation's event: an
event that is not persistent is disarmed before its callback is called, `event_add` arms it and
`event_del` disarms it.
-/

namespace Stdnet

/-- `_Libevent_context`. -/
structure LibeventContext where
  sockets : Table := {}
  deriving DecidableEq, Repr

namespace LibeventContext

/-- `EV_READ` and `EV_WRITE`. -/
def EV_READ : BitVec 16 := 2
def EV_WRITE : BitVec 16 := 4

/-- The tail of every submission: `event_new` or `evtimer_new`, `_Error` and `return false` when it
fails, else `_Extra`, `event_add` and `return true`. -/
def addEvent (ctx : LibeventContext) (op : CpoState) (env : Env) (flags : BitVec 16)
    (timeout : Option Timeval) : Effect LibeventContext × Bool :=
  match env.eventNew with
  | some e => ({ ctx := ctx, op := op, next := errorCall ⟨e, .libevent⟩ }, false)
  | none =>
    ({ ctx := ctx
       op := { op with extra := some { flags := flags, armed := true, timeout := timeout } } },
      true)

/-- `this->_Native_handle(_Op->_Id)`, which every submission on a socket begins with; its exception
would leave `_Start`, which a `noexcept` function called. -/
def withHandle (ctx : LibeventContext) (op : CpoState) (env : Env)
    (body : CpoState → Effect LibeventContext × Bool) : Effect LibeventContext × Bool :=
  match ctx.sockets.container.get op.desc.id with
  | .error _ => ({ ctx := ctx, op := op.log .refused, fault := true }, false)
  | .ok r => body (op.log (.submitted env (some r.number)))

/-- `_Accept`. -/
def accept (ctx : LibeventContext) (op : CpoState) (env : Env) : Effect LibeventContext × Bool :=
  withHandle ctx op env fun op => addEvent ctx op env EV_READ none

/-- `_Connect`. -/
def connect (ctx : LibeventContext) (op : CpoState) (env : Env) : Effect LibeventContext × Bool :=
  withHandle ctx op env fun op =>
    match env.fcntl with
    -- the socket could not be put into non-blocking mode
    | .fail e => ({ ctx := ctx, op := op, next := errorCall ⟨e, .system⟩ }, false)
    | .ok _ =>
      match env.connect with
      -- connected at once
      | .ok _ => ({ ctx := ctx, op := op, next := completeCall }, false)
      | .fail e =>
        -- the connection is under way: `getsockopt` will say how it ended
        if e = EINPROGRESS ∨ e = EINTR then addEvent ctx op env (EV_READ ||| EV_WRITE) none
        else ({ ctx := ctx, op := op, next := errorCall ⟨e, .system⟩ }, false)

/-- `_Receive`. -/
def receive (ctx : LibeventContext) (op : CpoState) (env : Env) : Effect LibeventContext × Bool :=
  withHandle ctx op env fun op => addEvent ctx op env EV_READ none

/-- `_Send`. -/
def send (ctx : LibeventContext) (op : CpoState) (env : Env) : Effect LibeventContext × Bool :=
  withHandle ctx op env fun op => addEvent ctx op env EV_WRITE none

/-- The conversion of a signed 64-bit count to `unsigned long long`. -/
def toUnsigned (n : ℤ) : ℤ := n % 2 ^ 64

/-- The `timeval` of a count of microseconds: `_F` is `unsigned long long`, so both operands of the
division and of the remainder are unsigned. -/
def timeval (count : ℤ) : Timeval where
  sec := toUnsigned count / 1000000
  usec := toUnsigned (1000 * count) % 1000000

/-- `_Resume_after`. -/
def resumeAfter (ctx : LibeventContext) (op : CpoState) (env : Env) (duration : ℤ) :
    Effect LibeventContext × Bool :=
  addEvent ctx (op.log (.submitted env none)) env 0 (some (timeval duration))

/-- `_Resume_at`: a time point that has passed completes the operation at once. -/
def resumeAt (ctx : LibeventContext) (op : CpoState) (env : Env) (time : ℤ) :
    Effect LibeventContext × Bool :=
  let op := op.log (.submitted env none)
  if time ≤ env.now then ({ ctx := ctx, op := op, next := completeCall }, false)
  else addEvent ctx op env 0 (some (timeval ((time - env.now).tdiv 1000)))

/-- `_D_data._Submit(this)` on this context. -/
def submit (ctx : LibeventContext) (op : CpoState) (env : Env) : Effect LibeventContext × Bool :=
  match op.desc with
  | .accept _ => accept ctx op env
  | .connect _ => connect ctx op env
  | .receive _ => receive ctx op env
  | .send _ => send ctx op env
  | .resumeAfter duration => resumeAfter ctx op env duration
  | .resumeAt time => resumeAt ctx op env time

/-- `event_del`, or the event base before it calls back: the event is no longer armed. -/
def disarm (op : CpoState) : CpoState :=
  { op with extra := op.extra.map fun ev => { ev with armed := false } }

/-- `_Cancel`: `event_del` if there is an event, then `_Cancel` of the callback and of the
operation. -/
def cancel (ctx : LibeventContext) (op : CpoState) : Effect LibeventContext :=
  -- `_Cancel_op->_Cancel()` comes first, so the counter is at 1 when `_Op->_Cancel()` runs
  { ctx := ctx, op := disarm op, next := [.cancelComplete, .cancel] }

/-- `_Libevent_callback`: the event is disarmed, `_Work` is run and its result ignored. -/
def callback (ctx : LibeventContext) (op : CpoState) (env : Env) :
    Option (Effect LibeventContext) :=
  ((disarm op).log .dispatched).work ctx.sockets env |>.map fun w =>
    { ctx := { ctx with sockets := w.table }, op := w.op, next := w.next, fault := w.fault }

instance : ContextBase LibeventContext where
  sockets := sockets
  withSockets ctx t := { ctx with sockets := t }
  submit ctx _ op env := some (submit ctx op env)
  cancel := cancel
  isRegistered _ _ op := op.isArmed
  ready ctx _ op env := callback ctx op env

end LibeventContext

end Stdnet
