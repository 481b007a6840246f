import Stdnet.PollContext

/-!
# The Loop of the poll Context

`run_one`, `run` and `_Add_Outstanding`, which is also called from inside the `_Work` of a
dispatched operation. What a `_Work` does to the context is a script: the virtual function is not
known here, and the receiver's code that it calls may create sockets, release them and start further
operations.

The context is accompanied by the registrations made and dispatched so far, which no call reads.
-/

namespace Stdnet

namespace PollContext

open SwapRemove

/-! ## The calls -/

/-- What `_Add_Outstanding` registers: the operation, its handle and its event mask. -/
structure Registration where
  op : OpId
  fd : Handle
  events : BitVec 16
  deriving DecidableEq, Repr

/-- The context with the registrations made so far and those dispatched so far. -/
structure Run where
  ctx : PollContext := {}
  made : List Registration := []
  dispatched : List Registration := []

/-- `_D_poll.emplace_back` and `_D_outstanding.emplace_back`. -/
def Run.register (s : Run) (r : Registration) : Run :=
  { s with ctx := s.ctx.register r.op r.fd r.events, made := s.made ++ [r] }

def Run.withSockets (s : Run) (t : Table) : Run :=
  { s with ctx := { s.ctx with sockets := t } }

/-- `_Add_Outstanding`. The lookup of the record and the one of the handle throw if the slot is
free; in non-blocking mode `_Work` is run first and may have changed the context. -/
def addOutstanding (s : Run) (o : OpId) (id : SocketId) (events : BitVec 16)
    (work : Run → Except Fault (Run × Bool)) : Except Fault (Run × Bool) :=
  match s.ctx.sockets.container.get id with
  | .error f => .error f
  | .ok r =>
    -- a socket in blocking mode is not tried
    match if r.blocking then .ok (s, false) else work s with
    | .error f => .error f
    | .ok (s', true) => .ok (s', true)
    | .ok (s', false) =>
      match s'.ctx.sockets.nativeHandle id with
      | .error f => .error f
      | .ok fd => .ok (s'.register ⟨o, fd, events⟩, false)

/-- What a `_Work` does to the context until it returns its result. -/
inductive Script where
  | done (result : Bool)
  | makeSocket (fd : Handle) (rest : Script)
  | release (id : SocketId) (close : SysResult) (rest : Script)
  /-- an operation with the given `_Work` is started -/
  | add (o : OpId) (id : SocketId) (events : BitVec 16) (work : Script) (rest : Script)

def Script.exec : Script → Run → Except Fault (Run × Bool)
  | .done result, s => .ok (s, result)
  | .makeSocket fd rest, s =>
    match s.ctx.sockets.makeSocket fd with
    | .error f => .error f
    | .ok (_, t) => rest.exec (s.withSockets t)
  | .release id close rest, s =>
    match s.ctx.sockets.release id close with
    | .error f => .error f
    | .ok (t, _) => rest.exec (s.withSockets t)
  | .add o id events work rest, s =>
    match addOutstanding s o id events work.exec with
    | .error f => .error f
    | .ok (s', _) => rest.exec s'

/-- What a call of `::poll` does: it fails, or it writes the `revents` of all entries. -/
inductive PollResult where
  | fail (errno : ℤ)
  | ok (revents : List (BitVec 16))
  deriving DecidableEq, Repr

/-- `EAGAIN` is `EWOULDBLOCK`. -/
def retries (errno : ℤ) : Prop := errno = EINTR ∨ errno = EWOULDBLOCK

instance (errno : ℤ) : Decidable (retries errno) := inferInstanceAs (Decidable (_ ∨ _))

/-- The vector after `::poll` has written the `revents`. -/
def report (ps : List Pollfd) (revents : List (BitVec 16)) : List Pollfd :=
  List.zipWith (fun p r => { p with revents := r }) ps revents

/-- `for (_I(size); 0 < _I--; )`: the first entry from the back that is reported. -/
def scan (ps : List Pollfd) : ℕ → Option ℕ
  | 0 => none
  | i + 1 =>
    match ps[i]? with
    -- `_I--` in the condition: the entry with index `i` is looked at
    | some p => if reported p then some i else scan ps i
    | none => scan ps i

/-- What a `run_one` meets: the results of exactly the calls of `::poll` that it makes, and what the
`_Work` of the operation it dispatches does. -/
structure Input where
  results : List PollResult
  work : Script

/-- The removal of entry `i` and the call of its operation's `_Work`, whose result is ignored. -/
def dispatchAt (s : Run) (i : ℕ) (work : Script) : Option (Except Fault (Run × ℕ)) :=
  match s.ctx.poll[i]?, s.ctx.outstanding[i]? with
  | some p, some o =>
    let s' := { s with ctx := s.ctx.remove i, dispatched := s.dispatched ++ [⟨o, p.fd, p.events⟩] }
    some ((work.exec s').map fun (s'', _) => (s'', 1))
  | _, _ => none

/-- The `while (true)` of `run_one`. -/
def loop (s : Run) (work : Script) : List PollResult → Option (Except Fault (Run × ℕ))
  | [] => none
  | .fail e :: rest =>
    -- the `break` leaves the `switch` and the `while` calls `::poll` again
    if retries e then loop s work rest
    else if rest = [] then some (.ok (s, 0))
    else none
  | .ok revents :: rest =>
    if revents.length = s.ctx.poll.length then
      let s' := { s with ctx := { s.ctx with poll := report s.ctx.poll revents } }
      -- nothing reported: `::poll` is called again on the vector with the new `revents`
      match scan s'.ctx.poll s'.ctx.poll.length with
      | some i => if rest = [] then dispatchAt s' i work else none
      | none => loop s' work rest
    else none

/-- `run_one`. -/
def runOne (s : Run) (e : Input) : Option (Except Fault (Run × ℕ)) :=
  -- an empty vector returns 0 without a call of `::poll`
  if s.ctx.poll = [] then (if e.results = [] then some (.ok (s, 0)) else none)
  else loop s e.work e.results

/-- `run`: the list holds the inputs of exactly the calls of `run_one` that it makes. -/
def run (s : Run) (count : ℕ) : List Input → Option (Except Fault (Run × ℕ))
  | [] => none
  | e :: es =>
    match runOne s e with
    | none => none
    | some (.error f) => if es = [] then some (.error f) else none
    | some (.ok (s', c)) =>
      -- `while (std::size_t _C = this->run_one())`
      if c = 0 then (if es = [] then some (.ok (s', count)) else none)
      else run s' (count + c) es

/-- The calls that a program makes. -/
inductive Call where
  | makeSocket (fd : Handle)
  | release (id : SocketId) (close : SysResult)
  | add (o : OpId) (id : SocketId) (events : BitVec 16) (work : Script)
  | runOne (e : Input)
  | run (es : List Input)

/-- One call; an exception that escapes ends the run. -/
def Run.step (s : Run) : Call → Option Run
  | .makeSocket fd =>
    match s.ctx.sockets.makeSocket fd with
    | .ok (_, t) => some (s.withSockets t)
    | .error _ => none
  | .release id close =>
    match s.ctx.sockets.release id close with
    | .ok (t, _) => some (s.withSockets t)
    | .error _ => none
  | .add o id events work =>
    match addOutstanding s o id events work.exec with
    | .ok (s', _) => some s'
    | .error _ => none
  | .runOne e =>
    match PollContext.runOne s e with
    | some (.ok (s', _)) => some s'
    | _ => none
  | .run es =>
    match PollContext.run s 0 es with
    | some (.ok (s', _)) => some s'
    | _ => none

end PollContext

end Stdnet
