import Stdnet.Operation

/-!
# The Work Functions

The functions stored in `_Io_base::_Work`, which readiness callbacks run. They only use the socket
table of a context, so both contexts share them; the two `_Accept` functions have the same one.

-/

namespace Stdnet

/-- What a `_Work` function does: the table and the operation after it, the steps of the `_Complete`
or `_Error` it calls, the `bool` it returns, and whether the lookup of the handle threw. -/
structure Worked where
  table : Table
  op : CpoState
  next : List AtomicStep := []
  result : Bool := true
  fault : Bool := false

/-- The calls made on a socket, as entries of the history. -/
def CpoState.logCalls (op : CpoState) (number : ℕ) (rs : List SysResult) : CpoState :=
  { op with history := op.history ++ rs.map (.called number) }

/-- The end of a `_Work` function: what it returns goes into the history. -/
def worked (t : Table) (op : CpoState) (next : List AtomicStep) (result : Bool) : Worked :=
  { table := t, op := op.log (.worked result), next := next, result := result }

/-- The lookup of the handle, which every `_Work` on a socket begins with. -/
def withHandle (t : Table) (op : CpoState) (body : SocketRecord → Option Worked) : Option Worked :=
  match t.container.get op.desc.id with
  | .error _ => some { table := t, op := op.log .stray, fault := true }
  | .ok r => body r

/-- The `_Work` of the two `_Accept` functions. -/
def acceptWork (t : Table) (op : CpoState) (env : Env) : Option Worked :=
  withHandle t op fun r =>
    let op := op.logCalls r.number env.results
    match workLoop acceptSwitch env.results with
    | some (.value fd) =>
      -- the operating system hands out descriptors that no live socket has
      if t.Fresh fd then
        match t.makeSocket fd with
        | .ok (id, t') => some (worked t' { op with acceptId := some id } completeCall true)
        | .error _ => none
      else none
    -- the loop of an accept does not end so
    | some .closed => none
    | some (.error e) => some (worked t op (errorCall e) true)
    | some .wouldBlock => some (worked t op [] false)
    | none => none

/-- The `_Work` of `_Receive` and of `_Send`. -/
def transferWork (t : Table) (op : CpoState) (env : Env) : Option Worked :=
  withHandle t op fun r =>
    let op := op.logCalls r.number env.results
    match workLoop transferSwitch env.results with
    | some (.value n) => some (worked t { op with count := n } completeCall true)
    | some .closed => some (worked t { op with count := 0 } completeCall true)
    | some (.error e) => some (worked t op (errorCall e) true)
    | some .wouldBlock => some (worked t op [] false)
    | none => none

/-- The `_Work` of `_Connect`: one `getsockopt`. -/
def connectWork (t : Table) (op : CpoState) (env : Env) : Option Worked :=
  withHandle t op fun r =>
    let op := op.logCalls r.number env.results
    match env.results with
    -- `getsockopt` itself failed
    | [.fail e] => some (worked t op (errorCall ⟨e, .system⟩) true)
    | [.ok _] =>
      -- it stored the outcome of the connection
      let op := op.log (.soError env.soError)
      if env.soError = 0 then some (worked t op completeCall true)
      else some (worked t op (errorCall ⟨env.soError, .system⟩) true)
    | _ => none

/-- The `_Work` of `_Resume_after` and of `_Resume_at`. -/
def timerWork (t : Table) (op : CpoState) : Option Worked :=
  some (worked t op completeCall true)

/-- `_Op->_Work(*_Op->_Context, _Op)`. -/
def CpoState.work (op : CpoState) (t : Table) (env : Env) : Option Worked :=
  match op.desc with
  | .accept _ => acceptWork t op env
  | .connect _ => connectWork t op env
  | .receive _ | .send _ => transferWork t op env
  | .resumeAfter _ | .resumeAt _ => timerWork t op

end Stdnet
