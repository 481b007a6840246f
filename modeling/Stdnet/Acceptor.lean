import Stdnet.SocketObjects
import Stdnet.SocketRelease

/-!
# Opening and Constructing Acceptors

`open` and the constructor of `basic_socket_acceptor`, written over a state that an exception does
not roll back. Both forms of `open` set `_D_id` whatever happened before, and the destructor does
not run for an acceptor whose constructor has thrown.

## Main results

- `failing_open_iff`, `orphans_iff`: a failing `open` changes nothing exactly if the acceptor was
  not open and the error was not in the argument before; a record is left without an owner exactly
  if an acceptor that has one was opened again.
- `constructor_iff`, `constructor_runs_iff`: the constructor is all or nothing exactly if `socket()`
  fails or every call after it succeeds.
-/

namespace Stdnet

open ThrowingPrograms

/-! ## Error codes -/

/-- `socket_errc::already_open`. -/
def alreadyOpen : ErrorCode := ⟨1, .socket⟩

/-- A default-constructed `std::error_code`. -/
def ErrorCode.clear : ErrorCode := ⟨0, .system⟩

/-- The conversion of a `std::error_code` to `bool`. -/
def ErrorCode.isError (e : ErrorCode) : Bool := e.value != 0

theorem ErrorCode.isError_of_ne {e : ℤ} {c : Category} (he : e ≠ 0) :
    (⟨e, c⟩ : ErrorCode).isError = true :=
  bne_iff_ne.mpr he

/-- `_Error` after a call: assigned if the call failed. -/
def SysResult.assign (r : SysResult) (error : ErrorCode) : ErrorCode :=
  r.errorCode.getD error

/-- `errno` is not 0 when a call has failed. -/
def SysResult.Proper : SysResult → Prop
  | .ok _ => True
  | .fail e => e ≠ 0

instance : (r : SysResult) → Decidable r.Proper
  | .ok _ => inferInstanceAs (Decidable True)
  | .fail e => inferInstanceAs (Decidable (e ≠ 0))

/-- What the functions of an acceptor throw: the exception of a lookup in the table, or the
`std::system_error` of `_Dispatch`. -/
inductive Exn where
  | fault (f : Fault)
  | systemError (e : ErrorCode)
  deriving DecidableEq, Repr

/-! ## The functions -/

/-- A `basic_socket_acceptor` in its process. -/
structure Acceptor (κ : Type) where
  process : Process κ
  /-- `_D_id` -/
  id : SocketId

namespace Acceptor

variable {κ : Type} [ContextBase κ]

/-- `is_open()`. -/
def isOpen (x : Acceptor κ) : Bool :=
  x.id != SocketId.invalid

/-- A call of a member function of the context. -/
def onContext {α : Type} (m : Member (Process κ) α) : EStateM Exn (Acceptor κ) α :=
  on Acceptor.process (fun x s => { x with process := s }) Exn.fault m

/-- `_Dispatch`: an error that the function leaves is thrown. -/
def dispatch (f : ErrorCode → EStateM Exn (Acceptor κ) ErrorCode) :
    EStateM Exn (Acceptor κ) Unit := do
  let error ← f .clear
  if error.isError then throw (.systemError error)

/-- `open(protocol, std::error_code&)`: a socket is made also for an acceptor that is open. -/
def openWith (socket : SysResult) (error : ErrorCode) : EStateM Exn (Acceptor κ) ErrorCode := do
  let x ← get
  -- no `return` here: `_Make_socket` is called, and may overwrite the error
  let error := if x.isOpen then alreadyOpen else error
  let (id, failure) ← onContext (Process.makeSocket socket)
  set { (← get) with id := id }
  return failure.getD error

/-- `open(protocol)`. -/
def openThrowing (socket : SysResult) : EStateM Exn (Acceptor κ) Unit :=
  dispatch (openWith socket)

/-- `_Set_option`, `_Bind` and `_Listen`: a system call on the handle under the id. -/
def callOnHandle (result : SysResult) (error : ErrorCode) :
    EStateM Exn (Acceptor κ) ErrorCode := do
  let x ← get
  let _ ← onContext (Process.lookup x.id)
  return result.assign error

/-- `set_option(reuse_address(true))`. -/
def setOption (result : SysResult) : EStateM Exn (Acceptor κ) Unit :=
  dispatch (callOnHandle result)

/-- `bind(endpoint)`. -/
def bind (result : SysResult) : EStateM Exn (Acceptor κ) Unit :=
  dispatch (callOnHandle result)

/-- `listen()`. -/
def listen (result : SysResult) : EStateM Exn (Acceptor κ) Unit :=
  dispatch (callOnHandle result)

/-- What `socket()`, `setsockopt()`, `bind()` and `listen()` return. -/
structure Calls where
  socket : SysResult
  setsockopt : SysResult
  bind : SysResult
  listen : SysResult
  deriving DecidableEq, Repr

/-- The body of `basic_socket_acceptor(io_context&, endpoint, reuse)`. -/
def construct (reuse : Bool) (c : Calls) : EStateM Exn (Acceptor κ) Unit := do
  openThrowing c.socket
  if reuse then setOption c.setsockopt
  bind c.bind
  listen c.listen

/-- `_D_id(_Socket_id::_Invalid)`, before the body of the constructor. -/
def unopened (s : Process κ) : Acceptor κ where
  process := s
  id := SocketId.invalid

/-! ## What they do -/

section Runs

variable {x x' : Acceptor κ} {r : SocketRecord} {result : SysResult}

omit [ContextBase κ] in
theorem dispatch_run {f : ErrorCode → EStateM Exn (Acceptor κ) ErrorCode} {error : ErrorCode}
    (h : (f .clear).run x = .ok error x') :
    (dispatch f).run x = if error.isError then .error (.systemError error) x' else .ok () x' := by
  rw [dispatch, run_bind_of_ok h]
  split <;> rfl

/-- `socket()` fails: the id is the invalid one afterwards. -/
theorem openWith_fail (x : Acceptor κ) (e : ℤ) (error : ErrorCode) :
    (openWith (.fail e) error).run x = .ok ⟨e, .system⟩ { x with id := SocketId.invalid } := rfl

/-- `socket()` returns: the id is that of the new socket. -/
theorem openWith_ok {n : ℕ} {id : SocketId} {s : Process κ} (error : ErrorCode)
    (h : (Process.makeSocket (.ok n)).run x.process = .ok (id, none) s) :
    (openWith (.ok n) error).run x =
      .ok (if x.isOpen then alreadyOpen else error) { process := s, id := id } := by
  have hcontext : (onContext (Process.makeSocket (.ok n))).run x =
      .ok (id, none) { x with process := s } := run_on_of_ok h
  rw [openWith, run_bind_of_ok (EStateM.run_get x)]
  exact run_bind_of_ok hcontext

/-- A call on the handle of a live record changes nothing. -/
theorem callOnHandle_run (result : SysResult) (h : x.process.table.record x.id = some r)
    (error : ErrorCode) :
    (callOnHandle result error).run x = .ok (result.assign error) x := by
  have hget := Container.get_eq_ok.mpr h
  have hlookup : (Process.lookup x.id).run x.process = .ok r x.process := by
    simp only [EStateM.run, Process.lookup, hget]
  have hcontext : (onContext (Process.lookup x.id)).run x = .ok r x := run_on_of_ok hlookup
  rw [callOnHandle, run_bind_of_ok (EStateM.run_get x)]
  exact run_bind_of_ok hcontext

end Runs

/-! ## Opening -/

/-- The two forms of `open`. -/
inductive OpenCall where
  | withError (socket : SysResult) (error : ErrorCode)
  | throwing (socket : SysResult)
  deriving DecidableEq, Repr

namespace OpenCall

/-- What `socket()` returns. -/
def socket : OpenCall → SysResult
  | .withError socket _ | .throwing socket => socket

/-- What the error code is before the call. -/
def argument : OpenCall → ErrorCode
  | .withError _ error => error
  | .throwing _ => .clear

/-- The call leaves the state `x'` and an error in its argument, or throws. -/
def Fails (x : Acceptor κ) (x' : Acceptor κ) : OpenCall → Prop
  | .withError socket error => ∃ e, (openWith socket error).run x = .ok e x' ∧ e.isError = true
  | .throwing socket => ∃ e, (openThrowing socket).run x = .error e x'

/-- The state that the call leaves. -/
def leaves (x : Acceptor κ) : OpenCall → Acceptor κ
  | .withError socket error => left (openWith socket error) x
  | .throwing socket => left (openThrowing socket) x

/-- What the operating system promises of `socket()`. -/
def Allowed (s : Process κ) : SysResult → Prop
  | .ok n => s.Fresh n
  | .fail e => e ≠ 0

instance (s : Process κ) : (r : SysResult) → Decidable (Allowed s r)
  | .ok n => inferInstanceAs (Decidable (s.Fresh n))
  | .fail e => inferInstanceAs (Decidable (e ≠ 0))

end OpenCall

/-- A call that fails leaves the id of the acceptor, the table and the open handles as they were. -/
def ChangesNothing (x : Acceptor κ) (k : OpenCall) : Prop :=
  ∀ x', k.Fails x x' → x' = x

/-- Every live record is under the id of the acceptor or of another object. -/
def NoOrphan (others : List SocketId) (x : Acceptor κ) : Prop :=
  ∀ id r, x.process.table.record id = some r → id ∈ others ∨ id = x.id

/-- The acceptor owns no record that an assignment to its id would leave without an owner. -/
def Unheld (others : List SocketId) (x : Acceptor κ) : Prop :=
  x.process.table.record x.id = none ∨ x.id ∈ others

/-- One call of `open`. -/
def openStep (x : Acceptor κ) (k : OpenCall) : Option (Acceptor κ) :=
  if OpenCall.Allowed x.process k.socket then some (k.leaves x) else none

section Opening

variable {x x' : Acceptor κ} {k : OpenCall} {others : List SocketId}

/-- What a call of `open` leaves: the error, of which the function with an argument reports it there
and the other one throws it, and the state. -/
theorem open_run (x : Acceptor κ) (k : OpenCall) {e : ErrorCode} {x' : Acceptor κ}
    (h : (openWith k.socket k.argument).run x = .ok e x') :
    k.leaves x = x' ∧ ∀ y, k.Fails x y ↔ e.isError = true ∧ y = x' := by
  cases k with
  | withError socket error =>
    simp only [OpenCall.socket, OpenCall.argument] at h
    refine ⟨left_of_ok h, fun y => ?_⟩
    simp only [OpenCall.Fails, h, EStateM.Result.ok.injEq]
    constructor
    · rintro ⟨_, ⟨rfl, rfl⟩, he⟩
      exact ⟨he, rfl⟩
    · rintro ⟨he, rfl⟩
      exact ⟨e, ⟨rfl, rfl⟩, he⟩
  | throwing socket =>
    have hrun : (openThrowing socket).run x = _ := dispatch_run h
    simp only [OpenCall.leaves, OpenCall.Fails, left, hrun]
    cases he : e.isError <;> simp [eq_comm]

/-- The invalid id is not that of a record. -/
theorem record_invalid {s : Process κ} (h : s.Sound) : s.table.record SocketId.invalid = none := by
  cases hr : s.table.record SocketId.invalid with
  | none => rfl
  | some r => exact absurd rfl (SocketObjects.isOpen_of_record h.table hr)

omit [ContextBase κ] in
theorem eq_invalid (h : x.isOpen = false) : x.id = SocketId.invalid := by
  simpa [isOpen] using h

variable [LawfulContextBase κ]

/-- What `open` does if `socket()` returns. -/
theorem open_ok (h : x.process.table.Ok) {n : ℕ} (hn : x.process.table.Fresh n)
    (error : ErrorCode) :
    ∃ x', (openWith (.ok n) error).run x = .ok (if x.isOpen then alreadyOpen else error) x' ∧
      Process.Added x.process x'.process x'.id n := by
  obtain ⟨id, s, hmake, hadded⟩ := Process.makeSocket_spec h hn
  exact ⟨_, openWith_ok error hmake, hadded⟩

/-- **When a failing `open` changes nothing**. -/
theorem changesNothing_iff (h : x.process.Sound) (hk : OpenCall.Allowed x.process k.socket) :
    ChangesNothing x k ↔
      x.isOpen = false ∧ (k.argument.isError = false ∨ ∃ e, k.socket = .fail e) := by
  unfold ChangesNothing
  cases hsocket : k.socket with
  | fail e =>
    rw [hsocket] at hk
    have hrun : (openWith k.socket k.argument).run x = _ := hsocket ▸ openWith_fail x e k.argument
    simp only [(open_run x k hrun).2, ErrorCode.isError_of_ne hk, true_and, forall_eq]
    -- the id becomes the invalid one
    constructor
    · intro heq
      refine ⟨?_, .inr ⟨e, rfl⟩⟩
      rw [← heq]
      simp [isOpen]
    · rintro ⟨hopen, -⟩
      rw [← eq_invalid hopen]
  | ok n =>
    rw [hsocket] at hk
    obtain ⟨x', hrun, hadded⟩ := open_ok h.table (h.fresh hk) k.argument
    rw [← hsocket] at hrun
    simp only [(open_run x k hrun).2, reduceCtorEq, exists_false, or_false]
    -- a socket was made, so the table is not as before
    have hne : x' ≠ x := by
      rintro rfl
      have hold := hadded.old
      rw [hadded.new] at hold
      cases hold
    cases hopen : x.isOpen with
    | true =>
      simp only [if_true, Bool.true_eq_false, false_and, iff_false]
      exact fun hall => hne (hall x' ⟨by decide, rfl⟩)
    | false =>
      simp only [Bool.false_eq_true, if_false, true_and]
      cases herror : k.argument.isError with
      | true =>
        simp only [Bool.true_eq_false, iff_false]
        exact fun hall => hne (hall x' ⟨trivial, rfl⟩)
      | false => simp

/-- **Step lemma**: what a call of `open` does to the invariant and to the ownership of records. -/
theorem openStep_spec (others : List SocketId) (h : x.process.Sound)
    (hstep : openStep x k = some x') :
    x'.process.Sound ∧ (NoOrphan others x' ↔ NoOrphan others x ∧ Unheld others x) := by
  simp only [openStep] at hstep
  split at hstep
  next hk =>
    cases hstep
    -- after the call the records there were have their owners among the others
    suffices hspec : (k.leaves x).process.Sound ∧ (NoOrphan others (k.leaves x) ↔
        ∀ id r, x.process.table.record id = some r → id ∈ others) by
      refine ⟨hspec.1, hspec.2.trans ⟨fun hall => ⟨fun id r hr => .inl (hall id r hr), ?_⟩, ?_⟩⟩
      · cases hr : x.process.table.record x.id with
        | none => exact .inl hr
        | some r => exact .inr (hall x.id r hr)
      · rintro ⟨hno, hunheld⟩ id r hr
        rcases hno id r hr with hid | rfl
        · exact hid
        · rcases hunheld with hnone | hid
          · rw [hnone] at hr
            cases hr
          · exact hid
    cases hsocket : k.socket with
    | fail e =>
      have hrun : (openWith k.socket k.argument).run x = _ :=
        hsocket ▸ openWith_fail x e k.argument
      rw [(open_run x k hrun).1]
      refine ⟨h, forall₃_congr fun id r hr => ?_⟩
      simp only [or_iff_left_iff_imp]
      rintro rfl
      rw [record_invalid h] at hr
      cases hr
    | ok n =>
      rw [hsocket] at hk
      obtain ⟨x', hrun, hadded⟩ := open_ok h.table (h.fresh hk) k.argument
      rw [← hsocket] at hrun
      rw [(open_run x k hrun).1]
      have hne : ∀ id r, x.process.table.record id = some r → id ≠ x'.id := by
        rintro id r hr rfl
        rw [hadded.old] at hr
        cases hr
      refine ⟨hadded.sound h hk.2.2, fun hno id r hr => ?_, fun hall id r hr => ?_⟩
      · have hid := hne id r hr
        exact (hno id r ((hadded.other id hid).trans hr)).resolve_right hid
      · by_cases hid : id = x'.id
        · exact .inr hid
        · exact .inl (hall id r ((hadded.other id hid).symm.trans hr))
  next => cases hstep

/-- **A failing `open` changes nothing** exactly if the acceptor was not open, and the error was not
in the argument before or `socket()` failed. After a sequence of calls of `open` every record has an
owner exactly if every record had one at first and no call overwrote the id of a record. -/
theorem failing_open_iff (others : List SocketId) (h : x.process.Sound) :
    (∀ k : OpenCall, OpenCall.Allowed x.process k.socket →
      (ChangesNothing x k ↔
        x.isOpen = false ∧ (k.argument.isError = false ∨ ∃ e, k.socket = .fail e))) ∧
    ∀ (ks : List OpenCall) (x' : Acceptor κ), StepMachine.run openStep x ks = some x' →
      (NoOrphan others x' ↔
        NoOrphan others x ∧ StepMachine.StepsAll openStep (fun y _ _ => Unheld others y) x ks) :=
  ⟨fun _ => changesNothing_iff h, fun _ _ hrun =>
    StepMachine.state_iff_stepsAll openStep (I := fun y => y.process.Sound)
      (fun _ _ _ hs hstep => (openStep_spec others hs hstep).1)
      (fun _ _ _ hs hstep => (openStep_spec others hs hstep).2) h hrun⟩

/-- An acceptor that is open is opened again: the error is thrown, but there is a second socket, and
the first one has no owner. -/
theorem open_again_leaks :
    ∃ x x' : Acceptor LibeventContext,
      (construct false ⟨.ok 5, .ok 0, .ok 0, .ok 0⟩).run (unopened { ctx := {} }) = .ok () x ∧
      (openThrowing (.ok 6)).run x = .error (.systemError alreadyOpen) x' ∧
      x.id = 0 ∧ x'.id = 1 ∧ x'.process.opened = [5, 6] ∧
      ¬ ChangesNothing x (.throwing (.ok 6)) ∧ ¬ NoOrphan [] x' := by
  refine ⟨_, _, rfl, rfl, rfl, rfl, rfl, fun hall => ?_, fun hno => ?_⟩
  · have heq := congrArg Acceptor.id (hall _ ⟨_, rfl⟩)
    exact absurd heq (by decide)
  · rcases hno 0 { handle := 5, number := 0 } rfl with hid | hid
    · cases hid
    · exact absurd hid (by decide)

/-- On an acceptor that is not open a call with `socket()` failing changes nothing, and two such
calls leave no record without an owner. -/
theorem failing_open_iff_twice :
    ChangesNothing (unopened ({ ctx := {} } : Process LibeventContext)) (.throwing (.fail 24)) ∧
      ∃ x', StepMachine.run openStep (unopened ({ ctx := {} } : Process PollContext))
          [.throwing (.fail 24), .withError (.ok 5) .clear] = some x' ∧ NoOrphan [] x' := by
  have hlibevent : Process.Sound ({ ctx := {} } : Process LibeventContext) :=
    Process.sound_initial rfl
  have hpoll : Process.Sound ({ ctx := {} } : Process PollContext) := Process.sound_initial rfl
  have hrun : StepMachine.run openStep (unopened ({ ctx := {} } : Process PollContext))
      [.throwing (.fail 24), .withError (.ok 5) .clear] = some _ := rfl
  refine ⟨((failing_open_iff (x := unopened _) [] hlibevent).1 _ (by decide)).mpr
    ⟨by decide, .inr ⟨24, rfl⟩⟩, _, hrun, ?_⟩
  refine ((failing_open_iff (x := unopened _) [] hpoll).2 _ _ hrun).mpr
    ⟨fun id r hr => ?_, fun y hy => ⟨.inl rfl, fun z _ => ⟨?_, trivial⟩⟩⟩
  · cases hr
  · cases hy
    exact .inl rfl

end Opening

/-! ## Constructing -/

/-- The set-up of an acceptor after `socket()`, as `SocketObjects` has it. -/
def Calls.setup (c : Calls) (reuse : Bool) : SocketObjects.Setup where
  option := if reuse then some c.setsockopt else none
  bind := c.bind
  listen := c.listen

/-- `socket()` fails, or every call that the constructor makes after it succeeds. -/
def Calls.Settled (c : Calls) (reuse : Bool) : Prop :=
  (∃ e, c.socket = .fail e) ∨ (c.setup reuse).succeeds = true

/-- What the operating system promises of the calls of the constructor. -/
def Calls.Allowed (c : Calls) (s : Process κ) : Prop :=
  OpenCall.Allowed s c.socket ∧ c.setsockopt.Proper ∧ c.bind.Proper ∧ c.listen.Proper

instance (c : Calls) (s : Process κ) : Decidable (c.Allowed s) :=
  inferInstanceAs (Decidable (_ ∧ _ ∧ _ ∧ _))

omit [ContextBase κ] in
theorem Calls.Allowed.fresh {s : Process κ} {c : Calls} (hc : c.Allowed s) {n : ℕ}
    (hsocket : c.socket = .ok n) : s.Fresh n := by
  have hallowed : OpenCall.Allowed s c.socket := hc.1
  rwa [hsocket] at hallowed

/-- The constructor returns with one new socket, which is that of the acceptor, or throws and leaves
the live records and the open handles as they were. -/
def AllOrNothing (s : Process κ) : EStateM.Result Exn (Acceptor κ) Unit → Prop
  | .ok _ x => ∃ fd, Process.Added s x.process x.id fd
  | .error _ x => (∀ id, x.process.table.record id = s.table.record id) ∧
      ∀ fd, fd ∈ x.process.opened ↔ fd ∈ s.opened

section Constructing

variable {s : Process κ} {x : Acceptor κ} {r : SocketRecord} {c : Calls} {reuse : Bool}

/-- A step of the constructor after `open` leaves the state as it is, and throws if its call
failed. -/
theorem dispatch_call (hr : x.process.table.record x.id = some r) {result : SysResult}
    (hresult : result.Proper) :
    (result.errorCode = none ∧ (dispatch (callOnHandle result)).run x = .ok () x) ∨
      ∃ e, result.errorCode = some e ∧
        (dispatch (callOnHandle result)).run x = .error (.systemError e) x := by
  have hrun := dispatch_run (callOnHandle_run result hr .clear)
  cases result with
  | ok n => exact .inl ⟨rfl, hrun⟩
  | fail e =>
    refine .inr ⟨_, rfl, ?_⟩
    simpa only [SysResult.assign, SysResult.errorCode, Option.getD_some,
      ErrorCode.isError_of_ne hresult, if_true] using hrun

/-- `bind` and `listen`, the last two steps. -/
theorem construct_end (hr : x.process.table.record x.id = some r) (hbind : c.bind.Proper)
    (hlisten : c.listen.Proper) :
    ((c.setup false).succeeds = true ∧ (do bind c.bind; listen c.listen).run x = .ok () x) ∨
      (c.setup false).succeeds = false ∧
        ∃ e, (do bind c.bind; listen c.listen).run x = .error e x := by
  rcases dispatch_call hr hbind with ⟨hnone, hrun⟩ | ⟨e, hsome, hrun⟩
  · rcases dispatch_call hr hlisten with ⟨hnone', hrun'⟩ | ⟨e, hsome, hrun'⟩
    · exact .inl ⟨by simp [Calls.setup, SocketObjects.Setup.succeeds, hnone, hnone'],
        (run_bind_of_ok hrun).trans hrun'⟩
    · exact .inr ⟨by simp [Calls.setup, SocketObjects.Setup.succeeds, hsome],
        _, (run_bind_of_ok hrun).trans hrun'⟩
  · exact .inr ⟨by simp [Calls.setup, SocketObjects.Setup.succeeds, hsome],
      _, run_bind_of_error hrun⟩

/-- The constructor after `open` returns if all calls succeed and throws otherwise; the state is
the one that `open` left. -/
theorem construct_after_open (hr : x.process.table.record x.id = some r)
    (hopen : (openThrowing c.socket).run (unopened s) = .ok () x)
    (hoption : c.setsockopt.Proper) (hbind : c.bind.Proper) (hlisten : c.listen.Proper) :
    ((c.setup reuse).succeeds = true ∧ (construct reuse c).run (unopened s) = .ok () x) ∨
      (c.setup reuse).succeeds = false ∧
        ∃ e, (construct reuse c).run (unopened s) = .error e x := by
  have hend := construct_end hr hbind hlisten
  rw [construct, run_bind_of_ok hopen]
  cases reuse with
  | false => exact hend
  | true =>
    simp only [if_true]
    rcases dispatch_call hr hoption with ⟨hnone, hrun⟩ | ⟨e, hsome, hrun⟩
    · -- the option was set
      have hsucceeds : (c.setup true).succeeds = (c.setup false).succeeds := by
        simp [Calls.setup, SocketObjects.Setup.succeeds, hnone]
      rw [hsucceeds, setOption, run_bind_of_ok hrun]
      exact hend
    · exact .inr ⟨by simp [Calls.setup, SocketObjects.Setup.succeeds, hsome],
        _, run_bind_of_error hrun⟩

/-- What the constructor does if `socket()` fails: it throws, and nothing has changed. -/
theorem construct_no_socket (reuse : Bool) {e : ℤ} (hsocket : c.socket = .fail e) (he : e ≠ 0) :
    (construct reuse c).run (unopened s) = .error (.systemError ⟨e, .system⟩) (unopened s) := by
  have hopen : (openThrowing c.socket).run (unopened s) = _ :=
    dispatch_run (hsocket ▸ openWith_fail (unopened s) e .clear)
  rw [ErrorCode.isError_of_ne he] at hopen
  exact run_bind_of_error hopen

variable [LawfulContextBase κ]

/-- What the constructor does if `socket()` returns: there is one new socket, whether it returns or
throws. -/
theorem construct_socket (reuse : Bool) (h : s.table.Ok) (hc : c.Allowed s) {n : ℕ}
    (hsocket : c.socket = .ok n) (hn : s.table.Fresh n) :
    ∃ x : Acceptor κ, Process.Added s x.process x.id n ∧
      (((c.setup reuse).succeeds = true ∧ (construct reuse c).run (unopened s) = .ok () x) ∨
        (c.setup reuse).succeeds = false ∧
          ∃ e, (construct reuse c).run (unopened s) = .error e x) := by
  obtain ⟨-, hoption, hbind, hlisten⟩ := hc
  obtain ⟨x, hrun, hadded⟩ := open_ok (x := unopened s) h hn .clear
  -- the acceptor is not open yet, so no error is left
  have hclosed : (unopened s).isOpen = false := by
    simp [isOpen, unopened]
  simp only [hclosed, Bool.false_eq_true, if_false, ← hsocket] at hrun
  have hopen : (openThrowing c.socket).run (unopened s) = .ok () x := dispatch_run hrun
  exact ⟨x, hadded, construct_after_open hadded.new hopen hoption hbind hlisten⟩

/-- **When the constructor is all or nothing**. -/
theorem allOrNothing_iff (h : s.Sound) (hc : c.Allowed s) :
    AllOrNothing s ((construct reuse c).run (unopened s)) ↔ c.Settled reuse := by
  unfold Calls.Settled
  cases hsocket : c.socket with
  | fail e =>
    have he : OpenCall.Allowed s c.socket := hc.1
    rw [hsocket] at he
    rw [construct_no_socket reuse hsocket he]
    simp [AllOrNothing, unopened]
  | ok n =>
    obtain ⟨x, hadded, hresult⟩ :=
      construct_socket reuse h.table hc hsocket (h.fresh (hc.fresh hsocket))
    rcases hresult with ⟨hsucceeds, hrun⟩ | ⟨hfails, e, hrun⟩
    · rw [hrun, hsucceeds]
      simpa [AllOrNothing] using ⟨_, hadded⟩
    · rw [hrun, hfails]
      simp only [reduceCtorEq, exists_false, Bool.false_eq_true, or_self, iff_false]
      rintro ⟨hrecords, -⟩
      -- the new record is still there
      have hold := hrecords x.id
      rw [hadded.new, hadded.old] at hold
      cases hold

/-- The constructor leaves the table that the coarser model of the program's objects says. -/
theorem construct_program (h : s.Sound) (hc : c.Allowed s) {p p' : SocketObjects.Program}
    (hp : p.sockets = s.table)
    (hstep : p.step (.makeAcceptor c.socket (c.setup reuse)) = some p') :
    p'.sockets = (left (construct reuse c) (unopened s)).process.table := by
  simp only [SocketObjects.Program.step] at hstep
  split at hstep
  next => cases hstep
  next =>
    cases hsocket : c.socket with
    | fail e =>
      have he : OpenCall.Allowed s c.socket := hc.1
      rw [hsocket] at he
      rw [hsocket] at hstep
      obtain rfl : p = p' := Option.some.inj hstep
      have hrun := construct_no_socket (s := s) reuse hsocket he
      rw [left_of_error hrun]
      exact hp
    | ok n =>
      obtain ⟨x, hadded, hresult⟩ :=
        construct_socket reuse h.table hc hsocket (h.fresh (hc.fresh hsocket))
      have hmade := hadded.insert
      rw [hsocket] at hstep
      unfold SocketObjects.Program.withSocket at hstep
      dsimp only at hstep
      split at hstep
      next =>
        -- both models put the handle into the table before anything can fail
        rw [hp, hmade] at hstep
        rcases hresult with ⟨hsucceeds, hrun⟩ | ⟨hfails, e, hrun⟩
        · rw [left_of_ok hrun, ← Option.some.inj hstep, if_pos hsucceeds]
        · rw [left_of_error hrun, ← Option.some.inj hstep, if_neg (by rw [hfails]; decide)]
      next => cases hstep

end Constructing

/-! ### Sequences of constructions -/

/-- A process and the ids of the acceptors that were constructed. -/
structure Attempts (κ : Type) where
  process : Process κ
  acceptors : List SocketId := []

/-- One attempt to construct an acceptor. -/
def Attempts.step (a : Attempts κ) (l : Bool × Calls) : Option (Attempts κ) :=
  if l.2.Allowed a.process then
    match (construct l.1 l.2).run (unopened a.process) with
    | .ok _ x => some { process := x.process, acceptors := a.acceptors ++ [x.id] }
    | .error _ x => some { a with process := x.process }
  else none

/-- Every live record was there at first or is that of an acceptor. -/
def Attempts.NoLeak (s : Process κ) (a : Attempts κ) : Prop :=
  ∀ id r, a.process.table.record id = some r → s.table.record id = some r ∨ id ∈ a.acceptors

/-- The records that were there are still there, and those of the acceptors are live. -/
structure Attempts.Inv (s : Process κ) (a : Attempts κ) : Prop where
  sound : a.process.Sound
  kept : ∀ id r, s.table.record id = some r → a.process.table.record id = some r
  live : ∀ id ∈ a.acceptors, (a.process.table.record id).isSome

section Sequences

variable [LawfulContextBase κ] {s : Process κ} {a a' : Attempts κ} {l : Bool × Calls}

/-- **Step lemma**. -/
theorem Attempts.step_spec (h : Attempts.Inv s a) (hstep : a.step l = some a') :
    Attempts.Inv s a' ∧ (a'.NoLeak s ↔ a.NoLeak s ∧ l.2.Settled l.1) := by
  obtain ⟨reuse, c⟩ := l
  simp only [Attempts.step] at hstep
  split at hstep
  next hc =>
    unfold Calls.Settled
    cases hsocket : c.socket with
    | fail e =>
      have he : OpenCall.Allowed a.process c.socket := hc.1
      rw [hsocket] at he
      rw [construct_no_socket reuse hsocket he] at hstep
      cases hstep
      exact ⟨h, by simp [Attempts.NoLeak, unopened]⟩
    | ok n =>
      have hn := hc.fresh hsocket
      obtain ⟨x, hadded, hresult⟩ :=
        construct_socket reuse h.sound.table hc hsocket (h.sound.fresh hn)
      have hsound := hadded.sound h.sound hn.2.2
      have hkeep : ∀ id r, a.process.table.record id = some r →
          id ≠ x.id ∧ x.process.table.record id = some r := by
        intro id r hr
        have hid : id ≠ x.id := by
          rintro rfl
          rw [hadded.old] at hr
          cases hr
        exact ⟨hid, (hadded.other id hid).trans hr⟩
      have hkept : ∀ id r, s.table.record id = some r → x.process.table.record id = some r :=
        fun id r hr => (hkeep id r (h.kept id r hr)).2
      have hlive : ∀ id ∈ a.acceptors,
          id ≠ x.id ∧ (x.process.table.record id).isSome := by
        intro id hid
        obtain ⟨r, hr⟩ := Option.isSome_iff_exists.mp (h.live id hid)
        obtain ⟨hne, hr'⟩ := hkeep id r hr
        exact ⟨hne, by rw [hr']; rfl⟩
      rcases hresult with ⟨hsucceeds, hrun⟩ | ⟨hfails, e, hrun⟩
      · rw [hrun] at hstep
        cases hstep
        refine ⟨⟨hsound, hkept, ?_⟩, ?_⟩
        · intro id hid
          rcases List.mem_append.mp hid with hid | hid
          · exact (hlive id hid).2
          · rw [List.mem_singleton.mp hid, hadded.new]
            rfl
        · -- the new record is that of the new acceptor
          simp only [hsucceeds, or_true, and_true]
          constructor
          · intro hno id r hr
            obtain ⟨hne, hr'⟩ := hkeep id r hr
            rcases hno id r hr' with hold | hid
            · exact .inl hold
            · exact .inr ((List.mem_append.mp hid).resolve_right (by simpa using hne))
          · intro hno id r hr
            by_cases hid : id = x.id
            · exact .inr (List.mem_append_right _ (List.mem_singleton.mpr hid))
            · exact (hno id r ((hadded.other id hid).symm.trans hr)).imp_right
                (List.mem_append_left _)
      · rw [hrun] at hstep
        cases hstep
        refine ⟨⟨hsound, hkept, fun id hid => (hlive id hid).2⟩, ?_⟩
        -- the new record was not there, and no acceptor has its id
        simp only [hfails, reduceCtorEq, exists_false, Bool.false_eq_true, or_self, and_false,
          iff_false]
        intro hno
        rcases hno x.id _ hadded.new with hold | hid
        · have hlive := h.kept _ _ hold
          rw [hadded.old] at hlive
          cases hlive
        · exact (hlive _ hid).1 rfl
  next => cases hstep

/-- **The constructor is all or nothing** exactly if `socket()` fails or every call after it
succeeds. After a sequence of attempts every record that was not there at first is that of an
acceptor exactly if all attempts were of this kind. -/
theorem constructor_iff (h : s.Sound) :
    (∀ (reuse : Bool) (c : Calls), c.Allowed s →
      (AllOrNothing s ((construct reuse c).run (unopened s)) ↔ c.Settled reuse)) ∧
    ∀ (ls : List (Bool × Calls)) (a : Attempts κ),
      StepMachine.run Attempts.step { process := s } ls = some a →
        (a.NoLeak s ↔ ∀ l ∈ ls, l.2.Settled l.1) := by
  refine ⟨fun reuse c hc => allOrNothing_iff h hc, fun ls a hrun => ?_⟩
  have hinit : Attempts.Inv s { process := s } :=
    ⟨h, fun _ _ hr => hr, fun id hid => absurd hid List.not_mem_nil⟩
  have hno : Attempts.NoLeak s { process := s } := fun _ _ hr => .inl hr
  rw [StepMachine.state_iff_stepsAll Attempts.step (I := Attempts.Inv s)
    (fun _ _ _ hs hstep => (Attempts.step_spec hs hstep).1)
    (fun _ _ _ hs hstep => (Attempts.step_spec hs hstep).2) hinit hrun,
    StepMachine.stepsAll_labels Attempts.step (fun l => l.2.Settled l.1) hrun]
  simp only [hno, true_and]

/-- `bind()` fails: the constructor throws, and its socket stays open in the table. -/
theorem constructor_leaks :
    ∃ x : Acceptor LibeventContext,
      (construct false ⟨.ok 5, .ok 0, .fail 98, .ok 0⟩).run (unopened { ctx := {} }) =
        .error (.systemError ⟨98, .system⟩) x ∧
      x.process.opened = [5] ∧ x.process.table.record 0 = some { handle := 5, number := 0 } ∧
      ¬ AllOrNothing { ctx := {} } (.error (.systemError ⟨98, .system⟩) x) := by
  refine ⟨_, rfl, rfl, rfl, ?_⟩
  rintro ⟨hrecords, -⟩
  exact absurd (hrecords 0) (by decide)

/-- All calls succeed, once on each context; a `listen()` that fails leaks a record. -/
theorem constructor_iff_both :
    AllOrNothing ({ ctx := {} } : Process LibeventContext)
        ((construct true ⟨.ok 5, .ok 0, .ok 0, .ok 0⟩).run (unopened { ctx := {} })) ∧
      AllOrNothing ({ ctx := {} } : Process PollContext)
        ((construct true ⟨.ok 5, .ok 0, .ok 0, .ok 0⟩).run (unopened { ctx := {} })) ∧
      ∃ a, StepMachine.run Attempts.step { process := ({ ctx := {} } : Process LibeventContext) }
          [(true, ⟨.ok 5, .ok 0, .ok 0, .ok 0⟩), (false, ⟨.ok 6, .ok 0, .ok 0, .fail 98⟩)] =
            some a ∧
        ¬ a.NoLeak { ctx := {} } := by
  have hlibevent : Process.Sound ({ ctx := {} } : Process LibeventContext) :=
    Process.sound_initial rfl
  have hpoll : Process.Sound ({ ctx := {} } : Process PollContext) := Process.sound_initial rfl
  have hrun : StepMachine.run Attempts.step { process := ({ ctx := {} } : Process LibeventContext) }
      [(true, ⟨.ok 5, .ok 0, .ok 0, .ok 0⟩), (false, ⟨.ok 6, .ok 0, .ok 0, .fail 98⟩)] = some _ :=
    rfl
  refine ⟨((constructor_iff hlibevent).1 _ _ (by decide)).mpr (.inr rfl),
    ((constructor_iff hpoll).1 _ _ (by decide)).mpr (.inr rfl), _, hrun, ?_⟩
  rw [(constructor_iff hlibevent).2 _ _ hrun]
  intro hall
  rcases hall (false, ⟨.ok 6, .ok 0, .ok 0, .fail 98⟩) (by simp) with ⟨e, he⟩ | hsucceeds
  · cases he
  · cases hsucceeds

end Sequences

end Acceptor

end Stdnet
