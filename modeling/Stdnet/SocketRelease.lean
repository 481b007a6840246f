import Stdnet.LibeventContext
import Stdnet.Library.StepMachine
import Stdnet.Library.ThrowingPrograms
import Stdnet.PollContext

/-!
# Making and Releasing Sockets

`_Make_socket` and `_Release`, written statement by statement over a state that an exception does
not roll back: what was changed before a throw stays changed. The state also has the handles that
were opened through the context and not closed since.

## Main results

- `makeSocketFd_run`, `release_run`, `release_throws`: the two functions do to the socket table what
  `Table.makeSocket` and `Table.release` say, and a throw leaves nothing behind.
- `release_survives_misuse`: the table stays sound whatever ids are released.
-/

namespace Stdnet

open ThrowingPrograms

/-! ## Contexts -/

/-- Replacing the socket table of a context is what it says. -/
class LawfulContextBase (κ : Type) [ContextBase κ] : Prop where
  sockets_withSockets : ∀ (ctx : κ) (t : Table),
    ContextBase.sockets (ContextBase.withSockets ctx t) = t

instance : LawfulContextBase LibeventContext where
  sockets_withSockets _ _ := rfl

instance : LawfulContextBase PollContext where
  sockets_withSockets _ _ := rfl

/-- A context and the handles that were opened through it and not closed since. -/
structure Process (κ : Type) where
  ctx : κ
  opened : List Handle := []

/-- A member function: the state that it leaves is there whether it returns or throws. -/
abbrev Member (σ α : Type) := EStateM Fault σ α

namespace Process

variable {κ : Type} [ContextBase κ]

/-- `_D_sockets`. -/
def table (s : Process κ) : Table := ContextBase.sockets s.ctx

def withTable (s : Process κ) (t : Table) : Process κ :=
  { s with ctx := ContextBase.withSockets s.ctx t }

/-- The state with another table and other open handles. -/
def after (s : Process κ) (t : Table) (opened : List Handle) : Process κ :=
  { ctx := ContextBase.withSockets s.ctx t, opened := opened }

@[simp] theorem table_after [LawfulContextBase κ] (s : Process κ) (t : Table)
    (opened : List Handle) : (s.after t opened).table = t :=
  LawfulContextBase.sockets_withSockets s.ctx t

/-! ## The functions -/

/-- `this->_D_sockets[_Id]`. -/
def lookup (id : SocketId) : Member (Process κ) SocketRecord := fun s =>
  match s.table.container.get id with
  | .ok r => .ok r s
  | .error f => .error f s

/-- `this->_D_sockets._Insert(_Fd)`. -/
def insert (fd : Handle) : Member (Process κ) SocketId := fun s =>
  match s.table.makeSocket fd with
  | .ok (id, t) => .ok id (s.withTable t)
  | .error f => .error f s

/-- `this->_D_sockets._Erase(_Id)`; the number of the socket goes to the released ones. -/
def erase (id : SocketId) (number : ℕ) : Member (Process κ) Unit := fun s =>
  match s.table.container.erase id with
  | .ok c => .ok () (s.withTable
      { s.table with container := c, released := s.table.released ++ [number] })
  | .error f => .error f s

/-- The operating system opens a handle. -/
def openHandle (fd : Handle) : Member (Process κ) Unit := fun s =>
  .ok () { s with opened := s.opened ++ [fd] }

/-- `::close(_Handle)`, which frees the handle also when it reports an error. -/
def closeHandle (fd : Handle) (result : SysResult) : Member (Process κ) (Option ErrorCode) :=
  fun s => .ok result.errorCode { s with opened := s.opened.erase fd }

/-- `_Make_socket(int)`. -/
def makeSocketFd (fd : Handle) : Member (Process κ) SocketId :=
  insert fd

/-- `_Make_socket(int, int, int, std::error_code&)`: an error and `_Invalid` if `socket()` fails. -/
def makeSocket : SysResult → Member (Process κ) (SocketId × Option ErrorCode)
  | .fail e => pure (SocketId.invalid, (SysResult.fail e).errorCode)
  | .ok fd => do
    openHandle fd
    let id ← makeSocketFd fd
    return (id, none)

/-- A connection is accepted: `accept()` opens a handle, for which `_Accept` makes a socket. -/
def accepted (fd : Handle) : Member (Process κ) SocketId := do
  openHandle fd
  makeSocketFd fd

/-- `_Release`: the lookup, the erasure and the `close()`, in this order. -/
def release (id : SocketId) (close : SysResult) : Member (Process κ) (Option ErrorCode) := do
  let r ← lookup id
  erase id r.number
  closeHandle r.handle close

/-! ## What they do -/

section Runs

variable {s : Process κ} {fd : Handle} {id : SocketId} {t : Table}

theorem insert_run (h : s.table.makeSocket fd = .ok (id, t)) :
    (insert fd).run s = .ok id (s.withTable t) := by
  simp only [EStateM.run, insert, h]

/-- A handle that was accepted is put into the table. -/
theorem accepted_run (h : s.table.makeSocket fd = .ok (id, t)) :
    (accepted fd).run s = .ok id (s.after t (s.opened ++ [fd])) := by
  have hinsert : (makeSocketFd fd).run { s with opened := s.opened ++ [fd] } = .ok id _ :=
    insert_run h
  exact (run_bind_of_ok rfl).trans hinsert

/-- A handle that `socket()` returned is put into the table. -/
theorem makeSocket_run {n : ℕ} (h : s.table.makeSocket n = .ok (id, t)) :
    (makeSocket (.ok n)).run s =
      .ok (id, none) (s.after t (s.opened ++ [(n : Handle)])) := by
  have hinsert : (makeSocketFd n).run { s with opened := s.opened ++ [(n : Handle)] } = .ok id _ :=
    insert_run h
  exact (run_bind_of_ok rfl).trans (run_bind_of_ok hinsert)

/-- A `_Release` that returns does what `Table.release` says, and closes the record's handle. -/
theorem release_run {r : SocketRecord} {close : SysResult}
    {e : Option ErrorCode} (hr : s.table.record id = some r)
    (h : s.table.release id close = .ok (t, e)) :
    (release id close).run s = .ok e (s.after t (s.opened.erase r.handle)) := by
  have hget := Container.get_eq_ok.mpr hr
  have hlookup : (lookup id).run s = .ok r s := by
    simp only [EStateM.run, lookup, hget]
  simp only [Table.release, hget] at h
  -- an `_Erase` that throws is no `_Release` that returns
  split at h
  next => cases h
  next c hc =>
    obtain ⟨rfl, rfl⟩ := Prod.mk.inj (Except.ok.inj h)
    have herase : (erase id r.number).run s = .ok () (s.withTable
        { s.table with container := c, released := s.table.released ++ [r.number] }) := by
      simp only [EStateM.run, erase, hc]
    exact (run_bind_of_ok hlookup).trans (run_bind_of_ok herase)

/-- A `_Release` that throws has changed nothing: the lookup comes first. -/
theorem release_throws {f : Fault} (close : SysResult) (h : s.table.container.get id = .error f) :
    (release id close).run s = .error f s := by
  have hlookup : (lookup id).run s = .error f s := by
    simp only [EStateM.run, lookup, h]
  exact run_bind_of_error hlookup

end Runs

/-! ## The invariant -/

/-- The table is sound, and the handles that are open are those of the live records. -/
structure Sound (s : Process κ) : Prop where
  table : s.table.Ok
  nodup : s.opened.Nodup
  handles : ∀ fd, fd ∈ s.opened ↔ ∃ id r, s.table.record id = some r ∧ r.handle = fd

/-- What the operating system promises of a new handle: it is a non-negative `int`, and not one that
is open. -/
def Fresh (s : Process κ) (fd : Handle) : Prop :=
  0 ≤ fd ∧ fd < 2 ^ 31 ∧ fd ∉ s.opened

instance (s : Process κ) (fd : Handle) : Decidable (s.Fresh fd) :=
  inferInstanceAs (Decidable (_ ∧ _ ∧ _))

/-- A socket was made. -/
structure Added (s s' : Process κ) (id : SocketId) (fd : Handle) : Prop where
  ok : s'.table.Ok
  insert : s.table.makeSocket fd = .ok (id, s'.table)
  made : s'.table.made = s.table.made + 1
  old : s.table.record id = none
  new : s'.table.record id = some { handle := fd, number := s.table.made }
  other : ∀ id', id' ≠ id → s'.table.record id' = s.table.record id'
  opened : s'.opened = s.opened ++ [fd]

/-- A socket was released. -/
structure Removed (s s' : Process κ) (id : SocketId) (r : SocketRecord) : Prop where
  ok : s'.table.Ok
  made : s'.table.made = s.table.made
  old : s.table.record id = some r
  new : s'.table.record id = none
  other : ∀ id', id' ≠ id → s'.table.record id' = s.table.record id'
  opened : s'.opened = s.opened.erase r.handle

section Invariant

variable {s s' : Process κ} {fd : Handle} {id : SocketId} {r : SocketRecord}

theorem Sound.fresh (h : Sound s) (hfd : s.Fresh fd) : s.table.Fresh fd :=
  h.table.fresh hfd.1 hfd.2.1 fun id r hr hhandle =>
    hfd.2.2 ((h.handles fd).mpr ⟨id, r, hr, hhandle⟩)

theorem Sound.handle_inj (h : Sound s) {id' : SocketId} {r' : SocketRecord}
    (hr : s.table.record id = some r) (hr' : s.table.record id' = some r')
    (heq : r.handle = r'.handle) : id = id' :=
  BitVec.eq_of_toNat_eq (h.table.handles id.toNat id'.toNat r r' hr hr' heq)

theorem Added.sound (h : Sound s) (hadded : Added s s' id fd) (hfd : fd ∉ s.opened) :
    Sound s' where
  table := hadded.ok
  nodup := by
    rw [hadded.opened]
    exact List.nodup_append.mpr ⟨h.nodup, List.nodup_singleton _, fun a ha b hb hab =>
      hfd (List.mem_singleton.mp hb ▸ hab ▸ ha)⟩
  handles fd' := by
    rw [hadded.opened, List.mem_append, List.mem_singleton, h.handles]
    constructor
    -- the new record is under an id that was free, so the old ones stay
    · rintro (⟨id', r, hr, hhandle⟩ | rfl)
      · have hne : id' ≠ id := by
          rintro rfl
          rw [hadded.old] at hr
          cases hr
        exact ⟨id', r, (hadded.other id' hne).trans hr, hhandle⟩
      · exact ⟨id, _, hadded.new, rfl⟩
    · rintro ⟨id', r, hr, hhandle⟩
      by_cases hid : id' = id
      · subst hid
        rw [hadded.new] at hr
        cases hr
        exact .inr hhandle.symm
      · exact .inl ⟨id', r, (hadded.other id' hid).symm.trans hr, hhandle⟩

theorem Removed.sound (h : Sound s) (hremoved : Removed s s' id r) : Sound s' where
  table := hremoved.ok
  nodup := by
    rw [hremoved.opened]
    exact h.nodup.erase _
  handles fd := by
    rw [hremoved.opened, h.nodup.mem_erase_iff, h.handles]
    constructor
    · rintro ⟨hne, id', r', hr', hhandle⟩
      have hid : id' ≠ id := by
        rintro rfl
        rw [hremoved.old] at hr'
        cases hr'
        exact hne hhandle.symm
      exact ⟨id', r', (hremoved.other id' hid).trans hr', hhandle⟩
    · rintro ⟨id', r', hr', hhandle⟩
      have hid : id' ≠ id := by
        rintro rfl
        rw [hremoved.new] at hr'
        cases hr'
      rw [hremoved.other id' hid] at hr'
      -- no other record had the handle that was closed
      refine ⟨fun hclosed => hid ?_, id', r', hr', hhandle⟩
      exact h.handle_inj hr' hremoved.old (hhandle.trans hclosed)

end Invariant

/-! ## Specifications -/

section Specifications

variable [LawfulContextBase κ] {s : Process κ} {fd : Handle} {id : SocketId} {r : SocketRecord}

/-- What the table and the open handles are after a new handle was put into the table. -/
theorem added_after (h : s.table.Ok) (hfd : s.table.Fresh fd) :
    ∃ id t, s.table.makeSocket fd = .ok (id, t) ∧
      Added s (s.after t (s.opened ++ [fd])) id fd := by
  obtain ⟨id, t, hmake, hok, hold, hnew, hother, hmade, -⟩ := Table.makeSocket_spec h hfd
  refine ⟨id, t, hmake, ?_, ?_, ?_, hold, ?_, ?_, rfl⟩ <;> rw [table_after]
  · exact hok
  · exact hmake
  · exact hmade
  · exact hnew
  · exact hother

theorem accepted_spec (h : s.table.Ok) (hfd : s.table.Fresh fd) :
    ∃ id s', (accepted fd).run s = .ok id s' ∧ Added s s' id fd := by
  obtain ⟨id, t, hmake, hadded⟩ := added_after h hfd
  exact ⟨id, _, accepted_run hmake, hadded⟩

theorem makeSocket_spec {n : ℕ} (h : s.table.Ok) (hfd : s.table.Fresh n) :
    ∃ id s', (makeSocket (.ok n)).run s = .ok (id, none) s' ∧ Added s s' id n := by
  obtain ⟨id, t, hmake, hadded⟩ := added_after h hfd
  exact ⟨id, _, makeSocket_run hmake, hadded⟩

/-- A `_Release` of a live id returns, whatever `close()` reports. -/
theorem release_spec (h : s.table.Ok) (hr : s.table.record id = some r) (close : SysResult) :
    ∃ s', (release id close).run s = .ok close.errorCode s' ∧ Removed s s' id r := by
  obtain ⟨t, hrelease, hok, hgone, hother, hmade, -⟩ := Table.release_spec h hr close
  refine ⟨_, release_run hr hrelease, ?_, ?_, hr, ?_, ?_, rfl⟩ <;> rw [table_after]
  · exact hok
  · exact hmade
  · exact hgone
  · exact hother

omit [LawfulContextBase κ] in
/-- A `_Release` of a free slot throws, and nothing has changed. -/
theorem release_free (hlt : id.toNat < s.table.container.records.length)
    (hr : s.table.record id = none) (close : SysResult) :
    (Process.release id close).run s = .error .badVariantAccess s := by
  refine release_throws close ?_
  rcases Container.next_or_recordAt hlt with ⟨n, hn, -⟩ | ⟨r, hr', -⟩
  · simp only [Container.get, Container.next_eq_some.mp hn]
  · rw [Table.record, hr'] at hr
    cases hr

end Specifications

/-! ## Sequences of calls -/

/-- The calls that make and release sockets. -/
inductive SocketCall where
  | makeSocket (socket : SysResult)
  | accepted (fd : Handle)
  | release (id : SocketId) (close : SysResult)

/-- The state that a call leaves, whether it returns or throws. -/
def SocketCall.leaves (s : Process κ) : SocketCall → Process κ
  | .makeSocket socket => left (Process.makeSocket socket) s
  | .accepted fd => left (Process.accepted fd) s
  | .release id close => left (Process.release id close) s

/-- New handles are fresh; any id below the number of slots may be released. -/
def SocketCall.Allowed (s : Process κ) : SocketCall → Prop
  | .makeSocket (.ok n) => s.Fresh n
  | .makeSocket (.fail _) => True
  | .accepted fd => s.Fresh fd
  | .release id _ => id.toNat < s.table.container.records.length

instance (s : Process κ) (k : SocketCall) : Decidable (k.Allowed s) :=
  match k with
  | .makeSocket (.ok n) => inferInstanceAs (Decidable (s.Fresh n))
  | .makeSocket (.fail _) => inferInstanceAs (Decidable True)
  | .accepted fd => inferInstanceAs (Decidable (s.Fresh fd))
  | .release id _ => inferInstanceAs (Decidable (id.toNat < s.table.container.records.length))

/-- One call. -/
def step (s : Process κ) (k : SocketCall) : Option (Process κ) :=
  if k.Allowed s then some (k.leaves s) else none

section Calls

variable [LawfulContextBase κ] {s s' : Process κ} {ctx : κ}

omit [LawfulContextBase κ] in
theorem sound_initial (h : ContextBase.sockets ctx = {}) : Sound { ctx := ctx } where
  table := by
    simp only [table, h]
    exact Table.ok_empty
  nodup := List.nodup_nil
  handles fd := by
    simp [table, h, Table.record, Container.recordAt]

/-- **Step lemma**: every call, also one that throws, keeps the invariant. -/
theorem sound_step (s : Process κ) (k : SocketCall) (s' : Process κ) (h : Sound s)
    (hstep : s.step k = some s') : Sound s' := by
  simp only [step] at hstep
  split at hstep
  next hallowed =>
    cases hstep
    cases k with
    | makeSocket socket =>
      cases socket with
      | fail e => exact h
      | ok n =>
        obtain ⟨id, t, hrun, hadded⟩ := makeSocket_spec h.table (h.fresh hallowed)
        rw [SocketCall.leaves, left_of_ok hrun]
        exact hadded.sound h hallowed.2.2
    | accepted fd =>
      obtain ⟨id, t, hrun, hadded⟩ := accepted_spec h.table (h.fresh hallowed)
      rw [SocketCall.leaves, left_of_ok hrun]
      exact hadded.sound h hallowed.2.2
    | release id close =>
      -- a live id is released, any other is refused
      cases hr : s.table.record id with
      | some r =>
        obtain ⟨t, hrun, hremoved⟩ := release_spec h.table hr close
        rw [SocketCall.leaves, left_of_ok hrun]
        exact hremoved.sound h
      | none =>
        rwa [SocketCall.leaves, left_of_error (release_free hallowed hr close)]
  next => cases hstep

/-- **Run lemma**. -/
theorem sound_run (h : ContextBase.sockets ctx = {}) {ks : List SocketCall}
    (hrun : StepMachine.run step { ctx := ctx } ks = some s) : Sound s :=
  StepMachine.run_invariant step sound_step (sound_initial h) hrun

/-- **The socket table survives misuse of `_Release`.** After any calls of `_Make_socket` and of
`_Release`, with ids that are live or not: the free list is well formed, live records have distinct
handles, and the open handles are exactly theirs; `_Release` of an id that is not live throws and
changes nothing; `_Release` of a live id removes its record and closes its handle, and no other,
whatever `close()` reports. -/
theorem release_survives_misuse (h : ContextBase.sockets ctx = {}) {ks : List SocketCall}
    (hrun : StepMachine.run step { ctx := ctx } ks = some s) :
    (∃ path, s.table.container.WellFormed path) ∧
      (∀ id id' r r', s.table.record id = some r → s.table.record id' = some r' →
        r.handle = r'.handle → id = id') ∧
      s.opened.Nodup ∧
      (∀ fd, fd ∈ s.opened ↔ ∃ id r, s.table.record id = some r ∧ r.handle = fd) ∧
      (∀ id close, id.toNat < s.table.container.records.length → s.table.record id = none →
        (release id close).run s = .error .badVariantAccess s) ∧
      ∀ id close r, s.table.record id = some r →
        ∃ s', (release id close).run s = .ok close.errorCode s' ∧ s'.table.record id = none ∧
          (∀ id', id' ≠ id → s'.table.record id' = s.table.record id') ∧
          r.handle ∉ s'.opened ∧ ∀ fd, fd ≠ r.handle → (fd ∈ s'.opened ↔ fd ∈ s.opened) := by
  have hsound := sound_run h hrun
  refine ⟨hsound.table.wellFormed, fun id id' r r' => hsound.handle_inj, hsound.nodup,
    hsound.handles, fun id close hlt hr => release_free hlt hr close, fun id close r hr => ?_⟩
  obtain ⟨s', hrelease, hremoved⟩ := release_spec hsound.table hr close
  refine ⟨s', hrelease, hremoved.new, hremoved.other, ?_, fun fd hfd => ?_⟩
  · rw [hremoved.opened]
    exact hsound.nodup.not_mem_erase
  · rw [hremoved.opened, List.mem_erase_of_ne hfd]

/-- A socket is released, which `close()` reports an error for, and released again; the connection
that is accepted then gets its handle and its id. -/
def misuse : List SocketCall :=
  [.makeSocket (.ok 5), .release 0 (.fail 4), .release 0 (.ok 0), .accepted 5]

/-- On one context the id is live again and can be released, on the other its second release is
refused. -/
theorem release_survives_misuse_reuse :
    (∃ s : Process LibeventContext, StepMachine.run step { ctx := {} } misuse = some s ∧
      s.opened = [5] ∧ ∃ s', (release 0 (.fail 4)).run s = .ok (some ⟨4, .system⟩) s' ∧
        5 ∉ s'.opened) ∧
      ∃ s : Process PollContext, StepMachine.run step { ctx := {} } (misuse.take 2) = some s ∧
        s.opened = [] ∧ (release 0 (.ok 0)).run s = .error .badVariantAccess s := by
  have hlibevent : StepMachine.run step ({ ctx := {} } : Process LibeventContext) misuse = some _ :=
    rfl
  have hpoll :
      StepMachine.run step ({ ctx := {} } : Process PollContext) (misuse.take 2) = some _ :=
    rfl
  obtain ⟨-, -, -, -, -, hlive⟩ := release_survives_misuse rfl hlibevent
  obtain ⟨-, -, -, -, hfree, -⟩ := release_survives_misuse rfl hpoll
  obtain ⟨s', hrelease, -, -, hclosed, -⟩ := hlive 0 (.fail 4) _ rfl
  exact ⟨⟨_, hlibevent, rfl, s', hrelease, hclosed⟩, _, hpoll, rfl, hfree 0 (.ok 0) (by decide) rfl⟩

end Calls

end Process

end Stdnet
