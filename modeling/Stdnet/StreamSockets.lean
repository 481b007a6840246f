import Stdnet.Acceptor

/-!
# Ownership of Stream Sockets

Any number of contexts, which share the handles of the process, and the `basic_stream_socket`s that
are constructed for an endpoint or delivered by an accept completion, moved into new objects and
destroyed. `_D_id` is the only thing that says whether an object owns a socket.

Every object is accompanied by the record of the socket that was handed to it, and the program by
the `close()`s that the destructors made; no function reads these.

## Main results

- `Owned.step`: every record belongs to an acceptor or to one object, and every object whose id is
  used has a record until it is destroyed.
- `streams_own_sockets`: what follows for whole runs.
-/

namespace Stdnet

open ListEntries ThrowingPrograms

/-! ## Objects -/

/-- `_S_unused`. -/
def unusedId : SocketId := 0xffffffff

/-- A `basic_stream_socket`. -/
structure StreamSocket where
  /-- `_D_context` -/
  context : ℕ
  /-- `_D_id` -/
  id : SocketId
  /-- the record of the socket that was handed to the object -/
  socket : Option SocketRecord
  alive : Bool := true
  deriving DecidableEq, Repr

/-- What the destructor tests. -/
def StreamSocket.isUsed (x : StreamSocket) : Bool :=
  x.id != unusedId

/-- The contexts, the handles that are open, the open acceptors, each with its context, the stream
sockets in the order of their construction, and the handles that a destructor closed, each with the
object that was destroyed. -/
structure Streams (κ : Type) where
  contexts : List κ
  opened : List Handle := []
  acceptors : List (ℕ × SocketId) := []
  objects : List StreamSocket := []
  closes : List (ℕ × Handle) := []

namespace Streams

variable {κ : Type} [ContextBase κ]

/-- A context, with the open handles of the whole process. -/
def focus (s : Streams κ) (i : ℕ) : Option (Process κ) :=
  s.contexts[i]?.map fun ctx => { ctx := ctx, opened := s.opened }

/-- What a call of a member function of a context leaves. -/
def putBack (s : Streams κ) (i : ℕ) (p : Process κ) : Streams κ :=
  { s with contexts := s.contexts.set i p.ctx, opened := p.opened }

/-- The live record under an id of a context. -/
def record (s : Streams κ) (i : ℕ) (id : SocketId) : Option SocketRecord :=
  (s.focus i).bind fun p => p.table.record id

/-- The number of sockets that a context has made. -/
def made (s : Streams κ) (i : ℕ) : ℕ :=
  ((s.focus i).map fun p => p.table.made).getD 0

/-- `basic_socket(context, id)` for a socket that the context has made. -/
def handOver (s : Streams κ) (i : ℕ) (p : Process κ) (id : SocketId) : Streams κ :=
  { s.putBack i p with
    objects := s.objects ++ [{ context := i, id := id, socket := p.table.record id }] }

/-- The lambda in the constructor for an endpoint: an error of `socket()` is thrown. -/
def makeStream (socket : SysResult) : EStateM Exn (Process κ) SocketId := do
  let (id, failure) ← EStateM.adaptExcept Exn.fault (Process.makeSocket socket)
  let error := failure.getD .clear
  if error.isError then throw (.systemError error)
  return id

/-- The object, if it is alive. -/
def living (s : Streams κ) (j : ℕ) : Option StreamSocket :=
  s.objects[j]?.filter fun x => x.alive

/-! ## Steps -/

inductive Label where
  /-- the constructor of an acceptor returns -/
  | openAcceptor (i : ℕ) (reuse : Bool) (c : Acceptor.Calls)
  /-- a stream socket is constructed for an endpoint -/
  | construct (i : ℕ) (socket : SysResult)
  /-- `async_accept` on an acceptor completes with a stream socket -/
  | accept (a : ℕ) (fd : Handle)
  /-- the move constructor -/
  | move (j : ℕ)
  | destroy (j : ℕ) (close : SysResult)

/-- One step. An exception that leaves the destructor, which is `noexcept`, ends the program. -/
def step (s : Streams κ) : Label → Option (Streams κ)
  | .openAcceptor i reuse c =>
    (s.focus i).bind fun p =>
      if c.Allowed p then
        match (Acceptor.construct reuse c).run (Acceptor.unopened p) with
        | .ok _ x => some { s.putBack i x.process with acceptors := s.acceptors ++ [(i, x.id)] }
        | .error _ _ => none
      else none
  | .construct i socket =>
    (s.focus i).bind fun p =>
      if Acceptor.OpenCall.Allowed p socket then
        match (makeStream socket).run p with
        | .ok id p' => some (s.handOver i p' id)
        -- no object, whose destructor would be run
        | .error _ p' => some (s.putBack i p')
      else none
  | .accept a fd =>
    s.acceptors[a]?.bind fun acceptor =>
      (s.focus acceptor.1).bind fun p =>
        if p.Fresh fd then
          match (Process.accepted fd).run p with
          | .ok id p' => some (s.handOver acceptor.1 p' id)
          | .error _ _ => none
        else none
  | .move j =>
    (s.living j).map fun x =>
      -- `std::exchange(_Other._D_id, _S_unused)`
      { s with
        objects := s.objects.set j { x with id := unusedId } ++
          [{ context := x.context, id := x.id, socket := if x.isUsed then x.socket else none }] }
  | .destroy j close =>
    (s.living j).bind fun x =>
      if x.isUsed then
        (s.focus x.context).bind fun p =>
          match (Process.release x.id close).run p with
          | .ok _ p' =>
            some { s.putBack x.context p' with
              objects := s.objects.set j { x with alive := false }
              closes := s.closes ++
                ((p.table.record x.id).map fun r => (j, r.handle)).toList }
          | .error _ _ => none
      else some { s with objects := s.objects.set j { x with alive := false } }

/-! ## The contexts and the handles -/

/-- The tables are sound, and the handles that are open are those of the live records of all
contexts, which are distinct. -/
structure Base (s : Streams κ) : Prop where
  ok : ∀ i p, s.focus i = some p → p.table.Ok
  nodup : s.opened.Nodup
  handles : ∀ fd, fd ∈ s.opened ↔ ∃ i id r, s.record i id = some r ∧ r.handle = fd
  inj : ∀ i j id id' r r', s.record i id = some r → s.record j id' = some r' →
    r.handle = r'.handle → i = j ∧ id = id'

/-- A socket was made in a context. -/
structure Grown (s s' : Streams κ) (i : ℕ) (id : SocketId) (r : SocketRecord) : Prop where
  ok : ∀ j p, s'.focus j = some p → p.table.Ok
  old : s.record i id = none
  new : s'.record i id = some r
  other : ∀ j id', (j, id') ≠ (i, id) → s'.record j id' = s.record j id'
  opened : s'.opened = s.opened ++ [r.handle]
  fresh : r.handle ∉ s.opened
  number : r.number = s.made i
  made : ∀ j, s'.made j = if j = i then s.made i + 1 else s.made j

/-- A socket of a context was released. -/
structure Shrunk (s s' : Streams κ) (i : ℕ) (id : SocketId) (r : SocketRecord) : Prop where
  ok : ∀ j p, s'.focus j = some p → p.table.Ok
  old : s.record i id = some r
  new : s'.record i id = none
  other : ∀ j id', (j, id') ≠ (i, id) → s'.record j id' = s.record j id'
  opened : s'.opened = s.opened.erase r.handle
  made : ∀ j, s'.made j = s.made j

section Base

variable {s s' : Streams κ} {i j : ℕ} {p p' : Process κ} {id : SocketId} {r : SocketRecord}

omit [ContextBase κ] in
theorem focus_lt (h : s.focus i = some p) : i < s.contexts.length := by
  simp only [focus, Option.map_eq_some_iff] at h
  obtain ⟨ctx, hctx, -⟩ := h
  exact (List.getElem?_eq_some_iff.mp hctx).1

omit [ContextBase κ] in
theorem opened_of_focus (h : s.focus i = some p) : p.opened = s.opened := by
  simp only [focus, Option.map_eq_some_iff] at h
  obtain ⟨ctx, -, rfl⟩ := h
  rfl

omit [ContextBase κ] in
theorem focus_putBack_self (h : s.focus i = some p) : (s.putBack i p').focus i = some p' := by
  simp only [focus, putBack, List.getElem?_set_self (focus_lt h), Option.map_some]

omit [ContextBase κ] in
theorem focus_putBack_ne (h : j ≠ i) :
    (s.putBack i p').focus j = (s.focus j).map fun p => { p with opened := p'.opened } := by
  simp only [focus, putBack, List.getElem?_set_ne (Ne.symm h), Option.map_map, Function.comp_def]

theorem record_putBack_self (h : s.focus i = some p) :
    (s.putBack i p').record i id = p'.table.record id := by
  simp only [record, focus_putBack_self h, Option.bind_some]

theorem record_putBack_ne (h : j ≠ i) : (s.putBack i p').record j id = s.record j id := by
  simp only [record, focus_putBack_ne h, Option.bind_map]
  rfl

theorem record_of_focus (h : s.focus i = some p) : s.record i id = p.table.record id := by
  simp only [record, h, Option.bind_some]

theorem made_of_focus (h : s.focus i = some p) : s.made i = p.table.made := by
  simp only [made, h, Option.map_some, Option.getD_some]

theorem made_putBack (h : s.focus i = some p) :
    (s.putBack i p').made j = if j = i then p'.table.made else s.made j := by
  split
  next heq =>
    rw [heq, made_of_focus (focus_putBack_self h)]
  next hne =>
    simp only [made, focus_putBack_ne hne, Option.map_map]
    rfl

theorem other_putBack (h : s.focus i = some p)
    (hother : ∀ id', id' ≠ id → p'.table.record id' = p.table.record id') {id' : SocketId}
    (hne : (j, id') ≠ (i, id)) : (s.putBack i p').record j id' = s.record j id' := by
  by_cases hj : j = i
  · subst hj
    have hid : id' ≠ id := fun heq => hne (heq ▸ rfl)
    rw [record_putBack_self h, record_of_focus h, hother id' hid]
  · rw [record_putBack_ne hj]

theorem Base.ok_putBack (hbase : Base s) (h : s.focus i = some p) (hok : p'.table.Ok)
    {q : Process κ} (hq : (s.putBack i p').focus j = some q) : q.table.Ok := by
  by_cases hj : j = i
  · subst hj
    rw [focus_putBack_self h] at hq
    exact Option.some.inj hq ▸ hok
  · rw [focus_putBack_ne hj, Option.map_eq_some_iff] at hq
    obtain ⟨q', hq', rfl⟩ := hq
    exact hbase.ok j q' hq'

/-- What the member functions say of their context holds of the program. -/
theorem Base.grown (hbase : Base s) (h : s.focus i = some p) {fd : Handle}
    (hadded : Process.Added p p' id fd) (hfd : fd ∉ s.opened) :
    Grown s (s.putBack i p') i id { handle := fd, number := p.table.made } where
  ok j q := hbase.ok_putBack h hadded.ok
  old := (record_of_focus h).trans hadded.old
  new := (record_putBack_self h).trans hadded.new
  other j id' := other_putBack h hadded.other
  opened := by
    rw [← opened_of_focus h]
    exact hadded.opened
  fresh := hfd
  number := (made_of_focus h).symm
  made j := by
    rw [made_putBack h, hadded.made, made_of_focus h]

theorem Base.shrunk (hbase : Base s) (h : s.focus i = some p)
    (hremoved : Process.Removed p p' id r) : Shrunk s (s.putBack i p') i id r where
  ok j q := hbase.ok_putBack h hremoved.ok
  old := (record_of_focus h).trans hremoved.old
  new := (record_putBack_self h).trans hremoved.new
  other j id' := other_putBack h hremoved.other
  opened := by
    rw [← opened_of_focus h]
    exact hremoved.opened
  made j := by
    rw [made_putBack h, hremoved.made]
    split
    next heq => rw [heq, made_of_focus h]
    next => rfl

/-- Only the contexts and the open handles matter. -/
theorem Grown.congr {t : Streams κ} (h : Grown s t i id r) (hcontexts : s'.contexts = t.contexts)
    (hopened : s'.opened = t.opened) : Grown s s' i id r := by
  cases t
  cases s'
  subst hcontexts hopened
  exact ⟨h.ok, h.old, h.new, h.other, h.opened, h.fresh, h.number, h.made⟩

theorem Shrunk.congr {t : Streams κ} (h : Shrunk s t i id r) (hcontexts : s'.contexts = t.contexts)
    (hopened : s'.opened = t.opened) : Shrunk s s' i id r := by
  cases t
  cases s'
  subst hcontexts hopened
  exact ⟨h.ok, h.old, h.new, h.other, h.opened, h.made⟩

/-- A handle that is not open is not that of a record. -/
theorem Base.fresh (hbase : Base s) (h : s.focus i = some p) {fd : Handle} (hfd : p.Fresh fd) :
    p.table.Fresh fd := by
  refine (hbase.ok i p h).fresh hfd.1 hfd.2.1 fun id r hr hhandle => hfd.2.2 ?_
  rw [opened_of_focus h, hbase.handles]
  exact ⟨i, id, r, (record_of_focus h).trans hr, hhandle⟩

theorem Grown.base (hbase : Base s) (h : Grown s s' i id r) : Base s' where
  ok := h.ok
  nodup := by
    rw [h.opened]
    exact List.nodup_append.mpr ⟨hbase.nodup, List.nodup_singleton _, fun a ha b hb hab =>
      h.fresh (List.mem_singleton.mp hb ▸ hab ▸ ha)⟩
  handles fd := by
    rw [h.opened, List.mem_append, List.mem_singleton, hbase.handles]
    constructor
    · rintro (⟨j, id', r', hr', hhandle⟩ | rfl)
      · have hne : (j, id') ≠ (i, id) := by
          rintro heq
          obtain ⟨rfl, rfl⟩ := Prod.mk.inj heq
          rw [h.old] at hr'
          cases hr'
        exact ⟨j, id', r', (h.other j id' hne).trans hr', hhandle⟩
      · exact ⟨i, id, r, h.new, rfl⟩
    · rintro ⟨j, id', r', hr', hhandle⟩
      by_cases hne : (j, id') = (i, id)
      · obtain ⟨rfl, rfl⟩ := Prod.mk.inj hne
        rw [h.new] at hr'
        exact .inr (Option.some.inj hr' ▸ hhandle.symm)
      · exact .inl ⟨j, id', r', (h.other j id' hne).symm.trans hr', hhandle⟩
  inj := by
    -- the new handle is not that of an old record
    have hnew : ∀ j id' r', (j, id') ≠ (i, id) → s'.record j id' = some r' →
        r'.handle ≠ r.handle := by
      intro j id' r' hne hr' heq
      refine h.fresh (heq ▸ (hbase.handles _).mpr ⟨j, id', r', ?_, rfl⟩)
      rw [← h.other j id' hne, hr']
    intro j k id₁ id₂ r₁ r₂ h₁ h₂ heq
    by_cases hj : (j, id₁) = (i, id) <;> by_cases hk : (k, id₂) = (i, id)
    · obtain ⟨rfl, rfl⟩ := Prod.mk.inj hj
      obtain ⟨rfl, rfl⟩ := Prod.mk.inj hk
      exact ⟨rfl, rfl⟩
    · obtain ⟨rfl, rfl⟩ := Prod.mk.inj hj
      rw [h.new] at h₁
      exact absurd (Option.some.inj h₁ ▸ heq.symm) (hnew k id₂ r₂ hk h₂)
    · obtain ⟨rfl, rfl⟩ := Prod.mk.inj hk
      rw [h.new] at h₂
      exact absurd (Option.some.inj h₂ ▸ heq) (hnew j id₁ r₁ hj h₁)
    · exact hbase.inj j k id₁ id₂ r₁ r₂ (h.other j id₁ hj ▸ h₁) (h.other k id₂ hk ▸ h₂) heq

theorem Shrunk.base (hbase : Base s) (h : Shrunk s s' i id r) : Base s' where
  ok := h.ok
  nodup := by
    rw [h.opened]
    exact hbase.nodup.erase _
  handles fd := by
    rw [h.opened, hbase.nodup.mem_erase_iff, hbase.handles]
    constructor
    · rintro ⟨hne, j, id', r', hr', hhandle⟩
      refine ⟨j, id', r', (h.other j id' ?_).trans hr', hhandle⟩
      intro heq
      obtain ⟨rfl, rfl⟩ := Prod.mk.inj heq
      rw [h.old] at hr'
      exact hne (Option.some.inj hr' ▸ hhandle.symm)
    · rintro ⟨j, id', r', hr', hhandle⟩
      have hne : (j, id') ≠ (i, id) := by
        intro heq
        obtain ⟨rfl, rfl⟩ := Prod.mk.inj heq
        rw [h.new] at hr'
        cases hr'
      rw [h.other j id' hne] at hr'
      -- no other record had the handle that was closed
      refine ⟨fun hclosed => hne ?_, j, id', r', hr', hhandle⟩
      obtain ⟨rfl, rfl⟩ := hbase.inj j i id' id r' r hr' h.old (hhandle.trans hclosed)
      rfl
  inj j k id₁ id₂ r₁ r₂ h₁ h₂ heq := by
    have hkeep : ∀ j id' r', s'.record j id' = some r' → s.record j id' = some r' := by
      intro j id' r' hr'
      rw [← h.other j id' ?_, hr']
      intro heq
      obtain ⟨rfl, rfl⟩ := Prod.mk.inj heq
      rw [h.new] at hr'
      cases hr'
    exact hbase.inj j k id₁ id₂ r₁ r₂ (hkeep j id₁ r₁ h₁) (hkeep k id₂ r₂ h₂) heq

end Base

/-! ## What a step can do -/

section Step

variable {s s' : Streams κ} {l : Label} {p p' : Process κ} {id : SocketId}

omit [ContextBase κ] in
theorem putBack_focus {i : ℕ} (h : s.focus i = some p) : s.putBack i p = s := by
  simp only [focus, Option.map_eq_some_iff] at h
  obtain ⟨ctx, hctx, rfl⟩ := h
  have hset : s.contexts.set i ctx = s.contexts := by
    obtain ⟨hlt, rfl⟩ := List.getElem?_eq_some_iff.mp hctx
    exact List.set_getElem_self hlt
  simp only [putBack, hset]

/-- `socket()` fails: the constructor throws and nothing has changed. -/
theorem makeStream_fail {e : ℤ} (he : e ≠ 0) :
    (makeStream (.fail e)).run p = .error (.systemError ⟨e, .system⟩) p := by
  have hmake : (EStateM.adaptExcept Exn.fault (Process.makeSocket (.fail e))).run p =
      .ok (SocketId.invalid, some ⟨e, .system⟩) p := rfl
  rw [makeStream, run_bind_of_ok hmake]
  simp only [Option.getD_some, ErrorCode.isError_of_ne he, if_true]
  rfl

theorem makeStream_ok {n : ℕ} (h : (Process.makeSocket (.ok n)).run p = .ok (id, none) p') :
    (makeStream (.ok n)).run p = .ok id p' := by
  have hmake : (EStateM.adaptExcept Exn.fault (Process.makeSocket (.ok n))).run p =
      .ok (id, none) p' := by
    rw [EStateM.run_adaptExcept, h]
  rw [makeStream, run_bind_of_ok hmake]
  rfl

/-- A socket was made and handed to a new object. -/
structure Handed (s s' : Streams κ) (i : ℕ) (id : SocketId) (r : SocketRecord) : Prop where
  grown : Grown s s' i id r
  acceptors : s'.acceptors = s.acceptors
  objects : s'.objects = s.objects ++ [{ context := i, id := id, socket := some r }]
  closes : s'.closes = s.closes

/-- What a step can do, with everything that it requires. -/
inductive StepCases (s : Streams κ) (s' : Streams κ) : Label → Prop where
  | opened {i : ℕ} {reuse : Bool} {c : Acceptor.Calls} {id : SocketId} {r : SocketRecord}
      (h : Grown s s' i id r) (hacceptors : s'.acceptors = s.acceptors ++ [(i, id)])
      (hobjects : s'.objects = s.objects) (hcloses : s'.closes = s.closes) :
      StepCases s s' (.openAcceptor i reuse c)
  | constructed {i : ℕ} {socket : SysResult} {id : SocketId} {r : SocketRecord}
      (h : Handed s s' i id r) : StepCases s s' (.construct i socket)
  | threw {i : ℕ} {socket : SysResult} (h : s' = s) : StepCases s s' (.construct i socket)
  | accepted {a i : ℕ} {fd : Handle} {id : SocketId} {r : SocketRecord}
      (h : Handed s s' i id r) : StepCases s s' (.accept a fd)
  | moved {j : ℕ} {x : StreamSocket} (hx : s.objects[j]? = some x) (halive : x.alive = true)
      (h : s' = { s with
        objects := s.objects.set j { x with id := unusedId } ++
          [{ context := x.context, id := x.id, socket := if x.isUsed then x.socket else none }] }) :
      StepCases s s' (.move j)
  | closed {j : ℕ} {x : StreamSocket} {r : SocketRecord} {close : SysResult}
      (hx : s.objects[j]? = some x) (halive : x.alive = true) (hused : x.isUsed = true)
      (h : Shrunk s s' x.context x.id r) (hacceptors : s'.acceptors = s.acceptors)
      (hobjects : s'.objects = s.objects.set j { x with alive := false })
      (hcloses : s'.closes = s.closes ++ [(j, r.handle)]) : StepCases s s' (.destroy j close)
  | dropped {j : ℕ} {x : StreamSocket} {close : SysResult} (hx : s.objects[j]? = some x)
      (halive : x.alive = true) (hunused : x.isUsed = false)
      (h : s' = { s with objects := s.objects.set j { x with alive := false } }) :
      StepCases s s' (.destroy j close)

omit [ContextBase κ] in
theorem living_eq_some {j : ℕ} {x : StreamSocket} (h : s.living j = some x) :
    s.objects[j]? = some x ∧ x.alive = true := by
  simpa [living, Option.filter_eq_some_iff] using h

theorem Base.handed (hbase : Base s) {i : ℕ} (h : s.focus i = some p) {fd : Handle}
    (hadded : Process.Added p p' id fd) (hfd : fd ∉ p.opened) :
    Handed s (s.handOver i p' id) i id { handle := fd, number := p.table.made } where
  grown := (hbase.grown h hadded (opened_of_focus h ▸ hfd)).congr rfl rfl
  acceptors := rfl
  objects := by
    simp only [handOver, hadded.new]
  closes := rfl

/-- **Inversion of a step**. -/
theorem step_cases [LawfulContextBase κ] (hbase : Base s) (hstep : s.step l = some s') :
    StepCases s s' l := by
  cases l with
  | openAcceptor i reuse c =>
    obtain ⟨p, hp, hstep⟩ := Option.bind_eq_some_iff.mp hstep
    split at hstep
    next hc =>
      cases hsocket : c.socket with
      | fail e =>
        have he : Acceptor.OpenCall.Allowed p c.socket := hc.1
        rw [hsocket] at he
        rw [Acceptor.construct_no_socket reuse hsocket he] at hstep
        cases hstep
      | ok n =>
        have hn := hc.fresh hsocket
        obtain ⟨x, hadded, hresult⟩ := Acceptor.construct_socket reuse
          (hbase.ok i p hp) hc hsocket (hbase.fresh hp hn)
        rcases hresult with ⟨-, hrun⟩ | ⟨-, e, hrun⟩
        · rw [hrun] at hstep
          cases hstep
          have hgrown := hbase.grown hp hadded (opened_of_focus hp ▸ hn.2.2)
          exact .opened (hgrown.congr rfl rfl) rfl rfl rfl
        · rw [hrun] at hstep
          cases hstep
    next => cases hstep
  | construct i socket =>
    obtain ⟨p, hp, hstep⟩ := Option.bind_eq_some_iff.mp hstep
    split at hstep
    next hsocket =>
      cases socket with
      | fail e =>
        rw [makeStream_fail hsocket] at hstep
        cases hstep
        exact .threw (putBack_focus hp)
      | ok n =>
        obtain ⟨id, p', hmake, hadded⟩ :=
          Process.makeSocket_spec (hbase.ok i p hp) (hbase.fresh hp hsocket)
        rw [makeStream_ok hmake] at hstep
        cases hstep
        exact .constructed (hbase.handed hp hadded hsocket.2.2)
    next => cases hstep
  | accept a fd =>
    obtain ⟨acceptor, -, hstep⟩ := Option.bind_eq_some_iff.mp hstep
    obtain ⟨p, hp, hstep⟩ := Option.bind_eq_some_iff.mp hstep
    split at hstep
    next hfd =>
      obtain ⟨id, p', haccepted, hadded⟩ :=
        Process.accepted_spec (hbase.ok _ p hp) (hbase.fresh hp hfd)
      rw [haccepted] at hstep
      cases hstep
      exact .accepted (hbase.handed hp hadded hfd.2.2)
    next => cases hstep
  | move j =>
    obtain ⟨x, hx, heq⟩ := Option.map_eq_some_iff.mp hstep
    obtain ⟨hx, halive⟩ := living_eq_some hx
    exact .moved hx halive heq.symm
  | destroy j close =>
    obtain ⟨x, hx, hstep⟩ := Option.bind_eq_some_iff.mp hstep
    obtain ⟨hx, halive⟩ := living_eq_some hx
    split at hstep
    next hused =>
      obtain ⟨p, hp, hstep⟩ := Option.bind_eq_some_iff.mp hstep
      -- `_Release` returned, so there was a record
      cases hr : p.table.record x.id with
      | none =>
        obtain ⟨f, hf⟩ : ∃ f, p.table.container.get x.id = .error f := by
          cases hget : p.table.container.get x.id with
          | error f => exact ⟨f, rfl⟩
          | ok r =>
            rw [Container.get_eq_ok, ← Table.record, hr] at hget
            cases hget
        rw [Process.release_throws close hf] at hstep
        cases hstep
      | some r =>
        obtain ⟨p', hrelease, hremoved⟩ := Process.release_spec (hbase.ok _ p hp) hr close
        rw [hrelease, hr] at hstep
        cases hstep
        have hshrunk := hbase.shrunk hp hremoved
        exact .closed hx halive hused (hshrunk.congr rfl rfl) rfl rfl rfl
    next hunused =>
      cases hstep
      exact .dropped hx halive (by simpa using hunused) rfl

end Step

/-! ## Ownership -/

/-- Every record has one owner, and an object whose id is used is the last one that its socket was
moved into: it has the record while it is alive, and its destructor closed the handle. -/
structure Owned (s : Streams κ) : Prop where
  base : Base s
  made : ∀ (j : ℕ) (x : StreamSocket) (r : SocketRecord), s.objects[j]? = some x →
    x.socket = some r → r.number < s.made x.context
  used : ∀ (j : ℕ) (x : StreamSocket), s.objects[j]? = some x → x.isUsed = true →
    ∃ r, x.socket = some r
  last : ∀ (j k : ℕ) (x y : StreamSocket) (r : SocketRecord), s.objects[j]? = some x →
    s.objects[k]? = some y → x.isUsed = true → x.context = y.context → x.socket = some r →
    y.socket = some r → k ≤ j
  held : ∀ (j : ℕ) (x : StreamSocket) (r : SocketRecord), s.objects[j]? = some x →
    x.isUsed = true → x.alive = true → x.socket = some r → s.record x.context x.id = some r
  spent : ∀ (j : ℕ) (x : StreamSocket) (r : SocketRecord), s.objects[j]? = some x →
    x.isUsed = true → x.alive = false → x.socket = some r → (j, r.handle) ∈ s.closes
  moved : ∀ (j : ℕ) (x : StreamSocket) (r : SocketRecord), s.objects[j]? = some x →
    x.isUsed = false → x.socket = some r →
    ∃ (k : ℕ) (y : StreamSocket), s.objects[k]? = some y ∧ j < k ∧ y.context = x.context ∧
      y.socket = some r
  closed : ∀ (j : ℕ) (fd : Handle), (j, fd) ∈ s.closes →
    ∃ (x : StreamSocket) (r : SocketRecord), s.objects[j]? = some x ∧ x.isUsed = true ∧
      x.alive = false ∧ x.socket = some r ∧ r.handle = fd
  once : (s.closes.map Prod.fst).Nodup
  listed : s.acceptors.Nodup
  acceptors : ∀ a ∈ s.acceptors, ∃ r, s.record a.1 a.2 = some r
  apart : ∀ (j : ℕ) (x : StreamSocket), s.objects[j]? = some x → x.isUsed = true →
    x.alive = true → (x.context, x.id) ∉ s.acceptors
  owner : ∀ (i : ℕ) (id : SocketId) (r : SocketRecord), s.record i id = some r →
    (i, id) ∈ s.acceptors ∨ ∃ (j : ℕ) (x : StreamSocket), s.objects[j]? = some x ∧
      x.alive = true ∧ x.isUsed = true ∧ x.context = i ∧ x.id = id

section Ownership

variable {s s' : Streams κ} {i j : ℕ} {id : SocketId} {r : SocketRecord} {x : StreamSocket}

/-- The id of a record is not the marker. -/
theorem used_of_record (h : Base s) (hr : s.record i id = some r) : id ≠ unusedId := by
  obtain ⟨p, hp, hr⟩ := Option.bind_eq_some_iff.mp hr
  exact SocketObjects.isOpen_of_record (h.ok i p hp) hr

/-- Records that were there stay where they are. -/
theorem Grown.keeps (h : Grown s s' i id r) {k : ℕ} {id' : SocketId} {r' : SocketRecord}
    (hr' : s.record k id' = some r') : (k, id') ≠ (i, id) ∧ s'.record k id' = some r' := by
  have hne : (k, id') ≠ (i, id) := by
    intro heq
    obtain ⟨rfl, rfl⟩ := Prod.mk.inj heq
    rw [h.old] at hr'
    cases hr'
  exact ⟨hne, (h.other k id' hne).trans hr'⟩

theorem Grown.made_le (h : Grown s s' i id r) (k : ℕ) : s.made k ≤ s'.made k := by
  rw [h.made]
  split
  next heq => rw [heq]; exact Nat.le_succ _
  next => exact le_rfl

/-- An acceptor was opened. -/
theorem Owned.opened (h : Owned s) (hgrown : Grown s s' i id r)
    (hacceptors : s'.acceptors = s.acceptors ++ [(i, id)]) (hobjects : s'.objects = s.objects)
    (hcloses : s'.closes = s.closes) : Owned s' where
  base := hgrown.base h.base
  made j x r' hx hr' := by
    rw [hobjects] at hx
    exact lt_of_lt_of_le (h.made j x r' hx hr') (hgrown.made_le _)
  used j x hx := h.used j x (hobjects ▸ hx)
  last j k x y r' hx hy := h.last j k x y r' (hobjects ▸ hx) (hobjects ▸ hy)
  held j x r' hx hused halive hr' :=
    (hgrown.keeps (h.held j x r' (hobjects ▸ hx) hused halive hr')).2
  spent j x r' hx := by
    rw [hcloses]
    exact h.spent j x r' (hobjects ▸ hx)
  moved j x r' hx := by
    rw [hobjects] at hx ⊢
    exact h.moved j x r' hx
  closed j fd hmem := by
    rw [hcloses] at hmem
    rw [hobjects]
    exact h.closed j fd hmem
  once := hcloses ▸ h.once
  listed := by
    rw [hacceptors]
    refine List.nodup_append.mpr ⟨h.listed, List.nodup_singleton _, fun a ha b hb hab => ?_⟩
    -- the new id was not live
    obtain ⟨r', hr'⟩ := h.acceptors a ha
    exact (hgrown.keeps hr').1 (hab.trans (List.mem_singleton.mp hb))
  acceptors a ha := by
    rw [hacceptors] at ha
    rcases List.mem_append.mp ha with ha | ha
    · obtain ⟨r', hr'⟩ := h.acceptors a ha
      exact ⟨r', (hgrown.keeps hr').2⟩
    · rw [List.mem_singleton.mp ha]
      exact ⟨r, hgrown.new⟩
  apart j x hx hused halive := by
    rw [hobjects] at hx
    rw [hacceptors, List.mem_append, List.mem_singleton, not_or]
    obtain ⟨r', hr'⟩ := h.used j x hx hused
    exact ⟨h.apart j x hx hused halive, (hgrown.keeps (h.held j x r' hx hused halive hr')).1⟩
  owner k id' r' hr' := by
    rw [hacceptors, hobjects, List.mem_append, List.mem_singleton]
    by_cases heq : (k, id') = (i, id)
    · exact .inl (.inr heq)
    · rw [hgrown.other k id' heq] at hr'
      exact (h.owner k id' r' hr').imp_left .inl

/-- A stream socket was constructed. -/
theorem Owned.handed (h : Owned s) (hhanded : Handed s s' i id r) : Owned s' := by
  obtain ⟨hgrown, hacceptors, hobjects, hcloses⟩ := hhanded
  have hused : id ≠ unusedId := used_of_record (hgrown.base h.base) hgrown.new
  -- no object has the number of the new socket
  have hfresh : ∀ (k : ℕ) (y : StreamSocket), s.objects[k]? = some y → y.context = i →
      y.socket ≠ some r := by
    rintro k y hy rfl hr
    have hlt := h.made k y r hy hr
    rw [hgrown.number] at hlt
    exact lt_irrefl _ hlt
  have hkeep : ∀ {k : ℕ} {y : StreamSocket}, s.objects[k]? = some y →
      s'.objects[k]? = some y := by
    intro k y hy
    rw [hobjects]
    exact getElem?_concat_of_some hy
  constructor
  case base => exact hgrown.base h.base
  case made =>
    intro j x r' hx hr'
    rw [hobjects] at hx
    rcases getElem?_concat_cases hx with ⟨-, rfl⟩ | ⟨-, hx⟩
    · obtain rfl := Option.some.inj hr'
      rw [hgrown.made, hgrown.number, if_pos rfl]
      exact Nat.lt_succ_self _
    · exact lt_of_lt_of_le (h.made j x r' hx hr') (hgrown.made_le _)
  case used =>
    intro j x hx hx'
    rw [hobjects] at hx
    rcases getElem?_concat_cases hx with ⟨-, rfl⟩ | ⟨-, hx⟩
    · exact ⟨r, rfl⟩
    · exact h.used j x hx hx'
  case last =>
    intro j k x y r' hx hy hx' hcontext hr hr'
    rw [hobjects] at hx hy
    rcases getElem?_concat_cases hx with ⟨rfl, rfl⟩ | ⟨-, hx⟩ <;>
      rcases getElem?_concat_cases hy with ⟨rfl, rfl⟩ | ⟨hlt, hy⟩
    · exact le_rfl
    · exact hlt.le
    · cases hr'
      exact absurd hr (hfresh j x hx hcontext)
    · exact h.last j k x y r' hx hy hx' hcontext hr hr'
  case held =>
    intro j x r' hx hx' halive hr'
    rw [hobjects] at hx
    rcases getElem?_concat_cases hx with ⟨-, rfl⟩ | ⟨-, hx⟩
    · cases hr'
      exact hgrown.new
    · exact (hgrown.keeps (h.held j x r' hx hx' halive hr')).2
  case spent =>
    intro j x r' hx hx' halive hr'
    rw [hobjects] at hx
    rw [hcloses]
    rcases getElem?_concat_cases hx with ⟨-, rfl⟩ | ⟨-, hx⟩
    · cases halive
    · exact h.spent j x r' hx hx' halive hr'
  case moved =>
    intro j x r' hx hx' hr'
    rw [hobjects] at hx
    rcases getElem?_concat_cases hx with ⟨-, rfl⟩ | ⟨-, hx⟩
    · simp only [StreamSocket.isUsed, bne_eq_false_iff_eq] at hx'
      exact absurd hx' hused
    · obtain ⟨k, y, hy, hlt, hcontext, hr⟩ := h.moved j x r' hx hx' hr'
      exact ⟨k, y, hkeep hy, hlt, hcontext, hr⟩
  case closed =>
    intro j fd hmem
    rw [hcloses] at hmem
    obtain ⟨x, r', hx, hrest⟩ := h.closed j fd hmem
    exact ⟨x, r', hkeep hx, hrest⟩
  case once => exact hcloses ▸ h.once
  case listed => exact hacceptors ▸ h.listed
  case acceptors =>
    intro a ha
    rw [hacceptors] at ha
    obtain ⟨r', hr'⟩ := h.acceptors a ha
    exact ⟨r', (hgrown.keeps hr').2⟩
  case apart =>
    intro j x hx hx' halive
    rw [hobjects] at hx
    rw [hacceptors]
    rcases getElem?_concat_cases hx with ⟨-, rfl⟩ | ⟨-, hx⟩
    · intro hmem
      obtain ⟨r', hr'⟩ := h.acceptors _ hmem
      exact (hgrown.keeps hr').1 rfl
    · exact h.apart j x hx hx' halive
  case owner =>
    intro k id' r' hr'
    rw [hacceptors]
    by_cases heq : (k, id') = (i, id)
    · obtain ⟨rfl, rfl⟩ := Prod.mk.inj heq
      refine .inr ⟨s.objects.length, { context := k, id := id', socket := some r }, ?_, rfl, ?_,
        rfl, rfl⟩
      · rw [hobjects, List.getElem?_concat_length]
      · simpa [StreamSocket.isUsed] using hused
    · rw [hgrown.other k id' heq] at hr'
      rcases h.owner k id' r' hr' with hmem | ⟨j, x, hx, hrest⟩
      · exact .inl hmem
      · exact .inr ⟨j, x, hkeep hx, hrest⟩

/-- No other object whose id is used has the same socket. -/
theorem Owned.only (h : Owned s) (hx : s.objects[j]? = some x) (hused : x.isUsed = true)
    (hr : x.socket = some r) {k : ℕ} {y : StreamSocket} (hy : s.objects[k]? = some y)
    (hused' : y.isUsed = true) (hcontext : x.context = y.context) (hr' : y.socket = some r) :
    k = j :=
  Nat.le_antisymm (h.last j k x y r hx hy hused hcontext hr hr')
    (h.last k j y x r hy hx hused' hcontext.symm hr' hr)

/-- A living object has closed nothing. -/
theorem Owned.ne_of_closed (h : Owned s) (hx : s.objects[j]? = some x) (halive : x.alive = true)
    {k : ℕ} {fd : Handle} (hmem : (k, fd) ∈ s.closes) : k ≠ j := by
  rintro rfl
  obtain ⟨y, r, hy, -, hdead, -⟩ := h.closed k fd hmem
  obtain rfl := Option.some.inj (hx.symm.trans hy)
  rw [halive] at hdead
  cases hdead

/-- An object that owns a socket was moved from. -/
theorem Owned.moved_used (h : Owned s) (hx : s.objects[j]? = some x) (halive : x.alive = true)
    (hused : x.isUsed = true) :
    Owned { s with
      objects := s.objects.set j { x with id := unusedId } ++
        [{ context := x.context, id := x.id, socket := x.socket }] } := by
  obtain ⟨r, hr⟩ := h.used j x hx hused
  have hj := (List.getElem?_eq_some_iff.mp hx).1
  have hunused : ({ x with id := unusedId } : StreamSocket).isUsed = false := by
    simp [StreamSocket.isUsed]
  have hused' : ({ context := x.context, id := x.id, socket := x.socket } : StreamSocket).isUsed =
      true := hused
  -- where an object that was there is, and where the new one is
  have hkeep : ∀ {k : ℕ} {y : StreamSocket}, k ≠ j → s.objects[k]? = some y →
      (s.objects.set j { x with id := unusedId } ++
        [{ context := x.context, id := x.id, socket := x.socket }])[k]? = some y := by
    intro k y hne hy
    exact getElem?_set_concat_of_ne hne hy
  have hself : (s.objects.set j { x with id := unusedId } ++
      [{ context := x.context, id := x.id, socket := x.socket }])[j]? =
        some { x with id := unusedId } :=
    getElem?_set_concat_self hx
  have hnew : (s.objects.set j { x with id := unusedId } ++
      [{ context := x.context, id := x.id, socket := x.socket }])[s.objects.length]? =
        some { context := x.context, id := x.id, socket := x.socket } :=
    getElem?_set_concat_length
  constructor
  case base => exact ⟨h.base.ok, h.base.nodup, h.base.handles, h.base.inj⟩
  case made =>
    intro k y r' hy hr'
    rcases getElem?_set_concat_cases hy with ⟨-, rfl⟩ | ⟨-, -, rfl⟩ | ⟨-, -, hy⟩
    · exact h.made j x r' hx hr'
    · exact h.made j x r' hx hr'
    · exact h.made k y r' hy hr'
  case used =>
    intro k y hy hy'
    rcases getElem?_set_concat_cases hy with ⟨-, rfl⟩ | ⟨-, -, rfl⟩ | ⟨-, -, hy⟩
    · exact ⟨r, hr⟩
    · rw [hunused] at hy'
      cases hy'
    · exact h.used k y hy hy'
  case last =>
    intro k m y z r' hy hz hy' hcontext hr' hr''
    rcases getElem?_set_concat_cases hy with ⟨rfl, rfl⟩ | ⟨-, -, rfl⟩ | ⟨hne, -, hold⟩ <;>
      rcases getElem?_set_concat_cases hz with ⟨rfl, rfl⟩ | ⟨rfl, hlt, rfl⟩ | ⟨-, hlt, hold'⟩
    · exact le_rfl
    · exact hlt.le
    · exact hlt.le
    -- the object that was moved from is not used any more
    · rw [hunused] at hy'
      cases hy'
    · rw [hunused] at hy'
      cases hy'
    · rw [hunused] at hy'
      cases hy'
    -- the object before the move was the only one with its socket
    · exact absurd (h.only hx hused hr'' hold hy' hcontext.symm hr') hne
    · exact h.last k m y x r' hold hx hy' hcontext hr' hr''
    · exact h.last k m y z r' hold hold' hy' hcontext hr' hr''
  case held =>
    intro k y r' hy hy' halive' hr'
    rcases getElem?_set_concat_cases hy with ⟨-, rfl⟩ | ⟨-, -, rfl⟩ | ⟨-, -, hy⟩
    · exact h.held j x r' hx hused halive hr'
    · rw [hunused] at hy'
      cases hy'
    · exact h.held k y r' hy hy' halive' hr'
  case spent =>
    intro k y r' hy hy' hdead hr'
    rcases getElem?_set_concat_cases hy with ⟨-, rfl⟩ | ⟨-, -, rfl⟩ | ⟨-, -, hy⟩
    · cases hdead
    · rw [hunused] at hy'
      cases hy'
    · exact h.spent k y r' hy hy' hdead hr'
  case moved =>
    intro k y r' hy hy' hr'
    rcases getElem?_set_concat_cases hy with ⟨-, rfl⟩ | ⟨rfl, -, rfl⟩ | ⟨-, -, hy⟩
    · rw [hused'] at hy'
      cases hy'
    · exact ⟨s.objects.length, _, hnew, hj, rfl, hr'⟩
    · obtain ⟨m, z, hz, hlt, hcontext, hr''⟩ := h.moved k y r' hy hy' hr'
      by_cases hm : m = j
      · subst hm
        obtain rfl : x = z := Option.some.inj (hx.symm.trans hz)
        exact ⟨m, _, hself, hlt, hcontext, hr''⟩
      · exact ⟨m, z, hkeep hm hz, hlt, hcontext, hr''⟩
  case closed =>
    intro k fd hmem
    obtain ⟨y, r', hy, hrest⟩ := h.closed k fd hmem
    exact ⟨y, r', hkeep (h.ne_of_closed hx halive hmem) hy, hrest⟩
  case once => exact h.once
  case listed => exact h.listed
  case acceptors => exact h.acceptors
  case apart =>
    intro k y hy hy' halive'
    rcases getElem?_set_concat_cases hy with ⟨-, rfl⟩ | ⟨-, -, rfl⟩ | ⟨-, -, hy⟩
    · exact h.apart j x hx hused halive
    · rw [hunused] at hy'
      cases hy'
    · exact h.apart k y hy hy' halive'
  case owner =>
    intro k id' r' hr'
    rcases h.owner k id' r' hr' with hmem | ⟨m, y, hy, halive', hy', hcontext, hid⟩
    · exact .inl hmem
    · by_cases hm : m = j
      · subst hm
        obtain rfl : x = y := Option.some.inj (hx.symm.trans hy)
        exact .inr ⟨s.objects.length, _, hnew, rfl, hused, hcontext, hid⟩
      · exact .inr ⟨m, y, hkeep hm hy, halive', hy', hcontext, hid⟩

/-- An object that was moved from before is moved from again: both own nothing. -/
theorem Owned.moved_unused (h : Owned s) {y : StreamSocket} (hunused : y.isUsed = false)
    (hnone : y.socket = none) : Owned { s with objects := s.objects ++ [y] } := by
  have hkeep : ∀ {k : ℕ} {z : StreamSocket}, s.objects[k]? = some z →
      (s.objects ++ [y])[k]? = some z := by
    intro k z hz
    exact getElem?_concat_of_some hz
  -- what is said of objects with a socket, or with a used id, is about the old ones
  have hused : ∀ {k : ℕ} {z : StreamSocket}, (s.objects ++ [y])[k]? = some z → z.isUsed = true →
      s.objects[k]? = some z := by
    intro k z hz hz'
    rcases getElem?_concat_cases hz with ⟨-, rfl⟩ | ⟨-, hz⟩
    · rw [hunused] at hz'
      cases hz'
    · exact hz
  have hsocket : ∀ {k : ℕ} {z : StreamSocket} {r : SocketRecord},
      (s.objects ++ [y])[k]? = some z → z.socket = some r → s.objects[k]? = some z := by
    intro k z r hz hr
    rcases getElem?_concat_cases hz with ⟨-, rfl⟩ | ⟨-, hz⟩
    · rw [hnone] at hr
      cases hr
    · exact hz
  constructor
  case base => exact ⟨h.base.ok, h.base.nodup, h.base.handles, h.base.inj⟩
  case made => exact fun k z r hz hr => h.made k z r (hsocket hz hr) hr
  case used => exact fun k z hz hz' => h.used k z (hused hz hz') hz'
  case last =>
    exact fun k m z w r hz hw hz' hcontext hr hr' =>
      h.last k m z w r (hsocket hz hr) (hsocket hw hr') hz' hcontext hr hr'
  case held => exact fun k z r hz hz' halive hr => h.held k z r (hused hz hz') hz' halive hr
  case spent => exact fun k z r hz hz' hdead hr => h.spent k z r (hused hz hz') hz' hdead hr
  case moved =>
    intro k z r hz hz' hr
    obtain ⟨m, w, hw, hrest⟩ := h.moved k z r (hsocket hz hr) hz' hr
    exact ⟨m, w, hkeep hw, hrest⟩
  case closed =>
    intro k fd hmem
    obtain ⟨z, r, hz, hrest⟩ := h.closed k fd hmem
    exact ⟨z, r, hkeep hz, hrest⟩
  case once => exact h.once
  case listed => exact h.listed
  case acceptors => exact h.acceptors
  case apart => exact fun k z hz hz' halive => h.apart k z (hused hz hz') hz' halive
  case owner =>
    intro k id' r hr
    rcases h.owner k id' r hr with hmem | ⟨m, w, hw, hrest⟩
    · exact .inl hmem
    · exact .inr ⟨m, w, hkeep hw, hrest⟩

/-- The objects after one of them was destroyed. -/
theorem destroyed_cases {xs : List StreamSocket} {x y : StreamSocket} {k : ℕ}
    (hx : xs[j]? = some x) (h : (xs.set j { x with alive := false })[k]? = some y) :
    ∃ z, xs[k]? = some z ∧ y.context = z.context ∧ y.isUsed = z.isUsed ∧ y.socket = z.socket ∧
      ((k = j ∧ y.alive = false) ∨ (k ≠ j ∧ y = z)) := by
  rcases getElem?_set_cases h with ⟨rfl, rfl⟩ | ⟨hne, h⟩
  · exact ⟨x, hx, rfl, rfl, rfl, .inl ⟨rfl, rfl⟩⟩
  · exact ⟨y, h, rfl, rfl, rfl, .inr ⟨hne, rfl⟩⟩

/-- An object was destroyed: if its id is used, its record is gone and its handle was closed. -/
theorem Owned.destroyed (h : Owned s) (hx : s.objects[j]? = some x) (halive : x.alive = true)
    (hbase : Base s') (hmade : ∀ k, s'.made k = s.made k) (hacceptors : s'.acceptors = s.acceptors)
    (hobjects : s'.objects = s.objects.set j { x with alive := false })
    {new : List (ℕ × Handle)} (hcloses : s'.closes = s.closes ++ new)
    (hnew : ∀ k fd, (k, fd) ∈ new ↔
      k = j ∧ x.isUsed = true ∧ ∃ r, x.socket = some r ∧ r.handle = fd)
    (hone : (new.map Prod.fst).Nodup)
    (hrecord : ∀ k id' r, s'.record k id' = some r ↔
      s.record k id' = some r ∧ (x.isUsed = true → (k, id') ≠ (x.context, x.id))) : Owned s' := by
  have hself : s'.objects[j]? = some { x with alive := false } := by
    rw [hobjects]
    exact getElem?_set_of_some hx
  have hkeep : ∀ {k : ℕ} {y : StreamSocket}, k ≠ j → s.objects[k]? = some y →
      s'.objects[k]? = some y := by
    intro k y hne hy
    rw [hobjects, List.getElem?_set_ne (Ne.symm hne)]
    exact hy
  -- what is there is an object that was there before, and the other way round
  have hback : ∀ {k : ℕ} {y : StreamSocket}, s'.objects[k]? = some y → ∃ z, s.objects[k]? = some z ∧
      y.context = z.context ∧ y.isUsed = z.isUsed ∧ y.socket = z.socket ∧
      ((k = j ∧ y.alive = false) ∨ (k ≠ j ∧ y = z)) := by
    intro k y hy
    rw [hobjects] at hy
    exact destroyed_cases hx hy
  have hthere : ∀ {k : ℕ} {z : StreamSocket}, s.objects[k]? = some z →
      ∃ y, s'.objects[k]? = some y ∧ y.context = z.context ∧ y.socket = z.socket := by
    intro k z hz
    by_cases hk : k = j
    · subst hk
      obtain rfl : x = z := Option.some.inj (hx.symm.trans hz)
      exact ⟨_, hself, rfl, rfl⟩
    · exact ⟨z, hkeep hk hz, rfl, rfl⟩
  constructor
  case base => exact hbase
  case made =>
    intro k y r hy hr
    obtain ⟨z, hz, hcontext, -, hsocket, -⟩ := hback hy
    rw [hcontext, hmade]
    exact h.made k z r hz (hsocket ▸ hr)
  case used =>
    intro k y hy hused
    obtain ⟨z, hz, -, hused', hsocket, -⟩ := hback hy
    rw [hsocket]
    exact h.used k z hz (hused' ▸ hused)
  case last =>
    intro k m y y' r hy hy' hused hcontext hr hr'
    obtain ⟨z, hz, hcontext', hused', hsocket, -⟩ := hback hy
    obtain ⟨z', hz', hcontext'', -, hsocket', -⟩ := hback hy'
    exact h.last k m z z' r hz hz' (hused' ▸ hused) (by rw [← hcontext', hcontext, hcontext''])
      (hsocket ▸ hr) (hsocket' ▸ hr')
  case held =>
    intro k y r hy hused halive' hr
    obtain ⟨z, hz, -, -, -, hcase⟩ := hback hy
    rcases hcase with ⟨-, hdead⟩ | ⟨hne, rfl⟩
    · rw [hdead] at halive'
      cases halive'
    · have hheld := h.held k y r hz hused halive' hr
      refine (hrecord _ _ _).mpr ⟨hheld, fun hused' heq => hne ?_⟩
      -- the record that is gone is that of another object
      obtain ⟨hcontext, hid⟩ := Prod.mk.inj heq
      obtain ⟨r', hr'⟩ := h.used j x hx hused'
      have hheld' := h.held j x r' hx hused' halive hr'
      rw [← hcontext, ← hid, hheld] at hheld'
      cases hheld'
      exact h.only hx hused' hr' hz hused hcontext.symm hr
  case spent =>
    intro k y r hy hused hdead hr
    rw [hcloses, List.mem_append]
    obtain ⟨z, hz, -, hused', hsocket, hcase⟩ := hback hy
    rcases hcase with ⟨rfl, -⟩ | ⟨-, rfl⟩
    · obtain rfl : x = z := Option.some.inj (hx.symm.trans hz)
      exact .inr ((hnew _ _).mpr ⟨rfl, hused' ▸ hused, r, hsocket ▸ hr, rfl⟩)
    · exact .inl (h.spent k y r hz hused hdead hr)
  case moved =>
    intro k y r hy hunused hr
    obtain ⟨z, hz, hcontext, hused', hsocket, -⟩ := hback hy
    obtain ⟨m, w, hw, hlt, hcontext', hr'⟩ := h.moved k z r hz (hused' ▸ hunused) (hsocket ▸ hr)
    obtain ⟨w', hw', hcontext'', hsocket'⟩ := hthere hw
    exact ⟨m, w', hw', hlt, by rw [hcontext'', hcontext', hcontext], hsocket' ▸ hr'⟩
  case closed =>
    intro k fd hmem
    rw [hcloses, List.mem_append] at hmem
    rcases hmem with hmem | hmem
    · obtain ⟨y, r, hy, hrest⟩ := h.closed k fd hmem
      exact ⟨y, r, hkeep (h.ne_of_closed hx halive hmem) hy, hrest⟩
    · obtain ⟨rfl, hused, r, hr, hhandle⟩ := (hnew k fd).mp hmem
      exact ⟨_, r, hself, hused, rfl, hr, hhandle⟩
  case once =>
    -- the object was alive, so it had closed nothing before
    rw [hcloses, List.map_append]
    refine List.nodup_append.mpr ⟨h.once, hone, ?_⟩
    intro k hk m hm heq
    obtain ⟨p, hp, rfl⟩ := List.mem_map.mp hk
    obtain ⟨q, hq, rfl⟩ := List.mem_map.mp hm
    obtain ⟨hj, -⟩ := (hnew q.1 q.2).mp hq
    exact h.ne_of_closed hx halive hp (heq.trans hj)
  case listed => exact hacceptors ▸ h.listed
  case acceptors =>
    intro a ha
    rw [hacceptors] at ha
    obtain ⟨r, hr⟩ := h.acceptors a ha
    exact ⟨r, (hrecord _ _ _).mpr ⟨hr, fun hused heq => h.apart j x hx hused halive (heq ▸ ha)⟩⟩
  case apart =>
    intro k y hy hused halive'
    rw [hacceptors]
    obtain ⟨z, hz, -, -, -, hcase⟩ := hback hy
    rcases hcase with ⟨-, hdead⟩ | ⟨-, rfl⟩
    · rw [hdead] at halive'
      cases halive'
    · exact h.apart k y hz hused halive'
  case owner =>
    intro k id' r hr
    obtain ⟨hr, hne⟩ := (hrecord k id' r).mp hr
    rw [hacceptors]
    rcases h.owner k id' r hr with hmem | ⟨m, y, hy, halive', hused, rfl, rfl⟩
    · exact .inl hmem
    · have hm : m ≠ j := by
        rintro rfl
        obtain rfl : x = y := Option.some.inj (hx.symm.trans hy)
        exact hne hused rfl
      exact .inr ⟨m, y, hkeep hm hy, halive', hused, rfl, rfl⟩

/-- **Step lemma**. -/
theorem owned_step [LawfulContextBase κ] (s : Streams κ) (l : Label) (s' : Streams κ) (h : Owned s)
    (hstep : s.step l = some s') : Owned s' := by
  cases step_cases h.base hstep with
  | opened hgrown hacceptors hobjects hcloses => exact h.opened hgrown hacceptors hobjects hcloses
  | constructed hhanded => exact h.handed hhanded
  | threw heq => exact heq ▸ h
  | accepted hhanded => exact h.handed hhanded
  | @moved j x hx halive heq =>
    subst heq
    cases hused : x.isUsed with
    | true =>
      simp only [if_true]
      exact h.moved_used hx halive hused
    | false =>
      -- the id was the marker already
      have hid : x.id = unusedId := by
        simpa [StreamSocket.isUsed] using hused
      have hset : s.objects.set j { x with id := unusedId } = s.objects := by
        obtain ⟨hlt, hx⟩ := List.getElem?_eq_some_iff.mp hx
        rw [← hid, ← hx]
        exact List.set_getElem_self hlt
      rw [hset]
      exact h.moved_unused (by simpa [StreamSocket.isUsed] using hid) (by simp)
  | @closed j x r close hx halive hused hshrunk hacceptors hobjects hcloses =>
    obtain ⟨r', hr'⟩ := h.used j x hx hused
    -- the record under the id is that of the socket that was handed to the object
    have hheld := h.held j x r' hx hused halive hr'
    rw [hshrunk.old, Option.some.injEq] at hheld
    subst hheld
    refine h.destroyed hx halive (hshrunk.base h.base) hshrunk.made hacceptors hobjects hcloses ?_
      (by simp) ?_
    · intro k fd
      rw [List.mem_singleton, Prod.mk.injEq]
      constructor
      · rintro ⟨rfl, rfl⟩
        exact ⟨rfl, hused, r, hr', rfl⟩
      · rintro ⟨rfl, -, r'', hr'', rfl⟩
        rw [hr'] at hr''
        cases hr''
        exact ⟨rfl, rfl⟩
    · intro k id' r''
      by_cases heq : (k, id') = (x.context, x.id)
      · obtain ⟨rfl, rfl⟩ := Prod.mk.inj heq
        simp [hshrunk.new, hused]
      · simp [hshrunk.other k id' heq, heq]
  | @dropped j x close hx halive hunused heq =>
    subst heq
    have hbase : Base { s with objects := s.objects.set j { x with alive := false } } :=
      ⟨h.base.ok, h.base.nodup, h.base.handles, h.base.inj⟩
    have hcloses : s.closes = s.closes ++ [] := (List.append_nil _).symm
    refine h.destroyed hx halive hbase (fun _ => rfl) rfl rfl hcloses ?_ List.nodup_nil ?_
    · simp [hunused]
    · intro k id' r
      simp only [hunused, Bool.false_eq_true, false_imp_iff, and_true]
      rfl

/-! ## Runs -/

theorem owned_initial {contexts : List κ}
    (h : ∀ ctx ∈ contexts, ContextBase.sockets ctx = {}) : Owned { contexts := contexts } := by
  have hfocus : ∀ (i : ℕ) (p : Process κ),
      Streams.focus { contexts := contexts } i = some p → p.table = {} := by
    intro i p hp
    simp only [focus, Option.map_eq_some_iff] at hp
    obtain ⟨ctx, hctx, rfl⟩ := hp
    exact h ctx (List.mem_of_getElem? hctx)
  have hrecord : ∀ (i : ℕ) (id : SocketId) (r : SocketRecord),
      Streams.record { contexts := contexts } i id ≠ some r := by
    intro i id r hr
    obtain ⟨p, hp, hr⟩ := Option.bind_eq_some_iff.mp hr
    rw [hfocus i p hp] at hr
    simp [Table.record, Container.recordAt] at hr
  have hbase : Base { contexts := contexts } := by
    refine ⟨?_, List.nodup_nil, ?_, ?_⟩
    · intro i p hp
      rw [hfocus i p hp]
      exact Table.ok_empty
    · intro fd
      simp only [List.not_mem_nil, false_iff]
      rintro ⟨i, id, r, hr, -⟩
      exact hrecord i id r hr
    · exact fun i j id id' r r' hr => absurd hr (hrecord i id r)
  constructor
  case base => exact hbase
  case made => exact fun j x r hx => by simp at hx
  case used => exact fun j x hx => by simp at hx
  case last => exact fun j k x y r hx => by simp at hx
  case held => exact fun j x r hx => by simp at hx
  case spent => exact fun j x r hx => by simp at hx
  case moved => exact fun j x r hx => by simp at hx
  case closed => exact fun j fd hmem => by simp at hmem
  case once => exact List.nodup_nil
  case listed => exact List.nodup_nil
  case acceptors => exact fun a ha => by simp at ha
  case apart => exact fun j x hx => by simp at hx
  case owner => exact fun i id r hr => absurd hr (hrecord i id r)

variable [LawfulContextBase κ]

/-- **Run lemma**. -/
theorem owned_run {contexts : List κ} (h : ∀ ctx ∈ contexts, ContextBase.sockets ctx = {})
    {ls : List Label} (hrun : StepMachine.run step { contexts := contexts } ls = some s) :
    Owned s :=
  StepMachine.run_invariant step owned_step (owned_initial h) hrun

/-- A destructor returns: there is a record under an id that is used. -/
theorem Owned.destroy_returns (h : Owned s) (hx : s.objects[j]? = some x) (halive : x.alive = true)
    (close : SysResult) : ∃ s', s.step (.destroy j close) = some s' := by
  have hliving : s.living j = some x := by
    simp [living, hx, halive]
  cases hused : x.isUsed with
  | false => exact ⟨_, by simp only [step, hliving, Option.bind_some, hused]; rfl⟩
  | true =>
    obtain ⟨r, hr⟩ := h.used j x hx hused
    obtain ⟨p, hp, hrecord⟩ := Option.bind_eq_some_iff.mp (h.held j x r hx hused halive hr)
    obtain ⟨p', hrelease, -⟩ := Process.release_spec (h.base.ok _ p hp) hrecord close
    exact ⟨_, by simp only [step, hliving, Option.bind_some, hused, if_true, hp, hrelease]; rfl⟩

/-- The object is alive and its id is not the marker. -/
def Holds (s : Streams κ) (j : ℕ) (x : StreamSocket) : Prop :=
  s.objects[j]? = some x ∧ x.alive = true ∧ x.isUsed = true

/-- What the destructor of an object does: nothing if its id is the marker, and else it closes the
handle of its record. -/
def Destroys (s s' : Streams κ) (j : ℕ) (x : StreamSocket) : Prop :=
  (x.isUsed = false →
    s'.contexts = s.contexts ∧ s'.opened = s.opened ∧ s'.closes = s.closes) ∧
  (x.isUsed = true → ∃ r, s.record x.context x.id = some r ∧ r.handle ∈ s.opened ∧
    s'.record x.context x.id = none ∧ s'.opened = s.opened.erase r.handle ∧
    s'.closes = s.closes ++ [(j, r.handle)])

theorem Owned.destroys (h : Owned s) (hx : s.objects[j]? = some x) (halive : x.alive = true)
    (close : SysResult) : ∃ s', s.step (.destroy j close) = some s' ∧ Destroys s s' j x := by
  obtain ⟨s', hstep⟩ := h.destroy_returns hx halive close
  refine ⟨s', hstep, ?_⟩
  cases step_cases h.base hstep with
  | @closed _ y r _ hy _ hused hshrunk _ _ hcloses =>
    obtain rfl : x = y := Option.some.inj (hx.symm.trans hy)
    refine ⟨fun hunused => ?_, fun _ => ⟨r, hshrunk.old, ?_, hshrunk.new, hshrunk.opened, hcloses⟩⟩
    · rw [hused] at hunused
      cases hunused
    · exact (h.base.handles _).mpr ⟨_, _, r, hshrunk.old, rfl⟩
  | @dropped _ y _ hy _ hunused heq =>
    obtain rfl : x = y := Option.some.inj (hx.symm.trans hy)
    subst heq
    refine ⟨fun _ => ⟨rfl, rfl, rfl⟩, fun hused => ?_⟩
    rw [hunused] at hused
    cases hused

/-- An object whose id is the marker keeps it. -/
theorem marker_step (h : Owned s) {l : Label} (hstep : s.step l = some s')
    (hx : s.objects[j]? = some x) (hunused : x.isUsed = false) :
    ∃ y, s'.objects[j]? = some y ∧ y.isUsed = false := by
  -- a destructor does not write the id
  have hdead : ∀ {k : ℕ} {z : StreamSocket}, s.objects[k]? = some z →
      s'.objects = s.objects.set k { z with alive := false } →
      ∃ y, s'.objects[j]? = some y ∧ y.isUsed = false := by
    intro k z hz hobjects
    rw [hobjects]
    by_cases hk : k = j
    · subst hk
      obtain rfl : x = z := Option.some.inj (hx.symm.trans hz)
      exact ⟨_, getElem?_set_of_some hx, hunused⟩
    · exact ⟨x, by rw [List.getElem?_set_ne hk, hx], hunused⟩
  cases step_cases h.base hstep with
  | opened _ _ hobjects _ => exact ⟨x, hobjects ▸ hx, hunused⟩
  | constructed hhanded =>
    exact ⟨x, hhanded.objects ▸ getElem?_concat_of_some hx, hunused⟩
  | threw heq => exact ⟨x, heq ▸ hx, hunused⟩
  | accepted hhanded =>
    exact ⟨x, hhanded.objects ▸ getElem?_concat_of_some hx, hunused⟩
  | @moved k z hz _ heq =>
    subst heq
    -- the object that is moved from gets the marker
    by_cases hk : k = j
    · subst hk
      exact ⟨_, getElem?_set_concat_self hx, by simp [StreamSocket.isUsed]⟩
    · exact ⟨x, getElem?_set_concat_of_ne (Ne.symm hk) hx, hunused⟩
  | closed hz _ _ _ _ hobjects _ => exact hdead hz hobjects
  | dropped hz _ _ heq => exact hdead hz (heq ▸ rfl)

/-- **Stream sockets own their sockets.** After any constructions, moves and destructions: the live
ids of a context that are not those of open acceptors are the ids of its objects that are not the
marker, each of one object; distinct objects have distinct handles; an object whose id is the marker
has closed nothing and keeps the marker; destructors return and close what they should; and an
object has closed a handle exactly if it was destroyed and is the last one that the socket with
this handle was moved into, and it closed it once. -/
theorem streams_own_sockets {contexts : List κ}
    (hempty : ∀ ctx ∈ contexts, ContextBase.sockets ctx = {}) {ls : List Label}
    (hrun : StepMachine.run step { contexts := contexts } ls = some s) :
    (∀ i id, (i, id) ∉ s.acceptors →
      ((∃ r, s.record i id = some r) ↔ ∃ j x, Holds s j x ∧ x.context = i ∧ x.id = id)) ∧
    (∀ j x, Holds s j x → (x.context, x.id) ∉ s.acceptors) ∧
    (∀ j k x y r r', Holds s j x → Holds s k y → s.record x.context x.id = some r →
      s.record y.context y.id = some r' → r.handle = r'.handle → j = k) ∧
    (∀ (j : ℕ) (x : StreamSocket), s.objects[j]? = some x → x.isUsed = false →
      (∀ fd, (j, fd) ∉ s.closes) ∧
      ∀ l s', s.step l = some s' → ∃ y, s'.objects[j]? = some y ∧ y.isUsed = false) ∧
    (∀ (j : ℕ) (x : StreamSocket) (close : SysResult), s.objects[j]? = some x → x.alive = true →
      ∃ s', s.step (.destroy j close) = some s' ∧ Destroys s s' j x) ∧
    (∀ j fd, (j, fd) ∈ s.closes ↔
      ∃ (x : StreamSocket) (r : SocketRecord), s.objects[j]? = some x ∧ x.alive = false ∧
        x.socket = some r ∧ r.handle = fd ∧
        ∀ (k : ℕ) (y : StreamSocket), s.objects[k]? = some y → y.context = x.context →
          y.socket = some r → k ≤ j) ∧
    (s.closes.map Prod.fst).Nodup := by
  have h := owned_run hempty hrun
  refine ⟨fun i id hmem => ⟨?_, ?_⟩, ?_, ?_, ?_, ?_, fun j fd => ⟨?_, ?_⟩, h.once⟩
  · rintro ⟨r, hr⟩
    obtain ⟨j, x, hx, halive, hused, hrest⟩ := (h.owner i id r hr).resolve_left hmem
    exact ⟨j, x, ⟨hx, halive, hused⟩, hrest⟩
  · rintro ⟨j, x, ⟨hx, halive, hused⟩, rfl, rfl⟩
    obtain ⟨r, hr⟩ := h.used j x hx hused
    exact ⟨r, h.held j x r hx hused halive hr⟩
  · rintro j x ⟨hx, halive, hused⟩
    exact h.apart j x hx hused halive
  · rintro j k x y r r' ⟨hx, halive, hused⟩ ⟨hy, halive', hused'⟩ hr hr' heq
    -- one handle is the handle of one record, and that is the socket of one object
    obtain ⟨hcontext, hid⟩ := h.base.inj _ _ _ _ r r' hr hr' heq
    obtain ⟨r₁, hr₁⟩ := h.used j x hx hused
    obtain ⟨r₂, hr₂⟩ := h.used k y hy hused'
    have hheld := h.held j x r₁ hx hused halive hr₁
    have hheld' := h.held k y r₂ hy hused' halive' hr₂
    rw [hcontext, hid, hheld', Option.some.injEq] at hheld
    exact h.only hy hused' hr₂ hx hused hcontext.symm (hheld ▸ hr₁)
  · refine fun j x hx hunused => ⟨fun fd hmem => ?_, fun l s' hstep =>
      marker_step h hstep hx hunused⟩
    obtain ⟨y, -, hy, hused, -⟩ := h.closed j fd hmem
    obtain rfl : x = y := Option.some.inj (hx.symm.trans hy)
    rw [hunused] at hused
    cases hused
  · exact fun j x close hx halive => h.destroys hx halive close
  · intro hmem
    obtain ⟨x, r, hx, hused, hdead, hr, hhandle⟩ := h.closed j fd hmem
    exact ⟨x, r, hx, hdead, hr, hhandle, fun k y hy hcontext hr' =>
      h.last j k x y r hx hy hused hcontext.symm hr hr'⟩
  · rintro ⟨x, r, hx, hdead, hr, rfl, hlast⟩
    -- the id of the last object is used: otherwise it would have been moved into a later one
    cases hused : x.isUsed with
    | true => exact h.spent j x r hx hused hdead hr
    | false =>
      obtain ⟨k, y, hy, hlt, hcontext, hr'⟩ := h.moved j x r hx hused hr
      exact absurd (hlast k y hy hcontext hr') (Nat.not_le.mpr hlt)

/-- Two contexts. The acceptor of the first one accepts a connection, whose socket is moved twice;
the second context then gets the handle that was closed. -/
def moves : List Label :=
  [.openAcceptor 0 true ⟨.ok 5, .ok 0, .ok 0, .ok 0⟩, .construct 1 (.ok 6), .accept 0 7, .move 1,
    .move 2, .destroy 1 (.ok 0), .destroy 3 (.fail 4), .destroy 2 (.ok 0), .construct 1 (.ok 7)]

theorem streams_own_sockets_moves :
    ∃ s : Streams LibeventContext,
      StepMachine.run step { contexts := [{}, {}] } moves = some s ∧ s.closes = [(3, 7)] ∧
        s.opened = [5, 6, 7] ∧ ∀ fd, (2, fd) ∉ s.closes := by
  have hempty : ∀ ctx ∈ [({} : LibeventContext), {}], ContextBase.sockets ctx = {} := by
    intro ctx hctx
    rcases List.mem_cons.mp hctx with rfl | hctx
    · rfl
    · rw [List.mem_singleton.mp hctx]
      rfl
  have hrun : StepMachine.run step ({ contexts := [{}, {}] } : Streams LibeventContext) moves =
      some _ := rfl
  obtain ⟨-, -, -, hmarker, -⟩ := streams_own_sockets hempty hrun
  exact ⟨_, hrun, rfl, rfl, (hmarker 2 _ rfl rfl).1⟩

end Ownership

end Streams

end Stdnet
