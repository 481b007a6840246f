import Stdnet.Library.ListEntries
import Stdnet.Library.StepMachine
import Stdnet.SocketTable

/-!
# Acceptors and Stream Sockets

`basic_socket_acceptor` and `basic_stream_socket` hold the id of a socket in a context. The id is
all that says who owns the socket: `close` of an acceptor releases it and leaves `_D_id` as it was,
so that the acceptor still passes for open, and closes or destroys what is under the id later.

Every object is accompanied by the number of the socket that was handed to it, and the program by
the calls of `_Release`; no function reads these.

## Main results

- `Sound.step`: a socket that was not released is under the id that its object holds.
- `exclusive_step`: the steps that keep the ownership of sockets.
- `exclusive_iff`: sockets are owned exclusively in the runs that close no acceptor.
-/

namespace Stdnet

namespace SocketObjects

open ListEntries

/-! ## Objects -/

inductive Kind where
  | acceptor
  | stream
  deriving DecidableEq, Repr

/-- A `basic_socket_acceptor` or a `basic_stream_socket`. -/
structure Object where
  kind : Kind
  /-- `_D_id` -/
  id : SocketId
  /-- the socket that was handed to the object -/
  number : Option ℕ
  alive : Bool := true
  /-- a `close` of the object has returned -/
  closed : Bool := false
  deriving DecidableEq, Repr

/-- `is_open()` of an acceptor; the destructor of a stream socket compares with the same value. -/
def Object.isOpen (x : Object) : Bool :=
  x.id != SocketId.invalid

/-- A context's sockets, the objects in the order of their construction, and the calls of
`_Release`: the object that made the call and the socket that was released, if the slot was not
free. -/
structure Program where
  sockets : Table := {}
  objects : List Object := []
  releases : List (ℕ × Option ℕ) := []
  terminated : Bool := false
  deriving DecidableEq, Repr

/-- `_D_context._Release(this->_Id(), _Error)` by the object `i`. -/
def Program.release (s : Program) (i : ℕ) (id : SocketId) (result : SysResult) :
    Program × Except Fault (Option ErrorCode) :=
  match s.sockets.release id result with
  | .error f => ({ s with releases := s.releases ++ [(i, none)] }, .error f)
  | .ok (t, e) =>
    ({ s with sockets := t, releases := s.releases ++ [(i, (s.sockets.record id).map (·.number))] },
      .ok e)

/-- The calls of the constructor of an acceptor after `socket()`: `setsockopt()` if the address may
be reused, `bind()` and `listen()`. -/
structure Setup where
  option : Option SysResult
  bind : SysResult
  listen : SysResult
  deriving DecidableEq, Repr

/-- The constructor returns. -/
def Setup.succeeds (u : Setup) : Bool :=
  (u.option.toList ++ [u.bind, u.listen]).all fun r => r.errorCode.isNone

/-- `_Make_socket(_D, _T, _P, _Error)` and what the constructor does with the id; it throws if
`socket()` fails. -/
def Program.withSocket (s : Program) (rest : SocketId → Table → Program) :
    SysResult → Option Program
  | .fail _ => some s
  | .ok fd =>
    if s.sockets.Fresh fd then
      match s.sockets.makeSocket fd with
      | .ok (id, t) => some (rest id t)
      | .error _ => none
    else none

/-- A `close` returns unless `_Release` throws or, if `throws`, `_Dispatch` does because of an
error. -/
def returns (throws : Bool) : Except Fault (Option ErrorCode) → Bool
  | .ok e => !(throws && e.isSome)
  | .error _ => false

/-- `close()` of an acceptor if `throws`, else `close(std::error_code&)`. -/
def Program.close (s : Program) (i : ℕ) (x : Object) (result : SysResult) (throws : Bool) :
    Program :=
  if x.isOpen then
    { (s.release i x.id result).1 with
      objects := s.objects.set i
        { x with closed := x.closed || returns throws (s.release i x.id result).2 } }
  else { s with objects := s.objects.set i { x with closed := true } }

/-- The destructor, which no exception may leave. -/
def Program.destroy (s : Program) (i : ℕ) (x : Object) (result : SysResult) : Program :=
  if x.isOpen then
    { (s.release i x.id result).1 with
      objects := s.objects.set i { x with alive := false }
      terminated := !returns false (s.release i x.id result).2 }
  else { s with objects := s.objects.set i { x with alive := false } }

/-! ## Steps -/

inductive Label where
  /-- the constructor of an acceptor, with an endpoint -/
  | makeAcceptor (socket : SysResult) (setup : Setup)
  /-- a stream socket is constructed with an endpoint, or for a connection that was accepted -/
  | makeStream (socket : SysResult)
  /-- the move constructor of a stream socket -/
  | moveStream (i : ℕ)
  | close (i : ℕ) (result : SysResult)
  | closeWithError (i : ℕ) (result : SysResult)
  | destroy (i : ℕ) (result : SysResult)

/-- The object, if it is alive and of the kind. -/
def Program.living (s : Program) (i : ℕ) (p : Kind → Bool) : Option Object :=
  s.objects[i]?.filter fun x => x.alive && p x.kind

/-- One step. A constructor that throws leaves no object; the destructor is not run. -/
def Program.step (s : Program) (l : Label) : Option Program :=
  if s.terminated then none
  else
    match l with
    | .makeAcceptor socket setup =>
      s.withSocket (fun id t =>
        if setup.succeeds then
          { s with
            sockets := t
            objects := s.objects ++ [{ kind := .acceptor, id := id, number := some s.sockets.made }] }
        else { s with sockets := t }) socket
    | .makeStream socket =>
      s.withSocket (fun id t =>
        { s with
          sockets := t
          objects := s.objects ++ [{ kind := .stream, id := id, number := some s.sockets.made }] }) socket
    | .moveStream i =>
      (s.living i (· == .stream)).map fun x =>
        { s with
          objects := s.objects.set i { x with id := SocketId.invalid, number := none } ++
            [{ kind := .stream, id := x.id, number := x.number }] }
    | .close i result => (s.living i (· == .acceptor)).map fun x => s.close i x result true
    | .closeWithError i result => (s.living i (· == .acceptor)).map fun x => s.close i x result false
    | .destroy i result => (s.living i fun _ => true).map fun x => s.destroy i x result

/-! ## Ownership -/

/-- Every call of `_Release` released the socket that was handed to the object that made it, no
socket was released twice, and an acceptor is not open after a `close` that has returned. -/
structure Exclusive (s : Program) : Prop where
  closed : ∀ x ∈ s.objects, x.closed = true → x.isOpen = false
  owned : ∀ i k, (i, k) ∈ s.releases →
    ∃ (x : Object) (n : ℕ), s.objects[i]? = some x ∧ x.number = some n ∧ k = some n
  once : (s.releases.filterMap Prod.snd).Nodup

/-- The socket that was handed to the object has been released. -/
def Spent (s : Program) (i : ℕ) : Prop :=
  ∃ (x : Object) (n : ℕ), s.objects[i]? = some x ∧ x.number = some n ∧ n ∈ s.sockets.released

/-- The step is not a `close` that returns, nor a `close` or the destructor of an object whose
socket was released before. -/
def Harmless (s : Program) : Label → Prop
  | .close i result => ¬ Spent s i ∧ result.errorCode ≠ none
  | .closeWithError _ _ => False
  | .destroy i _ => ¬ Spent s i
  | _ => True

/-! ## The invariant -/

/-- Whatever was released by whom, a socket that was not released is under the id of the object to
which it was handed, and no other object has it. -/
structure Sound (s : Program) : Prop where
  table : s.sockets.Ok
  released : s.releases.filterMap Prod.snd = s.sockets.released
  once : s.sockets.released.Nodup
  entries : ∀ i k, (i, k) ∈ s.releases → i < s.objects.length
  made : ∀ (i : ℕ) (x : Object) (n : ℕ), s.objects[i]? = some x → x.number = some n →
    n < s.sockets.made
  placed : ∀ (i : ℕ) (x : Object) (n : ℕ), s.objects[i]? = some x → x.number = some n →
    n ∉ s.sockets.released →
    ∃ r, s.sockets.record x.id = some r ∧ r.number = n
  distinct : ∀ (i j : ℕ) (x y : Object) (n : ℕ), s.objects[i]? = some x → s.objects[j]? = some y →
    x.number = some n → y.number = some n → i = j
  held : ∀ (i : ℕ) (x : Object), s.objects[i]? = some x → (x.isOpen = true ↔ x.number.isSome)
  acceptors : ∀ (i : ℕ) (x : Object), s.objects[i]? = some x → x.kind = .acceptor → x.number.isSome
  streams : ∀ (i : ℕ) (x : Object), s.objects[i]? = some x → x.alive = true → x.kind = .stream →
    ∀ k, (i, k) ∉ s.releases

theorem sound_initial : Sound {} where
  table := Table.ok_empty
  released := rfl
  once := List.nodup_nil
  entries i k h := by simp at h
  made i x n h := by simp at h
  placed i x n h := by simp at h
  distinct i j x y n h := by simp at h
  held i x h := by simp at h
  acceptors i x h := by simp at h
  streams i x h := by simp at h

section Step

variable {s s' : Program} {i : ℕ} {x x' : Object} {n : ℕ} {result : SysResult}

theorem living_eq_some {p : Kind → Bool} (h : s.living i p = some x) :
    s.objects[i]? = some x ∧ x.alive = true ∧ p x.kind = true := by
  simp only [Program.living, Option.filter_eq_some_iff, Bool.and_eq_true] at h
  exact h

/-- A live id is not the invalid one. -/
theorem isOpen_of_record {t : Table} (h : t.Ok) {id : SocketId} {r : SocketRecord}
    (hr : t.record id = some r) : id ≠ SocketId.invalid := by
  rintro rfl
  have hlt := Container.lt_length_of_recordAt hr
  have hsmall := h.small
  have hmax : SocketId.invalid.toNat = 2 ^ 32 - 1 := by decide
  omega

/-- What a `_Release` by object `i` does: it throws because the slot is free, or it releases the
socket that is under the id. -/
theorem release_cases (h : s.sockets.Ok) (i : ℕ) (id : SocketId) (result : SysResult) :
    (s.sockets.record id = none ∧
        ∃ f, s.release i id result = ({ s with releases := s.releases ++ [(i, none)] }, .error f)) ∨
      ∃ r t, s.sockets.record id = some r ∧ t.Ok ∧ t.made = s.sockets.made ∧
        t.released = s.sockets.released ++ [r.number] ∧
        (∀ id', id' ≠ id → t.record id' = s.sockets.record id') ∧
        s.release i id result =
          ({ s with sockets := t, releases := s.releases ++ [(i, some r.number)] },
            .ok result.errorCode) := by
  unfold Program.release
  cases hr : s.sockets.record id with
  | none =>
    obtain ⟨f, hf⟩ := Table.release_error hr result
    exact .inl ⟨rfl, f, by rw [hf]⟩
  | some r =>
    obtain ⟨t, hrelease, hok, -, hother, hmade, hreleased⟩ := Table.release_spec h hr result
    exact .inr ⟨r, t, rfl, hok, hmade, hreleased, hother, by rw [hrelease]; rfl⟩

/-- Every step but a move keeps the id, the socket and the kind of the objects there are. -/
structure SameAs (x x' : Object) : Prop where
  id : x'.id = x.id
  number : x'.number = x.number
  kind : x'.kind = x.kind
  alive : x'.alive = true → x.alive = true

/-- The objects after one of them was replaced. -/
theorem getElem?_set_sameAs (hx : s.objects[i]? = some x) (h : SameAs x x') {j : ℕ} {y : Object}
    (hy : (s.objects.set i x')[j]? = some y) : ∃ y', s.objects[j]? = some y' ∧ SameAs y' y := by
  rcases getElem?_set_cases hy with ⟨rfl, rfl⟩ | ⟨-, hy⟩
  · exact ⟨x, hx, h⟩
  · exact ⟨y, hy, rfl, rfl, rfl, id⟩

theorem Sound.replace (h : Sound s) (hx : s.objects[i]? = some x) (hsame : SameAs x x') :
    Sound { s with objects := s.objects.set i x' } where
  table := h.table
  released := h.released
  once := h.once
  entries j k hk := by
    rw [List.length_set]
    exact h.entries j k hk
  made j y n hy hn := by
    obtain ⟨y', hy', hsame'⟩ := getElem?_set_sameAs hx hsame hy
    exact h.made j y' n hy' (hsame'.number ▸ hn)
  placed j y n hy hn := by
    obtain ⟨y', hy', hsame'⟩ := getElem?_set_sameAs hx hsame hy
    rw [hsame'.id]
    exact h.placed j y' n hy' (hsame'.number ▸ hn)
  distinct j k y z n hy hz hn hn' := by
    obtain ⟨y', hy', hsame'⟩ := getElem?_set_sameAs hx hsame hy
    obtain ⟨z', hz', hsame''⟩ := getElem?_set_sameAs hx hsame hz
    exact h.distinct j k y' z' n hy' hz' (hsame'.number ▸ hn) (hsame''.number ▸ hn')
  held j y hy := by
    obtain ⟨y', hy', hsame'⟩ := getElem?_set_sameAs hx hsame hy
    rw [Object.isOpen, hsame'.id, hsame'.number]
    exact h.held j y' hy'
  acceptors j y hy hkind := by
    obtain ⟨y', hy', hsame'⟩ := getElem?_set_sameAs hx hsame hy
    rw [hsame'.number]
    exact h.acceptors j y' hy' (hsame'.kind ▸ hkind)
  streams j y hy halive hkind := by
    obtain ⟨y', hy', hsame'⟩ := getElem?_set_sameAs hx hsame hy
    exact h.streams j y' hy' (hsame'.alive halive) (hsame'.kind ▸ hkind)

/-- A call of `_Release` leaves every socket that it did not release where it was. -/
theorem Sound.release (h : Sound s) (hi : i < s.objects.length)
    (hstream : ∀ x, s.objects[i]? = some x → x.alive = true → x.kind ≠ .stream) (id : SocketId)
    (result : SysResult) : Sound (s.release i id result).1 := by
  have hstreams : ∀ k : Option ℕ, ∀ (j : ℕ) (y : Object), s.objects[j]? = some y → y.alive = true →
      y.kind = .stream → ∀ k', (j, k') ∉ s.releases ++ [(i, k)] := by
    intro k j y hy halive hkind k' hmem
    rcases List.mem_append.mp hmem with hmem | hmem
    · exact h.streams j y hy halive hkind k' hmem
    · cases List.mem_singleton.mp hmem
      exact hstream y hy halive hkind
  have hentries : ∀ (k : Option ℕ) (j : ℕ) (k' : Option ℕ), (j, k') ∈ s.releases ++ [(i, k)] →
      j < s.objects.length := by
    intro k j k' hmem
    rcases List.mem_append.mp hmem with hmem | hmem
    · exact h.entries j k' hmem
    · cases List.mem_singleton.mp hmem
      exact hi
  rcases release_cases h.table i id result with
    ⟨-, f, heq⟩ | ⟨r, t, hr, hok, hmade, hreleased, hother, heq⟩
  · rw [heq]
    refine ⟨h.table, ?_, h.once, hentries none, h.made, h.placed, h.distinct, h.held,
      h.acceptors, hstreams none⟩
    simp [h.released]
  · rw [heq]
    obtain ⟨-, hnew⟩ := h.table.liveMade _ r hr
    refine ⟨hok, ?_, ?_, hentries _, ?_, ?_, h.distinct, h.held, h.acceptors, hstreams _⟩
    · simp [h.released, hreleased]
    · show t.released.Nodup
      rw [hreleased]
      exact List.nodup_append.mpr ⟨h.once, List.nodup_singleton _, fun a ha b hb hab =>
        hnew (List.mem_singleton.mp hb ▸ hab ▸ ha)⟩
    · show ∀ (j : ℕ) (y : Object) (n : ℕ), s.objects[j]? = some y → y.number = some n → n < t.made
      rw [hmade]
      exact h.made
    · intro j y n hy hn hlive
      have hlive' : n ∉ s.sockets.released ++ [r.number] := by
        rw [← hreleased]
        exact hlive
      rw [List.mem_append, List.mem_singleton, not_or] at hlive'
      obtain ⟨r', hr', hnum⟩ := h.placed j y n hy hn hlive'.1
      refine ⟨r', ?_, hnum⟩
      show t.record y.id = some r'
      rw [hother y.id ?_]
      · exact hr'
      · rintro heq'
        rw [heq', hr] at hr'
        cases hr'
        exact hlive'.2 hnum.symm

/-- A constructor that has made its socket: the table grows, the objects keep theirs. -/
theorem Sound.grow (h : Sound s) {fd : Handle} (hfresh : s.sockets.Fresh fd) {id : SocketId}
    {t : Table}
    (hmake : s.sockets.makeSocket fd = .ok (id, t)) : Sound { s with sockets := t } := by
  obtain ⟨id', t', hmake', hok, hfree, -, hother, hmade, hreleased⟩ :=
    Table.makeSocket_spec h.table hfresh
  cases hmake.symm.trans hmake'
  refine ⟨hok, ?_, ?_, h.entries, ?_, ?_, h.distinct, h.held, h.acceptors, h.streams⟩
  · show _ = t.released
    rw [hreleased]
    exact h.released
  · show t.released.Nodup
    rw [hreleased]
    exact h.once
  · intro i x n hx hn
    show n < t.made
    rw [hmade]
    exact Nat.lt_succ_of_lt (h.made i x n hx hn)
  · intro i x n hx hn hlive
    have hlive' : n ∉ s.sockets.released := by
      rw [← hreleased]
      exact hlive
    obtain ⟨r, hr, hnum⟩ := h.placed i x n hx hn hlive'
    refine ⟨r, ?_, hnum⟩
    show t.record x.id = some r
    rw [hother x.id]
    · exact hr
    · rintro heq
      rw [heq, hfree] at hr
      cases hr

/-- A new object for the socket that was made. -/
theorem Sound.add (h : Sound s) {fd : Handle} (hfresh : s.sockets.Fresh fd) {id : SocketId}
    {t : Table} (hmake : s.sockets.makeSocket fd = .ok (id, t)) (kind : Kind) :
    Sound { s with
      sockets := t
      objects := s.objects ++ [{ kind := kind, id := id, number := some s.sockets.made }] } := by
  have hgrown := h.grow hfresh hmake
  obtain ⟨id', t', hmake', hok, -, hnew, -, hmade, -⟩ := Table.makeSocket_spec h.table hfresh
  cases hmake.symm.trans hmake'
  constructor
  case table => exact hok
  case released => exact hgrown.released
  case once => exact hgrown.once
  case entries =>
    intro i k hk
    rw [List.length_append]
    exact Nat.lt_add_right _ (h.entries i k hk)
  case made =>
    intro i x n hx hn
    rcases getElem?_concat_cases hx with ⟨-, rfl⟩ | ⟨-, hx⟩
    · cases hn
      show s.sockets.made < t.made
      omega
    · exact hgrown.made i x n hx hn
  case placed =>
    intro i x n hx hn hlive
    rcases getElem?_concat_cases hx with ⟨-, rfl⟩ | ⟨-, hx⟩
    · cases hn
      exact ⟨_, hnew, rfl⟩
    · exact hgrown.placed i x n hx hn hlive
  case distinct =>
    intro i j x y n hx hy hn hn'
    rcases getElem?_concat_cases hx with ⟨rfl, rfl⟩ | ⟨-, hx⟩ <;>
      rcases getElem?_concat_cases hy with ⟨rfl, rfl⟩ | ⟨-, hy⟩
    · rfl
    · cases hn
      exact absurd (h.made j y _ hy hn') (lt_irrefl _)
    · cases hn'
      exact absurd (h.made i x _ hx hn) (lt_irrefl _)
    · exact h.distinct i j x y n hx hy hn hn'
  case held =>
    intro i x hx
    rcases getElem?_concat_cases hx with ⟨-, rfl⟩ | ⟨-, hx⟩
    · simp [Object.isOpen, isOpen_of_record hok hnew]
    · exact h.held i x hx
  case acceptors =>
    intro i x hx hkind
    rcases getElem?_concat_cases hx with ⟨-, rfl⟩ | ⟨-, hx⟩
    · rfl
    · exact h.acceptors i x hx hkind
  case streams =>
    intro i x hx halive hkind k hk
    rcases getElem?_concat_cases hx with ⟨rfl, -⟩ | ⟨-, hx⟩
    · exact absurd (h.entries _ k hk) (lt_irrefl _)
    · exact h.streams i x hx halive hkind k hk

/-- The socket of a stream socket is handed on to the one that is constructed from it. -/
theorem Sound.move (h : Sound s) (hx : s.objects[i]? = some x) (hkind : x.kind = .stream)
    (halive : x.alive = true) :
    Sound { s with
      objects := s.objects.set i { x with id := SocketId.invalid, number := none } ++
        [{ kind := .stream, id := x.id, number := x.number }] } := by
  constructor
  case table => exact h.table
  case released => exact h.released
  case once => exact h.once
  case entries =>
    intro j k hk
    rw [List.length_append, List.length_set]
    exact Nat.lt_add_right _ (h.entries j k hk)
  case made =>
    intro j y n hy hn
    rcases getElem?_set_concat_cases hy with ⟨-, rfl⟩ | ⟨-, -, rfl⟩ | ⟨-, -, hy⟩
    · exact h.made i x n hx hn
    · cases hn
    · exact h.made j y n hy hn
  case placed =>
    intro j y n hy hn
    rcases getElem?_set_concat_cases hy with ⟨-, rfl⟩ | ⟨-, -, rfl⟩ | ⟨-, -, hy⟩
    · exact h.placed i x n hx hn
    · cases hn
    · exact h.placed j y n hy hn
  case distinct =>
    intro j k y z n hy hz hn hn'
    rcases getElem?_set_concat_cases hy with ⟨rfl, rfl⟩ | ⟨-, -, rfl⟩ | ⟨hne, -, hy⟩
    · rcases getElem?_set_concat_cases hz with ⟨rfl, -⟩ | ⟨-, -, rfl⟩ | ⟨hne', -, hz⟩
      · rfl
      · cases hn'
      · exact absurd (h.distinct i k x z n hx hz hn hn') hne'.symm
    · cases hn
    · rcases getElem?_set_concat_cases hz with ⟨-, rfl⟩ | ⟨-, -, rfl⟩ | ⟨-, -, hz⟩
      · exact absurd (h.distinct j i y x n hy hx hn hn') hne
      · cases hn'
      · exact h.distinct j k y z n hy hz hn hn'
  case held =>
    intro j y hy
    rcases getElem?_set_concat_cases hy with ⟨-, rfl⟩ | ⟨-, -, rfl⟩ | ⟨-, -, hy⟩
    · exact h.held i x hx
    · simp [Object.isOpen]
    · exact h.held j y hy
  case acceptors =>
    intro j y hy hk
    rcases getElem?_set_concat_cases hy with ⟨-, rfl⟩ | ⟨-, -, rfl⟩ | ⟨-, -, hy⟩
    · cases hk
    · exact absurd (hkind.symm.trans hk) nofun
    · exact h.acceptors j y hy hk
  case streams =>
    intro j y hy hal hk k hmem
    rcases getElem?_set_concat_cases hy with ⟨rfl, -⟩ | ⟨rfl, -⟩ | ⟨-, -, hy⟩
    · exact absurd (h.entries _ k hmem) (lt_irrefl _)
    · exact h.streams j x hx halive hkind k hmem
    · exact h.streams j y hy hal hk k hmem

/-! ## One step -/

/-- What a step can do, with everything that it requires. -/
inductive StepCases (s : Program) : Label → Program → Prop where
  | threw {l : Label} (hl : Harmless s l) : StepCases s l s
  | made {l : Label} {fd : Handle} {id : SocketId} {t : Table} (hl : Harmless s l)
      (hfresh : s.sockets.Fresh fd) (hmake : s.sockets.makeSocket fd = .ok (id, t)) (kind : Kind) :
      StepCases s l { s with
        sockets := t
        objects := s.objects ++ [{ kind := kind, id := id, number := some s.sockets.made }] }
  | leaked {l : Label} {fd : Handle} {id : SocketId} {t : Table} (hl : Harmless s l)
      (hfresh : s.sockets.Fresh fd) (hmake : s.sockets.makeSocket fd = .ok (id, t)) :
      StepCases s l { s with sockets := t }
  | moved {i : ℕ} {x : Object} (hx : s.objects[i]? = some x) (halive : x.alive = true)
      (hkind : x.kind = .stream) :
      StepCases s (.moveStream i) { s with
        objects := s.objects.set i { x with id := SocketId.invalid, number := none } ++
          [{ kind := .stream, id := x.id, number := x.number }] }
  | closed {i : ℕ} {x : Object} {result : SysResult} (hx : s.objects[i]? = some x)
      (hkind : x.kind = .acceptor) : StepCases s (.close i result) (s.close i x result true)
  | closedWithError {i : ℕ} {x : Object} {result : SysResult} (hx : s.objects[i]? = some x)
      (hkind : x.kind = .acceptor) : StepCases s (.closeWithError i result) (s.close i x result false)
  | destroyed {i : ℕ} {x : Object} {result : SysResult} (hx : s.objects[i]? = some x) :
      StepCases s (.destroy i result) (s.destroy i x result)

theorem withSocket_cases {rest : SocketId → Table → Program} {socket : SysResult}
    (h : s.withSocket rest socket = some s') :
    s' = s ∨
      ∃ fd id t, s.sockets.Fresh fd ∧ s.sockets.makeSocket fd = .ok (id, t) ∧ s' = rest id t := by
  unfold Program.withSocket at h
  split at h
  next => exact .inl (Option.some.inj h).symm
  next fd =>
    split at h
    next hfresh =>
      split at h
      next id t hmake => exact .inr ⟨(fd : Handle), id, t, hfresh, hmake, (Option.some.inj h).symm⟩
      next => cases h
    next => cases h

theorem step_cases {l : Label} (h : s.step l = some s') : StepCases s l s' := by
  simp only [Program.step, Option.ite_none_left_eq_some] at h
  obtain ⟨-, h⟩ := h
  cases l with
  | makeAcceptor socket setup =>
    have hl : Harmless s (.makeAcceptor socket setup) := trivial
    rcases withSocket_cases h with rfl | ⟨fd, id, t, hfresh, hmake, rfl⟩
    · exact .threw hl
    · split
      · exact .made hl hfresh hmake .acceptor
      · exact .leaked hl hfresh hmake
  | makeStream socket =>
    have hl : Harmless s (.makeStream socket) := trivial
    rcases withSocket_cases h with rfl | ⟨fd, id, t, hfresh, hmake, rfl⟩
    · exact .threw hl
    · exact .made hl hfresh hmake .stream
  | moveStream i =>
    obtain ⟨x, hx, rfl⟩ := Option.map_eq_some_iff.mp h
    obtain ⟨hx, halive, hkind⟩ := living_eq_some hx
    exact .moved hx halive (by simpa using hkind)
  | close i result =>
    obtain ⟨x, hx, rfl⟩ := Option.map_eq_some_iff.mp h
    obtain ⟨hx, -, hkind⟩ := living_eq_some hx
    exact .closed hx (by simpa using hkind)
  | closeWithError i result =>
    obtain ⟨x, hx, rfl⟩ := Option.map_eq_some_iff.mp h
    obtain ⟨hx, -, hkind⟩ := living_eq_some hx
    exact .closedWithError hx (by simpa using hkind)
  | destroy i result =>
    obtain ⟨x, hx, rfl⟩ := Option.map_eq_some_iff.mp h
    exact .destroyed (living_eq_some hx).1

/-- `_Release` does not look at the objects. -/
theorem release_objects (s : Program) (objects : List Object) (i : ℕ) (id : SocketId)
    (result : SysResult) :
    ({ s with objects := objects } : Program).release i id result =
      ({ (s.release i id result).1 with objects := objects }, (s.release i id result).2) := by
  cases hr : s.sockets.release id result with
  | error f => simp only [Program.release, hr]
  | ok p => simp only [Program.release, hr]

theorem Sound.close (h : Sound s) (hx : s.objects[i]? = some x) (hkind : x.kind = .acceptor)
    (result : SysResult) (throws : Bool) : Sound (s.close i x result throws) := by
  have hset : ∀ b, Sound { s with objects := s.objects.set i { x with closed := b } } :=
    fun b => h.replace hx ⟨rfl, rfl, rfl, id⟩
  unfold Program.close
  split
  next =>
    -- the object is written after the release, which does not look at it
    have hrelease := (hset (x.closed || returns throws (s.release i x.id result).2)).release (i := i)
      (by rw [List.length_set]; exact (List.getElem?_eq_some_iff.mp hx).1) ?_ x.id result
    · rw [release_objects] at hrelease
      exact hrelease
    · intro y hy _
      rw [getElem?_set_of_some hx, Option.some.injEq] at hy
      rw [← hy, hkind]
      exact nofun
  next => exact hset true

theorem Sound.destroy (h : Sound s) (hx : s.objects[i]? = some x) (result : SysResult) :
    Sound (s.destroy i x result) := by
  have hset : Sound { s with objects := s.objects.set i { x with alive := false } } :=
    h.replace hx ⟨rfl, rfl, rfl, nofun⟩
  unfold Program.destroy
  split
  next =>
    have hrelease := hset.release (i := i)
      (by rw [List.length_set]; exact (List.getElem?_eq_some_iff.mp hx).1) ?_ x.id result
    · rw [release_objects] at hrelease
      exact ⟨hrelease.table, hrelease.released, hrelease.once, hrelease.entries, hrelease.made,
        hrelease.placed, hrelease.distinct, hrelease.held, hrelease.acceptors, hrelease.streams⟩
    · intro y hy halive
      rw [getElem?_set_of_some hx, Option.some.injEq] at hy
      rw [← hy] at halive
      cases halive
  next => exact hset

/-- **Invariant step**: every step preserves the invariant. -/
theorem Sound.step {l : Label} (h : Sound s) (hstep : s.step l = some s') : Sound s' := by
  cases step_cases hstep with
  | threw => exact h
  | made hl hfresh hmake kind => exact h.add hfresh hmake kind
  | leaked hl hfresh hmake => exact h.grow hfresh hmake
  | moved hx halive hkind => exact h.move hx hkind halive
  | closed hx hkind => exact h.close hx hkind _ _
  | closedWithError hx hkind => exact h.close hx hkind _ _
  | destroyed hx => exact h.destroy hx _

/-! ## Ownership -/

/-- The entry that a `_Release` by object `i` leaves names the socket that was handed to `i` exactly
if that socket had not been released. -/
theorem release_entry (h : Sound s) (hx : s.objects[i]? = some x) (hn : x.number = some n)
    (result : SysResult) : ∃ k, (s.release i x.id result).1.releases = s.releases ++ [(i, k)] ∧
      (k = some n ↔ n ∉ s.sockets.released) ∧
      (n ∉ s.sockets.released → (s.release i x.id result).2 = .ok result.errorCode) := by
  rcases release_cases h.table i x.id result with ⟨hnone, f, heq⟩ | ⟨r, t, hr, -, -, -, -, heq⟩
  · rw [heq]
    have hspent : n ∈ s.sockets.released := by
      by_contra hlive
      obtain ⟨r, hr, -⟩ := h.placed i x n hx hn hlive
      rw [hnone] at hr
      cases hr
    exact ⟨none, rfl, iff_of_false nofun (not_not.mpr hspent), fun hlive => absurd hspent hlive⟩
  · rw [heq]
    refine ⟨some r.number, rfl, ?_, fun _ => rfl⟩
    rw [Option.some.injEq]
    constructor
    · -- what is under an id has not been released
      rintro rfl
      exact (h.table.liveMade _ r hr).2
    · intro hlive
      obtain ⟨r', hr', hnum⟩ := h.placed i x n hx hn hlive
      cases hr.symm.trans hr'
      exact hnum

theorem spent_iff (hx : s.objects[i]? = some x) (hn : x.number = some n) :
    Spent s i ↔ n ∈ s.sockets.released := by
  constructor
  · rintro ⟨y, m, hy, hm, hmem⟩
    cases hx.symm.trans hy
    cases hn.symm.trans hm
    exact hmem
  · intro hmem
    exact ⟨x, n, hx, hn, hmem⟩

/-- A `_Release` by object `i`, which becomes `x'`, keeps the ownership exactly if the socket of `i`
had not been released and `i` is not taken for open after a `close`. -/
theorem exclusive_release (h : Sound s) (hp : Exclusive s) (hx : s.objects[i]? = some x)
    (hn : x.number = some n) (hsame : SameAs x x') (result : SysResult) (b : Bool) :
    Exclusive { (s.release i x.id result).1 with
        objects := s.objects.set i x', terminated := b } ↔
      n ∉ s.sockets.released ∧ (x'.closed = true → x'.isOpen = false) := by
  obtain ⟨k, hreleases, hk, -⟩ := release_entry h hx hn result
  have hx' : (s.objects.set i x')[i]? = some x' := getElem?_set_of_some hx
  constructor
  -- the new entry names the socket of `i`
  · intro hp'
    refine ⟨?_, hp'.closed x' (List.mem_of_getElem? hx')⟩
    obtain ⟨y, m, hy, hm, hkm⟩ := hp'.owned i k (by
      show (i, k) ∈ (s.release i x.id result).1.releases
      rw [hreleases]
      exact List.mem_append_right _ (List.mem_singleton_self _))
    cases hx'.symm.trans hy
    rw [hsame.number, hn, Option.some.injEq] at hm
    exact hk.mp (hm ▸ hkm)
  · rintro ⟨hlive, hclosed⟩
    obtain rfl := hk.mpr hlive
    refine ⟨fun y hy hyc => ?_, fun j k' hmem => ?_, ?_⟩
    · rcases List.mem_or_eq_of_mem_set hy with hy | rfl
      · exact hp.closed y hy hyc
      · exact hclosed hyc
    · have hmem' : (j, k') ∈ s.releases ++ [(i, some n)] := by
        rw [← hreleases]
        exact hmem
      rcases List.mem_append.mp hmem' with hmem' | hmem'
      · obtain ⟨y, m, hy, hm, hkm⟩ := hp.owned j k' hmem'
        by_cases hj : j = i
        · subst hj
          cases hx.symm.trans hy
          exact ⟨x', m, hx', hsame.number.trans hm, hkm⟩
        · exact ⟨y, m, by rw [List.getElem?_set_ne (Ne.symm hj)]; exact hy, hm, hkm⟩
      · cases List.mem_singleton.mp hmem'
        exact ⟨x', n, hx', hsame.number.trans hn, rfl⟩
    · show ((s.release i x.id result).1.releases.filterMap Prod.snd).Nodup
      rw [hreleases, List.filterMap_append, h.released]
      refine List.nodup_append.mpr ⟨h.once, List.nodup_singleton n, fun a ha m hm ham => ?_⟩
      exact hlive (List.mem_singleton.mp hm ▸ ham ▸ ha)

/-- The steps that release nothing keep the ownership: the objects that made a call stay as they
are. -/
theorem Exclusive.of_releases_eq (hp : Exclusive s) (hreleases : s'.releases = s.releases)
    (hkeep : ∀ j y m, (∃ k, (j, k) ∈ s.releases) → s.objects[j]? = some y → y.number = some m →
      ∃ y', s'.objects[j]? = some y' ∧ y'.number = some m)
    (hclosed : ∀ y ∈ s'.objects, y.closed = true → y.isOpen = false) : Exclusive s' := by
  refine ⟨hclosed, fun j k hmem => ?_, by rw [hreleases]; exact hp.once⟩
  rw [hreleases] at hmem
  obtain ⟨y, m, hy, hm, hk⟩ := hp.owned j k hmem
  obtain ⟨y', hy', hm'⟩ := hkeep j y m ⟨k, hmem⟩ hy hm
  exact ⟨y', m, hy', hm', hk⟩

theorem exclusive_add (hp : Exclusive s) (t : Table) (kind : Kind) (id : SocketId) (m : Option ℕ) :
    Exclusive { s with
      sockets := t, objects := s.objects ++ [{ kind := kind, id := id, number := m }] } := by
  refine hp.of_releases_eq rfl (fun j y n _ hy hn => ⟨y, ?_, hn⟩) fun y hy hc => ?_
  · exact getElem?_concat_of_some hy
  · rcases List.mem_append.mp hy with hy | hy
    · exact hp.closed y hy hc
    · cases List.mem_singleton.mp hy
      cases hc

/-- A stream socket that was moved from never made a call. -/
theorem exclusive_move (h : Sound s) (hp : Exclusive s) (hx : s.objects[i]? = some x)
    (hkind : x.kind = .stream) (halive : x.alive = true) :
    Exclusive { s with
      objects := s.objects.set i { x with id := SocketId.invalid, number := none } ++
        [{ kind := .stream, id := x.id, number := x.number }] } := by
  refine hp.of_releases_eq rfl (fun j y n hmade hy hn => ⟨y, ?_, hn⟩) fun y hy hc => ?_
  · obtain ⟨k, hk⟩ := hmade
    have hne : j ≠ i := by
      rintro rfl
      exact h.streams j x hx halive hkind k hk
    exact getElem?_set_concat_of_ne hne hy
  · rcases List.mem_append.mp hy with hy | hy
    · rcases List.mem_or_eq_of_mem_set hy with hy | rfl
      · exact hp.closed y hy hc
      · simp [Object.isOpen]
    · cases List.mem_singleton.mp hy
      cases hc

/-- A `close` of an acceptor: while its socket has not been released the acceptor passes for open,
and still does when the call returns. -/
theorem exclusive_close (h : Sound s) (hp : Exclusive s) (hx : s.objects[i]? = some x)
    (hkind : x.kind = .acceptor) (result : SysResult) (throws : Bool) :
    Exclusive (s.close i x result throws) ↔
      ¬ Spent s i ∧ returns throws (.ok result.errorCode) = false := by
  obtain ⟨n, hn⟩ := Option.isSome_iff_exists.mp (h.acceptors i x hx hkind)
  have hopen : x.isOpen = true := (h.held i x hx).mpr (by rw [hn]; rfl)
  -- an acceptor keeps its id, so none has been closed properly so far
  have hproper : x.closed = false := by
    cases hc : x.closed with
    | false => rfl
    | true => exact absurd (hp.closed x (List.mem_of_getElem? hx) hc) (by simp [hopen])
  obtain ⟨-, -, -, hdone⟩ := release_entry h hx hn result
  have hsame : ∀ b, SameAs x { x with closed := b } := fun _ => ⟨rfl, rfl, rfl, id⟩
  have hopen' : ∀ b, ({ x with closed := b } : Object).isOpen = true := fun _ => hopen
  rw [Program.close, if_pos hopen]
  refine (exclusive_release h hp hx hn (hsame _) result _).trans ?_
  rw [spent_iff hx hn]
  refine and_congr_right fun hlive => ?_
  rw [hdone hlive, hproper, Bool.false_or, hopen']
  cases returns throws (.ok result.errorCode) <;> simp

/-- The destructor releases the socket of its object unless it was released before. -/
theorem exclusive_destroy (h : Sound s) (hp : Exclusive s) (hx : s.objects[i]? = some x)
    (result : SysResult) : Exclusive (s.destroy i x result) ↔ ¬ Spent s i := by
  have hproper : ({ x with alive := false } : Object).closed = true →
      ({ x with alive := false } : Object).isOpen = false :=
    fun hc => hp.closed x (List.mem_of_getElem? hx) hc
  unfold Program.destroy
  split
  next hopen =>
    obtain ⟨n, hn⟩ := Option.isSome_iff_exists.mp ((h.held i x hx).mp hopen)
    have hsame : SameAs x { x with alive := false } := ⟨rfl, rfl, rfl, nofun⟩
    refine (exclusive_release h hp hx hn hsame result _).trans ?_
    rw [spent_iff hx hn, and_iff_left hproper]
  next hopen =>
    -- a stream socket that was moved from
    have hnone : x.number = none := by
      cases hn : x.number with
      | none => rfl
      | some n => exact absurd ((h.held i x hx).mpr (by rw [hn]; rfl)) hopen
    refine iff_of_true ?_ ?_
    · refine hp.of_releases_eq rfl (fun j y n _ hy hn => ?_) fun y hy hc => ?_
      · by_cases hj : j = i
        · subst hj
          cases hx.symm.trans hy
          rw [hnone] at hn
          cases hn
        · refine ⟨y, ?_, hn⟩
          show (s.objects.set i _)[j]? = some y
          rw [List.getElem?_set_ne (Ne.symm hj)]
          exact hy
      · rcases List.mem_or_eq_of_mem_set hy with hy | rfl
        · exact hp.closed y hy hc
        · exact hproper hc
    · rintro ⟨y, n, hy, hn, -⟩
      cases hx.symm.trans hy
      rw [hnone] at hn
      cases hn

/-- **Ownership step**: a step keeps the ownership of sockets exactly if it is harmless. -/
theorem exclusive_step {l : Label} (h : Sound s) (hp : Exclusive s) (hstep : s.step l = some s') :
    Exclusive s' ↔ Harmless s l := by
  cases step_cases hstep with
  | threw hl => exact iff_of_true hp hl
  | made hl => exact iff_of_true (exclusive_add hp _ _ _ _) hl
  | leaked hl => exact iff_of_true ⟨hp.closed, hp.owned, hp.once⟩ hl
  | moved hx halive hkind => exact iff_of_true (exclusive_move h hp hx hkind halive) trivial
  | @closed i x result hx hkind =>
    rw [exclusive_close h hp hx hkind]
    simp only [Harmless, returns, Bool.true_and, Bool.not_eq_eq_eq_not, Bool.not_false,
      Option.isSome_iff_ne_none]
  | @closedWithError i x result hx hkind =>
    rw [exclusive_close h hp hx hkind]
    simp [Harmless, returns]
  | destroyed hx =>
    rw [exclusive_destroy h hp hx]
    rfl

end Step

theorem exclusive_initial : Exclusive {} where
  closed x h := by simp at h
  owned i k h := by simp at h
  once := List.nodup_nil

/-- **Exactness**: sockets are owned exclusively in all states of a run exactly if no `close` of an
acceptor returns in it, and no acceptor whose `close()` has thrown is closed again or destroyed. -/
theorem exclusive_iff (ls : List Label) :
    StepMachine.StepsAll Program.step (fun _ _ s' => Exclusive s') {} ls ↔
      StepMachine.StepsAll Program.step (fun s l _ => Harmless s l) {} ls :=
  StepMachine.statesAll_iff_stepsAll Program.step (fun _ _ _ => Sound.step)
    (fun _ _ _ => exclusive_step) ls sound_initial exclusive_initial

/-- An acceptor is closed, a connection takes the id, and the acceptor is destroyed. -/
def closeThenDestroy : List Label :=
  [.makeAcceptor (.ok 7) ⟨some (.ok 0), .ok 0, .ok 0⟩, .close 0 (.ok 0), .makeStream (.ok 8),
    .destroy 0 (.ok 0)]

/-- After `close()` the acceptor is still open, and its destructor releases the socket of the
connection. -/
theorem not_exclusive : ¬ ∀ (ls : List Label) (s : Program),
    StepMachine.run Program.step {} ls = some s → Exclusive s := by
  intro h
  obtain ⟨x, n, hx, hn, hk⟩ := (h closeThenDestroy _ rfl).owned 0 (some 1) (by decide)
  cases hx
  cases hn
  cases hk

end SocketObjects

end Stdnet
