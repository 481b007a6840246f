import Stdnet.Endpoint
import Stdnet.Library.ListEntries
import Stdnet.Library.OverloadResolution
import Stdnet.Library.StepMachine

/-!
# Lengths of Endpoints

An endpoint reaches `bind` and `connect` as an `_Endpoint`. Its length has two sources: the member
`_D_size`, which `_Endpoint::_Size()` returns, and the family, from which `_Size()` of the derived
class `basic_endpoint` computes it. Which of them counts is decided at each conversion by the class
of an expression and by the constructor that overload resolution selects.

Programs build endpoints and copy and assign them in any order.

## Main results

- `construct_endpoint`, `construct_basicEndpoint`, `assign_eq`: what each conversion does.
- `bindArgument_eq`, `connectArgument_eq`, `bindArgument_data`: what the system calls are given.
- `sized_of_run`: where the size of each object comes from.
- `lengthsAgree_iff`: for which endpoints `bind` and `connect` are given the same length.
-/

namespace Stdnet

open ByteFields OverloadResolution

namespace Ip

/-! ## Classes and constructors -/

/-- The two classes. -/
inductive Class where
  | endpoint
  | basicEndpoint
  deriving DecidableEq, Repr

/-- `basic_endpoint` derives from `_Endpoint`. -/
def Class.bases : Class → ℕ
  | basicEndpoint => 0
  | endpoint => 1

instance : LinearOrder Class :=
  .lift' Class.bases fun c d h => by cases c <;> cases d <;> simp_all [Class.bases]

theorem Class.le_endpoint (c : Class) : c ≤ .endpoint := by
  cases c <;> decide

/-- The constructors from another endpoint. -/
inductive Constructor where
  | copy
  | move
  /-- `template <typename _ET> _Endpoint(_ET&)`. -/
  | template
  /-- `basic_endpoint(_Endpoint const&)`. -/
  | fromBase
  deriving DecidableEq, Repr

/-- `_Endpoint` declares no copies and no moves: they are implicit. -/
def Endpoint.constructors : List (Candidate Class Constructor) :=
  withTemplate .endpoint .copy .move .template

def BasicEndpoint.constructors : List (Candidate Class Constructor) :=
  withConversion .basicEndpoint .endpoint .copy .move .fromBase

/-- The implicit assignments of a class. -/
def assignments (cls : Class) : List (Candidate Class Constructor) := copyMove cls .copy .move

section Conversions

variable (o : ByteOrder)

/-- `_Size()` of an expression: the class decides which of the two functions is called. -/
def sizeAs (ep : Endpoint) : Class → ℕ
  | .endpoint => ep.size
  | .basicEndpoint => BasicEndpoint.size o ⟨ep⟩

/-- `_Endpoint` constructed from an expression whose value has the base `ep`. -/
def Endpoint.construct (a : Argument Class) (ep : Endpoint) : Option Endpoint :=
  (resolve Endpoint.constructors a).map fun
    | .template => .ofData ep.data (sizeAs o ep a.cls)
    -- the implicit constructors copy the members
    | _ => ep

/-- The expression for the base of the argument with which a constructor initialises the base. -/
def Constructor.baseArgument : Constructor → Argument Class
  | move => { cls := .endpoint, const := false, lvalue := false }
  | _ => { cls := .endpoint, const := true, lvalue := true }

/-- `basic_endpoint` constructed from an expression whose value has the base `ep`. -/
def BasicEndpoint.construct (a : Argument Class) (ep : Endpoint) : Option BasicEndpoint :=
  (resolve BasicEndpoint.constructors a).bind fun constructor =>
    (Endpoint.construct o constructor.baseArgument ep).map .mk

/-- The base of an object of a class that is constructed from an expression. -/
def construct (a : Argument Class) (ep : Endpoint) : Class → Option Endpoint
  | .endpoint => Endpoint.construct o a ep
  | .basicEndpoint => (BasicEndpoint.construct o a ep).map BasicEndpoint.base

/-- The base of an object after an expression is assigned to an lvalue of a class. -/
def assign (a : Argument Class) (ep : Endpoint) (cls : Class) : Option Endpoint :=
  match resolve (assignments cls) a with
  -- the implicit assignments copy the members
  | some _ => some ep
  -- an `_Endpoint` is converted first
  | none => construct o a ep cls

/-! ## System calls -/

/-- The socket address that a system call is given. -/
structure SocketAddress where
  data : Storage
  length : ℕ

def constLvalue (cls : Class) : Argument Class := { cls := cls, const := true, lvalue := true }

def prvalue (cls : Class) : Argument Class := { cls := cls, const := false, lvalue := false }

/-- `basic_socket_acceptor::bind`, `io_context::_Bind` and the `_Bind` of both contexts. -/
def bindArgument (ep : BasicEndpoint) : Option SocketAddress := do
  -- `bind` captures its argument by copy
  let captured ← BasicEndpoint.construct o (constLvalue .basicEndpoint) ep.base
  -- `_Endpoint(_Endpoint)`
  let endpoint ← Endpoint.construct o (constLvalue .basicEndpoint) captured.base
  return { data := endpoint.data, length := sizeAs o endpoint .endpoint }

/-- `_Connect_desc::_Submit` for a socket that was constructed with the endpoint, and
`_Libevent_context::_Connect`. -/
def connectArgument (ep : BasicEndpoint) : Option SocketAddress := do
  -- `_D_endpoint(_Endpoint)`
  let stored ← BasicEndpoint.construct o (constLvalue .basicEndpoint) ep.base
  -- `get_endpoint()`
  let result ← BasicEndpoint.construct o (constLvalue .basicEndpoint) stored.base
  -- `std::get<0>(*_Base) = this->_D_socket.get_endpoint()`
  let endpoint ← assign o (prvalue .basicEndpoint) result.base .endpoint
  return { data := endpoint.data, length := sizeAs o endpoint .endpoint }

end Conversions

/-! ## Programs -/

/-- How an `address` is constructed. -/
inductive AddressInit where
  | default
  /-- From an address of either family; `rest` is what the union holds before. -/
  | ofAny (rest : Storage) (a : AnyAddress)

def AddressInit.address (o : ByteOrder) : AddressInit → Address
  | default => .unspecified o
  | ofAny rest a => a.address o rest

/-- The length of the socket addresses of a family. -/
def sockaddrLength (family : ℕ) : Option ℕ :=
  if family = PF_INET then some sizeofInet
  else if family = PF_INET6 then some sizeofInet6
  else none

/-- An object of a program. -/
structure Object where
  cls : Class
  base : Endpoint

/-- An object as an argument; the expression may be one of the object's base class. -/
structure Use where
  object : ℕ
  argument : Argument Class
  deriving DecidableEq, Repr

inductive Label where
  /-- `basic_endpoint()`. -/
  | default
  /-- `basic_endpoint(address, port)`. -/
  | ofAddress (address : AddressInit) (port : PortType)
  /-- An accept fills the `_Endpoint` of its operation. -/
  | accept (peer : Storage) (length : ℕ)
  /-- A new object of a class is constructed. -/
  | construct (cls : Class) (u : Use)
  /-- An object is assigned to, by way of an lvalue of a class. -/
  | assign (object : ℕ) (cls : Class) (u : Use)

/-- The object that an expression of the class refers to. -/
def readAs (objects : List Object) (object : ℕ) (cls : Class) : Option Object :=
  objects[object]?.filter fun obj => obj.cls ≤ cls

def step (o : ByteOrder) (objects : List Object) : Label → Option (List Object)
  | .default => some (objects ++ [⟨.basicEndpoint, (BasicEndpoint.default o).base⟩])
  | .ofAddress address port =>
    some (objects ++ [⟨.basicEndpoint, (BasicEndpoint.ofAddress o (address.address o) port).base⟩])
  | .accept peer length =>
    -- the peer has a socket address of one of the two families
    if sockaddrLength (peer.word o ss_family) = some length then
      some (objects ++ [⟨.endpoint, .accepted peer length⟩])
    else none
  | .construct cls u => do
    let source ← readAs objects u.object u.argument.cls
    let base ← construct o u.argument source.base cls
    return objects ++ [⟨cls, base⟩]
  | .assign object cls u => do
    let target ← readAs objects object cls
    let source ← readAs objects u.object u.argument.cls
    let base ← assign o u.argument source.base cls
    return objects.set object ⟨target.cls, base⟩

/-- The length that `bind` is given. -/
def bindLength (o : ByteOrder) (ep : BasicEndpoint) : Option ℕ :=
  (bindArgument o ep).map SocketAddress.length

/-- The length that `connect` is given. -/
def connectLength (o : ByteOrder) (ep : BasicEndpoint) : Option ℕ :=
  (connectArgument o ep).map SocketAddress.length

/-- `bind` and `connect` are given the same length, the one of the socket addresses of the
endpoint's family, and not more than the bytes that are stored. -/
def LengthsAgree (o : ByteOrder) (ep : BasicEndpoint) : Prop :=
  ∃ length ≤ sizeofStorage, sockaddrLength (ep.family o) = some length ∧
    bindLength o ep = some length ∧ connectLength o ep = some length

/-! ## Where sizes come from -/

/-- What an object's size is: the one of its family, or the one that an `_Endpoint` has by default
and an accept does not change. -/
inductive SizeSource where
  | family
  | accept
  deriving DecidableEq, Repr

/-- An `_Endpoint` that is constructed from a `basic_endpoint`, unless it is moved from, asks it for
its size. -/
def Use.AsksFamily (cls : Class) (u : Use) : Prop :=
  cls = .endpoint ∧ u.argument.cls = .basicEndpoint ∧ u.argument.movable = false

instance (cls : Class) (u : Use) : Decidable (u.AsksFamily cls) :=
  inferInstanceAs (Decidable (_ ∧ _ ∧ _))

/-- The sources for the objects after one more label. -/
def sourcesAfter (sources : List SizeSource) : Label → List SizeSource
  | .default => sources ++ [.family]
  | .ofAddress _ _ => sources ++ [.family]
  | .accept _ _ => sources ++ [.accept]
  | .construct cls u =>
    sources ++ [if u.AsksFamily cls then .family else sources.getD u.object .family]
  | .assign object _ u => sources.set object (sources.getD u.object .family)

/-- The sources for the objects of a run. -/
def sizeSources (ls : List Label) : List SizeSource := ls.foldl sourcesAfter []

/-- The size an object has. -/
def SizeSource.size (o : ByteOrder) (ep : Endpoint) : SizeSource → ℕ
  | family => BasicEndpoint.size o ⟨ep⟩
  | accept => sizeofStorage

/-- The object is an endpoint of one of the two families with a size from the source. -/
structure Sized (o : ByteOrder) (obj : Object) (source : SizeSource) : Prop where
  family :
    sockaddrLength (BasicEndpoint.family o ⟨obj.base⟩) = some (BasicEndpoint.size o ⟨obj.base⟩)
  size : obj.base.size = source.size o obj.base

/-! ## What the conversions do -/

section Conversions

variable {o : ByteOrder} {a : Argument Class} {ep : Endpoint}

/-- Only the constructor template does not copy the members. -/
theorem Endpoint.construct_eq :
    Endpoint.construct o a ep =
      some (if a.movable = true ∨ a.cls = .endpoint ∧ a.const = true then ep
        else .ofData ep.data (sizeAs o ep a.cls)) := by
  rw [Endpoint.construct, Endpoint.constructors, resolve_withTemplate a.cls.le_endpoint,
    Option.map_some]
  by_cases hmovable : a.movable = true
  · simp [hmovable]
  · by_cases hconst : a.cls = .endpoint ∧ a.const = true <;> simp [hmovable, hconst]

/-- The constructors of `basic_endpoint` initialise the base with an expression of the class of the
base, and the template is not called. -/
theorem Endpoint.construct_baseArgument (constructor : Constructor) :
    Endpoint.construct o constructor.baseArgument ep = some ep := by
  rw [Endpoint.construct_eq]
  cases constructor <;> rfl

/-- **Conversions to `basic_endpoint`** copy the members. -/
theorem BasicEndpoint.construct_eq : BasicEndpoint.construct o a ep = some ⟨ep⟩ := by
  have hbase : Class.basicEndpoint < Class.endpoint := by decide
  rw [BasicEndpoint.construct, BasicEndpoint.constructors,
    resolve_withConversion hbase a.cls.le_endpoint, Option.bind_some,
    Endpoint.construct_baseArgument, Option.map_some]

/-- **Assignments** copy the members. -/
theorem assign_eq (cls : Class) : assign o a ep cls = some ep := by
  rw [assign]
  cases cls with
  | endpoint => rw [assignments, resolve_copyMove a.cls.le_endpoint]
  | basicEndpoint =>
    cases resolve (assignments .basicEndpoint) a with
    | some _ => rfl
    | none => simp only [construct, BasicEndpoint.construct_eq, Option.map_some]

variable {ep : BasicEndpoint}

/-- **The length for `bind`** is the one of the family. -/
theorem bindArgument_eq :
    bindArgument o ep =
      some { data := (Endpoint.ofData ep.base.data (ep.size o)).data, length := ep.size o } := by
  simp only [bindArgument, BasicEndpoint.construct_eq, Endpoint.construct_eq]
  rfl

/-- **The length for `connect`** is the one that is stored. -/
theorem connectArgument_eq :
    connectArgument o ep = some { data := ep.base.data, length := ep.base.size } := by
  simp only [connectArgument, BasicEndpoint.construct_eq, assign_eq]
  rfl

/-- The bytes that `bind` is given are those that `connect` is given. -/
theorem bindArgument_data {b c : SocketAddress} (hb : bindArgument o ep = some b)
    (hc : connectArgument o ep = some c) {i : Fin 128} (hi : i < b.length) : b.data i = c.data i := by
  rw [bindArgument_eq, Option.some.injEq] at hb
  rw [connectArgument_eq, Option.some.injEq] at hc
  subst hb hc
  exact if_pos (lt_min hi i.isLt)

end Conversions

/-! ## Families -/

section Families

variable {o : ByteOrder}

theorem sizeofInet_le_of_sockaddrLength {family length : ℕ}
    (h : sockaddrLength family = some length) : sizeofInet ≤ length := by
  simp only [sockaddrLength] at h
  split at h
  · exact (Option.some.inj h).le
  · split at h
    · exact le_trans (by decide) (Option.some.inj h).le
    · cases h

theorem BasicEndpoint.sizeofInet_le_size (ep : BasicEndpoint) : sizeofInet ≤ ep.size o := by
  rw [size]
  split <;> decide

theorem BasicEndpoint.size_lt_sizeofStorage (ep : BasicEndpoint) : ep.size o < sizeofStorage := by
  rw [size]
  split <;> decide

/-- The size of an endpoint depends on its family only. -/
theorem BasicEndpoint.size_congr {ep ep' : BasicEndpoint} (h : ep.family o = ep'.family o) :
    ep.size o = ep'.size o := by
  rw [size, size, h]

/-- For the two families the size is the length of their socket addresses. -/
theorem BasicEndpoint.sockaddrLength_family {ep : BasicEndpoint} {length : ℕ}
    (h : sockaddrLength (ep.family o) = some length) :
    sockaddrLength (ep.family o) = some (ep.size o) := by
  simp only [sockaddrLength, size] at h ⊢
  split_ifs at h ⊢ <;> rfl

/-- A copy of at least a `sockaddr_in` keeps the family. -/
theorem family_copy {dst src : Storage} {count : ℕ} (h : sizeofInet ≤ count) :
    BasicEndpoint.family o ⟨{ data := Block.copy dst src count }⟩ = (src.word o ss_family : ℕ) :=
  congrArg Fin.val (Block.word_copy o dst src ss_family (le_trans (by decide) h))

theorem family_ofData {data : Storage} {size : ℕ} (h : sizeofInet ≤ size) :
    BasicEndpoint.family o ⟨.ofData data size⟩ = (data.word o ss_family : ℕ) :=
  family_copy (le_min h (by decide))

/-- The family of an endpoint is the one of its address. -/
theorem family_ofAddress (address : Address) (port : PortType) :
    (BasicEndpoint.ofAddress o address port).family o = address.family o := by
  have hsize : sizeofInet ≤ if address.isV4 o then sizeofInet else sizeofInet6 := by
    split <;> decide
  rw [← show _ = address.family o from family_ofData hsize]
  simp only [BasicEndpoint.family, BasicEndpoint.ofAddress]
  split
  · rw [Block.word_setWord_of_apart o _ ss_family sin_port _ (by decide)]
  · rw [Block.word_setWord_of_apart o _ ss_family sin6_port _ (by decide)]

/-- **Construction**: what is stored is the size that the family has. -/
theorem size_ofAddress (address : Address) (port : PortType) :
    (BasicEndpoint.ofAddress o address port).base.size =
      (BasicEndpoint.ofAddress o address port).size o := by
  rw [BasicEndpoint.size, family_ofAddress]
  simp only [BasicEndpoint.ofAddress, Endpoint.ofData, Address.isV4, beq_iff_eq]

theorem AddressInit.sockaddrLength_family (address : AddressInit) :
    ∃ length, sockaddrLength ((address.address o).family o) = some length := by
  cases address with
  | default =>
    have hfamily : (Address.unspecified o).family o = PF_INET := by
      simp only [Address.family, Address.unspecified, Block.word_setWord]
      rfl
    exact ⟨sizeofInet, by rw [AddressInit.address, hfamily]; rfl⟩
  | ofAny rest a =>
    refine ⟨a.length, ?_⟩
    rw [AddressInit.address, family_address]
    cases a with
    | v4 a => rfl
    | v6 a => rfl

end Families

/-! ## Runs -/

section Runs

variable {o : ByteOrder} {objects objects' : List Object} {sources : List SizeSource} {l : Label}

theorem readAs_eq_some {object : ℕ} {cls : Class} {obj : Object} :
    readAs objects object cls = some obj ↔ objects[object]? = some obj ∧ obj.cls ≤ cls := by
  rw [readAs, Option.filter_eq_some_iff, decide_eq_true_eq]

theorem sized_ofAddress (address : AddressInit) (port : PortType) :
    Sized o ⟨.basicEndpoint, (BasicEndpoint.ofAddress o (address.address o) port).base⟩
      .family := by
  obtain ⟨length, hlength⟩ := address.sockaddrLength_family (o := o)
  have hfamily := (congrArg sockaddrLength (family_ofAddress _ port)).trans hlength
  exact ⟨BasicEndpoint.sockaddrLength_family hfamily, size_ofAddress _ _⟩

/-- The family of an accepted peer. -/
theorem family_accepted {peer : Storage} {length : ℕ}
    (h : sockaddrLength (peer.word o ss_family) = some length) :
    BasicEndpoint.family o ⟨.accepted peer length⟩ = (peer.word o ss_family : ℕ) :=
  family_copy (sizeofInet_le_of_sockaddrLength h)

theorem sized_accepted {peer : Storage} {length : ℕ}
    (h : sockaddrLength (peer.word o ss_family) = some length) :
    Sized o ⟨.endpoint, .accepted peer length⟩ .accept := by
  have hlength := (congrArg sockaddrLength (family_accepted h)).trans h
  exact ⟨BasicEndpoint.sockaddrLength_family hlength, rfl⟩

/-- An object with the same base. -/
theorem Sized.of_base {obj : Object} {source : SizeSource} (h : Sized o obj source) (cls : Class) :
    Sized o ⟨cls, obj.base⟩ source :=
  ⟨h.family, h.size⟩

/-- **Conversions through the template**: the bytes that are copied are at least those of the socket
address. -/
theorem Sized.ofData {obj : Object} {source source' : SizeSource} {size : ℕ}
    (h : Sized o obj source) (hsize : size = source'.size o obj.base) :
    Sized o ⟨.endpoint, .ofData obj.base.data size⟩ source' := by
  have hle : sizeofInet ≤ size := by
    rw [hsize]
    cases source' with
    | family => exact BasicEndpoint.sizeofInet_le_size _
    | accept => exact (by decide : sizeofInet ≤ sizeofStorage)
  have hfamily : BasicEndpoint.family o ⟨.ofData obj.base.data size⟩ =
      BasicEndpoint.family o ⟨obj.base⟩ := family_ofData hle
  have hsame := BasicEndpoint.size_congr hfamily
  refine ⟨?_, ?_⟩
  · rw [hfamily, hsame]
    exact h.family
  · have hstored : (Endpoint.ofData obj.base.data size).size = size := rfl
    refine hstored.trans (hsize.trans ?_)
    cases source' with
    | family => exact hsame.symm
    | accept => rfl

/-- The size of a new object. -/
theorem Sized.construct {obj : Object} {source : SizeSource} {cls : Class} {u : Use}
    {base : Endpoint} (h : Sized o obj source) (hbase : construct o u.argument obj.base cls = some base) :
    Sized o ⟨cls, base⟩ (if u.AsksFamily cls then .family else source) := by
  cases cls with
  | basicEndpoint =>
    simp only [Ip.construct, BasicEndpoint.construct_eq, Option.map_some,
      Option.some.injEq] at hbase
    simp only [Use.AsksFamily, reduceCtorEq, false_and, if_false]
    exact hbase ▸ h.of_base _
  | endpoint =>
    simp only [Ip.construct, Endpoint.construct_eq, Option.some.injEq] at hbase
    cases hargument : u.argument.cls with
    | endpoint =>
      -- the template asks for the size that is stored
      simp only [Use.AsksFamily, hargument, reduceCtorEq, false_and, and_false, if_false]
      simp only [hargument, true_and] at hbase
      split at hbase
      · exact hbase ▸ h.of_base _
      · exact hbase ▸ h.ofData h.size
    | basicEndpoint =>
      simp only [Use.AsksFamily, hargument, true_and]
      simp only [hargument, reduceCtorEq, false_and, or_false] at hbase
      cases hmovable : u.argument.movable with
      | true =>
        rw [if_pos hmovable] at hbase
        exact hbase ▸ h.of_base _
      | false =>
        rw [if_neg (by simp [hmovable])] at hbase
        exact hbase ▸ h.ofData rfl

/-- The source of the object that is read. -/
theorem sized_of_readAs (h : List.Forall₂ (Sized o) objects sources) {object : ℕ} {cls : Class}
    {obj : Object} (hread : readAs objects object cls = some obj) :
    Sized o obj (sources.getD object .family) := by
  obtain ⟨source, hsource, hsized⟩ := ListEntries.forall₂_getElem? h (readAs_eq_some.mp hread).1
  rw [List.getD_eq_getElem?_getD, hsource]
  exact hsized

/-- **Step lemma**. -/
theorem sized_step (h : List.Forall₂ (Sized o) objects sources)
    (hstep : step o objects l = some objects') :
    List.Forall₂ (Sized o) objects' (sourcesAfter sources l) := by
  cases l with
  | default =>
    cases hstep
    exact ListEntries.forall₂_concat h (sized_ofAddress .default 0)
  | ofAddress address port =>
    cases hstep
    exact ListEntries.forall₂_concat h (sized_ofAddress address port)
  | accept peer length =>
    simp only [step] at hstep
    split at hstep
    next hfamily =>
      cases hstep
      exact ListEntries.forall₂_concat h (sized_accepted hfamily)
    next => cases hstep
  | construct cls u =>
    simp only [step, Option.bind_eq_bind, Option.bind_eq_some_iff] at hstep
    obtain ⟨source, hsource, base, hbase, hstep⟩ := hstep
    cases hstep
    exact ListEntries.forall₂_concat h ((sized_of_readAs h hsource).construct hbase)
  | assign object cls u =>
    simp only [step, Option.bind_eq_bind, Option.bind_eq_some_iff, assign_eq] at hstep
    obtain ⟨target, htarget, source, hsource, base, hbase, hstep⟩ := hstep
    cases hstep
    cases hbase
    exact ListEntries.forall₂_set h object ((sized_of_readAs h hsource).of_base _)

/-- **Run lemma**: the objects of a run have the sizes that its labels say. -/
theorem sized_of_run {ls : List Label} (hrun : StepMachine.run (step o) [] ls = some objects) :
    List.Forall₂ (Sized o) objects (sizeSources ls) :=
  StepMachine.run_simulation (step o) (fun _ _ _ _ h hstep => sized_step h hstep) .nil hrun

/-- `bind` is given the length of the family, wherever the size comes from. -/
theorem bindLength_of_sized {obj : Object} {source : SizeSource} (h : Sized o obj source) :
    bindLength o ⟨obj.base⟩ = sockaddrLength (BasicEndpoint.family o ⟨obj.base⟩) := by
  rw [bindLength, bindArgument_eq, h.family, Option.map_some]

/-- `connect` is given the size that is stored. -/
theorem connectLength_of_sized {obj : Object} {source : SizeSource} (h : Sized o obj source) :
    connectLength o ⟨obj.base⟩ = some (source.size o obj.base) := by
  rw [connectLength, connectArgument_eq, Option.map_some, h.size]

theorem lengthsAgree_iff_of_sized {obj : Object} {source : SizeSource} (h : Sized o obj source) :
    LengthsAgree o ⟨obj.base⟩ ↔ source = .family := by
  have hlt := BasicEndpoint.size_lt_sizeofStorage (o := o) ⟨obj.base⟩
  constructor
  · intro hagree
    obtain ⟨length, -, hfamily, -, hconnect⟩ := hagree
    rw [connectLength_of_sized h, Option.some.injEq] at hconnect
    rw [h.family, Option.some.injEq] at hfamily
    cases source with
    | family => rfl
    | accept =>
      -- the whole storage is longer than each socket address
      have hlength : sizeofStorage = length := hconnect
      exact absurd (hfamily.trans hlength.symm) hlt.ne
  · intro hsource
    subst hsource
    exact ⟨_, hlt.le, h.family, (bindLength_of_sized h).trans h.family, connectLength_of_sized h⟩

/-- For what an accept delivers `bind` is given the length that the accept returned. -/
theorem bindLength_accepted {peer : Storage} {length : ℕ}
    (h : sockaddrLength (peer.word o ss_family) = some length) :
    bindLength o (.accepted {} peer length) = some length := by
  have hlength := (congrArg sockaddrLength (family_accepted h)).trans h
  exact (bindLength_of_sized (sized_accepted h)).trans hlength

/-- `connect` is given the length of the whole storage. -/
theorem connectLength_accepted {peer : Storage} {length : ℕ}
    (h : sockaddrLength (peer.word o ss_family) = some length) :
    connectLength o (.accepted {} peer length) = some sizeofStorage := by
  have hconnect := connectLength_of_sized (sized_accepted h)
  exact hconnect

theorem not_lengthsAgree_accepted {peer : Storage} {length : ℕ}
    (h : sockaddrLength (peer.word o ss_family) = some length) :
    ¬ LengthsAgree o (.accepted {} peer length) :=
  fun hagree => absurd ((lengthsAgree_iff_of_sized (sized_accepted h)).mp hagree) (by decide)

/-- Without an accept all sizes are those of the families. -/
theorem family_of_sourcesAfter (hsources : ∀ source ∈ sources, source = .family)
    (hl : ∀ peer length, l ≠ .accept peer length) :
    ∀ source ∈ sourcesAfter sources l, source = .family := by
  have hread (object : ℕ) : sources.getD object .family = .family := by
    rw [List.getD_eq_getElem?_getD]
    cases hsource : sources[object]? with
    | none => rfl
    | some source => exact hsources source (List.mem_of_getElem? hsource)
  intro source hsource
  cases l with
  | default | ofAddress =>
    rcases List.mem_append.mp hsource with hsource | hsource
    · exact hsources source hsource
    · exact List.mem_singleton.mp hsource
  | accept peer length => exact absurd rfl (hl peer length)
  | construct cls u =>
    rcases List.mem_append.mp hsource with hsource | hsource
    · exact hsources source hsource
    · rw [List.mem_singleton.mp hsource, hread, ite_self]
  | assign object cls u =>
    rcases List.mem_or_eq_of_mem_set hsource with hsource | hsource
    · exact hsources source hsource
    · rw [hsource, hread]

/-- **Programs without accepts**: the lengths agree for all endpoints. -/
theorem lengthsAgree_of_forall_ne_accept {ls : List Label}
    (hrun : StepMachine.run (step o) [] ls = some objects)
    (hls : ∀ l ∈ ls, ∀ peer length, l ≠ .accept peer length) {obj : Object} (hobj : obj ∈ objects) :
    LengthsAgree o ⟨obj.base⟩ := by
  obtain ⟨i, hi⟩ := List.getElem?_of_mem hobj
  obtain ⟨source, hsource, hsized⟩ := ListEntries.forall₂_getElem? (sized_of_run hrun) hi
  have hall : ∀ source ∈ sizeSources ls, source = .family :=
    List.foldlRecOn (motive := fun sources => ∀ source ∈ sources, source = SizeSource.family)
      ls sourcesAfter (by simp) fun _ hsources l hl => family_of_sourcesAfter hsources (hls l hl)
  exact (lengthsAgree_iff_of_sized hsized).mpr (hall source (List.mem_of_getElem? hsource))

end Runs

/-- **Lengths agree exactly for sizes of the family**: in every state that is reached, `bind` and
`connect` are given the length of the endpoint's family exactly if its size does not come from an
accept. -/
theorem lengthsAgree_iff (o : ByteOrder) {ls : List Label} {objects : List Object}
    (hrun : StepMachine.run (step o) [] ls = some objects) {i : ℕ} {ep : Endpoint}
    (hi : objects[i]? = some ⟨.basicEndpoint, ep⟩) :
    LengthsAgree o ⟨ep⟩ ↔ (sizeSources ls)[i]? = some .family := by
  obtain ⟨source, hsource, hsized⟩ := ListEntries.forall₂_getElem? (sized_of_run hrun) hi
  rw [hsource, Option.some.injEq]
  exact lengthsAgree_iff_of_sized hsized

/-- A peer is accepted and converted to a `basic_endpoint`, which is then stored in an `_Endpoint`
and converted back: the `_Endpoint` has asked it for the size of its family. -/
theorem lengthsAgree_converted :
    ∃ objects ep, StepMachine.run (step .little) []
        [.accept loopbackPeer sizeofInet,
          .construct .basicEndpoint ⟨0, ⟨.endpoint, false, true⟩⟩,
          .construct .endpoint ⟨1, ⟨.basicEndpoint, false, true⟩⟩,
          .construct .basicEndpoint ⟨2, ⟨.endpoint, false, true⟩⟩] = some objects ∧
      objects[3]? = some ⟨.basicEndpoint, ep⟩ ∧ LengthsAgree .little ⟨ep⟩ := by
  have hrun : StepMachine.run (step .little) []
      [.accept loopbackPeer sizeofInet,
        .construct .basicEndpoint ⟨0, ⟨.endpoint, false, true⟩⟩,
        .construct .endpoint ⟨1, ⟨.basicEndpoint, false, true⟩⟩,
        .construct .basicEndpoint ⟨2, ⟨.endpoint, false, true⟩⟩] = some _ := rfl
  exact ⟨_, _, hrun, rfl, (lengthsAgree_iff .little hrun (i := 3) rfl).mpr rfl⟩

/-- A peer is accepted and the operation's `_Endpoint` is converted for the receiver, who uses it
for a socket of its own: `connect` is given 128 bytes, `bind` would be given 16. -/
theorem accepted_lengths_differ :
    ∃ objects, StepMachine.run (step .little) []
        [.accept loopbackPeer sizeofInet,
          .construct .basicEndpoint ⟨0, ⟨.endpoint, false, true⟩⟩] = some objects ∧
      objects[1]? = some ⟨.basicEndpoint, .accepted loopbackPeer sizeofInet⟩ ∧
      bindLength .little (.accepted {} loopbackPeer sizeofInet) = some sizeofInet ∧
      connectLength .little (.accepted {} loopbackPeer sizeofInet) = some sizeofStorage ∧
      ¬ LengthsAgree .little (.accepted {} loopbackPeer sizeofInet) := by
  have hfamily : sockaddrLength (loopbackPeer.word .little ss_family) = some sizeofInet := by
    have haddress : (Address.ofV4 .little (fun _ => 0) .loopback).family .little = PF_INET :=
      family_address (a := .v4 .loopback) _
    have hpeer : (loopbackPeer.word .little ss_family : ℕ) = PF_INET :=
      (family_ofAddress _ _).trans haddress
    rw [hpeer]
    rfl
  have haccept : step .little [] (.accept loopbackPeer sizeofInet) =
      some [⟨.endpoint, .accepted loopbackPeer sizeofInet⟩] := by
    rw [step, if_pos hfamily]
    rfl
  have hconstruct : step .little [⟨.endpoint, .accepted loopbackPeer sizeofInet⟩]
      (.construct .basicEndpoint ⟨0, ⟨.endpoint, false, true⟩⟩) =
      some [⟨.endpoint, .accepted loopbackPeer sizeofInet⟩,
        ⟨.basicEndpoint, .accepted loopbackPeer sizeofInet⟩] := rfl
  have hrest := (StepMachine.run_cons_eq_some (step .little)).mpr
    ⟨_, hconstruct, StepMachine.run_nil _ _⟩
  have hrun := (StepMachine.run_cons_eq_some (step .little)).mpr ⟨_, haccept, hrest⟩
  exact ⟨_, hrun, rfl, bindLength_accepted hfamily, connectLength_accepted hfamily,
    not_lengthsAgree_accepted hfamily⟩

end Ip

end Stdnet
