import Stdnet.Library.ByteFields

/-!
# Endpoints

`ip::address`, `_Endpoint` and `ip::basic_endpoint` of `internet.hpp` and `endpoint.hpp`. Addresses
and ports are kept in a socket address, a block of bytes that is read as a `sockaddr_in` or as a
`sockaddr_in6`; the layout is the one of Linux.

A constructor that assigns members of the union only leaves its other bytes as they were.

## Main results

- `port_eq`, `family_eq`, `size_eq`: ports and families survive for both families of addresses.
- `address_of_v4`, `address_of_v6`: what `address()` returns.
- `decodes_iff`: which endpoints decode to what they were built from.
-/

namespace Stdnet

open ByteFields

namespace Ip

/-! ## Socket addresses -/

def PF_INET : ℕ := 2
def PF_INET6 : ℕ := 10
def AF_INET : ℕ := PF_INET
def AF_INET6 : ℕ := PF_INET6

/-- `sockaddr_storage`. -/
abbrev Storage := Block 128

def ss_family : Field 128 2 := ⟨0, by decide⟩

/-! The fields of a `sockaddr_in`. -/

def sin_family : Field 128 2 := ⟨0, by decide⟩
def sin_port : Field 128 2 := ⟨2, by decide⟩
def sin_addr : Field 128 4 := ⟨4, by decide⟩

/-! The fields of a `sockaddr_in6`. -/

def sin6_family : Field 128 2 := ⟨0, by decide⟩
def sin6_port : Field 128 2 := ⟨2, by decide⟩
def sin6_flowinfo : Field 128 4 := ⟨4, by decide⟩
def sin6_addr : Field 128 16 := ⟨8, by decide⟩
def sin6_scope_id : Field 128 4 := ⟨24, by decide⟩

/-- `sizeof(sockaddr_in)`, `sizeof(sockaddr_in6)` and `sizeof(sockaddr_storage)`. -/
def sizeofInet : ℕ := 16
def sizeofInet6 : ℕ := 28
def sizeofStorage : ℕ := 128

abbrev PortType := Word 2

/-- `tcp`: the family of the protocol. -/
structure Tcp where
  family : ℕ
  deriving DecidableEq, Repr

def Tcp.v4 : Tcp := ⟨PF_INET⟩
def Tcp.v6 : Tcp := ⟨PF_INET6⟩

/-! ## Addresses -/

/-- `address_v4`. Its constructor cannot throw: `uint_least32_t` has 32 bits. -/
structure AddressV4 where
  address : Word 4
  deriving DecidableEq

def AddressV4.toUint (a : AddressV4) : Word 4 := a.address

/-- `address_v4::loopback()`. -/
def AddressV4.loopback : AddressV4 := ⟨0x7F000001⟩

/-- `address_v6`. -/
structure AddressV6 where
  bytes : Fin 16 → Byte
  deriving DecidableEq

/-- `address_v6::_Get_address`: the fields are assigned and the length is returned. -/
def AddressV6.getAddress (o : ByteOrder) (a : AddressV6) (addr : Storage) (port : PortType) :
    Storage × ℕ :=
  let addr := addr.setWord o sin6_family (Fin.ofNat _ AF_INET6)
  let addr := addr.setWord o sin6_port (o.hton port)
  let addr := addr.setWord o sin6_flowinfo 0
  let addr := addr.set sin6_addr a.bytes
  let addr := addr.setWord o sin6_scope_id 0
  (addr, sizeofInet6)

/-- `address`: the union of the three kinds of socket addresses. -/
structure Address where
  storage : Storage

namespace Address

variable (o : ByteOrder)

/-- `address()`. -/
def unspecified : Address :=
  ⟨Block.setWord o (fun _ => 0) ss_family (Fin.ofNat _ PF_INET)⟩

/-- `address(address_v4)`; `rest` is what the union holds before. -/
def ofV4 (rest : Storage) (a : AddressV4) : Address :=
  let addr := rest.setWord o sin_family (Fin.ofNat _ AF_INET)
  let addr := addr.setWord o sin_addr (o.hton a.toUint)
  -- the port is not converted
  ⟨addr.setWord o sin_port 0xFFFF⟩

/-- `address(address_v6)`. -/
def ofV6 (rest : Storage) (a : AddressV6) : Address := ⟨(a.getAddress o rest 0xFFFF).1⟩

def family (a : Address) : ℕ := a.storage.word o ss_family

def isV4 (a : Address) : Bool := a.family o == PF_INET

def isV6 (a : Address) : Bool := a.family o == PF_INET6

def toV4 (a : Address) : AddressV4 := ⟨o.ntoh (a.storage.word o sin_addr)⟩

def toV6 (a : Address) : AddressV6 := ⟨a.storage.get sin6_addr⟩

end Address

/-! ## Endpoints -/

/-- `_Endpoint`. -/
structure Endpoint where
  data : Storage := fun _ => 0
  size : ℕ := sizeofStorage

/-- `_Endpoint(void const*, socklen_t)`. -/
def Endpoint.ofData (data : Storage) (size : ℕ) : Endpoint where
  data := Block.copy (fun _ => 0) data (min size sizeofStorage)
  size := size

/-- `basic_endpoint<tcp>`, which has no members beside those of its base `_Endpoint`. -/
structure BasicEndpoint where
  base : Endpoint

namespace BasicEndpoint

variable (o : ByteOrder)

/-- `basic_endpoint(_Endpoint const&)`. -/
def ofEndpoint (ep : Endpoint) : BasicEndpoint := ⟨ep⟩

/-- `basic_endpoint(address const&, port_type)`: the family of the address selects the field that
the port is written to. -/
def ofAddress (address : Address) (port : PortType) : BasicEndpoint :=
  let ep := Endpoint.ofData address.storage (if address.isV4 o then sizeofInet else sizeofInet6)
  let portField := if address.isV4 o then sin_port else sin6_port
  ⟨{ ep with data := ep.data.setWord o portField (o.hton port) }⟩

/-- `basic_endpoint()`. -/
def default : BasicEndpoint := ofAddress o (.unspecified o) 0

def family (ep : BasicEndpoint) : ℕ := ep.base.data.word o ss_family

def protocol (ep : BasicEndpoint) : Tcp := if ep.family o = PF_INET then .v4 else .v6

/-- `address()`; `rest` is what the union of an `address` that is returned holds before. -/
def address (rest : Storage) (ep : BasicEndpoint) : Address :=
  if ep.family o = PF_INET then .ofV4 o rest ⟨o.ntoh (ep.base.data.word o sin_addr)⟩
  -- there is no case for `PF_INET6`
  else .unspecified o

def port (ep : BasicEndpoint) : PortType :=
  if ep.family o = PF_INET then o.ntoh (ep.base.data.word o sin_port)
  else if ep.family o = PF_INET6 then o.ntoh (ep.base.data.word o sin6_port)
  else 0

/-- `_Size()`, which hides the one of `_Endpoint`. -/
def size (ep : BasicEndpoint) : ℕ := if ep.family o = PF_INET then sizeofInet else sizeofInet6

/-- What the completion of an accept delivers: `::accept` has written `length` bytes of the peer's
socket address into the operation's `_Endpoint`. -/
def accepted (op : Endpoint) (peer : Storage) (length : ℕ) : BasicEndpoint :=
  .ofEndpoint { op with data := op.data.copy peer length }

end BasicEndpoint

/-- The `_Endpoint` of an accept operation when it completes. The length that `::accept` returns is
another element of the operation. -/
def Endpoint.accepted (peer : Storage) (length : ℕ) : Endpoint :=
  (BasicEndpoint.accepted {} peer length).base

/-! ## What an endpoint is built from -/

/-- An address of either family. -/
inductive AnyAddress where
  | v4 (a : AddressV4)
  | v6 (a : AddressV6)

namespace AnyAddress

def IsV4 : AnyAddress → Prop
  | v4 _ => True
  | v6 _ => False

instance : DecidablePred IsV4
  | v4 _ => inferInstanceAs (Decidable True)
  | v6 _ => inferInstanceAs (Decidable False)

def family : AnyAddress → ℕ
  | v4 _ => PF_INET
  | v6 _ => PF_INET6

/-- The length of the family's socket address. -/
def length : AnyAddress → ℕ
  | v4 _ => sizeofInet
  | v6 _ => sizeofInet6

/-- `address(a)`. -/
def address (o : ByteOrder) (rest : Storage) : AnyAddress → Address
  | v4 a => .ofV4 o rest a
  | v6 a => .ofV6 o rest a

end AnyAddress

/-- The address is of the family of `a` and `to_v4()` or `to_v6()` returns `a`. -/
def Address.Is (o : ByteOrder) (addr : Address) : AnyAddress → Prop
  | .v4 a => addr.isV4 o = true ∧ addr.toV4 o = a
  | .v6 a => addr.isV6 o = true ∧ addr.toV6 = a

/-- The endpoint decodes to the address and the port. -/
structure BasicEndpoint.Decodes (o : ByteOrder) (ep : BasicEndpoint) (a : AnyAddress)
    (port : PortType) : Prop where
  port : ep.port o = port
  family : (ep.protocol o).family = a.family
  size : ep.size o = a.length
  address : ∀ rest, (ep.address o rest).Is o a

/-- The endpoints rebuilt from the storage of `ep` by accept completions, each of which gets at
least the socket address of the endpoint before. -/
inductive BasicEndpoint.RebuiltFrom (o : ByteOrder) (ep : BasicEndpoint) :
    BasicEndpoint → Prop where
  | built : RebuiltFrom o ep ep
  | accepted {ep' : BasicEndpoint} (h : RebuiltFrom o ep ep') (op : Endpoint) {length : ℕ}
      (hlength : ep'.size o ≤ length) : RebuiltFrom o ep (.accepted op ep'.base.data length)

/-! ## What the storage holds -/

section Storage

variable {o : ByteOrder} {a : AnyAddress} {port : PortType}

/-- The address as a socket address holds it. -/
def AddressIn (o : ByteOrder) (data : Storage) : AnyAddress → Prop
  | .v4 a => data.word o sin_addr = o.hton a.address
  | .v6 a => data.get sin6_addr = a.bytes

/-- The storage is a socket address of the family of `a` with this address and this port. -/
structure Holds (o : ByteOrder) (data : Storage) (a : AnyAddress) (port : PortType) : Prop where
  family : (data.word o ss_family : ℕ) = a.family
  -- the port has the same place in both kinds of socket addresses
  port : data.word o sin_port = o.hton port
  address : AddressIn o data a

theorem family_address (rest : Storage) : (a.address o rest).family o = a.family := by
  cases a with
  | v4 a =>
    have hfamily : ss_family = sin_family := rfl
    simp (disch := decide) only [AnyAddress.address, Address.family, Address.ofV4, hfamily,
      Block.word_setWord_of_apart, Block.word_setWord]
    rfl
  | v6 a =>
    have hfamily : ss_family = sin6_family := rfl
    simp (disch := decide) only [AnyAddress.address, Address.family, Address.ofV6,
      AddressV6.getAddress, hfamily, Block.word_setWord_of_apart, Block.word_set_of_apart,
      Block.word_setWord]
    rfl

theorem addressIn_address (rest : Storage) : AddressIn o (a.address o rest).storage a := by
  cases a with
  | v4 a =>
    simp (disch := decide) only [AddressIn, AnyAddress.address, Address.ofV4, AddressV4.toUint,
      Block.word_setWord_of_apart, Block.word_setWord]
  | v6 a =>
    simp (disch := decide) only [AddressIn, AnyAddress.address, Address.ofV6,
      AddressV6.getAddress, Block.get_setWord_of_apart, Block.get_set]

/-- An address of either family is the one it was made from. -/
theorem is_address (rest : Storage) : (a.address o rest).Is o a := by
  have hfamily := family_address (a := a) (o := o) rest
  have haddress := addressIn_address (a := a) (o := o) rest
  cases a with
  | v4 a =>
    have haddress : Block.word o _ sin_addr = o.hton a.address := haddress
    refine ⟨?_, ?_⟩
    · rw [Address.isV4, hfamily]
      rfl
    · rw [Address.toV4, haddress, ByteOrder.ntoh_hton]
  | v6 a =>
    have haddress : Block.get _ sin6_addr = a.bytes := haddress
    refine ⟨?_, ?_⟩
    · rw [Address.isV6, hfamily]
      rfl
    · rw [Address.toV6, haddress]

theorem isV4_address (rest : Storage) : (a.address o rest).isV4 o = decide a.IsV4 := by
  rw [Address.isV4, family_address]
  cases a with
  | v4 a => rfl
  | v6 a => rfl

/-- A write to the port leaves the address. -/
theorem AddressIn.setPort {data : Storage} (h : AddressIn o data a) (x : Word 2) :
    AddressIn o (data.setWord o sin_port x) a := by
  cases a with
  | v4 a => exact (Block.word_setWord_of_apart o _ _ _ _ (by decide)).trans h
  | v6 a => exact (Block.get_setWord_of_apart o _ _ _ _ (by decide)).trans h

/-- A copy of the family's socket address keeps the address. -/
theorem AddressIn.copy {dst src : Storage} (h : AddressIn o src a) {count : ℕ}
    (hcount : a.length ≤ count) : AddressIn o (Block.copy dst src count) a := by
  cases a with
  | v4 a =>
    have hinside : sin_addr.offset + 4 ≤ sizeofInet := by decide
    exact (Block.word_copy o dst src sin_addr (hinside.trans hcount)).trans h
  | v6 a =>
    have hinside : sin6_addr.offset + 16 ≤ sizeofInet6 := by decide
    exact (Block.get_copy dst src sin6_addr (hinside.trans hcount)).trans h

theorem AnyAddress.sizeofInet_le_length : sizeofInet ≤ a.length := by
  cases a with
  | v4 a => exact le_rfl
  | v6 a => exact (by decide : sizeofInet ≤ sizeofInet6)

/-- **A copy of the socket address**. -/
theorem Holds.copy {dst src : Storage} (h : Holds o src a port) {count : ℕ}
    (hcount : a.length ≤ count) : Holds o (Block.copy dst src count) a port := by
  have hinet : sizeofInet ≤ count := le_trans AnyAddress.sizeofInet_le_length hcount
  refine ⟨?_, ?_, h.address.copy hcount⟩
  · rw [Block.word_copy o dst src ss_family (le_trans (by decide) hinet)]
    exact h.family
  · rw [Block.word_copy o dst src sin_port (le_trans (by decide) hinet)]
    exact h.port

/-- The whole socket address of a family fits into an `_Endpoint`. -/
theorem AnyAddress.length_le_sizeofStorage : a.length ≤ sizeofStorage := by
  cases a with
  | v4 a => exact (by decide : sizeofInet ≤ sizeofStorage)
  | v6 a => exact (by decide : sizeofInet6 ≤ sizeofStorage)

/-- The base of an endpoint for an address of either family. -/
theorem ofAddress_eq (rest : Storage) :
    BasicEndpoint.ofAddress o (a.address o rest) port = ⟨{
      data := (Endpoint.ofData (a.address o rest).storage a.length).data.setWord o sin_port
        (o.hton port)
      size := a.length }⟩ := by
  simp only [BasicEndpoint.ofAddress, isV4_address]
  cases a with
  | v4 a => rfl
  | v6 a => rfl

/-- **Construction**. -/
theorem holds_ofAddress (rest : Storage) :
    Holds o (BasicEndpoint.ofAddress o (a.address o rest) port).base.data a port := by
  have hcount : a.length ≤ min a.length sizeofStorage :=
    le_min le_rfl AnyAddress.length_le_sizeofStorage
  have hfamily : ss_family.offset + 2 ≤ min a.length sizeofStorage :=
    le_trans (by decide) (AnyAddress.sizeofInet_le_length.trans hcount)
  rw [ofAddress_eq]
  refine ⟨?_, Block.word_setWord o _ _ _, ((addressIn_address rest).copy hcount).setPort _⟩
  rw [Block.word_setWord_of_apart o _ ss_family sin_port _ (by decide), Endpoint.ofData,
    Block.word_copy o _ _ ss_family hfamily]
  exact family_address rest

/-! ## What the accessors return -/

variable {ep : BasicEndpoint}

theorem port_eq (h : Holds o ep.base.data a port) : ep.port o = port := by
  have hport : o.ntoh (ep.base.data.word o sin_port) = port := by
    rw [h.port, ByteOrder.ntoh_hton]
  have hfamily : ep.family o = a.family := h.family
  rw [BasicEndpoint.port, hfamily]
  cases a with
  | v4 a => exact hport
  | v6 a => exact hport

theorem protocol_eq (h : Holds o ep.base.data a port) : (ep.protocol o).family = a.family := by
  have hfamily : ep.family o = a.family := h.family
  rw [BasicEndpoint.protocol, hfamily]
  cases a with
  | v4 a => rfl
  | v6 a => rfl

theorem size_eq (h : Holds o ep.base.data a port) : ep.size o = a.length := by
  have hfamily : ep.family o = a.family := h.family
  rw [BasicEndpoint.size, hfamily]
  cases a with
  | v4 a => rfl
  | v6 a => rfl

/-- An IPv4 address is returned. -/
theorem address_of_v4 {a : AddressV4} (h : Holds o ep.base.data (.v4 a) port) (rest : Storage) :
    (ep.address o rest).Is o (.v4 a) := by
  have hfamily : ep.family o = PF_INET := h.family
  have haddress : o.ntoh (ep.base.data.word o sin_addr) = a.address := by
    have hin : ep.base.data.word o sin_addr = o.hton a.address := h.address
    rw [hin, ByteOrder.ntoh_hton]
  rw [BasicEndpoint.address, if_pos hfamily, haddress]
  exact is_address (a := .v4 a) rest

/-- For an IPv6 address the unspecified IPv4 address is returned. -/
theorem address_of_v6 {a : AddressV6} (h : Holds o ep.base.data (.v6 a) port) (rest : Storage) :
    ep.address o rest = .unspecified o := by
  have hfamily : ep.family o = PF_INET6 := h.family
  rw [BasicEndpoint.address, hfamily]
  rfl

theorem not_isV6_unspecified : (Address.unspecified o).isV6 o = false := by
  simp only [Address.isV6, Address.family, Address.unspecified, Block.word_setWord]
  rfl

/-- **What an endpoint decodes to**. -/
theorem decodes_iff_of_holds (h : Holds o ep.base.data a port) : ep.Decodes o a port ↔ a.IsV4 := by
  cases a with
  | v4 a =>
    exact iff_of_true ⟨port_eq h, protocol_eq h, size_eq h, address_of_v4 h⟩ trivial
  | v6 a =>
    -- whatever else is in the storage, the address that is returned is not an IPv6 address
    refine iff_of_false (fun hdecodes => ?_) id
    have hv6 := (hdecodes.address fun _ => 0).1
    rw [address_of_v6 h, not_isV6_unspecified] at hv6
    cases hv6

/-- Rebuilding from the storage keeps what it holds. -/
theorem holds_rebuiltFrom {ep' : BasicEndpoint} (h : Holds o ep.base.data a port)
    (hrebuilt : BasicEndpoint.RebuiltFrom o ep ep') : Holds o ep'.base.data a port := by
  induction hrebuilt with
  | built => exact h
  | accepted hrebuilt op hlength ih =>
    -- the length that is passed on covers the whole socket address
    rw [size_eq ih] at hlength
    exact ih.copy hlength

end Storage

/-- **Which endpoints decode to what they were built from**: the endpoint built from an address and
a port, and every endpoint rebuilt from its storage by accept completions, exactly if the address is
an IPv4 address. -/
theorem decodes_iff (o : ByteOrder) (rest : Storage) (a : AnyAddress) (port : PortType)
    {ep : BasicEndpoint}
    (h : BasicEndpoint.RebuiltFrom o (.ofAddress o (a.address o rest) port) ep) :
    ep.Decodes o a port ↔ a.IsV4 :=
  decodes_iff_of_holds (holds_rebuiltFrom (holds_ofAddress rest) h)

/-- The endpoint of a loopback address and the one that an accept completion rebuilds from it. -/
theorem decodes_iff_loopback :
    (BasicEndpoint.accepted {} (BasicEndpoint.ofAddress .little
      (.ofV4 .little (fun _ => 0xCC) .loopback) 80).base.data sizeofInet).Decodes .little
      (.v4 .loopback) 80 := by
  refine (decodes_iff .little (fun _ => 0xCC) (.v4 .loopback) 80 ?_).mpr trivial
  refine .accepted .built {} (le_of_eq ?_)
  exact size_eq (holds_ofAddress (a := .v4 .loopback) _)

/-- The socket address of port 80 on the loopback interface. -/
def loopbackPeer : Storage :=
  (BasicEndpoint.ofAddress .little (.ofV4 .little (fun _ => 0) .loopback) 80).base.data

/-- `::1`. -/
def localhost : AddressV6 := ⟨fun i => if i = 15 then 1 else 0⟩

/-- The endpoint of `::1` and port 80 does not decode to them: its address is 0.0.0.0. -/
theorem v6_not_decoded :
    ¬ (BasicEndpoint.ofAddress .little (.ofV6 .little (fun _ => 0) localhost) 80).Decodes .little
      (.v6 localhost) 80 ∧
    (BasicEndpoint.ofAddress .little (.ofV6 .little (fun _ => 0) localhost) 80).address .little
      (fun _ => 0) = .unspecified .little := by
  have hholds : Holds .little (BasicEndpoint.ofAddress .little
      (.ofV6 .little (fun _ => 0) localhost) 80).base.data (.v6 localhost) 80 :=
    holds_ofAddress (a := .v6 localhost) _
  exact ⟨(decodes_iff_of_holds hholds).mp, address_of_v6 hholds _⟩

end Ip

end Stdnet
