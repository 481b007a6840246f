import Stdnet.HttpRequest

/-!
# Buffers of Receive and Send Operations

`mutable_buffer` and `const_buffer` of `buffer.hpp` hold one `iovec`, whose address and whose number,
1, the `_Submit` of a receive or a send puts into the `msghdr` of the operation. Here the array that
the region lies in is a list, and the region is named by its offset and its length.

`buffered_stream` of `examples/simple-http-server.cpp` collects what it receives in a vector that
grows by doubling and shrinks when a head is consumed.

## Main results

- `received_spec`: what a receive operation adds to the stream and when `read_head` returns.
- `consume_spec`: what the removal of a head leaves.
-/

namespace Stdnet

namespace Http

open Delimiters

/-- `::iovec`, and the `mutable_buffer` or `const_buffer` that `stdnet::buffer` makes of an array's
address plus `base` and of `len`. -/
structure Iovec where
  base : ℕ
  len : ℕ
  deriving DecidableEq, Repr

namespace Iovec

/-- What `recvmsg` makes of the array when it receives `data` into the region. -/
def store (v : Iovec) (array data : Text) : Text :=
  array.take v.base ++ data ++ array.drop (v.base + data.length)

/-- The bytes of the region, of which `sendmsg` transfers the first ones. -/
def load (v : Iovec) (array : Text) : Text := (array.drop v.base).take v.len

end Iovec

/-- `buffered_stream` without its socket. A `pos` of `none` is `std::string_view::npos`; `stop` is
`end`. -/
structure BufferedStream where
  buffer : Text := List.replicate 1024 '\x00'
  pos : Option ℕ := some 0
  stop : ℕ := 0
  deriving DecidableEq, Repr

namespace BufferedStream

/-- `consume`. The range that is erased has to lie in the vector, else the behaviour of `erase` is
undefined: the result is `none`. -/
def consume (b : BufferedStream) : Option BufferedStream :=
  match b.pos with
  | none => none
  | some pos =>
    if pos ≤ b.buffer.length then
      some { buffer := b.buffer.drop pos, pos := some 0, stop := b.stop - pos }
    else none

/-- `if (buffer.size() == end) buffer.resize(buffer.size() * 2)`. -/
def grow (b : BufferedStream) : BufferedStream :=
  if b.buffer.length = b.stop then
    { b with buffer := b.buffer ++ List.replicate b.buffer.length '\x00' }
  else b

/-- `stdnet::buffer(buffer.data() + end, buffer.size() - end)`. -/
def region (b : BufferedStream) : Iovec := ⟨b.stop, b.buffer.length - b.stop⟩

/-- What `read_head` does when its `async_receive` has received `data`: it returns a head, the empty
one at the end of the stream, or goes round its loop again. -/
def received (b : BufferedStream) (data : Text) : BufferedStream × Option Text :=
  if data.length = 0 then (b, some [])
  else
    let b := { b with buffer := b.region.store b.buffer data, stop := b.stop + data.length }
    match (b.buffer.take b.stop).dropInfix? sep with
    | none => ({ b with pos := none }, none)
    | some (p, _) =>
      let pos := p.length + sep.length
      ({ b with pos := some pos }, some (b.buffer.take pos))

/-- What was received and not consumed. -/
def pending (b : BufferedStream) : Text := b.buffer.take b.stop

variable {b : BufferedStream} {data : Text}

@[simp] theorem grow_stop (b : BufferedStream) : b.grow.stop = b.stop := by
  unfold grow
  split <;> rfl

@[simp] theorem grow_pos (b : BufferedStream) : b.grow.pos = b.pos := by
  unfold grow
  split <;> rfl

theorem grow_pending (b : BufferedStream) : b.grow.pending = b.pending := by
  unfold grow
  split
  next h => simp only [pending, ← h, List.take_left', List.take_length]
  next => rfl

/-- Doubling makes room unless there is nothing to double. -/
theorem stop_lt_grow (h : b.stop ≤ b.buffer.length) (hne : b.buffer ≠ []) :
    b.stop < b.grow.buffer.length := by
  have hpos := List.length_pos_iff.mpr hne
  unfold grow
  split
  · simp only [List.length_append, List.length_replicate]
    omega
  · omega

theorem grow_eq_nil : b.grow.buffer = [] ↔ b.buffer = [] := by
  unfold grow
  split <;> simp

/-- The bytes of an array before the end of what was stored. -/
theorem take_store {v : Iovec} {array : Text} (h : v.base ≤ array.length) (data : Text) :
    (v.store array data).take (v.base + data.length) = array.take v.base ++ data := by
  have hlen : (array.take v.base ++ data).length = v.base + data.length := by
    simp only [List.length_append, List.length_take, Nat.min_eq_left h]
  rw [Iovec.store, ← hlen, List.take_left]

theorem length_store {v : Iovec} {array : Text} (h : v.base + data.length ≤ array.length) :
    (v.store array data).length = array.length := by
  simp only [Iovec.store, List.length_append, List.length_take, List.length_drop]
  omega

/-- A receive that brings something appends it to the stream, and `read_head` returns the first
message there is then. -/
theorem received_spec (hne : data ≠ []) (hstop : b.stop ≤ b.buffer.length)
    (hroom : data.length ≤ b.region.len) :
    (b.received data).1.pending = b.pending ++ data ∧
      (b.received data).1.stop = b.stop + data.length ∧
      (b.received data).1.buffer.length = b.buffer.length ∧
      (b.received data).1.pos = (cut sep (b.pending ++ data)).map (·.1.length) ∧
      (b.received data).2 = (cut sep (b.pending ++ data)).map (·.1) := by
  have hsum : b.stop + data.length ≤ b.buffer.length := by
    simp only [region] at hroom
    omega
  have htake : (b.region.store b.buffer data).take (b.stop + data.length) = b.pending ++ data :=
    take_store (v := b.region) hstop data
  have hlen : (b.region.store b.buffer data).length = b.buffer.length :=
    length_store (v := b.region) hsum
  unfold received
  rw [if_neg (by simpa using hne)]
  simp only [htake, cut]
  cases hdrop : (b.pending ++ data).dropInfix? sep with
  | none => exact ⟨htake, rfl, hlen, rfl, rfl⟩
  | some r =>
    obtain ⟨p, s⟩ := r
    refine ⟨htake, rfl, hlen, by simp, ?_⟩
    -- the head is at the front of what was received
    obtain ⟨hxs, -⟩ := (dropInfix?_eq_some_iff (by decide)).mp hdrop
    have hle : p.length + sep.length ≤ b.stop + data.length := by
      have hcount := congrArg List.length hxs
      simp only [List.length_append, pending, List.length_take, Nat.min_eq_left hstop] at hcount
      omega
    have hhead : (b.region.store b.buffer data).take (p.length + sep.length) = p ++ sep := by
      rw [← Nat.min_eq_left hle, ← List.take_take, htake, hxs, ← List.length_append, List.take_left]
    simp only [hhead, Option.map_some]

/-- The removal of what was found. -/
theorem consume_spec {n : ℕ} (hpos : b.pos = some n) (hstop : b.stop ≤ b.buffer.length)
    (hn : n ≤ b.stop) :
    ∃ b', b.consume = some b' ∧ b'.pending = b.pending.drop n ∧ b'.pos = some 0 ∧
      b'.stop = b.stop - n ∧ b'.buffer.length = b.buffer.length - n := by
  refine ⟨_, by rw [consume, hpos]; exact if_pos (hn.trans hstop), ?_, rfl, rfl, ?_⟩
  · simp only [pending, List.drop_take]
  · simp only [List.length_drop]

end BufferedStream

end Http

end Stdnet
