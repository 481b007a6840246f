import Mathlib.Algebra.BigOperators.Fin

/-!
# Fields in Blocks of Bytes

A block of memory is read and written through fields, a number of bytes at a fixed offset. What a
field holds is an array of bytes or an integer, which is stored in the byte order of the host; on
the network integers are stored in big-endian order.

Different fields may lie over each other, as those of the members of a union do.

## Main rules

- `get_set`, `get_set_of_apart`: a write changes the field it writes and no field apart from it.
- `get_copy`: a copy keeps the fields that lie within it.
- `ntoh_hton`: the conversion to the network's order and back.
-/

namespace ByteFields

/-- The host's byte order. -/
inductive ByteOrder where
  | little
  | big
  deriving DecidableEq, Repr

abbrev Byte := Fin 256

/-- An unsigned integer of `k` bytes. -/
abbrev Word (k : ℕ) := Fin (256 ^ k)

variable {n k l : ℕ}

/-! ## Integers as bytes -/

namespace ByteOrder

/-- The bytes of an integer in the order in which they are stored. -/
def bytes : ByteOrder → Word k ≃ (Fin k → Byte)
  | little => finFunctionFinEquiv.symm
  -- the most significant byte comes first
  | big => finFunctionFinEquiv.symm.trans (Equiv.arrowCongr Fin.revPerm (Equiv.refl Byte))

/-- The integer that is stored on the host as the network stores `x`. -/
def hton (o : ByteOrder) (x : Word k) : Word k := o.bytes.symm (big.bytes x)

/-- The integer that the network stores as the host stores `x`. -/
def ntoh (o : ByteOrder) (x : Word k) : Word k := big.bytes.symm (o.bytes x)

@[simp] theorem ntoh_hton (o : ByteOrder) (x : Word k) : o.ntoh (o.hton x) = x := by
  simp [hton, ntoh]

end ByteOrder

/-! ## Blocks -/

/-- A block of `n` bytes. -/
abbrev Block (n : ℕ) := Fin n → Byte

/-- A field of `k` bytes in blocks of `n` bytes. -/
structure Field (n k : ℕ) where
  offset : ℕ
  inside : offset + k ≤ n

/-- The position of the field's byte `i`. -/
def Field.position (f : Field n k) (i : Fin k) : Fin n :=
  ⟨f.offset + i, by have := f.inside; omega⟩

/-- Two fields without a byte in common. -/
def Field.Apart (f : Field n k) (g : Field n l) : Prop :=
  f.offset + k ≤ g.offset ∨ g.offset + l ≤ f.offset

instance (f : Field n k) (g : Field n l) : Decidable (f.Apart g) :=
  inferInstanceAs (Decidable (_ ∨ _))

namespace Block

/-- The bytes of a field. -/
def get (b : Block n) (f : Field n k) : Fin k → Byte := fun i => b (f.position i)

/-- The block with other bytes in a field. -/
def set (b : Block n) (f : Field n k) (x : Fin k → Byte) : Block n := fun i =>
  if h : f.offset ≤ i ∧ i < f.offset + k then x ⟨i - f.offset, by omega⟩ else b i

/-- `dst` with its first `count` bytes from `src`. -/
def copy (dst src : Block n) (count : ℕ) : Block n := fun i => if i < count then src i else dst i

/-- The integer in a field. -/
def word (o : ByteOrder) (b : Block n) (f : Field n k) : Word k := o.bytes.symm (b.get f)

/-- The block with another integer in a field. -/
def setWord (o : ByteOrder) (b : Block n) (f : Field n k) (x : Word k) : Block n :=
  b.set f (o.bytes x)

@[simp] theorem get_set (b : Block n) (f : Field n k) (x : Fin k → Byte) :
    (b.set f x).get f = x := by
  funext i
  have hi : f.offset ≤ (f.position i : ℕ) ∧ (f.position i : ℕ) < f.offset + k := by
    simp [Field.position]
  simp only [get, set, dif_pos hi]
  congr 1
  exact Fin.ext (by simp [Field.position])

theorem get_set_of_apart (b : Block n) (f : Field n k) (g : Field n l) (x : Fin l → Byte)
    (h : f.Apart g) : (b.set g x).get f = b.get f := by
  funext i
  have hi : ¬ (g.offset ≤ (f.position i : ℕ) ∧ (f.position i : ℕ) < g.offset + l) := by
    have hlt := i.isLt
    simp only [Field.position]
    rcases h with h | h <;> omega
  simp only [get, set, dif_neg hi]

theorem get_copy (dst src : Block n) (f : Field n k) {count : ℕ} (h : f.offset + k ≤ count) :
    (copy dst src count).get f = src.get f := by
  funext i
  have hi : (f.position i : ℕ) < count := by
    have hlt := i.isLt
    simp only [Field.position]
    omega
  simp only [get, copy, if_pos hi]

@[simp] theorem word_setWord (o : ByteOrder) (b : Block n) (f : Field n k) (x : Word k) :
    (b.setWord o f x).word o f = x := by
  simp [word, setWord]

theorem word_setWord_of_apart (o : ByteOrder) (b : Block n) (f : Field n k) (g : Field n l)
    (x : Word l) (h : f.Apart g) : (b.setWord o g x).word o f = b.word o f := by
  rw [word, setWord, get_set_of_apart b f g _ h, word]

theorem get_setWord_of_apart (o : ByteOrder) (b : Block n) (f : Field n k) (g : Field n l)
    (x : Word l) (h : f.Apart g) : (b.setWord o g x).get f = b.get f :=
  get_set_of_apart b f g _ h

theorem word_set_of_apart (o : ByteOrder) (b : Block n) (f : Field n k) (g : Field n l)
    (x : Fin l → Byte) (h : f.Apart g) : (b.set g x).word o f = b.word o f := by
  rw [word, get_set_of_apart b f g x h, word]

theorem word_copy (o : ByteOrder) (dst src : Block n) (f : Field n k) {count : ℕ}
    (h : f.offset + k ≤ count) : (copy dst src count).word o f = src.word o f := by
  rw [word, get_copy dst src f h, word]

end Block

end ByteFields
