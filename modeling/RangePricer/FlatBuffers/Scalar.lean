import Mathlib.Algebra.Group.Int.Defs
import Mathlib.Algebra.Group.Nat.Defs
import Mathlib.Data.List.Infix
import Mathlib.Data.List.Basic

/-!
# Little-endian scalars in a byte buffer

A buffer is the list of its bytes, lowest address first.  FlatBuffers writes
from high addresses to low ones, so an object keeps its distance from the end
of the buffer while objects in front of it are still being added.  Contents are
therefore located by that distance, and read through addresses.
-/

namespace FlatBuffers

abbrev Bytes := List UInt8

/-- The `width` low-order bytes of a value, least significant first. -/
def leBytes : Nat → Nat → Bytes
  | 0, _ => []
  | width + 1, value => UInt8.ofNat value :: leBytes width (value / 256)

/-- The value of a little-endian byte string. -/
def leValue : Bytes → Nat
  | [] => 0
  | byte :: rest => byte.toNat + 256 * leValue rest

/-- `ReadScalar<T>` at an address, with `width = sizeof(T)`. -/
def readScalar (width : Nat) (buf : Bytes) (address : Nat) : Nat :=
  leValue ((buf.drop address).take width)

/-- `WriteScalar` at an address. -/
def writeScalar (width value : Nat) (buf : Bytes) (address : Nat) : Bytes :=
  buf.take address ++ leBytes width value ++ buf.drop (address + width)

/-- The two's-complement reading of a 32-bit `soffset_t`. -/
def soffsetValue (word : Nat) : Int :=
  if word < 2 ^ 31 then word else (word : Int) - 2 ^ 32

@[simp]
theorem leBytes_length (width value : Nat) : (leBytes width value).length = width := by
  induction width generalizing value with
  | zero => rfl
  | succ width ih => simp [leBytes, ih]

theorem leValue_leBytes (width value : Nat) :
    leValue (leBytes width value) = value % 256 ^ width := by
  induction width generalizing value with
  | zero => simp [leBytes, leValue, Nat.mod_one]
  | succ width ih =>
      have hbyte : (UInt8.ofNat value).toNat = value % 256 := by simp
      rw [leBytes, leValue, ih, hbyte, Nat.pow_succ']
      exact Nat.mod_mul.symm

theorem leValue_leBytes_of_lt {width value : Nat} (hvalue : value < 256 ^ width) :
    leValue (leBytes width value) = value := by
  rw [leValue_leBytes, Nat.mod_eq_of_lt hvalue]

theorem soffsetValue_ofNat {distance : Nat} (hsmall : distance < 2 ^ 31) :
    soffsetValue distance = distance := by
  rw [soffsetValue, if_pos hsmall]

theorem soffsetValue_neg {distance : Nat} (hpos : 0 < distance)
    (hsmall : distance ≤ 2 ^ 31) :
    soffsetValue (2 ^ 32 - distance) = -(distance : Int) := by
  have hlarge : ¬ 2 ^ 32 - distance < 2 ^ 31 := by omega
  rw [soffsetValue, if_neg hlarge]
  omega

/-! ## Contents located from the end of the buffer -/

/-- The part of the buffer starting `offset` bytes before its end. -/
def tail (buf : Bytes) (offset : Nat) : Bytes := buf.drop (buf.length - offset)

/-- `content` is stored `offset` bytes before the end of the buffer. -/
def StoredAt (buf : Bytes) (offset : Nat) (content : Bytes) : Prop :=
  offset ≤ buf.length ∧ content <+: tail buf offset

/-- Pushing bytes in front leaves everything behind them in place. -/
theorem tail_append {buf : Bytes} {offset : Nat} (hoffset : offset ≤ buf.length)
    (front : Bytes) : tail (front ++ buf) offset = tail buf offset := by
  have haddress : (front ++ buf).length - offset =
      front.length + (buf.length - offset) := by
    rw [List.length_append]
    omega
  rw [tail, haddress, List.drop_append, tail]
  simp

theorem tail_self (buf : Bytes) : tail buf buf.length = buf := by simp [tail]

namespace StoredAt

variable {buf content : Bytes} {offset : Nat}

theorem push (hstored : StoredAt buf offset content) (front : Bytes) :
    StoredAt (front ++ buf) offset content := by
  refine ⟨?_, ?_⟩
  · rw [List.length_append]
    exact hstored.1.trans (Nat.le_add_left _ _)
  · rw [tail_append hstored.1]
    exact hstored.2

theorem of_append (content rest : Bytes) :
    StoredAt (content ++ rest) (content ++ rest).length content := by
  refine ⟨le_refl _, ?_⟩
  rw [tail_self]
  exact List.prefix_append _ _

theorem length_le (hstored : StoredAt buf offset content) : content.length ≤ offset := by
  have hprefix := hstored.2.length_le
  have hoffset := hstored.1
  rw [tail, List.length_drop] at hprefix
  omega

/-- The later part of a stored content is stored behind the earlier part. -/
theorem suffix {first second : Bytes} (hstored : StoredAt buf offset (first ++ second)) :
    StoredAt buf (offset - first.length) second := by
  have hlength := hstored.length_le
  obtain ⟨hoffset, rest, hrest⟩ := hstored
  rw [List.length_append] at hlength
  refine ⟨(Nat.sub_le _ _).trans hoffset, rest, ?_⟩
  have haddress : buf.length - (offset - first.length) =
      (buf.length - offset) + first.length := by omega
  rw [tail, haddress, ← List.drop_drop, ← tail, ← hrest, List.append_assoc,
    List.drop_left]

theorem left {first second : Bytes} (hstored : StoredAt buf offset (first ++ second)) :
    StoredAt buf offset first :=
  ⟨hstored.1, (List.prefix_append _ _).trans hstored.2⟩

/-- Reading a stored scalar through its address. -/
theorem readScalar {width value : Nat}
    (hstored : StoredAt buf offset (leBytes width value)) :
    readScalar width buf (buf.length - offset) = value % 256 ^ width := by
  obtain ⟨-, rest, hrest⟩ := hstored
  rw [FlatBuffers.readScalar, ← tail, ← hrest, ← leValue_leBytes]
  congr 1
  exact List.take_left' (leBytes_length _ _)

end StoredAt

end FlatBuffers
