import Mathlib.Algebra.Divisibility.Basic
import RangePricer.FlatBuffers.Builder
import RangePricer.FlatBuffers.Table

/-!
# What a builder has stored

A builder only ever adds bytes in front, so whatever it has stored stays where
it is, counted from the end of the buffer, and its alignment can only be
refined.  `Grows` is that relation between two states of a builder; the facts
stored along the way are monotone in it.
-/

namespace FlatBuffers

/-! ## Padding and alignment -/

theorem paddingBytes_lt {scalarSize : Nat} (bufSize : Nat) (hpos : 0 < scalarSize) :
    paddingBytes bufSize scalarSize < scalarSize :=
  Nat.mod_lt _ hpos

theorem dvd_add_paddingBytes {scalarSize : Nat} (bufSize : Nat) (hpos : 0 < scalarSize) :
    scalarSize ∣ bufSize + paddingBytes bufSize scalarSize := by
  have hrest := Nat.mod_lt bufSize hpos
  have hdiv := Nat.div_add_mod bufSize scalarSize
  have hpad : paddingBytes bufSize scalarSize =
      if bufSize % scalarSize = 0 then 0 else scalarSize - bufSize % scalarSize := by
    unfold paddingBytes
    split
    · next hzero => rw [hzero, Nat.sub_zero, Nat.mod_self]
    · next hsome => exact Nat.mod_eq_of_lt (by omega)
  rw [hpad]
  split
  · next hzero => exact Nat.dvd_of_mod_eq_zero (by simpa using hzero)
  · refine ⟨bufSize / scalarSize + 1, ?_⟩
    rw [Nat.mul_add, Nat.mul_one]
    omega

theorem paddingBytes_of_dvd {bufSize scalarSize : Nat} (hdvd : scalarSize ∣ bufSize) :
    paddingBytes bufSize scalarSize = 0 := by
  rw [paddingBytes, Nat.mod_eq_zero_of_dvd hdvd, Nat.sub_zero, Nat.mod_self]

theorem dvd_max_left {m n : Nat} (hm : m.isPowerOfTwo) (hn : n.isPowerOfTwo) : m ∣ max m n := by
  obtain ⟨i, rfl⟩ := hm
  obtain ⟨j, rfl⟩ := hn
  rcases le_total i j with hle | hle
  · rw [max_eq_right (Nat.pow_le_pow_right (by decide) hle)]
    exact Nat.pow_dvd_pow 2 hle
  · exact dvd_of_eq (max_eq_left (Nat.pow_le_pow_right (by decide) hle)).symm

theorem dvd_max_right {m n : Nat} (hm : m.isPowerOfTwo) (hn : n.isPowerOfTwo) : n ∣ max m n := by
  rw [max_comm]
  exact dvd_max_left hn hm

theorem isPowerOfTwo_max {m n : Nat} (hm : m.isPowerOfTwo) (hn : n.isPowerOfTwo) :
    (max m n).isPowerOfTwo := by
  rcases le_total m n with hle | hle
  · rwa [max_eq_right hle]
  · rwa [max_eq_left hle]

/-- The width of an offset and of a length. -/
theorem isPowerOfTwo_four : Nat.isPowerOfTwo 4 := ⟨2, rfl⟩

/-! ## Pieces of a stored sequence -/

namespace StoredAt

variable {buf buf' content : Bytes} {offset : Nat}

theorem of_suffix (hstored : StoredAt buf offset content) (hsuffix : buf <:+ buf') :
    StoredAt buf' offset content := by
  obtain ⟨front, rfl⟩ := hsuffix
  exact hstored.push front

/-- Element `i` of a stored sequence of pieces of one length. -/
theorem piece {α : Type} {xs : List α} {bytes : α → Bytes} {width : Nat}
    (hstored : StoredAt buf offset (xs.flatMap bytes)) (hwidth : ∀ x ∈ xs, (bytes x).length = width)
    {i : Nat} (hi : i < xs.length) :
    StoredAt buf (offset - width * i) (bytes xs[i]) := by
  induction xs generalizing offset i with
  | nil => cases hi
  | cons x rest ih =>
      rw [List.flatMap_cons] at hstored
      cases i with
      | zero => exact hstored.left
      | succ i =>
          have hhead := hwidth x List.mem_cons_self
          have hrest := hstored.suffix
          rw [hhead] at hrest
          have hnext := ih hrest (fun y hy => hwidth y (List.mem_cons_of_mem _ hy))
            (Nat.lt_of_succ_lt_succ hi)
          rwa [Nat.sub_sub, Nat.add_comm, ← Nat.mul_succ] at hnext

theorem length_flatMap {α : Type} {xs : List α} {bytes : α → Bytes} {width : Nat}
    (hwidth : ∀ x ∈ xs, (bytes x).length = width) :
    (xs.flatMap bytes).length = width * xs.length := by
  induction xs with
  | nil => rfl
  | cons x rest ih =>
      rw [List.flatMap_cons, List.length_append, hwidth x List.mem_cons_self,
        ih fun y hy => hwidth y (List.mem_cons_of_mem _ hy), List.length_cons, Nat.mul_succ,
        Nat.add_comm]

/-- A stored content lies inside the buffer. -/
theorem verifyRange (hstored : StoredAt buf offset content) (hfront : offset < buf.length) :
    verifyRange buf (buf.length - offset) content.length = true := by
  have hlength := hstored.length_le
  simp only [FlatBuffers.verifyRange, Bool.and_eq_true, decide_eq_true_eq]
  omega

end StoredAt

namespace Builder

/-! ## Growth -/

/-- `later` has everything `earlier` has, at the same distance from the end. -/
structure Grows (earlier later : Builder) : Prop where
  buf : earlier.buf <:+ later.buf
  minalign : earlier.minalign ∣ later.minalign

/-- A scalar stored at its natural alignment. -/
structure Stored (b : Builder) (off width value : Nat) : Prop where
  storedAt : StoredAt b.buf off (leBytes width value)
  aligned : width ∣ off
  minalign : width ∣ b.minalign

/-- The vtables written so far lie between `lo` and the front of the buffer. -/
structure WellFormed (b : Builder) (lo : Nat) : Prop where
  minalign : b.minalign.isPowerOfTwo
  minalign_le : b.minalign ≤ 8
  vtables : ∀ vt ∈ b.vtables, lo ≤ vt ∧ vt ≤ b.size ∧ 2 ∣ vt

namespace Grows

variable {b c d : Builder}

theorem refl (b : Builder) : Grows b b := ⟨List.suffix_rfl, Nat.dvd_refl _⟩

theorem trans (hbc : Grows b c) (hcd : Grows c d) : Grows b d :=
  ⟨hbc.buf.trans hcd.buf, Nat.dvd_trans hbc.minalign hcd.minalign⟩

theorem size_le (hgrows : Grows b c) : b.size ≤ c.size := hgrows.buf.length_le

theorem stored {off width value : Nat} (hgrows : Grows b c) (hstored : Stored b off width value) :
    Stored c off width value :=
  ⟨hstored.storedAt.of_suffix hgrows.buf, hstored.aligned,
    Nat.dvd_trans hstored.minalign hgrows.minalign⟩

end Grows

section

variable {b : Builder} {width : Nat}

theorem size_pushBytes (b : Builder) (bytes : Bytes) :
    (b.pushBytes bytes).size = bytes.length + b.size :=
  List.length_append

theorem pushBytes_grows (b : Builder) (bytes : Bytes) : Grows b (b.pushBytes bytes) :=
  ⟨List.suffix_append _ _, Nat.dvd_refl _⟩

theorem align_size (b : Builder) (width : Nat) :
    (b.align width).size = b.size + paddingBytes b.size width := by
  rw [align, fill, size_pushBytes, List.length_replicate, Nat.add_comm]
  rfl

theorem align_grows (hb : b.minalign.isPowerOfTwo) (hwidth : width.isPowerOfTwo) :
    Grows b (b.align width) :=
  ⟨List.suffix_append _ _, dvd_max_left hb hwidth⟩

theorem dvd_align_size (b : Builder) (hwidth : 0 < width) : width ∣ (b.align width).size := by
  rw [align_size]
  exact dvd_add_paddingBytes b.size hwidth

theorem pushElement_size (b : Builder) (width value : Nat) :
    (b.pushElement width value).size = b.size + paddingBytes b.size width + width := by
  rw [pushElement, size_pushBytes, leBytes_length, align_size, Nat.add_comm]

theorem pushElement_grows (hb : b.minalign.isPowerOfTwo) (hwidth : width.isPowerOfTwo)
    (value : Nat) : Grows b (b.pushElement width value) :=
  (align_grows hb hwidth).trans (pushBytes_grows _ _)

theorem dvd_pushElement_size (b : Builder) (hwidth : 0 < width) (value : Nat) :
    width ∣ (b.pushElement width value).size := by
  rw [pushElement_size]
  exact Nat.dvd_add (dvd_add_paddingBytes b.size hwidth) (Nat.dvd_refl _)

/-- The element just pushed is at the front. -/
theorem pushElement_stored (hb : b.minalign.isPowerOfTwo) (hwidth : width.isPowerOfTwo)
    (value : Nat) :
    Stored (b.pushElement width value) (b.pushElement width value).size width value where
  storedAt := StoredAt.of_append _ _
  aligned := dvd_pushElement_size b (Nat.pos_of_isPowerOfTwo hwidth) value
  minalign := dvd_max_right hb hwidth

theorem pushElement_size_lt (b : Builder) (hwidth : 0 < width) (value : Nat) :
    (b.pushElement width value).size < b.size + 2 * width := by
  have hpad := paddingBytes_lt b.size hwidth
  rw [pushElement_size]
  omega

namespace WellFormed

variable {lo : Nat}

theorem empty (lo : Nat) : ({} : Builder).WellFormed lo where
  minalign := ⟨0, rfl⟩
  minalign_le := by decide
  vtables vt hvt := by cases hvt

theorem pushElement (hb : b.WellFormed lo) (hwidth : width.isPowerOfTwo) (hle : width ≤ 8)
    (value : Nat) : (b.pushElement width value).WellFormed lo where
  minalign := isPowerOfTwo_max hb.minalign hwidth
  minalign_le := max_le hb.minalign_le hle
  vtables vt hvt := by
    have hsize := (pushElement_grows hb.minalign hwidth value).size_le
    obtain ⟨hlow, hle, heven⟩ := hb.vtables vt hvt
    exact ⟨hlow, hle.trans hsize, heven⟩

theorem pushBytes (hb : b.WellFormed lo) (bytes : Bytes) : (b.pushBytes bytes).WellFormed lo where
  minalign := hb.minalign
  minalign_le := hb.minalign_le
  vtables vt hvt := by
    obtain ⟨hlow, hle, heven⟩ := hb.vtables vt hvt
    exact ⟨hlow, hle.trans (pushBytes_grows b bytes).size_le, heven⟩

theorem trackMinAlign (hb : b.WellFormed lo) (hwidth : width.isPowerOfTwo) (hle : width ≤ 8) :
    (b.trackMinAlign width).WellFormed lo where
  minalign := isPowerOfTwo_max hb.minalign hwidth
  minalign_le := max_le hb.minalign_le hle
  vtables := hb.vtables

theorem align (hb : b.WellFormed lo) (hwidth : width.isPowerOfTwo) (hle : width ≤ 8) :
    (b.align width).WellFormed lo :=
  (hb.trackMinAlign hwidth hle).pushBytes _

end WellFormed

end

/-! ## The fields of an open table -/

/-- One `add_` call of a table: a scalar with its default test, or an offset. -/
inductive Slot where
  | scalar (field width value : Nat) (isDefault : Bool)
  | offset (field target : Nat)
  deriving DecidableEq, Repr

namespace Slot

def field : Slot → Nat
  | .scalar field _ _ _ | .offset field _ => field

/-- The call writes nothing. -/
def absent : Slot → Bool
  | .scalar _ _ _ isDefault => isDefault
  | .offset _ target => decide (target = 0)

/-- The size of what the call writes. -/
def width : Slot → Nat
  | .scalar _ width _ _ => width
  | .offset _ _ => 4

/-- What the call writes when it ends at `off`. -/
def value (off : Nat) : Slot → Nat
  | .scalar _ _ value _ => value
  | .offset _ target => off - target

/-- A field number of a small table, a scalar of at most eight bytes, or a
reference to something stored behind `start`. -/
structure Fits (slot : Slot) (start : Nat) : Prop where
  field_even : 2 ∣ slot.field
  field_low : 4 ≤ slot.field
  field_high : slot.field ≤ 64
  width : slot.width.isPowerOfTwo
  width_le : slot.width ≤ 8
  target : ∀ field target, slot = .offset field target → target ≤ start

end Slot

def addSlot (b : Builder) : Slot → Builder
  | .scalar field width value isDefault => b.addElement field width value isDefault
  | .offset field target => b.addOffset field target

/-- A whole table: its `add_` calls between `StartTable` and `EndTable`. -/
def buildTable (b : Builder) (slots : List Slot) : Builder × Nat :=
  (slots.foldl addSlot b).endTable b.startTable

/-- The fields recorded for the open table. -/
structure Open (b : Builder) (start : Nat) : Prop where
  start_le : start ≤ b.size
  off : ∀ loc ∈ b.fieldLocs, start < loc.off ∧ loc.off ≤ b.size
  id : ∀ loc ∈ b.fieldLocs, 2 ∣ loc.id ∧ 4 ≤ loc.id ∧ loc.id ≤ b.maxVoffset
  nodup : (b.fieldLocs.map (·.id)).Nodup
  maxVoffset : 2 ∣ b.maxVoffset ∧ b.maxVoffset ≤ 64

/-- The call for `slot` has been made on the open table. -/
def Added (b : Builder) (slot : Slot) : Prop :=
  if slot.absent then ∀ loc ∈ b.fieldLocs, loc.id ≠ slot.field
  else ∃ off, ⟨off, slot.field⟩ ∈ b.fieldLocs ∧ Stored b off slot.width (slot.value off) ∧
    (∀ field target, slot = .offset field target → target < off)

variable {b c : Builder} {slot : Slot} {start lo : Nat}

/-- What a call that writes something does. -/
structure Writes (b c : Builder) (slot : Slot) : Prop where
  grows : Grows b c
  fieldLocs : c.fieldLocs = b.fieldLocs ++ [⟨c.size, slot.field⟩]
  maxVoffset : c.maxVoffset = max b.maxVoffset slot.field
  vtables : c.vtables = b.vtables
  size_lt : b.size < c.size
  size_le : c.size ≤ b.size + 16
  stored : Stored c c.size slot.width (slot.value c.size)
  minalign : c.minalign.isPowerOfTwo
  minalign_le : b.minalign ≤ 8 → c.minalign ≤ 8

theorem addSlot_absent (habsent : slot.absent = true) : b.addSlot slot = b := by
  cases slot with
  | scalar field width value isDefault =>
      obtain rfl : isDefault = true := habsent
      rfl
  | offset field target =>
      obtain rfl : target = 0 := of_decide_eq_true habsent
      rfl

theorem addElement_writes {field width value : Nat} (hb : b.minalign.isPowerOfTwo)
    (hwidth : width.isPowerOfTwo) (hle : width ≤ 8) :
    Writes b (b.addElement field width value false) (.scalar field width value false) where
  grows :=
    have hgrows := pushElement_grows hb hwidth value
    ⟨hgrows.buf, hgrows.minalign⟩
  fieldLocs := rfl
  maxVoffset := rfl
  vtables := rfl
  size_lt := by
    have hpos := Nat.pos_of_isPowerOfTwo hwidth
    have hsize := pushElement_size b width value
    change b.size < (b.pushElement width value).size
    omega
  size_le := by
    have hsize := pushElement_size_lt b (Nat.pos_of_isPowerOfTwo hwidth) value
    change (b.pushElement width value).size ≤ _
    omega
  stored :=
    have hstored := pushElement_stored hb hwidth value
    ⟨hstored.storedAt, hstored.aligned, hstored.minalign⟩
  minalign := isPowerOfTwo_max hb hwidth
  minalign_le hmax := max_le hmax hle

theorem addOffset_writes {field target : Nat} (hb : b.minalign.isPowerOfTwo)
    (htarget : target ≤ b.size) (hsome : target ≠ 0) :
    Writes b (b.addOffset field target) (.offset field target) := by
  have halign := align_size b 4
  have hpad := paddingBytes_lt b.size (show 0 < 4 by decide)
  have hreference : ((b.align 4).size - target + 4 == 0) = false := by simp
  have hnone := paddingBytes_of_dvd (dvd_align_size b (show 0 < 4 by decide))
  have hsize : ((b.align 4).pushElement 4 ((b.align 4).size - target + 4)).size =
      (b.align 4).size + 4 := by
    rw [pushElement_size, hnone, Nat.add_zero]
  have hwrites := @addElement_writes (b.align 4) field 4 ((b.align 4).size - target + 4)
    (isPowerOfTwo_max hb isPowerOfTwo_four) isPowerOfTwo_four (by decide)
  have hcall : b.addOffset field target =
      (b.align 4).addElement field 4 ((b.align 4).size - target + 4) false := by
    rw [addOffset, if_neg hsome, referTo]
    dsimp only
    rw [hreference]
  rw [hcall]
  refine ⟨(align_grows hb isPowerOfTwo_four).trans hwrites.grows, hwrites.fieldLocs,
    hwrites.maxVoffset, hwrites.vtables, ?_, ?_, ?_, hwrites.minalign,
    fun hmax => hwrites.minalign_le ?_⟩
  · have hlt := hwrites.size_lt
    omega
  · change ((b.align 4).pushElement 4 _).size ≤ _
    omega
  · have hstored := hwrites.stored
    have hvalue : (b.align 4).size - target + 4 =
        ((b.align 4).pushElement 4 ((b.align 4).size - target + 4)).size - target := by omega
    change Stored _ ((b.align 4).pushElement 4 _).size 4
      (((b.align 4).pushElement 4 _).size - target)
    rw [← hvalue]
    exact hstored
  · exact max_le hmax (by decide)

theorem addSlot_writes (hb : b.minalign.isPowerOfTwo) (hfits : slot.Fits start)
    (hstart : start ≤ b.size) (hpresent : slot.absent = false) :
    Writes b (b.addSlot slot) slot := by
  cases slot with
  | scalar field width value isDefault =>
      obtain rfl : isDefault = false := hpresent
      exact addElement_writes hb hfits.width hfits.width_le
  | offset field target =>
      exact addOffset_writes hb ((hfits.target field target rfl).trans hstart)
        (of_decide_eq_false hpresent)

end Builder

end FlatBuffers
