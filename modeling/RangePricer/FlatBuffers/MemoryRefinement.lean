import RangePricer.FlatBuffers.Assembly
import RangePricer.FlatBuffers.MemoryBuilder

/-!
# The builder on its memory builds what the plain builder builds

A simulation, one lemma for each operation: from a state that stands for a plain
builder the operation succeeds, as long as the buffer stays below the maximal
size, and its result stands for the plain result.  No assertion of the code
fails on the way and no access leaves the allocation.
-/

namespace FlatBuffers

open Transition

theorem FieldLoc.bytes_length (loc : FieldLoc) : loc.bytes.length = 8 := by
  simp [FieldLoc.bytes]

namespace Builder

/-- The offsets of the vtables, as they lie in the scratch pad. -/
def vtablePad (b : Builder) : Bytes := b.vtables.flatMap (leBytes 4)

/-- What is in the scratch pad: the offsets of the vtables, then the recorded fields. -/
def pad (b : Builder) : Bytes := b.vtablePad ++ b.fieldLocs.flatMap FieldLoc.bytes

theorem vtablePad_length (b : Builder) : b.vtablePad.length = 4 * b.vtables.length :=
  StoredAt.length_flatMap fun vt _ => leBytes_length 4 vt

theorem pad_length (b : Builder) :
    b.pad.length = 4 * b.vtables.length + 8 * b.fieldLocs.length := by
  rw [pad, List.length_append, vtablePad_length,
    StoredAt.length_flatMap fun loc _ => loc.bytes_length]

end Builder

/-- The builder on its memory stands for the plain builder. -/
structure Represents (c : FlatBufferBuilder) (b : Builder) (isNested : Bool) : Prop where
  holds : c.buf.Holds b.buf b.pad
  numFieldLoc : c.numFieldLoc = b.fieldLocs.length
  maxVoffset : c.maxVoffset = b.maxVoffset
  minalign : c.minalign = b.minalign
  nested : c.nested = isNested
  finished : c.finished = false

theorem represents_new (allocator : Allocator) (initialSize : Nat) :
    Represents (.new allocator initialSize) {} false :=
  ⟨VectorDownward.holds_new allocator initialSize, rfl, rfl, rfl, rfl, rfl⟩

namespace FlatBufferBuilder

/-- A call on the vector changes nothing else. -/
theorem onBuf_ok {c : FlatBufferBuilder} {call : VectorDownward → Building VectorDownward}
    {Post : VectorDownward → Prop} (hcall : Succeeds (call c.buf) Post) :
    Succeeds (c.onBuf call) fun d => Post d.buf ∧ d = { c with buf := d.buf } := by
  refine hcall.bind fun buf hbuf => .ok ⟨hbuf, rfl⟩

end FlatBufferBuilder

namespace Represents

variable {c : FlatBufferBuilder} {b : Builder} {isNested : Bool} {width : Nat}

theorem getSize (hrep : Represents c b isNested) : c.getSize = b.size := hrep.holds.size_eq

/-- A call that changes the data only. -/
theorem onData (hrep : Represents c b isNested)
    {call : VectorDownward → Building VectorDownward} {data : Bytes}
    (hcall : Succeeds (call c.buf) fun v => v.Holds data b.pad) :
    Succeeds (c.onBuf call) fun d => Represents d { b with buf := data } isNested := by
  refine (FlatBufferBuilder.onBuf_ok hcall).mono fun d hd => ?_
  obtain ⟨hholds, heq⟩ := hd
  rw [heq]
  exact ⟨hholds, hrep.numFieldLoc, hrep.maxVoffset, hrep.minalign, hrep.nested, hrep.finished⟩

theorem trackMinAlign (hrep : Represents c b isNested) (elemSize : Nat) :
    Represents (c.trackMinAlign elemSize) (b.trackMinAlign elemSize) isNested := by
  have hmax : (c.trackMinAlign elemSize).minalign = max b.minalign elemSize := by
    rw [FlatBufferBuilder.trackMinAlign, ← hrep.minalign]
    split
    · next hlt => exact (max_eq_right hlt.le).symm
    · next hle => exact (max_eq_left (not_lt.mp hle)).symm
  have hrest : c.trackMinAlign elemSize =
      { c with minalign := (c.trackMinAlign elemSize).minalign } := by
    rw [FlatBufferBuilder.trackMinAlign]
    split <;> rfl
  rw [hrest]
  exact ⟨hrep.holds, hrep.numFieldLoc, hrep.maxVoffset, hmax, hrep.nested, hrep.finished⟩

theorem align (hrep : Represents c b isNested) (hwidth : 0 < width)
    (hroom : b.size + width < maxBufferSize) :
    Succeeds (c.align width) fun d => Represents d (b.align width) isNested := by
  have hmax : maxBufferSize < 2 ^ 31 := by decide
  have hpad := paddingBytes_lt b.size hwidth
  have hsize : c.buf.size = b.size := hrep.getSize
  have htracked := hrep.trackMinAlign width
  rw [FlatBufferBuilder.align, hsize]
  exact htracked.onData
    (htracked.holds.fill (show b.size < _ by omega) (show b.size + _ < _ by omega))

theorem pushElement (hrep : Represents c b isNested) (hwidth : 0 < width)
    (hroom : b.size + 2 * width < maxBufferSize) (value : Nat) :
    Succeeds (c.pushElement width value) fun d =>
      Represents d.1 (b.pushElement width value) isNested ∧
        d.2 = (b.pushElement width value).size := by
  have hmax : maxBufferSize < 2 ^ 31 := by decide
  have hpad := paddingBytes_lt b.size hwidth
  have hsize := Builder.align_size b width
  have hsome : leBytes width value ≠ [] := by
    rw [ne_eq, ← List.length_eq_zero_iff, leBytes_length]
    omega
  have hlength := leBytes_length width value
  refine (hrep.align hwidth (by omega)).bind fun d hd => ?_
  refine (hd.onData (hd.holds.pushSmall hsome (show (b.align width).size < _ by omega)
    (show (b.align width).size + _ < _ by omega))).bind fun e he => .ok ⟨he, he.getSize⟩

/-! ## Fields and references -/

theorem trackField (hrep : Represents c b isNested) (hroom : b.size < maxBufferSize)
    (hpad : b.pad.length + 8 < 2 ^ 32) (field off : Nat) :
    Succeeds (c.trackField field off) fun d =>
      Represents d (b.trackField field off) isNested := by
  have hlength := FieldLoc.bytes_length ⟨off, field⟩
  have hsome : FieldLoc.bytes ⟨off, field⟩ ≠ [] := by
    rw [ne_eq, ← List.length_eq_zero_iff, hlength]
    decide
  have hpush := hrep.holds.scratchPushSmall hsome hroom (by rw [hlength]; exact hpad)
  refine (FlatBufferBuilder.onBuf_ok hpush).bind fun d hd => .ok ?_
  obtain ⟨hholds, heq⟩ := hd
  have hnew : (b.trackField field off).pad = b.pad ++ FieldLoc.bytes ⟨off, field⟩ := by
    simp [Builder.pad, Builder.vtablePad, Builder.trackField]
  have hcount := b.pad_length
  refine ⟨hnew ▸ hholds, ?_, ?_, ?_, ?_, ?_⟩
  · rw [heq]
    simp only [Builder.trackField, List.length_append, List.length_singleton, hrep.numFieldLoc]
    omega
  · rw [heq]
    simp only [Builder.trackField, hrep.maxVoffset]
    split
    · next hlt => exact (max_eq_right hlt.le).symm
    · next hle => exact (max_eq_left (not_lt.mp hle)).symm
  · rw [heq]
    exact hrep.minalign
  · rw [heq]
    exact hrep.nested
  · rw [heq]
    exact hrep.finished

theorem addElement (hrep : Represents c b isNested) (hwidth : 0 < width)
    (hroom : b.size + 2 * width < maxBufferSize) (hpad : b.pad.length + 8 < 2 ^ 32)
    (field value : Nat) (isDefault : Bool) :
    Succeeds (c.addElement field width value isDefault) fun d =>
      Represents d (b.addElement field width value isDefault) isNested := by
  rw [FlatBufferBuilder.addElement, Builder.addElement]
  split
  · exact .ok hrep
  · have hgrown := Builder.pushElement_size_lt b hwidth value
    refine (hrep.pushElement hwidth hroom value).bind ?_
    rintro ⟨d, off⟩ ⟨hd, hoff⟩
    obtain rfl : off = _ := hoff
    exact hd.trackField (by omega) hpad field _

theorem referTo (hrep : Represents c b isNested) {off : Nat} (hoff : off ≠ 0 ∧ off ≤ b.size)
    (hroom : b.size + 4 < maxBufferSize) :
    Succeeds (c.referTo off) fun d =>
      Represents d.1 (b.align 4) isNested ∧ d.2 = (b.referTo off).2 := by
  have hmax : maxBufferSize < 2 ^ 31 := by decide
  have hsize := Builder.align_size b 4
  have hpad := paddingBytes_lt b.size (show 0 < 4 by decide)
  refine (hrep.align (by decide) hroom).bind fun d hd => ?_
  have hinside : assert (decide (off ≠ 0 ∧ off ≤ d.getSize)) = .ok () := by
    refine assert_true (decide_eq_true ⟨hoff.1, ?_⟩)
    rw [hd.getSize]
    omega
  rw [hinside]
  refine .ok ⟨hd, ?_⟩
  change (wordSub d.getSize off + 4) % 2 ^ 32 = (b.align 4).size - off + 4
  rw [hd.getSize, wordSub_eq (by omega) (by omega)]
  omega

theorem pushOffset (hrep : Represents c b isNested) {off : Nat} (hoff : off ≠ 0 ∧ off ≤ b.size)
    (hroom : b.size + 12 < maxBufferSize) :
    Succeeds (c.pushOffset off) fun d => Represents d (b.pushOffset off) isNested := by
  have hsize := Builder.align_size b 4
  have hpad := paddingBytes_lt b.size (show 0 < 4 by decide)
  refine (hrep.referTo hoff (by omega)).bind ?_
  rintro ⟨d, reference⟩ ⟨hd, hreference⟩
  obtain rfl : reference = _ := hreference
  exact (hd.pushElement (by decide) (by omega) _).bind fun e he => .ok he.1

theorem addOffset (hrep : Represents c b isNested) {off : Nat} (hoff : off ≤ b.size)
    (hroom : b.size + 12 < maxBufferSize) (hpad : b.pad.length + 8 < 2 ^ 32) (field : Nat) :
    Succeeds (c.addOffset field off) fun d => Represents d (b.addOffset field off) isNested := by
  rw [FlatBufferBuilder.addOffset, Builder.addOffset]
  split
  · exact .ok hrep
  · next hsome =>
      have hsize := Builder.align_size b 4
      have halign := paddingBytes_lt b.size (show 0 < 4 by decide)
      refine (hrep.referTo ⟨hsome, hoff⟩ (by omega)).bind ?_
      rintro ⟨d, reference⟩ ⟨hd, hreference⟩
      obtain rfl : reference = _ := hreference
      exact hd.addElement (by decide) (by omega) hpad field _ _

theorem addSlot (hrep : Represents c b isNested) {slot : Builder.Slot} {start : Nat}
    (hfits : slot.Fits start) (hstart : start ≤ b.size) (hroom : b.size + 16 < maxBufferSize)
    (hpad : b.pad.length + 8 < 2 ^ 32) :
    Succeeds (c.addSlot slot) fun d => Represents d (b.addSlot slot) isNested := by
  cases slot with
  | scalar field width value isDefault =>
      have hwidth : 0 < width := Nat.pos_of_isPowerOfTwo hfits.width
      have hle : width ≤ 8 := hfits.width_le
      exact hrep.addElement hwidth (by omega) hpad field value isDefault
  | offset field target =>
      exact hrep.addOffset ((hfits.target field target rfl).trans hstart) (by omega) hpad field

/-- The calls of an open table. -/
theorem foldlM_addSlot {slots : List Builder.Slot} {start : Nat} (hrep : Represents c b isNested)
    (hb : b.minalign.isPowerOfTwo) (hfits : ∀ slot ∈ slots, slot.Fits start)
    (hstart : start ≤ b.size) (hroom : b.size + 16 * slots.length < maxBufferSize)
    (hpad : b.pad.length + 8 * slots.length < 2 ^ 32) :
    Succeeds (slots.foldlM FlatBufferBuilder.addSlot c) fun d =>
      Represents d (slots.foldl Builder.addSlot b) isNested := by
  induction slots generalizing c b with
  | nil => exact .ok hrep
  | cons slot rest ih =>
      rw [List.length_cons] at hroom hpad
      have hslot := hfits slot List.mem_cons_self
      have hrest := fun other hother => hfits other (List.mem_cons_of_mem slot hother)
      rw [List.foldlM_cons, List.foldl_cons]
      refine (hrep.addSlot hslot hstart (by omega) (by omega)).bind fun d hd => ?_
      by_cases habsent : slot.absent = true
      · rw [Builder.addSlot_absent habsent] at hd ⊢
        exact ih hd hb hrest hstart (by omega) (by omega)
      · have hwrites := Builder.addSlot_writes hb hslot hstart (by simpa using habsent)
        have hsize := hwrites.size_le
        have hgrown := hwrites.size_lt
        have hlength := (b.addSlot slot).pad_length
        rw [hwrites.vtables, hwrites.fieldLocs, List.length_append, List.length_singleton] at hlength
        have hbefore := b.pad_length
        exact ih hd hwrites.minalign hrest (by omega) (by omega) (by omega)

theorem notNested (hrep : Represents c b false) (hclosed : b.fieldLocs = []) :
    c.notNested = .ok () := by
  have hcount : c.numFieldLoc = 0 := by rw [hrep.numFieldLoc, hclosed]; rfl
  rw [FlatBufferBuilder.notNested, hrep.nested, hcount]
  rfl

theorem startTable (hrep : Represents c b false) (hclosed : b.fieldLocs = []) :
    Succeeds c.startTable fun d => Represents d.1 b true ∧ d.2 = b.startTable := by
  rw [FlatBufferBuilder.startTable, hrep.notNested hclosed]
  exact .ok ⟨⟨hrep.holds, hrep.numFieldLoc, hrep.maxVoffset, hrep.minalign, rfl, hrep.finished⟩,
    hrep.getSize⟩

end Represents

/-! ## Scalars in memory -/

namespace FlatBufferBuilder

variable {c : FlatBufferBuilder} {data pad : Bytes} {width k : Nat}

theorem readScalar_ok (hholds : c.buf.Holds data pad) (hpos : 0 < width)
    (hin : k + width ≤ data.length) :
    c.readScalar width (c.buf.cur + k) = .ok (FlatBuffers.readScalar width data k) := by
  have hread : c.buf.readBytes (c.buf.cur + k) width = .ok ((data.drop k).take width) :=
    hholds.readData hpos hin
  rw [FlatBufferBuilder.readScalar, hread]
  rfl

theorem writeScalar_ok (hholds : c.buf.Holds data pad) (hpos : 0 < width)
    (hin : k + width ≤ data.length) (value : Nat) :
    Succeeds (c.writeScalar width value (c.buf.cur + k)) fun d =>
      d.buf.Holds (FlatBuffers.writeScalar width value data k) pad ∧
        d = { c with buf := d.buf } := by
  have hlength := leBytes_length width value
  have hwrite := @VectorDownward.Holds.writeData c.buf data pad hholds k (leBytes width value)
    (by omega) (by omega)
  rw [hlength] at hwrite
  exact @onBuf_ok c (·.writeBytes (c.buf.cur + k) (leBytes width value)) _ hwrite

end FlatBufferBuilder

end FlatBuffers
