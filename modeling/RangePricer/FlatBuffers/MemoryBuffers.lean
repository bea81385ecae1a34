import RangePricer.FlatBuffers.MemoryTables
import RangePricer.FlatBuffers.Reading

/-!
# Whole buffers in memory

Tables, vectors and the finished buffer, on memory and on lists side by side.
Between two of them no table is open, and the offsets in the scratch pad are
those of vtables in the data.
-/

namespace FlatBuffers

open Transition

/-! ## Vectors -/

namespace Represents

variable {c : FlatBufferBuilder} {b : Builder} {isNested : Bool}

theorem pushBytes (hrep : Represents c b isNested) {bytes : Bytes}
    (hroom : b.size + bytes.length < maxBufferSize) :
    Succeeds (c.pushBytes bytes) fun d => Represents d (b.pushBytes bytes) isNested := by
  have hmax : maxBufferSize < 2 ^ 31 := by decide
  exact hrep.onData (hrep.holds.push (show b.size < _ by omega) (show b.size + _ < _ by omega))

theorem preAlign (hrep : Represents c b isNested) {alignment : Nat} (hpos : 0 < alignment)
    (hroom : b.size + alignment < maxBufferSize) (len : Nat) :
    Succeeds (c.preAlign len alignment) fun d =>
      Represents d (b.preAlign len alignment) isNested := by
  have hmax : maxBufferSize < 2 ^ 31 := by decide
  have hpad := paddingBytes_lt (b.size + len) hpos
  have htracked := hrep.trackMinAlign alignment
  rw [FlatBufferBuilder.preAlign, Builder.preAlign, hrep.getSize]
  split
  · exact .ok hrep
  · exact htracked.onData
      (htracked.holds.fill (show b.size < _ by omega) (show b.size + _ < _ by omega))

theorem startVector (hrep : Represents c b false) (hclosed : b.fieldLocs = [])
    (hroom : b.size + 8 < maxBufferSize) (len elemSize : Nat) :
    Succeeds (c.startVector len elemSize 4) fun d =>
      Represents d (b.startVector len elemSize 4) true := by
  have hnested : Represents { c with nested := true } b true :=
    ⟨hrep.holds, hrep.numFieldLoc, hrep.maxVoffset, hrep.minalign, rfl, hrep.finished⟩
  have hsize : (b.preAlign (len * elemSize) 4).size < b.size + 4 := by
    by_cases hnone : len * elemSize = 0
    · rw [Builder.preAlign, if_pos hnone]
      omega
    · exact (Builder.preAlign_size hnone (by decide)).2
  rw [FlatBufferBuilder.startVector, hrep.notNested hclosed]
  refine (hnested.preAlign (by decide) (by omega) (len * elemSize)).bind fun d hd => ?_
  exact hd.preAlign (by decide) (by omega) (len * elemSize)

theorem endVector (hrep : Represents c b true) (hroom : b.size + 8 < maxBufferSize) (len : Nat) :
    Succeeds (c.endVector len) fun d =>
      Represents d.1 (b.endVector len) false ∧ d.2 = (b.endVector len).size := by
  have hended : Represents { c with nested := false } b false :=
    ⟨hrep.holds, hrep.numFieldLoc, hrep.maxVoffset, hrep.minalign, rfl, hrep.finished⟩
  rw [FlatBufferBuilder.endVector, assert_true hrep.nested]
  exact hended.pushElement (by decide) hroom len

/-- The references take four bytes each. -/
theorem size_foldr_pushOffset {offsets : List Nat} (hb : b.WellFormed 0)
    (haligned : offsets ≠ [] → 4 ∣ b.size) (hoffsets : ∀ off ∈ offsets, off ≤ b.size) :
    (offsets.foldr (fun off acc => acc.pushOffset off) b).size = b.size + 4 * offsets.length := by
  cases offsets with
  | nil => rfl
  | cons off rest =>
      exact (Builder.foldr_pushOffset hb (haligned (List.cons_ne_nil off rest)) _ hoffsets).2.1

/-- The elements of a vector of tables, pushed last to first. -/
theorem foldlM_pushOffset {offsets : List Nat} (hrep : Represents c b isNested)
    (hb : b.WellFormed 0) (haligned : offsets ≠ [] → 4 ∣ b.size)
    (hoffsets : ∀ off ∈ offsets, off ≠ 0 ∧ off ≤ b.size)
    (hroom : b.size + 4 * offsets.length + 12 < maxBufferSize) :
    Succeeds (offsets.reverse.foldlM FlatBufferBuilder.pushOffset c) fun d =>
      Represents d (offsets.foldr (fun off acc => acc.pushOffset off) b) isNested := by
  induction offsets with
  | nil => exact .ok hrep
  | cons off rest ih =>
      rw [List.length_cons] at hroom
      have hrest := fun other hother => hoffsets other (List.mem_cons_of_mem off hother)
      have haligned' : rest ≠ [] → 4 ∣ b.size := fun _ => haligned (List.cons_ne_nil off rest)
      obtain ⟨hoff, hbehind⟩ := hoffsets off List.mem_cons_self
      have hsize := size_foldr_pushOffset hb haligned' fun other hother => (hrest other hother).2
      rw [List.reverse_cons, List.foldlM_append]
      refine (ih haligned' hrest (by omega)).bind fun d hd => ?_
      rw [List.foldlM_cons]
      exact (hd.pushOffset ⟨hoff, by omega⟩ (by omega)).bind fun e he => .ok he

end Represents

/-! ## From one object to the next -/

/-- Finishing only adds to a buffer. -/
theorem Builder.size_le_finish {b : Builder} {lo : Nat} (hb : b.WellFormed lo) (root : Nat) :
    b.size ≤ (b.finish root).length := by
  have haligned := preAlign_pads hb.minalign 4 hb.minalign hb.minalign_le lo
  exact (haligned.trans (pushOffset_pads (haligned.wellFormed hb) root)).grows.size_le

/-- Nothing is open, and the memory stands for the plain builder. -/
structure Ready (c : FlatBufferBuilder) (b : Builder) : Prop where
  represents : Represents c b false
  closed : b.Closed
  wellFormed : b.WellFormed 0
  recorded : b.Recorded

theorem ready_new (allocator : Allocator) (initialSize : Nat) :
    Ready (.new allocator initialSize) {} :=
  ⟨represents_new allocator initialSize, ⟨rfl, rfl⟩, Builder.WellFormed.empty 0,
    Builder.recorded_empty⟩

namespace Ready

variable {c : FlatBufferBuilder} {b : Builder}

/-- The scratch pad takes no more room than the data. -/
theorem pad_le (hready : Ready c b) : b.pad.length ≤ b.size := by
  have hfew := hready.recorded.few
  rw [b.pad_length, hready.closed.fieldLocs]
  simpa using hfew

theorem buildTable {slots : List Builder.Slot} (hready : Ready c b)
    (hfits : ∀ slot ∈ slots, slot.Fits b.size) (hnodup : (slots.map (·.field)).Nodup)
    (hfew : slots.length ≤ 16) (hroom : b.size + 336 < maxBufferSize) :
    Succeeds (c.buildTable slots) fun d =>
      Ready d.1 (b.buildTable slots).1 ∧ d.2 = (b.buildTable slots).2 := by
  have hmax : maxBufferSize < 2 ^ 31 := by decide
  have hpad := hready.pad_le
  have hwf := hready.wellFormed
  have hfilled := Builder.addSlots_filled hready.closed hwf hfits hnodup
  have hbuilds := Builder.buildTable_builds hready.closed hwf hfits hnodup (Nat.zero_le _) hfew
  have hsize := hfilled.size_le
  have hrecorded := hready.recorded.grows hfilled.grows hfilled.vtables
  have hspan : (slots.foldl Builder.addSlot b).size + 8 ≤ b.startTable + 2 ^ 16 := by
    change _ ≤ b.size + 2 ^ 16
    omega
  refine (hready.represents.startTable hready.closed.fieldLocs).bind ?_
  rintro ⟨d, start⟩ ⟨hd, hstart⟩
  obtain rfl : start = b.startTable := hstart
  refine (hd.foldlM_addSlot hwf.minalign hfits le_rfl (by omega) (by omega)).bind fun e he => ?_
  refine (he.endTable hfilled.opened hrecorded hfilled.wellFormed.minalign hspan
    (by omega)).mono fun f hf => ⟨⟨hf.1, hbuilds.closed, hbuilds.wellFormed, ?_⟩, hf.2⟩
  exact hrecorded.endTable hfilled.opened hfilled.wellFormed.minalign

/-- What pads and pushes only leaves the scratch pad alone. -/
theorem of_pads {d : FlatBufferBuilder} {b' : Builder} (hready : Ready c b)
    (hrep : Represents d b' false) (hpads : Builder.Pads b b' 0) : Ready d b' :=
  ⟨hrep, hpads.closed hready.closed, hpads.wellFormed hready.wellFormed,
    hready.recorded.grows hpads.grows hpads.vtables⟩

theorem createVectorOfStructs {elemSize : Nat} {elems : List Bytes} (hready : Ready c b)
    (helems : ∀ elem ∈ elems, elem.length = elemSize)
    (hroom : (b.createVectorOfStructs elemSize 4 elems).1.size + 16 < maxBufferSize) :
    Succeeds (c.createVectorOfStructs elemSize 4 elems) fun d =>
      Ready d.1 (b.createVectorOfStructs elemSize 4 elems).1 ∧
        d.2 = (b.createVectorOfStructs elemSize 4 elems).2 := by
  have hlays := Builder.createVectorOfStructs_lays hready.wellFormed helems
  have hbehind := (Builder.startVector_pads hready.wellFormed elems.length elemSize).grows.size_le
  obtain ⟨hstarted, -⟩ := b.startVector_size elems.length elemSize
  have hpushed := Builder.size_pushBytes (b.startVector elems.length elemSize 4) elems.flatten
  have hended := Builder.pushElement_size
    ((b.startVector elems.length elemSize 4).pushBytes elems.flatten) 4 elems.length
  have hcreated : (b.createVectorOfStructs elemSize 4 elems).1.size =
      (((b.startVector elems.length elemSize 4).pushBytes elems.flatten).pushElement 4
        elems.length).size := rfl
  refine (hready.represents.startVector hready.closed.fieldLocs (by omega) elems.length
    elemSize).bind fun d hd => ?_
  refine (hd.pushBytes (by omega)).bind fun e he => ?_
  refine (he.endVector (by omega) elems.length).mono fun f hf => ⟨?_, hf.2⟩
  exact hready.of_pads hf.1 hlays.pads

theorem createVectorOfOffsets {offsets : List Nat} (hready : Ready c b)
    (hoffsets : ∀ off ∈ offsets, off ≠ 0 ∧ off ≤ b.size)
    (hroom : (b.createVectorOfOffsets offsets).1.size + 16 < maxBufferSize) :
    Succeeds (c.createVectorOfOffsets offsets) fun d =>
      Ready d.1 (b.createVectorOfOffsets offsets).1 ∧
        d.2 = (b.createVectorOfOffsets offsets).2 := by
  have hwf := hready.wellFormed
  have hlays := Builder.createVectorOfOffsets_lays hwf fun off hoff => (hoffsets off hoff).2
  have hstart := Builder.startVector_pads hwf offsets.length 4
  obtain ⟨hstarted, haligned⟩ := b.startVector_size offsets.length 4
  have hbehind := hstart.grows.size_le
  have haligned' : offsets ≠ [] → 4 ∣ (b.startVector offsets.length 4 4).size := by
    intro hsome
    have hpos := List.length_pos_iff.mpr hsome
    have hend := haligned (by omega)
    omega
  have hoffsets' : ∀ off ∈ offsets, off ≠ 0 ∧ off ≤ (b.startVector offsets.length 4 4).size :=
    fun off hoff => ⟨(hoffsets off hoff).1, (hoffsets off hoff).2.trans hbehind⟩
  have hsize := Represents.size_foldr_pushOffset (hstart.wellFormed hwf) haligned'
    fun off hoff => (hoffsets' off hoff).2
  have hended := Builder.pushElement_size (offsets.foldr (fun off acc => acc.pushOffset off)
    (b.startVector offsets.length 4 4)) 4 offsets.length
  have hcreated : (b.createVectorOfOffsets offsets).1.size =
      ((offsets.foldr (fun off acc => acc.pushOffset off)
        (b.startVector offsets.length 4 4)).pushElement 4 offsets.length).size := rfl
  refine (hready.represents.startVector hready.closed.fieldLocs (by omega) offsets.length
    4).bind fun d hd => ?_
  refine (hd.foldlM_pushOffset (hstart.wellFormed hwf) haligned' hoffsets' (by omega)).bind
    fun e he => ?_
  refine (he.endVector (by omega) offsets.length).mono fun f hf => ⟨?_, hf.2⟩
  exact hready.of_pads hf.1 hlays.pads

/-- A scalar stored in the data is read through `data_at`. -/
theorem readStored {off width value : Nat} (hready : Ready c b) (hpos : 0 < width)
    (hstored : StoredAt b.buf off (leBytes width value)) :
    c.readScalar width (c.buf.dataAt off) = .ok (value % 256 ^ width) := by
  have hholds := hready.represents.holds
  have hlength := hstored.length_le
  rw [leBytes_length] at hlength
  rw [hholds.dataAt hstored.1, FlatBufferBuilder.readScalar_ok hholds hpos
    (by have hin := hstored.1; omega), hstored.readScalar]

/-- An entry of the vtable of a table. -/
theorem readEntry {table vt i : Nat} {entries : List Nat} (hready : Ready c b)
    (hvtable : Builder.VtableAt b table vt entries) (hi : i < entries.length) :
    c.readScalar 2 (c.buf.dataAt vt + 2 * i) = .ok entries[i] := by
  have hholds := hready.represents.holds
  have hpiece := hvtable.storedAt.piece (fun entry _ => leBytes_length 2 entry) hi
  have hentry : entries[i] < 256 ^ 2 := hvtable.entry_lt _ (List.getElem_mem hi)
  have hinside := hpiece.length_le
  have hin := hvtable.storedAt.1
  have haddress : c.buf.dataAt vt + 2 * i = c.buf.dataAt (vt - 2 * i) := by
    rw [leBytes_length] at hinside
    rw [hholds.dataAt hin, hholds.dataAt hpiece.1]
    omega
  rw [haddress, hready.readStored (by decide) hpiece, Nat.mod_eq_of_lt hentry]

/-- The field of a reference is found present. -/
theorem required {table field target : Nat} {slots : List Builder.Slot} (hready : Ready c b)
    (htable : Builder.TableAt b table slots) (hslot : .offset field target ∈ slots)
    (hsome : target ≠ 0) (heven : 2 ∣ field) : c.required table field = .ok () := by
  have hholds := hready.represents.holds
  obtain ⟨vt, entries, hvtable, hslots⟩ := htable
  obtain ⟨hlt, hvalue⟩ := soffsetValue_soffsetWord hvtable.near
  have hword := hready.readStored (by decide) hvtable.word.storedAt
  rw [Nat.mod_eq_of_lt (show soffsetWord vt table < 256 ^ 4 from hlt)] at hword
  have hvtableAt : (c.buf.dataAt table : Int) - soffsetValue (soffsetWord vt table) =
      c.buf.dataAt vt := by
    have htableIn := hvtable.word.storedAt.1
    have hvtIn := hvtable.storedAt.1
    rw [hvalue, hholds.dataAt htableIn, hholds.dataAt hvtIn]
    omega
  obtain ⟨hnonempty, hfirst⟩ := List.getElem?_eq_some_iff.mp hvtable.size
  have hvtsize := hready.readEntry hvtable hnonempty
  rw [hfirst, Nat.mul_zero, Nat.add_zero] at hvtsize
  have hpresent : entries.getD (field / 2) 0 ≠ 0 := by
    have hat := hslots _ hslot
    rw [Builder.SlotAt, if_neg (by simpa [Builder.Slot.absent] using hsome)] at hat
    exact hat.1
  have hindex : field / 2 < entries.length := by
    by_contra houtside
    rw [List.getD_eq_getElem?_getD, List.getElem?_eq_none (by omega)] at hpresent
    exact hpresent rfl
  rw [List.getD_eq_getElem?_getD, List.getElem?_eq_getElem hindex] at hpresent
  have hentry := hready.readEntry hvtable hindex
  rw [Nat.mul_div_cancel' heven] at hentry
  have hlookup : c.optionalFieldOffset (c.buf.dataAt table) field = .ok entries[field / 2] := by
    rw [FlatBufferBuilder.optionalFieldOffset, hword]
    change (if (c.buf.dataAt table : Int) - soffsetValue (soffsetWord vt table) < 0 then _ else _) =
      _
    rw [hvtableAt, if_neg (by omega), Int.toNat_natCast, hvtsize]
    change (if field < 2 * entries.length then _ else _) = _
    rw [if_pos (by omega)]
    exact hentry
  rw [FlatBufferBuilder.required, hlookup]
  exact assert_true (decide_eq_true hpresent)

/-- `Finish` drops the offsets of the vtables, which nothing reads any more. -/
theorem clearScratch (hready : Ready c b) :
    Represents { c with buf := c.buf.clearScratch } { b with vtables := [] } false := by
  have hrep := hready.represents
  have hpad : ({ b with vtables := [] } : Builder).pad = [] := by
    change [] ++ b.fieldLocs.flatMap FieldLoc.bytes = []
    rw [hready.closed.fieldLocs]
    rfl
  refine ⟨?_, hrep.numFieldLoc, hrep.maxVoffset, hrep.minalign, hrep.nested, hrep.finished⟩
  rw [hpad]
  exact hrep.holds.clearScratch

/-- The finished buffer is read out of the memory as it stands. -/
theorem finish {root : Nat} (hready : Ready c b) (hroot : root ≠ 0 ∧ root ≤ b.size)
    (hroom : b.size + 20 < maxBufferSize) :
    (c.finish root >>= FlatBufferBuilder.finishedBytes) = .ok (b.finish root) := by
  have hrep := hready.represents
  have hle := hready.wellFormed.minalign_le
  have hpos := Nat.pos_of_isPowerOfTwo hready.wellFormed.minalign
  have hdropped := hready.clearScratch
  have hsize : ({ b with vtables := [] } : Builder).size = b.size := rfl
  have haligned := @Builder.preAlign_size { b with vtables := [] } 4 b.minalign (by decide) hpos
  have hgrows := (Builder.preAlign_pads (b := { b with vtables := [] }) hready.wellFormed.minalign
    4 hready.wellFormed.minalign hle 0).grows.size_le
  have hbuilt : Succeeds (c.finish root) fun d => d.finished = true ∧
      d.buf.Holds (b.finish root) [] := by
    have hsame : FlatBufferBuilder.preAlign { c with buf := c.buf.clearScratch } 4 c.minalign =
        FlatBufferBuilder.preAlign { c with buf := c.buf.clearScratch } 4 b.minalign :=
      congrArg _ hrep.minalign
    refine Succeeds.bind_ok (assert_true (by rw [hrep.finished]; rfl))
      (Succeeds.bind_ok (hrep.notNested hready.closed.fieldLocs) ?_)
    dsimp only
    rw [hsame]
    refine (hdropped.preAlign hpos (by omega) 4).bind fun d hd => ?_
    refine (hd.pushOffset ⟨hroot.1, by omega⟩ (by omega)).bind fun e he => .ok ⟨rfl, ?_⟩
    have hpad : ((({ b with vtables := [] } : Builder).preAlign 4 b.minalign).pushOffset
        root).pad = [] := by
      change [] ++ b.fieldLocs.flatMap FieldLoc.bytes = []
      rw [hready.closed.fieldLocs]
      rfl
    have hholds := he.holds
    rw [hpad] at hholds
    exact hholds
  obtain ⟨d, hd, hfinished, hholds⟩ := hbuilt
  have hlength : 0 < (b.finish root).length := by
    have hsize := Builder.pushElement_size ((b.preAlign 4 b.minalign).align 4) 4
      (((b.preAlign 4 b.minalign).align 4).size - root + 4)
    change 0 < (((b.preAlign 4 b.minalign).align 4).pushElement 4 _).size
    rw [hsize]
    exact Nat.succ_pos _
  have hread := hholds.readData hlength (show 0 + (b.finish root).length ≤ _ by omega)
  rw [hd]
  change d.finishedBytes = _
  rw [FlatBufferBuilder.finishedBytes, hfinished]
  change (d.buf.data >>= _) = _
  rw [FlatBufferBuilder.data_ok hholds (List.length_pos_iff.mp hlength)]
  change d.buf.readBytes d.buf.cur d.buf.size = _
  rw [hholds.size_eq]
  rw [List.drop_zero, List.take_length] at hread
  exact hread

end Ready

end FlatBuffers
