import RangePricer.FlatBuffers.MemoryRefinement

/-!
# Tables in memory

`EndTable` fills the vtable in where it lies, looks for an equal one through the
offsets in the scratch pad, and drops the new one or remembers it.  Each part is
followed on the bytes it works on, and together they do what the plain builder
does with lists.
-/

namespace FlatBuffers

open Transition

/-! ## Scalars behind a prefix -/

theorem readScalar_append (width : Nat) (front buf : Bytes) (address : Nat) :
    readScalar width (front ++ buf) (front.length + address) = readScalar width buf address := by
  rw [readScalar, readScalar, List.drop_length_add_append]

theorem writeScalar_behind (width value : Nat) (front buf : Bytes) (address : Nat) :
    writeScalar width value (front ++ buf) (front.length + address) =
      front ++ writeScalar width value buf address := by
  rw [writeScalar, writeScalar, List.take_length_add_append, Nat.add_assoc,
    List.drop_length_add_append, List.append_assoc, List.append_assoc, List.append_assoc]

/-- Writing an entry of a vtable. -/
theorem writeScalar_vtableBytes {entries : List Nat} {i : Nat} (hi : i < entries.length)
    (value : Nat) (rest : Bytes) :
    writeScalar 2 value (vtableBytes entries ++ rest) (2 * i) =
      vtableBytes (entries.set i value) ++ rest := by
  induction entries generalizing i with
  | nil => cases hi
  | cons entry entries ih =>
      rw [vtableBytes, List.flatMap_cons, List.append_assoc]
      cases i with
      | zero =>
          rw [List.set_cons_zero, vtableBytes, List.flatMap_cons, List.append_assoc]
          exact Builder.writeScalar_append 2 value [] _ _ (leBytes_length _ _)
      | succ i =>
          have haddress : 2 * (i + 1) = (leBytes 2 entry).length + 2 * i := by
            rw [leBytes_length]
            omega
          rw [haddress, writeScalar_behind]
          have hnext := ih (Nat.lt_of_succ_lt_succ hi)
          rw [vtableBytes] at hnext
          rw [hnext, List.set_cons_succ, vtableBytes, vtableBytes, List.flatMap_cons,
            List.append_assoc]

/-- Reading an entry of a vtable. -/
theorem readScalar_vtableBytes {entries : List Nat} {i entry : Nat}
    (hentry : entries[i]? = some entry) (rest : Bytes) :
    readScalar 2 (vtableBytes entries ++ rest) (2 * i) = entry % 256 ^ 2 := by
  induction entries generalizing i with
  | nil => cases hentry
  | cons first entries ih =>
      rw [vtableBytes, List.flatMap_cons, List.append_assoc]
      cases i with
      | zero =>
          obtain rfl := Option.some.inj hentry
          rw [readScalar, List.drop_zero, List.take_left' (leBytes_length _ _), leValue_leBytes]
      | succ i =>
          have haddress : 2 * (i + 1) = (leBytes 2 first).length + 2 * i := by
            rw [leBytes_length]
            omega
          rw [haddress, readScalar_append]
          exact ih hentry

theorem vtableBytes_length (entries : List Nat) :
    (vtableBytes entries).length = 2 * entries.length :=
  StoredAt.length_flatMap fun entry _ => leBytes_length 2 entry

namespace FlatBufferBuilder

variable {c : FlatBufferBuilder} {data pad before after : Bytes} {width : Nat}

theorem data_ok (hholds : c.buf.Holds data pad) (hsome : data ≠ []) :
    c.buf.data = .ok c.buf.cur := by
  obtain ⟨buf, hbuf⟩ := hholds.exists_buf (by simp [hsome])
  rw [VectorDownward.data, hbuf]
  rfl

theorem scratchEnd_ok (hholds : c.buf.Holds data pad) (hsome : data ≠ []) :
    c.buf.scratchEnd = .ok pad.length := by
  obtain ⟨buf, hbuf⟩ := hholds.exists_buf (by simp [hsome])
  rw [VectorDownward.scratchEnd, hbuf, hholds.scratch_eq]
  rfl

/-- A scalar in the scratch pad. -/
theorem readScratch_ok {value : Nat}
    (hholds : c.buf.Holds data (before ++ leBytes width value ++ after)) (hpos : 0 < width)
    (hvalue : value < 256 ^ width) : c.readScalar width before.length = .ok value := by
  have hlength := leBytes_length width value
  have hread := hholds.readScratch (List.length_pos_iff.mp (hlength.symm ▸ hpos))
  rw [hlength] at hread
  rw [FlatBufferBuilder.readScalar, hread]
  exact congrArg Except.ok (leValue_leBytes_of_lt hvalue)

/-! ## Filling the vtable in -/

/-- The loop writes the entries of the fields it has read from the scratch pad, each
of them into a place that is still zero. -/
theorem writeOffsets_ok {table : Nat} {rest before : Bytes} {entries : List Nat}
    {locs : List FieldLoc} {c : FlatBufferBuilder} (htable : table < 2 ^ 32)
    (hholds : c.buf.Holds (vtableBytes entries ++ rest) (before ++ locs.flatMap FieldLoc.bytes))
    (hlocs : ∀ loc ∈ locs, 2 ∣ loc.id ∧ loc.id < 2 ^ 16 ∧ loc.off ≤ table)
    (hnodup : (locs.map (·.id)).Nodup)
    (hzero : ∀ loc ∈ locs, entries[loc.id / 2]? = some 0) :
    Succeeds (c.writeOffsets table locs.length before.length) fun d =>
      d.buf.Holds (vtableBytes (locs.foldl
          (fun entries loc => entries.set (loc.id / 2) (table - loc.off)) entries) ++ rest)
        (before ++ locs.flatMap FieldLoc.bytes) ∧ d = { c with buf := d.buf } := by
  induction locs generalizing before entries c with
  | nil => exact .ok ⟨hholds, rfl⟩
  | cons loc locs ih =>
      obtain ⟨heven, hsmall, hle⟩ := hlocs loc List.mem_cons_self
      have hentry := hzero loc List.mem_cons_self
      obtain ⟨hindex, -⟩ := List.getElem?_eq_some_iff.mp hentry
      have haddress : loc.id = 2 * (loc.id / 2) := (Nat.mul_div_cancel' heven).symm
      have hlength := vtableBytes_length entries
      have hinside : loc.id + 2 ≤ (vtableBytes entries ++ rest).length := by
        rw [List.length_append]
        omega
      have hsome : vtableBytes entries ++ rest ≠ [] :=
        List.length_pos_iff.mp (by omega)
      have hoffRead : c.readScalar 4 before.length = .ok loc.off := by
        refine @readScratch_ok c (vtableBytes entries ++ rest) before (leBytes 2 loc.id ++ [0, 0] ++
          locs.flatMap FieldLoc.bytes) 4 loc.off ?_ (by decide) (by omega)
        simpa [FieldLoc.bytes] using hholds
      have hidRead : c.readScalar 2 (before.length + 4) = .ok loc.id := by
        have hread := @readScratch_ok c (vtableBytes entries ++ rest) (before ++ leBytes 4 loc.off)
          ([0, 0] ++ locs.flatMap FieldLoc.bytes) 2 loc.id
          (by simpa [FieldLoc.bytes] using hholds) (by decide) hsmall
        rwa [List.length_append, leBytes_length] at hread
      have hold : c.readScalar 2 (c.buf.cur + loc.id) = .ok 0 := by
        rw [readScalar_ok hholds (by decide) hinside, haddress,
          readScalar_vtableBytes hentry]
        rfl
      rw [List.length_cons, writeOffsets]
      refine Succeeds.bind_ok hoffRead (Succeeds.bind_ok hidRead
        (Succeeds.bind_ok (data_ok hholds hsome) (Succeeds.bind_ok hold ?_)))
      refine (writeScalar_ok hholds (by decide) hinside _).bind fun d hd => ?_
      obtain ⟨hwritten, hsame⟩ := hd
      rw [wordSub_eq hle htable, haddress, writeScalar_vtableBytes hindex] at hwritten
      rw [List.map_cons, List.nodup_cons] at hnodup
      have hnext := @ih (before ++ loc.bytes) (entries.set (loc.id / 2) (table - loc.off)) d
        (by simpa using hwritten) (fun other hother => ?_) hnodup.2 (fun other hother => ?_)
      · rw [List.length_append, loc.bytes_length] at hnext
        refine hnext.mono fun e he => ⟨?_, ?_⟩
        · simpa using he.1
        · rw [he.2, hsame]
      · obtain ⟨hother, hrest⟩ := hlocs other (List.mem_cons_of_mem _ hother)
        exact ⟨hother, hrest⟩
      · have hdiffers : loc.id / 2 ≠ other.id / 2 := by
          intro hsame
          have hother' := (hlocs other (List.mem_cons_of_mem _ hother)).1
          have hid : other.id = loc.id := by omega
          exact hnodup.1 (List.mem_map.mpr ⟨other, hother, hid⟩)
        rw [List.getElem?_set_ne hdiffers]
        exact hzero other (List.mem_cons_of_mem _ hother)

/-- The vtable before the fields are entered. -/
def blankEntries (size objectSize : Nat) : List Nat :=
  size :: objectSize :: List.replicate (size / 2 - 2) 0

theorem vtableBytes_replicate (count : Nat) :
    vtableBytes (List.replicate count 0) = List.replicate (2 * count) 0 := by
  induction count with
  | zero => rfl
  | succ count ih =>
      rw [List.replicate_succ, vtableBytes, List.flatMap_cons, ← vtableBytes, ih]
      rfl

/-- The first two entries are written into a vtable of zeros. -/
theorem set_zeros {size : Nat} (hsize : 4 ≤ size) (objectSize : Nat) :
    ((List.replicate (size / 2) 0).set 1 objectSize).set 0 size = blankEntries size objectSize := by
  obtain ⟨count, hcount⟩ : ∃ count, size / 2 = count + 2 := ⟨size / 2 - 2, by omega⟩
  rw [blankEntries, hcount]
  rfl

/-- The header of a vtable is written in two steps, its own size last. -/
theorem exists_header {size : Nat} (hsize : 4 ≤ size) (objectSize : Nat) (rest : Bytes) :
    ∃ entries, entries.length = size / 2 ∧
      FlatBuffers.writeScalar 2 objectSize
        (vtableBytes (List.replicate (size / 2) 0) ++ rest) 2 = vtableBytes entries ++ rest ∧
      FlatBuffers.writeScalar 2 size (vtableBytes entries ++ rest) 0 =
        vtableBytes (blankEntries size objectSize) ++ rest := by
  refine ⟨(List.replicate (size / 2) 0).set 1 objectSize, ?_, ?_, ?_⟩
  · rw [List.length_set, List.length_replicate]
  · exact writeScalar_vtableBytes (i := 1) (by rw [List.length_replicate]; omega) objectSize rest
  · rw [← set_zeros hsize]
    exact writeScalar_vtableBytes (i := 0)
      (by rw [List.length_set, List.length_replicate]; omega) size rest

theorem blankEntries_zero {size objectSize id : Nat} (heven : 2 ∣ id) (hlow : 4 ≤ id)
    (hhigh : id + 2 ≤ size) : (blankEntries size objectSize)[id / 2]? = some 0 := by
  obtain ⟨i, hi⟩ : ∃ i, id / 2 = i + 2 := ⟨id / 2 - 2, by omega⟩
  rw [hi, blankEntries, List.getElem?_cons_succ, List.getElem?_cons_succ,
    List.getElem?_replicate, if_pos (by omega)]

/-- The fields of the open table are entered into its vtable and dropped from the
scratch pad. -/
theorem enterFields_ok {c : FlatBufferBuilder} {b : Builder} {start : Nat} (hopen : b.Open start)
    (hroom : b.opened.size + 66 < maxBufferSize)
    (hheader : c.buf.Holds (vtableBytes (blankEntries b.vtableSize (b.opened.size - start)) ++
      b.opened.buf) b.opened.pad) (hfields : c.numFieldLoc = b.fieldLocs.length) :
    Succeeds (do
      let scratchEnd ← c.buf.scratchEnd
      let c ← c.writeOffsets b.opened.size c.numFieldLoc (scratchEnd - c.numFieldLoc * 8)
      return c.clearOffsets) fun d =>
        d.buf.Holds (b.newVtable start ++ b.opened.buf) b.vtablePad ∧
          d = { c with buf := d.buf, numFieldLoc := 0, maxVoffset := 0 } := by
  have hmax : maxBufferSize < 2 ^ 31 := by decide
  obtain ⟨hlow, -, -⟩ := hopen.vtableSize_bounds
  obtain ⟨hbefore, -⟩ := b.opened_size_bounds
  have hwhole := vtableBytes_length (blankEntries b.vtableSize (b.opened.size - start))
  have hpresent : 0 < (blankEntries b.vtableSize (b.opened.size - start)).length :=
    Nat.succ_pos _
  have hpad : b.opened.pad = b.vtablePad ++ b.fieldLocs.flatMap FieldLoc.bytes := rfl
  have hlocsLength := @StoredAt.length_flatMap _ b.fieldLocs FieldLoc.bytes 8
    fun loc _ => loc.bytes_length
  have hit : b.opened.pad.length - c.numFieldLoc * 8 = b.vtablePad.length := by
    rw [hpad, List.length_append, hlocsLength, hfields]
    omega
  refine Succeeds.bind_ok (scratchEnd_ok hheader (List.length_pos_iff.mp (by
    rw [List.length_append]; omega))) ?_
  rw [hit, hfields]
  rw [hpad] at hheader
  refine (@writeOffsets_ok b.opened.size b.opened.buf b.vtablePad _ b.fieldLocs c (by omega)
    hheader (fun loc hloc => ?_) hopen.nodup fun loc hloc => ?_).bind fun d hd => .ok ⟨?_, ?_⟩
  · obtain ⟨heven, -, hle⟩ := hopen.id loc hloc
    have hvoffset := hopen.maxVoffset.2
    have hoff := (hopen.off loc hloc).2
    exact ⟨heven, by omega, by omega⟩
  · obtain ⟨heven, hlow, hle⟩ := hopen.id loc hloc
    exact blankEntries_zero heven hlow (by unfold Builder.vtableSize; omega)
  · obtain ⟨hwritten, hsame⟩ := hd
    have hdropped : d.numFieldLoc * 8 = (b.fieldLocs.flatMap FieldLoc.bytes).length := by
      rw [hsame, hlocsLength, ← hfields]
      exact Nat.mul_comm _ _
    change (d.buf.scratchPop (d.numFieldLoc * 8)).Holds _ _
    rw [hdropped]
    exact hwritten.scratchPop
  · rw [clearOffsets, hd.2]

theorem writeVtable_ok {c : FlatBufferBuilder} {b : Builder} {start : Nat}
    (hrep : Represents c b.opened true) (hopen : b.Open start)
    (hspan : b.size + 8 ≤ start + 2 ^ 16) (hroom : b.opened.size + 66 < maxBufferSize) :
    Succeeds (c.writeVtable start b.opened.size) fun d =>
      d.buf.Holds (b.newVtable start ++ b.opened.buf) b.vtablePad ∧
        d = { c with buf := d.buf, numFieldLoc := 0, maxVoffset := 0 } := by
  have hmax : maxBufferSize < 2 ^ 31 := by decide
  obtain ⟨hlow, hhigh, heven⟩ := hopen.vtableSize_bounds
  obtain ⟨hbefore, hafter⟩ := b.opened_size_bounds
  have hstart := hopen.start_le
  have hsize : max ((c.maxVoffset + 2) % 2 ^ 16) (fieldIndexToOffset 0) = b.vtableSize := by
    have hvoffset := hopen.maxVoffset.2
    have hsame : c.maxVoffset = b.maxVoffset := hrep.maxVoffset
    rw [hsame, Builder.vtableSize, Nat.mod_eq_of_lt (by omega)]
    rfl
  have hobject : wordSub b.opened.size start = b.opened.size - start :=
    wordSub_eq (by omega) (by omega)
  have hlength : b.opened.buf.length = b.opened.size := rfl
  have hfill : Succeeds (c.buf.fillBig b.vtableSize) fun v =>
      v.Holds (vtableBytes (List.replicate (b.vtableSize / 2) 0) ++ b.opened.buf)
        b.opened.pad := by
    rw [vtableBytes_replicate, Nat.mul_div_cancel' heven]
    exact hrep.holds.fillBig (by omega) (by omega) (by omega)
  unfold writeVtable
  dsimp only
  rw [hsize, hobject]
  refine (@onBuf_ok { c with maxVoffset := b.vtableSize } (·.fillBig b.vtableSize) _ hfill).bind
    fun d hd => ?_
  obtain ⟨hblank, hsame⟩ := hd
  have hzeros := vtableBytes_length (List.replicate (b.vtableSize / 2) 0)
  rw [List.length_replicate] at hzeros
  have hsome : vtableBytes (List.replicate (b.vtableSize / 2) 0) ++ b.opened.buf ≠ [] :=
    List.length_pos_iff.mp (by rw [List.length_append]; omega)
  refine Succeeds.bind_ok (assert_true (decide_eq_true (by omega)))
    (Succeeds.bind_ok (data_ok hblank hsome) ?_)
  -- The header of the vtable: the object size, then the size of the vtable.
  refine (@writeScalar_ok d _ _ 2 2 hblank (by decide) (by rw [List.length_append]; omega)
    (b.opened.size - start)).bind fun e he => ?_
  obtain ⟨hobjectSize, hsame'⟩ := he
  obtain ⟨entries, hcount, hmiddle, hboth⟩ :=
    exists_header hlow (b.opened.size - start) b.opened.buf
  have hwords := vtableBytes_length entries
  rw [hmiddle] at hobjectSize
  have hsome' : vtableBytes entries ++ b.opened.buf ≠ [] :=
    List.length_pos_iff.mp (by rw [List.length_append]; omega)
  have hmaxVoffset : e.maxVoffset = b.vtableSize := by rw [hsame', hsame]
  refine Succeeds.bind_ok (data_ok hobjectSize hsome') ?_
  refine (@writeScalar_ok e _ _ 2 0 hobjectSize (by decide) (by rw [List.length_append]; omega)
    e.maxVoffset).bind fun f hf => ?_
  obtain ⟨hheader, hsame''⟩ := hf
  rw [hmaxVoffset, hboth] at hheader
  have hfields : f.numFieldLoc = b.fieldLocs.length := by
    rw [hsame'', hsame', hsame]
    exact hrep.numFieldLoc
  refine (enterFields_ok hopen hroom hheader hfields).mono fun g hg => ⟨hg.1, ?_⟩
  rw [hg.2, hsame'', hsame', hsame]

/-! ## Looking for an equal vtable -/

/-- The loop reads the offsets of the vtables from the scratch pad and compares what
lies there with the new vtable, at the front of the data. -/
theorem findVtable_ok {vt1 rest before : Bytes} {vtables : List Nat}
    (hholds : c.buf.Holds (vt1 ++ rest) (before ++ vtables.flatMap (leBytes 4)))
    (hvt1 : leValue (vt1.take 2) = vt1.length) (hpos : 0 < vt1.length)
    (hvtables : ∀ vt ∈ vtables, 2 ≤ vt ∧ vt ≤ (vt1 ++ rest).length ∧
      leValue ((tail (vt1 ++ rest) vt).take 2) ≤ vt) :
    c.findVtable c.buf.cur vt1.length vtables.length before.length =
      .ok (vtables.find? (sameVtable (vt1 ++ rest) vt1)) := by
  induction vtables generalizing before with
  | nil => rfl
  | cons vt vtables ih =>
      obtain ⟨hlow, hhigh, hfits⟩ := hvtables vt List.mem_cons_self
      have hlimit := hholds.data_lt
      have hoffset : c.readScalar 4 before.length = .ok vt := by
        refine @readScratch_ok c (vt1 ++ rest) before (vtables.flatMap (leBytes 4)) 4 vt ?_
          (by decide) (by omega)
        rw [List.flatMap_cons, ← List.append_assoc] at hholds
        exact hholds
      have hsize : c.readScalar 2 (c.buf.dataAt vt) =
          .ok (leValue ((tail (vt1 ++ rest) vt).take 2)) := by
        rw [hholds.dataAt hhigh]
        exact readScalar_ok hholds (by decide) (by omega)
      have hnext : c.findVtable c.buf.cur vt1.length vtables.length (before.length + 4) =
          .ok (vtables.find? (sameVtable (vt1 ++ rest) vt1)) := by
        have hrest := @ih (before ++ leBytes 4 vt)
          (by rw [List.append_assoc, ← List.flatMap_cons]; exact hholds)
          fun other hother => hvtables other (List.mem_cons_of_mem vt hother)
        rwa [List.length_append, leBytes_length] at hrest
      have hright : c.buf.readBytes c.buf.cur vt1.length = .ok vt1 := by
        have hread := @VectorDownward.Holds.readData _ _ _ hholds 0 vt1.length hpos
          (by rw [List.length_append]; omega)
        rwa [List.drop_zero, List.take_left] at hread
      rw [List.length_cons, findVtable, hoffset, List.find?_cons]
      change (c.readScalar 2 (c.buf.dataAt vt) >>= _) = _
      rw [hsize]
      change (if vt1.length ≠ leValue ((tail (vt1 ++ rest) vt).take 2) then _ else _) = _
      by_cases hsame : vt1.length = leValue ((tail (vt1 ++ rest) vt).take 2)
      · have hleft : c.buf.readBytes (c.buf.dataAt vt) vt1.length =
            .ok ((tail (vt1 ++ rest) vt).take vt1.length) := by
          rw [hholds.dataAt hhigh]
          exact hholds.readData hpos (by omega)
        rw [if_neg (not_not.mpr hsame), hleft]
        change (c.buf.readBytes c.buf.cur vt1.length >>= _) = _
        rw [hright]
        change (if (tail (vt1 ++ rest) vt).take vt1.length ≠ vt1 then _ else _) = _
        have htest : sameVtable (vt1 ++ rest) vt1 vt =
            ((tail (vt1 ++ rest) vt).take vt1.length == vt1) := by
          simp [sameVtable, hvt1, ← hsame]
        rw [htest]
        by_cases hequal : (tail (vt1 ++ rest) vt).take vt1.length = vt1
        · rw [if_neg (not_not.mpr hequal), hequal, beq_self_eq_true]
          rfl
        · rw [if_pos hequal, beq_eq_false_iff_ne.mpr hequal]
          exact hnext
      · have htest : sameVtable (vt1 ++ rest) vt1 vt = false := by
          simp [sameVtable, hvt1, hsame]
        rw [if_pos hsame, htest]
        exact hnext

/-! ## Dropping the new vtable or remembering it -/

section

variable {b : Builder} {start : Nat}
  (hholds : c.buf.Holds (b.newVtable start ++ b.opened.buf) b.vtablePad)

include hholds

theorem chooseVtable_some {vtUse : Nat} (hbehind : vtUse ≤ b.size) :
    Succeeds (c.chooseVtable b.opened.size (some vtUse)) fun d =>
      d.1.buf.Holds b.opened.buf b.vtablePad ∧ d.1 = { c with buf := d.1.buf } ∧
        d.2 = vtUse := by
  have hsize := hholds.size_eq
  have hlimit := hholds.data_lt
  rw [List.length_append] at hsize hlimit
  have hlength : b.opened.buf.length = b.opened.size := rfl
  have hdropped : wordSub c.getSize b.opened.size = (b.newVtable start).length := by
    change wordSub c.buf.size b.opened.size = _
    rw [wordSub_eq (by omega) (by omega)]
    omega
  have hpopped := hholds.pop
  have hdiffers : vtUse ≠ (c.buf.pop (b.newVtable start).length).size := by
    have hopened := b.opened_size_bounds
    rw [hpopped.size_eq]
    omega
  rw [chooseVtable, hdropped]
  refine ⟨({ c with buf := c.buf.pop (b.newVtable start).length }, vtUse), if_neg hdiffers, ?_⟩
  exact ⟨hpopped, rfl, rfl⟩

theorem chooseVtable_none
    (hroom : (b.newVtable start ++ b.opened.buf).length < maxBufferSize)
    (hpad : b.vtablePad.length + 4 < 2 ^ 32) :
    Succeeds (c.chooseVtable b.opened.size none) fun d =>
      d.1.buf.Holds (b.newVtable start ++ b.opened.buf)
          (b.vtablePad ++ leBytes 4 (b.newVtable start ++ b.opened.buf).length) ∧
        d.1 = { c with buf := d.1.buf } ∧
        d.2 = (b.newVtable start ++ b.opened.buf).length := by
  have hsize : c.getSize = (b.newVtable start ++ b.opened.buf).length := hholds.size_eq
  have hlength := leBytes_length 4 (b.newVtable start ++ b.opened.buf).length
  have hpush := hholds.scratchPushSmall
    (List.length_pos_iff.mp (hlength.symm ▸ (show 0 < 4 by decide))) hroom (by rwa [hlength])
  rw [chooseVtable, Option.getD_none, if_pos rfl, hsize]
  refine (onBuf_ok hpush).bind fun d hd => .ok ?_
  exact ⟨hd.1, hd.2, rfl⟩

end

end FlatBufferBuilder

/-! ## Closing a table -/

namespace Builder

variable {b d : Builder} {start : Nat}

/-- Every remembered offset is where a vtable lies, and a vtable takes four bytes at least. -/
structure Recorded (b : Builder) : Prop where
  vtable : ∀ vt ∈ b.vtables, 2 ≤ vt ∧ vt ≤ b.size ∧ leValue ((tail b.buf vt).take 2) ≤ vt
  few : 4 * b.vtables.length ≤ b.size

theorem recorded_empty : ({} : Builder).Recorded :=
  ⟨fun _ hvt => absurd hvt List.not_mem_nil, le_rfl⟩

namespace Recorded

theorem of_suffix (hrecorded : b.Recorded) {buf : Bytes} (hsuffix : b.buf <:+ buf) :
    ∀ vt ∈ b.vtables, 2 ≤ vt ∧ vt ≤ buf.length ∧ leValue ((tail buf vt).take 2) ≤ vt := by
  intro vt hvt
  obtain ⟨hlow, hhigh, hfits⟩ := hrecorded.vtable vt hvt
  obtain ⟨front, rfl⟩ := hsuffix
  rw [tail_append hhigh, List.length_append]
  exact ⟨hlow, Nat.le_add_left_of_le hhigh, hfits⟩

theorem grows (hrecorded : b.Recorded) (hgrows : Grows b d) (hvtables : d.vtables = b.vtables) :
    d.Recorded := by
  have hfew := hrecorded.few.trans hgrows.size_le
  refine ⟨?_, ?_⟩
  · rw [hvtables]
    exact hrecorded.of_suffix hgrows.buf
  · rwa [hvtables]

/-- A new vtable is recorded where it was written. -/
theorem endTable (hrecorded : b.Recorded) (hopen : b.Open start) (hb : b.minalign.isPowerOfTwo) :
    (b.endTable start).1.Recorded := by
  cases hfind : b.vtables.find? (sameVtable (b.newVtable start ++ b.opened.buf)
      (b.newVtable start)) with
  | some vtUse =>
      rw [endTable_some hfind]
      exact hrecorded.grows (withWord_grows hb) rfl
  | none =>
      rw [endTable_none hfind]
      obtain ⟨hlow, -, -⟩ := hopen.vtableSize_bounds
      obtain ⟨hnew, -, hstored⟩ := hopen.newVtable_stored
        (b.vtables ++ [(b.newVtable start ++ b.opened.buf).length])
      have hlength := hopen.newVtable_length
      have hfirst := hopen.newVtable_take
      have hopened := b.opened_size_bounds
      have hfew := hrecorded.few
      generalize (b.newVtable start ++ b.opened.buf).length = vtUse at hnew hstored ⊢
      dsimp only
      have hsize := b.withWord_size (b.newVtable start) vtUse (b.vtables ++ [vtUse])
      have hgrows := @withWord_grows b (b.newVtable start) vtUse (b.vtables ++ [vtUse]) hb
      refine ⟨fun vt hvt => ?_, ?_⟩
      · rcases List.mem_append.mp hvt with hold | hlast
        · exact hrecorded.of_suffix hgrows.buf vt hold
        · obtain rfl := List.mem_singleton.mp hlast
          obtain ⟨rest, hrest⟩ := hstored.2
          have htake : (tail (b.withWord (b.newVtable start) vt (b.vtables ++ [vt])).buf vt).take 2 =
              (b.newVtable start).take 2 := by
            rw [← hrest, List.take_append_of_le_length (by omega)]
          rw [htake, hfirst]
          omega
      · change 4 * (b.vtables ++ [vtUse]).length ≤ _
        rw [List.length_append, List.length_singleton]
        omega

end Recorded

end Builder

namespace Represents

variable {c : FlatBufferBuilder} {b : Builder} {start : Nat}

/-- The last write of `EndTable`, into the word at the table. -/
theorem writeWord {d e : FlatBufferBuilder} {data : Bytes} {vtables : List Nat}
    (hrep : Represents c b.opened true)
    (hcleared : d = { c with buf := d.buf, numFieldLoc := 0, maxVoffset := 0 })
    (hchosen : e = { d with buf := e.buf })
    (hholds : e.buf.Holds data (vtables.flatMap (leBytes 4))) (hin : b.opened.size ≤ data.length)
    (vtUse : Nat) :
    Succeeds
      (do
        let c ← e.writeScalar 4 (soffsetWord vtUse b.opened.size) (e.buf.dataAt b.opened.size)
        return ({ c with nested := false }, b.opened.size))
      fun f => Represents f.1
        ⟨FlatBuffers.writeScalar 4 (soffsetWord vtUse b.opened.size) data
          (data.length - b.opened.size), b.opened.minalign, [], 0, vtables⟩ false ∧
        f.2 = b.opened.size := by
  have hopened := b.opened_size
  rw [hholds.dataAt hin]
  refine (FlatBufferBuilder.writeScalar_ok hholds (by decide) (by omega) _).bind fun f hf => .ok ?_
  obtain ⟨hwritten, hsame⟩ := hf
  have hpad : (⟨FlatBuffers.writeScalar 4 (soffsetWord vtUse b.opened.size) data
      (data.length - b.opened.size), b.opened.minalign, [], 0, vtables⟩ : Builder).pad =
      vtables.flatMap (leBytes 4) := List.append_nil _
  refine ⟨⟨by rw [hpad]; exact hwritten, ?_, ?_, ?_, rfl, ?_⟩, rfl⟩
  · rw [hsame, hchosen, hcleared]
    rfl
  · rw [hsame, hchosen, hcleared]
  · rw [hsame, hchosen, hcleared]
    exact hrep.minalign
  · rw [hsame, hchosen, hcleared]
    exact hrep.finished

/-- Closing the table does in memory what it does on lists. -/
theorem endTable (hrep : Represents c b true) (hopen : b.Open start) (hrecorded : b.Recorded)
    (hb : b.minalign.isPowerOfTwo) (hspan : b.size + 8 ≤ start + 2 ^ 16)
    (hroom : b.size + 80 < maxBufferSize) :
    Succeeds (c.endTable start) fun d =>
      Represents d.1 (b.endTable start).1 false ∧ d.2 = (b.endTable start).2 := by
  have hmax : maxBufferSize < 2 ^ 31 := by decide
  obtain ⟨hlow, hhigh, -⟩ := hopen.vtableSize_bounds
  have hopened := b.opened_size_bounds
  have hlength := hopen.newVtable_length
  have hfirst := hopen.newVtable_take
  have hfew := hrecorded.few
  refine Succeeds.bind_ok (assert_true hrep.nested) ?_
  refine (hrep.pushElement (by decide) (by omega) 0).bind ?_
  rintro ⟨d, loc⟩ ⟨hd, hloc⟩
  obtain rfl : loc = b.opened.size := hloc
  refine (FlatBufferBuilder.writeVtable_ok hd hopen hspan (by omega)).bind fun e he => ?_
  obtain ⟨hwritten, hsame⟩ := he
  have hsome : b.newVtable start ++ b.opened.buf ≠ [] :=
    List.length_pos_iff.mp (by rw [List.length_append]; omega)
  have hvt1Size : e.readScalar 2 e.buf.cur = .ok (b.newVtable start).length := by
    have hread := @FlatBufferBuilder.readScalar_ok e _ _ 2 0 hwritten (by decide)
      (by rw [List.length_append]; omega)
    rw [readScalar, List.drop_zero, List.take_append_of_le_length (by omega), hfirst] at hread
    exact hread
  have hcount : (b.vtablePad.length + 3) / 4 = b.vtables.length := by
    rw [Builder.vtablePad_length]
    omega
  have hfind := @FlatBufferBuilder.findVtable_ok e (b.newVtable start) b.opened.buf [] b.vtables
    hwritten hfirst (by omega) (hrecorded.of_suffix
      ((Builder.pushElement_grows hb isPowerOfTwo_four 0).buf.trans (List.suffix_append _ _)))
  rw [← hcount] at hfind
  refine Succeeds.bind_ok (FlatBufferBuilder.data_ok hwritten hsome)
    (Succeeds.bind_ok hvt1Size (Succeeds.bind_ok (FlatBufferBuilder.scratchEnd_ok hwritten hsome)
      (Succeeds.bind_ok hfind ?_)))
  rw [Builder.endTable_eq]
  cases hfound : b.vtables.find? (sameVtable (b.newVtable start ++ b.opened.buf)
      (b.newVtable start)) with
  | some vtUse =>
      obtain ⟨-, hbehind, -⟩ := hrecorded.vtable vtUse (List.mem_of_find?_eq_some hfound)
      refine (FlatBufferBuilder.chooseVtable_some hwritten hbehind).bind ?_
      rintro ⟨f, vt⟩ ⟨hchosen, hsame', hvt⟩
      obtain rfl : vt = vtUse := hvt
      have hword := hd.writeWord hsame hsame' hchosen le_rfl vt
      rw [show b.opened.buf.length - b.opened.size = 0 from Nat.sub_self _] at hword
      exact hword
  | none =>
      refine (FlatBufferBuilder.chooseVtable_none hwritten ?_ ?_).bind ?_
      · rw [List.length_append, hlength]
        change _ + b.opened.size < _
        omega
      · rw [Builder.vtablePad_length]
        omega
      rintro ⟨f, vt⟩ ⟨hchosen, hsame', hvt⟩
      obtain rfl : vt = _ := hvt
      refine hd.writeWord hsame hsame' ?_ ?_ _
      · rw [List.flatMap_append, List.flatMap_singleton]
        exact hchosen
      · rw [List.length_append]
        exact Nat.le_add_left _ _

end Represents

end FlatBuffers
