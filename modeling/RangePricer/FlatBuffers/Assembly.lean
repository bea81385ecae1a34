import RangePricer.FlatBuffers.Construction

/-!
# Tables, vectors and whole buffers

One lemma for each thing a caller builds: a table from its `add_` calls, a
vector of structs, a vector of tables, and the finished buffer.  Each says what
has been stored, that nothing stored before has moved, and how much the buffer
has grown.
-/

namespace FlatBuffers

namespace Builder

variable {b c : Builder} {lo : Nat}

/-! ## Tables -/

/-- A table has been built. -/
structure Builds (b c : Builder) (table lo : Nat) (slots : List Slot) : Prop where
  grows : Grows b c
  closed : c.Closed
  wellFormed : c.WellFormed lo
  lt_table : b.size < table
  table_le : table ≤ c.size
  size_le : c.size ≤ b.size + 16 * slots.length + 80
  tableAt : c.size < lo + 2 ^ 31 → TableAt c table slots

section

variable {slots : List Slot} (hclosed : b.Closed) (hwf : b.WellFormed lo)
  (hfits : ∀ slot ∈ slots, slot.Fits b.size) (hnodup : (slots.map (·.field)).Nodup)

include hclosed hwf hfits hnodup

/-- The calls of a table, made on a builder without an open table. -/
theorem addSlots_filled : Filled b (slots.foldl addSlot b) b.startTable lo slots := by
  refine foldl_addSlot slots hclosed.opened hwf hfits hnodup fun slot hslot loc hloc => ?_
  rw [hclosed.fieldLocs] at hloc
  cases hloc

theorem buildTable_builds (hlo : lo ≤ b.size) (hfew : slots.length ≤ 16) :
    Builds b (b.buildTable slots).1 (b.buildTable slots).2 lo slots := by
  have hfilled := addSlots_filled hclosed hwf hfits hnodup
  have hsize := hfilled.size_le
  have hgrown := hfilled.grows.size_le
  have hspan : (slots.foldl addSlot b).size + 8 ≤ b.startTable + 2 ^ 16 := by
    change _ ≤ b.size + 2 ^ 16
    omega
  have hcloses := endTable_closes hfilled.opened hfilled.wellFormed (hlo.trans hgrown) hspan
  have hlt := hcloses.lt_table
  have hle := hcloses.size_le
  refine ⟨hfilled.grows.trans hcloses.grows, hcloses.closed, hcloses.wellFormed,
    hgrown.trans_lt hlt, hcloses.table_le, ?_, fun hnear => ?_⟩
  · exact hle.trans (Nat.add_le_add_right hsize 80)
  · refine hcloses.tableAt hnear slots fun slot hslot => ⟨?_, hfilled.added slot hslot⟩
    exact ⟨(hfits slot hslot).field_even, (hfits slot hslot).field_low⟩

/-- A table whose vtable has a size of its own is found behind any amount of data. -/
theorem buildTable_tableAt (hfew : slots.length ≤ 16)
    (hother : ∀ vt ∈ (slots.foldl addSlot b).vtables, ∃ vtsize,
      StoredAt (slots.foldl addSlot b).buf vt (leBytes 2 vtsize) ∧
        vtsize % 256 ^ 2 ≠ (slots.foldl addSlot b).vtableSize) :
    TableAt (b.buildTable slots).1 (b.buildTable slots).2 slots := by
  have hfilled := addSlots_filled hclosed hwf hfits hnodup
  have hsize := hfilled.size_le
  refine endTable_tableAt hfilled.opened hfilled.wellFormed.minalign ?_ hother fun slot hslot => ?_
  · change _ ≤ b.size + 2 ^ 16
    omega
  · exact ⟨⟨(hfits slot hslot).field_even, (hfits slot hslot).field_low⟩, hfilled.added slot hslot⟩

end

/-! ## Vectors -/

/-- A step of the builder that leaves its bookkeeping alone. -/
structure Pads (b c : Builder) (lo : Nat) : Prop where
  grows : Grows b c
  vtables : c.vtables = b.vtables
  closed : b.Closed → c.Closed
  wellFormed : b.WellFormed lo → c.WellFormed lo

theorem Pads.refl (b : Builder) (lo : Nat) : Pads b b lo := ⟨.refl b, rfl, id, id⟩

theorem Pads.trans {d : Builder} (hbc : Pads b c lo) (hcd : Pads c d lo) : Pads b d lo :=
  ⟨hbc.grows.trans hcd.grows, hcd.vtables.trans hbc.vtables, hcd.closed ∘ hbc.closed,
    hcd.wellFormed ∘ hbc.wellFormed⟩

theorem pushBytes_pads (b : Builder) (bytes : Bytes) (lo : Nat) : Pads b (b.pushBytes bytes) lo :=
  ⟨pushBytes_grows b bytes, rfl, fun h => ⟨h.fieldLocs, h.maxVoffset⟩, fun h => h.pushBytes bytes⟩

theorem pushElement_pads (hb : b.minalign.isPowerOfTwo) {width : Nat}
    (hwidth : width.isPowerOfTwo) (hle : width ≤ 8) (value lo : Nat) :
    Pads b (b.pushElement width value) lo :=
  ⟨pushElement_grows hb hwidth value, rfl, fun h => ⟨h.fieldLocs, h.maxVoffset⟩,
    fun h => h.pushElement hwidth hle value⟩

theorem preAlign_pads (hb : b.minalign.isPowerOfTwo) (len : Nat) {alignment : Nat}
    (halignment : alignment.isPowerOfTwo) (hle : alignment ≤ 8) (lo : Nat) :
    Pads b (b.preAlign len alignment) lo := by
  unfold preAlign
  split
  · exact .refl b lo
  · exact ⟨⟨List.suffix_append _ _, dvd_max_left hb halignment⟩, rfl,
      fun h => ⟨h.fieldLocs, h.maxVoffset⟩,
      fun h => (h.trackMinAlign halignment hle).pushBytes _⟩

/-- After `PreAlign` the announced length ends on the alignment. -/
theorem preAlign_size {len alignment : Nat} (hlen : len ≠ 0) (hpos : 0 < alignment) :
    alignment ∣ (b.preAlign len alignment).size + len ∧
      (b.preAlign len alignment).size < b.size + alignment := by
  have hpad := paddingBytes_lt (b.size + len) hpos
  have hdvd := dvd_add_paddingBytes (b.size + len) hpos
  have hsize : (b.preAlign len alignment).size =
      b.size + paddingBytes (b.size + len) alignment := by
    rw [preAlign, if_neg hlen, fill, size_pushBytes, List.length_replicate, Nat.add_comm]
    rfl
  rw [hsize]
  refine ⟨?_, by omega⟩
  rwa [Nat.add_right_comm]

theorem startVector_pads (hb : b.WellFormed lo) (len elemSize : Nat) :
    Pads b (b.startVector len elemSize 4) lo := by
  have hfirst := preAlign_pads hb.minalign (len * elemSize) isPowerOfTwo_four (by decide) lo
  exact hfirst.trans
    (preAlign_pads (hfirst.wellFormed hb).minalign (len * elemSize) isPowerOfTwo_four
      (by decide) lo)

theorem startVector_size (b : Builder) (len elemSize : Nat) :
    (b.startVector len elemSize 4).size ≤ b.size + 6 ∧
      (len * elemSize ≠ 0 → 4 ∣ (b.startVector len elemSize 4).size + len * elemSize) := by
  unfold startVector
  by_cases hnone : len * elemSize = 0
  · rw [preAlign, if_pos hnone, preAlign, if_pos hnone]
    exact ⟨Nat.le_add_right _ _, fun hsome => absurd hnone hsome⟩
  · have hfirst := @preAlign_size b _ 4 hnone (by decide)
    have hsecond := @preAlign_size (b.preAlign (len * elemSize) 4) _ 4 hnone (by decide)
    exact ⟨by omega, fun _ => hsecond.1⟩

/-- The length `EndVector` puts in front of the elements. -/
theorem pushLength_stored (hb : b.WellFormed lo) (len : Nat) :
    Pads b (b.pushElement 4 len) lo ∧
      Stored (b.pushElement 4 len) (b.pushElement 4 len).size 4 len :=
  ⟨pushElement_pads hb.minalign isPowerOfTwo_four (by decide) len lo,
    pushElement_stored hb.minalign isPowerOfTwo_four len⟩

/-- A vector has been laid down: its length, then `body`. -/
structure Lays (b c : Builder) (vec lo count : Nat) (body : Bytes) : Prop where
  pads : Pads b c lo
  vec_eq : vec = c.size
  aligned : 4 ∣ vec
  minalign : 4 ∣ c.minalign
  storedAt : StoredAt c.buf vec (leBytes 4 count ++ body)
  size_le : c.size ≤ b.size + body.length + 16

theorem createVectorOfStructs_lays {elemSize : Nat} {elems : List Bytes} (hb : b.WellFormed lo)
    (helems : ∀ elem ∈ elems, elem.length = elemSize) :
    Lays b (b.createVectorOfStructs elemSize 4 elems).1
      (b.createVectorOfStructs elemSize 4 elems).2 lo elems.length elems.flatten := by
  have hstart := startVector_pads hb elems.length elemSize
  have hstartSize := b.startVector_size elems.length elemSize
  have hbody : elems.flatten.length = elems.length * elemSize := by
    have hlength := StoredAt.length_flatMap helems
    rw [List.flatMap_id'] at hlength
    rw [hlength, Nat.mul_comm]
  have hpushed := pushBytes_pads (b.startVector elems.length elemSize 4) elems.flatten lo
  have hpushedSize := size_pushBytes (b.startVector elems.length elemSize 4) elems.flatten
  have hwf := hpushed.wellFormed (hstart.wellFormed hb)
  generalize hc : (b.startVector elems.length elemSize 4).pushBytes elems.flatten = c at *
  have hcreate : b.createVectorOfStructs elemSize 4 elems =
      (c.pushElement 4 elems.length, (c.pushElement 4 elems.length).size) := by
    rw [← hc]
    rfl
  have hpad := pushElement_size_lt c (show 0 < 4 by decide) elems.length
  obtain ⟨hlast, hlength⟩ := pushLength_stored hwf elems.length
  rw [hcreate]
  refine ⟨(hstart.trans hpushed).trans hlast, rfl, hlength.aligned, hlength.minalign, ?_,
    by dsimp only; omega⟩
  change StoredAt (leBytes 4 elems.length ++ (c.align 4).buf) (c.pushElement 4 elems.length).size _
  by_cases hnone : elems.flatten = []
  · rw [hnone, List.append_nil]
    exact hlength.storedAt
  · -- `StartVector` left no padding between the length and the elements.
    have hsome : elems.length * elemSize ≠ 0 := by
      rw [← hbody]
      exact fun hzero => hnone (List.eq_nil_of_length_eq_zero hzero)
    have haligned : 4 ∣ c.size := by
      rw [hpushedSize, Nat.add_comm, hbody]
      exact hstartSize.2 hsome
    have hbuf : (c.align 4).buf =
        elems.flatten ++ (b.startVector elems.length elemSize 4).buf := by
      change List.replicate (paddingBytes c.size 4) 0 ++ c.buf = _
      rw [paddingBytes_of_dvd haligned, ← hc]
      rfl
    have hall := StoredAt.of_append (leBytes 4 elems.length ++ elems.flatten)
      (b.startVector elems.length elemSize 4).buf
    rw [List.append_assoc, ← hbuf] at hall
    exact hall

/-! ## Vectors of tables -/

/-- Pushing a reference onto an aligned buffer needs no padding. -/
theorem pushOffset_aligned (haligned : 4 ∣ b.size) {off : Nat} (hoff : off ≤ b.size) :
    (b.pushOffset off).buf = leBytes 4 (b.size + 4 - off) ++ b.buf := by
  have hnone := paddingBytes_of_dvd haligned
  have hfirst : (b.align 4).buf = b.buf := by
    change List.replicate (paddingBytes b.size 4) 0 ++ b.buf = _
    rw [hnone]
    rfl
  have hsize : (b.align 4).size = b.size := congrArg List.length hfirst
  have hreference : (b.align 4).size - off + 4 = b.size + 4 - off := by omega
  change leBytes 4 ((b.align 4).size - off + 4) ++
    (List.replicate (paddingBytes (b.align 4).size 4) 0 ++ (b.align 4).buf) = _
  rw [hreference, hsize, hnone, hfirst]
  rfl

theorem pushOffset_pads (hb : b.WellFormed lo) (off : Nat) : Pads b (b.pushOffset off) lo := by
  have halign : Pads b (b.align 4) lo :=
    ⟨align_grows hb.minalign isPowerOfTwo_four, rfl, fun h => ⟨h.fieldLocs, h.maxVoffset⟩,
      fun h => h.align isPowerOfTwo_four (by decide)⟩
  exact halign.trans
    (pushElement_pads (halign.wellFormed hb).minalign isPowerOfTwo_four (by decide) _ lo)

/-- The references of `offsets`, the first of them at the front. -/
structure References (c : Builder) (front : Nat) (offsets : List Nat) : Prop where
  intro ::
  stored : ∀ i, (hi : i < offsets.length) → 4 * i < front ∧ offsets[i] < front - 4 * i ∧
    StoredAt c.buf (front - 4 * i) (leBytes 4 (front - 4 * i - offsets[i]))

theorem foldr_pushOffset (hb : b.WellFormed lo) (haligned : 4 ∣ b.size) (offsets : List Nat)
    (hoffsets : ∀ off ∈ offsets, off ≤ b.size) :
    Pads b (offsets.foldr (fun off acc => acc.pushOffset off) b) lo ∧
      (offsets.foldr (fun off acc => acc.pushOffset off) b).size =
        b.size + 4 * offsets.length ∧
      References (offsets.foldr (fun off acc => acc.pushOffset off) b)
        (b.size + 4 * offsets.length) offsets := by
  induction offsets with
  | nil => exact ⟨.refl b lo, rfl, ⟨fun i hi => absurd hi (Nat.not_lt_zero i)⟩⟩
  | cons off rest ih =>
      obtain ⟨hpads, hsize, hstored⟩ :=
        ih fun other hother => hoffsets other (List.mem_cons_of_mem _ hother)
      have hoff := hoffsets off List.mem_cons_self
      rw [List.foldr_cons]
      generalize rest.foldr (fun off acc => acc.pushOffset off) b = acc at hpads hsize hstored ⊢
      have hmultiple : 4 ∣ acc.size := by omega
      have hbuf := pushOffset_aligned hmultiple (show off ≤ acc.size by omega)
      have hlast := pushOffset_pads (hpads.wellFormed hb) off
      have htotal : (acc.pushOffset off).size = b.size + 4 * (off :: rest).length := by
        rw [size, hbuf, List.length_append, leBytes_length, List.length_cons]
        change 4 + acc.size = _
        omega
      refine ⟨hpads.trans hlast, htotal, ⟨fun i hi => ?_⟩⟩
      rw [List.length_cons] at hi ⊢
      cases i with
      | zero =>
          have hat := StoredAt.of_append (leBytes 4 (acc.size + 4 - off)) acc.buf
          rw [← hbuf] at hat
          change StoredAt _ (acc.pushOffset off).size _ at hat
          rw [htotal, List.length_cons] at hat
          have hvalue : acc.size + 4 - off = b.size + 4 * (rest.length + 1) - off := by omega
          rw [hvalue] at hat
          exact ⟨by omega, by simp only [List.getElem_cons_zero]; omega, hat⟩
      | succ i =>
          obtain ⟨hfront, htarget, hat⟩ := hstored.stored i (Nat.lt_of_succ_lt_succ hi)
          have hfront' : b.size + 4 * (rest.length + 1) - 4 * (i + 1) =
              b.size + 4 * rest.length - 4 * i := by omega
          rw [hfront', List.getElem_cons_succ]
          exact ⟨by omega, htarget, hat.of_suffix hlast.grows.buf⟩

/-- A vector of tables: its length, then the references. -/
structure LaysTables (b c : Builder) (vec lo : Nat) (offsets : List Nat) : Prop where
  pads : Pads b c lo
  vec_eq : vec = c.size
  aligned : 4 ∣ vec
  minalign : 4 ∣ c.minalign
  length : StoredAt c.buf vec (leBytes 4 offsets.length)
  references : offsets ≠ [] → References c (vec - 4) offsets
  size_le : c.size ≤ b.size + 4 * offsets.length + 16

theorem createVectorOfOffsets_lays {offsets : List Nat} (hb : b.WellFormed lo)
    (hoffsets : ∀ off ∈ offsets, off ≤ b.size) :
    LaysTables b (b.createVectorOfOffsets offsets).1 (b.createVectorOfOffsets offsets).2 lo
      offsets := by
  have hstart := startVector_pads hb offsets.length 4
  have hstartSize := b.startVector_size offsets.length 4
  have hwf := hstart.wellFormed hb
  have hbehind := hstart.grows.size_le
  have hcreate : b.createVectorOfOffsets offsets =
      let acc := offsets.foldr (fun off acc => acc.pushOffset off)
        (b.startVector offsets.length 4 4)
      (acc.pushElement 4 offsets.length, (acc.pushElement 4 offsets.length).size) := rfl
  rw [hcreate]
  cases offsets with
  | nil =>
      dsimp only [List.foldr_nil]
      have hpad := pushElement_size_lt (b.startVector 0 4 4) (show 0 < 4 by decide) 0
      obtain ⟨hlast, hlength⟩ := pushLength_stored hwf 0
      refine ⟨hstart.trans hlast, rfl, hlength.aligned, hlength.minalign, hlength.storedAt,
        fun hsome => absurd rfl hsome, ?_⟩
      simp only [List.length_nil] at hstartSize ⊢
      omega
  | cons off rest =>
      have haligned : 4 ∣ (b.startVector (off :: rest).length 4 4).size := by
        have hend := hstartSize.2 (by simp)
        omega
      obtain ⟨hpads, hsize, hreferences⟩ := foldr_pushOffset hwf haligned (off :: rest)
        fun other hother => (hoffsets other hother).trans hbehind
      dsimp only
      generalize (off :: rest).foldr (fun off acc => acc.pushOffset off)
        (b.startVector (off :: rest).length 4 4) = acc at hpads hsize hreferences ⊢
      have hnone := paddingBytes_of_dvd (show 4 ∣ acc.size by omega)
      obtain ⟨hlast, hlength⟩ := pushLength_stored (hpads.wellFormed hwf) (off :: rest).length
      have hfront : (acc.pushElement 4 (off :: rest).length).size - 4 =
          (b.startVector (off :: rest).length 4 4).size + 4 * (off :: rest).length := by
        rw [pushElement_size, hnone, ← hsize]
        omega
      refine ⟨(hstart.trans hpads).trans hlast, rfl, hlength.aligned, hlength.minalign,
        hlength.storedAt, fun _ => ⟨fun i hi => ?_⟩, ?_⟩
      · rw [hfront]
        obtain ⟨hlow, htarget, hat⟩ := hreferences.stored i hi
        exact ⟨hlow, htarget, hat.of_suffix hlast.grows.buf⟩
      · rw [pushElement_size, hnone, hsize]
        omega

/-! ## The finished buffer -/

/-- The buffer returned by `Finish`: everything stored is behind the root
reference, and the whole has the alignment of its parts. -/
structure Finished (b : Builder) (root : Nat) (buf : Bytes) : Prop where
  suffix : b.buf <:+ buf
  aligned : b.minalign ∣ buf.length
  lt_length : b.size + 4 ≤ buf.length
  length_le : buf.length ≤ b.size + 16
  root : StoredAt buf buf.length (leBytes 4 (buf.length - root))

theorem finish_finished {root : Nat} (hb : b.WellFormed lo) (hminalign : 4 ∣ b.minalign)
    (hroot : root ≤ b.size) : Finished b root (b.finish root) := by
  obtain ⟨hend, hsize⟩ :=
    @preAlign_size b 4 b.minalign (by decide) (Nat.pos_of_isPowerOfTwo hb.minalign)
  have hpads := preAlign_pads hb.minalign 4 hb.minalign hb.minalign_le lo
  have hle := hb.minalign_le
  have hgrown := hpads.grows.size_le
  have haligned : 4 ∣ (b.preAlign 4 b.minalign).size := by
    have hfour := Nat.dvd_trans hminalign hend
    omega
  have hbuf := pushOffset_aligned haligned (hroot.trans hgrown)
  have hlength : (b.finish root).length = (b.preAlign 4 b.minalign).size + 4 := by
    rw [finish, hbuf, List.length_append, leBytes_length, Nat.add_comm]
    rfl
  refine ⟨?_, ?_, by omega, by omega, ?_⟩
  · rw [finish, hbuf]
    exact hpads.grows.buf.trans (List.suffix_append _ _)
  · rwa [hlength]
  · have hat := StoredAt.of_append (leBytes 4 ((b.preAlign 4 b.minalign).size + 4 - root))
      (b.preAlign 4 b.minalign).buf
    rw [← hbuf] at hat
    change StoredAt (b.finish root) (b.finish root).length _ at hat
    rwa [← hlength] at hat

end Builder

end FlatBuffers
