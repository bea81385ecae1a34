import RangePricer.FlatBuffers.Assembly

/-!
# Reading a finished buffer

What the accessors return and what the verifier accepts on a buffer that a
builder has finished.  A table stored `table` bytes before the end is at address
`buf.length - table`, and every lemma is stated for addresses of that form.
-/

namespace FlatBuffers

/-- The stored word leads back from the table to its vtable. -/
theorem soffsetValue_soffsetWord {vt table : Nat}
    (hnear : vt < table + 2 ^ 31 ∧ table < vt + 2 ^ 31) :
    soffsetWord vt table < 2 ^ 32 ∧ soffsetValue (soffsetWord vt table) = (vt : Int) - table := by
  rcases Nat.lt_or_ge vt table with hlt | hge
  · have hword : soffsetWord vt table = 2 ^ 32 - (table - vt) := by
      unfold soffsetWord
      omega
    rw [hword, soffsetValue_neg (by omega) (by omega)]
    omega
  · have hword : soffsetWord vt table = vt - table := by
      unfold soffsetWord
      omega
    rw [hword, soffsetValue_ofNat (by omega)]
    omega

namespace Builder

variable {b : Builder} {root : Nat} {buf : Bytes}

namespace Finished

variable (hfinished : Finished b root buf)

include hfinished

theorem storedAt {off : Nat} {content : Bytes} (hstored : StoredAt b.buf off content) :
    StoredAt buf off content ∧ off + 4 ≤ buf.length :=
  ⟨hstored.of_suffix hfinished.suffix,
    (Nat.add_le_add_right hstored.1 4).trans hfinished.lt_length⟩

/-! ## Scalars -/

theorem readScalar {off width value : Nat} (hstored : Stored b off width value) :
    FlatBuffers.readScalar width buf (buf.length - off) = value % 256 ^ width :=
  (hfinished.storedAt hstored.storedAt).1.readScalar

theorem verifyRange {off width value : Nat} (hstored : Stored b off width value) :
    FlatBuffers.verifyRange buf (buf.length - off) width = true := by
  obtain ⟨hat, hfront⟩ := hfinished.storedAt hstored.storedAt
  have hrange := hat.verifyRange (by omega)
  rwa [leBytes_length] at hrange

theorem verifyAlignment {off width value : Nat} (hstored : Stored b off width value) :
    FlatBuffers.verifyAlignment (buf.length - off) width = true := by
  have hlength := Nat.dvd_trans hstored.minalign hfinished.aligned
  exact beq_iff_eq.mpr (Nat.mod_eq_zero_of_dvd (Nat.dvd_sub hlength hstored.aligned))

theorem verifyScalar {off width value : Nat} (hstored : Stored b off width value) :
    FlatBuffers.verifyScalar width buf (buf.length - off) = true := by
  rw [FlatBuffers.verifyScalar, hfinished.verifyAlignment hstored,
    hfinished.verifyRange hstored]
  rfl

/-! ## Vtables -/

section

variable {table vt : Nat} {entries : List Nat} (hlength : buf.length < 2 ^ 64)
  (hvtable : VtableAt b table vt entries)

include hlength hvtable

theorem vtableAddress_eq : vtableAddress buf (buf.length - table) = buf.length - vt := by
  have hword := hfinished.readScalar hvtable.word
  obtain ⟨hlt, hvalue⟩ := soffsetValue_soffsetWord hvtable.near
  have htable := (hfinished.storedAt hvtable.word.storedAt).2
  have hvt := (hfinished.storedAt hvtable.storedAt).2
  rw [Nat.mod_eq_of_lt (show soffsetWord vt table < 256 ^ 4 from hlt)] at hword
  rw [vtableAddress, hword, hvalue]
  omega

omit hlength in
/-- Entry `i` of the vtable, read through its address. -/
theorem readEntry {i : Nat} (hi : i < entries.length) :
    2 * i + 2 ≤ vt ∧
      FlatBuffers.readScalar 2 buf (buf.length - vt + 2 * i) = entries[i] := by
  obtain ⟨hat, hfront⟩ := hfinished.storedAt hvtable.storedAt
  have hall := hat.length_le
  rw [vtableBytes, StoredAt.length_flatMap fun entry _ => leBytes_length 2 entry] at hall
  have hpiece := (hat.piece (fun entry _ => leBytes_length 2 entry) hi).readScalar
  have hentry : entries[i] < 256 ^ 2 := hvtable.entry_lt _ (List.getElem_mem hi)
  rw [Nat.mod_eq_of_lt hentry] at hpiece
  have haddress : buf.length - (vt - 2 * i) = buf.length - vt + 2 * i := by omega
  rw [haddress] at hpiece
  exact ⟨by omega, hpiece⟩

omit hlength in
theorem vtableSize_eq :
    0 < entries.length ∧
      FlatBuffers.readScalar 2 buf (buf.length - vt) = 2 * entries.length := by
  obtain ⟨hpos, hhead⟩ := List.getElem?_eq_some_iff.mp hvtable.size
  have hread := (hfinished.readEntry hvtable hpos).2
  rw [hhead] at hread
  exact ⟨hpos, hread⟩

/-- The lookup finds the entry, or nothing beyond the vtable. -/
theorem getOptionalFieldOffset_eq {field : Nat} (hfield : 2 ∣ field) :
    getOptionalFieldOffset buf (buf.length - table) field = entries.getD (field / 2) 0 := by
  have hsize := (hfinished.vtableSize_eq hvtable).2
  have hdouble : 2 * (field / 2) = field := Nat.mul_div_cancel' hfield
  rw [getOptionalFieldOffset, hfinished.vtableAddress_eq hlength hvtable, hsize,
    List.getD_eq_getElem?_getD]
  split
  · next hinside =>
      have hi : field / 2 < entries.length := by omega
      have hread := (hfinished.readEntry hvtable hi).2
      rw [hdouble] at hread
      rw [hread, List.getElem?_eq_getElem hi]
      rfl
  · next houtside =>
      rw [List.getElem?_eq_none (by omega)]
      rfl

end

/-! ## The fields of a table -/

section

variable {table : Nat} {slots : List Slot} (hlength : buf.length < 2 ^ 64)
  (htable : TableAt b table slots)

include hlength htable

/-- A call that wrote nothing is not found; any other leads to what it wrote. -/
theorem slot_cases {slot : Slot} (hslot : slot ∈ slots) (hfield : 2 ∣ slot.field) :
    (slot.absent = true ∧
        getOptionalFieldOffset buf (buf.length - table) slot.field = 0) ∨
      (slot.absent = false ∧ ∃ off,
        getOptionalFieldOffset buf (buf.length - table) slot.field ≠ 0 ∧
          buf.length - table + getOptionalFieldOffset buf (buf.length - table) slot.field =
            buf.length - off ∧
          off < table ∧ Stored b off slot.width (slot.value off) ∧
            ∀ field target, slot = .offset field target → target < off) := by
  obtain ⟨vt, entries, hvtable, hslots⟩ := htable.exists_vtable
  have hat := hslots slot hslot
  have hin := (hfinished.storedAt hvtable.word.storedAt).2
  rw [hfinished.getOptionalFieldOffset_eq hlength hvtable hfield]
  unfold SlotAt at hat
  dsimp only at hat
  split at hat
  · next habsent => exact .inl ⟨habsent, hat⟩
  · next hpresent =>
      obtain ⟨hentry, hlt, hstored, htarget⟩ := hat
      refine .inr ⟨by simpa using hpresent, _, hentry, ?_, ?_, hstored, htarget⟩
      · omega
      · omega

theorem getField_eq {field width value defaultval : Nat} {isDefault : Bool}
    (hslot : .scalar field width value isDefault ∈ slots) (hfield : 2 ∣ field) :
    getField width buf (buf.length - table) field defaultval =
      if isDefault then defaultval else value % 256 ^ width := by
  unfold getField
  rcases hfinished.slot_cases hlength htable hslot hfield with
    ⟨habsent, hnone⟩ | ⟨hpresent, off, hsome, haddress, -, hstored, -⟩
  · simp only [Slot.field, Slot.absent] at hnone habsent
    simp only [hnone, habsent, if_true]
  · simp only [Slot.field, Slot.absent] at hsome haddress hpresent
    simp only [hsome, haddress, hpresent, if_false, Bool.false_eq_true]
    exact hfinished.readScalar hstored

theorem verifyField_eq {slot : Slot} (hslot : slot ∈ slots) (hfield : 2 ∣ slot.field) :
    verifyField slot.width slot.width buf (buf.length - table) slot.field = true := by
  unfold verifyField
  rcases hfinished.slot_cases hlength htable hslot hfield with
    ⟨habsent, hnone⟩ | ⟨hpresent, off, hsome, haddress, -, hstored, -⟩
  · simp [hnone]
  · simp [haddress, hfinished.verifyAlignment hstored, hfinished.verifyRange hstored]

theorem getPointer_none {field : Nat} (hslot : .offset field 0 ∈ slots) (hfield : 2 ∣ field) :
    getPointer buf (buf.length - table) field = none ∧
      verifyOffset buf (buf.length - table) field = true := by
  rcases hfinished.slot_cases hlength htable hslot hfield with
    ⟨habsent, hnone⟩ | ⟨hpresent, -⟩
  · simp only [Slot.field] at hnone
    simp [getPointer, verifyOffset, hnone]
  · cases hpresent

/-- An offset field leads to its target, if that is near enough. -/
theorem getPointer_some {field target : Nat} (hslot : .offset field target ∈ slots)
    (hfield : 2 ∣ field) (hsome : target ≠ 0) (hnear : table < target + 2 ^ 31) :
    getPointer buf (buf.length - table) field = some (buf.length - target) ∧
      verifyOffset buf (buf.length - table) field = true ∧
        verifyOffsetRequired buf (buf.length - table) field = true := by
  rcases hfinished.slot_cases hlength htable hslot hfield with
    ⟨habsent, -⟩ | ⟨-, off, hpresent, haddress, hlt, hstored, htarget⟩
  · exact absurd (of_decide_eq_true habsent) hsome
  · have hbehind := htarget field target rfl
    have hin := (hfinished.storedAt hstored.storedAt).2
    simp only [Slot.field, Slot.width, Slot.value] at hpresent haddress hstored
    have hread := hfinished.readScalar hstored
    have hscalar := hfinished.verifyScalar hstored
    rw [Nat.mod_eq_of_lt (show off - target < 256 ^ 4 by omega)] at hread
    have hsum : buf.length - off + (off - target) = buf.length - target := by omega
    have hoffset : verifyOffsetAt buf (buf.length - off) = off - target := by
      have hrange : FlatBuffers.verifyRange buf (buf.length - target) 1 = true := by
        simp only [FlatBuffers.verifyRange, Bool.and_eq_true, decide_eq_true_eq]
        omega
      have hsigned : 0 ≤ soffsetValue (off - target) := by
        rw [soffsetValue_ofNat (by omega)]
        omega
      have hnonzero : (off - target != 0) = true := bne_iff_ne.mpr (by omega)
      rw [verifyOffsetAt, if_pos hscalar, hread]
      dsimp only
      rw [hsum, hrange, hnonzero, decide_eq_true hsigned]
      rfl
    have hnonzero : off - target ≠ 0 := by omega
    refine ⟨?_, ?_, ?_⟩
    · simp only [getPointer, hpresent, haddress, hread, hsum, if_false]
    · simp [verifyOffset, haddress, hoffset, hnonzero]
    · simp [verifyOffsetRequired, haddress, hoffset, hnonzero, hpresent]

/-- The verifier enters the table. -/
theorem verifyTableStart_eq {counters : Counters} (hdepth : counters.depth < maxDepth)
    (htables : counters.numTables < maxTables) :
    verifyTableStart buf (buf.length - table) counters =
      some ⟨counters.depth + 1, counters.numTables + 1⟩ := by
  obtain ⟨vt, entries, hvtable, -⟩ := htable.exists_vtable
  have hword := hfinished.verifyScalar hvtable.word
  obtain ⟨hpos, hsize⟩ := hfinished.vtableSize_eq hvtable
  obtain ⟨hat, hfront⟩ := hfinished.storedAt hvtable.storedAt
  have hbytes : (vtableBytes entries).length = 2 * entries.length :=
    StoredAt.length_flatMap fun entry _ => leBytes_length 2 entry
  have hrange := hat.verifyRange (by omega)
  rw [hbytes] at hrange
  have hfour := Nat.dvd_trans hvtable.word.minalign hfinished.aligned
  have heven := hvtable.even
  have haligned : FlatBuffers.verifyAlignment (buf.length - vt) 2 = true :=
    beq_iff_eq.mpr (by omega)
  have hscalar : FlatBuffers.verifyScalar 2 buf (buf.length - vt) = true := by
    have hall := hat.length_le
    simp only [FlatBuffers.verifyScalar, haligned, FlatBuffers.verifyRange, Bool.true_and,
      Bool.and_eq_true, decide_eq_true_eq]
    omega
  have hdouble : FlatBuffers.verifyAlignment (2 * entries.length) 2 = true :=
    beq_iff_eq.mpr (by omega)
  have hremainder : (2 * entries.length % 2 == 0) = true := beq_iff_eq.mpr (by omega)
  simp only [verifyTableStart, verifyComplexity, hword, check, if_true,
    hfinished.vtableAddress_eq hlength hvtable, hsize, hscalar, hdouble, hremainder, hrange,
    Option.bind_eq_bind, Option.bind_some, Bool.and_true, decide_eq_true
      (show counters.depth + 1 ≤ maxDepth from hdepth), decide_eq_true
      (show counters.numTables + 1 ≤ maxTables from htables)]

end

/-! ## Vectors and the root -/

/-- The elements of a stored vector of structs verify. -/
theorem verifyVectorAt_eq {vec elemSize count : Nat} {body : Bytes}
    (hat : StoredAt b.buf vec (leBytes 4 count ++ body)) (haligned : 4 ∣ vec)
    (hminalign : 4 ∣ b.minalign) (hbody : body.length = elemSize * count)
    (hcount : count < maxBufferSize / elemSize) :
    vectorSize buf (buf.length - vec) = count ∧
      verifyVectorAt elemSize buf (buf.length - vec) = true := by
  have hstored : Stored b vec 4 count := ⟨hat.left, haligned, hminalign⟩
  have hsmall : count < 256 ^ 4 := by
    have hdiv := Nat.div_le_self maxBufferSize elemSize
    simp only [maxBufferSize] at hcount hdiv
    omega
  have hread := hfinished.readScalar hstored
  rw [Nat.mod_eq_of_lt hsmall] at hread
  obtain ⟨hall, hfront⟩ := hfinished.storedAt hat
  have hrange := hall.verifyRange (by omega)
  rw [List.length_append, leBytes_length, hbody] at hrange
  refine ⟨hread, ?_⟩
  simp [verifyVectorAt, hread, hfinished.verifyScalar hstored, hcount, hrange]

theorem getRoot_eq (hnear : buf.length < root + 2 ^ 32) :
    getRoot buf = buf.length - root := by
  have hread := hfinished.root.readScalar
  rw [Nat.sub_self] at hread
  rw [getRoot, hread, Nat.mod_eq_of_lt (by omega)]

/-- The verifier starts at the root. -/
theorem verifyOffsetAt_root (hroot : 0 < root) (hbehind : root ≤ b.size)
    (hnear : buf.length < root + 2 ^ 31) :
    minBufferSize ≤ buf.length → verifyOffsetAt buf 0 = buf.length - root := by
  intro hmin
  have hlt := hfinished.lt_length
  have hread : FlatBuffers.readScalar 4 buf 0 = buf.length - root :=
    hfinished.getRoot_eq (by omega)
  have hscalar : FlatBuffers.verifyScalar 4 buf 0 = true := by
    simp only [minBufferSize] at hmin
    simp only [FlatBuffers.verifyScalar, FlatBuffers.verifyAlignment, FlatBuffers.verifyRange,
      Bool.and_eq_true, beq_iff_eq, decide_eq_true_eq]
    exact ⟨trivial, by omega, Nat.zero_le _⟩
  have hrange : FlatBuffers.verifyRange buf (0 + (buf.length - root)) 1 = true := by
    simp only [FlatBuffers.verifyRange, Bool.and_eq_true, decide_eq_true_eq]
    omega
  have hsigned : 0 ≤ soffsetValue (buf.length - root) := by
    rw [soffsetValue_ofNat (by omega)]
    omega
  have hnonzero : (buf.length - root != 0) = true := bne_iff_ne.mpr (by omega)
  rw [verifyOffsetAt, if_pos hscalar, hread]
  dsimp only
  rw [hrange, hnonzero, decide_eq_true hsigned]
  rfl

end Finished

end Builder

end FlatBuffers
