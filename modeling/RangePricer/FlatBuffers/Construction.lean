import RangePricer.FlatBuffers.Growth

/-!
# Closing a table

A table is built from a list of `add_` calls.  The calls are followed one by one
while the table is open; `EndTable` then turns the recorded positions into a
vtable, its own or an equal earlier one.  `TableAt` says what is found at a
closed table, and stays true while the builder grows.
-/

namespace FlatBuffers

namespace Builder

variable {b c : Builder} {slot : Slot} {start lo : Nat}

/-! ## The calls of an open table -/

/-- No table is open. -/
structure Closed (b : Builder) : Prop where
  fieldLocs : b.fieldLocs = []
  maxVoffset : b.maxVoffset = 0

theorem Closed.opened (hclosed : b.Closed) : Open b b.startTable where
  start_le := le_rfl
  off := by rw [hclosed.fieldLocs]; intro loc hloc; cases hloc
  id := by rw [hclosed.fieldLocs]; intro loc hloc; cases hloc
  nodup := by rw [hclosed.fieldLocs]; exact List.nodup_nil
  maxVoffset := by rw [hclosed.maxVoffset]; decide

namespace Writes

theorem mem_fieldLocs (hwrites : Writes b c slot) {loc : FieldLoc} :
    loc ∈ c.fieldLocs ↔ loc ∈ b.fieldLocs ∨ loc = ⟨c.size, slot.field⟩ := by
  rw [hwrites.fieldLocs, List.mem_append, List.mem_singleton]

theorem opened (hwrites : Writes b c slot) (hopen : Open b start) (hfits : slot.Fits start)
    (hfresh : ∀ loc ∈ b.fieldLocs, loc.id ≠ slot.field) : Open c start where
  start_le := hopen.start_le.trans hwrites.size_lt.le
  off := by
    intro loc hloc
    have hsize := hwrites.size_lt
    have hstart := hopen.start_le
    rcases hwrites.mem_fieldLocs.mp hloc with hold | rfl
    · have hoff := hopen.off loc hold
      omega
    · exact ⟨hstart.trans_lt hsize, le_rfl⟩
  id := by
    intro loc hloc
    rw [hwrites.maxVoffset]
    rcases hwrites.mem_fieldLocs.mp hloc with hold | rfl
    · obtain ⟨heven, hlow, hhigh⟩ := hopen.id loc hold
      exact ⟨heven, hlow, hhigh.trans (le_max_left _ _)⟩
    · exact ⟨hfits.field_even, hfits.field_low, le_max_right _ _⟩
  nodup := by
    rw [hwrites.fieldLocs, List.map_append, List.nodup_append]
    refine ⟨hopen.nodup, List.pairwise_singleton _ _, fun id hold other hnew => ?_⟩
    obtain ⟨loc, hloc, rfl⟩ := List.mem_map.mp hold
    rw [List.mem_singleton.mp hnew]
    exact hfresh loc hloc
  maxVoffset := by
    obtain ⟨heven, hhigh⟩ := hopen.maxVoffset
    rw [hwrites.maxVoffset]
    refine ⟨?_, max_le hhigh hfits.field_high⟩
    rcases le_total b.maxVoffset slot.field with hle | hle
    · rw [max_eq_right hle]
      exact hfits.field_even
    · rw [max_eq_left hle]
      exact heven

theorem wellFormed (hwrites : Writes b c slot) (hwf : b.WellFormed lo) : c.WellFormed lo where
  minalign := hwrites.minalign
  minalign_le := hwrites.minalign_le hwf.minalign_le
  vtables := by
    intro vt hvt
    rw [hwrites.vtables] at hvt
    obtain ⟨hlow, hle, heven⟩ := hwf.vtables vt hvt
    exact ⟨hlow, hle.trans hwrites.size_lt.le, heven⟩

/-- The call itself is on record. -/
theorem added (hwrites : Writes b c slot) (hpresent : slot.absent = false)
    (hfits : slot.Fits start) (hstart : start ≤ b.size) : Added c slot := by
  rw [Added, if_neg (by rw [hpresent]; decide)]
  refine ⟨c.size, hwrites.mem_fieldLocs.mpr (.inr rfl), hwrites.stored, ?_⟩
  intro field target htarget
  exact ((hfits.target field target htarget).trans hstart).trans_lt hwrites.size_lt

/-- A call for another field leaves the record of a call alone. -/
theorem keeps {other : Slot} (hwrites : Writes b c slot) (hadded : Added b other)
    (hother : other.field ≠ slot.field) : Added c other := by
  unfold Added at hadded ⊢
  split at hadded
  · next habsent =>
      rw [if_pos habsent]
      intro loc hloc
      rcases hwrites.mem_fieldLocs.mp hloc with hold | rfl
      · exact hadded loc hold
      · exact hother.symm
  · next hpresent =>
      rw [if_neg hpresent]
      obtain ⟨off, hloc, hstored, htarget⟩ := hadded
      exact ⟨off, hwrites.mem_fieldLocs.mpr (.inl hloc), hwrites.grows.stored hstored, htarget⟩

end Writes

/-- What a list of calls for distinct fields leaves behind. -/
structure Filled (b c : Builder) (start lo : Nat) (slots : List Slot) : Prop where
  grows : Grows b c
  vtables : c.vtables = b.vtables
  opened : Open c start
  wellFormed : c.WellFormed lo
  size_le : c.size ≤ b.size + 16 * slots.length
  added : ∀ slot ∈ slots, Added c slot
  keeps : ∀ other, Added b other → other.field ∉ slots.map (·.field) → Added c other

theorem Filled.added_cons {slot : Slot} {rest : List Slot} (hfilled : Filled b c start lo rest)
    (hadded : Added b slot) (hnew : slot.field ∉ rest.map (·.field)) :
    ∀ other ∈ slot :: rest, Added c other := by
  intro other hother
  rcases List.mem_cons.mp hother with rfl | hother
  · exact hfilled.keeps other hadded hnew
  · exact hfilled.added other hother

theorem foldl_addSlot (slots : List Slot) (hopen : Open b start) (hwf : b.WellFormed lo)
    (hfits : ∀ slot ∈ slots, slot.Fits start) (hnodup : (slots.map (·.field)).Nodup)
    (hfresh : ∀ slot ∈ slots, ∀ loc ∈ b.fieldLocs, loc.id ≠ slot.field) :
    Filled b (slots.foldl addSlot b) start lo slots := by
  induction slots generalizing b with
  | nil =>
      refine ⟨.refl b, rfl, hopen, hwf, le_rfl, ?_, fun other hadded _ => hadded⟩
      intro slot hslot
      cases hslot
  | cons slot rest ih =>
      rw [List.map_cons, List.nodup_cons] at hnodup
      obtain ⟨hnew, hnodup⟩ := hnodup
      have hfitsSlot := hfits slot List.mem_cons_self
      have hfreshSlot := hfresh slot List.mem_cons_self
      have hfitsRest := fun other hother => hfits other (List.mem_cons_of_mem slot hother)
      have hfreshRest := fun other hother => hfresh other (List.mem_cons_of_mem slot hother)
      rw [List.foldl_cons]
      by_cases habsent : slot.absent = true
      · rw [addSlot_absent habsent]
        have hfilled := ih hopen hwf hfitsRest hnodup hfreshRest
        have hadded : Added b slot := by
          rw [Added, if_pos habsent]
          exact hfreshSlot
        refine ⟨hfilled.grows, hfilled.vtables, hfilled.opened, hfilled.wellFormed, ?_,
          hfilled.added_cons hadded hnew, ?_⟩
        · exact hfilled.size_le.trans (by rw [List.length_cons]; omega)
        · intro other hother hfield
          exact hfilled.keeps other hother fun hmem => hfield (List.mem_cons_of_mem _ hmem)
      · have hpresent : slot.absent = false := by simpa using habsent
        have hwrites := addSlot_writes hwf.minalign hfitsSlot hopen.start_le hpresent
        have hfilled := ih (hwrites.opened hopen hfitsSlot hfreshSlot) (hwrites.wellFormed hwf)
          hfitsRest hnodup (by
            intro other hother loc hloc
            rcases hwrites.mem_fieldLocs.mp hloc with hold | rfl
            · exact hfreshRest other hother loc hold
            · exact fun hsame => hnew (List.mem_map.mpr ⟨other, hother, hsame.symm⟩))
        have hadded := hwrites.added hpresent hfitsSlot hopen.start_le
        refine ⟨hwrites.grows.trans hfilled.grows, hfilled.vtables.trans hwrites.vtables,
          hfilled.opened, hfilled.wellFormed, ?_, hfilled.added_cons hadded hnew, ?_⟩
        · have hsize := hfilled.size_le
          have hstep := hwrites.size_le
          rw [List.length_cons]
          omega
        · intro other hother hfield
          rw [List.map_cons, List.mem_cons, not_or] at hfield
          exact hfilled.keeps other (hwrites.keeps hother hfield.1) hfield.2

/-! ## The vtable -/

/-- Setting the entries of `locs` changes no other entry. -/
theorem getElem?_foldl_set_ne (locs : List FieldLoc) (value : FieldLoc → Nat)
    (entries : List Nat) {i : Nat} (hother : ∀ loc ∈ locs, loc.id / 2 ≠ i) :
    (locs.foldl (fun entries loc => entries.set (loc.id / 2) (value loc)) entries)[i]? =
      entries[i]? := by
  induction locs generalizing entries with
  | nil => rfl
  | cons loc rest ih =>
      rw [List.foldl_cons, ih _ fun other hmem => hother other (List.mem_cons_of_mem _ hmem),
        List.getElem?_set_ne (hother loc List.mem_cons_self)]

theorem length_foldl_set (locs : List FieldLoc) (value : FieldLoc → Nat) (entries : List Nat) :
    (locs.foldl (fun entries loc => entries.set (loc.id / 2) (value loc)) entries).length =
      entries.length := by
  induction locs generalizing entries with
  | nil => rfl
  | cons loc rest ih => rw [List.foldl_cons, ih, List.length_set]

/-- The entry of a recorded field. -/
theorem getElem?_foldl_set (locs : List FieldLoc) (value : FieldLoc → Nat) (entries : List Nat)
    (heven : ∀ loc ∈ locs, 2 ∣ loc.id) (hnodup : (locs.map (·.id)).Nodup) {loc : FieldLoc}
    (hloc : loc ∈ locs) (hlength : loc.id / 2 < entries.length) :
    (locs.foldl (fun entries loc => entries.set (loc.id / 2) (value loc)) entries)[loc.id / 2]? =
      some (value loc) := by
  induction locs generalizing entries with
  | nil => cases hloc
  | cons first rest ih =>
      rw [List.map_cons, List.nodup_cons] at hnodup
      rw [List.foldl_cons]
      rcases List.mem_cons.mp hloc with rfl | hrest
      · rw [getElem?_foldl_set_ne, List.getElem?_set_self hlength]
        intro other hother hsame
        have hfirst := heven loc List.mem_cons_self
        have hsecond := heven other (List.mem_cons_of_mem _ hother)
        have hid : other.id = loc.id := by omega
        exact hnodup.1 (List.mem_map.mpr ⟨other, hother, hid⟩)
      · exact ih _ (fun other hother => heven other (List.mem_cons_of_mem _ hother)) hnodup.2
          hrest (by rwa [List.length_set])

section

variable {size objectSize table : Nat} {locs : List FieldLoc}

theorem vtableEntries_length (hsize : 4 ≤ size) :
    (vtableEntries size objectSize table locs).length = size / 2 := by
  rw [vtableEntries, length_foldl_set]
  simp only [List.length_cons, List.length_replicate]
  omega

theorem vtableEntries_head (hlow : ∀ loc ∈ locs, 4 ≤ loc.id) :
    (vtableEntries size objectSize table locs)[0]? = some size := by
  rw [vtableEntries, getElem?_foldl_set_ne]
  · rfl
  · intro loc hloc
    have hid := hlow loc hloc
    omega

theorem vtableEntries_present (hsize : 4 ≤ size) (heven : ∀ loc ∈ locs, 2 ∣ loc.id)
    (hnodup : (locs.map (·.id)).Nodup) {loc : FieldLoc} (hloc : loc ∈ locs)
    (hhigh : loc.id + 2 ≤ size) :
    (vtableEntries size objectSize table locs)[loc.id / 2]? = some (table - loc.off) := by
  refine getElem?_foldl_set locs (fun loc => table - loc.off) _ heven hnodup hloc ?_
  simp only [List.length_cons, List.length_replicate]
  omega

theorem vtableEntries_absent (heven : ∀ loc ∈ locs, 2 ∣ loc.id) {field : Nat}
    (hfield : 2 ∣ field) (hlow : 4 ≤ field) (hnone : ∀ loc ∈ locs, loc.id ≠ field) :
    (vtableEntries size objectSize table locs).getD (field / 2) 0 = 0 := by
  rw [List.getD_eq_getElem?_getD, vtableEntries, getElem?_foldl_set_ne]
  · obtain ⟨i, hi⟩ : ∃ i, field / 2 = i + 2 := ⟨field / 2 - 2, by omega⟩
    rw [hi]
    simp only [List.getElem?_cons_succ, List.getElem?_replicate]
    split <;> rfl
  · intro loc hloc hsame
    have hid := heven loc hloc
    exact hnone loc hloc (by omega)

/-- Every entry is the size, the object size or a distance within the object. -/
theorem vtableEntries_lt {bound : Nat} (hsize : size < bound) (hobject : objectSize < bound)
    (hlocs : ∀ loc ∈ locs, table - loc.off < bound) :
    ∀ entry ∈ vtableEntries size objectSize table locs, entry < bound := by
  have hset (locs : List FieldLoc) (entries : List Nat) (hentries : ∀ e ∈ entries, e < bound)
      (hlocs : ∀ loc ∈ locs, table - loc.off < bound) :
      ∀ e ∈ locs.foldl (fun entries loc => entries.set (loc.id / 2) (table - loc.off)) entries,
        e < bound := by
    induction locs generalizing entries with
    | nil => exact hentries
    | cons loc rest ih =>
        refine ih _ (fun e he => ?_) fun other hother => hlocs other (List.mem_cons_of_mem _ hother)
        rcases List.mem_or_eq_of_mem_set he with hold | rfl
        · exact hentries e hold
        · exact hlocs loc List.mem_cons_self
  refine hset locs _ (fun e he => ?_) hlocs
  simp only [List.mem_cons, List.mem_replicate] at he
  omega

end

/-! ## What is found at a closed table -/

/-- The vtable of the table, reached through the table's word. -/
structure VtableAt (b : Builder) (table vt : Nat) (entries : List Nat) : Prop where
  storedAt : StoredAt b.buf vt (vtableBytes entries)
  even : 2 ∣ vt
  word : Stored b table 4 (soffsetWord vt table)
  near : vt < table + 2 ^ 31 ∧ table < vt + 2 ^ 31
  size : entries[0]? = some (2 * entries.length)
  entry_lt : ∀ entry ∈ entries, entry < 2 ^ 16

/-- What a call wrote, reached through its vtable entry. -/
def SlotAt (b : Builder) (table : Nat) (entries : List Nat) (slot : Slot) : Prop :=
  let entry := entries.getD (slot.field / 2) 0
  if slot.absent then entry = 0
  else entry ≠ 0 ∧ entry < table ∧
    Stored b (table - entry) slot.width (slot.value (table - entry)) ∧
      ∀ field target, slot = .offset field target → target < table - entry

/-- A closed table and its fields. -/
structure TableAt (b : Builder) (table : Nat) (slots : List Slot) : Prop where
  intro ::
  exists_vtable : ∃ vt entries, VtableAt b table vt entries ∧
    ∀ slot ∈ slots, SlotAt b table entries slot

theorem Grows.tableAt {table : Nat} {slots : List Slot} (hgrows : Grows b c)
    (htable : TableAt b table slots) : TableAt c table slots := by
  obtain ⟨vt, entries, hvtable, hslots⟩ := htable
  refine ⟨vt, entries, ⟨hvtable.storedAt.of_suffix hgrows.buf, hvtable.even,
    hgrows.stored hvtable.word, hvtable.near, hvtable.size, hvtable.entry_lt⟩, ?_⟩
  intro slot hslot
  have hat := hslots slot hslot
  unfold SlotAt at hat ⊢
  dsimp only at hat ⊢
  split at hat
  · next habsent => rwa [if_pos habsent]
  · next hpresent =>
      rw [if_neg hpresent]
      obtain ⟨hentry, hlt, hstored, htarget⟩ := hat
      exact ⟨hentry, hlt, hgrows.stored hstored, htarget⟩

/-! ## `EndTable` -/

theorem writeScalar_append (width value : Nat) (front old rest : Bytes)
    (hold : old.length = width) :
    writeScalar width value (front ++ (old ++ rest)) front.length =
      front ++ (leBytes width value ++ rest) := by
  rw [writeScalar, List.take_left' rfl, ← List.drop_drop, List.drop_left' rfl,
    List.drop_left' hold, List.append_assoc]

/-- The builder with the table's word pushed. -/
def opened (b : Builder) : Builder := b.pushElement 4 0

/-- The size of the vtable that `EndTable` compares and writes. -/
def vtableSize (b : Builder) : Nat := max (b.maxVoffset + 2) 4

/-- Its entries. -/
def newEntries (b : Builder) (start : Nat) : List Nat :=
  vtableEntries b.vtableSize (b.opened.size - start) b.opened.size b.fieldLocs

def newVtable (b : Builder) (start : Nat) : Bytes := vtableBytes (b.newEntries start)

/-- The closed table with `front`, a vtable or nothing, before its word. -/
def withWord (b : Builder) (front : Bytes) (vtUse : Nat) (vtables : List Nat) : Builder where
  buf := front ++ (leBytes 4 (soffsetWord vtUse b.opened.size) ++ (b.align 4).buf)
  minalign := b.opened.minalign
  vtables := vtables

theorem endTable_eq (b : Builder) (start : Nat) :
    b.endTable start =
      match b.vtables.find?
        (sameVtable (b.newVtable start ++ b.opened.buf) (b.newVtable start)) with
      | some vtUse =>
          (⟨writeScalar 4 (soffsetWord vtUse b.opened.size) b.opened.buf 0, b.opened.minalign,
            [], 0, b.vtables⟩, b.opened.size)
      | none =>
          let buf := b.newVtable start ++ b.opened.buf
          (⟨writeScalar 4 (soffsetWord buf.length b.opened.size) buf (buf.length - b.opened.size),
            b.opened.minalign, [], 0, b.vtables ++ [buf.length]⟩, b.opened.size) :=
  rfl

theorem endTable_some {vtUse : Nat}
    (hfind : b.vtables.find? (sameVtable (b.newVtable start ++ b.opened.buf)
      (b.newVtable start)) = some vtUse) :
    b.endTable start = (b.withWord [] vtUse b.vtables, b.opened.size) := by
  have hword : writeScalar 4 (soffsetWord vtUse b.opened.size) b.opened.buf 0 =
      leBytes 4 (soffsetWord vtUse b.opened.size) ++ (b.align 4).buf :=
    writeScalar_append 4 _ [] (leBytes 4 0) (b.align 4).buf (leBytes_length _ _)
  rw [endTable_eq, hfind]
  dsimp only
  rw [hword]
  rfl

theorem endTable_none
    (hfind : b.vtables.find? (sameVtable (b.newVtable start ++ b.opened.buf)
      (b.newVtable start)) = none) :
    b.endTable start = (b.withWord (b.newVtable start) (b.newVtable start ++ b.opened.buf).length
      (b.vtables ++ [(b.newVtable start ++ b.opened.buf).length]), b.opened.size) := by
  have hword (value : Nat) : writeScalar 4 value (b.newVtable start ++ b.opened.buf)
      ((b.newVtable start ++ b.opened.buf).length - b.opened.size) =
      b.newVtable start ++ (leBytes 4 value ++ (b.align 4).buf) := by
    have haddress : (b.newVtable start ++ b.opened.buf).length - b.opened.size =
        (b.newVtable start).length := by
      rw [List.length_append]
      exact Nat.add_sub_cancel _ _
    rw [haddress]
    exact writeScalar_append 4 value _ (leBytes 4 0) (b.align 4).buf (leBytes_length _ _)
  rw [endTable_eq, hfind]
  dsimp only
  rw [hword]
  rfl

section

variable {front : Bytes} {vtUse : Nat} {vtables : List Nat}

theorem opened_buf (b : Builder) : b.opened.buf = leBytes 4 0 ++ (b.align 4).buf := rfl

theorem opened_size (b : Builder) : b.opened.size = (b.align 4).size + 4 := by
  rw [size, opened_buf, List.length_append, leBytes_length, Nat.add_comm]
  rfl

theorem opened_size_bounds (b : Builder) : b.size < b.opened.size ∧ b.opened.size < b.size + 8 := by
  have hpad := paddingBytes_lt b.size (show 0 < 4 by decide)
  rw [opened_size, align_size]
  omega

theorem withWord_size (b : Builder) (front : Bytes) (vtUse : Nat) (vtables : List Nat) :
    (b.withWord front vtUse vtables).size = front.length + b.opened.size := by
  rw [opened_size, size, withWord, List.length_append, List.length_append, leBytes_length,
    Nat.add_comm 4]
  rfl

theorem withWord_grows (hb : b.minalign.isPowerOfTwo) :
    Grows b (b.withWord front vtUse vtables) := by
  refine ⟨(align_grows hb isPowerOfTwo_four).buf.trans ?_,
    (pushElement_grows hb isPowerOfTwo_four 0).minalign⟩
  rw [withWord, ← List.append_assoc]
  exact List.suffix_append _ _

theorem withWord_stored (hb : b.minalign.isPowerOfTwo) :
    Stored (b.withWord front vtUse vtables) b.opened.size 4 (soffsetWord vtUse b.opened.size) := by
  have hpushed := pushElement_stored hb isPowerOfTwo_four 0
  refine ⟨?_, hpushed.aligned, hpushed.minalign⟩
  have hword := StoredAt.of_append (leBytes 4 (soffsetWord vtUse b.opened.size)) (b.align 4).buf
  have hlength : (leBytes 4 (soffsetWord vtUse b.opened.size) ++ (b.align 4).buf).length =
      b.opened.size := by
    rw [opened_size, List.length_append, leBytes_length, Nat.add_comm]
    rfl
  rw [hlength] at hword
  exact hword.push front

end

namespace Open

variable (hopen : Open b start)

include hopen

theorem vtableSize_bounds : 4 ≤ b.vtableSize ∧ b.vtableSize ≤ 66 ∧ 2 ∣ b.vtableSize := by
  obtain ⟨heven, hhigh⟩ := hopen.maxVoffset
  unfold vtableSize
  omega

theorem newEntries_length : 2 * (b.newEntries start).length = b.vtableSize := by
  obtain ⟨hlow, -, heven⟩ := hopen.vtableSize_bounds
  rw [newEntries, vtableEntries_length hlow]
  omega

theorem newEntries_head : (b.newEntries start)[0]? = some b.vtableSize :=
  vtableEntries_head fun loc hloc => (hopen.id loc hloc).2.1

theorem newVtable_length : (b.newVtable start).length = b.vtableSize := by
  rw [newVtable, vtableBytes, StoredAt.length_flatMap fun entry _ => leBytes_length 2 entry,
    hopen.newEntries_length]

/-- The vtable starts with its own length. -/
theorem newVtable_take : leValue ((b.newVtable start).take 2) = (b.newVtable start).length := by
  have hhead := hopen.newEntries_head
  have hbound := hopen.vtableSize_bounds
  rw [hopen.newVtable_length, newVtable]
  cases hentries : b.newEntries start with
  | nil =>
      rw [hentries] at hhead
      cases hhead
  | cons first rest =>
      rw [hentries] at hhead
      obtain rfl := Option.some.inj hhead
      rw [vtableBytes, List.flatMap_cons, List.take_left' (leBytes_length _ _)]
      exact leValue_leBytes_of_lt (by omega)

theorem newEntries_lt (hspan : b.size + 8 ≤ start + 2 ^ 16) :
    ∀ entry ∈ b.newEntries start, entry < 2 ^ 16 := by
  have hstart := hopen.start_le
  have hsize := b.opened_size_bounds
  apply vtableEntries_lt (hopen.vtableSize_bounds.2.1.trans_lt (by decide)) (by omega)
  intro loc hloc
  have hoff := hopen.off loc hloc
  omega

/-- A call on record is found through the new entries. -/
theorem slotAt (hgrows : Grows b c) (hfield : 2 ∣ slot.field ∧ 4 ≤ slot.field)
    (hadded : Added b slot) : SlotAt c b.opened.size (b.newEntries start) slot := by
  obtain ⟨heven, hlow⟩ := hfield
  have hids : ∀ loc ∈ b.fieldLocs, 2 ∣ loc.id := fun loc hloc => (hopen.id loc hloc).1
  have hsize := b.opened_size_bounds
  unfold SlotAt Added at *
  dsimp only
  split at hadded
  · next habsent =>
      rw [if_pos habsent]
      exact vtableEntries_absent hids heven hlow hadded
  · next hpresent =>
      rw [if_neg hpresent]
      obtain ⟨off, hloc, hstored, htarget⟩ := hadded
      have hoff : start < off ∧ off ≤ b.size := hopen.off _ hloc
      have hid : _ ∧ _ ∧ slot.field ≤ b.maxVoffset := hopen.id _ hloc
      have hhigh : slot.field + 2 ≤ b.vtableSize := by
        unfold vtableSize
        omega
      have hset : (b.newEntries start)[slot.field / 2]? = some (b.opened.size - off) :=
        vtableEntries_present hopen.vtableSize_bounds.1 hids hopen.nodup hloc hhigh
      have hentry : (b.newEntries start).getD (slot.field / 2) 0 = b.opened.size - off := by
        rw [List.getD_eq_getElem?_getD, hset]
        rfl
      have hback : b.opened.size - (b.opened.size - off) = off := by omega
      rw [hentry, hback]
      exact ⟨by omega, by omega, hgrows.stored hstored, htarget⟩

end Open

/-- A new vtable lies right in front of its table. -/
theorem Open.newVtable_stored (hopen : Open b start) (vtables : List Nat) :
    (b.newVtable start ++ b.opened.buf).length = b.vtableSize + b.opened.size ∧
      2 ∣ (b.newVtable start ++ b.opened.buf).length ∧
        StoredAt (b.withWord (b.newVtable start) (b.newVtable start ++ b.opened.buf).length
            vtables).buf (b.newVtable start ++ b.opened.buf).length (b.newVtable start) := by
  have hnew : (b.newVtable start ++ b.opened.buf).length = b.vtableSize + b.opened.size := by
    rw [List.length_append, hopen.newVtable_length]
    rfl
  refine ⟨hnew, ?_, ?_⟩
  · have hdvd := dvd_pushElement_size b (show 0 < 4 by decide) 0
    change 4 ∣ b.opened.size at hdvd
    rw [hnew]
    exact Nat.dvd_add hopen.vtableSize_bounds.2.2 (Nat.dvd_trans (by decide) hdvd)
  · generalize (b.newVtable start ++ b.opened.buf).length = vtUse at hnew ⊢
    have htotal : (b.withWord (b.newVtable start) vtUse vtables).size = vtUse := by
      rw [withWord_size, hopen.newVtable_length, hnew]
    have hat : StoredAt (b.withWord (b.newVtable start) vtUse vtables).buf
        (b.withWord (b.newVtable start) vtUse vtables).size (b.newVtable start) :=
      StoredAt.of_append _ _
    rwa [htotal] at hat

/-- What `EndTable` makes of an open table. -/
structure Closes (b c : Builder) (table lo : Nat) : Prop where
  grows : Grows b c
  closed : c.Closed
  wellFormed : c.WellFormed lo
  lt_table : b.size < table
  table_le : table ≤ c.size
  size_le : c.size ≤ b.size + 80
  tableAt : c.size < lo + 2 ^ 31 → ∀ slots : List Slot,
    (∀ slot ∈ slots, (2 ∣ slot.field ∧ 4 ≤ slot.field) ∧ Added b slot) → TableAt c table slots

/-- The closed table, once its vtable is stored near it. -/
theorem withWord_tableAt {front : Bytes} {vtUse : Nat} {vtables : List Nat}
    (hopen : Open b start) (hb : b.minalign.isPowerOfTwo) (hspan : b.size + 8 ≤ start + 2 ^ 16)
    (heven : 2 ∣ vtUse) (hnear : vtUse < b.opened.size + 2 ^ 31 ∧ b.opened.size < vtUse + 2 ^ 31)
    (hstored : StoredAt (b.withWord front vtUse vtables).buf vtUse (b.newVtable start))
    {slots : List Slot}
    (hslots : ∀ slot ∈ slots, (2 ∣ slot.field ∧ 4 ≤ slot.field) ∧ Added b slot) :
    TableAt (b.withWord front vtUse vtables) b.opened.size slots := by
  refine ⟨vtUse, b.newEntries start, ⟨hstored, heven, withWord_stored hb, hnear, ?_,
    hopen.newEntries_lt hspan⟩, fun slot hslot => ?_⟩
  · rw [hopen.newEntries_length]
    exact hopen.newEntries_head
  · obtain ⟨hfield, hadded⟩ := hslots slot hslot
    exact hopen.slotAt (withWord_grows hb) hfield hadded

/-- Both outcomes of the search for an equal vtable. -/
theorem withWord_closes {front : Bytes} {vtUse : Nat} {vtables : List Nat}
    (hopen : Open b start) (hwf : b.WellFormed lo) (hlo : lo ≤ b.size)
    (hspan : b.size + 8 ≤ start + 2 ^ 16) (hfront : front.length ≤ 66)
    (hvtables : ∀ vt ∈ vtables, lo ≤ vt ∧ vt ≤ (b.withWord front vtUse vtables).size ∧ 2 ∣ vt)
    (hvtUse : vtUse ∈ vtables)
    (hstored : StoredAt (b.withWord front vtUse vtables).buf vtUse (b.newVtable start)) :
    Closes b (b.withWord front vtUse vtables) b.opened.size lo := by
  have hsize := b.opened_size_bounds
  have htotal := b.withWord_size front vtUse vtables
  have hbehind := hlo.trans hsize.1.le
  have hwellFormed : (b.withWord front vtUse vtables).WellFormed lo :=
    ⟨isPowerOfTwo_max hwf.minalign ⟨2, rfl⟩, max_le hwf.minalign_le (by decide), hvtables⟩
  refine ⟨withWord_grows hwf.minalign, ⟨rfl, rfl⟩, hwellFormed, hsize.1, by omega, by omega,
    fun hnear slots hslots => ?_⟩
  obtain ⟨hlow, hle, heven⟩ := hvtables vtUse hvtUse
  exact withWord_tableAt hopen hwf.minalign hspan heven ⟨by omega, by omega⟩ hstored hslots

/-- An earlier vtable that compares equal is the new one. -/
theorem storedAt_of_sameVtable {buf vt1 : Bytes} {vtOffset : Nat}
    (hsame : sameVtable buf vt1 vtOffset = true) (hoffset : vtOffset ≤ buf.length)
    (hlength : leValue (vt1.take 2) = vt1.length) : StoredAt buf vtOffset vt1 := by
  simp only [sameVtable, hlength, Bool.and_eq_true, beq_iff_eq, List.take_length] at hsame
  refine ⟨hoffset, ?_⟩
  rw [← hsame.2]
  exact List.take_prefix _ _

theorem endTable_closes (hopen : Open b start) (hwf : b.WellFormed lo) (hlo : lo ≤ b.size)
    (hspan : b.size + 8 ≤ start + 2 ^ 16) :
    Closes b (b.endTable start).1 (b.endTable start).2 lo := by
  have hbounds := hopen.vtableSize_bounds
  have hlength := hopen.newVtable_length
  have hbehind : b.size ≤ (b.align 4).buf.length :=
    (align_grows hwf.minalign isPowerOfTwo_four).size_le
  cases hfind : b.vtables.find? (sameVtable (b.newVtable start ++ b.opened.buf)
      (b.newVtable start)) with
  | some vtUse =>
      rw [endTable_some hfind]
      have hmem := List.mem_of_find?_eq_some hfind
      obtain ⟨hlow, hle, heven⟩ := hwf.vtables vtUse hmem
      refine withWord_closes hopen hwf hlo hspan (Nat.zero_le _) ?_ hmem ?_
      · intro vt hvt
        obtain ⟨hlow, hle, heven⟩ := hwf.vtables vt hvt
        exact ⟨hlow, hle.trans (withWord_grows hwf.minalign).size_le, heven⟩
      · -- The comparison looked behind the table's word, which is not changed.
        have hin : vtUse ≤ (b.newVtable start ++ b.opened.buf).length := by
          rw [opened_buf, List.length_append, List.length_append]
          omega
        obtain ⟨-, hprefix⟩ := storedAt_of_sameVtable (List.find?_some hfind) hin
          hopen.newVtable_take
        rw [opened_buf, ← List.append_assoc, tail_append (hle.trans hbehind)] at hprefix
        exact StoredAt.push ⟨hle.trans hbehind, hprefix⟩ _
  | none =>
      rw [endTable_none hfind]
      have hsize := b.opened_size_bounds
      obtain ⟨hnew, heven, hat⟩ := hopen.newVtable_stored
        (b.vtables ++ [(b.newVtable start ++ b.opened.buf).length])
      generalize (b.newVtable start ++ b.opened.buf).length = vtUse at hnew heven hat ⊢
      have htotal : (b.withWord (b.newVtable start) vtUse (b.vtables ++ [vtUse])).size = vtUse := by
        rw [withWord_size, hlength, hnew]
      refine withWord_closes hopen hwf hlo hspan (by omega) ?_
        (List.mem_append_right _ (List.mem_singleton_self _)) hat
      intro vt hvt
      rw [htotal]
      rcases List.mem_append.mp hvt with hold | hlast
      · obtain ⟨hlow, hle, heven⟩ := hwf.vtables vt hold
        exact ⟨hlow, by omega, heven⟩
      · rw [List.mem_singleton.mp hlast]
        exact ⟨by omega, le_rfl, heven⟩

/-- A vtable of another size is never taken for the new one. -/
theorem find?_sameVtable_eq_none (hopen : Open b start) (hb : b.minalign.isPowerOfTwo)
    (hother : ∀ vt ∈ b.vtables, ∃ vtsize, StoredAt b.buf vt (leBytes 2 vtsize) ∧
      vtsize % 256 ^ 2 ≠ b.vtableSize) :
    b.vtables.find? (sameVtable (b.newVtable start ++ b.opened.buf) (b.newVtable start)) =
      none := by
  have hsuffix : b.buf <:+ b.newVtable start ++ b.opened.buf :=
    (pushElement_grows hb ⟨2, rfl⟩ 0).buf.trans (List.suffix_append _ _)
  rw [List.find?_eq_none]
  intro vt hvt hsame
  obtain ⟨vtsize, hstored, hne⟩ := hother vt hvt
  simp only [sameVtable, hopen.newVtable_take, hopen.newVtable_length, Bool.and_eq_true,
    beq_iff_eq] at hsame
  exact hne ((hstored.of_suffix hsuffix).readScalar.symm.trans hsame.1.symm)

/-- A table with a vtable of its own is found however large the builder is. -/
theorem endTable_tableAt (hopen : Open b start) (hb : b.minalign.isPowerOfTwo)
    (hspan : b.size + 8 ≤ start + 2 ^ 16)
    (hother : ∀ vt ∈ b.vtables, ∃ vtsize, StoredAt b.buf vt (leBytes 2 vtsize) ∧
      vtsize % 256 ^ 2 ≠ b.vtableSize) {slots : List Slot}
    (hslots : ∀ slot ∈ slots, (2 ∣ slot.field ∧ 4 ≤ slot.field) ∧ Added b slot) :
    TableAt (b.endTable start).1 (b.endTable start).2 slots := by
  have hbounds := hopen.vtableSize_bounds
  have hfind := find?_sameVtable_eq_none hopen hb hother
  obtain ⟨hnew, heven, hat⟩ := hopen.newVtable_stored
    (b.vtables ++ [(b.newVtable start ++ b.opened.buf).length])
  rw [endTable_none hfind]
  exact withWord_tableAt hopen hb hspan heven ⟨by omega, by omega⟩ hat hslots

end Builder

end FlatBuffers
