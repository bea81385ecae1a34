import RangePricer.Codec.Responses

/-!
# Responses that are too long

Tables of one layout share a vtable, and the word at a table is the signed
32-bit distance to it.  A table more than `2 ^ 31` bytes in front of its vtable
gets a word that leads out of the buffer, and reads as if it had no fields.
-/

namespace FlatBuffers

/-! ## Words that wrap -/

theorem soffsetValue_soffsetWord_far {vt table : Nat} (hfar : vt + 2 ^ 31 < table)
    (hsmall : table < 2 ^ 32 + vt) :
    soffsetWord vt table < 2 ^ 32 ∧
      soffsetValue (soffsetWord vt table) = (vt : Int) - table + 2 ^ 32 := by
  have hword : soffsetWord vt table = 2 ^ 32 + vt - table := by
    unfold soffsetWord
    omega
  rw [hword, soffsetValue_ofNat (by omega)]
  omega

theorem readScalar_of_length_le {width address : Nat} {buf : Bytes}
    (houtside : buf.length ≤ address) : readScalar width buf address = 0 := by
  rw [readScalar, List.drop_eq_nil_of_le houtside, List.take_nil]
  rfl

/-- A table too far in front of its vtable has no fields. -/
theorem getOptionalFieldOffset_far {buf : Bytes} {vt table field : Nat}
    (hword : StoredAt buf table (leBytes 4 (soffsetWord vt table))) (hfar : vt + 2 ^ 31 < table)
    (hlength : buf.length < 2 ^ 32) :
    getOptionalFieldOffset buf (buf.length - table) field = 0 := by
  have hin := hword.1
  obtain ⟨hlt, hvalue⟩ := soffsetValue_soffsetWord_far hfar (by omega)
  have hread := hword.readScalar
  rw [Nat.mod_eq_of_lt (show soffsetWord vt table < 256 ^ 4 from hlt)] at hread
  have houtside : buf.length ≤ vtableAddress buf (buf.length - table) := by
    rw [vtableAddress, hread, hvalue]
    omega
  rw [getOptionalFieldOffset]
  simp only [readScalar_of_length_le houtside, Nat.not_lt_zero, if_false]

namespace Builder

variable {b : Builder}

/-- A vtable that is stored again compares equal. -/
theorem sameVtable_of_storedAt {buf vt1 : Bytes} {vtOffset : Nat}
    (hstored : StoredAt buf vtOffset vt1) (htwo : 2 ≤ vt1.length)
    (hlength : leValue (vt1.take 2) = vt1.length) : sameVtable buf vt1 vtOffset = true := by
  obtain ⟨-, rest, hrest⟩ := hstored
  simp only [sameVtable, ← hrest, hlength, List.take_append_of_le_length htwo,
    List.take_append_length, List.take_length, beq_self_eq_true, Bool.and_self]

/-- A field of four bytes, written without padding. -/
def withField (b : Builder) (field value : Nat) : Builder where
  buf := leBytes 4 value ++ b.buf
  minalign := max b.minalign 4
  fieldLocs := b.fieldLocs ++ [⟨4 + b.size, field⟩]
  maxVoffset := max b.maxVoffset field
  vtables := b.vtables

theorem addElement_aligned (haligned : 4 ∣ b.size) (field value : Nat) :
    b.addElement field 4 value false = b.withField field value := by
  have hnone := paddingBytes_of_dvd haligned
  rw [size] at hnone
  simp [addElement, pushElement, align, fill, trackMinAlign, pushBytes, trackField, size, hnone,
    withField]

theorem dvd_withField_size (haligned : 4 ∣ b.size) (field value : Nat) :
    4 ∣ (b.withField field value).size := by
  rw [size, withField, List.length_append, leBytes_length]
  exact Nat.dvd_add (Nat.dvd_refl 4) haligned

end Builder

end FlatBuffers

namespace RangePricer

open FlatBuffers FlatBuffers.Builder

namespace PricingResponse

variable {b c : Builder} {response : PricingResponse} {results : List PricingResponse} {vt : Nat}

/-! ## Results of one layout -/

/-- A result with every field except the hedge ratio. -/
structure Unhedged (response : PricingResponse) : Prop where
  idx : (response.idx == 0) = false
  alpha : response.alpha.isZero = false
  beta : response.beta.isZero = false
  price : response.price.isZero = false
  hedgeRatio : response.hedgeRatio.isZero = true

/-- The fields of such a result, as they lie behind the table's word. -/
def fieldBytes (response : PricingResponse) : Bytes :=
  leBytes 4 response.idx.toNat ++ (leBytes 4 response.alpha.bits.toNat ++
    (leBytes 4 response.beta.bits.toNat ++ leBytes 4 response.price.bits.toNat))

/-- Its vtable: two sizes and the positions of four fields. -/
def unhedgedVtable : Bytes := vtableBytes [12, 20, 4, 8, 12, 16]

/-- The builder with the fields of the result added. -/
def withFields (response : PricingResponse) (b : Builder) : Builder where
  buf := response.fieldBytes ++ b.buf
  minalign := max b.minalign 4
  fieldLocs := [⟨4 + b.size, 10⟩, ⟨8 + b.size, 8⟩, ⟨12 + b.size, 6⟩, ⟨16 + b.size, 4⟩]
  maxVoffset := 10
  vtables := b.vtables

theorem withFields_size (response : PricingResponse) (b : Builder) :
    (response.withFields b).size = 16 + b.size := by
  simp [size, withFields, fieldBytes]
  omega

theorem Unhedged.addSlots_eq (hunhedged : response.Unhedged) (hclosed : b.Closed)
    (haligned : 4 ∣ b.size) :
    response.slots.foldl addSlot b = response.withFields b := by
  obtain ⟨buf, minalign, fieldLocs, maxVoffset, vtables⟩ := b
  obtain ⟨rfl, rfl⟩ : fieldLocs = [] ∧ maxVoffset = 0 := ⟨hclosed.fieldLocs, hclosed.maxVoffset⟩
  simp only [slots, hunhedged.idx, hunhedged.alpha, hunhedged.beta, hunhedged.price,
    hunhedged.hedgeRatio, List.foldl_cons, List.foldl_nil, addSlot]
  have habsent : (⟨buf, minalign, [], 0, vtables⟩ : Builder).addElement 12 4
      response.hedgeRatio.bits.toNat true = ⟨buf, minalign, [], 0, vtables⟩ := rfl
  have hprice := dvd_withField_size haligned 10 response.price.bits.toNat
  have hbeta := dvd_withField_size hprice 8 response.beta.bits.toNat
  have halpha := dvd_withField_size hbeta 6 response.alpha.bits.toNat
  rw [habsent, addElement_aligned haligned, addElement_aligned hprice, addElement_aligned hbeta,
    addElement_aligned halpha]
  simp [withField, withFields, fieldBytes, size, ← Nat.add_assoc]

/-! ## One table -/

theorem withFields_opened_size (response : PricingResponse) (haligned : 4 ∣ b.size) :
    (response.withFields b).opened.size = 20 + b.size := by
  have hmultiple : 4 ∣ (response.withFields b).size := by
    rw [withFields_size]
    exact Nat.dvd_add (by decide) haligned
  rw [opened_size, align_size, paddingBytes_of_dvd hmultiple, withFields_size]
  omega

/-- Every such result gets the same vtable. -/
theorem withFields_newVtable (response : PricingResponse) (haligned : 4 ∣ b.size) :
    (response.withFields b).newVtable b.size = unhedgedVtable := by
  rw [newVtable, newEntries, withFields_opened_size response haligned]
  simp [vtableSize, vtableEntries, withFields, unhedgedVtable, Nat.add_sub_add_right]

/-- The only vtable written so far is the one of such results. -/
structure Shares (b : Builder) (vt : Nat) : Prop where
  closed : b.Closed
  aligned : 4 ∣ b.size
  minalign : b.minalign.isPowerOfTwo
  vtables : b.vtables = [vt]
  storedAt : StoredAt b.buf vt unhedgedVtable

/-- A table has been built whose word refers to the vtable. -/
structure Refers (b c : Builder) (table vt : Nat) : Prop where
  shares : Shares c vt
  suffix : b.buf <:+ c.buf
  size_eq : c.size = table
  word : StoredAt c.buf table (leBytes 4 (soffsetWord vt table))

theorem Unhedged.build_eq (hunhedged : response.Unhedged) (hclosed : b.Closed)
    (haligned : 4 ∣ b.size) :
    response.build b = (response.withFields b).endTable b.size := by
  rw [PricingResponse.build_eq, buildTable, hunhedged.addSlots_eq hclosed haligned]
  rfl

theorem minalign_withFields (response : PricingResponse) (hb : b.minalign.isPowerOfTwo) :
    (response.withFields b).minalign.isPowerOfTwo :=
  isPowerOfTwo_max hb ⟨2, rfl⟩

/-- The vtable is found again for the next result. -/
theorem Unhedged.build_refers (hunhedged : response.Unhedged) (hshares : Shares b vt) :
    (response.build b).2 = 20 + b.size ∧ Refers b (response.build b).1 (20 + b.size) vt := by
  have hopened := response.withFields_opened_size hshares.aligned
  have hvtable := response.withFields_newVtable hshares.aligned
  have hminalign := response.minalign_withFields hshares.minalign
  have hword := @withWord_stored (response.withFields b) [] vt [vt] hminalign
  have hgrows := @withWord_grows (response.withFields b) [] vt [vt] hminalign
  have hsize := (response.withFields b).withWord_size [] vt [vt]
  have hsuffix : b.buf <:+ (response.withFields b).buf := List.suffix_append _ _
  have hopenedSuffix : b.buf <:+ (response.withFields b).opened.buf :=
    hsuffix.trans (pushElement_grows hminalign ⟨2, rfl⟩ 0).buf
  have hstored := hshares.storedAt.of_suffix
    (hopenedSuffix.trans (List.suffix_append unhedgedVtable _))
  have hsame : sameVtable (unhedgedVtable ++ (response.withFields b).opened.buf)
      unhedgedVtable vt = true :=
    sameVtable_of_storedAt hstored (by decide) (by decide)
  have hfind : (response.withFields b).vtables.find? (sameVtable
      ((response.withFields b).newVtable b.size ++ (response.withFields b).opened.buf)
      ((response.withFields b).newVtable b.size)) = some vt := by
    rw [hvtable, show (response.withFields b).vtables = [vt] from hshares.vtables]
    exact List.find?_cons_of_pos hsame
  rw [hunhedged.build_eq hshares.closed hshares.aligned, endTable_some hfind]
  rw [List.length_nil, Nat.zero_add, hopened] at hsize
  rw [hopened] at hword
  rw [show (response.withFields b).vtables = [vt] from hshares.vtables]
  refine ⟨hopened, ⟨⟨rfl, rfl⟩, ?_, ?_, rfl, ?_⟩, hsuffix.trans hgrows.buf, hsize, hword.storedAt⟩
  · rw [hsize]
    exact Nat.dvd_add (by decide) hshares.aligned
  · exact isPowerOfTwo_max hminalign ⟨2, rfl⟩
  · exact hshares.storedAt.of_suffix (hsuffix.trans hgrows.buf)

/-- The first result brings the vtable along. -/
theorem Unhedged.build_first (hunhedged : response.Unhedged) :
    (response.build {}).1.size = 32 ∧ Shares (response.build {}).1 32 := by
  have haligned : 4 ∣ ({} : Builder).size := Nat.dvd_zero 4
  have hopened := response.withFields_opened_size haligned
  have hvtable := response.withFields_newVtable haligned
  have hminalign := response.minalign_withFields (WellFormed.empty 0).minalign
  have hlength : (unhedgedVtable ++ (response.withFields {}).opened.buf).length = 32 := by
    rw [List.length_append, ← Builder.size, hopened]
    rfl
  rw [hunhedged.build_eq ⟨rfl, rfl⟩ haligned, endTable_none rfl, hvtable, hlength]
  have hsize := (response.withFields {}).withWord_size unhedgedVtable 32 [32]
  rw [hopened] at hsize
  have hat : StoredAt ((response.withFields {}).withWord unhedgedVtable 32 [32]).buf
      ((response.withFields {}).withWord unhedgedVtable 32 [32]).size unhedgedVtable :=
    StoredAt.of_append _ _
  rw [hsize] at hat
  exact ⟨hsize, ⟨rfl, rfl⟩, hsize ▸ (by decide), isPowerOfTwo_max hminalign ⟨2, rfl⟩, rfl, hat⟩

/-! ## All tables -/

/-- Tables have been built one after the other, twenty bytes each. -/
structure RefersAll (b c : Builder) (offsets : List Nat) (vt count : Nat) : Prop where
  shares : Shares c vt
  suffix : b.buf <:+ c.buf
  size_eq : c.size = b.size + 20 * count
  length_eq : offsets.length = count
  word : ∀ i, (hi : i < offsets.length) → offsets[i] = b.size + 20 * (i + 1) ∧
    StoredAt c.buf offsets[i] (leBytes 4 (soffsetWord vt offsets[i]))

theorem buildAll_refers (hunhedged : ∀ response ∈ results, response.Unhedged)
    (hshares : Shares b vt) :
    RefersAll b (buildAll results b).1 (buildAll results b).2 vt results.length := by
  induction results generalizing b with
  | nil => exact ⟨hshares, List.suffix_rfl, rfl, rfl, fun i hi => absurd hi (Nat.not_lt_zero i)⟩
  | cons response rest ih =>
      obtain ⟨htable, hrefers⟩ :=
        (hunhedged response List.mem_cons_self).build_refers hshares
      rw [buildAll_cons]
      generalize response.build b = built at htable hrefers ⊢
      have hrest := ih (fun other hother => hunhedged other (List.mem_cons_of_mem _ hother))
        hrefers.shares
      have hsize := hrefers.size_eq
      have hsizeRest := hrest.size_eq
      refine ⟨hrest.shares, hrefers.suffix.trans hrest.suffix, ?_, ?_, fun i hi => ?_⟩
      · rw [List.length_cons]
        dsimp only
        omega
      · rw [List.length_cons, List.length_cons, hrest.length_eq]
      · cases i with
        | zero =>
            rw [List.getElem_cons_zero, htable]
            exact ⟨by omega, hrefers.word.of_suffix hrest.suffix⟩
        | succ i =>
            obtain ⟨hoffset, hword⟩ := hrest.word i (Nat.lt_of_succ_lt_succ hi)
            exact ⟨by rw [List.getElem_cons_succ, hoffset]; omega, hword⟩

end PricingResponse

/-! ## The whole response -/

section

variable {front : Builder} {word : UInt64} {vec : Nat}

theorem responseSlots_vtableSize (hclosed : front.Closed) (hvec : vec ≠ 0) :
    ((responseSlots word vec).foldl addSlot front).vtableSize = 8 := by
  have hreference (off : Nat) : (off + 4 == 0) = false := by simp
  cases hword : word == 0 with
  | true =>
      simp only [responseSlots, List.foldl_cons, List.foldl_nil, addSlot, addElement, addOffset,
        referTo, hword, hvec, hreference, if_true, if_false, Bool.false_eq_true, vtableSize,
        trackField]
      change max (max front.maxVoffset 6 + 2) 4 = 8
      rw [hclosed.maxVoffset]
      decide
  | false =>
      simp only [responseSlots, List.foldl_cons, List.foldl_nil, addSlot, addElement, addOffset,
        referTo, hword, hvec, hreference, if_false, Bool.false_eq_true, vtableSize, trackField]
      change max (max (max front.maxVoffset 4) 6 + 2) 4 = 8
      rw [hclosed.maxVoffset]
      decide

/-- The root table is found: its vtable is smaller than the shared one. -/
theorem rootAt_of_shared (hclosed : front.Closed) (hwf : front.WellFormed 0)
    (hvec : vec ≤ front.size) (hsome : vec ≠ 0) {vt : Nat} (hvtables : front.vtables = [vt])
    (hstored : StoredAt front.buf vt PricingResponse.unhedgedVtable) :
    TableAt (front.buildTable (responseSlots word vec)).1
      (front.buildTable (responseSlots word vec)).2 (responseSlots word vec) := by
  have hfits := responseSlots_fit word hvec
  have hnodup : ((responseSlots word vec).map (·.field)).Nodup := show [4, 6].Nodup by decide
  have hfilled := addSlots_filled hclosed hwf hfits hnodup
  refine buildTable_tableAt hclosed hwf hfits hnodup (show 2 ≤ 16 by decide) fun vt' hvt' => ?_
  rw [hfilled.vtables, hvtables, List.mem_singleton] at hvt'
  subst hvt'
  have hsplit : PricingResponse.unhedgedVtable = leBytes 2 12 ++ vtableBytes [20, 4, 8, 12, 16] :=
    rfl
  rw [hsplit] at hstored
  refine ⟨12, (hstored.of_suffix hfilled.grows.buf).left, ?_⟩
  rw [responseSlots_vtableSize hclosed hsome]
  decide

end

/-- A result too far in front of its vtable reads back as the default. -/
theorem ResponseImage.reads_default {buf : Bytes} {word : UInt64} {front b : Builder}
    {vec root vt : Nat} {results : List PricingResponse}
    (himage : ResponseImage buf word front vec b root)
    (hresults : ResultsVector front vec results)
    (hrootAt : TableAt b root (responseSlots word vec)) (hsize : b.size + 16 < 2 ^ 32)
    {offsets : List Nat} (hreferences : References front (vec - 4) offsets)
    {i : Nat} (hi : i < offsets.length) (hi' : i < results.length)
    (hword : StoredAt front.buf offsets[i] (leBytes 4 (soffsetWord vt offsets[i])))
    (hfar : vt + 2 ^ 31 < offsets[i]) :
    ∃ read, (getPointer buf (getRoot buf) 6).map (PricingResponse.readVector buf) = some read ∧
      read[i]? = some ⟨0, Binary32.zero, Binary32.zero, Binary32.zero, Binary32.zero⟩ := by
  have hfinished := himage.finished_of_results hresults
  have hlength := hfinished.length_le
  obtain ⟨hpointer, -, hcount⟩ := himage.getResults hresults hrootAt (by omega)
  have haddress := himage.tableElement_eq hresults (by omega) hreferences hi
  have hstored := (hfinished.storedAt (hword.of_suffix himage.grows.buf)).1
  have hfields (field : Nat) := @getOptionalFieldOffset_far buf vt offsets[i] field hstored hfar
    (by omega)
  refine ⟨_, congrArg _ hpointer, ?_⟩
  simp only [PricingResponse.readVector, hcount, List.getElem?_map, List.getElem?_range hi',
    Option.map_some, haddress, PricingResponse.read, getFloat, getField, hfields, if_true]
  rfl

/-- The last of too many results reads back as the default. -/
theorem overlong_reads_default (word : UInt64) {first : PricingResponse}
    {rest : List PricingResponse} (hfirst : first.Unhedged)
    (hrest : ∀ response ∈ rest, response.Unhedged) (hfar : 2 ^ 31 < 20 * rest.length)
    (hsmall : 24 * rest.length + 200 < 2 ^ 32) :
    ∃ results,
      (BatchPricingResponse.ofBytes (responseBytes word (some (first :: rest)))).results =
          some results ∧
        results[rest.length]? =
          some ⟨0, Binary32.zero, Binary32.zero, Binary32.zero, Binary32.zero⟩ := by
  obtain ⟨hsizeFirst, hshares⟩ := hfirst.build_first
  have hrefers := PricingResponse.buildAll_refers hrest hshares
  have hresults := resultsVector (first :: rest)
  have hall := PricingResponse.buildAll_builds (first :: rest) ⟨rfl, rfl⟩ (WellFormed.empty 0)
  have hlays := createVectorOfOffsets_lays hall.wellFormed fun off hoff => (hall.offset off hoff).2
  obtain ⟨b, root, himage⟩ := exists_image_results word (first :: rest)
  rw [PricingResponse.buildAll_cons] at hresults hlays himage
  dsimp only at hresults hlays himage
  generalize PricingResponse.buildAll rest (first.build {}).1 = all at hrefers hresults hlays himage
  generalize all.1.createVectorOfOffsets ((first.build {}).2 :: all.2) = laid
    at hresults hlays himage
  have hsize := hrefers.size_eq
  have hcount := hrefers.length_eq
  have hlaid := hlays.size_le
  have hcovers := hresults.covers
  rw [List.length_cons, hcount] at hlaid
  have hvec : laid.2 ≠ 0 := by omega
  have hrootAt := @rootAt_of_shared _ word _ hresults.closed hresults.wellFormed
    hresults.vec_eq.le hvec _ (hlays.pads.vtables.trans hrefers.shares.vtables)
    (hrefers.shares.storedAt.of_suffix hlays.pads.grows.buf)
  rw [← himage.built] at hrootAt
  have hreferences := hlays.references (List.cons_ne_nil _ _)
  obtain ⟨last, hlast⟩ : ∃ last, rest.length = last + 1 := ⟨rest.length - 1, by omega⟩
  have hi : last < all.2.length := by omega
  obtain ⟨hoffset, hword⟩ := hrefers.word last hi
  have hi' : last + 1 < ((first.build {}).2 :: all.2).length := Nat.succ_lt_succ hi
  have hi'' : last + 1 < (first :: rest).length := by
    rw [List.length_cons]
    omega
  have hstored := hword.of_suffix hlays.pads.grows.buf
  have hnear := himage.near
  have htotal : b.size + 16 < 2 ^ 32 := by omega
  have hbeyond : 32 + 2 ^ 31 < all.2[last] := by omega
  rw [hlast]
  obtain ⟨read, hread, hdefault⟩ :=
    himage.reads_default hresults hrootAt htotal hreferences hi' hi'' hstored hbeyond
  refine ⟨read, ?_, hdefault⟩
  dsimp only [BatchPricingResponse.ofBytes]
  rw [hread]

end RangePricer
