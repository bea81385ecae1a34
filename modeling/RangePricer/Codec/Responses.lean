import RangePricer.Codec.Requests

/-!
# What responses read back as

A response has one table for each result.  On its bytes it is accepted exactly
if it has fewer tables than the verifier's limit, and then it reads back as
itself without the signs of zeros.
-/

namespace RangePricer

open FlatBuffers FlatBuffers.Builder

/-! ## One result -/

namespace PricingResponse

/-- The `add_` calls of `CreatePricingResponse`. -/
def slots (response : PricingResponse) : List Slot :=
  [.scalar 12 4 response.hedgeRatio.bits.toNat response.hedgeRatio.isZero,
    .scalar 10 4 response.price.bits.toNat response.price.isZero,
    .scalar 8 4 response.beta.bits.toNat response.beta.isZero,
    .scalar 6 4 response.alpha.bits.toNat response.alpha.isZero,
    .scalar 4 4 response.idx.toNat (response.idx == 0)]

theorem build_eq (response : PricingResponse) (b : Builder) :
    response.build b = b.buildTable response.slots := rfl

theorem slots_fit (response : PricingResponse) (start : Nat) :
    ∀ slot ∈ response.slots, slot.Fits start := by
  intro slot hslot
  simp only [slots, List.mem_cons, List.not_mem_nil, or_false] at hslot
  rcases hslot with rfl | rfl | rfl | rfl | rfl
  all_goals exact scalar_fits (by decide) ⟨2, rfl⟩ (by decide)

def unsigned (response : PricingResponse) : PricingResponse :=
  createPricingResponse response.idx response.alpha response.beta response.price
    response.hedgeRatio

section

variable {b : Builder} {root table : Nat} {buf : Bytes} {response : PricingResponse}

theorem read_eq (hfinished : Finished b root buf) (hlength : buf.length < 2 ^ 64)
    (htable : TableAt b table response.slots) :
    PricingResponse.read buf (buf.length - table) = response.unsigned := by
  have hidx : .scalar 4 4 response.idx.toNat (response.idx == 0) ∈ response.slots := by
    simp [PricingResponse.slots]
  have halpha : .scalar 6 4 response.alpha.bits.toNat response.alpha.isZero ∈ response.slots := by
    simp [PricingResponse.slots]
  have hbeta : .scalar 8 4 response.beta.bits.toNat response.beta.isZero ∈ response.slots := by
    simp [PricingResponse.slots]
  have hprice : .scalar 10 4 response.price.bits.toNat response.price.isZero ∈
      response.slots := by simp [PricingResponse.slots]
  have hhedge : .scalar 12 4 response.hedgeRatio.bits.toNat response.hedgeRatio.isZero ∈
      response.slots := by simp [PricingResponse.slots]
  rw [PricingResponse.read, getInt_eq hfinished hlength htable hidx (by decide)
      (fun hzero => congrArg UInt32.toNat (beq_iff_eq.mp hzero)) response.idx.toNat_lt,
    getFloat_eq hfinished hlength htable halpha (by decide),
    getFloat_eq hfinished hlength htable hbeta (by decide),
    getFloat_eq hfinished hlength htable hprice (by decide),
    getFloat_eq hfinished hlength htable hhedge (by decide), UInt32.ofNat_toNat]
  rfl

theorem verify_eq (hfinished : Finished b root buf) (hlength : buf.length < 2 ^ 64)
    (htable : TableAt b table response.slots) {counters : Counters}
    (hdepth : counters.depth < maxDepth) (htables : counters.numTables < maxTables) :
    PricingResponse.verify buf (buf.length - table) counters =
      some ⟨counters.depth, counters.numTables + 1⟩ := by
  have hfields := fun slot hslot => hfinished.verifyField_eq hlength htable hslot
    (response.slots_fit 0 slot hslot).field_even
  simp only [PricingResponse.slots, List.forall_mem_cons, Slot.width, Slot.field] at hfields
  obtain ⟨hhedge, hprice, hbeta, halpha, hidx, -⟩ := hfields
  refine verifyTable_eq_some.mpr
    ⟨_, ⟨counters.depth + 1, counters.numTables + 1⟩,
      hfinished.verifyTableStart_eq hlength htable hdepth htables, ?_, rfl⟩
  simp only [hhedge, hprice, hbeta, halpha, hidx, check_true, Option.bind_eq_bind,
    Option.bind_some]

end

/-- Tables built one after the other, all still in place. -/
structure BuildsAll (b c : Builder) (offsets : List Nat) (responses : List PricingResponse) :
    Prop where
  grows : Grows b c
  closed : c.Closed
  wellFormed : c.WellFormed 0
  size_le : c.size ≤ b.size + 160 * responses.length
  length_eq : offsets.length = responses.length
  offset : ∀ off ∈ offsets, 0 < off ∧ off ≤ c.size
  tableAt : c.size < 2 ^ 31 → ∀ i, (hi : i < offsets.length) → (hi' : i < responses.length) →
    TableAt c offsets[i] responses[i].slots

theorem buildAll_cons (response : PricingResponse) (rest : List PricingResponse) (b : Builder) :
    buildAll (response :: rest) b =
      ((buildAll rest (response.build b).1).1,
        (response.build b).2 :: (buildAll rest (response.build b).1).2) := rfl

theorem buildAll_builds (responses : List PricingResponse) {b : Builder} (hclosed : b.Closed)
    (hwf : b.WellFormed 0) :
    BuildsAll b (buildAll responses b).1 (buildAll responses b).2 responses := by
  induction responses generalizing b with
  | nil =>
      refine ⟨.refl b, hclosed, hwf, le_rfl, rfl, fun off hoff => ?_, fun _ i hi => ?_⟩
      · cases hoff
      · cases hi
  | cons response rest ih =>
      have hbuilds := buildTable_builds hclosed hwf
        (response.slots_fit b.size) (show [12, 10, 8, 6, 4].Nodup by decide) (Nat.zero_le _)
        (show 5 ≤ 16 by decide)
      rw [← build_eq] at hbuilds
      rw [buildAll_cons]
      generalize response.build b = built at hbuilds ⊢
      have hrest := ih hbuilds.closed hbuilds.wellFormed
      have hsize := hbuilds.size_le
      have hsizeRest := hrest.size_le
      have hgrown := hrest.grows.size_le
      have hfive : response.slots.length = 5 := rfl
      refine ⟨hbuilds.grows.trans hrest.grows, hrest.closed, hrest.wellFormed, ?_, ?_, ?_, ?_⟩
      · rw [List.length_cons]
        dsimp only
        omega
      · rw [List.length_cons, List.length_cons, hrest.length_eq]
      · intro off hoff
        rcases List.mem_cons.mp hoff with rfl | hoff
        · have hlt := hbuilds.lt_table
          exact ⟨by omega, hbuilds.table_le.trans hgrown⟩
        · exact hrest.offset off hoff
      · intro hnear i hi hi'
        dsimp only at hnear
        cases i with
        | zero => exact hrest.grows.tableAt (hbuilds.tableAt (by omega))
        | succ i =>
            exact hrest.tableAt hnear i (Nat.lt_of_succ_lt_succ hi) (Nat.lt_of_succ_lt_succ hi')

/-- The verifier counts every response as one table. -/
theorem numTables_of_verify {buf : Bytes} {table : Nat} {counters passed : Counters}
    (hpassed : PricingResponse.verify buf table counters = some passed) :
    passed.numTables = counters.numTables + 1 ∧ passed.numTables ≤ maxTables := by
  refine numTables_of_verifyTable (fun entered left hleft => ?_) hpassed
  simp only [Option.bind_eq_bind, check_bind_eq_some] at hleft
  exact (check_eq_some.mp hleft.2.2.2.2).2

end PricingResponse

/-! ## The response around them -/

/-- The `add_` calls of a response. -/
def responseSlots (word : UInt64) (resultsVec : Nat) : List Slot :=
  [.scalar 4 8 word.toNat (word == 0), .offset 6 resultsVec]

/-- A finished response whose root table was built on `front`. -/
structure ResponseImage (buf : Bytes) (word : UInt64) (front : Builder) (resultsVec : Nat)
    (b : Builder) (root : Nat) : Prop where
  built : (b, root) = front.buildTable (responseSlots word resultsVec)
  finished : 4 ∣ b.minalign → Finished b root buf
  grows : Grows front b
  rootAt : b.size < 2 ^ 31 → TableAt b root (responseSlots word resultsVec)
  order : front.size < root ∧ root ≤ b.size
  near : b.size ≤ front.size + 112

theorem responseSlots_fit (word : UInt64) {resultsVec start : Nat} (hvec : resultsVec ≤ start) :
    ∀ slot ∈ responseSlots word resultsVec, slot.Fits start := by
  intro slot hslot
  simp only [responseSlots, List.mem_cons, List.not_mem_nil, or_false] at hslot
  rcases hslot with rfl | rfl
  · exact scalar_fits (by decide) ⟨3, rfl⟩ (by decide)
  · exact offset_fits (by decide) hvec

/-- The root table is built and the buffer finished. -/
theorem exists_responseImage {front : Builder} {resultsVec : Nat} (word : UInt64)
    (hclosed : front.Closed) (hwf : front.WellFormed 0) (hvec : resultsVec ≤ front.size) :
    ∃ b root, ResponseImage
      (let (b, root) := front.buildTable (responseSlots word resultsVec)
       b.finish root) word front resultsVec b root := by
  have hbuilds := buildTable_builds hclosed hwf (responseSlots_fit word hvec)
    (show [4, 6].Nodup by decide) (Nat.zero_le _) (show 2 ≤ 16 by decide)
  generalize hbuilt : front.buildTable (responseSlots word resultsVec) = built at hbuilds ⊢
  exact ⟨built.1, built.2, hbuilt.symm, fun hminalign => finish_finished hbuilds.wellFormed
    hminalign hbuilds.table_le, hbuilds.grows, fun hnear => hbuilds.tableAt (by omega),
    ⟨hbuilds.lt_table, hbuilds.table_le⟩, hbuilds.size_le⟩

namespace ResponseImage

variable {buf : Bytes} {word : UInt64} {front b : Builder} {resultsVec root : Nat}
  (himage : ResponseImage buf word front resultsVec b root)

include himage

/-- The verifier enters the root table, and the word reads back. -/
theorem enterRoot (hrootAt : TableAt b root (responseSlots word resultsVec))
    (hsize : b.size < 2 ^ 32) :
    4 ∣ b.minalign ∧ getRoot buf = buf.length - root ∧
      verifyTableStart buf (getRoot buf) {} = some ⟨1, 1⟩ ∧
        UInt64.ofNat (getField 8 buf (getRoot buf) 4 0) = word ∧
          verifyField 8 8 buf (getRoot buf) 4 = true := by
  obtain ⟨vt, entries, hvtable, -⟩ := hrootAt.exists_vtable
  have hfinished := himage.finished hvtable.word.minalign
  have hlength := hfinished.length_le
  have horder := himage.order
  have hnear := himage.near
  have hroot := hfinished.getRoot_eq (by omega)
  have hslot : .scalar 4 8 word.toNat (word == 0) ∈ responseSlots word resultsVec := by
    simp [responseSlots]
  have hverified := hfinished.verifyField_eq (by omega) hrootAt hslot (show 2 ∣ 4 by decide)
  refine ⟨hvtable.word.minalign, hroot, ?_, ?_, ?_⟩
  · rw [hroot]
    exact hfinished.verifyTableStart_eq (by omega) hrootAt (by decide) (by decide)
  · rw [hroot, getInt_eq hfinished (by omega) hrootAt hslot (by decide)
      (fun hzero => congrArg UInt64.toNat (beq_iff_eq.mp hzero)) word.toNat_lt, UInt64.ofNat_toNat]
  · rw [hroot]
    exact hverified

end ResponseImage

/-! ## The vector of results -/

/-- Results and the vector that refers to them, on an otherwise empty builder. -/
structure ResultsVector (front : Builder) (vec : Nat) (results : List PricingResponse) :
    Prop where
  closed : front.Closed
  wellFormed : front.WellFormed 0
  vec_eq : vec = front.size
  aligned : 4 ∣ vec
  minalign : 4 ∣ front.minalign
  length : StoredAt front.buf vec (leBytes 4 results.length)
  covers : 4 * results.length < vec
  exists_offsets : ∃ offsets : List Nat, offsets.length = results.length ∧
    (offsets ≠ [] → References front (vec - 4) offsets) ∧
      ∀ i, (hi : i < offsets.length) → (hi' : i < results.length) → 0 < offsets[i] ∧
        (front.size < 2 ^ 31 → TableAt front offsets[i] results[i].slots)
  size_le : front.size ≤ 164 * results.length + 16

theorem resultsVector (results : List PricingResponse) :
    ResultsVector
      ((PricingResponse.buildAll results {}).1.createVectorOfOffsets
        (PricingResponse.buildAll results {}).2).1
      ((PricingResponse.buildAll results {}).1.createVectorOfOffsets
        (PricingResponse.buildAll results {}).2).2 results := by
  have hall := PricingResponse.buildAll_builds results ⟨rfl, rfl⟩ (WellFormed.empty 0)
  generalize PricingResponse.buildAll results {} = built at hall ⊢
  have hlays := createVectorOfOffsets_lays hall.wellFormed fun off hoff => (hall.offset off hoff).2
  generalize built.1.createVectorOfOffsets built.2 = laid at hlays ⊢
  have hbefore := hall.size_le
  have hafter := hlays.size_le
  have hsame := hall.length_eq
  have hzero : ({} : Builder).size = 0 := rfl
  have hlength := hlays.length
  rw [hsame] at hlength
  have hword := hlength.length_le
  rw [leBytes_length] at hword
  refine ⟨hlays.pads.closed hall.closed, hlays.pads.wellFormed hall.wellFormed, hlays.vec_eq,
    hlays.aligned, hlays.minalign, hlength, ?_, ⟨built.2, hsame, hlays.references, ?_⟩, by omega⟩
  · rcases Nat.eq_zero_or_pos results.length with hnone | hsome
    · omega
    · -- The last reference still lies in front of everything it refers to.
      have hpos : built.2 ≠ [] := List.ne_nil_of_length_pos (by omega)
      have haligned := hlays.aligned
      obtain ⟨hlast, -⟩ := (hlays.references hpos).stored (results.length - 1) (by omega)
      omega
  · intro i hi hi'
    refine ⟨(hall.offset _ (List.getElem_mem hi)).1, fun hnear => ?_⟩
    have hgrown := hlays.pads.grows.size_le
    exact hlays.pads.grows.tableAt (hall.tableAt (by omega) i hi hi')

namespace ResponseImage

variable {buf : Bytes} {word : UInt64} {front b : Builder} {vec root : Nat}
  {results : List PricingResponse}
  (himage : ResponseImage buf word front vec b root) (hresults : ResultsVector front vec results)

include himage hresults

theorem finished_of_results : Finished b root buf :=
  himage.finished (Nat.dvd_trans hresults.minalign himage.grows.minalign)

/-- The results are found where the root table says. -/
theorem getResults (hrootAt : TableAt b root (responseSlots word vec)) (hsize : b.size < 2 ^ 32) :
    getPointer buf (getRoot buf) 6 = some (buf.length - vec) ∧
      verifyOffset buf (getRoot buf) 6 = true ∧
        vectorSize buf (buf.length - vec) = results.length := by
  have hfinished := himage.finished_of_results hresults
  have hlength := hfinished.length_le
  have horder := himage.order
  have hnear := himage.near
  have hgrown := himage.grows.size_le
  have hcovers := hresults.covers
  have hvec := hresults.vec_eq
  have hslot : .offset 6 vec ∈ responseSlots word vec := by simp [responseSlots]
  obtain ⟨-, hroot, -⟩ := himage.enterRoot hrootAt hsize
  obtain ⟨hpointer, hoffset, -⟩ := hfinished.getPointer_some (by omega) hrootAt hslot
    (by decide) (by omega) (by omega)
  have hread := hfinished.readScalar
    (himage.grows.stored ⟨hresults.length, hresults.aligned, hresults.minalign⟩)
  rw [Nat.mod_eq_of_lt (show results.length < 256 ^ 4 by omega)] at hread
  rw [hroot]
  exact ⟨hpointer, hoffset, hread⟩

/-- Element `i` of the vector refers to the table at offset `i`. -/
theorem tableElement_eq (hsize : b.size < 2 ^ 32) {offsets : List Nat}
    (hreferences : References front (vec - 4) offsets) {i : Nat} (hi : i < offsets.length) :
    tableElement buf (buf.length - vec) i = buf.length - offsets[i] := by
  have hfinished := himage.finished_of_results hresults
  have hlt := hfinished.lt_length
  have hgrown := himage.grows.size_le
  have hvec := hresults.vec_eq
  obtain ⟨hfront, htarget, hat⟩ := hreferences.stored i hi
  have hread := (hfinished.storedAt (hat.of_suffix himage.grows.buf)).1.readScalar
  have haddress : buf.length - vec + 4 + i * 4 = buf.length - (vec - 4 - 4 * i) := by omega
  rw [Nat.mod_eq_of_lt (show vec - 4 - 4 * i - offsets[i] < 256 ^ 4 by omega)] at hread
  simp only [tableElement, haddress, hread]
  omega

/-- Element `i` of the vector refers to result `i`. -/
theorem exists_tableElement (hsize : b.size < 2 ^ 31) {i : Nat} (hi : i < results.length) :
    ∃ off, tableElement buf (buf.length - vec) i = buf.length - off ∧
      TableAt b off results[i].slots := by
  have hgrown := himage.grows.size_le
  obtain ⟨offsets, hsame, hreferences, htables⟩ := hresults.exists_offsets
  have hi' : i < offsets.length := hsame ▸ hi
  have hsome : offsets ≠ [] := List.ne_nil_of_length_pos (by omega)
  exact ⟨offsets[i], himage.tableElement_eq hresults (by omega) (hreferences hsome) hi',
    himage.grows.tableAt ((htables i hi' hi).2 (by omega))⟩

/-- The verifier accepts the vector of references itself. -/
theorem verifyVectorAt_eq (hsize : b.size < 2 ^ 31) (hfew : results.length < maxTables) :
    verifyVectorAt 4 buf (buf.length - vec) = true := by
  have hfinished := himage.finished_of_results hresults
  have hlength := hfinished.length_le
  have hlt := hfinished.lt_length
  have hgrown := himage.grows.size_le
  have hvec := hresults.vec_eq
  have haligned := hresults.aligned
  have hcovers := hresults.covers
  have hlimit : maxTables < maxBufferSize / 4 := by decide
  have hscalar := hfinished.verifyScalar
    (himage.grows.stored ⟨hresults.length, hresults.aligned, hresults.minalign⟩)
  obtain ⟨-, -, hcount⟩ := himage.getResults hresults (himage.rootAt hsize) (by omega)
  rw [vectorSize] at hcount
  have hrange : FlatBuffers.verifyRange buf (buf.length - vec) (4 + 4 * results.length) = true := by
    simp only [FlatBuffers.verifyRange, Bool.and_eq_true, decide_eq_true_eq]
    omega
  simp only [verifyVectorAt, hscalar, hcount, hrange, Bool.and_true, Bool.true_and,
    decide_eq_true_eq]
  omega

/-- The verifier walks all results as long as it may count them. -/
theorem verifyResults_eq (hsize : b.size < 2 ^ 31) (hfew : results.length < maxTables) :
    verifyElements (PricingResponse.verify buf) buf (buf.length - vec) results.length 0 ⟨1, 1⟩ =
      some ⟨1, 1 + results.length⟩ := by
  have hfinished := himage.finished_of_results hresults
  have hlength := hfinished.length_le
  refine @verifyElements_eq _ _ _ results.length (fun i hi counters hdepth htables => ?_) _ 0 _
    (by omega) (by decide) (by dsimp only; omega)
  obtain ⟨off, haddress, htable⟩ := himage.exists_tableElement hresults hsize hi
  rw [haddress]
  exact PricingResponse.verify_eq hfinished (by omega) htable hdepth htables

/-- The verifier accepts the response if and only if its tables can be counted. -/
theorem verifyResponse_eq (hsize : b.size < 2 ^ 31) :
    (verifyResponse buf (getRoot buf) {}).isSome = decide (results.length < maxTables) := by
  obtain ⟨-, -, henter, -, hword⟩ := himage.enterRoot (himage.rootAt hsize) (by omega)
  obtain ⟨hpointer, hoffset, hcount⟩ := himage.getResults hresults (himage.rootAt hsize) (by omega)
  rw [Bool.eq_iff_iff, decide_eq_true_eq, Option.isSome_iff_exists]
  constructor
  · rintro ⟨passed, hpassed⟩
    obtain ⟨entered, left, hstart, hfields, -⟩ := verifyTable_eq_some.mp hpassed
    rw [henter] at hstart
    obtain rfl := Option.some.inj hstart
    simp only [Option.bind_eq_bind, check_bind_eq_some] at hfields
    obtain ⟨-, -, -, helements⟩ := hfields
    rw [hpointer, verifyVectorOfTables, hcount] at helements
    have hlimit := numTables_of_verifyElements
      (fun _ _ _ hpassed => PricingResponse.numTables_of_verify hpassed) (by decide) helements
    dsimp only at hlimit
    omega
  · intro hfew
    have hvector := himage.verifyVectorAt_eq hresults hsize hfew
    have helements := himage.verifyResults_eq hresults hsize hfew
    refine ⟨⟨0, 1 + results.length⟩, verifyTable_eq_some.mpr
      ⟨_, ⟨1, 1 + results.length⟩, henter, ?_, rfl⟩⟩
    simp only [hword, hoffset, hpointer, verifyVector, Option.all_some, hvector, check_true,
      Option.bind_eq_bind, Option.bind_some, verifyVectorOfTables, hcount, helements]

/-- The results read back. -/
theorem readVector_eq (hsize : b.size < 2 ^ 31) :
    PricingResponse.readVector buf (buf.length - vec) = results.map PricingResponse.unsigned := by
  have hfinished := himage.finished_of_results hresults
  have hlength := hfinished.length_le
  obtain ⟨-, -, hcount⟩ := himage.getResults hresults (himage.rootAt hsize) (by omega)
  refine List.ext_getElem (by simp [PricingResponse.readVector, hcount]) fun i hi hi' => ?_
  rw [List.length_map] at hi'
  obtain ⟨off, haddress, htable⟩ := himage.exists_tableElement hresults hsize hi'
  simp only [PricingResponse.readVector, List.getElem_map, List.getElem_range, haddress]
  exact PricingResponse.read_eq hfinished (by omega) htable

end ResponseImage

/-! ## Built responses -/

/-- The root table of a response is built from its slots. -/
theorem buildTable_responseSlots (word : UInt64) (front : Builder) (resultsVec : Nat) :
    front.buildTable (responseSlots word resultsVec) =
      ((front.addElement 4 8 word.toNat (word == 0)).addOffset 6 resultsVec).endTable
        front.startTable := rfl

theorem exists_image_results (word : UInt64) (results : List PricingResponse) :
    ∃ b root, ResponseImage (responseBytes word (some results)) word
      ((PricingResponse.buildAll results {}).1.createVectorOfOffsets
        (PricingResponse.buildAll results {}).2).1
      ((PricingResponse.buildAll results {}).1.createVectorOfOffsets
        (PricingResponse.buildAll results {}).2).2 b root := by
  have hresults := resultsVector results
  obtain ⟨b, root, himage⟩ := exists_responseImage word hresults.closed hresults.wellFormed
    hresults.vec_eq.le
  exact ⟨b, root, himage⟩

theorem exists_image_some (word : UInt64) (results : List PricingResponse) :
    ∃ front vec b root, ResponseImage (responseBytes word (some results)) word front vec b root ∧
      ResultsVector front vec results := by
  obtain ⟨b, root, himage⟩ := exists_image_results word results
  exact ⟨_, _, b, root, himage, resultsVector results⟩

theorem responseBytes_length_le (word : UInt64) (results : List PricingResponse) :
    (responseBytes word (some results)).length ≤ 164 * results.length + 144 := by
  obtain ⟨front, vec, b, root, himage, hresults⟩ := exists_image_some word results
  have hlength := (himage.finished_of_results hresults).length_le
  have hnear := himage.near
  have hfront := hresults.size_le
  omega

theorem exists_image_none (word : UInt64) :
    ∃ b root, ResponseImage (responseBytes word none) word {} 0 b root := by
  obtain ⟨b, root, himage⟩ := exists_responseImage word ⟨rfl, rfl⟩ (WellFormed.empty 0)
    (Nat.zero_le _)
  rw [buildTable_responseSlots] at himage
  exact ⟨b, root, himage⟩

/-- A message without results has a root table and nothing else. -/
theorem getResults_none (word : UInt64) {buf : Bytes} (hbuf : buf = responseBytes word none) :
    buf.length < maxBufferSize ∧ verifyTableStart buf (getRoot buf) {} = some ⟨1, 1⟩ ∧
      UInt64.ofNat (getField 8 buf (getRoot buf) 4 0) = word ∧
        verifyField 8 8 buf (getRoot buf) 4 = true ∧
          getPointer buf (getRoot buf) 6 = none ∧ verifyOffset buf (getRoot buf) 6 = true := by
  obtain ⟨b, root, himage⟩ := exists_image_none word
  rw [← hbuf] at himage
  have hnear : b.size ≤ 112 := himage.near
  obtain ⟨hminalign, hroot, henter, hread, hverify⟩ :=
    himage.enterRoot (himage.rootAt (by omega)) (by omega)
  have hfinished := himage.finished hminalign
  have hlength := hfinished.length_le
  have hslot : .offset 6 0 ∈ responseSlots word 0 := by simp [responseSlots]
  obtain ⟨hpointer, hoffset⟩ :=
    hfinished.getPointer_none (by omega) (himage.rootAt (by omega)) hslot (by decide)
  rw [← hroot] at hpointer hoffset
  have hlimit : maxBufferSize = 2 ^ 31 - 1 := rfl
  exact ⟨by omega, henter, hread, hverify, hpointer, hoffset⟩

/-- A built response is admitted if and only if its tables can be counted. -/
theorem responseBytes_admitted (word : UInt64) (results : Option (List PricingResponse)) :
    admits (fun buf => (verifyResponse buf (getRoot buf) {}).isSome) (responseBytes word results) =
      responseVerifies results := by
  cases results with
  | none =>
      obtain ⟨hsmall, henter, -, hword, hpointer, hoffset⟩ := getResults_none word rfl
      have hverify : verifyResponse (responseBytes word none)
          (getRoot (responseBytes word none)) {} = some ⟨0, 1⟩ := by
        refine verifyTable_eq_some.mpr ⟨_, ⟨1, 1⟩, henter, ?_, rfl⟩
        simp only [hword, hoffset, hpointer, verifyVector, Option.all_none, check_true,
          Option.bind_eq_bind, Option.bind_some, verifyVectorOfTables]
      simp [admits, hverify, hsmall, responseVerifies]
  | some results =>
      obtain ⟨front, vec, b, root, himage, hresults⟩ := exists_image_some word results
      have hfinished := himage.finished_of_results hresults
      have hlt := hfinished.lt_length
      have hlength := hfinished.length_le
      have hnear := himage.near
      have hfront := hresults.size_le
      have hlimits : maxBufferSize = 2 ^ 31 - 1 ∧ maxTables = 1000000 := ⟨rfl, rfl⟩
      by_cases hfits : (responseBytes word (some results)).length < maxBufferSize
      · have hsize : b.size < 2 ^ 31 := by omega
        rw [admits, decide_eq_true hfits, himage.verifyResponse_eq hresults hsize, Bool.true_and,
          responseVerifies_some]
      · have hmany : ¬ results.length < maxTables := by omega
        rw [admits, decide_eq_false hfits, Bool.false_and, responseVerifies_some,
          decide_eq_false hmany]

/-- Whatever stays below the buffer limit reads back. -/
theorem responseBytes_read_of_lt {word : UInt64} {results : Option (List PricingResponse)}
    (hfits : (responseBytes word results).length < maxBufferSize) :
    UInt64.ofNat (getField 8 (responseBytes word results) (getRoot (responseBytes word results))
        4 0) = word ∧
      (getPointer (responseBytes word results) (getRoot (responseBytes word results)) 6).map
        (PricingResponse.readVector (responseBytes word results)) =
          results.map (List.map PricingResponse.unsigned) := by
  cases results with
  | none =>
      obtain ⟨-, -, hword, -, hpointer, -⟩ := getResults_none word rfl
      exact ⟨hword, by rw [hpointer]; rfl⟩
  | some results =>
      obtain ⟨front, vec, b, root, himage, hresults⟩ := exists_image_some word results
      have hlt := (himage.finished_of_results hresults).lt_length
      have hlimit : maxBufferSize = 2 ^ 31 - 1 := rfl
      have hsize : b.size < 2 ^ 31 := by omega
      obtain ⟨-, -, -, hword, -⟩ := himage.enterRoot (himage.rootAt hsize) (by omega)
      obtain ⟨hpointer, -, -⟩ := himage.getResults hresults (himage.rootAt hsize) (by omega)
      refine ⟨hword, ?_⟩
      rw [hpointer, Option.map_some, himage.readVector_eq hresults hsize]
      rfl

theorem length_of_responseVerifies (word : UInt64) {results : Option (List PricingResponse)}
    (hverifies : responseVerifies results = true) :
    (responseBytes word results).length < maxBufferSize := by
  rw [← responseBytes_admitted word results, admits, Bool.and_eq_true, decide_eq_true_eq]
    at hverifies
  exact hverifies.1

namespace BatchPricingResponse

/-- What `process` builds is accepted by the collector if and only if it verifies. -/
theorem toBytes_admitted (response : BatchPricingResponse) :
    admits verifyBytes response.toBytes = response.verifies :=
  responseBytes_admitted response.batchId response.results

theorem ofBytes_toBytes_of_lt {response : BatchPricingResponse}
    (hfits : response.toBytes.length < maxBufferSize) :
    ofBytes response.toBytes =
      ⟨response.batchId, response.results.map (List.map PricingResponse.unsigned)⟩ := by
  obtain ⟨hword, hresults⟩ := @responseBytes_read_of_lt response.batchId response.results hfits
  exact congrArg₂ BatchPricingResponse.mk hword hresults

/-- What is admitted reads back. -/
theorem ofBytes_toBytes {response : BatchPricingResponse} (hverifies : response.verifies = true) :
    ofBytes response.toBytes =
      ⟨response.batchId, response.results.map (List.map PricingResponse.unsigned)⟩ :=
  ofBytes_toBytes_of_lt (length_of_responseVerifies response.batchId hverifies)

end BatchPricingResponse

namespace RangePricingResponse

/-- What the server sends is accepted by the C++ client if and only if it verifies. -/
theorem toBytes_admitted (response : RangePricingResponse) :
    admits verifyBytes response.toBytes = response.verifies :=
  responseBytes_admitted response.requestHash response.results

theorem ofBytes_toBytes {response : RangePricingResponse} (hverifies : response.verifies = true) :
    ofBytes response.toBytes =
      ⟨response.requestHash, response.results.map (List.map PricingResponse.unsigned)⟩ := by
  have hfits := length_of_responseVerifies response.requestHash hverifies
  obtain ⟨hword, hresults⟩ := @responseBytes_read_of_lt response.requestHash response.results hfits
  exact congrArg₂ RangePricingResponse.mk hword hresults

end RangePricingResponse

end RangePricer
