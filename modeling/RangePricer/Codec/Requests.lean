import RangePricer.FlatBuffers.Reading
import RangePricer.Schema

/-!
# What requests and batches read back as

The messages that carry parameters and pairs, decoded and verified on the bytes
the program builds.  They read back as themselves without the signs of zero
parameters, and whatever the request verifier admits fits into a batch.
-/

namespace RangePricer

open FlatBuffers FlatBuffers.Builder

/-! ## Records without the signs of zeros -/

namespace PricingParams

def unsigned (params : PricingParams) : PricingParams where
  optionType := params.optionType
  stockPrice := params.stockPrice.unsignedZero
  strikePrice := params.strikePrice.unsignedZero
  interestRate := params.interestRate.unsignedZero
  timeToMaturity := params.timeToMaturity.unsignedZero
  stockDiscretization := params.stockDiscretization.unsignedZero

/-- The `add_` calls of `build`. -/
def slots (params : PricingParams) : List Slot :=
  [.scalar 4 1 params.optionType.raw.toNat (params.optionType.raw == 0),
    .scalar 6 4 params.stockPrice.bits.toNat params.stockPrice.isZero,
    .scalar 8 4 params.strikePrice.bits.toNat params.strikePrice.isZero,
    .scalar 10 4 params.interestRate.bits.toNat params.interestRate.isZero,
    .scalar 12 4 params.timeToMaturity.bits.toNat params.timeToMaturity.isZero,
    .scalar 14 4 params.stockDiscretization.bits.toNat params.stockDiscretization.isZero]

theorem build_eq (params : PricingParams) (b : Builder) :
    params.build b = b.buildTable params.slots := rfl

end PricingParams

/-! ## Fields -/

theorem scalar_fits {field width value start : Nat} {isDefault : Bool}
    (hfield : 2 ∣ field ∧ 4 ≤ field ∧ field ≤ 64) (hwidth : width.isPowerOfTwo)
    (hle : width ≤ 8) : (Slot.scalar field width value isDefault).Fits start :=
  ⟨hfield.1, hfield.2.1, hfield.2.2, hwidth, hle, fun _ _ hslot => by cases hslot⟩

theorem offset_fits {field target start : Nat} (hfield : 2 ∣ field ∧ 4 ≤ field ∧ field ≤ 64)
    (htarget : target ≤ start) : (Slot.offset field target).Fits start :=
  ⟨hfield.1, hfield.2.1, hfield.2.2, ⟨2, rfl⟩, show 4 ≤ 8 by decide,
    fun _ _ hslot => by cases hslot; exact htarget⟩

theorem PricingParams.slots_fit (params : PricingParams) (start : Nat) :
    ∀ slot ∈ params.slots, slot.Fits start := by
  intro slot hslot
  simp only [PricingParams.slots, List.mem_cons, List.not_mem_nil, or_false] at hslot
  rcases hslot with rfl | rfl | rfl | rfl | rfl | rfl
  · exact scalar_fits (by decide) ⟨0, rfl⟩ (by decide)
  all_goals exact scalar_fits (by decide) ⟨2, rfl⟩ (by decide)

section

variable {b : Builder} {root table : Nat} {buf : Bytes} {slots : List Slot}

/-- A float field reads back without the sign of a zero. -/
theorem getFloat_eq (hfinished : Finished b root buf) (hlength : buf.length < 2 ^ 64)
    (htable : TableAt b table slots) {field : Nat} {x : Binary32}
    (hslot : .scalar field 4 x.bits.toNat x.isZero ∈ slots) (hfield : 2 ∣ field) :
    getFloat buf (buf.length - table) field = x.unsignedZero := by
  rw [getFloat, hfinished.getField_eq hlength htable hslot hfield, Binary32.unsignedZero]
  split
  · rfl
  · rw [Nat.mod_eq_of_lt (show x.bits.toNat < 256 ^ 4 from x.bits.toNat_lt), UInt32.ofNat_toNat]

/-- An integer field reads back as itself: its default is zero. -/
theorem getInt_eq (hfinished : Finished b root buf) (hlength : buf.length < 2 ^ 64)
    (htable : TableAt b table slots) {field width value : Nat} {isDefault : Bool}
    (hslot : .scalar field width value isDefault ∈ slots) (hfield : 2 ∣ field)
    (hzero : isDefault = true → value = 0) (hvalue : value < 256 ^ width) :
    getField width buf (buf.length - table) field 0 = value := by
  rw [hfinished.getField_eq hlength htable hslot hfield]
  split
  · next hdefault => exact (hzero hdefault).symm
  · exact Nat.mod_eq_of_lt hvalue

theorem PricingParams.read_eq (hfinished : Finished b root buf) (hlength : buf.length < 2 ^ 64)
    {params : PricingParams} (htable : TableAt b table params.slots) :
    PricingParams.read buf (buf.length - table) = params.unsigned := by
  have hoption : .scalar 4 1 params.optionType.raw.toNat (params.optionType.raw == 0) ∈
      params.slots := by simp [PricingParams.slots]
  have hstock : .scalar 6 4 params.stockPrice.bits.toNat params.stockPrice.isZero ∈
      params.slots := by simp [PricingParams.slots]
  have hstrike : .scalar 8 4 params.strikePrice.bits.toNat params.strikePrice.isZero ∈
      params.slots := by simp [PricingParams.slots]
  have hrate : .scalar 10 4 params.interestRate.bits.toNat params.interestRate.isZero ∈
      params.slots := by simp [PricingParams.slots]
  have hmaturity : .scalar 12 4 params.timeToMaturity.bits.toNat params.timeToMaturity.isZero ∈
      params.slots := by simp [PricingParams.slots]
  have hds : .scalar 14 4 params.stockDiscretization.bits.toNat
      params.stockDiscretization.isZero ∈ params.slots := by simp [PricingParams.slots]
  rw [PricingParams.read, getInt_eq hfinished hlength htable hoption (by decide)
      (fun hzero => congrArg UInt8.toNat (beq_iff_eq.mp hzero)) params.optionType.raw.toNat_lt,
    getFloat_eq hfinished hlength htable hstock (by decide),
    getFloat_eq hfinished hlength htable hstrike (by decide),
    getFloat_eq hfinished hlength htable hrate (by decide),
    getFloat_eq hfinished hlength htable hmaturity (by decide),
    getFloat_eq hfinished hlength htable hds (by decide), UInt8.ofNat_toNat]
  rfl

/-- The verifier accepts the parameters and leaves them again. -/
theorem PricingParams.verify_eq (hfinished : Finished b root buf) (hlength : buf.length < 2 ^ 64)
    {params : PricingParams} (htable : TableAt b table params.slots) {counters : Counters}
    (hdepth : counters.depth < maxDepth) (htables : counters.numTables < maxTables) :
    PricingParams.verify buf (buf.length - table) counters =
      some ⟨counters.depth, counters.numTables + 1⟩ := by
  have hfields := fun slot hslot => hfinished.verifyField_eq hlength htable hslot
    (params.slots_fit 0 slot hslot).field_even
  simp only [PricingParams.slots, List.forall_mem_cons, Slot.width, Slot.field] at hfields
  obtain ⟨hoption, hstock, hstrike, hrate, hmaturity, hds, -⟩ := hfields
  refine verifyTable_eq_some.mpr
    ⟨_, ⟨counters.depth + 1, counters.numTables + 1⟩,
      hfinished.verifyTableStart_eq hlength htable hdepth htables, ?_, rfl⟩
  simp only [hoption, hstock, hstrike, hrate, hmaturity, hds, check_true, Option.bind_eq_bind,
    Option.bind_some]

/-! ## Vectors of pairs -/

theorem AlphaBetaPair.toBytes_length (pair : AlphaBetaPair) : pair.toBytes.length = 12 := by
  simp [AlphaBetaPair.toBytes]

/-- A stored pair reads back through its address. -/
theorem AlphaBetaPair.read_eq {off : Nat} {pair : AlphaBetaPair}
    (hstored : StoredAt buf off pair.toBytes) :
    AlphaBetaPair.read buf (buf.length - off) = pair := by
  have hall := hstored.length_le
  rw [AlphaBetaPair.toBytes_length] at hall
  have hin := hstored.1
  have hidx := hstored.left.left.readScalar
  have halpha := hstored.left.suffix.readScalar
  have hbeta := hstored.suffix.readScalar
  rw [List.length_append, leBytes_length, leBytes_length] at hbeta
  rw [leBytes_length] at halpha
  rw [show buf.length - (off - 4) = buf.length - off + 4 by omega,
    Nat.mod_eq_of_lt (show pair.alpha.bits.toNat < 256 ^ 4 from pair.alpha.bits.toNat_lt)] at halpha
  rw [show buf.length - (off - (4 + 4)) = buf.length - off + 8 by omega,
    Nat.mod_eq_of_lt (show pair.beta.bits.toNat < 256 ^ 4 from pair.beta.bits.toNat_lt)] at hbeta
  rw [Nat.mod_eq_of_lt (show pair.idx.toNat < 256 ^ 4 from pair.idx.toNat_lt)] at hidx
  rw [AlphaBetaPair.read, hidx, halpha, hbeta, UInt32.ofNat_toNat, UInt32.ofNat_toNat,
    UInt32.ofNat_toNat]

theorem AlphaBetaPair.readVector_eq {vec : Nat} {pairs : List AlphaBetaPair}
    (hstored : StoredAt buf vec (leBytes 4 pairs.length ++ pairs.flatMap AlphaBetaPair.toBytes))
    (hsize : vectorSize buf (buf.length - vec) = pairs.length) :
    AlphaBetaPair.readVector buf (some (buf.length - vec)) = pairs := by
  have hin := hstored.1
  have hbody := hstored.suffix
  rw [leBytes_length] at hbody
  refine List.ext_getElem (by simp [AlphaBetaPair.readVector, hsize]) fun i _ hi => ?_
  have hpiece := hbody.piece (fun pair _ => pair.toBytes_length) hi
  have hinside := hpiece.length_le
  rw [AlphaBetaPair.toBytes_length] at hinside
  have hread := AlphaBetaPair.read_eq hpiece
  have haddress : buf.length - (vec - 4 - 12 * i) =
      structElement 12 (buf.length - vec) i := by
    unfold structElement
    omega
  rw [haddress] at hread
  simpa [AlphaBetaPair.readVector] using hread

end

/-! ## Requests and batches -/

/-- What the C++ client and `expand_to_batches` both build: the pairs, the
parameters, then a root table that refers to them. -/
def requestBytes (params : PricingParams) (pairs : List AlphaBetaPair)
    (rootSlots : Nat → Nat → List Slot) : Bytes :=
  let (b, pairsVec) := createVectorOfStructs {} 12 4 (pairs.map AlphaBetaPair.toBytes)
  let (b, request) := b.buildTable params.slots
  let (b, root) := b.buildTable (rootSlots request pairsVec)
  b.finish root

/-- A finished buffer with its root table, parameters and pairs. -/
structure RequestImage (buf : Bytes) (params : PricingParams) (pairs : List AlphaBetaPair)
    (rootSlots : Nat → Nat → List Slot) (b : Builder) (root request pairsVec : Nat) : Prop where
  finished : Finished b root buf
  rootAt : TableAt b root (rootSlots request pairsVec)
  requestAt : TableAt b request params.slots
  pairsAt : StoredAt b.buf pairsVec (leBytes 4 pairs.length ++ pairs.flatMap AlphaBetaPair.toBytes)
  aligned : 4 ∣ pairsVec
  minalign : 4 ∣ b.minalign
  order : 0 < pairsVec ∧ pairsVec < request ∧ request < root ∧ root ≤ b.size
  near : b.size ≤ pairsVec + 400
  length_le : buf.length ≤ 12 * pairs.length + 500

theorem requestBytes_image {params : PricingParams} {pairs : List AlphaBetaPair}
    {rootSlots : Nat → Nat → List Slot}
    (hfits : ∀ request pairsVec start, request ≤ start → pairsVec ≤ start →
      ∀ slot ∈ rootSlots request pairsVec, slot.Fits start)
    (hnodup : ∀ request pairsVec, ((rootSlots request pairsVec).map (·.field)).Nodup)
    (hfew : ∀ request pairsVec, (rootSlots request pairsVec).length ≤ 3) :
    ∃ b root request pairsVec,
      RequestImage (requestBytes params pairs rootSlots) params pairs rootSlots b root request
        pairsVec := by
  generalize hcreate : createVectorOfStructs {} 12 4 (pairs.map AlphaBetaPair.toBytes) = laid
  obtain ⟨b₁, vec⟩ := laid
  have hempty := WellFormed.empty vec
  have hlays : Lays {} b₁ vec vec pairs.length (pairs.flatMap AlphaBetaPair.toBytes) := by
    have helems : ∀ elem ∈ pairs.map AlphaBetaPair.toBytes, elem.length = 12 := by
      intro elem helem
      obtain ⟨pair, -, rfl⟩ := List.mem_map.mp helem
      exact pair.toBytes_length
    have hlays := createVectorOfStructs_lays hempty helems
    rwa [hcreate, List.length_map, ← List.flatMap_def] at hlays
  have hbody : (pairs.flatMap AlphaBetaPair.toBytes).length = 12 * pairs.length :=
    StoredAt.length_flatMap fun pair _ => pair.toBytes_length
  have hvec := hlays.vec_eq
  have hvecSize := hlays.size_le
  have hvecPos := hlays.storedAt.length_le
  rw [List.length_append, leBytes_length] at hvecPos
  -- The parameters, then the root, all within a short distance of the vector.
  have hparams := buildTable_builds (hlays.pads.closed ⟨rfl, rfl⟩) (hlays.pads.wellFormed hempty)
    (params.slots_fit b₁.size) (show [4, 6, 8, 10, 12, 14].Nodup by decide) hvec.le
    (show 6 ≤ 16 by decide)
  rw [← PricingParams.build_eq] at hparams
  generalize hbuild : params.build b₁ = built at hparams
  obtain ⟨b₂, request⟩ := built
  obtain ⟨hgrows, hclosed, hwf, hltRequest, hleRequest, hsize, hrequest⟩ := hparams
  dsimp only at hltRequest hleRequest hsize hgrows hclosed hwf hrequest
  have hroot := buildTable_builds hclosed hwf
    (hfits request vec b₂.size hleRequest (by omega)) (hnodup request vec) (by omega)
    ((hfew request vec).trans (by decide))
  generalize hbuildRoot : b₂.buildTable (rootSlots request vec) = builtRoot at hroot
  obtain ⟨b₃, root⟩ := builtRoot
  obtain ⟨hgrowsRoot, -, hwfRoot, hltRoot, hleRoot, hsizeRoot, hrootAt⟩ := hroot
  have hfewRoot := hfew request vec
  have hsix : params.slots.length = 6 := rfl
  dsimp only at hltRoot hleRoot hsizeRoot hgrowsRoot hwfRoot hrootAt
  have hminalign : 4 ∣ b₃.minalign :=
    Nat.dvd_trans hlays.minalign (Nat.dvd_trans hgrows.minalign hgrowsRoot.minalign)
  have hfinished := finish_finished hwfRoot hminalign hleRoot
  have hbytes : requestBytes params pairs rootSlots = b₃.finish root := by
    simp only [requestBytes, hcreate, ← PricingParams.build_eq, hbuild, hbuildRoot]
  have hlength := hfinished.length_le
  have hsizes : ({} : Builder).size = 0 := rfl
  rw [hbytes]
  refine ⟨b₃, root, request, vec, hfinished, hrootAt (by omega),
    hgrowsRoot.tableAt (hrequest (by omega)),
    hlays.storedAt.of_suffix (hgrows.trans hgrowsRoot).buf, hlays.aligned, hminalign,
    ⟨by omega, by omega, by omega, hleRoot⟩, by omega, by omega⟩

namespace RequestImage

variable {buf : Bytes} {params : PricingParams} {pairs : List AlphaBetaPair}
  {rootSlots : Nat → Nat → List Slot} {b : Builder} {root request pairsVec : Nat}
  (himage : RequestImage buf params pairs rootSlots b root request pairsVec)

include himage

theorem getRoot_eq : getRoot buf = buf.length - root := by
  have horder := himage.order
  have hnear := himage.near
  have hlength := himage.finished.length_le
  exact himage.finished.getRoot_eq (by omega)

theorem length_lt (hpairs : pairs.length < maxBufferSize / 12) : buf.length < 2 ^ 64 := by
  have hlength := himage.length_le
  simp only [maxBufferSize] at hpairs
  omega

theorem min_length : minBufferSize ≤ buf.length := by
  obtain ⟨vt, entries, hvtable, -⟩ := himage.requestAt.exists_vtable
  have haligned := hvtable.word.aligned
  have hvec := himage.pairsAt.length_le
  have horder := himage.order
  have hlt := himage.finished.lt_length
  rw [List.length_append, leBytes_length] at hvec
  simp only [minBufferSize]
  omega

/-- A reference of the root table leads to its target. -/
theorem getReference (hpairs : pairs.length < maxBufferSize / 12) {field target : Nat}
    (hslot : .offset field target ∈ rootSlots request pairsVec) (hfield : 2 ∣ field)
    (htarget : pairsVec ≤ target) :
    getPointer buf (getRoot buf) field = some (buf.length - target) ∧
      verifyOffsetRequired buf (getRoot buf) field = true := by
  have horder := himage.order
  have hnear := himage.near
  obtain ⟨hpointer, -, hrequired⟩ := himage.finished.getPointer_some (himage.length_lt hpairs)
    himage.rootAt hslot hfield (by omega) (by omega)
  rw [himage.getRoot_eq]
  exact ⟨hpointer, hrequired⟩

/-- The parameters are where the root table says. -/
theorem getParams (hpairs : pairs.length < maxBufferSize / 12) {field : Nat}
    (hslot : .offset field request ∈ rootSlots request pairsVec) (hfield : 2 ∣ field) :
    (getPointer buf (getRoot buf) field).map (PricingParams.read buf) = some params.unsigned ∧
      verifyOffsetRequired buf (getRoot buf) field = true ∧
        PricingParams.verifyPointer buf (getPointer buf (getRoot buf) field) ⟨1, 1⟩ =
          some ⟨1, 2⟩ := by
  have hlength := himage.length_lt hpairs
  obtain ⟨hpointer, hrequired⟩ := himage.getReference hpairs hslot hfield himage.order.2.1.le
  rw [hpointer]
  refine ⟨?_, hrequired, ?_⟩
  · exact congrArg some (PricingParams.read_eq himage.finished hlength himage.requestAt)
  · exact PricingParams.verify_eq himage.finished hlength himage.requestAt (by decide) (by decide)

/-- So are the pairs. -/
theorem getPairs (hpairs : pairs.length < maxBufferSize / 12) {field : Nat}
    (hslot : .offset field pairsVec ∈ rootSlots request pairsVec) (hfield : 2 ∣ field) :
    AlphaBetaPair.readVector buf (getPointer buf (getRoot buf) field) = pairs ∧
      verifyOffsetRequired buf (getRoot buf) field = true ∧
        verifyVector 12 buf (getPointer buf (getRoot buf) field) = true := by
  obtain ⟨hpointer, hrequired⟩ := himage.getReference hpairs hslot hfield le_rfl
  obtain ⟨hsize, hvector⟩ := himage.finished.verifyVectorAt_eq himage.pairsAt himage.aligned
    himage.minalign (StoredAt.length_flatMap fun pair _ => pair.toBytes_length) hpairs
  rw [hpointer]
  refine ⟨?_, hrequired, hvector⟩
  exact AlphaBetaPair.readVector_eq (himage.finished.storedAt himage.pairsAt).1 hsize

/-- The verifier enters the root table. -/
theorem enterRoot (hpairs : pairs.length < maxBufferSize / 12) :
    verifyTableStart buf (getRoot buf) {} = some ⟨1, 1⟩ := by
  rw [himage.getRoot_eq]
  exact himage.finished.verifyTableStart_eq (himage.length_lt hpairs) himage.rootAt (by decide)
    (by decide)

/-- A 64-bit field of the root table. -/
theorem getWord (hpairs : pairs.length < maxBufferSize / 12) {field : Nat} {word : UInt64}
    (hslot : .scalar field 8 word.toNat (word == 0) ∈ rootSlots request pairsVec)
    (hfield : 2 ∣ field) :
    UInt64.ofNat (getField 8 buf (getRoot buf) field 0) = word ∧
      verifyField 8 8 buf (getRoot buf) field = true := by
  have hlength := himage.length_lt hpairs
  -- the width of the slot is known here, before the two sides are compared
  have hverified := himage.finished.verifyField_eq hlength himage.rootAt hslot hfield
  rw [himage.getRoot_eq]
  constructor
  · rw [getInt_eq himage.finished hlength himage.rootAt hslot hfield
      (fun hzero => congrArg UInt64.toNat (beq_iff_eq.mp hzero)) word.toNat_lt, UInt64.ofNat_toNat]
  · exact hverified

end RequestImage

namespace RangePricingRequest

/-- The `add_` calls of the client. -/
def rootSlots (requestHash : UInt64) (request pairsVec : Nat) : List Slot :=
  [.offset 4 request, .scalar 6 8 requestHash.toNat (requestHash == 0), .offset 8 pairsVec]

theorem toBytes_eq (rr : RangePricingRequest) :
    rr.toBytes = requestBytes rr.request rr.pairs (rootSlots rr.requestHash) := by
  unfold toBytes requestBytes
  simp only [PricingParams.build_eq]
  rfl

theorem exists_image (rr : RangePricingRequest) :
    ∃ b root request pairsVec, RequestImage rr.toBytes rr.request rr.pairs
      (rootSlots rr.requestHash) b root request pairsVec := by
  rw [toBytes_eq]
  refine requestBytes_image ?_ (fun _ _ => show [4, 6, 8].Nodup by decide) fun _ _ => le_rfl
  intro request pairsVec start hrequest hpairs slot hslot
  simp only [rootSlots, List.mem_cons, List.not_mem_nil, or_false] at hslot
  rcases hslot with rfl | rfl | rfl
  · exact offset_fits (by decide) hrequest
  · exact scalar_fits (by decide) ⟨3, rfl⟩ (by decide)
  · exact offset_fits (by decide) hpairs

/-- What the C++ client builds is accepted by the server and reads back. -/
theorem toBytes_accepted {rr : RangePricingRequest}
    (hpairs : rr.pairs.length < maxBufferSize / 12) :
    verifyRangePricingRequestBuffer rr.toBytes = true ∧
      ofBytes rr.toBytes = { rr with request := rr.request.unsigned } := by
  obtain ⟨b, root, request, pairsVec, himage⟩ := rr.exists_image
  obtain ⟨hparams, hparamsRequired, hparamsVerify⟩ :=
    himage.getParams hpairs (show Slot.offset 4 request ∈ _ by simp [rootSlots]) (by decide)
  obtain ⟨hword, hwordVerify⟩ := himage.getWord hpairs
    (show Slot.scalar 6 8 rr.requestHash.toNat (rr.requestHash == 0) ∈ _ by simp [rootSlots])
    (by decide)
  obtain ⟨hpairsRead, hpairsRequired, hpairsVerify⟩ :=
    himage.getPairs hpairs (show Slot.offset 8 pairsVec ∈ _ by simp [rootSlots]) (by decide)
  have horder := himage.order
  have hnear := himage.near
  have hlength := himage.finished.length_le
  have hlt := himage.finished.lt_length
  have hpairsVec := himage.pairsAt.length_le
  rw [List.length_append, leBytes_length] at hpairsVec
  constructor
  · have hmin := himage.min_length
    have hroot := himage.finished.verifyOffsetAt_root (by omega) (by omega) (by omega) hmin
    rw [← himage.getRoot_eq] at hroot
    have hnonzero : getRoot rr.toBytes ≠ 0 := by
      rw [himage.getRoot_eq]
      omega
    have hverify : RangePricingRequest.verify rr.toBytes (getRoot rr.toBytes) {} =
        some ⟨0, 2⟩ := by
      refine verifyTable_eq_some.mpr ⟨_, ⟨1, 2⟩, himage.enterRoot hpairs, ?_, rfl⟩
      simp only [hparamsRequired, hparamsVerify, hwordVerify, hpairsRequired, hpairsVerify,
        check_true, Option.bind_eq_bind, Option.bind_some]
    rw [verifyRangePricingRequestBuffer, verifyBuffer, hroot, hverify]
    simp [hmin, hnonzero]
  · rw [ofBytes, hword, hparams, hpairsRead]
    rfl

end RangePricingRequest

namespace BatchPricingRequest

/-- The `add_` calls of `expand_to_batches`. -/
def rootSlots (batchCounterId : UInt64) (request pairsVec : Nat) : List Slot :=
  [.scalar 4 8 batchCounterId.toNat (batchCounterId == 0), .offset 6 request, .offset 8 pairsVec]

theorem toBytes_eq (batch : BatchPricingRequest) :
    batch.toBytes = requestBytes batch.request batch.pairs (rootSlots batch.batchCounterId) := by
  unfold toBytes requestBytes
  simp only [PricingParams.build_eq]
  rfl

theorem exists_image (batch : BatchPricingRequest) :
    ∃ b root request pairsVec, RequestImage batch.toBytes batch.request batch.pairs
      (rootSlots batch.batchCounterId) b root request pairsVec := by
  rw [toBytes_eq]
  refine requestBytes_image ?_ (fun _ _ => show [4, 6, 8].Nodup by decide) fun _ _ => le_rfl
  intro request pairsVec start hrequest hpairs slot hslot
  simp only [rootSlots, List.mem_cons, List.not_mem_nil, or_false] at hslot
  rcases hslot with rfl | rfl | rfl
  · exact scalar_fits (by decide) ⟨3, rfl⟩ (by decide)
  · exact offset_fits (by decide) hrequest
  · exact offset_fits (by decide) hpairs

/-- What `expand_to_batches` builds is accepted by the workers and reads back. -/
theorem toBytes_accepted {batch : BatchPricingRequest}
    (hpairs : batch.pairs.length < maxBufferSize / 12) :
    verifyBytes batch.toBytes = true ∧
      ofBytes batch.toBytes = { batch with request := batch.request.unsigned } ∧
        batch.toBytes.length ≤ 12 * batch.pairs.length + 500 := by
  obtain ⟨b, root, request, pairsVec, himage⟩ := batch.exists_image
  obtain ⟨hparams, hparamsRequired, hparamsVerify⟩ :=
    himage.getParams hpairs (show Slot.offset 6 request ∈ _ by simp [rootSlots]) (by decide)
  obtain ⟨hword, hwordVerify⟩ := himage.getWord hpairs
    (show Slot.scalar 4 8 batch.batchCounterId.toNat (batch.batchCounterId == 0) ∈ _ by
      simp [rootSlots]) (by decide)
  obtain ⟨hpairsRead, hpairsRequired, hpairsVerify⟩ :=
    himage.getPairs hpairs (show Slot.offset 8 pairsVec ∈ _ by simp [rootSlots]) (by decide)
  refine ⟨?_, ?_, himage.length_le⟩
  · have hverify : BatchPricingRequest.verify batch.toBytes (getRoot batch.toBytes) {} =
        some ⟨0, 2⟩ := by
      refine verifyTable_eq_some.mpr ⟨_, ⟨1, 2⟩, himage.enterRoot hpairs, ?_, rfl⟩
      simp only [hparamsRequired, hparamsVerify, hwordVerify, hpairsRequired, hpairsVerify,
        check_true, Option.bind_eq_bind, Option.bind_some]
    rw [verifyBytes, hverify]
    rfl
  · rw [ofBytes, hword, hparams, hpairsRead]
    rfl

end BatchPricingRequest

end RangePricer
