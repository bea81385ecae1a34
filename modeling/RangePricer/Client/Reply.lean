import RangePricer.Client.Grid
import RangePricer.Server.Wire

/-!
# What a client reads in a reply

The C++ client verifies the reply before it reads it, the Python client reads it
without verifying.  On every buffer that verifies the two readers see the same
results; for a grid of a client these are the grid points in order, unless there
are more of them than the verifier counts tables.
-/

namespace RangePricer

open FlatBuffers Transition Transition.System

/-! ## The two readers -/

/-- The C++ client: `none` is the branch that reports an invalid response. -/
def clientResults (buf : Bytes) : Option (List PricingResponse) :=
  if admits RangePricingResponse.verifyBytes buf then
    some ((RangePricingResponse.ofBytes buf).results.getD [])
  else none

/-- The operations of the Python `flatbuffers` package that the generated classes
read with; `pos` is the `Pos` of a `Table`. -/
structure PyTable where
  getUOffset : Bytes → (head : Nat) → Nat
  offset : Bytes → (pos vtableOffset : Nat) → Nat
  indirect : Bytes → (off : Nat) → Nat
  vector : Bytes → (pos off : Nat) → Nat
  vectorLen : Bytes → (pos off : Nat) → Nat
  getUint32 : Bytes → (off : Nat) → UInt32
  getUint64 : Bytes → (off : Nat) → UInt64
  getFloat32 : Bytes → (off : Nat) → Binary32

namespace PyTable

/-- What the documentation of the package says of reads inside the buffer. -/
structure Documented (tab : PyTable) : Prop where
  getUOffset : ∀ buf head, head + 4 ≤ buf.length →
    tab.getUOffset buf head = readScalar 4 buf head
  /-- The entry of the vtable, zero beyond its length. -/
  offset : ∀ buf pos field counters entered,
    verifyTableStart buf pos counters = some entered →
      tab.offset buf pos field = getOptionalFieldOffset buf pos field
  /-- The relative offset stored at `off`. -/
  indirect : ∀ buf off, off + 4 ≤ buf.length →
    tab.indirect buf off = off + readScalar 4 buf off
  /-- The start of the data of the vector whose offset is stored at `off`. -/
  vector : ∀ buf pos off, pos + off + 4 ≤ buf.length →
    tab.vector buf pos off = pos + off + readScalar 4 buf (pos + off) + 4
  /-- The length of that vector. -/
  vectorLen : ∀ buf pos off, pos + off + 4 ≤ buf.length →
    pos + off + readScalar 4 buf (pos + off) + 4 ≤ buf.length →
      tab.vectorLen buf pos off =
        readScalar 4 buf (pos + off + readScalar 4 buf (pos + off))
  getUint32 : ∀ buf off, off + 4 ≤ buf.length →
    tab.getUint32 buf off = UInt32.ofNat (readScalar 4 buf off)
  getUint64 : ∀ buf off, off + 8 ≤ buf.length →
    tab.getUint64 buf off = UInt64.ofNat (readScalar 8 buf off)
  getFloat32 : ∀ buf off, off + 4 ≤ buf.length →
    tab.getFloat32 buf off = ⟨UInt32.ofNat (readScalar 4 buf off)⟩

variable (tab : PyTable) (buf : Bytes)

/-- A generated scalar accessor: `Get` at the field, or its default. -/
def field {α : Type} (get : Bytes → Nat → α) (pos vtableOffset : Nat) (default : α) : α :=
  let o := tab.offset buf pos vtableOffset
  if o ≠ 0 then get buf (o + pos) else default

/-- The accessors of `PricingResponse`. -/
def pricingResponse (pos : Nat) : PricingResponse where
  idx := tab.field buf tab.getUint32 pos 4 0
  alpha := tab.field buf tab.getFloat32 pos 6 Binary32.zero
  beta := tab.field buf tab.getFloat32 pos 8 Binary32.zero
  price := tab.field buf tab.getFloat32 pos 10 Binary32.zero
  hedgeRatio := tab.field buf tab.getFloat32 pos 12 Binary32.zero

/-- `ResultsLength`. -/
def resultsLength (pos : Nat) : Nat :=
  let o := tab.offset buf pos 6
  if o ≠ 0 then tab.vectorLen buf pos o else 0

/-- `Results(j)`, for a vector that is present. -/
def results (pos j : Nat) : PricingResponse :=
  let o := tab.offset buf pos 6
  tab.pricingResponse buf (tab.indirect buf (tab.vector buf pos o + j * 4))

/-- `read_response`. -/
def readResponse : UInt64 × List PricingResponse :=
  let pos := tab.getUOffset buf 0
  (tab.field buf tab.getUint64 pos 4 0,
    (List.range (tab.resultsLength buf pos)).map (tab.results buf pos))

end PyTable

/-! ## They agree on what verifies -/

section

variable {tab : PyTable} {buf : Bytes} {pos : Nat} {counters entered : Counters}

theorem length_of_verifyScalar {width elem : Nat}
    (hscalar : verifyScalar width buf elem = true) : elem + width ≤ buf.length := by
  simp only [verifyScalar, verifyRange, Bool.and_eq_true, decide_eq_true_eq] at hscalar
  omega

theorem PyTable.Documented.field_eq (htab : tab.Documented)
    (hstart : verifyTableStart buf pos counters = some entered) {field width : Nat}
    (hverify : verifyField width width buf pos field = true) {α : Type}
    {get : Bytes → Nat → α} {decode : Nat → α}
    (hget : ∀ off, off + width ≤ buf.length → get buf off = decode (readScalar width buf off)) :
    tab.field buf get pos field (decode 0) = decode (getField width buf pos field 0) := by
  simp only [PyTable.field, getField, htab.offset buf pos field counters entered hstart]
  simp only [verifyField, Bool.or_eq_true, beq_iff_eq, Bool.and_eq_true, verifyRange,
    decide_eq_true_eq] at hverify
  by_cases hnone : getOptionalFieldOffset buf pos field = 0
  · rw [if_neg (not_not.mpr hnone), if_pos hnone]
  · have hrange := hverify.resolve_left hnone
    rw [if_pos hnone, if_neg hnone, Nat.add_comm]
    exact hget _ (by omega)

/-- The accessors of one verified result. -/
theorem PyTable.Documented.pricingResponse_eq (htab : tab.Documented) {passed : Counters}
    (hpassed : PricingResponse.verify buf pos counters = some passed) :
    tab.pricingResponse buf pos = PricingResponse.read buf pos := by
  obtain ⟨entered, left, hstart, hfields, -⟩ := verifyTable_eq_some.mp hpassed
  simp only [Option.bind_eq_bind, check_bind_eq_some] at hfields
  obtain ⟨hidx, halpha, hbeta, hprice, hhedge⟩ := hfields
  obtain ⟨hhedge, -⟩ := check_eq_some.mp hhedge
  have hword := @PyTable.Documented.field_eq tab buf pos _ _ htab hstart 4 4 hidx _
    tab.getUint32 UInt32.ofNat (htab.getUint32 buf)
  have hfloat (field : Nat) (hverify : verifyField 4 4 buf pos field = true) :
      tab.field buf tab.getFloat32 pos field Binary32.zero = getFloat buf pos field :=
    @PyTable.Documented.field_eq tab buf pos _ _ htab hstart field 4 hverify _
      tab.getFloat32 (fun bits => ⟨UInt32.ofNat bits⟩) (htab.getFloat32 buf)
  rw [PyTable.pricingResponse, PricingResponse.read, hfloat 6 halpha, hfloat 8 hbeta,
    hfloat 10 hprice, hfloat 12 hhedge]
  exact congrArg (fun idx => PricingResponse.mk idx _ _ _ _) hword

/-- On a response that verifies the two clients read the same. -/
theorem PyTable.Documented.readResponse_eq (htab : tab.Documented)
    (hverify : RangePricingResponse.verifyBytes buf = true) :
    tab.readResponse buf = ((RangePricingResponse.ofBytes buf).requestHash,
      (RangePricingResponse.ofBytes buf).results.getD []) := by
  obtain ⟨passed, hpassed⟩ := Option.isSome_iff_exists.mp hverify
  obtain ⟨entered, left, hstart, hfields, -⟩ := verifyTable_eq_some.mp hpassed
  simp only [Option.bind_eq_bind, check_bind_eq_some] at hfields
  obtain ⟨hword, hoffset, hvector, helements⟩ := hfields
  obtain ⟨_, hscalar, -⟩ := Option.bind_eq_some_iff.mp hstart
  have hbuf := length_of_verifyScalar (check_eq_some.mp hscalar).1
  have hroot : tab.getUOffset buf 0 = getRoot buf := htab.getUOffset buf 0 (by omega)
  have hhash := @PyTable.Documented.field_eq tab buf _ _ _ htab hstart 4 8 hword _
    tab.getUint64 UInt64.ofNat (htab.getUint64 buf)
  have hlookup := htab.offset buf (getRoot buf) 6 _ _ hstart
  simp only [PyTable.readResponse, hroot, RangePricingResponse.ofBytes]
  apply Prod.ext hhash
  by_cases hnone : getOptionalFieldOffset buf (getRoot buf) 6 = 0
  · simp [PyTable.resultsLength, hlookup, hnone, getPointer]
  · have hpointer : getPointer buf (getRoot buf) 6 =
        some (getRoot buf + getOptionalFieldOffset buf (getRoot buf) 6 +
          readScalar 4 buf (getRoot buf + getOptionalFieldOffset buf (getRoot buf) 6)) :=
      if_neg hnone
    have hfield : getRoot buf + getOptionalFieldOffset buf (getRoot buf) 6 + 4 ≤ buf.length := by
      simp only [verifyOffset, Bool.or_eq_true, beq_iff_eq, bne_iff_ne] at hoffset
      have hsome := hoffset.resolve_left hnone
      unfold verifyOffsetAt at hsome
      split at hsome
      · next hinside => exact length_of_verifyScalar hinside
      · exact absurd rfl hsome
    have hvec := htab.vector buf _ _ hfield
    have hlen := htab.vectorLen buf _ _ hfield
    rw [hpointer] at hvector helements ⊢
    generalize getRoot buf + getOptionalFieldOffset buf (getRoot buf) 6 +
      readScalar 4 buf (getRoot buf + getOptionalFieldOffset buf (getRoot buf) 6) = vec at *
    simp only [verifyVector, Option.all_some, verifyVectorAt, Bool.and_eq_true,
      decide_eq_true_eq] at hvector
    obtain ⟨⟨hin, -⟩, hrange⟩ := hvector
    have hcount : tab.resultsLength buf (getRoot buf) = vectorSize buf vec := by
      simp only [PyTable.resultsLength, hlookup, if_pos hnone]
      exact hlen (length_of_verifyScalar hin)
    rw [hcount, Option.map_some, Option.getD_some, PricingResponse.readVector]
    apply List.map_congr_left
    intro j hj
    have hj := List.mem_range.mp hj
    obtain ⟨before, after, helement⟩ := exists_verified_element helements hj
    rw [Nat.zero_add] at helement
    have haddress : tab.indirect buf (vec + 4 + j * 4) = tableElement buf vec j := by
      apply htab.indirect buf _
      simp only [verifyRange, Bool.and_eq_true, decide_eq_true_eq] at hrange
      rw [vectorSize] at hj
      omega
    simp only [PyTable.results, hlookup, hvec, haddress]
    exact htab.pricingResponse_eq helement

end

/-! ## The grid comes back -/

/-- Result `k` carries `idx` `k` and the alpha and beta of its grid point. -/
structure IsGridReply (alphas betas : List Binary32) (results : List PricingResponse) : Prop where
  length_eq : results.length = alphas.length * betas.length
  result_eq : ∀ k, (hk : k < results.length) → results[k].idx.toNat = k ∧
    ∃ alpha beta, alphas[k / betas.length]? = some alpha ∧
      betas[k % betas.length]? = some beta ∧
        results[k].alpha.Agrees alpha ∧ results[k].beta.Agrees beta

/-- Both encoders store the grid, and every reply to a priced grid, from any run,
shows it again to both readers. -/
structure GridRoundTrip {B : Type} (env : Env) (py : PyBuilder B) (tab : PyTable)
    (alphas betas : List Binary32) : Prop where
  clientPairs : ∀ S K r T ds requestHash, IsGrid alphas betas (RangePricingRequest.ofBytes
    (clientRequest S K r T ds requestHash alphas betas).toBytes).pairs
  pyPairs : ∀ front : Bytes, IsGrid alphas betas (AlphaBetaPair.readVector
    (front ++ py.bytes (py.buildPairs alphas betas)) (some front.length))
  replies : ∀ msg, verifyRangePricingRequestBuffer msg = true →
    (RangePricingRequest.ofBytes msg).request.accepted = true →
      IsGrid alphas betas (RangePricingRequest.ofBytes msg).pairs →
        ∀ threads dispatchHwm resultsHwm reply, 1 ≤ threads → 1 ≤ dispatchHwm →
          1 ≤ resultsHwm → Sent (env.withPipes threads dispatchHwm resultsHwm) msg reply →
            (∃ results, clientResults reply.toBytes = some results ∧
              IsGridReply alphas betas results) ∧
                IsGridReply alphas betas (tab.readResponse reply.toBytes).2

section

variable {env : Env} {alphas betas : List Binary32}

/-- What the C++ client gets from a reply. -/
theorem clientResults_toBytes {reply : RangePricingResponse} {results : List PricingResponse}
    (hresults : reply.results = some results) :
    clientResults reply.toBytes =
      if results.length < maxTables then some (results.map PricingResponse.unsigned) else none := by
  have hadmits := reply_admitted hresults
  rw [clientResults, hadmits]
  by_cases hfew : results.length < maxTables
  · rw [decide_eq_true hfew] at hadmits
    have hverifies : reply.verifies = true := by
      rw [← RangePricingResponse.toBytes_admitted, hadmits]
    rw [RangePricingResponse.ofBytes_toBytes hverifies, hresults, if_pos hfew]
    simp [hfew]
  · simp [hfew]

/-- Results for the pairs of a grid, in their order, are the grid. -/
theorem isGridReply_of_pairs {pairs : List AlphaBetaPair} {results : List PricingResponse}
    (hgrid : IsGrid alphas betas pairs)
    (hpairs : results.map (·.pair) = pairs.map (·.unsigned)) :
    IsGridReply alphas betas (results.map PricingResponse.unsigned) := by
  have hlength := congrArg List.length hpairs
  rw [List.length_map, List.length_map] at hlength
  refine ⟨by rw [List.length_map, hlength, hgrid.length_eq], fun k hk => ?_⟩
  rw [List.length_map] at hk
  have hk' : k < pairs.length := hlength ▸ hk
  obtain ⟨hidx, halpha, hbeta⟩ := hgrid.pair_eq k hk'
  have hpair : results[k].pair = pairs[k].unsigned := by
    have hget := congrArg (fun list : List AlphaBetaPair => list[k]?) hpairs
    simpa [hk, hk'] using hget
  rw [List.getElem_map]
  refine ⟨?_, pairs[k].alpha, pairs[k].beta, halpha, hbeta, ?_, ?_⟩
  · have hsame : results[k].idx = pairs[k].idx := congrArg AlphaBetaPair.idx hpair
    rw [← hsame] at hidx
    exact hidx
  · exact (Binary32.unsignedZero_agrees _).trans (congrArg AlphaBetaPair.alpha hpair)
  · exact (Binary32.unsignedZero_agrees _).trans (congrArg AlphaBetaPair.beta hpair)

/-- The pairs of a grid are sorted, so the results come back in their order. -/
theorem Sent.pairs_eq {msg : Bytes} {reply : RangePricingResponse}
    {threads dispatchHwm resultsHwm : Nat}
    (hmsg : verifyRangePricingRequestBuffer msg = true) (hlanes : 1 ≤ env.simdLanes)
    (hsum : ((RangePricingRequest.ofBytes msg).pairs.length : Int) + env.simdLanes - 1 ≤ intMax)
    (haccepted : (RangePricingRequest.ofBytes msg).request.accepted = true)
    (hgrid : IsGrid alphas betas (RangePricingRequest.ofBytes msg).pairs)
    (hfew : (RangePricingRequest.ofBytes msg).pairs.length < maxTables)
    (hsent : Sent (env.withPipes threads dispatchHwm resultsHwm) msg reply) :
    ∃ results, reply.results = some results ∧ results.length < maxTables ∧
      results.map (·.pair) = (RangePricingRequest.ofBytes msg).pairs.map (·.unsigned) := by
  obtain ⟨results, hreply, hperm, hsorted⟩ := hsent.exists_results hmsg
  have hcomplete := hperm.map (·.pair)
  rw [contributions_accepted hmsg haccepted (by omega), flatMap_requestBatches msg hlanes hsum]
    at hcomplete
  have hlength := hcomplete.length_eq
  rw [List.length_map, List.length_map] at hlength
  have hincreasing : (RangePricingRequest.ofBytes msg).pairs.Pairwise
      (fun p q => p.idx < q.idx) := by
    apply List.pairwise_iff_getElem.mpr
    intro i j hi hj hij
    rw [UInt32.lt_iff_toNat_lt, (hgrid.pair_eq i hi).1, (hgrid.pair_eq j hj).1]
    exact hij
  refine ⟨results, by rw [hreply], by omega, eq_of_perm_sorted hcomplete ?_ ?_ ?_⟩
  · exact List.pairwise_map.mpr hsorted
  · exact List.pairwise_map.mpr (hincreasing.imp fun hlt => UInt32.le_of_lt hlt)
  · rw [(hcomplete.map _).nodup_iff, map_idx_unsigned]
    exact List.pairwise_map.mpr (hincreasing.imp fun hlt => UInt32.ne_of_lt hlt)

/-- The C++ client's own request carries the grid and is verified. -/
theorem clientRequest_received {S K r T ds : Binary32} {requestHash : UInt64}
    (hfits : alphas.length * betas.length < maxBufferSize / 12) :
    verifyRangePricingRequestBuffer (clientRequest S K r T ds requestHash alphas betas).toBytes =
        true ∧
      IsGrid alphas betas (RangePricingRequest.ofBytes
        (clientRequest S K r T ds requestHash alphas betas).toBytes).pairs ∧
      (RangePricingRequest.ofBytes
        (clientRequest S K r T ds requestHash alphas betas).toBytes).request.accepted =
          (!T.leZero && !ds.leZero) := by
  have hgrid := @gridPairs_isGrid alphas betas (hfits.trans (by decide))
  obtain ⟨hverify, hread⟩ := @RangePricingRequest.toBytes_accepted
    (clientRequest S K r T ds requestHash alphas betas)
    (by rw [clientRequest, hgrid.length_eq]; exact hfits)
  rw [hread]
  exact ⟨hverify, hgrid, PricingParams.unsigned_accepted _⟩

/-- Some request of the C++ client for the grid is priced. -/
theorem exists_priced_request (hfits : alphas.length * betas.length < maxBufferSize / 12) :
    ∃ msg, verifyRangePricingRequestBuffer msg = true ∧
      (RangePricingRequest.ofBytes msg).request.accepted = true ∧
        IsGrid alphas betas (RangePricingRequest.ofBytes msg).pairs := by
  obtain ⟨hverify, hgrid, haccepted⟩ :=
    @clientRequest_received alphas betas ⟨0x42c80000⟩ ⟨0x42c80000⟩ ⟨0x3d8f5c29⟩ ⟨0x3f800000⟩
      ⟨0x3c23d70a⟩ 0 hfits
  exact ⟨_, hverify, haccepted.trans (by decide), hgrid⟩

/-- A grid with more points than tables does not come back to the C++ client. -/
theorem not_gridRoundTrip_of_large {B : Type} {py : PyBuilder B} {tab : PyTable}
    (hlanes : 1 ≤ env.simdLanes) (hfits : alphas.length * betas.length < maxBufferSize / 12)
    (hlarge : maxTables ≤ alphas.length * betas.length)
    (hsum : ((alphas.length * betas.length : Nat) : Int) + env.simdLanes - 1 ≤ intMax) :
    ¬ GridRoundTrip env py tab alphas betas := by
  intro htrip
  obtain ⟨msg, hverify, haccepted, hgrid⟩ := exists_priced_request hfits
  obtain ⟨room, hroom, reply, hsent⟩ := exists_sent_withPipes hverify
    (expandToBatches_fits hlanes (by rw [hgrid.length_eq]; exact hsum))
  obtain ⟨results, hreply, -⟩ := hsent.exists_results hverify
  obtain ⟨⟨shown, hshown, hcomplete⟩, -⟩ :=
    htrip.replies msg hverify haccepted hgrid 1 room 1 reply le_rfl hroom le_rfl hsent
  rw [clientResults_toBytes (congrArg RangePricingResponse.results hreply)] at hshown
  split at hshown
  · next hfew =>
      obtain rfl := Option.some.inj hshown
      have hlength := hcomplete.length_eq
      rw [List.length_map] at hlength
      omega
  · cases hshown

/-- A grid whose chunks are counted as none comes back empty. -/
theorem not_gridRoundTrip_of_wrapped {B : Type} {py : PyBuilder B} {tab : PyTable}
    (hfits : alphas.length * betas.length < maxBufferSize / 12)
    (hsum : intMax < ((alphas.length * betas.length : Nat) : Int) + env.simdLanes - 1)
    (hwide : 2 ^ 32 + 1 < ((alphas.length * betas.length : Nat) : Int) + 2 * env.simdLanes) :
    ¬ GridRoundTrip env py tab alphas betas := by
  intro htrip
  obtain ⟨msg, hverify, haccepted, hgrid⟩ := exists_priced_request hfits
  rw [← hgrid.length_eq] at hsum hwide
  have hexpand : expandToBatches (RangePricingRequest.ofBytes msg) env.simdLanes = .ok [] := by
    rw [expandToBatches_wrapped (verified_pairs_lt_int hverify) env.simdLanes_int.2 hsum,
      if_neg (Int.not_le.mpr hwide)]
  obtain ⟨room, hroom, reply, hsent⟩ := exists_sent_withPipes hverify hexpand
  obtain ⟨results, hreply, hperm, -⟩ := hsent.exists_results hverify
  have hnone : requestBatches env msg = [] := slicedBatches_wrapped hsum
  rw [hnone] at hperm
  obtain rfl := hperm.eq_nil
  obtain ⟨⟨shown, hshown, hcomplete⟩, -⟩ :=
    htrip.replies msg hverify haccepted hgrid 1 room 1 reply le_rfl hroom le_rfl hsent
  rw [clientResults_toBytes (congrArg RangePricingResponse.results hreply),
    if_pos (by decide)] at hshown
  obtain rfl := Option.some.inj hshown
  have hlength := hcomplete.length_eq
  rw [← hgrid.length_eq, List.map_nil, List.length_nil] at hlength
  have hint := env.simdLanes_int.2
  omega

/-- An answered request was sliced in range, if a wrapped count would be negative. -/
theorem Sent.inRange {msg : Bytes} {reply : RangePricingResponse}
    {threads dispatchHwm resultsHwm : Nat}
    (hmsg : verifyRangePricingRequestBuffer msg = true)
    (hsent : Sent (env.withPipes threads dispatchHwm resultsHwm) msg reply)
    (hcondition : ((RangePricingRequest.ofBytes msg).pairs.length : Int) + env.simdLanes - 1 ≤
        intMax ∨
      ((RangePricingRequest.ofBytes msg).pairs.length : Int) + 2 * env.simdLanes ≤ 2 ^ 32 + 1) :
    ((RangePricingRequest.ofBytes msg).pairs.length : Int) + env.simdLanes - 1 ≤ intMax := by
  by_contra hwraps
  have hnegative := hcondition.resolve_left hwraps
  have herror : expandToBatches (RangePricingRequest.ofBytes msg) env.simdLanes =
      .error .lengthError := by
    rw [expandToBatches_wrapped (verified_pairs_lt_int hmsg) env.simdLanes_int.2
      (Int.not_le.mp hwraps), if_pos hnegative]
  cases hsent.answers with
  | malformed hbad _ =>
      rw [hmsg] at hbad
      cases hbad
  | served _ hgathered =>
      obtain ⟨batches, -, hexpand, -⟩ := hgathered.exists_order
      cases herror.symm.trans hexpand

end

/-- A grid makes the round trip through both clients exactly if its chunks are
counted and it has fewer points than the verifier counts tables, or the count of
its chunks wraps to a negative number, so that no reply is sent. -/
theorem grid_roundtrip_iff {B : Type} (env : Env) (py : PyBuilder B) (tab : PyTable)
    (hpy : py.Documented) (htab : tab.Documented) (alphas betas : List Binary32)
    (hlanes : 1 ≤ env.simdLanes) (hfits : alphas.length * betas.length < maxBufferSize / 12) :
    GridRoundTrip env py tab alphas betas ↔
      (alphas.length * betas.length < maxTables ∧
          ((alphas.length * betas.length : Nat) : Int) + env.simdLanes - 1 ≤ intMax) ∨
        (intMax < ((alphas.length * betas.length : Nat) : Int) + env.simdLanes - 1 ∧
          ((alphas.length * betas.length : Nat) : Int) + 2 * env.simdLanes ≤ 2 ^ 32 + 1) := by
  constructor
  · intro htrip
    rcases Int.lt_or_le intMax (((alphas.length * betas.length : Nat) : Int) + env.simdLanes - 1)
      with hwraps | hsum
    · refine .inr ⟨hwraps, Int.not_lt.mp fun hwide => ?_⟩
      exact not_gridRoundTrip_of_wrapped hfits hwraps hwide htrip
    · refine .inl ⟨Nat.not_le.mp fun hlarge => ?_, hsum⟩
      exact not_gridRoundTrip_of_large hlanes hfits hlarge hsum htrip
  · intro hcondition
    refine ⟨fun S K r T ds requestHash => (clientRequest_received hfits).2.1,
      fun front => hpy.buildPairs (hfits.trans (by decide)) front,
      fun msg hmsg haccepted hgrid threads dispatchHwm resultsHwm reply _ _ _ hsent => ?_⟩
    rw [← hgrid.length_eq] at hcondition
    have hsum := hsent.inRange hmsg (hcondition.imp (·.2) (·.2))
    have hfew := (hcondition.resolve_right fun hwraps => not_le.mpr hwraps.1 hsum).1
    obtain ⟨results, hresults, hshort, hpairs⟩ :=
      hsent.pairs_eq hmsg hlanes hsum haccepted hgrid hfew
    have hreply := isGridReply_of_pairs hgrid hpairs
    have hadmits : admits RangePricingResponse.verifyBytes reply.toBytes = true := by
      rw [reply_admitted hresults, decide_eq_true hshort]
    have hverifies : reply.verifies = true := by
      rw [← RangePricingResponse.toBytes_admitted, hadmits]
    refine ⟨⟨_, ?_, hreply⟩, ?_⟩
    · rw [clientResults_toBytes hresults, if_pos hshort]
    · rw [admits, Bool.and_eq_true] at hadmits
      rw [htab.readResponse_eq hadmits.2, RangePricingResponse.ofBytes_toBytes hverifies, hresults]
      exact hreply

/-- Reads as the package performs them. -/
def PyTable.sample : PyTable where
  getUOffset buf head := readScalar 4 buf head
  offset buf pos field := getOptionalFieldOffset buf pos field
  indirect buf off := off + readScalar 4 buf off
  vector buf pos off := pos + off + readScalar 4 buf (pos + off) + 4
  vectorLen buf pos off := readScalar 4 buf (pos + off + readScalar 4 buf (pos + off))
  getUint32 buf off := UInt32.ofNat (readScalar 4 buf off)
  getUint64 buf off := UInt64.ofNat (readScalar 8 buf off)
  getFloat32 buf off := ⟨UInt32.ofNat (readScalar 4 buf off)⟩

theorem PyTable.sample_documented : PyTable.sample.Documented where
  getUOffset _ _ _ := rfl
  offset _ _ _ _ _ _ := rfl
  indirect _ _ _ := rfl
  vector _ _ _ _ := rfl
  vectorLen _ _ _ _ _ := rfl
  getUint32 _ _ _ := rfl
  getUint64 _ _ _ := rfl
  getFloat32 _ _ _ := rfl

theorem grid_roundtrip_sample :
    GridRoundTrip Env.sample PyBuilder.sample PyTable.sample [⟨0x3f800000⟩, ⟨0x40000000⟩]
      [⟨0x3f800000⟩, ⟨0x40000000⟩, ⟨0x40400000⟩] :=
  (grid_roundtrip_iff Env.sample PyBuilder.sample PyTable.sample PyBuilder.sample_documented
    PyTable.sample_documented _ _ (by decide) (by decide)).mpr (.inl ⟨by decide, by decide⟩)

/-- The float of a natural number below `2 ^ 24`. -/
def wholeFloat (n : Nat) : Binary32 :=
  if n = 0 then Binary32.zero
  else ⟨UInt32.ofNat ((n.log2 + 127) * 2 ^ 23 + (n - 2 ^ n.log2) * 2 ^ (23 - n.log2))⟩

/-- `grid_values(0, 999, 1)`. -/
def sampleAxis : List Binary32 := (List.range 1000).map wholeFloat

/-- A grid of a thousand by a thousand points is refused by the C++ client. -/
theorem not_grid_roundtrip :
    ¬ ∀ (env : Env) (alphas betas : List Binary32), 1 ≤ env.simdLanes →
      alphas.length * betas.length < maxBufferSize / 12 →
        GridRoundTrip env PyBuilder.sample PyTable.sample alphas betas := by
  intro htrip
  have hlength : sampleAxis.length = 1000 := by rw [sampleAxis, List.length_map, List.length_range]
  refine @not_gridRoundTrip_of_large Env.sample sampleAxis sampleAxis _ PyBuilder.sample
    PyTable.sample (by decide) ?_ ?_ ?_ (htrip Env.sample sampleAxis sampleAxis (by decide) ?_)
  all_goals
    rw [hlength]
    decide

end RangePricer
