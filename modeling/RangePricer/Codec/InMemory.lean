import RangePricer.Codec.Responses
import RangePricer.FlatBuffers.MemoryBuffers

/-!
# The messages in memory

What the program sends, built by the calls it makes on a builder that works in
memory.  The result is the message as the plain builder has it, whatever the
allocator hands out and however often the buffer has to grow.
-/

namespace RangePricer

open FlatBuffers Transition

/-! ## Requests and batches -/

/-- The calls of the C++ client and of `expand_to_batches`; `Finish` of the root table
requires both of its references. -/
def requestIn (c : FlatBufferBuilder) (params : PricingParams) (pairs : List AlphaBetaPair)
    (rootSlots : Nat → Nat → List Builder.Slot) (requestField : Nat) : Building Bytes := do
  let (c, pairsVec) ← c.createVectorOfStructs 12 4 (pairs.map AlphaBetaPair.toBytes)
  let (c, request) ← c.buildTable params.slots
  let (c, root) ← c.buildTable (rootSlots request pairsVec)
  c.required root requestField
  c.required root 8
  let c ← c.finish root
  c.finishedBytes

theorem requestIn_eq {c : FlatBufferBuilder} {params : PricingParams}
    {pairs : List AlphaBetaPair} {rootSlots : Nat → Nat → List Builder.Slot} {requestField : Nat}
    (hready : Ready c {})
    (hfits : ∀ request pairsVec start, request ≤ start → pairsVec ≤ start →
      ∀ slot ∈ rootSlots request pairsVec, slot.Fits start)
    (hnodup : ∀ request pairsVec, ((rootSlots request pairsVec).map (·.field)).Nodup)
    (hfew : ∀ request pairsVec, (rootSlots request pairsVec).length ≤ 3)
    (heven : 2 ∣ requestField)
    (hrequest : ∀ request pairsVec,
      Builder.Slot.offset requestField request ∈ rootSlots request pairsVec)
    (hpairs : ∀ request pairsVec, Builder.Slot.offset 8 pairsVec ∈ rootSlots request pairsVec)
    (hshort : (requestBytes params pairs rootSlots).length + 336 < maxBufferSize) :
    requestIn c params pairs rootSlots requestField =
      .ok (requestBytes params pairs rootSlots) := by
  have hmax : maxBufferSize < 2 ^ 31 := by decide
  have helems : ∀ elem ∈ pairs.map AlphaBetaPair.toBytes, elem.length = 12 := by
    intro elem helem
    obtain ⟨pair, -, rfl⟩ := List.mem_map.mp helem
    exact pair.toBytes_length
  have hlays := Builder.createVectorOfStructs_lays hready.wellFormed helems
  have hbytes : requestBytes params pairs rootSlots =
      let laid := Builder.createVectorOfStructs {} 12 4 (pairs.map AlphaBetaPair.toBytes)
      let built := laid.1.buildTable params.slots
      let rooted := built.1.buildTable (rootSlots built.2 laid.2)
      rooted.1.finish rooted.2 := rfl
  have hcreate := @Ready.createVectorOfStructs c {} 12 _ hready helems
  rw [hbytes] at hshort ⊢
  unfold requestIn
  generalize Builder.createVectorOfStructs {} 12 4 (pairs.map AlphaBetaPair.toBytes) = laid
    at hlays hshort hcreate ⊢
  dsimp only at hshort ⊢
  have hclosed := hlays.pads.closed hready.closed
  have hwf := hlays.pads.wellFormed hready.wellFormed
  have hvec := hlays.vec_eq
  have hvecPos := hlays.storedAt.length_le
  rw [List.length_append, leBytes_length] at hvecPos
  have hsix : params.slots.length ≤ 16 := show 6 ≤ 16 by decide
  have hdistinct : (params.slots.map (·.field)).Nodup := show [4, 6, 8, 10, 12, 14].Nodup by decide
  have hparams := Builder.buildTable_builds hclosed hwf (params.slots_fit laid.1.size) hdistinct
    (Nat.zero_le _) hsix
  have hbuild := fun d (hd : Ready d laid.1) => hd.buildTable (params.slots_fit laid.1.size)
    hdistinct hsix
  generalize laid.1.buildTable params.slots = built at hparams hshort hbuild ⊢
  have hgrown := hparams.grows.size_le
  have hleRequest := hparams.table_le
  have hfits' := hfits built.2 laid.2 built.1.size hleRequest (by omega)
  have hfew' : (rootSlots built.2 laid.2).length ≤ 16 := (hfew _ _).trans (by decide)
  have hroot := Builder.buildTable_builds hparams.closed hparams.wellFormed hfits'
    (hnodup built.2 laid.2) (Nat.zero_le _) hfew'
  have hbuildRoot := fun d (hd : Ready d built.1) => hd.buildTable hfits' (hnodup built.2 laid.2)
    hfew'
  generalize built.1.buildTable (rootSlots built.2 laid.2) = rooted at hroot hshort hbuildRoot ⊢
  have hgrownRoot := hroot.grows.size_le
  have hlast := Builder.size_le_finish hroot.wellFormed rooted.2
  have hltRoot := hroot.lt_table
  have hltRequest := hparams.lt_table
  apply Succeeds.eq_ok
  refine (hcreate (by omega)).bind ?_
  rintro ⟨d, vec⟩ ⟨hd, hvec'⟩
  obtain rfl : vec = laid.2 := hvec'
  refine (hbuild d hd (by omega)).bind ?_
  rintro ⟨e, request⟩ ⟨he, hrequest'⟩
  obtain rfl : request = built.2 := hrequest'
  refine (hbuildRoot e he (by omega)).bind ?_
  rintro ⟨f, root⟩ ⟨hf, hroot'⟩
  obtain rfl : root = rooted.2 := hroot'
  have hrootAt := hroot.tableAt (by omega)
  have hfirst := hf.required hrootAt (hrequest built.2 laid.2) (by omega) heven
  have hsecond := hf.required hrootAt (hpairs built.2 laid.2) (by omega) (by decide)
  refine Succeeds.bind_ok hfirst (Succeeds.bind_ok hsecond ?_)
  exact ⟨_, hf.finish ⟨by omega, hroot.table_le⟩ (by omega), rfl⟩

/-! ## Responses -/

def PricingResponse.buildAllIn :
    List PricingResponse → FlatBufferBuilder → Building (FlatBufferBuilder × List Nat)
  | [], c => .ok (c, [])
  | response :: rest, c => do
      let (c, offset) ← c.buildTable response.slots
      let (c, offsets) ← buildAllIn rest c
      return (c, offset :: offsets)

/-- The root table of a response, and the finished buffer. -/
def finishResponse (c : FlatBufferBuilder) (word : UInt64) (resultsVec : Nat) :
    Building Bytes := do
  let (c, root) ← c.buildTable (responseSlots word resultsVec)
  let c ← c.finish root
  c.finishedBytes

def responseIn (c : FlatBufferBuilder) (word : UInt64) :
    Option (List PricingResponse) → Building Bytes
  | none => finishResponse c word 0
  | some results => do
      let (c, offsets) ← PricingResponse.buildAllIn results c
      let (c, resultsVec) ← c.createVectorOfOffsets offsets
      finishResponse c word resultsVec

theorem buildAllIn_ok {responses : List PricingResponse} {c : FlatBufferBuilder} {b : Builder}
    (hready : Ready c b)
    (hroom : (PricingResponse.buildAll responses b).1.size + 336 < maxBufferSize) :
    Succeeds (PricingResponse.buildAllIn responses c) fun d =>
      Ready d.1 (PricingResponse.buildAll responses b).1 ∧
        d.2 = (PricingResponse.buildAll responses b).2 := by
  induction responses generalizing c b with
  | nil => exact .ok ⟨hready, rfl⟩
  | cons response rest ih =>
      have hdistinct : (response.slots.map (·.field)).Nodup :=
        show [12, 10, 8, 6, 4].Nodup by decide
      have hfive : response.slots.length ≤ 16 := show 5 ≤ 16 by decide
      have hbuilds := Builder.buildTable_builds hready.closed hready.wellFormed
        (response.slots_fit b.size) hdistinct (Nat.zero_le _) hfive
      have hgrown := hbuilds.grows.size_le
      have hrest := (PricingResponse.buildAll_builds rest hbuilds.closed
        hbuilds.wellFormed).grows.size_le
      rw [PricingResponse.buildAll_cons, PricingResponse.build_eq] at hroom ⊢
      dsimp only at hroom ⊢
      refine (hready.buildTable (response.slots_fit b.size) hdistinct hfive (by omega)).bind ?_
      rintro ⟨d, offset⟩ ⟨hd, hoffset⟩
      obtain rfl : offset = _ := hoffset
      refine (ih hd hroom).bind ?_
      rintro ⟨e, offsets⟩ ⟨he, hoffsets⟩
      obtain rfl : offsets = _ := hoffsets
      exact .ok ⟨he, rfl⟩

theorem size_le_response {b : Builder} {word : UInt64} {resultsVec : Nat} (hclosed : b.Closed)
    (hwf : b.WellFormed 0) (hvec : resultsVec ≤ b.size) :
    b.size ≤ ((b.buildTable (responseSlots word resultsVec)).1.finish
      (b.buildTable (responseSlots word resultsVec)).2).length := by
  have hbuilds := Builder.buildTable_builds hclosed hwf (responseSlots_fit word hvec)
    (show [4, 6].Nodup by decide) (Nat.zero_le _) (show 2 ≤ 16 by decide)
  exact hbuilds.grows.size_le.trans (Builder.size_le_finish hbuilds.wellFormed _)

theorem finishResponse_eq {c : FlatBufferBuilder} {b : Builder} {word : UInt64} {resultsVec : Nat}
    (hready : Ready c b) (hvec : resultsVec ≤ b.size)
    (hshort : ((b.buildTable (responseSlots word resultsVec)).1.finish
      (b.buildTable (responseSlots word resultsVec)).2).length + 336 < maxBufferSize) :
    finishResponse c word resultsVec =
      .ok ((b.buildTable (responseSlots word resultsVec)).1.finish
        (b.buildTable (responseSlots word resultsVec)).2) := by
  have hfits := responseSlots_fit word hvec
  have hdistinct : ((responseSlots word resultsVec).map (·.field)).Nodup :=
    show [4, 6].Nodup by decide
  have htwo : (responseSlots word resultsVec).length ≤ 16 := show 2 ≤ 16 by decide
  have hbuilds := Builder.buildTable_builds hready.closed hready.wellFormed hfits hdistinct
    (Nat.zero_le _) htwo
  have hgrown := hbuilds.grows.size_le
  have hlt := hbuilds.lt_table
  have hlast := Builder.size_le_finish hbuilds.wellFormed
    (b.buildTable (responseSlots word resultsVec)).2
  apply Succeeds.eq_ok
  refine (hready.buildTable hfits hdistinct htwo (by omega)).bind ?_
  rintro ⟨d, root⟩ ⟨hd, hroot⟩
  obtain rfl : root = _ := hroot
  exact ⟨_, hd.finish ⟨by omega, hbuilds.table_le⟩ (by omega), rfl⟩

theorem responseIn_eq {c : FlatBufferBuilder} {word : UInt64}
    {results : Option (List PricingResponse)} (hready : Ready c {})
    (hshort : (responseBytes word results).length + 336 < maxBufferSize) :
    responseIn c word results = .ok (responseBytes word results) := by
  cases results with
  | none => exact finishResponse_eq hready le_rfl hshort
  | some results =>
      have hbytes : responseBytes word (some results) =
          let all := PricingResponse.buildAll results {}
          let laid := all.1.createVectorOfOffsets all.2
          let rooted := laid.1.buildTable (responseSlots word laid.2)
          rooted.1.finish rooted.2 := rfl
      have hall := PricingResponse.buildAll_builds results hready.closed hready.wellFormed
      have hbuild := @buildAllIn_ok results c {} hready
      rw [hbytes] at hshort ⊢
      generalize PricingResponse.buildAll results {} = all at hall hbuild hshort ⊢
      have hlays := Builder.createVectorOfOffsets_lays hall.wellFormed
        fun off hoff => (hall.offset off hoff).2
      have hlay := fun d (hd : Ready d all.1) => hd.createVectorOfOffsets
        fun off hoff => ⟨(hall.offset off hoff).1.ne', (hall.offset off hoff).2⟩
      dsimp only at hshort ⊢
      generalize all.1.createVectorOfOffsets all.2 = laid at hlays hlay hshort ⊢
      have hgrown := hlays.pads.grows.size_le
      have hlast := @size_le_response _ word _ (hlays.pads.closed hall.closed)
        (hlays.pads.wellFormed hall.wellFormed) hlays.vec_eq.le
      apply Succeeds.eq_ok
      refine (hbuild (by omega)).bind ?_
      rintro ⟨d, offsets⟩ ⟨hd, hoffsets⟩
      obtain rfl : offsets = all.2 := hoffsets
      refine (hlay d hd (by omega)).bind ?_
      rintro ⟨e, vec⟩ ⟨he, hvec⟩
      obtain rfl : vec = laid.2 := hvec
      exact ⟨_, finishResponse_eq he hlays.vec_eq.le hshort, rfl⟩

/-! ## The four messages -/

/-- The builder of the client's `main`. -/
def RangePricingRequest.buildIn (allocator : Allocator) (rr : RangePricingRequest) :
    Building Bytes :=
  requestIn (.new allocator 256) rr.request rr.pairs (rootSlots rr.requestHash) 4

/-- The builder of one chunk in `expand_to_batches`. -/
def BatchPricingRequest.buildIn (allocator : Allocator) (batch : BatchPricingRequest) :
    Building Bytes :=
  requestIn (.new allocator 512) batch.request batch.pairs (rootSlots batch.batchCounterId) 6

/-- The builder of `process`. -/
def BatchPricingResponse.buildIn (allocator : Allocator) (response : BatchPricingResponse) :
    Building Bytes :=
  responseIn (.new allocator 512) response.batchId response.results

/-- `err_builder`, which has no results, and `reply_builder`, which has. -/
def RangePricingResponse.buildIn (allocator : Allocator) (response : RangePricingResponse) :
    Building Bytes :=
  responseIn (.new allocator (if response.results.isNone then 64 else 1024))
    response.requestHash response.results

theorem RangePricingRequest.rootSlots_fit (requestHash : UInt64) {request pairsVec start : Nat}
    (hrequest : request ≤ start) (hpairs : pairsVec ≤ start) :
    ∀ slot ∈ rootSlots requestHash request pairsVec, slot.Fits start := by
  intro slot hslot
  simp only [rootSlots, List.mem_cons, List.not_mem_nil, or_false] at hslot
  rcases hslot with rfl | rfl | rfl
  · exact offset_fits (by decide) hrequest
  · exact scalar_fits (by decide) ⟨3, rfl⟩ (by decide)
  · exact offset_fits (by decide) hpairs

theorem BatchPricingRequest.rootSlots_fit (batchCounterId : UInt64)
    {request pairsVec start : Nat} (hrequest : request ≤ start) (hpairs : pairsVec ≤ start) :
    ∀ slot ∈ rootSlots batchCounterId request pairsVec, slot.Fits start := by
  intro slot hslot
  simp only [rootSlots, List.mem_cons, List.not_mem_nil, or_false] at hslot
  rcases hslot with rfl | rfl | rfl
  · exact scalar_fits (by decide) ⟨3, rfl⟩ (by decide)
  · exact offset_fits (by decide) hrequest
  · exact offset_fits (by decide) hpairs

section

variable (allocator : Allocator)

theorem RangePricingRequest.buildIn_eq {rr : RangePricingRequest}
    (hshort : rr.toBytes.length + 336 < maxBufferSize) :
    rr.buildIn allocator = .ok rr.toBytes := by
  rw [rr.toBytes_eq] at hshort ⊢
  refine requestIn_eq (ready_new allocator 256) (fun _ _ _ => rootSlots_fit rr.requestHash)
    (fun _ _ => show [4, 6, 8].Nodup by decide) (fun _ _ => le_rfl) (by decide) ?_ ?_ hshort
  · simp [rootSlots]
  · simp [rootSlots]

theorem BatchPricingRequest.buildIn_eq {batch : BatchPricingRequest}
    (hshort : batch.toBytes.length + 336 < maxBufferSize) :
    batch.buildIn allocator = .ok batch.toBytes := by
  rw [batch.toBytes_eq] at hshort ⊢
  refine requestIn_eq (ready_new allocator 512) (fun _ _ _ => rootSlots_fit batch.batchCounterId)
    (fun _ _ => show [4, 6, 8].Nodup by decide) (fun _ _ => le_rfl) (by decide) ?_ ?_ hshort
  · simp [rootSlots]
  · simp [rootSlots]

theorem BatchPricingResponse.buildIn_eq {response : BatchPricingResponse}
    (hshort : response.toBytes.length + 336 < maxBufferSize) :
    response.buildIn allocator = .ok response.toBytes :=
  responseIn_eq (ready_new allocator 512) hshort

theorem RangePricingResponse.buildIn_eq {response : RangePricingResponse}
    (hshort : response.toBytes.length + 336 < maxBufferSize) :
    response.buildIn allocator = .ok response.toBytes :=
  responseIn_eq (ready_new allocator _) hshort

/-- Below the size limit every message of the program is built in memory without a failed
assertion and without an access outside the allocation, and as if there were no memory. -/
theorem messages_built_in_memory :
    (∀ rr : RangePricingRequest, rr.toBytes.length + 336 < maxBufferSize →
      rr.buildIn allocator = .ok rr.toBytes) ∧
    (∀ batch : BatchPricingRequest, batch.toBytes.length + 336 < maxBufferSize →
      batch.buildIn allocator = .ok batch.toBytes) ∧
    (∀ response : BatchPricingResponse, response.toBytes.length + 336 < maxBufferSize →
      response.buildIn allocator = .ok response.toBytes) ∧
    ∀ response : RangePricingResponse, response.toBytes.length + 336 < maxBufferSize →
      response.buildIn allocator = .ok response.toBytes :=
  ⟨fun _ => RangePricingRequest.buildIn_eq allocator,
    fun _ => BatchPricingRequest.buildIn_eq allocator,
    fun _ => BatchPricingResponse.buildIn_eq allocator,
    fun _ => RangePricingResponse.buildIn_eq allocator⟩

end

/-- Twenty-four pairs need more than the 256 bytes that the client starts with. -/
def RangePricingRequest.growing : RangePricingRequest where
  request := ⟨OptionType.put, ⟨0x42c80000⟩, ⟨0x42c80000⟩, ⟨0x3d8f5c29⟩, ⟨0x3f800000⟩, ⟨0x3c23d70a⟩⟩
  requestHash := 1
  pairs := (List.range 24).map fun k => ⟨UInt32.ofNat k, ⟨0x3f800000⟩, ⟨0x40000000⟩⟩

/-- Twenty-four results, tables of one shape, need more than the 512 bytes of `process`. -/
def BatchPricingResponse.growing : BatchPricingResponse where
  batchId := 1000
  results := some ((List.range 24).map fun k =>
    ⟨UInt32.ofNat k, ⟨0x3f800000⟩, ⟨0x40000000⟩, ⟨0x3f6eb15c⟩, Binary32.zero⟩)

theorem messages_built_in_memory_growing :
    (∃ bytes, RangePricingRequest.growing.buildIn .sample = .ok bytes ∧ 256 < bytes.length) ∧
      ∃ bytes, BatchPricingResponse.growing.buildIn .sample = .ok bytes ∧ 512 < bytes.length :=
  ⟨⟨_, (messages_built_in_memory .sample).1 _ (by decide +kernel), by decide +kernel⟩,
    ⟨_, (messages_built_in_memory .sample).2.2.1 _ (by decide +kernel), by decide +kernel⟩⟩

end RangePricer
