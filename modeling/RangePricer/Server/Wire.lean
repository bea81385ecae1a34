import RangePricer.Pricing.EntryPoints
import RangePricer.Server.Gather

/-!
# What the messages carry across the wire

The server, the workers and the clients exchange byte strings.  On the bytes
they build the exchange is what the records say it is: a batch reaches its
worker unchanged, its results reach the collector unchanged, and a message is
refused only when it has more tables than the verifier counts.  The parameters
of a batch are those of the request without their option type.
-/

namespace RangePricer

open FlatBuffers Transition Transition.System

variable {env : Env} {msg : Bytes}

/-! ## The exchange on bytes -/

/-- The message a worker pushes for the batch it received. -/
def workerReplyBytes (env : Env) (data : Bytes) : Bytes :=
  if BatchPricingRequest.verifyBytes data then
    let batch := BatchPricingRequest.ofBytes data
    match process env.fp env.simd batch.request batch.pairs batch.batchCounterId with
    | .error _ => []
    | .ok response => response.toBytes
  else []

/-- What the collector appends for the message it received. -/
def collectBytes (data : Bytes) : List PricingResponse :=
  if data = [] then []
  else if admits BatchPricingResponse.verifyBytes data then
    (BatchPricingResponse.ofBytes data).results.getD []
  else []

theorem PricingParams.unsigned_accepted (params : PricingParams) :
    params.unsigned.accepted = params.accepted := by
  simp [PricingParams.unsigned, PricingParams.accepted, Binary32.leZero_unsignedZero]

theorem batchParams_unsigned (params : PricingParams) :
    (batchParams params).unsigned = batchParams params := by
  simp [batchParams, PricingParams.unsigned, PricingParams.addStockPrice,
    PricingParams.addStrikePrice, PricingParams.addInterestRate,
    PricingParams.addTimeToMaturity, PricingParams.addStockDiscretization]

/-- A batch reaches its worker as it was sliced. -/
theorem batch_received {batch : BatchPricingRequest}
    (hmsg : verifyRangePricingRequestBuffer msg = true) (hbatch : batch ∈ requestBatches env msg) :
    BatchPricingRequest.verifyBytes batch.toBytes = true ∧
      BatchPricingRequest.ofBytes batch.toBytes = batch ∧
        batch.toBytes.length ≤ 12 * batch.pairs.length + 500 := by
  obtain ⟨hrequest, -, hpairs⟩ := mem_requestBatches hmsg hbatch
  obtain ⟨hverify, hread, hlength⟩ := BatchPricingRequest.toBytes_accepted hpairs
  refine ⟨hverify, ?_, hlength⟩
  rw [hread, hrequest, batchParams_unsigned, ← hrequest]

/-- A response is long enough to hold the offset of its root. -/
theorem four_le_length (response : BatchPricingResponse) : 4 ≤ response.toBytes.length := by
  rw [BatchPricingResponse.toBytes]
  cases response.results with
  | none =>
      obtain ⟨b, root, himage⟩ := exists_image_none response.batchId
      have hnear : b.size ≤ 112 := himage.near
      have hlt := (himage.finished
        (himage.enterRoot (himage.rootAt (by omega)) (by omega)).1).lt_length
      omega
  | some results =>
      obtain ⟨front, vec, b, root, himage, hvector⟩ := exists_image_some response.batchId results
      have hlt := (himage.finished_of_results hvector).lt_length
      omega

theorem toBytes_ne_nil (response : BatchPricingResponse) : response.toBytes ≠ [] := by
  intro hempty
  have hlength := four_le_length response
  rw [hempty, List.length_nil] at hlength
  omega

/-- The collector gets from the bytes what it gets from the records. -/
theorem collectBytes_workerReplyBytes {batch : BatchPricingRequest}
    (hmsg : verifyRangePricingRequestBuffer msg = true) (hbatch : batch ∈ requestBatches env msg) :
    collectBytes (workerReplyBytes env batch.toBytes) = collect (workerReply env batch) := by
  obtain ⟨hverify, hread, -⟩ := batch_received hmsg hbatch
  have hpairs := (mem_requestBatches hmsg hbatch).2.2
  have hbytes : workerReplyBytes env batch.toBytes =
      match process env.fp env.simd batch.request batch.pairs batch.batchCounterId with
      | .error _ => []
      | .ok response => response.toBytes := by
    rw [workerReplyBytes, if_pos hverify, hread]
  have hrecord : workerReply env batch =
      match process env.fp env.simd batch.request batch.pairs batch.batchCounterId with
      | .error _ => .empty
      | .ok response => .response response :=
    if_pos (decide_eq_true hpairs)
  cases haccepted : batch.request.accepted with
  | false =>
      obtain ⟨error, hprocess⟩ := process_rejected env.fp env.simd haccepted batch.pairs
        batch.batchCounterId
      rw [hbytes, hrecord, hprocess]
      rfl
  | true =>
      rw [hbytes, hrecord, process_accepted env.fp env.simd haccepted]
      dsimp only
      rw [collectBytes, if_neg (toBytes_ne_nil _), BatchPricingResponse.toBytes_admitted, collect]
      split
      · next hverifies =>
          rw [BatchPricingResponse.ofBytes_toBytes hverifies, Option.map_some,
            batchResults_unsigned]
      · rfl

/-! ## Which messages are refused -/

/-- Every message built for a request is admitted by the part that receives it. -/
structure MessagesAdmitted (env : Env) (msg : Bytes) : Prop where
  batches : ∀ batches,
    expandToBatches (RangePricingRequest.ofBytes msg) env.simdLanes = .ok batches →
      ∀ batch ∈ batches, admits BatchPricingRequest.verifyBytes batch.toBytes = true
  responses : ∀ batches,
    expandToBatches (RangePricingRequest.ofBytes msg) env.simdLanes = .ok batches →
      ∀ batch ∈ batches,
        admits BatchPricingResponse.verifyBytes (workerReplyBytes env batch.toBytes) = true
  reply : ∀ threads dispatchHwm resultsHwm reply, 1 ≤ threads → 1 ≤ dispatchHwm →
    1 ≤ resultsHwm → Sent (env.withPipes threads dispatchHwm resultsHwm) msg reply →
      admits RangePricingResponse.verifyBytes reply.toBytes = true

/-- The response to an accepted batch is admitted if its pairs can be counted as tables. -/
theorem workerReplyBytes_admitted {batch : BatchPricingRequest}
    (hmsg : verifyRangePricingRequestBuffer msg = true) (hbatch : batch ∈ requestBatches env msg)
    (haccepted : (RangePricingRequest.ofBytes msg).request.accepted = true) :
    admits BatchPricingResponse.verifyBytes (workerReplyBytes env batch.toBytes) =
      decide (batch.pairs.length < maxTables) := by
  obtain ⟨hverify, hread, -⟩ := batch_received hmsg hbatch
  have hrequest := (mem_requestBatches hmsg hbatch).1
  have hbatchAccepted : batch.request.accepted = true := by
    rw [hrequest, batchParams_accepted, haccepted]
  rw [workerReplyBytes, if_pos hverify, hread]
  dsimp only
  rw [process_accepted env.fp env.simd hbatchAccepted]
  dsimp only
  rw [BatchPricingResponse.toBytes_admitted, BatchPricingResponse.verifies, responseVerifies_some,
    batchResults_length]

/-- A reply whose results are too many is refused. -/
theorem reply_admitted {reply : RangePricingResponse} {results : List PricingResponse}
    (hresults : reply.results = some results) :
    admits RangePricingResponse.verifyBytes reply.toBytes =
      decide (results.length < maxTables) := by
  rw [RangePricingResponse.toBytes_admitted, RangePricingResponse.verifies, hresults,
    responseVerifies_some]

/-- The first of the batches of a request. -/
theorem exists_first_batch (hlanes : 1 ≤ env.simdLanes)
    (hfits : ((RangePricingRequest.ofBytes msg).pairs.length : Int) + env.simdLanes - 1 ≤ intMax)
    (hpairs : 0 < (RangePricingRequest.ofBytes msg).pairs.length) :
    ∃ batch ∈ requestBatches env msg, batch.pairs.length =
      min (RangePricingRequest.ofBytes msg).pairs.length env.simdLanes.toNat := by
  have hwidth : 0 < env.simdLanes.toNat := by omega
  have hcount : 0 < chunkCount (RangePricingRequest.ofBytes msg).pairs.length
      env.simdLanes.toNat := Nat.div_pos (by omega) hwidth
  rw [requestBatches, slicedBatches_eq hlanes hfits]
  refine ⟨chunkBatch (RangePricingRequest.ofBytes msg) env.simdLanes.toNat 0,
    List.mem_map_of_mem (List.mem_range.mpr hcount), ?_⟩
  rw [chunkBatch_pairs_length, Nat.zero_mul, Nat.sub_zero, Nat.min_comm]

/-- More pairs than tables: the response of a batch or the reply is refused. -/
theorem not_messagesAdmitted_of_large (hmsg : verifyRangePricingRequestBuffer msg = true)
    (hlanes : 1 ≤ env.simdLanes)
    (hfits : ((RangePricingRequest.ofBytes msg).pairs.length : Int) + env.simdLanes - 1 ≤ intMax)
    (haccepted : (RangePricingRequest.ofBytes msg).request.accepted = true)
    (hlarge : maxTables ≤ (RangePricingRequest.ofBytes msg).pairs.length) :
    ¬ MessagesAdmitted env msg := by
  intro hadmitted
  have htables : 0 < maxTables := by decide
  have hexpand := expandToBatches_fits hlanes hfits
  rcases Nat.lt_or_ge env.simdLanes.toNat maxTables with hnarrow | hwide
  · -- Every batch is collected, and the reply has one table too many.
    obtain ⟨room, hroom, reply, hsent⟩ := exists_sent_withPipes hmsg hexpand
    obtain ⟨results, hreply, hperm, -⟩ := hsent.exists_results hmsg
    have hcomplete : (contributions env (requestBatches env msg)).map (·.pair) = _ :=
      contributions_accepted hmsg haccepted (by omega)
    have hlength := congrArg List.length hcomplete
    rw [flatMap_requestBatches msg hlanes hfits, List.length_map, List.length_map,
      ← hperm.length_eq] at hlength
    have hgood := hadmitted.reply 1 room 1 reply le_rfl hroom le_rfl hsent
    rw [reply_admitted (congrArg RangePricingResponse.results hreply), decide_eq_true_eq] at hgood
    omega
  · obtain ⟨batch, hbatch, hlength⟩ := @exists_first_batch env msg hlanes hfits (by omega)
    have hgood := hadmitted.responses _ hexpand batch hbatch
    rw [workerReplyBytes_admitted hmsg hbatch haccepted, decide_eq_true_eq] at hgood
    omega

/-- The receivers admit all messages built for a request exactly if it has fewer
pairs than the verifier counts tables, or the count of its chunks wraps, so that
no batch is built and the reply, if any, is empty. -/
theorem messages_admitted_iff (env : Env) (msg : Bytes)
    (hmsg : verifyRangePricingRequestBuffer msg = true) (hlanes : 1 ≤ env.simdLanes)
    (haccepted : (RangePricingRequest.ofBytes msg).request.accepted = true) :
    MessagesAdmitted env msg ↔
      (RangePricingRequest.ofBytes msg).pairs.length < maxTables ∨
        intMax < ((RangePricingRequest.ofBytes msg).pairs.length : Int) + env.simdLanes - 1 := by
  constructor
  · intro hadmitted
    by_contra hcondition
    rw [not_or, not_lt, not_lt] at hcondition
    obtain ⟨hlarge, hfits⟩ := hcondition
    exact not_messagesAdmitted_of_large hmsg hlanes hfits haccepted hlarge hadmitted
  · intro hcondition
    have hfew {batch : BatchPricingRequest} (hbatch : batch ∈ requestBatches env msg) :
        (RangePricingRequest.ofBytes msg).pairs.length < maxTables :=
      hcondition.resolve_right (not_lt.mpr (exists_of_mem_slicedBatches hbatch).2.1)
    have hlimits : 12 * maxTables + 500 < maxBufferSize := by decide
    have htables : 0 < maxTables := by decide
    refine ⟨fun batches hexpand batch hbatch => ?_, fun batches hexpand batch hbatch => ?_,
      fun threads dispatchHwm resultsHwm reply _ _ _ hsent => ?_⟩
    · obtain rfl := expandToBatches_requestBatches hmsg hexpand
      have hsmall := hfew hbatch
      have hlength := (mem_requestBatches hmsg hbatch).2.1
      obtain ⟨hverify, -, hbytes⟩ := batch_received hmsg hbatch
      rw [admits, hverify, Bool.and_true, decide_eq_true_eq]
      omega
    · obtain rfl := expandToBatches_requestBatches hmsg hexpand
      have hsmall := hfew hbatch
      have hlength := (mem_requestBatches hmsg hbatch).2.1
      rw [workerReplyBytes_admitted hmsg hbatch haccepted, decide_eq_true_eq]
      omega
    · obtain ⟨results, hreply, hperm, -⟩ := hsent.exists_results hmsg
      rw [reply_admitted (congrArg RangePricingResponse.results hreply), decide_eq_true_eq,
        hperm.length_eq]
      rcases hcondition with hsmall | hwraps
      · have hlength := (@requestBatches_idx_sublist env msg hmsg).length_le
        rw [List.length_map, List.length_map] at hlength
        omega
      · have hnone : requestBatches env msg = [] := slicedBatches_wrapped hwraps
        rw [hnone]
        exact htables

/-- Two pairs, one to a batch. -/
theorem messages_admitted_sample :
    (requestBatches Env.sample (RangePricingRequest.sample [.sample 0, .sample 1]).toBytes).length =
        2 ∧
      MessagesAdmitted Env.sample (RangePricingRequest.sample [.sample 0, .sample 1]).toBytes :=
  ⟨by decide +kernel,
    (messages_admitted_iff Env.sample _ (by decide +kernel) (by decide) (by decide +kernel)).mpr
      (.inl (by decide +kernel))⟩

/-- A million pairs in one batch: its response is refused. -/
theorem not_messages_admitted :
    ¬ ∀ (env : Env) (msg : Bytes), verifyRangePricingRequestBuffer msg = true →
      1 ≤ env.simdLanes → (RangePricingRequest.ofBytes msg).request.accepted = true →
        MessagesAdmitted env msg := by
  intro hadmitted
  obtain ⟨hverify, haccepted, hlength⟩ := sampleLarge_accepted
  exact not_messagesAdmitted_of_large hverify (by decide)
    (Int.le_of_lt (Int.sub_one_lt_of_le sampleLarge_fits)) haccepted hlength.ge
    (hadmitted Env.sampleLarge _ hverify (by decide) haccepted)

/-! ## The parameters of a batch -/

/-- Every batch reaches its worker with the parameters of the request. -/
def ParamsCarried (env : Env) (msg : Bytes) : Prop :=
  ∀ batches, expandToBatches (RangePricingRequest.ofBytes msg) env.simdLanes = .ok batches →
    ∀ batch ∈ batches, (BatchPricingRequest.ofBytes batch.toBytes).request.Agrees
      (RangePricingRequest.ofBytes msg).request

/-- Only the option type is lost. -/
theorem batchParams_agrees_iff (params : PricingParams) :
    (batchParams params).Agrees params ↔ params.optionType = OptionType.call := by
  constructor
  · intro hagrees
    exact hagrees.optionType.symm
  · intro hcall
    exact ⟨hcall.symm, Binary32.unsignedZero_agrees _, Binary32.unsignedZero_agrees _,
      Binary32.unsignedZero_agrees _, Binary32.unsignedZero_agrees _,
      Binary32.unsignedZero_agrees _⟩

/-- The workers price with the request's parameters exactly if it asks for a
call, or no batch is sliced from it: it has no pairs, or the count of its chunks wraps. -/
theorem params_carried_iff (env : Env) (msg : Bytes)
    (hmsg : verifyRangePricingRequestBuffer msg = true) (hlanes : 1 ≤ env.simdLanes) :
    ParamsCarried env msg ↔
      (RangePricingRequest.ofBytes msg).request.optionType = OptionType.call ∨
        (RangePricingRequest.ofBytes msg).pairs = [] ∨
          intMax < ((RangePricingRequest.ofBytes msg).pairs.length : Int) + env.simdLanes - 1 := by
  have hreceived (batch : BatchPricingRequest) (hbatch : batch ∈ requestBatches env msg) :
      (BatchPricingRequest.ofBytes batch.toBytes).request =
        batchParams (RangePricingRequest.ofBytes msg).request := by
    rw [(batch_received hmsg hbatch).2.1, (mem_requestBatches hmsg hbatch).1]
  constructor
  · intro hcarried
    by_contra hcondition
    rw [not_or, not_or, not_lt] at hcondition
    obtain ⟨hoption, hpairs, hfits⟩ := hcondition
    obtain ⟨batch, hbatch, -⟩ := @exists_first_batch env msg hlanes hfits
      (List.length_pos_iff.mpr hpairs)
    have hagrees := hcarried _ (expandToBatches_fits hlanes hfits) batch hbatch
    rw [hreceived batch hbatch, batchParams_agrees_iff] at hagrees
    exact hoption hagrees
  · intro hcondition batches hexpand batch hbatch
    obtain rfl := expandToBatches_requestBatches hmsg hexpand
    rw [hreceived batch hbatch, batchParams_agrees_iff]
    obtain ⟨-, hfits, c, hc, -⟩ := exists_of_mem_slicedBatches hbatch
    rcases hcondition with hcall | hnone | hwraps
    · exact hcall
    · -- No pairs, no chunks.
      have hzero : chunkCount 0 env.simdLanes.toNat = 0 := Nat.div_eq_of_lt (by omega)
      rw [hnone, List.length_nil, hzero] at hc
      cases hc
    · exact absurd hfits (not_le.mpr hwraps)

/-- A request for a call on two pairs. -/
def sampleCall : RangePricingRequest :=
  let rr := RangePricingRequest.sample [.sample 0, .sample 1]
  { rr with request := { rr.request with optionType := OptionType.call } }

theorem params_carried_sample :
    (requestBatches Env.sample sampleCall.toBytes).length = 2 ∧
      ParamsCarried Env.sample sampleCall.toBytes :=
  ⟨by decide +kernel,
    (params_carried_iff Env.sample _ (by decide +kernel) (by decide)).mpr
      (.inl (by decide +kernel))⟩

/-- A put is priced as a call. -/
theorem not_params_carried :
    ¬ ∀ (env : Env) (msg : Bytes), verifyRangePricingRequestBuffer msg = true →
      1 ≤ env.simdLanes → ParamsCarried env msg := by
  intro hcarried
  have hexpand : expandToBatches (RangePricingRequest.ofBytes
      (RangePricingRequest.sample [.sample 0]).toBytes) Env.sample.simdLanes = .ok _ :=
    expandToBatches_fits (by decide) (by decide +kernel)
  have hagrees := hcarried Env.sample (RangePricingRequest.sample [.sample 0]).toBytes
    (by decide +kernel) (by decide) _ hexpand
    (chunkBatch (RangePricingRequest.ofBytes (RangePricingRequest.sample [.sample 0]).toBytes) 1 0)
    (by decide +kernel)
  have hoption := hagrees.optionType
  revert hoption
  decide +kernel

end RangePricer
