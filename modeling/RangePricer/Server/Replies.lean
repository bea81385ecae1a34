import RangePricer.Server.Deadlock

/-!
# What a reply contains

A reply is the sorted concatenation of what the collector takes from the result
messages of the batches.  Its content is followed back to the pairs of the
request: every batch the collector accepts contributes one result for each of
its pairs, every other batch contributes nothing.
-/

namespace RangePricer

open FlatBuffers Transition Transition.System

variable {env : Env} {messages : List Bytes}

/-! ## Pairs and results -/

/-- A pair as it is carried along, without the sign of a zero. -/
def AlphaBetaPair.unsigned (pair : AlphaBetaPair) : AlphaBetaPair :=
  ⟨pair.idx, pair.alpha.unsignedZero, pair.beta.unsignedZero⟩

/-- The pair a result was computed for. -/
def PricingResponse.pair (result : PricingResponse) : AlphaBetaPair :=
  AlphaBetaPair.unsigned ⟨result.idx, result.alpha, result.beta⟩

@[simp]
theorem createPricingResponse_pair (pair : AlphaBetaPair) (price hedgeRatio : Binary32) :
    (createPricingResponse pair.idx pair.alpha pair.beta price hedgeRatio).pair =
      pair.unsigned := by
  simp [createPricingResponse, PricingResponse.pair, AlphaBetaPair.unsigned]

theorem map_pair_batchResults (fp : FloatUnit) (simd : Simd) (params : PricingParams)
    (pairs : List AlphaBetaPair) :
    (batchResults fp simd params pairs).map (·.pair) = pairs.map (·.unsigned) := by
  apply List.ext_getElem (by simp)
  intro i _ _
  simp [batchResults]

theorem map_idx_pair (results : List PricingResponse) :
    (results.map (·.pair)).map (·.idx) = results.map (·.idx) := by
  rw [List.map_map]
  rfl

theorem map_idx_unsigned (pairs : List AlphaBetaPair) :
    (pairs.map (·.unsigned)).map (·.idx) = pairs.map (·.idx) := by
  rw [List.map_map]
  rfl

/-! ## From a batch to the collector -/

theorem batchParams_accepted (params : PricingParams) :
    (batchParams params).accepted = params.accepted := by
  simp [batchParams, PricingParams.accepted, PricingParams.addStockPrice,
    PricingParams.addStrikePrice, PricingParams.addInterestRate,
    PricingParams.addTimeToMaturity, PricingParams.addStockDiscretization,
    Binary32.leZero_unsignedZero]

/-- A batch with rejected parameters comes back as an empty message. -/
theorem collect_rejected {batch : BatchPricingRequest}
    (hrejected : batch.request.accepted = false) :
    collect (workerReply env batch) = [] := by
  obtain ⟨error, hprocess⟩ := process_rejected env.fp env.simd hrejected batch.pairs
    batch.batchCounterId
  unfold workerReply
  split
  · rw [hprocess]
    rfl
  · rfl

/-- An accepted batch contributes all its results, or none if its response has
more tables than the verifier admits. -/
theorem collect_accepted {batch : BatchPricingRequest}
    (hpairs : batch.pairs.length < maxBufferSize / 12)
    (haccepted : batch.request.accepted = true) :
    collect (workerReply env batch) =
      if batch.pairs.length < maxTables then
        batchResults env.fp env.simd batch.request batch.pairs
      else [] := by
  have hverifies : batch.verifies = true := decide_eq_true hpairs
  simp [workerReply, hverifies, process_accepted env.fp env.simd haccepted, collect,
    BatchPricingResponse.verifies, responseVerifies_some]

/-- A batch contributes the `idx` of its pairs in their order, or nothing. -/
theorem collect_idx_sublist {batch : BatchPricingRequest}
    (hpairs : batch.pairs.length < maxBufferSize / 12) :
    ((collect (workerReply env batch)).map (·.idx)).Sublist (batch.pairs.map (·.idx)) := by
  cases haccepted : batch.request.accepted with
  | false =>
      rw [collect_rejected haccepted]
      exact List.nil_sublist _
  | true =>
      rw [collect_accepted hpairs haccepted]
      split
      · rw [← map_idx_pair, map_pair_batchResults, map_idx_unsigned]
      · exact List.nil_sublist _

/-- What the collector takes is already in the form a reply carries. -/
theorem collect_again {batch : BatchPricingRequest} {result : PricingResponse}
    (hpairs : batch.pairs.length < maxBufferSize / 12)
    (hresult : result ∈ collect (workerReply env batch)) :
    createPricingResponse result.idx result.alpha result.beta result.price result.hedgeRatio =
      result := by
  cases haccepted : batch.request.accepted with
  | false => simp [collect_rejected haccepted] at hresult
  | true =>
      rw [collect_accepted hpairs haccepted] at hresult
      split at hresult
      · obtain ⟨pair, -, out, -, rfl⟩ := exists_of_mem_batchResults hresult
        exact createPricingResponse_again _ _ _ _ _
      · cases hresult

/-! ## From the batches to the reply -/

/-- Everything the batches contribute, in the order of the batches. -/
def contributions (env : Env) (batches : List BatchPricingRequest) : List PricingResponse :=
  batches.flatMap fun batch => collect (workerReply env batch)

/-- The batches of a verified request, as the server slices it. -/
def requestBatches (env : Env) (msg : Bytes) : List BatchPricingRequest :=
  slicedBatches (RangePricingRequest.ofBytes msg) env.simdLanes

theorem expandToBatches_requestBatches {msg : Bytes} {batches : List BatchPricingRequest}
    (hmsg : verifyRangePricingRequestBuffer msg = true)
    (hexpand : expandToBatches (RangePricingRequest.ofBytes msg) env.simdLanes = .ok batches) :
    batches = requestBatches env msg :=
  expandToBatches_ok (verified_pairs_lt_int hmsg) env.simdLanes_int hexpand

/-- A request whose batches can be counted in an `int` is sliced. -/
theorem expandToBatches_fits {msg : Bytes} (hlanes : 1 ≤ env.simdLanes)
    (hfits : ((RangePricingRequest.ofBytes msg).pairs.length : Int) + env.simdLanes - 1 ≤ intMax) :
    expandToBatches (RangePricingRequest.ofBytes msg) env.simdLanes =
      .ok (requestBatches env msg) := by
  rw [requestBatches, slicedBatches_eq hlanes hfits]
  exact expandToBatches_inRange hlanes hfits

/-- Every batch of a request carries its parameters and at most its pairs. -/
theorem mem_requestBatches {msg : Bytes} {batch : BatchPricingRequest}
    (hmsg : verifyRangePricingRequestBuffer msg = true) (hbatch : batch ∈ requestBatches env msg) :
    batch.request = batchParams (RangePricingRequest.ofBytes msg).request ∧
      batch.pairs.length ≤ min (RangePricingRequest.ofBytes msg).pairs.length
        env.simdLanes.toNat ∧
      batch.pairs.length < maxBufferSize / 12 := by
  obtain ⟨-, -, c, -, rfl⟩ := exists_of_mem_slicedBatches hbatch
  have hpairs := verified_pairs_lt hmsg
  have hlength := chunkBatch_pairs_length (RangePricingRequest.ofBytes msg) env.simdLanes.toNat c
  refine ⟨rfl, ?_, ?_⟩ <;> omega

theorem contributions_again {msg : Bytes} {result : PricingResponse}
    (hmsg : verifyRangePricingRequestBuffer msg = true)
    (hresult : result ∈ contributions env (requestBatches env msg)) :
    createPricingResponse result.idx result.alpha result.beta result.price result.hedgeRatio =
      result := by
  obtain ⟨batch, hbatch, hresult⟩ := List.mem_flatMap.mp hresult
  exact collect_again (mem_requestBatches hmsg hbatch).2.2 hresult

/-- The messages of the batches, received in any order, are worth the contributions. -/
theorem received_perm_contributions {batches : List BatchPricingRequest}
    {received : List ResultMessage} (hreceived : received.Perm (batches.map (workerReply env))) :
    (received.flatMap collect).Perm (contributions env batches) := by
  have hperm := hreceived.flatMap_right collect
  rwa [List.flatMap_map] at hperm

/-- The reply to a verified request is the sorted collection of its messages. -/
theorem Answers.exists_received {msg : Bytes} {reply : RangePricingResponse}
    (hmsg : verifyRangePricingRequestBuffer msg = true) (hanswers : Answers env msg reply) :
    ∃ received : List ResultMessage,
      received.Perm ((requestBatches env msg).map (workerReply env)) ∧
      reply = ⟨(RangePricingRequest.ofBytes msg).requestHash,
        some (env.sort.run (received.flatMap collect))⟩ := by
  cases hanswers with
  | malformed hbad _ => rw [hmsg] at hbad; cases hbad
  | served _ hgathered =>
      obtain ⟨batches, received, hexpand, hreceived, rfl⟩ := hgathered.exists_order
      obtain rfl := expandToBatches_requestBatches hmsg hexpand
      have hperm := (env.sort.perm (received.flatMap collect)).trans
        (received_perm_contributions hreceived)
      have hagain : (env.sort.run (received.flatMap collect)).map (fun r =>
          createPricingResponse r.idx r.alpha r.beta r.price r.hedgeRatio) =
          env.sort.run (received.flatMap collect) :=
        (List.map_congr_left fun result hresult =>
          contributions_again hmsg (hperm.subset hresult)).trans (List.map_id' _)
      exact ⟨received, hreceived, by rw [buildReply, hagain]⟩

/-- Its results are the contributions of the batches in the order of `idx`. -/
theorem Answers.exists_results {msg : Bytes} {reply : RangePricingResponse}
    (hmsg : verifyRangePricingRequestBuffer msg = true) (hanswers : Answers env msg reply) :
    ∃ results : List PricingResponse,
      reply = ⟨(RangePricingRequest.ofBytes msg).requestHash, some results⟩ ∧
        results.Perm (contributions env (requestBatches env msg)) ∧
          results.Pairwise (fun a b => a.idx ≤ b.idx) := by
  obtain ⟨received, hreceived, hreply⟩ := hanswers.exists_received hmsg
  exact ⟨_, hreply, (env.sort.perm _).trans (received_perm_contributions hreceived),
    env.sort.sorted _⟩

/-! ## Which reply is sent -/

/-- In some run the server sends `reply` in answer to `msg`. -/
def Sent (env : Env) (msg : Bytes) (reply : RangePricingResponse) : Prop :=
  ∃ (messages : List Bytes) (state : State env.threads) (k : Nat),
    (server env).Reachable (State.init env.threads messages) state ∧
      messages[k]? = some msg ∧ state.replies[k]? = some reply

/-- The `k`-th reply answers the `k`-th message. -/
theorem answers_of_reachable {state : State env.threads} {k : Nat} {reply : RangePricingResponse}
    (hreach : (server env).Reachable (State.init env.threads messages) state)
    (hreply : state.replies[k]? = some reply) :
    ∃ msg, messages[k]? = some msg ∧ Answers env msg reply := by
  obtain ⟨answered, current, hsplit, hreplies, -⟩ := inventory_of_reachable hreach
  obtain ⟨hlength, hforall⟩ := List.forall₂_iff_get.mp hreplies
  obtain ⟨hk, rfl⟩ := List.getElem?_eq_some_iff.mp hreply
  have hk' : k < answered.length := hlength ▸ hk
  refine ⟨answered[k], ?_, hforall k hk' hk⟩
  rw [hsplit, List.append_assoc, List.getElem?_append_left hk', List.getElem?_eq_getElem]

theorem Sent.answers {msg : Bytes} {reply : RangePricingResponse} (hsent : Sent env msg reply) :
    Answers env msg reply := by
  obtain ⟨messages, state, k, hreach, hmsg, hreply⟩ := hsent
  obtain ⟨msg', hmsg', hanswers⟩ := answers_of_reachable hreach hreply
  rw [hmsg] at hmsg'
  cases hmsg'
  exact hanswers

/-- A request that expands to batches within the capacity is answered. -/
theorem exists_sent {msg : Bytes} (hdispatch : 1 ≤ env.dispatchHwm)
    (hresults : 1 ≤ env.resultsHwm) (hcrash : (handleMessage env msg).hasCrashed = false)
    (hcount : (handleMessage env msg).batchCount ≤ capacity env) :
    ∃ reply, Sent env msg reply := by
  obtain ⟨state, hreach, -, -, hlength⟩ := exists_awaiting hdispatch hresults
    (by simpa using ⟨hcrash, hcount⟩) (Reachable.refl (State.init env.threads [msg])) rfl
    (List.append_nil [msg]).symm
  have hk : 0 < state.replies.length := by
    rw [hlength]
    exact Nat.one_pos
  exact ⟨_, [msg], state, 0, hreach, rfl, List.getElem?_eq_getElem hk⟩

/-- The same server with other numbers of workers and places in the pipes. -/
def Env.withPipes (env : Env) (threads dispatchHwm resultsHwm : Nat) : Env :=
  { env with threads := threads, dispatchHwm := dispatchHwm, resultsHwm := resultsHwm }

/-- With enough room every request that expands is answered. -/
theorem exists_sent_withPipes {msg : Bytes} {batches : List BatchPricingRequest}
    (hmsg : verifyRangePricingRequestBuffer msg = true)
    (hexpand : expandToBatches (RangePricingRequest.ofBytes msg) env.simdLanes = .ok batches) :
    ∃ room, 1 ≤ room ∧ ∃ reply, Sent (env.withPipes 1 room 1) msg reply := by
  obtain ⟨room, hroom⟩ : ∃ room, room = batches.length + 1 := ⟨_, rfl⟩
  have hhandle : handleMessage (env.withPipes 1 room 1) msg =
      .dispatching (RangePricingRequest.ofBytes msg) batches 0 :=
    handleMessage_ok hmsg hexpand
  have hone : 1 ≤ room := hroom ▸ Nat.le_add_left 1 _
  refine ⟨room, hone, exists_sent hone le_rfl ?_ ?_⟩
  · rw [hhandle, ServerPhase.hasCrashed]
  · rw [hhandle, ServerPhase.batchCount]
    change batches.length ≤ 1 * (room + 1 + 1)
    omega

end RangePricer
