import RangePricer.Codec.InMemory
import RangePricer.Server.MemorySafety

/-!
# No thread writes outside a message

While it serves a request the server builds the batches and the reply, and the
workers build the responses.  All of them are no larger than the request allows:
as long as no client sends more than 128 MiB at once, every builder stays below
the limit of the library, in every state of every run.
-/

namespace RangePricer

open FlatBuffers Transition Transition.System

variable {env : Env} {messages : List Bytes}

/-- The pairs of a verified request lie inside the message. -/
theorem verified_pairs_le {msg : Bytes} (hmsg : verifyRangePricingRequestBuffer msg = true) :
    12 * (RangePricingRequest.ofBytes msg).pairs.length ≤ msg.length := by
  obtain ⟨passed, hpassed⟩ := exists_verified_root hmsg
  obtain ⟨entered, left, -, hfields, -⟩ := verifyTable_eq_some.mp hpassed
  simp only [Option.bind_eq_bind, check_bind_eq_some] at hfields
  obtain ⟨-, hfields⟩ := hfields
  obtain ⟨_, -, hfields⟩ := Option.bind_eq_some_iff.mp hfields
  obtain ⟨hvector, -⟩ := check_eq_some.mp (check_bind_eq_some.mp
    (check_bind_eq_some.mp hfields).2).2
  rw [RangePricingRequest.ofBytes, AlphaBetaPair.length_readVector]
  cases hvec : getPointer msg (getRoot msg) 8 with
  | none => exact Nat.zero_le _
  | some vec =>
      simp only [hvec, verifyVector, Option.all_some, verifyVectorAt, verifyRange,
        Bool.and_eq_true, decide_eq_true_eq] at hvector
      change 12 * vectorSize msg vec ≤ msg.length
      rw [vectorSize]
      omega

/-! ## How large the messages are -/

theorem batch_built (allocator : Allocator) {batch : BatchPricingRequest} {n : Nat}
    (hpairs : batch.pairs.length ≤ n) (hshort : 12 * n ≤ 2 ^ 27) :
    batch.buildIn allocator = .ok batch.toBytes := by
  have hlimit : maxBufferSize = 2 ^ 31 - 1 := rfl
  obtain ⟨-, -, hlength⟩ := @BatchPricingRequest.toBytes_accepted batch (by omega)
  exact BatchPricingRequest.buildIn_eq allocator (by omega)

/-- A response is built from as many results as its batch has pairs. -/
theorem response_built (allocator : Allocator) {batch : BatchPricingRequest}
    {response : BatchPricingResponse} {n : Nat} (hpairs : batch.pairs.length ≤ n)
    (hshort : 12 * n ≤ 2 ^ 27) (hreply : workerReply env batch = .response response) :
    response.buildIn allocator = .ok response.toBytes := by
  have hlimit : maxBufferSize = 2 ^ 31 - 1 := rfl
  have hverifies : batch.verifies = true := decide_eq_true (by omega)
  rw [workerReply, if_pos hverifies] at hreply
  cases haccepted : batch.request.accepted with
  | false =>
      obtain ⟨error, hprocess⟩ := process_rejected env.fp env.simd haccepted batch.pairs
        batch.batchCounterId
      rw [hprocess] at hreply
      cases hreply
  | true =>
      rw [process_accepted env.fp env.simd haccepted] at hreply
      obtain rfl := ResultMessage.response.inj hreply
      have hcount := batchResults_length env.fp env.simd batch.request batch.pairs
      have hlength := responseBytes_length_le batch.batchCounterId
        (batchResults env.fp env.simd batch.request batch.pairs)
      refine BatchPricingResponse.buildIn_eq allocator ?_
      rw [BatchPricingResponse.toBytes]
      dsimp only
      omega

/-- The reply has at most one result for each pair of its request. -/
theorem reply_built (allocator : Allocator) {msg : Bytes} {reply : RangePricingResponse}
    (hshort : msg.length ≤ 2 ^ 27) (hanswers : Answers env msg reply) :
    reply.buildIn allocator = .ok reply.toBytes := by
  have hlimit : maxBufferSize = 2 ^ 31 - 1 := rfl
  cases hverified : verifyRangePricingRequestBuffer msg with
  | false =>
      cases hanswers with
      | malformed _ hreply =>
          rw [hreply]
          exact RangePricingResponse.buildIn_eq allocator (by decide)
      | served hmsg _ =>
          rw [hverified] at hmsg
          cases hmsg
  | true =>
      obtain ⟨results, rfl, hperm, -⟩ := hanswers.exists_results hverified
      have hpairs := verified_pairs_le hverified
      have hcount := (@requestBatches_idx_sublist env msg hverified).length_le
      rw [List.length_map, List.length_map, ← hperm.length_eq] at hcount
      have hlength := responseBytes_length_le (RangePricingRequest.ofBytes msg).requestHash results
      refine RangePricingResponse.buildIn_eq allocator ?_
      rw [RangePricingResponse.toBytes]
      dsimp only
      omega

/-! ## Every buffer of a run -/

/-- Every buffer that is about to be built comes out as it should. -/
structure BuffersBuilt (env : Env) (allocator : Allocator) (state : State env.threads) :
    Prop where
  batches : ∀ rr batches sent, state.server = .dispatching rr batches sent →
    ∀ batch ∈ batches, batch.buildIn allocator = .ok batch.toBytes
  responses : ∀ i batch response, (state.workers i).phase = .pricing batch →
    workerReply env batch = .response response →
      response.buildIn allocator = .ok response.toBytes
  reply : ∀ reply, state.server = .replying reply → reply.buildIn allocator = .ok reply.toBytes

/-- What a worker prices was sliced from the message that is being served. -/
theorem exists_batch_of_pricing {state : State env.threads} {i : Fin env.threads}
    {batch : BatchPricingRequest} (hinv : Inventory env messages state)
    (hphase : (state.workers i).phase = .pricing batch) :
    ∃ msg batches other, msg ∈ messages ∧ verifyRangePricingRequestBuffer msg = true ∧
      expandToBatches (RangePricingRequest.ofBytes msg) env.simdLanes = .ok batches ∧
        other ∈ batches ∧ workerReply env other = workerReply env batch := by
  have hflight : workerReply env batch ∈ inFlight env state.workers := by
    refine Multiset.mem_sum.mpr ⟨i, Finset.mem_univ i, ?_⟩
    simp [Worker.inFlight, hphase, WorkerPhase.held]
  obtain ⟨answered, current, hsplit, -, haccounts⟩ := hinv
  generalize state.server = phase at haccounts
  generalize inFlight env state.workers = flight at haccounts hflight
  cases haccounts with
  | awaiting | replying | crashed => exact absurd hflight (Multiset.notMem_zero _)
  | dispatching msg batches sent hmsg hexpand hsent =>
      obtain ⟨other, hother, hsame⟩ := List.mem_map.mp (Multiset.mem_coe.mp hflight)
      exact ⟨msg, batches, other, by simp [hsplit], hmsg, hexpand,
        List.mem_of_mem_take hother, hsame⟩
  | collecting msg batches received _ hmsg hexpand htotal =>
      have hmember : workerReply env batch ∈ flight + (received : Multiset ResultMessage) :=
        Multiset.mem_add.mpr (.inl hflight)
      rw [htotal] at hmember
      obtain ⟨other, hother, hsame⟩ := List.mem_map.mp (Multiset.mem_coe.mp hmember)
      exact ⟨msg, batches, other, by simp [hsplit], hmsg, hexpand, hother, hsame⟩

/-- In every state of every run on messages of at most 128 MiB, whatever the threads have
done so far, each builder that is used next builds its message in memory. -/
theorem buffers_built (env : Env) (allocator : Allocator) (messages : List Bytes)
    (hshort : ∀ msg ∈ messages, msg.length ≤ 2 ^ 27) :
    ∀ state, (server env).Reachable (State.init env.threads messages) state →
      BuffersBuilt env allocator state := by
  intro state hreach
  have hinv := inventory_of_reachable hreach
  refine ⟨?_, ?_, ?_⟩
  · intro rr batches sent hserver batch hbatch
    obtain ⟨msg, hmsg, hverified, rfl, hexpand, -⟩ :=
      hinv.current_eq (show state.server.current = some (rr, batches) by rw [hserver]; rfl)
    have hsize := hshort msg (List.mem_of_getElem? hmsg)
    exact batch_built allocator (pairs_length_of_expandToBatches hexpand hbatch)
      ((verified_pairs_le hverified).trans hsize)
  · intro i batch response hphase hreply
    obtain ⟨msg, batches, other, hmsg, hverified, hexpand, hother, hsame⟩ :=
      exists_batch_of_pricing hinv hphase
    exact response_built allocator (pairs_length_of_expandToBatches hexpand hother)
      ((verified_pairs_le hverified).trans (hshort msg hmsg)) (hsame.trans hreply)
  · intro reply hserver
    obtain ⟨answered, current, hsplit, -, haccounts⟩ := hinv
    rw [hserver] at haccounts
    generalize inFlight env state.workers = flight at haccounts
    cases haccounts with
    | replying msg _ hanswers =>
        exact reply_built allocator (hshort msg (by simp [hsplit])) hanswers

/-- A worker prices the first of three batches while the others are still to be sent. -/
theorem buffers_built_sample :
    ∃ state : State Env.sample.threads, state.server matches .dispatching _ [_, _, _] 1 ∧
      (∀ i, (state.workers i).phase matches .pricing _) ∧
        BuffersBuilt Env.sample .sample state := by
  have hrun : ((server Env.sample).run? (State.init Env.sample.threads
      [(RangePricingRequest.sample [.sample 0, .sample 1, .sample 2]).toBytes])
      ([.connectPull 0, .connectPush 0, .frontendRecv, .dispatchSend 0, .pullRecv 0] :
        List (Action 1))).map
        (fun state => decide (state.server matches .dispatching _ [_, _, _] 1 ∧
          ∀ i, (state.workers i).phase matches .pricing _)) = some true := by
    decide +kernel
  obtain ⟨state, hstate, hphases⟩ := Option.map_eq_some_iff.mp hrun
  obtain ⟨hserver, hworkers⟩ := of_decide_eq_true hphases
  refine ⟨state, hserver, hworkers, buffers_built Env.sample .sample
    [(RangePricingRequest.sample [.sample 0, .sample 1, .sample 2]).toBytes] ?_ state
    (reachable_of_run? hstate)⟩
  intro msg hmsg
  rw [List.mem_singleton.mp hmsg]
  decide +kernel

end RangePricer
