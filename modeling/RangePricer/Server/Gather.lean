import RangePricer.Codec.Requests
import RangePricer.Server.Replies

/-!
# Scatter and gather

The results about whole runs: requests do not mix, a reply is the sorted list of
everything its request asked for unless a batch is too large to be collected,
and the order in which workers finish shows only among results with equal `idx`.
-/

namespace RangePricer

open FlatBuffers Transition Transition.System

variable {env : Env} {messages : List Bytes}

/-! ## Requests do not mix -/

namespace ServerPhase

/-- Batches sent for the current request, while they are being accounted for. -/
def dispatched : ServerPhase → Nat
  | .dispatching _ _ sent => sent
  | .collecting _ batches _ _ => batches.length
  | .awaiting | .replying _ | .crashed _ => 0

/-- Messages already collected for the current request. -/
def received : ServerPhase → Nat
  | .collecting _ _ received _ => received
  | .awaiting | .dispatching .. | .replying _ | .crashed _ => 0

/-- The request being dispatched or collected, with its batches. -/
def current : ServerPhase → Option (RangePricingRequest × List BatchPricingRequest)
  | .dispatching rr batches _ | .collecting rr batches _ _ => some (rr, batches)
  | .awaiting | .replying _ | .crashed _ => none

end ServerPhase

/-- `result` is one of the results a worker computed from `batch`. -/
def ComputedFrom (env : Env) (batch : BatchPricingRequest) (result : PricingResponse) : Prop :=
  ∃ response, workerReply env batch = .response response ∧
    ∃ r ∈ response.results.getD [],
      result = createPricingResponse r.idx r.alpha r.beta r.price r.hedgeRatio

/-- The reply belongs to the message and to no other. -/
structure AnswersOnly (env : Env) (msg : Bytes) (reply : RangePricingResponse) : Prop where
  malformed : verifyRangePricingRequestBuffer msg = false → reply = ⟨0, none⟩
  requestHash : verifyRangePricingRequestBuffer msg = true →
    reply.requestHash = (RangePricingRequest.ofBytes msg).requestHash
  results : verifyRangePricingRequestBuffer msg = true →
    ∃ batches, expandToBatches (RangePricingRequest.ofBytes msg) env.simdLanes = .ok batches ∧
      ∀ result ∈ reply.results.getD [], ∃ batch ∈ batches, ComputedFrom env batch result

theorem Answers.only {msg : Bytes} {reply : RangePricingResponse}
    (hanswers : Answers env msg reply) : AnswersOnly env msg reply := by
  cases hanswers with
  | malformed hmsg hreply =>
      refine ⟨fun _ => hreply, fun hgood => ?_, fun hgood => ?_⟩
      · rw [hmsg] at hgood
        cases hgood
      · rw [hmsg] at hgood
        cases hgood
  | served hmsg hgathered =>
      obtain ⟨batches, received, hexpand, hreceived, rfl⟩ := hgathered.exists_order
      refine ⟨fun hbad => ?_, fun _ => rfl, fun _ => ⟨batches, hexpand, fun result hresult => ?_⟩⟩
      · rw [hmsg] at hbad
        cases hbad
      · obtain ⟨r, hr, rfl⟩ := List.mem_map.mp hresult
        have hcontribution := (received_perm_contributions hreceived).subset
          ((env.sort.perm _).subset hr)
        obtain ⟨batch, hbatch, hcollected⟩ := List.mem_flatMap.mp hcontribution
        refine ⟨batch, hbatch, ?_⟩
        cases hreply : workerReply env batch with
        | empty => simp [hreply, collect] at hcollected
        | response response =>
            simp only [hreply, collect] at hcollected
            split at hcollected
            · exact ⟨response, hreply, r, hcollected, rfl⟩
            · cases hcollected

/-- What the inventory says about the request being served. -/
theorem Inventory.current_eq {state : State env.threads} {rr : RangePricingRequest}
    {batches : List BatchPricingRequest} (hinv : Inventory env messages state)
    (hcurrent : state.server.current = some (rr, batches)) :
    ∃ msg, messages[state.replies.length]? = some msg ∧
      verifyRangePricingRequestBuffer msg = true ∧ rr = RangePricingRequest.ofBytes msg ∧
        expandToBatches rr env.simdLanes = .ok batches ∧
          inFlight env state.workers ≤
            ((batches.map (workerReply env) : List ResultMessage) : Multiset ResultMessage) := by
  obtain ⟨answered, current, hsplit, hreplies, haccounts⟩ := hinv
  have hposition (msg : Bytes) (hmsg : current = [msg]) :
      messages[state.replies.length]? = some msg := by
    rw [hsplit, hmsg, ← hreplies.length_eq, List.append_assoc]
    simp
  generalize state.server = phase at haccounts hcurrent
  generalize inFlight env state.workers = flight at haccounts ⊢
  cases haccounts with
  | awaiting | replying | crashed => cases hcurrent
  | dispatching msg _ sent hmsg hexpand hsent =>
      obtain ⟨rfl, rfl⟩ := Prod.mk.inj (Option.some.inj hcurrent)
      refine ⟨msg, hposition msg rfl, hmsg, rfl, hexpand, ?_⟩
      exact Multiset.coe_le.mpr ((List.take_sublist _ _).map _).subperm
  | collecting msg _ received flight hmsg hexpand htotal =>
      obtain ⟨rfl, rfl⟩ := Prod.mk.inj (Option.some.inj hcurrent)
      exact ⟨msg, hposition msg rfl, hmsg, rfl, hexpand, htotal ▸ Multiset.le_add_right _ _⟩

theorem Inventory.dispatched_eq {state : State env.threads} (hinv : Inventory env messages state) :
    state.server.dispatched = (inFlight env state.workers).card + state.server.received := by
  cases hserver : state.server with
  | dispatching rr batches sent => exact (hinv.sent_eq hserver).1.symm
  | collecting rr batches received allResults => exact (hinv.received_eq hserver).symm
  | awaiting | replying | crashed =>
      obtain ⟨current, haccounts⟩ := hinv.accounts hserver
      generalize inFlight env state.workers = flight at haccounts
      cases haccounts
      rfl

/-- The requests of a run do not mix. -/
structure Isolated (env : Env) (messages : List Bytes) (state : State env.threads) : Prop where
  /-- What was dispatched is in the pipes, with the workers, or received. -/
  count : state.server.dispatched =
    poolSum (fun worker => worker.dispatchPipe.length) state.workers +
      poolSum Worker.heldCount state.workers +
        poolSum (fun worker => worker.resultsPipe.length) state.workers + state.server.received
  /-- Nothing is left over between two requests. -/
  quiet : state.server = .awaiting → ∀ i, (state.workers i).Quiet
  /-- Everything under way belongs to the message the next reply answers. -/
  current : ∀ rr batches, state.server.current = some (rr, batches) →
    ∃ msg, messages[state.replies.length]? = some msg ∧
      verifyRangePricingRequestBuffer msg = true ∧ rr = RangePricingRequest.ofBytes msg ∧
        expandToBatches rr env.simdLanes = .ok batches ∧
          inFlight env state.workers ≤
            ((batches.map (workerReply env) : List ResultMessage) : Multiset ResultMessage)
  /-- Each reply is made from its own message. -/
  replies : ∀ (k : Nat) reply, state.replies[k]? = some reply →
    ∃ msg, messages[k]? = some msg ∧ AnswersOnly env msg reply

/-- Requests are isolated from each other in every reachable state. -/
theorem request_isolation (env : Env) (messages : List Bytes) (state : State env.threads)
    (hreach : (server env).Reachable (State.init env.threads messages) state) :
    Isolated env messages state := by
  have hinv := inventory_of_reachable hreach
  have hcount := hinv.dispatched_eq
  refine ⟨?_, fun hawaiting => ?_, fun _ _ => hinv.current_eq, fun k reply hreply => ?_⟩
  · rw [hcount, card_inFlight]
  · rw [hawaiting] at hcount
    simp only [ServerPhase.dispatched, ServerPhase.received] at hcount
    exact inFlight_eq_zero_iff.mp (Multiset.card_eq_zero.mp (by omega))
  · obtain ⟨msg, hmsg, hanswers⟩ := answers_of_reachable hreach hreply
    exact ⟨msg, hmsg, hanswers.only⟩

/-- Both batches are priced; the results are collected from `first`, then from `second`. -/
def sampleSchedule (first second : Fin 2) : List (Action 2) :=
  [.connectPull 0, .connectPush 0, .connectPull 1, .connectPush 1, .frontendRecv,
    .dispatchSend 0, .dispatchSend 1, .endDispatch, .pullRecv 0, .priceBatch 0, .pushSend 0,
    .pullRecv 1, .priceBatch 1, .pushSend 1, .resultsRecv first, .resultsRecv second,
    .endCollect, .frontendSend]

/-- Of the third message one batch is answered, one held and one still in its pipe. -/
def sampleIsolation : List (Action 2) :=
  sampleSchedule 1 0 ++ [.frontendRecv, .frontendSend, .frontendRecv, .dispatchSend 0,
    .dispatchSend 1, .pullRecv 0, .pullRecv 1, .priceBatch 1, .pushSend 1, .dispatchSend 1]

/-- Two workers and a malformed message between two requests, the second of which
has three batches under way. -/
theorem request_isolation_sample :
    ∃ state : State (Env.sample.withPipes 2 1 1).threads,
      state.replies.length = 2 ∧ state.server.dispatched = 3 ∧ state.server.received = 0 ∧
        Isolated (Env.sample.withPipes 2 1 1)
          [(RangePricingRequest.sample [.sample 0, .sample 1]).toBytes, [0],
            (RangePricingRequest.sample [.sample 2, .sample 3, .sample 4]).toBytes] state := by
  have hrun : ((server (Env.sample.withPipes 2 1 1)).run?
      (State.init (Env.sample.withPipes 2 1 1).threads
        [(RangePricingRequest.sample [.sample 0, .sample 1]).toBytes, [0],
          (RangePricingRequest.sample [.sample 2, .sample 3, .sample 4]).toBytes])
        sampleIsolation).map (fun state => decide (state.replies.length = 2 ∧
          state.server.dispatched = 3 ∧ state.server.received = 0)) = some true := by
    decide +kernel
  obtain ⟨state, hstate, hcounts⟩ := Option.map_eq_some_iff.mp hrun
  obtain ⟨hreplies, hsent, hreceived⟩ := of_decide_eq_true hcounts
  exact ⟨state, hreplies, hsent, hreceived,
    request_isolation _ _ state (reachable_of_run? hstate)⟩

/-! ## A reply is complete, sorted and canonical -/

/-- The results a request asked for. -/
structure ServesRequest (rr : RangePricingRequest) (results : List PricingResponse) : Prop where
  rejected : rr.request.accepted = false → results = []
  sorted : rr.request.accepted = true → results.Pairwise (fun a b => a.idx ≤ b.idx)
  complete : rr.request.accepted = true →
    (results.map (·.pair)).Perm (rr.pairs.map (·.unsigned))
  canonical : rr.request.accepted = true → (rr.pairs.map (·.idx)).Nodup →
    results.map (·.pair) =
      (rr.pairs.map (·.unsigned)).mergeSort (fun p q => decide (p.idx ≤ q.idx))

/-- Sorted lists of pairs with distinct `idx` are determined by their elements. -/
theorem eq_of_perm_sorted {first second : List AlphaBetaPair} (hperm : first.Perm second)
    (hfirst : first.Pairwise (fun p q => p.idx ≤ q.idx))
    (hsecond : second.Pairwise (fun p q => p.idx ≤ q.idx))
    (hdistinct : (first.map (·.idx)).Nodup) : first = second := by
  refine List.Perm.eq_of_pairwise (fun p q hp hq hpq hqp => ?_) hfirst hsecond hperm
  exact List.inj_on_of_nodup_map hdistinct hp (hperm.symm.subset hq) (UInt32.le_antisymm hpq hqp)

/-- A sorted list of all results is the canonical one when no `idx` repeats. -/
theorem canonical_of_complete {pairs : List AlphaBetaPair} {results : List PricingResponse}
    (hsorted : results.Pairwise (fun a b => a.idx ≤ b.idx))
    (hcomplete : (results.map (·.pair)).Perm (pairs.map (·.unsigned)))
    (hdistinct : (pairs.map (·.idx)).Nodup) :
    results.map (·.pair) =
      (pairs.map (·.unsigned)).mergeSort (fun p q => decide (p.idx ≤ q.idx)) := by
  refine eq_of_perm_sorted (hcomplete.trans (List.mergeSort_perm _ _).symm) ?_ ?_ ?_
  · exact List.pairwise_map.mpr hsorted
  · have htrans (p q r : AlphaBetaPair) (hpq : decide (p.idx ≤ q.idx) = true)
        (hqr : decide (q.idx ≤ r.idx) = true) : decide (p.idx ≤ r.idx) = true :=
      decide_eq_true (UInt32.le_trans (of_decide_eq_true hpq) (of_decide_eq_true hqr))
    have htotal (p q : AlphaBetaPair) :
        (decide (p.idx ≤ q.idx) || decide (q.idx ≤ p.idx)) = true := by
      simpa using UInt32.le_total p.idx q.idx
    simpa using List.pairwise_mergeSort htrans htotal (pairs.map (·.unsigned))
  · rw [(hcomplete.map _).nodup_iff, map_idx_unsigned]
    exact hdistinct

/-- A rejected request contributes nothing. -/
theorem contributions_rejected {msg : Bytes} (hmsg : verifyRangePricingRequestBuffer msg = true)
    (hrejected : (RangePricingRequest.ofBytes msg).request.accepted = false) :
    contributions env (requestBatches env msg) = [] := by
  refine List.flatMap_eq_nil_iff.mpr fun batch hbatch => collect_rejected ?_
  rw [(mem_requestBatches hmsg hbatch).1, batchParams_accepted, hrejected]

/-- The batches of a request in range carry all its pairs. -/
theorem flatMap_requestBatches (msg : Bytes) (hlanes : 1 ≤ env.simdLanes)
    (hfits : ((RangePricingRequest.ofBytes msg).pairs.length : Int) + env.simdLanes - 1 ≤ intMax) :
    (requestBatches env msg).flatMap (·.pairs) = (RangePricingRequest.ofBytes msg).pairs := by
  rw [requestBatches, slicedBatches_eq hlanes hfits]
  exact flatMap_chunkBatches _ (by omega)

/-- Batches within the verifier's table limit contribute every pair exactly once. -/
theorem contributions_accepted {msg : Bytes} (hmsg : verifyRangePricingRequestBuffer msg = true)
    (haccepted : (RangePricingRequest.ofBytes msg).request.accepted = true)
    (hsmall : min (RangePricingRequest.ofBytes msg).pairs.length env.simdLanes.toNat < maxTables) :
    (contributions env (requestBatches env msg)).map (·.pair) =
      ((requestBatches env msg).flatMap (·.pairs)).map (·.unsigned) := by
  rw [contributions, List.map_flatMap, List.map_flatMap]
  apply List.flatMap_congr
  intro batch hbatch
  obtain ⟨hrequest, hlength, hpairs⟩ := mem_requestBatches hmsg hbatch
  have hbatchAccepted : batch.request.accepted = true := by
    rw [hrequest, batchParams_accepted, haccepted]
  rw [collect_accepted hpairs hbatchAccepted, if_pos (hlength.trans_lt hsmall),
    map_pair_batchResults]

/-- The contributions have the `idx` of the pairs in their order, with gaps. -/
theorem contributions_idx_sublist {batches : List BatchPricingRequest}
    (hbatches : ∀ batch ∈ batches, batch.pairs.length < maxBufferSize / 12) :
    ((contributions env batches).map (·.idx)).Sublist
      ((batches.flatMap (·.pairs)).map (·.idx)) := by
  induction batches with
  | nil => exact List.Sublist.refl _
  | cons batch rest ih =>
      have hhead : ((collect (workerReply env batch)).map (·.idx)).Sublist _ :=
        collect_idx_sublist (hbatches batch List.mem_cons_self)
      have htail := ih fun other hother => hbatches other (List.mem_cons_of_mem _ hother)
      simp only [contributions, List.flatMap_cons, List.map_append] at htail ⊢
      exact hhead.append htail

/-- In range or not, only pairs of the request come back, in their order. -/
theorem requestBatches_idx_sublist {msg : Bytes}
    (hmsg : verifyRangePricingRequestBuffer msg = true) :
    ((contributions env (requestBatches env msg)).map (·.idx)).Sublist
      ((RangePricingRequest.ofBytes msg).pairs.map (·.idx)) := by
  have hall : ((requestBatches env msg).flatMap (·.pairs)).Sublist
      (RangePricingRequest.ofBytes msg).pairs := by
    rw [requestBatches, slicedBatches]
    split
    · next hrange => rw [flatMap_chunkBatches _ (by omega)]
    · exact List.nil_sublist _
  exact (contributions_idx_sublist fun batch hbatch => (mem_requestBatches hmsg hbatch).2.2).trans
    (hall.map _)

/-- A first batch beyond the table limit is lost. -/
theorem contributions_length_lt {msg : Bytes} (hmsg : verifyRangePricingRequestBuffer msg = true)
    (hlanes : 1 ≤ env.simdLanes)
    (hfits : ((RangePricingRequest.ofBytes msg).pairs.length : Int) + env.simdLanes - 1 ≤ intMax)
    (haccepted : (RangePricingRequest.ofBytes msg).request.accepted = true)
    (hlarge : maxTables ≤
      min (RangePricingRequest.ofBytes msg).pairs.length env.simdLanes.toNat) :
    (contributions env (requestBatches env msg)).length <
      (RangePricingRequest.ofBytes msg).pairs.length := by
  have htables : 0 < maxTables := by decide
  rw [← flatMap_requestBatches msg hlanes hfits]
  cases hbatches : requestBatches env msg with
  | nil =>
      have hpairs := flatMap_requestBatches msg hlanes hfits
      rw [hbatches, List.flatMap_nil] at hpairs
      rw [← hpairs, List.length_nil, Nat.zero_min] at hlarge
      omega
  | cons first rest =>
      have hfirst : first = chunkBatch (RangePricingRequest.ofBytes msg) env.simdLanes.toNat 0 := by
        have hget : (requestBatches env msg)[0]? = some first := by rw [hbatches]; rfl
        rw [requestBatches, slicedBatches_eq hlanes hfits] at hget
        simp only [chunkBatches, List.getElem?_map] at hget
        obtain ⟨c, hc, rfl⟩ := Option.map_eq_some_iff.mp hget
        obtain ⟨_, rfl⟩ := List.getElem?_eq_some_iff.mp hc
        rw [List.getElem_range]
      have hmem (batch : BatchPricingRequest) (hbatch : batch ∈ first :: rest) :
          batch.request = _ ∧ _ :=
        mem_requestBatches hmsg (hbatches ▸ hbatch)
      obtain ⟨hrequest, -, hpairs⟩ := hmem first List.mem_cons_self
      have hlength : maxTables ≤ first.pairs.length := by
        rw [hfirst, chunkBatch_pairs_length]
        omega
      have hlost : collect (workerReply env first) = [] := by
        have hbatchAccepted : first.request.accepted = true := by
          rw [hrequest, batchParams_accepted, haccepted]
        rw [collect_accepted hpairs hbatchAccepted, if_neg (Nat.not_lt.mpr hlength)]
      have hrest : ((contributions env rest).map (·.idx)).Sublist _ :=
        contributions_idx_sublist fun batch hbatch =>
          (hmem batch (List.mem_cons_of_mem _ hbatch)).2.2
      have hle := hrest.length_le
      simp only [contributions, List.flatMap_cons, hlost, List.nil_append, List.length_map,
        List.length_append] at hle ⊢
      omega

theorem Sent.exists_results {msg : Bytes} {reply : RangePricingResponse}
    {threads dispatchHwm resultsHwm : Nat}
    (hmsg : verifyRangePricingRequestBuffer msg = true)
    (hsent : Sent (env.withPipes threads dispatchHwm resultsHwm) msg reply) :
    ∃ results : List PricingResponse,
      reply = ⟨(RangePricingRequest.ofBytes msg).requestHash, some results⟩ ∧
        results.Perm (contributions env (requestBatches env msg)) ∧
          results.Pairwise (fun a b => a.idx ≤ b.idx) :=
  @Answers.exists_results (env.withPipes threads dispatchHwm resultsHwm) msg reply hmsg
    hsent.answers

/-- A request whose first batch is lost gets a reply that does not serve it. -/
theorem exists_sent_incomplete {msg : Bytes} (hmsg : verifyRangePricingRequestBuffer msg = true)
    (hlanes : 1 ≤ env.simdLanes)
    (hfits : ((RangePricingRequest.ofBytes msg).pairs.length : Int) + env.simdLanes - 1 ≤ intMax)
    (haccepted : (RangePricingRequest.ofBytes msg).request.accepted = true)
    (hlarge : maxTables ≤
      min (RangePricingRequest.ofBytes msg).pairs.length env.simdLanes.toNat) :
    ∃ room, 1 ≤ room ∧ ∃ reply, Sent (env.withPipes 1 room 1) msg reply ∧
      ∀ results, reply.results = some results →
        ¬ ServesRequest (RangePricingRequest.ofBytes msg) results := by
  obtain ⟨room, hroom, reply, hsent⟩ :=
    exists_sent_withPipes hmsg (expandToBatches_fits hlanes hfits)
  refine ⟨room, hroom, reply, hsent, fun results hresults hserved => ?_⟩
  obtain ⟨_, hreply, hperm, -⟩ := hsent.exists_results hmsg
  rw [hreply] at hresults
  cases hresults
  have hlost := contributions_length_lt hmsg hlanes hfits haccepted hlarge
  have hcomplete := (hserved.complete haccepted).length_eq
  rw [List.length_map, List.length_map, hperm.length_eq] at hcomplete
  omega

/-- Every reply to a verified request, for any number of workers, any pipes and
any interleaving, serves the request, exactly when its parameters are rejected
or no batch reaches the verifier's table limit. -/
theorem gather_serves_iff (env : Env) (msg : Bytes)
    (hmsg : verifyRangePricingRequestBuffer msg = true) (hlanes : 1 ≤ env.simdLanes)
    (hfits : ((RangePricingRequest.ofBytes msg).pairs.length : Int) + env.simdLanes ≤ intMax) :
    (∀ threads dispatchHwm resultsHwm reply, 1 ≤ threads → 1 ≤ dispatchHwm → 1 ≤ resultsHwm →
      Sent (env.withPipes threads dispatchHwm resultsHwm) msg reply →
        ∃ results, reply.results = some results ∧
          ServesRequest (RangePricingRequest.ofBytes msg) results) ↔
      (RangePricingRequest.ofBytes msg).request.accepted = false ∨
        min (RangePricingRequest.ofBytes msg).pairs.length env.simdLanes.toNat < maxTables := by
  have hrange : ((RangePricingRequest.ofBytes msg).pairs.length : Int) + env.simdLanes - 1 ≤
      intMax := by
    omega
  constructor
  · intro hserves
    by_contra hcondition
    rw [not_or, Bool.not_eq_false, not_lt] at hcondition
    obtain ⟨haccepted, hlarge⟩ := hcondition
    obtain ⟨room, hroom, reply, hsent, hincomplete⟩ :=
      exists_sent_incomplete hmsg hlanes hrange haccepted hlarge
    obtain ⟨results, hresults, hserved⟩ := hserves 1 room 1 reply le_rfl hroom le_rfl hsent
    exact hincomplete results hresults hserved
  · intro hcondition threads dispatchHwm resultsHwm reply _ _ _ hsent
    obtain ⟨results, hreply, hperm, hsorted⟩ := hsent.exists_results hmsg
    refine ⟨results, by rw [hreply], ?_⟩
    cases haccepted : (RangePricingRequest.ofBytes msg).request.accepted with
    | false =>
        rw [contributions_rejected hmsg haccepted] at hperm
        obtain rfl := hperm.eq_nil
        refine ⟨fun _ => rfl, ?_, ?_, ?_⟩ <;> intro h <;> rw [haccepted] at h <;> cases h
    | true =>
        have hsmall := hcondition.resolve_left (by rw [haccepted]; decide)
        have hcomplete := hperm.map (·.pair)
        rw [contributions_accepted hmsg haccepted hsmall, flatMap_requestBatches msg hlanes hrange]
          at hcomplete
        refine ⟨fun h => ?_, fun _ => hsorted, fun _ => hcomplete, fun _ hdistinct => ?_⟩
        · rw [haccepted] at h
          cases h
        · exact canonical_of_complete hsorted hcomplete hdistinct

theorem gather_serves_sample :
    (RangePricingRequest.ofBytes
        (RangePricingRequest.sample [.sample 1, .sample 0]).toBytes).request.accepted = true ∧
      ∀ threads dispatchHwm resultsHwm reply, 1 ≤ threads → 1 ≤ dispatchHwm → 1 ≤ resultsHwm →
        Sent (Env.sample.withPipes threads dispatchHwm resultsHwm)
            (RangePricingRequest.sample [.sample 1, .sample 0]).toBytes reply →
          ∃ results, reply.results = some results ∧
            ServesRequest (RangePricingRequest.ofBytes
              (RangePricingRequest.sample [.sample 1, .sample 0]).toBytes) results :=
  ⟨by decide +kernel,
    (gather_serves_iff Env.sample _ (by decide +kernel) (by decide) (by decide +kernel)).mpr
      (.inr (by decide +kernel))⟩

/-- As many equal pairs as the verifier admits tables. -/
def sampleLarge : RangePricingRequest := .sample (List.replicate maxTables (.sample 0))

/-- A server that slices as many pairs at a time. -/
def Env.sampleLarge : Env :=
  { Env.sample with simdLanes := maxTables, simdLanes_int := by decide }

theorem sampleLarge_accepted :
    verifyRangePricingRequestBuffer sampleLarge.toBytes = true ∧
      (RangePricingRequest.ofBytes sampleLarge.toBytes).request.accepted = true ∧
        (RangePricingRequest.ofBytes sampleLarge.toBytes).pairs.length = maxTables := by
  have hlength : sampleLarge.pairs.length = maxTables := List.length_replicate
  obtain ⟨hverify, hread⟩ :=
    RangePricingRequest.toBytes_accepted (show sampleLarge.pairs.length < maxBufferSize / 12 by
      rw [hlength]
      decide)
  rw [hread]
  exact ⟨hverify, by decide, hlength⟩

theorem sampleLarge_fits :
    ((RangePricingRequest.ofBytes sampleLarge.toBytes).pairs.length : Int) +
      Env.sampleLarge.simdLanes ≤ intMax := by
  rw [sampleLarge_accepted.2.2]
  decide

/-- A server that slices a million pairs at a time loses all of them. -/
theorem not_gather_serves :
    ¬ ∀ (env : Env) (msg : Bytes), verifyRangePricingRequestBuffer msg = true →
      1 ≤ env.simdLanes →
        ((RangePricingRequest.ofBytes msg).pairs.length : Int) + env.simdLanes ≤ intMax →
          ∀ threads dispatchHwm resultsHwm reply, 1 ≤ threads → 1 ≤ dispatchHwm →
            1 ≤ resultsHwm → Sent (env.withPipes threads dispatchHwm resultsHwm) msg reply →
              ∃ results, reply.results = some results ∧
                ServesRequest (RangePricingRequest.ofBytes msg) results := by
  intro hserves
  obtain ⟨hverify, haccepted, hlength⟩ := sampleLarge_accepted
  obtain ⟨room, hroom, reply, hsent, hincomplete⟩ :=
    @exists_sent_incomplete Env.sampleLarge sampleLarge.toBytes hverify (by decide)
      (Int.le_of_lt (Int.sub_one_lt_of_le sampleLarge_fits)) haccepted
      (by rw [hlength]; exact (Nat.min_self maxTables).ge)
  obtain ⟨results, hresults, hserved⟩ := hserves Env.sampleLarge _ hverify (by decide)
    sampleLarge_fits 1 room 1 reply le_rfl hroom le_rfl hsent
  exact hincomplete results hresults hserved

/-! ## Schedules -/

theorem sent_of_run? {msg : Bytes} {reply : RangePricingResponse}
    (actions : List (Action env.threads))
    (hrun : ((server env).run? (State.init env.threads [msg]) actions).map
      (fun state => state.replies) = some [reply]) : Sent env msg reply := by
  obtain ⟨state, hstate, hreplies⟩ := Option.map_eq_some_iff.mp hrun
  exact ⟨[msg], state, 0, reachable_of_run? hstate, rfl, by rw [hreplies]; rfl⟩

/-- Two replies to one request hold the same results with the same sequence of
`idx`, and are equal when results that share an `idx` are. -/
theorem schedule_independent (env : Env) (msg : Bytes)
    (hmsg : verifyRangePricingRequestBuffer msg = true) (_hlanes : 1 ≤ env.simdLanes)
    {threads threads' dispatchHwm dispatchHwm' resultsHwm resultsHwm' : Nat}
    {reply reply' : RangePricingResponse}
    (hsent : Sent (env.withPipes threads dispatchHwm resultsHwm) msg reply)
    (hsent' : Sent (env.withPipes threads' dispatchHwm' resultsHwm') msg reply') :
    ∃ results results', reply.results = some results ∧ reply'.results = some results' ∧
      results.Perm results' ∧ results.map (·.idx) = results'.map (·.idx) ∧
        ((∀ a ∈ results, ∀ b ∈ results, a.idx = b.idx → a = b) → reply = reply') ∧
          (((RangePricingRequest.ofBytes msg).pairs.map (·.idx)).Nodup → reply = reply') := by
  obtain ⟨results, rfl, hperm, hsorted⟩ := hsent.exists_results hmsg
  obtain ⟨results', rfl, hperm', hsorted'⟩ := hsent'.exists_results hmsg
  have hsame : results.Perm results' := hperm.trans hperm'.symm
  have hequal (hties : ∀ a ∈ results, ∀ b ∈ results, a.idx = b.idx → a = b) :
      results = results' := by
    refine hsame.eq_of_pairwise (fun a b ha hb hab hba => ?_) hsorted hsorted'
    exact hties a ha b (hsame.symm.subset hb) (UInt32.le_antisymm hab hba)
  refine ⟨results, results', rfl, rfl, hsame, ?_, fun hties => ?_, fun hdistinct => ?_⟩
  · exact (hsame.map _).eq_of_pairwise (fun a b _ _ hab hba => UInt32.le_antisymm hab hba)
      (List.pairwise_map.mpr hsorted) (List.pairwise_map.mpr hsorted')
  · rw [hequal hties]
  · have hsub := @requestBatches_idx_sublist env msg hmsg
    have hnodup : (results.map (·.idx)).Nodup :=
      (hperm.map _).nodup_iff.mpr (hsub.nodup hdistinct)
    rw [hequal fun a ha b hb hidx => List.inj_on_of_nodup_map hnodup ha hb hidx]

/-- Two workers and two pairs with one `idx`. -/
def sampleRepeated : RangePricingRequest :=
  .sample [⟨0, ⟨0x3f800000⟩, ⟨0x3f800000⟩⟩, ⟨0, ⟨0x40000000⟩, ⟨0x40000000⟩⟩]

/-- The result of the pair `(x, x)` of `sampleRepeated`. -/
def sampleResult (x : Binary32) : PricingResponse := ⟨0, x, x, ⟨0x3f6eb15c⟩, Binary32.zero⟩

theorem sent_sampleSchedule :
    Sent (Env.sample.withPipes 2 1 1) sampleRepeated.toBytes
        ⟨1, some [sampleResult ⟨0x3f800000⟩, sampleResult ⟨0x40000000⟩]⟩ ∧
      Sent (Env.sample.withPipes 2 1 1) sampleRepeated.toBytes
        ⟨1, some [sampleResult ⟨0x40000000⟩, sampleResult ⟨0x3f800000⟩]⟩ :=
  ⟨sent_of_run? (sampleSchedule 0 1) (by decide +kernel),
    sent_of_run? (sampleSchedule 1 0) (by decide +kernel)⟩

theorem schedule_independent_sample :
    ∃ results results', some [sampleResult ⟨0x3f800000⟩, sampleResult ⟨0x40000000⟩] = some results ∧
      some [sampleResult ⟨0x40000000⟩, sampleResult ⟨0x3f800000⟩] = some results' ∧
        results.Perm results' ∧ results.map (·.idx) = results'.map (·.idx) := by
  obtain ⟨results, results', hresults, hresults', hperm, hidx, -⟩ :=
    schedule_independent Env.sample sampleRepeated.toBytes (by decide +kernel) (by decide)
      sent_sampleSchedule.1 sent_sampleSchedule.2
  exact ⟨results, results', hresults, hresults', hperm, hidx⟩

/-- With a repeated `idx` the order of the results depends on the schedule. -/
theorem not_schedule_independent :
    ¬ ∀ (env : Env) (msg : Bytes), verifyRangePricingRequestBuffer msg = true →
      1 ≤ env.simdLanes →
        ∀ threads threads' dispatchHwm resultsHwm reply reply',
          Sent (env.withPipes threads dispatchHwm resultsHwm) msg reply →
            Sent (env.withPipes threads' dispatchHwm resultsHwm) msg reply' → reply = reply' := by
  intro hindependent
  have hequal := hindependent Env.sample sampleRepeated.toBytes (by decide +kernel) (by decide)
    2 2 1 1 _ _ sent_sampleSchedule.1 sent_sampleSchedule.2
  revert hequal
  decide

end RangePricer
