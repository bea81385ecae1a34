import RangePricer.Codec.CheckedReads
import RangePricer.Server.Wire

/-!
# No thread reads outside a message

The messages between the server and its workers are followed to their root before
they are verified.  All of them are built by the server or by a worker, so they
have one; and what is verified reads back.  In every state of every run each thread
can therefore parse the message it takes next, whatever the clients have sent.
-/

namespace RangePricer

open FlatBuffers Transition Transition.System

variable {env : Env} {messages : List Bytes}

/-! ## What is under way was sliced from a verified request -/

/-- What the slicing of a verified request makes. -/
structure BatchPricingRequest.Sliced (batch : BatchPricingRequest) : Prop where
  params : ∃ params, batch.request = batchParams params
  pairs : batch.pairs.length < maxBufferSize / 12

/-- A worker makes the message from a sliced batch. -/
def ResultMessage.FromSliced (env : Env) (msg : ResultMessage) : Prop :=
  ∃ batch : BatchPricingRequest, batch.Sliced ∧ msg = workerReply env batch

structure Worker.Carries (env : Env) (worker : Worker) : Prop where
  dispatchPipe : ∀ batch ∈ worker.dispatchPipe, batch.Sliced
  pricing : ∀ batch, worker.phase = .pricing batch → batch.Sliced
  pushing : ∀ msg, worker.phase = .pushing msg → msg.FromSliced env
  resultsPipe : ∀ msg ∈ worker.resultsPipe, msg.FromSliced env

structure Carries (env : Env) (state : State env.threads) : Prop where
  batches : ∀ rr batches sent, state.server = .dispatching rr batches sent →
    ∀ batch ∈ batches, batch.Sliced
  workers : ∀ i, (state.workers i).Carries env

/-- A chunk has at most the pairs of its request, whatever the width. -/
theorem pairs_length_of_expandToBatches {rr : RangePricingRequest} {simdLanes : Int}
    {batches : List BatchPricingRequest} (hexpand : expandToBatches rr simdLanes = .ok batches)
    {batch : BatchPricingRequest} (hbatch : batch ∈ batches) :
    batch.pairs.length ≤ rr.pairs.length := by
  obtain ⟨chunks, -, hexpand⟩ := bind_eq_ok.mp hexpand
  obtain ⟨_, -, hexpand⟩ := bind_eq_ok.mp hexpand
  obtain ⟨c, hslice⟩ := exists_of_mem_mapM hexpand hbatch
  obtain ⟨_, -, hslice⟩ := bind_eq_ok.mp hslice
  rw [← Except.ok.inj hslice]
  simp only [List.length_take, List.length_drop]
  omega

theorem handleMessage_sliced {msg : Bytes} {rr : RangePricingRequest}
    {batches : List BatchPricingRequest} {sent : Nat}
    (hphase : handleMessage env msg = .dispatching rr batches sent) :
    ∀ batch ∈ batches, batch.Sliced := by
  intro batch hbatch
  unfold handleMessage at hphase
  split at hphase
  · next hmsg =>
      dsimp only at hphase
      split at hphase
      · next sliced hexpand =>
          cases hphase
          exact ⟨⟨_, request_of_expandToBatches hexpand hbatch⟩,
            (pairs_length_of_expandToBatches hexpand hbatch).trans_lt (verified_pairs_lt hmsg)⟩
      · cases hphase
  · cases hphase

theorem WorkerStep.carries {worker next : Worker} (hstep : WorkerStep env worker next)
    (hcarries : worker.Carries env) : next.Carries env := by
  cases hstep with
  | connectPull hphase | connectPush hphase =>
      exact ⟨hcarries.dispatchPipe, fun _ h => WorkerPhase.noConfusion h,
        fun _ h => WorkerPhase.noConfusion h, hcarries.resultsPipe⟩
  | pullRecv batch rest hphase hpipe =>
      have hsliced := hcarries.dispatchPipe
      rw [hpipe] at hsliced
      refine ⟨fun other hother => hsliced other (List.mem_cons_of_mem _ hother), ?_,
        fun _ h => WorkerPhase.noConfusion h, hcarries.resultsPipe⟩
      rintro _ ⟨⟩
      exact hsliced batch List.mem_cons_self
  | priceBatch batch hphase =>
      refine ⟨hcarries.dispatchPipe, fun _ h => WorkerPhase.noConfusion h, ?_,
        hcarries.resultsPipe⟩
      rintro _ ⟨⟩
      exact ⟨batch, hcarries.pricing batch hphase, rfl⟩
  | pushSend msg hphase hroom =>
      refine ⟨hcarries.dispatchPipe, fun _ h => WorkerPhase.noConfusion h,
        fun _ h => WorkerPhase.noConfusion h, fun other hother => ?_⟩
      obtain hbefore | hpushed := List.mem_append.mp hother
      · exact hcarries.resultsPipe other hbefore
      · exact List.mem_singleton.mp hpushed ▸ hcarries.pushing msg hphase

theorem Carries.step {state next : State env.threads} (hcarries : Carries env state)
    (hstep : (server env).Step state next) : Carries env next := by
  obtain hserver | ⟨i, worker, hworker, rfl⟩ := step_cases hstep
  · cases hserver with
    | frontendRecv msg rest hserver hinbox =>
        refine ⟨fun rr batches sent hphase => ?_, hcarries.workers⟩
        have hmessage : handleMessage env msg = .dispatching rr batches sent := hphase
        exact handleMessage_sliced hmessage
    | dispatchSend i rr batches sent batch hserver hbatch hroom =>
        have hsliced := hcarries.batches rr batches sent hserver
        refine ⟨?_, forall_update hcarries.workers ⟨fun other hother => ?_,
          (hcarries.workers i).pricing, (hcarries.workers i).pushing,
          (hcarries.workers i).resultsPipe⟩⟩
        · rintro _ _ _ ⟨⟩
          exact hsliced
        · obtain hbefore | hsent := List.mem_append.mp hother
          · exact (hcarries.workers i).dispatchPipe other hbefore
          · exact hsliced other (List.mem_singleton.mp hsent ▸ List.mem_of_getElem? hbatch)
    | resultsRecv i rr batches received allResults msg rest hserver hpipe hmore =>
        have hresults := (hcarries.workers i).resultsPipe
        rw [hpipe] at hresults
        refine ⟨fun _ _ _ h => ServerPhase.noConfusion h, forall_update hcarries.workers
          ⟨(hcarries.workers i).dispatchPipe, (hcarries.workers i).pricing,
            (hcarries.workers i).pushing, fun other hother => ?_⟩⟩
        exact hresults other (List.mem_cons_of_mem _ hother)
    | endDispatch | endCollect | frontendSend =>
        exact ⟨fun _ _ _ h => ServerPhase.noConfusion h, hcarries.workers⟩
  · exact ⟨hcarries.batches, forall_update hcarries.workers (hworker.carries (hcarries.workers i))⟩

theorem carries_of_reachable {state : State env.threads}
    (hreach : (server env).Reachable (State.init env.threads messages) state) :
    Carries env state := by
  refine hreach.invariant (fun _ _ hcarries hstep => Carries.step hcarries hstep)
    ⟨fun _ _ _ h => ServerPhase.noConfusion h, fun _ => ⟨?_, ?_, ?_, ?_⟩⟩
  · exact fun _ h => absurd h List.not_mem_nil
  · exact fun _ h => WorkerPhase.noConfusion h
  · exact fun _ h => WorkerPhase.noConfusion h
  · exact fun _ h => absurd h List.not_mem_nil

/-! ## Every message can be parsed -/

/-- A sliced batch reaches its worker as it was built. -/
theorem BatchPricingRequest.Sliced.receive {batch : BatchPricingRequest} (hsliced : batch.Sliced) :
    BatchPricingRequest.receive batch.toBytes = .ok (some batch) := by
  obtain ⟨hverify, hread, -⟩ := BatchPricingRequest.toBytes_accepted hsliced.pairs
  obtain ⟨params, hparams⟩ := hsliced.params
  have hlength : 4 ≤ batch.toBytes.length := by
    by_contra hshort
    obtain ⟨passed, hpassed⟩ := Option.isSome_iff_exists.mp hverify
    have hword := (BatchPricingRequest.readable_of_verify hpassed).start.word.inside
    omega
  rw [BatchPricingRequest.receive_ok hlength, if_pos hverify, hread, hparams,
    batchParams_unsigned, ← hparams]

/-- The response to a sliced batch can be parsed, and is what was built if it verifies. -/
theorem ResultMessage.FromSliced.receive {response : BatchPricingResponse}
    (hmsg : ResultMessage.FromSliced env (.response response)) :
    ∃ received, BatchPricingResponse.receive response.toBytes = .ok received ∧
      (response.verifies = true → received = some response) := by
  obtain ⟨batch, hsliced, hreply⟩ := hmsg
  have hunsigned : response.results.map (List.map PricingResponse.unsigned) = response.results := by
    have hverifies : batch.verifies = true := decide_eq_true hsliced.pairs
    rw [workerReply, if_pos hverifies] at hreply
    cases haccepted : batch.request.accepted with
    | false =>
        obtain ⟨error, hprocess⟩ := process_rejected env.fp env.simd haccepted batch.pairs
          batch.batchCounterId
        rw [hprocess] at hreply
        cases hreply
    | true =>
        rw [process_accepted env.fp env.simd haccepted] at hreply
        have hresponse := ResultMessage.response.inj hreply
        rw [hresponse, Option.map_some, batchResults_unsigned]
  refine ⟨if BatchPricingResponse.verifyBytes response.toBytes then
    some (BatchPricingResponse.ofBytes response.toBytes) else none,
    BatchPricingResponse.receive_ok (four_le_length response), fun hverifies => ?_⟩
  have hadmitted := BatchPricingResponse.toBytes_admitted response
  rw [hverifies, admits, Bool.and_eq_true] at hadmitted
  rw [if_pos hadmitted.2, BatchPricingResponse.ofBytes_toBytes hverifies, hunsigned]

/-- Every message that waits for a thread can be parsed by it. -/
structure MessagesReadable (env : Env) (state : State env.threads) : Prop where
  frontend : ∀ msg ∈ state.inbox, RangePricingRequest.receive msg =
    .ok (if verifyRangePricingRequestBuffer msg then some (RangePricingRequest.ofBytes msg)
      else none)
  dispatch : ∀ i, ∀ batch ∈ (state.workers i).dispatchPipe,
    BatchPricingRequest.receive batch.toBytes = .ok (some batch)
  results : ∀ i response, .response response ∈ (state.workers i).resultsPipe →
    ∃ received, BatchPricingResponse.receive response.toBytes = .ok received ∧
      (response.verifies = true → received = some response)

/-- In every state of every run, whatever the clients have sent, no thread reads
outside the message it takes next: the server parses any bytes, a worker gets the
batch that was built for it, and the collector the response, unless it is one the
verifier refuses. -/
theorem messages_readable (env : Env) (messages : List Bytes) :
    ∀ state, (server env).Reachable (State.init env.threads messages) state →
      MessagesReadable env state := by
  intro state hreach
  have hcarries := carries_of_reachable hreach
  refine ⟨fun msg _ => RangePricingRequest.receive_ok msg, fun i batch hbatch => ?_,
    fun i response hresponse => ?_⟩
  · exact ((hcarries.workers i).dispatchPipe batch hbatch).receive
  · exact ((hcarries.workers i).resultsPipe _ hresponse).receive

/-- A batch waits for the worker and a malformed message for the server. -/
theorem messages_readable_sample :
    ∃ state : State Env.sample.threads, state.inbox = [[0]] ∧
      (∀ i, (state.workers i).dispatchPipe.length = 1) ∧ MessagesReadable Env.sample state := by
  have hrun : ((server Env.sample).run? (State.init Env.sample.threads
      [(RangePricingRequest.sample [.sample 0]).toBytes, [0]])
      ([.connectPull 0, .connectPush 0, .frontendRecv, .dispatchSend 0] : List (Action 1))).map
        (fun state => decide (state.inbox = [[0]] ∧
          ∀ i, (state.workers i).dispatchPipe.length = 1)) = some true := by
    decide +kernel
  obtain ⟨state, hstate, hwaiting⟩ := Option.map_eq_some_iff.mp hrun
  obtain ⟨hinbox, hpipe⟩ := of_decide_eq_true hwaiting
  exact ⟨state, hinbox, hpipe, messages_readable _ _ state (reachable_of_run? hstate)⟩

end RangePricer
