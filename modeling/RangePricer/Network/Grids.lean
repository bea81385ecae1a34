import RangePricer.Client.Program
import RangePricer.Network.Liveness

/-!
# Every client gets its priced grid

Any number of C++ clients, each with its own flags, around one server.  A reply
that reaches a client is the one reply there is to its grid, and the client shows
it completely if the server prices it and the verifier can count its tables.
Whether all clients come that far under every schedule depends on nothing but the
sizes of the grids and two of the parameters of each.
-/

namespace RangePricer

open FlatBuffers FloatingPoint Transition Transition.System

variable {env : Env} {hash : Binary32 → UInt64}

/-! ## One grid -/

namespace GridClient

variable {client : GridClient}

/-- The server prices the grid, and it is small enough for the client's verifier. -/
structure Priceable (client : GridClient) (env : Env) : Prop where
  accepted : client.points = 0 ∨ (floatFlag client.flags.timeToMaturity).leZero = false ∧
    (floatFlag client.flags.stockDiscretization).leZero = false
  few : client.points < maxTables
  /-- The count of chunks does not wrap. -/
  inRange : (client.points : Int) + env.simdLanes - 1 ≤ intMax

theorem pairs_length : (client.request hash).pairs.length = client.points :=
  (client.request_isGrid hash).length_eq

theorem request_accepted_iff : (client.request hash).request.accepted = true ↔
    (floatFlag client.flags.timeToMaturity).leZero = false ∧
      (floatFlag client.flags.stockDiscretization).leZero = false := by
  simp [request, ClientFlags.request, clientRequest, PricingParams.accepted]

theorem message_distinct : DistinctIdx (client.message hash) := by
  intro _
  rw [(client.message_accepted hash).2]
  apply List.pairwise_map.mpr
  exact (client.request_increasing hash).imp fun hlt => UInt32.ne_of_lt hlt

/-- There is one reply to the grid of a client. -/
theorem reply_eq {reply : RangePricingResponse}
    (hanswers : Answers env (client.message hash) reply) :
    reply = ⟨client.flags.requestHash hash,
      some (sequentialResults env (client.request hash))⟩ := by
  obtain ⟨hverify, hread⟩ := client.message_accepted hash
  rw [hanswers.eq_sequential message_distinct, serveSequentially, if_pos hverify, hread]
  simp only [sequentialResults_unsigned, sequentialResults_sorted (client.request_increasing hash)]
  rfl

/-- What the client reports of that reply. -/
theorem report_eq {reply : RangePricingResponse}
    (hanswers : Answers env (client.message hash) reply) :
    clientReport reply.toBytes =
      if (sequentialResults env (client.request hash)).length < maxTables then
        some (client.flags.requestHash hash,
          (sequentialResults env (client.request hash)).map PricingResponse.unsigned)
      else none := by
  obtain rfl := reply_eq hanswers
  exact clientReport_toBytes rfl

/-- A grid that is priced comes out point by point. -/
theorem Priceable.pricedGrid (hlanes : 1 ≤ env.simdLanes) (hpriceable : client.Priceable env) :
    client.PricedGrid env hash
      ((sequentialResults env (client.request hash)).map PricingResponse.unsigned) := by
  have hgrid := client.request_isGrid hash
  have hcases : (client.request hash).pairs = [] ∨
      (client.request hash).request.accepted = true := by
    rw [← List.length_eq_zero_iff, pairs_length, request_accepted_iff]
    exact hpriceable.accepted
  rw [sequentialResults_of_few hlanes (by rw [pairs_length]; exact hpriceable.inRange) hcases
    (pairs_length.trans_lt hpriceable.few)]
  refine ⟨by simp [pairs_length], fun k hk => ?_⟩
  simp only [List.length_map, List.length_zipIdx] at hk
  obtain ⟨hidx, halpha, hbeta⟩ := hgrid.pair_eq k hk
  obtain ⟨halphas, hbetas⟩ := client.getElem?_axes
  rw [halphas _ (List.getElem?_eq_some_iff.mp halpha).1] at halpha
  rw [hbetas _ (List.getElem?_eq_some_iff.mp hbeta).1] at hbeta
  simp only [List.getElem_map, List.getElem_zipIdx, PricingResponse.unsigned,
    createPricingResponse_again, Nat.zero_add]
  refine ⟨hidx, ?_, ?_, Binary32.unsignedZero_agrees _, rfl⟩
  · rw [Option.some.inj halpha]
    exact Binary32.unsignedZero_agrees _
  · rw [Option.some.inj hbeta]
    exact Binary32.unsignedZero_agrees _

/-- The client reads its whole grid. -/
def Reads (client : GridClient) (env : Env) (hash : Binary32 → UInt64)
    (reply : RangePricingResponse) : Prop :=
  ∃ results, clientReport reply.toBytes = some (client.flags.requestHash hash, results) ∧
    client.PricedGrid env hash results

/-- The client reads its whole grid exactly if the grid is priced and small enough. -/
theorem reads_iff {reply : RangePricingResponse} (hlanes : 1 ≤ env.simdLanes)
    (hanswers : Answers env (client.message hash) reply) :
    client.Reads env hash reply ↔ client.Priceable env := by
  have hreport := report_eq hanswers
  constructor
  · rintro ⟨results, hread, hpriced⟩
    rw [hreport] at hread
    split at hread
    · next hfew =>
        have hresults := (Prod.mk.inj (Option.some.inj hread)).2
        have hlength := hpriced.length_eq
        rw [← hresults, List.length_map] at hlength
        have haccepted : (client.request hash).request.accepted = true ↔ _ := request_accepted_iff
        -- A grid that is not priced is reported empty, and so is complete only without points.
        have hcases : client.points = 0 ∨ (client.request hash).request.accepted = true ∧
            (client.points : Int) + env.simdLanes - 1 ≤ intMax := by
          by_contra hneither
          rw [not_or, ← @pairs_length hash client] at hneither
          rw [sequentialResults, if_neg fun hpriced => hneither.2 ⟨hpriced.1, hpriced.2.2⟩]
            at hlength
          exact hneither.1 (pairs_length.trans hlength.symm)
        have hint := env.simdLanes_int.2
        rw [haccepted] at hcases
        exact ⟨hcases.imp_right (·.1), hlength ▸ hfew, hcases.elim (by omega) (·.2)⟩
    · cases hread
  · intro hpriceable
    have hpriced := @Priceable.pricedGrid env hash client hlanes hpriceable
    have hlength := hpriced.length_eq
    rw [List.length_map] at hlength
    rw [if_pos (hlength.trans_lt hpriceable.few)] at hreport
    exact ⟨_, hreport, hpriced⟩

/-- A grid whose chunks are counted is served if there is room for them. -/
theorem servable_iff (hlanes : 1 ≤ env.simdLanes)
    (hsum : (client.points : Int) + env.simdLanes - 1 ≤ intMax) :
    servable env (client.message hash) = true ↔
      chunkCount client.points env.simdLanes.toNat ≤ capacity env := by
  obtain ⟨hverify, hread⟩ := client.message_accepted hash
  have hpairs : (RangePricingRequest.ofBytes (client.message hash)).pairs.length =
      client.points := by
    rw [hread]
    exact @pairs_length hash client
  rw [← hpairs] at hsum ⊢
  have hhandle : handleMessage env (client.message hash) = _ :=
    handleMessage_ok hverify (expandToBatches_inRange hlanes hsum)
  rw [RangePricer.servable_iff, hhandle, ← chunkBatches_length]
  exact and_iff_right rfl

end GridClient

/-! ## All clients -/

section

variable {clients : Nat}

/-- What the clients send. -/
def gridRequests (hash : Binary32 → UInt64) (grids : Fin clients → GridClient) :
    Fin clients → Bytes :=
  fun i => (grids i).message hash

/-- A reply that reaches a client shows it its whole grid exactly if the grid is
priced and small enough; and every schedule that is over has shown every client its
whole grid exactly if that is so for each of them and there is room for its batches. -/
theorem grids_priced_iff (env : Env) (hash : Binary32 → UInt64) (grids : Fin clients → GridClient)
    (hlanes : 1 ≤ env.simdLanes) (hdispatch : 1 ≤ env.dispatchHwm)
    (hresults : 1 ≤ env.resultsHwm) :
    (∀ state, (network env (gridRequests hash grids)).Reachable
        (NetworkState.init env.threads clients) state →
      ∀ i reply, (state.phases i).reply? = some reply →
        ((grids i).Reads env hash reply ↔ (grids i).Priceable env)) ∧
    ((∀ actions state, (network env (gridRequests hash grids)).Completes
        (NetworkState.init env.threads clients) actions state →
      ∀ i, ∃ reply, state.phases i = .done reply ∧ (grids i).Reads env hash reply) ↔
        ∀ i, (grids i).Priceable env ∧
          chunkCount (grids i).points env.simdLanes.toNat ≤ capacity env) := by
  have hreads (state : NetworkState env.threads clients)
      (hreach : (network env (gridRequests hash grids)).Reachable
        (NetworkState.init env.threads clients) state) (i : Fin clients)
      (reply : RangePricingResponse) (hreply : (state.phases i).reply? = some reply) :
      (grids i).Reads env hash reply ↔ (grids i).Priceable env := by
    obtain ⟨answered, hroute⟩ := route_of_reachable hreach
    exact GridClient.reads_iff hlanes (hroute.answers hreply)
  refine ⟨hreads, fun hshown i => ?_, fun hgrids actions state hend i => ?_⟩
  · obtain ⟨actions, state, hend⟩ := exists_network_completes env (gridRequests hash grids)
    obtain ⟨reply, hdone, hread⟩ := hshown actions state hend i
    have hpriceable := (hreads state hend.reachable i reply (by rw [hdone]; rfl)).mp hread
    have hservable : servable env (gridRequests hash grids i) = true ↔ _ :=
      GridClient.servable_iff hlanes hpriceable.inRange
    refine ⟨hpriceable, hservable.mp ?_⟩
    by_contra hbad
    obtain ⟨actions, state, client, hend, hblocked⟩ :=
      exists_blocked hdispatch hresults (Bool.eq_false_iff.mpr hbad)
    obtain ⟨reply, hdone, -⟩ := hshown actions state hend client
    rw [hblocked.waiting] at hdone
    cases hdone
  · have hservable (j : Fin clients) : servable env (gridRequests hash grids j) = true :=
      (GridClient.servable_iff hlanes (hgrids j).1.inRange).mpr (hgrids j).2
    obtain ⟨answered, hroute⟩ := route_of_reachable hend.reachable
    obtain ⟨reply, hdone⟩ :=
      (done_of_stuck hdispatch hresults hservable hroute hend.stuck).2 i
    exact ⟨reply, hdone,
      (hreads state hend.reachable i reply (by rw [hdone]; rfl)).mpr (hgrids i).1⟩

end

/-- The defaults of the client, but two years to maturity. -/
def ClientFlags.sample (alpha beta : Axis) : ClientFlags where
  stockPrice := binary64.positive 0x4059000000000000
  strikePrice := binary64.positive 0x4059000000000000
  interestRate := binary64.positive 0x3fa999999999999a
  timeToMaturity := binary64.positive 0x4000000000000000
  stockDiscretization := binary64.positive 0x3f847ae147ae147b
  alpha := alpha
  beta := beta

def sampleRow : GridClient where
  flags := .sample quarter halves
  alphas := [⟨0x3e800000⟩]
  betas := [⟨0⟩, ⟨0x3f000000⟩, ⟨0x3f800000⟩]
  ends := ⟨4, by decide +kernel⟩
  fits := by decide

def sampleColumn : GridClient where
  flags := .sample halves quarter
  alphas := [⟨0⟩, ⟨0x3f000000⟩, ⟨0x3f800000⟩]
  betas := [⟨0x3e800000⟩]
  ends := ⟨4, by decide +kernel⟩
  fits := by decide

/-- Two clients of one worker with places for three batches. -/
theorem grids_priced_two :
    ∃ actions state, (network Env.sample (gridRequests (StdHash.withZero 0).run
        ![sampleRow, sampleColumn])).Completes
        (NetworkState.init Env.sample.threads 2) actions state ∧
      ∀ i, ∃ reply, state.phases i = .done reply ∧
        (![sampleRow, sampleColumn] i).Reads Env.sample (StdHash.withZero 0).run reply := by
  obtain ⟨actions, state, hend⟩ := exists_network_completes Env.sample
    (gridRequests (StdHash.withZero 0).run ![sampleRow, sampleColumn])
  refine ⟨actions, state, hend, (grids_priced_iff Env.sample (StdHash.withZero 0).run
    ![sampleRow, sampleColumn] le_rfl le_rfl le_rfl).2.mpr ?_ actions state hend⟩
  refine Fin.forall_fin_two.mpr ⟨⟨⟨.inr ?_, by decide, by decide⟩, by decide⟩,
    ⟨⟨.inr ?_, by decide, by decide⟩, by decide⟩⟩
  all_goals decide +kernel

end RangePricer
