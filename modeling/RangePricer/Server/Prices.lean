import RangePricer.Server.Gather

/-!
# Prices across chunk widths and vector widths

Every price in a reply is one of two values: the vector loop's, through
Highway's `Exp`, or the scalar tail's, through `std::exp`.  Which one a pair
gets depends on the chunk width and on the number of lanes, so two servers agree
on all prices exactly when the two exponentials do at the request's parameters.
-/

namespace RangePricer

open FlatBuffers Transition Transition.System

variable {env : Env}

/-- The price the vector loop stores. -/
def FloatUnit.vectorPrice (fp : FloatUnit) (params : PricingParams) : Binary32 :=
  fp.hnExp (fp.mul params.interestRate params.timeToMaturity).neg

/-- The price the scalar tail stores. -/
def FloatUnit.scalarPrice (fp : FloatUnit) (params : PricingParams) : Binary32 :=
  fp.stdExp (fp.mul params.interestRate.neg params.timeToMaturity)

/-- The two prices are the same float on the wire for the batches of a request. -/
def ExpsAgree (fp : FloatUnit) (rr : RangePricingRequest) : Prop :=
  (fp.vectorPrice (batchParams rr.request)).Agrees (fp.scalarPrice (batchParams rr.request))

instance (fp : FloatUnit) (rr : RangePricingRequest) : Decidable (ExpsAgree fp rr) :=
  inferInstanceAs (Decidable (Binary32.Agrees _ _))

theorem mem_batchResults_price {fp : FloatUnit} {simd : Simd} {params : PricingParams}
    {pairs : List AlphaBetaPair} {result : PricingResponse}
    (hresult : result ∈ batchResults fp simd params pairs) :
    (result.price = (fp.vectorPrice params).unsignedZero ∨
        result.price = (fp.scalarPrice params).unsignedZero) ∧
      result.hedgeRatio = Binary32.zero := by
  obtain ⟨pair, -, out, hout, rfl⟩ := exists_of_mem_batchResults hresult
  rw [priceArrays_eq, List.mem_append] at hout
  obtain hvector | hscalar := hout
  · rw [List.eq_of_mem_replicate hvector]
    exact ⟨.inl rfl, by simp [createPricingResponse]⟩
  · rw [List.eq_of_mem_replicate hscalar]
    exact ⟨.inr rfl, by simp [createPricingResponse]⟩

/-- Where the exponentials agree a reply holds one price only. -/
theorem Sent.price_eq {msg : Bytes} {reply : RangePricingResponse} {result : PricingResponse}
    (hmsg : verifyRangePricingRequestBuffer msg = true) (hsent : Sent env msg reply)
    (hagree : ExpsAgree env.fp (RangePricingRequest.ofBytes msg))
    (hresult : result ∈ reply.results.getD []) :
    result.price = (env.fp.vectorPrice
        (batchParams (RangePricingRequest.ofBytes msg).request)).unsignedZero ∧
      result.hedgeRatio = Binary32.zero := by
  obtain ⟨results, rfl, hperm, -⟩ := hsent.answers.exists_results hmsg
  obtain ⟨batch, hbatch, hcollected⟩ := List.mem_flatMap.mp (hperm.subset hresult)
  obtain ⟨hrequest, -, hpairs⟩ := mem_requestBatches hmsg hbatch
  cases haccepted : batch.request.accepted with
  | false => simp [collect_rejected haccepted] at hcollected
  | true =>
      rw [collect_accepted hpairs haccepted] at hcollected
      split at hcollected
      · obtain ⟨hprice, hhedge⟩ := mem_batchResults_price hcollected
        rw [hrequest] at hprice
        exact ⟨hprice.elim id fun hscalar => hscalar.trans hagree.symm, hhedge⟩
      · cases hcollected

/-- Every result of a reply has the `idx` of a pair of the request. -/
theorem Sent.idx_mem {msg : Bytes} {reply : RangePricingResponse} {result : PricingResponse}
    (hmsg : verifyRangePricingRequestBuffer msg = true) (hsent : Sent env msg reply)
    (hresult : result ∈ reply.results.getD []) :
    result.idx ∈ (RangePricingRequest.ofBytes msg).pairs.map (·.idx) := by
  obtain ⟨results, rfl, hperm, -⟩ := hsent.answers.exists_results hmsg
  exact (requestBatches_idx_sublist hmsg).subset
    (List.mem_map_of_mem (hperm.subset hresult))

/-- A batch of one pair is priced by the vector loop for one lane, by the scalar
tail otherwise. -/
theorem batchResults_singleton (fp : FloatUnit) (simd : Simd) (params : PricingParams)
    (pair : AlphaBetaPair) :
    batchResults fp simd params [pair] =
      [createPricingResponse pair.idx pair.alpha pair.beta
        (if simd.lanes = 1 then fp.vectorPrice params else fp.scalarPrice params)
        Binary32.zero] := by
  have hlanes := simd.lanes_pos
  rw [batchResults, priceArrays_eq, List.length_singleton]
  split
  · next hone =>
      rw [hone]
      rfl
  · next hmore =>
      have hnone : vectorCount simd.lanes 1 = 0 := by
        rw [vectorCount, Nat.div_eq_of_lt (by omega), Nat.mul_zero]
      rw [hnone]
      rfl

/-- One pair to a batch. -/
def Env.onePair (fp : FloatUnit) (simd : Simd) : Env :=
  { Env.sample with fp := fp, simd := simd }

/-- Sliced one pair at a time, the number of lanes decides the price of a pair. -/
theorem exists_sent_onePair (fp : FloatUnit) (simd : Simd) {msg : Bytes} {pair : AlphaBetaPair}
    (hmsg : verifyRangePricingRequestBuffer msg = true)
    (haccepted : (RangePricingRequest.ofBytes msg).request.accepted = true)
    (hpair : pair ∈ (RangePricingRequest.ofBytes msg).pairs) :
    ∃ room reply, Sent ((Env.onePair fp simd).withPipes 1 room 1) msg reply ∧
      ∃ result ∈ reply.results.getD [], result.idx = pair.idx ∧
        result.price = (if simd.lanes = 1 then
            fp.vectorPrice (batchParams (RangePricingRequest.ofBytes msg).request)
          else fp.scalarPrice
            (batchParams (RangePricingRequest.ofBytes msg).request)).unsignedZero := by
  have hlanes : 1 ≤ (Env.onePair fp simd).simdLanes := le_rfl
  have hfits : ((RangePricingRequest.ofBytes msg).pairs.length : Int) + 1 - 1 ≤ intMax := by
    have hmax : intMax = 2 ^ 31 - 1 := rfl
    have hpairs := verified_pairs_lt_int hmsg
    omega
  obtain ⟨room, -, reply, hsent⟩ := exists_sent_withPipes hmsg (expandToBatches_fits hlanes hfits)
  refine ⟨room, reply, hsent, ?_⟩
  obtain ⟨results, rfl, hperm, -⟩ := hsent.exists_results hmsg
  -- The batch that holds the pair holds nothing else.
  rw [← flatMap_requestBatches msg hlanes hfits] at hpair
  obtain ⟨batch, hbatch, hmem⟩ := List.mem_flatMap.mp hpair
  obtain ⟨hrequest, hlength, hpairs⟩ := mem_requestBatches hmsg hbatch
  have hsingle : batch.pairs = [pair] := by
    have hone : batch.pairs.length ≤ 1 := hlength.trans (Nat.min_le_right _ _)
    cases hbatchPairs : batch.pairs with
    | nil => simp [hbatchPairs] at hmem
    | cons first rest =>
        rw [hbatchPairs] at hone hmem
        obtain rfl := List.eq_nil_of_length_eq_zero (Nat.le_zero.mp (Nat.le_of_succ_le_succ hone))
        rw [List.mem_singleton.mp hmem]
  have hbatchAccepted : batch.request.accepted = true := by
    rw [hrequest, batchParams_accepted, haccepted]
  have hcollected : collect (workerReply (Env.onePair fp simd) batch) =
      [createPricingResponse pair.idx pair.alpha pair.beta
        (if simd.lanes = 1 then fp.vectorPrice batch.request else fp.scalarPrice batch.request)
        Binary32.zero] := by
    have hsmall : [pair].length < maxTables := by
      rw [List.length_singleton]
      decide
    rw [collect_accepted hpairs hbatchAccepted, hsingle, if_pos hsmall]
    exact batchResults_singleton fp simd batch.request pair
  rw [hrequest] at hcollected
  have hresult := hperm.symm.subset (List.mem_flatMap.mpr
    ⟨batch, hbatch, hcollected ▸ List.mem_singleton_self _⟩)
  exact ⟨_, hresult, by simp [createPricingResponse]⟩

/-- Whatever the chunk widths and the lanes of two servers, they give every `idx`
the same price and hedge ratio, and all pairs of a request one price, exactly
when the request has no pairs or the exponentials agree at its parameters. -/
theorem prices_agree_iff (fp : FloatUnit) (msg : Bytes)
    (hmsg : verifyRangePricingRequestBuffer msg = true)
    (haccepted : (RangePricingRequest.ofBytes msg).request.accepted = true) :
    (∀ env env' reply reply', env.fp = fp → env'.fp = fp →
      1 ≤ env.simdLanes → 1 ≤ env'.simdLanes → Sent env msg reply → Sent env' msg reply' →
        (∀ a ∈ reply.results.getD [], ∀ b ∈ reply'.results.getD [], a.idx = b.idx →
          a.price = b.price ∧ a.hedgeRatio = b.hedgeRatio) ∧
        ∀ a ∈ reply.results.getD [], ∀ b ∈ reply.results.getD [], a.price = b.price) ↔
      (RangePricingRequest.ofBytes msg).pairs = [] ∨
        ExpsAgree fp (RangePricingRequest.ofBytes msg) := by
  constructor
  · intro hsame
    cases hpairs : (RangePricingRequest.ofBytes msg).pairs with
    | nil => exact .inl rfl
    | cons pair rest =>
        apply Or.inr
        have hmem : pair ∈ (RangePricingRequest.ofBytes msg).pairs := by
          rw [hpairs]
          exact List.mem_cons_self
        obtain ⟨room, reply, hsent, a, ha, hidx, hprice⟩ :=
          exists_sent_onePair fp ⟨1, by decide⟩ hmsg haccepted hmem
        obtain ⟨room', reply', hsent', b, hb, hidx', hprice'⟩ :=
          exists_sent_onePair fp ⟨2, by decide⟩ hmsg haccepted hmem
        have hequal := ((hsame _ _ reply reply' rfl rfl le_rfl le_rfl hsent hsent').1 a ha b hb
          (hidx.trans hidx'.symm)).1
        rw [hprice, hprice', if_pos rfl, if_neg (by decide)] at hequal
        exact hequal
  · rintro hcondition env env' reply reply' rfl hfp - - hsent hsent'
    obtain hempty | hagree := hcondition
    · have hnone {a : PricingResponse} (ha : a ∈ reply.results.getD []) : False := by
        have hidx := hsent.idx_mem hmsg ha
        rw [hempty] at hidx
        cases hidx
      exact ⟨fun a ha => (hnone ha).elim, fun a ha => (hnone ha).elim⟩
    · refine ⟨fun a ha b hb _ => ?_, fun a ha b hb => ?_⟩
      · obtain ⟨hprice, hhedge⟩ := hsent.price_eq hmsg hagree ha
        obtain ⟨hprice', hhedge'⟩ := hsent'.price_eq hmsg (hfp ▸ hagree) hb
        rw [hprice, hprice', hhedge, hhedge', hfp]
        exact ⟨rfl, rfl⟩
      · rw [(hsent.price_eq hmsg hagree ha).1, (hsent.price_eq hmsg hagree hb).1]

/-- Exponentials that agree at the sample request. -/
def FloatUnit.agreeing : FloatUnit :=
  { FloatUnit.sample with stdExp := FloatUnit.sample.hnExp }

theorem prices_agree_sample :
    ExpsAgree FloatUnit.agreeing (RangePricingRequest.sample [.sample 0, .sample 1]) ∧
      ∀ env env' reply reply', env.fp = FloatUnit.agreeing → env'.fp = FloatUnit.agreeing →
        1 ≤ env.simdLanes → 1 ≤ env'.simdLanes →
          Sent env (RangePricingRequest.sample [.sample 0, .sample 1]).toBytes reply →
            Sent env' (RangePricingRequest.sample [.sample 0, .sample 1]).toBytes reply' →
              (∀ a ∈ reply.results.getD [], ∀ b ∈ reply'.results.getD [], a.idx = b.idx →
                a.price = b.price ∧ a.hedgeRatio = b.hedgeRatio) ∧
              ∀ a ∈ reply.results.getD [], ∀ b ∈ reply.results.getD [], a.price = b.price :=
  ⟨by decide, (prices_agree_iff FloatUnit.agreeing _ (by decide +kernel) (by decide +kernel)).mpr
    (.inr (by decide +kernel))⟩

/-- At rate 0.07 and maturity 1 the prices depend on the number of lanes. -/
theorem not_prices_agree :
    ¬ ∀ (fp : FloatUnit) (msg : Bytes), verifyRangePricingRequestBuffer msg = true →
      (RangePricingRequest.ofBytes msg).request.accepted = true →
        ((RangePricingRequest.ofBytes msg).pairs.map (·.idx)).Nodup →
          ∀ env env' reply reply', env.fp = fp → env'.fp = fp →
            1 ≤ env.simdLanes → 1 ≤ env'.simdLanes → Sent env msg reply → Sent env' msg reply' →
              ∀ a ∈ reply.results.getD [], ∀ b ∈ reply'.results.getD [], a.idx = b.idx →
                a.price = b.price ∧ a.hedgeRatio = b.hedgeRatio := by
  intro hsame
  have hmsg : verifyRangePricingRequestBuffer
      (RangePricingRequest.sample [.sample 0]).toBytes = true := by decide +kernel
  have haccepted : (RangePricingRequest.ofBytes
      (RangePricingRequest.sample [.sample 0]).toBytes).request.accepted = true := by
    decide +kernel
  have hmem : AlphaBetaPair.sample 0 ∈ (RangePricingRequest.ofBytes
      (RangePricingRequest.sample [.sample 0]).toBytes).pairs := by decide +kernel
  obtain ⟨room, reply, hsent, a, ha, hidx, hprice⟩ :=
    exists_sent_onePair FloatUnit.sample ⟨1, by decide⟩ hmsg haccepted hmem
  obtain ⟨room', reply', hsent', b, hb, hidx', hprice'⟩ :=
    exists_sent_onePair FloatUnit.sample ⟨2, by decide⟩ hmsg haccepted hmem
  have hequal := (hsame FloatUnit.sample _ hmsg haccepted (by decide +kernel)
    ((Env.onePair FloatUnit.sample ⟨1, by decide⟩).withPipes 1 room 1)
    ((Env.onePair FloatUnit.sample ⟨2, by decide⟩).withPipes 1 room' 1)
    reply reply' rfl rfl le_rfl le_rfl hsent hsent' a ha b hb (hidx.trans hidx'.symm)).1
  rw [hprice, hprice'] at hequal
  revert hequal
  decide +kernel

end RangePricer
