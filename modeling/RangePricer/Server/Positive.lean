import RangePricer.Server.Replies

/-!
# Which parameters are priced

Both entry points reject a parameter with a comparison `<= 0` where the message
of their exception says that it must be positive.  The two are the same for
numbers; a NaN is neither and gets through, unless the other parameter is
rejected.
-/

namespace RangePricer

open FlatBuffers Transition Transition.System

variable {env : Env} {params : PricingParams} {msg : Bytes} {reply : RangePricingResponse}

/-! ## What the checks let through -/

/-- Both parameters are greater than zero. -/
def PricingParams.Positive (params : PricingParams) : Prop :=
  params.timeToMaturity.positive = true ∧ params.stockDiscretization.positive = true

/-- `price` returns normally only what the checks accept. -/
theorem accepted_of_price {fp : FloatUnit} {simd : Simd} {optionType : OptionType}
    {inputs : List PricingInput} {outputs : List PricingOutput}
    (hprice : price fp simd optionType params.stockPrice params.strikePrice params.interestRate
      params.timeToMaturity params.stockDiscretization inputs = .ok outputs) :
    params.accepted = true := by
  obtain ⟨⟨⟩, hcheck, -⟩ := bind_eq_ok.mp hprice
  exact (checkParams_eq_ok params).mp hcheck

/-- So does `process`. -/
theorem accepted_of_process {fp : FloatUnit} {simd : Simd} {pairs : List AlphaBetaPair}
    {batchId : UInt64} {response : BatchPricingResponse}
    (hprocess : process fp simd params pairs batchId = .ok response) : params.accepted = true := by
  rw [process_eq, checked_eq_ok] at hprocess
  exact hprocess.1

/-- A reply with a result comes from accepted parameters, for every width. -/
theorem Sent.accepted (hmsg : verifyRangePricingRequestBuffer msg = true)
    (hsent : Sent env msg reply) (hresults : reply.results.getD [] ≠ []) :
    (RangePricingRequest.ofBytes msg).request.accepted = true := by
  cases hsent.answers with
  | malformed hbad _ =>
      rw [hmsg] at hbad
      cases hbad
  | served _ hgathered =>
      obtain ⟨batches, received, hexpand, hreceived, rfl⟩ := hgathered.exists_order
      -- Rejected batches come back empty, so that nothing would have been collected.
      by_contra hrejected
      have hempty : received.flatMap collect = [] := by
        apply List.flatMap_eq_nil_iff.mpr
        intro message hmessage
        obtain ⟨batch, hbatch, rfl⟩ := List.mem_map.mp (hreceived.subset hmessage)
        apply collect_rejected
        rw [request_of_expandToBatches hexpand hbatch, batchParams_accepted]
        exact Bool.not_eq_true _ ▸ hrejected
      have hsorted : env.sort.run (received.flatMap collect) = [] := by
        have hperm := env.sort.perm (received.flatMap collect)
        rw [hempty] at hperm ⊢
        exact hperm.eq_nil
      apply hresults
      rw [buildReply, hsorted]
      rfl

/-! ## Only positive parameters -/

/-- Whatever prices these parameters finds them positive: the entry points when
they return, the server when it replies with a result. -/
structure OnlyPositivePriced (params : PricingParams) : Prop where
  price : ∀ fp simd optionType inputs outputs,
    price fp simd optionType params.stockPrice params.strikePrice params.interestRate
      params.timeToMaturity params.stockDiscretization inputs = .ok outputs → params.Positive
  process : ∀ fp simd pairs batchId response,
    process fp simd params pairs batchId = .ok response → params.Positive
  server : ∀ env msg reply, verifyRangePricingRequestBuffer msg = true →
    (RangePricingRequest.ofBytes msg).request = params → Sent env msg reply →
      reply.results.getD [] ≠ [] → params.Positive

/-- A NaN is accepted unless the other parameter is rejected. -/
def PricingParams.NaNsRejected (params : PricingParams) : Prop :=
  (params.timeToMaturity.isNaN = true → params.stockDiscretization.leZero = true) ∧
    (params.stockDiscretization.isNaN = true → params.timeToMaturity.leZero = true)

theorem PricingParams.positive_of_accepted (haccepted : params.accepted = true)
    (hnans : params.NaNsRejected) : params.Positive := by
  obtain ⟨httm, hds⟩ := params.accepted_iff.mp haccepted
  constructor
  · apply ((Binary32.leZero_eq_false _).mp httm).resolve_left
    intro hnan
    rw [hnans.1 hnan] at hds
    cases hds
  · apply ((Binary32.leZero_eq_false _).mp hds).resolve_left
    intro hnan
    rw [hnans.2 hnan] at httm
    cases httm

theorem PricingParams.nansRejected_of_positive
    (hpositive : params.accepted = true → params.Positive) : params.NaNsRejected := by
  constructor
  · intro hnan
    by_contra hds
    have httm := (Binary32.leZero_eq_false params.timeToMaturity).mpr (.inl hnan)
    have hboth := hpositive (params.accepted_iff.mpr ⟨httm, Bool.not_eq_true _ ▸ hds⟩)
    rw [Binary32.isNaN_of_positive hboth.1] at hnan
    cases hnan
  · intro hnan
    by_contra httm
    have hds := (Binary32.leZero_eq_false params.stockDiscretization).mpr (.inl hnan)
    have hboth := hpositive (params.accepted_iff.mpr ⟨Bool.not_eq_true _ ▸ httm, hds⟩)
    rw [Binary32.isNaN_of_positive hboth.2] at hnan
    cases hnan

/-- Only positive parameters are priced exactly if every NaN is rejected along
with the other parameter. -/
theorem only_positive_priced_iff (params : PricingParams) :
    OnlyPositivePriced params ↔ params.NaNsRejected := by
  constructor
  · intro honly
    apply PricingParams.nansRejected_of_positive
    intro haccepted
    have hprocess := process_accepted FloatUnit.sample ⟨1, Nat.one_pos⟩ haccepted [] 0
    exact honly.process FloatUnit.sample ⟨1, Nat.one_pos⟩ [] 0 _ hprocess
  · intro hnans
    refine ⟨fun fp simd optionType inputs outputs hprice => ?_,
      fun fp simd pairs batchId response hprocess => ?_,
      fun env msg reply hmsg hparams hsent hresults => ?_⟩
    · exact PricingParams.positive_of_accepted (accepted_of_price hprice) hnans
    · exact PricingParams.positive_of_accepted (accepted_of_process hprocess) hnans
    · exact PricingParams.positive_of_accepted (hparams ▸ hsent.accepted hmsg hresults) hnans

/-- A maturity that is not a number, beside a valid discretization. -/
def unorderedMaturity : PricingParams where
  timeToMaturity := ⟨0x7fc00000⟩
  stockDiscretization := ⟨0x3c23d70a⟩

/-- It passes both checks. -/
theorem not_only_positive_priced : ¬ OnlyPositivePriced unorderedMaturity := by
  intro honly
  have haccepted : unorderedMaturity.accepted = true := by decide
  have hpositive := honly.process FloatUnit.sample ⟨1, Nat.one_pos⟩ [] 0 _
    (process_accepted _ _ haccepted _ _)
  have hunordered : unorderedMaturity.timeToMaturity.positive = false := by decide
  rw [hpositive.1] at hunordered
  cases hunordered

end RangePricer
