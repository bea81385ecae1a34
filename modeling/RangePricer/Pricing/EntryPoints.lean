import Mathlib.Data.List.Forall2
import RangePricer.Codec.Overlong
import RangePricer.Kernel

/-!
# Two entry points

`price` and `process` repeat the same checks and call the same kernel; one
returns plain structures and the other a FlatBuffer.  What `process` builds is
what `price` returns, position by position, and reads back so as long as the
buffer stays below the limit of the library.
-/

namespace RangePricer

open FlatBuffers

variable {fp : FloatUnit} {simd : Simd} {optionType : OptionType} {params : PricingParams}
  {pairs : List AlphaBetaPair} {batchId : UInt64}

/-- The pair as the plain entry point receives it. -/
def AlphaBetaPair.input (pair : AlphaBetaPair) : PricingInput := ⟨pair.idx, pair.alpha, pair.beta⟩

/-- The plain entry point on the arguments of the other one. -/
def pricePairs (fp : FloatUnit) (simd : Simd) (optionType : OptionType) (params : PricingParams)
    (pairs : List AlphaBetaPair) : Except InvalidArgument (List PricingOutput) :=
  price fp simd optionType params.stockPrice params.strikePrice params.interestRate
    params.timeToMaturity params.stockDiscretization (pairs.map AlphaBetaPair.input)

/-! ## One computation -/

/-- The results `price` returns once the parameters are accepted. -/
def pricedPairs (fp : FloatUnit) (simd : Simd) (params : PricingParams)
    (pairs : List AlphaBetaPair) : List PricingOutput :=
  pairs.zipWith (fun pair out => ⟨pair.idx, pair.alpha, pair.beta, out.1, out.2⟩)
    (priceArrays fp simd params.stockPrice params.strikePrice params.interestRate
      params.timeToMaturity params.stockDiscretization (pairs.map (·.alpha))
      (pairs.map (·.beta)) pairs.length)

theorem pricePairs_eq :
    pricePairs fp simd optionType params pairs = (do
      checkParams params.timeToMaturity params.stockDiscretization
      return pricedPairs fp simd params pairs) := by
  cases pairs with
  | nil => rfl
  | cons pair rest =>
      rw [pricePairs, price, pricedPairs]
      simp only [List.isEmpty_map, List.isEmpty_cons, List.map_map, List.length_map,
        List.zipWith_map_left]
      rfl

theorem process_ok {response : BatchPricingResponse}
    (hprocess : process fp simd params pairs batchId = .ok response) :
    response = ⟨batchId, some (batchResults fp simd params pairs)⟩ := by
  rw [process_eq, checked_eq_ok] at hprocess
  exact hprocess.2.symm

theorem pricePairs_ok {outputs : List PricingOutput}
    (hprice : pricePairs fp simd optionType params pairs = .ok outputs) :
    outputs = pricedPairs fp simd params pairs := by
  rw [pricePairs_eq, checked_eq_ok] at hprice
  exact hprice.2.symm

/-- Both throw what the checks throw. -/
theorem throws_iff (error : InvalidArgument) :
    pricePairs fp simd optionType params pairs = .error error ↔
      process fp simd params pairs batchId = .error error := by
  rw [pricePairs_eq, process_eq]
  cases checkParams params.timeToMaturity params.stockDiscretization with
  | error thrown =>
      constructor
      · intro hthrown
        cases hthrown
        rfl
      · intro hthrown
        cases hthrown
        rfl
  | ok =>
      constructor
      · intro hthrown
        cases hthrown
      · intro hthrown
        cases hthrown

/-- The table `process` creates for what `price` puts into a list. -/
def PricingOutput.response (output : PricingOutput) : PricingResponse :=
  createPricingResponse output.idx output.alpha output.beta output.price output.hedgeRatio

theorem batchResults_eq :
    batchResults fp simd params pairs = (pricedPairs fp simd params pairs).map (·.response) := by
  rw [batchResults, pricedPairs, List.map_zipWith]
  rfl

/-! ## What a response says -/

/-- A result carries the fields of an output, the signs of zeros aside. -/
structure PricingOutput.Matches (output : PricingOutput) (result : PricingResponse) : Prop where
  idx : result.idx = output.idx
  alpha : result.alpha.Agrees output.alpha
  beta : result.beta.Agrees output.beta
  price : result.price.Agrees output.price
  hedgeRatio : result.hedgeRatio.Agrees output.hedgeRatio

/-- A response carries a batch id and exactly a list of outputs, in order. -/
structure BatchPricingResponse.Carries (response : BatchPricingResponse) (batchId : UInt64)
    (outputs : List PricingOutput) : Prop where
  batchId : response.batchId = batchId
  results : ∃ results, response.results = some results ∧
    List.Forall₂ PricingOutput.Matches outputs results

theorem PricingOutput.matches_response (output : PricingOutput) :
    output.Matches output.response where
  idx := rfl
  alpha := output.alpha.unsignedZero_agrees
  beta := output.beta.unsignedZero_agrees
  price := output.price.unsignedZero_agrees
  hedgeRatio := output.hedgeRatio.unsignedZero_agrees

theorem forall₂_matches (outputs : List PricingOutput) :
    List.Forall₂ PricingOutput.Matches outputs (outputs.map (·.response)) := by
  rw [List.forall₂_map_right_iff, List.forall₂_same]
  exact fun output _ => output.matches_response

/-- Encoding forgets nothing that is left. -/
theorem batchResults_unsigned (fp : FloatUnit) (simd : Simd) (params : PricingParams)
    (pairs : List AlphaBetaPair) :
    (batchResults fp simd params pairs).map PricingResponse.unsigned =
      batchResults fp simd params pairs := by
  refine (List.map_congr_left fun result hresult => ?_).trans (List.map_id _)
  obtain ⟨pair, -, out, -, rfl⟩ := exists_of_mem_batchResults hresult
  exact createPricingResponse_again _ _ _ _ _

/-- Below the limit of the library the bytes of what `process` returns read
back as it. -/
theorem ofBytes_process {response : BatchPricingResponse}
    (hprocess : process fp simd params pairs batchId = .ok response)
    (hfits : response.toBytes.length < maxBufferSize) :
    BatchPricingResponse.ofBytes response.toBytes = response := by
  have hread := BatchPricingResponse.ofBytes_toBytes_of_lt hfits
  obtain rfl := process_ok hprocess
  rw [hread, Option.map_some, batchResults_unsigned]

/-! ## Agreement -/

/-- The entry points throw the same exceptions, and decoding what `process`
returns gives what `price` returns. -/
structure EntryPointsAgree (fp : FloatUnit) (simd : Simd) (optionType : OptionType)
    (params : PricingParams) (pairs : List AlphaBetaPair) (batchId : UInt64) : Prop where
  throws : ∀ error, pricePairs fp simd optionType params pairs = .error error ↔
    process fp simd params pairs batchId = .error error
  decodes : ∀ outputs response, pricePairs fp simd optionType params pairs = .ok outputs →
    process fp simd params pairs batchId = .ok response →
      (BatchPricingResponse.ofBytes response.toBytes).Carries batchId outputs

theorem carries_of_ok {outputs : List PricingOutput} {response : BatchPricingResponse}
    (hprice : pricePairs fp simd optionType params pairs = .ok outputs)
    (hprocess : process fp simd params pairs batchId = .ok response) :
    response.Carries batchId outputs := by
  obtain rfl := pricePairs_ok hprice
  obtain rfl := process_ok hprocess
  exact ⟨rfl, _, rfl, batchResults_eq ▸ forall₂_matches _⟩

theorem process_toBytes_length_le {response : BatchPricingResponse}
    (hprocess : process fp simd params pairs batchId = .ok response) :
    response.toBytes.length ≤ 164 * pairs.length + 144 := by
  obtain rfl := process_ok hprocess
  have hlength := responseBytes_length_le batchId (batchResults fp simd params pairs)
  rwa [batchResults_length] at hlength

/-- The entry points agree on every list, and across the encoding as long as the
buffer stays below the limit of the library. -/
theorem entry_points_agree (fp : FloatUnit) (simd : Simd) (optionType : OptionType)
    (params : PricingParams) (pairs : List AlphaBetaPair) (batchId : UInt64) :
    (∀ error, pricePairs fp simd optionType params pairs = .error error ↔
      process fp simd params pairs batchId = .error error) ∧
      ∀ outputs response, pricePairs fp simd optionType params pairs = .ok outputs →
        process fp simd params pairs batchId = .ok response →
          response.Carries batchId outputs ∧
            (response.toBytes.length < maxBufferSize →
              (BatchPricingResponse.ofBytes response.toBytes).Carries batchId outputs) ∧
            (pairs.length ≤ 13000000 → response.toBytes.length < maxBufferSize) := by
  refine ⟨throws_iff, fun outputs response hprice hprocess => ?_⟩
  have hcarries := carries_of_ok hprice hprocess
  refine ⟨hcarries, fun hfits => ?_, fun hfew => ?_⟩
  · rw [ofBytes_process hprocess hfits]
    exact hcarries
  · have hlength := process_toBytes_length_le hprocess
    have hlimit : maxBufferSize = 2 ^ 31 - 1 := rfl
    omega

/-! ## Beyond the limit -/

/-- Results whose fields are all present, except for the hedge ratio. -/
theorem unhedged_of_mem_batchResults {result : PricingResponse}
    (hexp : ∀ x, (fp.hnExp x).isZero = false ∧ (fp.stdExp x).isZero = false)
    (hpairs : ∀ pair ∈ pairs, (pair.idx == 0) = false ∧ pair.alpha.isZero = false ∧
      pair.beta.isZero = false)
    (hresult : result ∈ batchResults fp simd params pairs) : result.Unhedged := by
  obtain ⟨pair, hpair, out, hout, rfl⟩ := exists_of_mem_batchResults hresult
  obtain ⟨hidx, halpha, hbeta⟩ := hpairs pair hpair
  rw [priceArrays_eq, List.mem_append] at hout
  rcases hout with hvector | htail
  · obtain rfl := List.eq_of_mem_replicate hvector
    constructor <;> simp [createPricingResponse, hidx, halpha, hbeta, hexp]
  · obtain rfl := List.eq_of_mem_replicate htail
    constructor <;> simp [createPricingResponse, hidx, halpha, hbeta, hexp]

theorem exists_of_mem_pricedPairs {output : PricingOutput}
    (houtput : output ∈ pricedPairs fp simd params pairs) :
    ∃ pair ∈ pairs, output.idx = pair.idx := by
  obtain ⟨i, hi, rfl⟩ := List.getElem_of_mem houtput
  simp only [pricedPairs, List.getElem_zipWith]
  exact ⟨_, List.getElem_mem _, rfl⟩

/-- Every result that is carried has the index of some output. -/
theorem exists_of_mem_carried {outputs : List PricingOutput} {results : List PricingResponse}
    (hmatches : List.Forall₂ PricingOutput.Matches outputs results) {result : PricingResponse}
    (hresult : result ∈ results) : ∃ output ∈ outputs, result.idx = output.idx := by
  induction hmatches with
  | nil => cases hresult
  | cons hhead _ ih =>
      rcases List.mem_cons.mp hresult with rfl | hrest
      · exact ⟨_, List.mem_cons_self, hhead.idx⟩
      · obtain ⟨output, houtput, hidx⟩ := ih hrest
        exact ⟨output, List.mem_cons_of_mem _ houtput, hidx⟩

theorem pricePairs_accepted (haccepted : params.accepted = true) :
    pricePairs fp simd optionType params pairs = .ok (pricedPairs fp simd params pairs) := by
  rw [pricePairs_eq]
  exact checked_eq_ok.mpr ⟨haccepted, rfl⟩

/-- With more than two gigabytes of results the last one is lost. -/
theorem disagree_of_long {pair : AlphaBetaPair} (haccepted : params.accepted = true)
    (hexp : ∀ x, (fp.hnExp x).isZero = false ∧ (fp.stdExp x).isZero = false)
    (hpairs : ∀ p ∈ pair :: pairs, (p.idx == 0) = false ∧ p.alpha.isZero = false ∧
      p.beta.isZero = false)
    (hfar : 2 ^ 31 < 20 * pairs.length) (hsmall : 24 * pairs.length + 200 < 2 ^ 32) :
    ¬ EntryPointsAgree fp simd optionType params (pair :: pairs) batchId := by
  intro hagree
  have hlength := batchResults_length fp simd params (pair :: pairs)
  have hunhedged := fun result => @unhedged_of_mem_batchResults fp simd params _ result hexp hpairs
  obtain ⟨-, results, hresults, hmatches⟩ := hagree.decodes _ _ (pricePairs_accepted haccepted)
    (process_accepted fp simd haccepted (pair :: pairs) batchId)
  rw [BatchPricingResponse.toBytes] at hresults
  cases hbuilt : batchResults fp simd params (pair :: pairs) with
  | nil =>
      rw [hbuilt] at hlength
      cases hlength
  | cons first rest =>
      rw [hbuilt] at hlength hresults hunhedged
      have hsame : rest.length = pairs.length := Nat.succ.inj hlength
      obtain ⟨read, hread, hdefault⟩ := overlong_reads_default batchId
        (hunhedged first List.mem_cons_self)
        (fun response hresponse => hunhedged response (List.mem_cons_of_mem _ hresponse))
        (by omega) (by omega)
      rw [hresults] at hread
      obtain rfl := Option.some.inj hread
      obtain ⟨output, houtput, hidx⟩ :=
        exists_of_mem_carried hmatches (List.mem_of_getElem? hdefault)
      obtain ⟨p, hp, hzero⟩ := exists_of_mem_pricedPairs houtput
      have hnonzero := (hpairs p hp).1
      rw [← hzero, ← hidx] at hnonzero
      cases hnonzero

/-- A response for more than a hundred and twenty million pairs. -/
theorem not_entry_points_agree :
    ¬ ∀ (fp : FloatUnit) (simd : Simd) (optionType : OptionType) (params : PricingParams)
      (pairs : List AlphaBetaPair) (batchId : UInt64),
        EntryPointsAgree fp simd optionType params pairs batchId := by
  intro hagree
  let params : PricingParams :=
    { timeToMaturity := ⟨0x3f800000⟩, stockDiscretization := ⟨0x3c23d70a⟩ }
  let pairs := List.replicate 120000000 (AlphaBetaPair.sample 1)
  have hpairs : ∀ pair ∈ AlphaBetaPair.sample 1 :: pairs, (pair.idx == 0) = false ∧
      pair.alpha.isZero = false ∧ pair.beta.isZero = false := by
    intro pair hpair
    rw [← List.replicate_succ] at hpair
    obtain rfl := List.eq_of_mem_replicate hpair
    decide
  have hcount : pairs.length = 120000000 := List.length_replicate
  have haccepted : params.accepted = true := by decide
  have hexp : ∀ x, (FloatUnit.sample.hnExp x).isZero = false ∧
      (FloatUnit.sample.stdExp x).isZero = false := by
    intro x
    exact ⟨show Binary32.isZero ⟨0x3f6eb15c⟩ = false by decide,
      show Binary32.isZero ⟨0x3f6eb15d⟩ = false by decide⟩
  exact disagree_of_long haccepted hexp hpairs (by omega) (by omega)
    (hagree FloatUnit.sample ⟨1, Nat.one_pos⟩ OptionType.put params _ 1)

end RangePricer
