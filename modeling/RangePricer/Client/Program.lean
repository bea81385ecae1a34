import RangePricer.Client.GridValues
import RangePricer.Client.Reply
import RangePricer.Client.RequestHash
import RangePricer.Server.Sequential

/-!
# The program of the C++ client

From its flags to the request it sends, and from the reply to what it reports.
The flags are doubles that are narrowed wherever they are used; the request is
the grid of the two axes, row by row, with the parameters and their hash.  A
reply of the server to such a request lists the points of the grid in order, each
with the price of its position.
-/

namespace RangePricer

open FlatBuffers FloatingPoint

/-! ## From the flags to the request -/

/-- The flags that the request depends on. -/
structure ClientFlags where
  stockPrice : Datum binary64
  strikePrice : Datum binary64
  interestRate : Datum binary64
  timeToMaturity : Datum binary64
  stockDiscretization : Datum binary64
  alpha : Axis
  beta : Axis

/-- A flag where it is passed as a `float`. -/
def floatFlag (flag : Datum binary64) : Binary32 := wire (flag.narrow binary32)

namespace ClientFlags

variable (flags : ClientFlags)

/-- The two loops of `grid_values`, with as many iterations as `fuel` allows to each. -/
def grid (fuel : ℕ) : Option (List Binary32 × List Binary32) := do
  let alphas ← flags.alpha.clientValues fuel
  let betas ← flags.beta.clientValues fuel
  return (alphas.map wire, betas.map wire)

/-- `request_hash`. -/
def requestHash (hash : Binary32 → UInt64) : UInt64 :=
  clientRequestHash hash (floatFlag flags.stockPrice) (floatFlag flags.strikePrice)
    (floatFlag flags.interestRate) (floatFlag flags.timeToMaturity)
    (floatFlag flags.stockDiscretization)

/-- The request for the grid of `alphas` and `betas`. -/
def request (hash : Binary32 → UInt64) (alphas betas : List Binary32) : RangePricingRequest :=
  clientRequest (floatFlag flags.stockPrice) (floatFlag flags.strikePrice)
    (floatFlag flags.interestRate) (floatFlag flags.timeToMaturity)
    (floatFlag flags.stockDiscretization) (flags.requestHash hash) alphas betas

end ClientFlags

/-- The `k`-th value of an axis: `k` additions of the step, each rounded. -/
def Axis.value (axis : Axis) (k : ℕ) : Binary32 :=
  wire ((fun x => x.add (axis.step.narrow binary32))^[k] (axis.lo.narrow binary32))

theorem Axis.getElem?_clientValues {axis : Axis} {fuel : ℕ} {values : List (Datum binary32)}
    (hends : axis.clientValues fuel = some values) {k : ℕ} (hk : k < values.length) :
    (values.map wire)[k]? = some (axis.value k) := by
  rw [Axis.clientValues, clientGridValues, gridValues] at hends
  split at hends
  · obtain rfl := Option.some.inj hends
    obtain rfl : k = 0 := Nat.lt_one_iff.mp hk
    rfl
  · have hvalue := (Iteration.collects_of_collect hends).getElem? hk
    rw [List.getElem?_map, hvalue]
    rfl

/-- A client whose loops have ended, with a grid that one buffer can hold. -/
structure GridClient where
  flags : ClientFlags
  alphas : List Binary32
  betas : List Binary32
  ends : ∃ fuel, flags.grid fuel = some (alphas, betas)
  fits : alphas.length * betas.length < maxBufferSize / 12

namespace GridClient

variable (client : GridClient) (hash : Binary32 → UInt64)

def points : Nat := client.alphas.length * client.betas.length

def request : RangePricingRequest := client.flags.request hash client.alphas client.betas

/-- What is sent. -/
def message : Bytes := (client.request hash).toBytes

/-- Each list holds the values of its axis. -/
theorem getElem?_axes : (∀ k < client.alphas.length,
      client.alphas[k]? = some (client.flags.alpha.value k)) ∧
    ∀ k < client.betas.length, client.betas[k]? = some (client.flags.beta.value k) := by
  obtain ⟨fuel, hgrid⟩ := client.ends
  simp only [ClientFlags.grid, Option.bind_eq_bind, Option.bind_eq_some_iff] at hgrid
  obtain ⟨alphas, halphas, betas, hbetas, hpair⟩ := hgrid
  obtain ⟨hfirst, hsecond⟩ := Prod.mk.inj (Option.some.inj hpair)
  rw [← hfirst, ← hsecond, List.length_map, List.length_map]
  exact ⟨fun k hk => Axis.getElem?_clientValues halphas hk,
    fun k hk => Axis.getElem?_clientValues hbetas hk⟩

theorem request_isGrid : IsGrid client.alphas client.betas (client.request hash).pairs :=
  gridPairs_isGrid (client.fits.trans (by decide))

/-- The server reads the request without the signs of zero parameters. -/
theorem message_accepted :
    verifyRangePricingRequestBuffer (client.message hash) = true ∧
      RangePricingRequest.ofBytes (client.message hash) =
        { client.request hash with request := (client.request hash).request.unsigned } := by
  apply RangePricingRequest.toBytes_accepted
  rw [(client.request_isGrid hash).length_eq]
  exact client.fits

/-- The pairs are numbered upwards. -/
theorem request_increasing : (client.request hash).pairs.Pairwise fun p q => p.idx < q.idx := by
  apply List.pairwise_iff_getElem.mpr
  intro i j hi hj hij
  rw [UInt32.lt_iff_toNat_lt, ((client.request_isGrid hash).pair_eq i hi).1,
    ((client.request_isGrid hash).pair_eq j hj).1]
  exact hij

end GridClient

/-! ## What the server makes of the request -/

section

variable {env : Env} {rr : RangePricingRequest}

theorem batchParams_of_unsigned (params : PricingParams) :
    batchParams params.unsigned = batchParams params := by
  simp [batchParams, PricingParams.unsigned, PricingParams.addStockPrice,
    PricingParams.addStrikePrice, PricingParams.addInterestRate,
    PricingParams.addTimeToMaturity, PricingParams.addStockDiscretization]

/-- The signs of zero parameters make no difference to the results. -/
theorem sequentialResults_unsigned :
    sequentialResults env { rr with request := rr.request.unsigned } =
      sequentialResults env rr := by
  simp only [sequentialResults, positionResult, positionPrice, batchParams_of_unsigned,
    PricingParams.unsigned_accepted]

/-- Below the verifier's table limit no result is lost, if the chunks are counted. -/
theorem sequentialResults_of_few (hlanes : 1 ≤ env.simdLanes)
    (hsum : (rr.pairs.length : Int) + env.simdLanes - 1 ≤ intMax)
    (haccepted : rr.pairs = [] ∨ rr.request.accepted = true)
    (hfew : rr.pairs.length < maxTables) :
    sequentialResults env rr = rr.pairs.zipIdx.map fun entry =>
      createPricingResponse entry.1.idx entry.1.alpha entry.1.beta
        (positionPrice env rr entry.2) Binary32.zero := by
  have hchunk (i : Nat) : chunkSize env.simdLanes.toNat rr.pairs.length i < maxTables :=
    ((Nat.min_le_right _ _).trans (Nat.sub_le _ _)).trans_lt hfew
  simp only [sequentialResults, positionResult, if_pos (hchunk _), List.filterMap_eq_map']
  split
  · rfl
  · next hrejected =>
      rw [haccepted.resolve_right fun haccepted => hrejected ⟨haccepted, hlanes, hsum⟩]
      rfl

/-- Results in the order of distinct `idx` stay where they are. -/
theorem sequentialResults_sorted (hincreasing : rr.pairs.Pairwise fun p q => p.idx < q.idx) :
    StdSort.insertion.run (sequentialResults env rr) = sequentialResults env rr := by
  apply List.Pairwise.insertionSort_eq
  rw [sequentialResults]
  split
  · rw [List.pairwise_filterMap]
    have hentries : (rr.pairs.zipIdx.map Prod.fst).Pairwise fun p q => p.idx < q.idx := by
      rw [List.zipIdx_map_fst]
      exact hincreasing
    refine (List.pairwise_map.mp hentries).imp fun hlt p hp q hq => ?_
    simp only [positionResult, Option.ite_none_right_eq_some] at hp hq
    rw [← Option.some.inj hp.2, ← Option.some.inj hq.2]
    exact UInt32.le_of_lt hlt
  · exact List.Pairwise.nil

end

/-! ## From the reply to the report -/

/-- What the client prints of a reply: `none` where it reports an invalid response. -/
def clientReport (buf : Bytes) : Option (UInt64 × List PricingResponse) :=
  (clientResults buf).map fun results => ((RangePricingResponse.ofBytes buf).requestHash, results)

theorem clientReport_toBytes {reply : RangePricingResponse} {results : List PricingResponse}
    (hresults : reply.results = some results) :
    clientReport reply.toBytes =
      if results.length < maxTables then
        some (reply.requestHash, results.map PricingResponse.unsigned)
      else none := by
  rw [clientReport, clientResults_toBytes hresults]
  split
  · next hfew =>
      have hverifies : reply.verifies = true := by
        rw [← RangePricingResponse.toBytes_admitted, reply_admitted hresults, decide_eq_true hfew]
      rw [RangePricingResponse.ofBytes_toBytes hverifies, Option.map_some]
  · rfl

/-- Every point of the grid, in order, with its price. -/
structure GridClient.PricedGrid (client : GridClient) (env : Env) (hash : Binary32 → UInt64)
    (results : List PricingResponse) : Prop where
  length_eq : results.length = client.points
  result_eq : ∀ k, (hk : k < results.length) → results[k].idx.toNat = k ∧
    results[k].alpha.Agrees (client.flags.alpha.value (k / client.betas.length)) ∧
      results[k].beta.Agrees (client.flags.beta.value (k % client.betas.length)) ∧
        results[k].price.Agrees (positionPrice env (client.request hash) k) ∧
          results[k].hedgeRatio = Binary32.zero

end RangePricer
