import Mathlib.Data.List.Sort
import RangePricer.Batches

/-!
# What travels between the server and its workers

The pure part of the server: what a worker makes of a batch, what the collector
takes from a result message, and the reply built from everything collected.
`std::sort` is any function with its documented effect; the order it gives to
elements with equal keys is not specified.
-/

namespace RangePricer

open FlatBuffers

/-- `std::sort` by `idx`: a sorted rearrangement of its input. -/
structure StdSort where
  run : List PricingResponse → List PricingResponse
  perm : ∀ results, (run results).Perm results
  sorted : ∀ results, (run results).Pairwise (fun a b => a.idx ≤ b.idx)

/-- One sort that meets the contract. -/
def StdSort.insertion : StdSort where
  run := List.insertionSort fun a b => a.idx ≤ b.idx
  perm := List.perm_insertionSort _
  sorted := List.pairwise_insertionSort _

/-- Everything fixed for one execution of the server. -/
structure Env where
  threads : Nat
  /-- An `int` flag without a validator. -/
  simdLanes : Int
  simdLanes_int : intMin ≤ simdLanes ∧ simdLanes ≤ intMax
  /-- Capacity of each worker's dispatch pipe. -/
  dispatchHwm : Nat
  /-- Capacity of each worker's results pipe. -/
  resultsHwm : Nat
  fp : FloatUnit
  simd : Simd
  sort : StdSort

/-- A message on the results socket: empty, or a serialised response. -/
inductive ResultMessage where
  | empty
  | response (response : BatchPricingResponse)
  deriving DecidableEq, Repr

/-- One iteration of the worker loop, from the received batch to the message
pushed for it.  A built batch carries both of its pointers. -/
def workerReply (env : Env) (batch : BatchPricingRequest) : ResultMessage :=
  if batch.verifies then
    match process env.fp env.simd batch.request batch.pairs batch.batchCounterId with
    | .error _ => .empty
    | .ok response => .response response
  else .empty

/-- What the collector appends for one result message. -/
def collect : ResultMessage → List PricingResponse
  | .empty => []
  | .response response => if response.verifies then response.results.getD [] else []

/-- The reply to a message that does not verify: no field is written. -/
def errorReply : RangePricingResponse := ⟨0, none⟩

/-- The reply built from the sorted results, each through `CreatePricingResponse`. -/
def buildReply (env : Env) (rr : RangePricingRequest) (allResults : List PricingResponse) :
    RangePricingResponse where
  requestHash := rr.requestHash
  results := some ((env.sort.run allResults).map fun r =>
    createPricingResponse r.idx r.alpha r.beta r.price r.hedgeRatio)

/-! ## The answer to one message -/

/-- `reply` is built from the messages pushed for the batches of the request,
received in some order. -/
structure Gathered (env : Env) (rr : RangePricingRequest) (reply : RangePricingResponse) :
    Prop where
  intro ::
  exists_order : ∃ batches received,
    expandToBatches rr env.simdLanes = .ok batches ∧
      List.Perm received (batches.map (workerReply env)) ∧
      reply = buildReply env rr (received.flatMap collect)

/-- The replies the server may give to a frontend message. -/
inductive Answers (env : Env) (msg : Bytes) (reply : RangePricingResponse) : Prop where
  | malformed (hmsg : verifyRangePricingRequestBuffer msg = false)
      (hreply : reply = errorReply)
  | served (hmsg : verifyRangePricingRequestBuffer msg = true)
      (hgathered : Gathered env (RangePricingRequest.ofBytes msg) reply)

/-! ## A small setting -/

/-- One worker, one pair to a batch, pipes that hold one message. -/
def Env.sample : Env where
  threads := 1
  simdLanes := 1
  simdLanes_int := by decide
  dispatchHwm := 1
  resultsHwm := 1
  fp := FloatUnit.sample
  simd := ⟨1, Nat.one_pos⟩
  sort := StdSort.insertion

/-- A client's request: a put at 100, rate 0.07, maturity 1, discretization 0.01. -/
def RangePricingRequest.sample (pairs : List AlphaBetaPair) : RangePricingRequest where
  request := ⟨OptionType.put, ⟨0x42c80000⟩, ⟨0x42c80000⟩, ⟨0x3d8f5c29⟩, ⟨0x3f800000⟩, ⟨0x3c23d70a⟩⟩
  requestHash := 1
  pairs := pairs

end RangePricer
