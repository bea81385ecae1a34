import RangePricer.Binary32
import RangePricer.FlatBuffers.Builder
import RangePricer.FlatBuffers.Table

/-!
# The wire schema

One record for each table and struct of the schema, holding what the generated
accessors return, together with the generated builder, accessor and verifier of
its byte form.  A table field that was not written reads back as its default,
so building a record drops the sign of a zero float and keeps everything else.
-/

namespace RangePricer

open FlatBuffers

/-- `enum OptionType : byte`.  A wire byte that names no enumerator is possible,
the verifier does not look at the value. -/
structure OptionType where
  raw : UInt8
  deriving DecidableEq, Repr

namespace OptionType

def call : OptionType := ⟨0⟩

def put : OptionType := ⟨1⟩

end OptionType

structure PricingParams where
  optionType : OptionType := OptionType.call
  stockPrice : Binary32 := Binary32.zero
  strikePrice : Binary32 := Binary32.zero
  interestRate : Binary32 := Binary32.zero
  timeToMaturity : Binary32 := Binary32.zero
  stockDiscretization : Binary32 := Binary32.zero
  deriving DecidableEq, Repr

structure AlphaBetaPair where
  idx : UInt32
  alpha : Binary32
  beta : Binary32
  deriving DecidableEq, Repr

structure RangePricingRequest where
  request : PricingParams
  requestHash : UInt64
  pairs : List AlphaBetaPair
  deriving DecidableEq, Repr

structure BatchPricingRequest where
  batchCounterId : UInt64
  request : PricingParams
  pairs : List AlphaBetaPair
  deriving DecidableEq, Repr

structure PricingResponse where
  idx : UInt32
  alpha : Binary32
  beta : Binary32
  price : Binary32
  hedgeRatio : Binary32
  deriving DecidableEq, Repr

/-- `results` is `none` when the vector is not present. -/
structure BatchPricingResponse where
  batchId : UInt64
  results : Option (List PricingResponse)
  deriving DecidableEq, Repr

/-- `results` is `none` when the vector is not present. -/
structure RangePricingResponse where
  requestHash : UInt64
  results : Option (List PricingResponse)
  deriving DecidableEq, Repr

/-! ## Tables as they read back -/

namespace PricingParams

/-! `PricingParamsBuilder`: each `add_` call sets the value its accessor returns. -/

def addStockPrice (params : PricingParams) (stockPrice : Binary32) : PricingParams :=
  { params with stockPrice := stockPrice.unsignedZero }

def addStrikePrice (params : PricingParams) (strikePrice : Binary32) : PricingParams :=
  { params with strikePrice := strikePrice.unsignedZero }

def addInterestRate (params : PricingParams) (interestRate : Binary32) : PricingParams :=
  { params with interestRate := interestRate.unsignedZero }

def addTimeToMaturity (params : PricingParams) (timeToMaturity : Binary32) : PricingParams :=
  { params with timeToMaturity := timeToMaturity.unsignedZero }

def addStockDiscretization (params : PricingParams) (stockDiscretization : Binary32) :
    PricingParams :=
  { params with stockDiscretization := stockDiscretization.unsignedZero }

/-- Equality in every field of the schema, the sign of a zero float ignored. -/
structure Agrees (left right : PricingParams) : Prop where
  optionType : left.optionType = right.optionType
  stockPrice : left.stockPrice.Agrees right.stockPrice
  strikePrice : left.strikePrice.Agrees right.strikePrice
  interestRate : left.interestRate.Agrees right.interestRate
  timeToMaturity : left.timeToMaturity.Agrees right.timeToMaturity
  stockDiscretization : left.stockDiscretization.Agrees right.stockDiscretization

end PricingParams

/-- `CreatePricingResponse`, as the table reads back. -/
def createPricingResponse (idx : UInt32) (alpha beta price hedgeRatio : Binary32) :
    PricingResponse where
  idx := idx
  alpha := alpha.unsignedZero
  beta := beta.unsignedZero
  price := price.unsignedZero
  hedgeRatio := hedgeRatio.unsignedZero

/-! ## Verification of built messages

The generated `Verify` of a message whose buffer was produced by a builder can
fail only at a limit of the verifier: the number of tables, the nesting depth
or the length of a vector. -/

/-- A response message: its root table, one vector, one table for each result. -/
def responseVerifies (results : Option (List PricingResponse)) : Bool :=
  match results with
  | none => true
  | some results =>
      decide (results.length < maxBufferSize / 4) && decide (1 + results.length ≤ maxTables)

/-- The number of tables is the limit that counts. -/
theorem responseVerifies_some (results : List PricingResponse) :
    responseVerifies (some results) = decide (results.length < maxTables) := by
  have hlimits : maxTables < maxBufferSize / 4 := by decide
  rw [responseVerifies, Bool.eq_iff_iff, Bool.and_eq_true, decide_eq_true_eq, decide_eq_true_eq,
    decide_eq_true_eq]
  omega

namespace BatchPricingRequest

/-- The root table, its parameters and one vector of structs. -/
def verifies (batch : BatchPricingRequest) : Bool :=
  decide (batch.pairs.length < maxBufferSize / 12)

end BatchPricingRequest

namespace BatchPricingResponse

def verifies (response : BatchPricingResponse) : Bool := responseVerifies response.results

end BatchPricingResponse

namespace RangePricingResponse

def verifies (response : RangePricingResponse) : Bool := responseVerifies response.results

end RangePricingResponse

/-! ## Byte form -/

/-- `AddElement<float>` with default `0.0f`. -/
def addFloat (b : Builder) (field : Nat) (value : Binary32) : Builder :=
  b.addElement field 4 value.bits.toNat value.isZero

/-- `GetField<float>` with default `0.0f`. -/
def getFloat (buf : Bytes) (table field : Nat) : Binary32 :=
  ⟨UInt32.ofNat (getField 4 buf table field 0)⟩

namespace AlphaBetaPair

/-- The 12 bytes of the struct. -/
def toBytes (pair : AlphaBetaPair) : Bytes :=
  leBytes 4 pair.idx.toNat ++ leBytes 4 pair.alpha.bits.toNat ++ leBytes 4 pair.beta.bits.toNat

def read (buf : Bytes) (address : Nat) : AlphaBetaPair where
  idx := UInt32.ofNat (readScalar 4 buf address)
  alpha := ⟨UInt32.ofNat (readScalar 4 buf (address + 4))⟩
  beta := ⟨UInt32.ofNat (readScalar 4 buf (address + 8))⟩

/-- Every element of a vector of pairs; the null pointer has none. -/
def readVector (buf : Bytes) : Option Nat → List AlphaBetaPair
  | none => []
  | some vec =>
      (List.range (vectorSize buf vec)).map fun i => read buf (structElement 12 vec i)

end AlphaBetaPair

namespace PricingParams

def build (params : PricingParams) (b : Builder) : Builder × Nat :=
  let start := b.startTable
  let b := b.addElement 4 1 params.optionType.raw.toNat (params.optionType.raw == 0)
  let b := addFloat b 6 params.stockPrice
  let b := addFloat b 8 params.strikePrice
  let b := addFloat b 10 params.interestRate
  let b := addFloat b 12 params.timeToMaturity
  let b := addFloat b 14 params.stockDiscretization
  b.endTable start

def read (buf : Bytes) (table : Nat) : PricingParams where
  optionType := ⟨UInt8.ofNat (getField 1 buf table 4 0)⟩
  stockPrice := getFloat buf table 6
  strikePrice := getFloat buf table 8
  interestRate := getFloat buf table 10
  timeToMaturity := getFloat buf table 12
  stockDiscretization := getFloat buf table 14

def verify (buf : Bytes) (table : Nat) : Counters → Option Counters :=
  verifyTable buf table fun counters => do
    let counters ← check (verifyField 1 1 buf table 4) counters
    let counters ← check (verifyField 4 4 buf table 6) counters
    let counters ← check (verifyField 4 4 buf table 8) counters
    let counters ← check (verifyField 4 4 buf table 10) counters
    let counters ← check (verifyField 4 4 buf table 12) counters
    check (verifyField 4 4 buf table 14) counters

/-- `VerifyTable`: the null pointer is accepted. -/
def verifyPointer (buf : Bytes) : Option Nat → Counters → Option Counters
  | none, counters => some counters
  | some table, counters => verify buf table counters

end PricingParams

namespace RangePricingRequest

/-- The generated `Verify`. -/
def verify (buf : Bytes) (table : Nat) : Counters → Option Counters :=
  verifyTable buf table fun counters => do
    let counters ← check (verifyOffsetRequired buf table 4) counters
    let counters ← PricingParams.verifyPointer buf (getPointer buf table 4) counters
    let counters ← check (verifyField 8 8 buf table 6) counters
    let counters ← check (verifyOffsetRequired buf table 8) counters
    check (verifyVector 12 buf (getPointer buf table 8)) counters

/-- `GetRangePricingRequest`, all fields read through their accessors. -/
def ofBytes (buf : Bytes) : RangePricingRequest :=
  let table := getRoot buf
  { request := ((getPointer buf table 4).map (PricingParams.read buf)).getD {}
    requestHash := UInt64.ofNat (getField 8 buf table 6 0)
    pairs := AlphaBetaPair.readVector buf (getPointer buf table 8) }

/-- The builder calls of the C++ client. -/
def toBytes (request : RangePricingRequest) : Bytes :=
  let (b, pairsVec) :=
    Builder.createVectorOfStructs {} 12 4 (request.pairs.map AlphaBetaPair.toBytes)
  let (b, pricingParams) := request.request.build b
  let start := b.startTable
  let b := b.addOffset 4 pricingParams
  let b := b.addElement 6 8 request.requestHash.toNat (request.requestHash == 0)
  let b := b.addOffset 8 pairsVec
  let (b, root) := b.endTable start
  b.finish root

end RangePricingRequest

/-- `VerifyRangePricingRequestBuffer`, the server's check of a frontend message. -/
def verifyRangePricingRequestBuffer (buf : Bytes) : Bool :=
  verifyBuffer (RangePricingRequest.verify buf) buf

namespace BatchPricingRequest

def verify (buf : Bytes) (table : Nat) : Counters → Option Counters :=
  verifyTable buf table fun counters => do
    let counters ← check (verifyField 8 8 buf table 4) counters
    let counters ← check (verifyOffsetRequired buf table 6) counters
    let counters ← PricingParams.verifyPointer buf (getPointer buf table 6) counters
    let counters ← check (verifyOffsetRequired buf table 8) counters
    check (verifyVector 12 buf (getPointer buf table 8)) counters

/-- `GetRoot<BatchPricingRequest>(data)->Verify(verifier)`. -/
def verifyBytes (buf : Bytes) : Bool := (verify buf (getRoot buf) {}).isSome

def ofBytes (buf : Bytes) : BatchPricingRequest :=
  let table := getRoot buf
  { batchCounterId := UInt64.ofNat (getField 8 buf table 4 0)
    request := ((getPointer buf table 6).map (PricingParams.read buf)).getD {}
    pairs := AlphaBetaPair.readVector buf (getPointer buf table 8) }

/-- The builder calls of `expand_to_batches` for one chunk. -/
def toBytes (batch : BatchPricingRequest) : Bytes :=
  let (b, pairsVec) :=
    Builder.createVectorOfStructs {} 12 4 (batch.pairs.map AlphaBetaPair.toBytes)
  let (b, request) := batch.request.build b
  let start := b.startTable
  let b := b.addElement 4 8 batch.batchCounterId.toNat (batch.batchCounterId == 0)
  let b := b.addOffset 6 request
  let b := b.addOffset 8 pairsVec
  let (b, root) := b.endTable start
  b.finish root

end BatchPricingRequest

namespace PricingResponse

def verify (buf : Bytes) (table : Nat) : Counters → Option Counters :=
  verifyTable buf table fun counters => do
    let counters ← check (verifyField 4 4 buf table 4) counters
    let counters ← check (verifyField 4 4 buf table 6) counters
    let counters ← check (verifyField 4 4 buf table 8) counters
    let counters ← check (verifyField 4 4 buf table 10) counters
    check (verifyField 4 4 buf table 12) counters

def read (buf : Bytes) (table : Nat) : PricingResponse where
  idx := UInt32.ofNat (getField 4 buf table 4 0)
  alpha := getFloat buf table 6
  beta := getFloat buf table 8
  price := getFloat buf table 10
  hedgeRatio := getFloat buf table 12

/-- `CreatePricingResponse` on a builder. -/
def build (response : PricingResponse) (b : Builder) : Builder × Nat :=
  let start := b.startTable
  let b := addFloat b 12 response.hedgeRatio
  let b := addFloat b 10 response.price
  let b := addFloat b 8 response.beta
  let b := addFloat b 6 response.alpha
  let b := b.addElement 4 4 response.idx.toNat (response.idx == 0)
  b.endTable start

/-- Build the results one after another and collect their offsets. -/
def buildAll : List PricingResponse → Builder → Builder × List Nat
  | [], b => (b, [])
  | response :: rest, b =>
      let (b, offset) := response.build b
      let (b, offsets) := buildAll rest b
      (b, offset :: offsets)

/-- Every element of a vector of responses. -/
def readVector (buf : Bytes) (vec : Nat) : List PricingResponse :=
  (List.range (vectorSize buf vec)).map fun i => read buf (tableElement buf vec i)

end PricingResponse

/-! `BatchPricingResponse` and `RangePricingResponse` have one layout: a 64-bit
word in the first field and the results in the second. -/

/-- The generated `Verify` of a response. -/
def verifyResponse (buf : Bytes) (table : Nat) : Counters → Option Counters :=
  verifyTable buf table fun counters => do
    let counters ← check (verifyField 8 8 buf table 4) counters
    let counters ← check (verifyOffset buf table 6) counters
    let counters ← check (verifyVector 4 buf (getPointer buf table 6)) counters
    verifyVectorOfTables (PricingResponse.verify buf) buf (getPointer buf table 6) counters

/-- The builder calls of a response: its results, their vector, the root table. -/
def responseBytes (word : UInt64) (results : Option (List PricingResponse)) : Bytes :=
  let (b, resultsVec) :=
    match results with
    | none => (({} : Builder), 0)
    | some results =>
        let (b, offsets) := PricingResponse.buildAll results {}
        b.createVectorOfOffsets offsets
  let start := b.startTable
  let b := b.addElement 4 8 word.toNat (word == 0)
  let b := b.addOffset 6 resultsVec
  let (b, root) := b.endTable start
  b.finish root

namespace BatchPricingResponse

/-- `GetRoot<BatchPricingResponse>(data)->Verify(verifier)`. -/
def verifyBytes (buf : Bytes) : Bool := (verifyResponse buf (getRoot buf) {}).isSome

def ofBytes (buf : Bytes) : BatchPricingResponse where
  batchId := UInt64.ofNat (getField 8 buf (getRoot buf) 4 0)
  results := (getPointer buf (getRoot buf) 6).map (PricingResponse.readVector buf)

def toBytes (response : BatchPricingResponse) : Bytes :=
  responseBytes response.batchId response.results

end BatchPricingResponse

namespace RangePricingResponse

/-- `GetRoot<RangePricingResponse>(data)->Verify(verifier)`. -/
def verifyBytes (buf : Bytes) : Bool := (verifyResponse buf (getRoot buf) {}).isSome

def ofBytes (buf : Bytes) : RangePricingResponse where
  requestHash := UInt64.ofNat (getField 8 buf (getRoot buf) 4 0)
  results := (getPointer buf (getRoot buf) 6).map (PricingResponse.readVector buf)

def toBytes (response : RangePricingResponse) : Bytes :=
  responseBytes response.requestHash response.results

end RangePricingResponse

/-! ## What a verified request promises -/

theorem AlphaBetaPair.length_readVector (buf : Bytes) (vec : Option Nat) :
    (AlphaBetaPair.readVector buf vec).length = (vec.map (vectorSize buf)).getD 0 := by
  cases vec with
  | none => rfl
  | some vec => simp [AlphaBetaPair.readVector]

/-- The verifier bounds the number of pairs of a request. -/
theorem verified_pairs_lt {msg : Bytes} (hmsg : verifyRangePricingRequestBuffer msg = true) :
    (RangePricingRequest.ofBytes msg).pairs.length < maxBufferSize / 12 := by
  obtain ⟨passed, hpassed⟩ := exists_verified_root hmsg
  obtain ⟨entered, left, -, hfields, -⟩ := verifyTable_eq_some.mp hpassed
  simp only [Option.bind_eq_bind, check_bind_eq_some] at hfields
  obtain ⟨-, hfields⟩ := hfields
  obtain ⟨_, -, hfields⟩ := Option.bind_eq_some_iff.mp hfields
  obtain ⟨hvector, -⟩ := check_eq_some.mp (check_bind_eq_some.mp
    (check_bind_eq_some.mp hfields).2).2
  rw [RangePricingRequest.ofBytes, AlphaBetaPair.length_readVector]
  cases hvec : getPointer msg (getRoot msg) 8 with
  | none => simp [maxBufferSize]
  | some vec =>
      simp only [hvec, verifyVector, Option.all_some, verifyVectorAt, Bool.and_eq_true,
        decide_eq_true_eq] at hvector
      exact hvector.1.2

theorem verified_pairs_lt_int {msg : Bytes} (hmsg : verifyRangePricingRequestBuffer msg = true) :
    (RangePricingRequest.ofBytes msg).pairs.length < 2 ^ 31 :=
  (verified_pairs_lt hmsg).trans (by decide)

end RangePricer
