import RangePricer.FlatBuffers.Checked
import RangePricer.Schema

/-!
# Parsing a message stays inside it

What each receiver does with the bytes of a message, read for read: verify, then
go through every field of every table and every element of every vector.  The
server verifies a frontend message before it reads any of it.  The workers, the
collector and the clients follow the root offset first, which needs four bytes.
-/

namespace RangePricer

open FlatBuffers

/-! ## Reading -/

def getFloatChecked (buf : Bytes) (table field : Nat) : Reading Binary32 := do
  let word ← Checked.getField 4 buf table field 0
  return ⟨UInt32.ofNat word⟩

namespace AlphaBetaPair

def readChecked (buf : Bytes) (address : Nat) : Reading AlphaBetaPair := do
  let idx ← Checked.readScalar 4 buf address
  let alpha ← Checked.readScalar 4 buf (address + 4)
  let beta ← Checked.readScalar 4 buf (address + 8)
  return ⟨UInt32.ofNat idx, ⟨UInt32.ofNat alpha⟩, ⟨UInt32.ofNat beta⟩⟩

def readVectorChecked (buf : Bytes) (vec : Nat) : Reading (List AlphaBetaPair) := do
  let size ← Checked.vectorSize buf vec
  (List.range size).mapM fun i => readChecked buf (structElement 12 vec i)

end AlphaBetaPair

namespace PricingParams

def readChecked (buf : Bytes) (table : Nat) : Reading PricingParams := do
  let optionType ← Checked.getField 1 buf table 4 0
  let stockPrice ← getFloatChecked buf table 6
  let strikePrice ← getFloatChecked buf table 8
  let interestRate ← getFloatChecked buf table 10
  let timeToMaturity ← getFloatChecked buf table 12
  let stockDiscretization ← getFloatChecked buf table 14
  return ⟨⟨UInt8.ofNat optionType⟩, stockPrice, strikePrice, interestRate, timeToMaturity,
    stockDiscretization⟩

def verifyChecked (buf : Bytes) (table : Nat) : Counters → Verifying Counters :=
  Checked.verifyTable buf table fun counters => do
    let counters ← Checked.check (Checked.verifyField 1 1 buf table 4) counters
    let counters ← Checked.check (Checked.verifyField 4 4 buf table 6) counters
    let counters ← Checked.check (Checked.verifyField 4 4 buf table 8) counters
    let counters ← Checked.check (Checked.verifyField 4 4 buf table 10) counters
    let counters ← Checked.check (Checked.verifyField 4 4 buf table 12) counters
    Checked.check (Checked.verifyField 4 4 buf table 14) counters

def verifyPointerChecked (buf : Bytes) : Option Nat → Counters → Verifying Counters
  | none, counters => return counters
  | some table, counters => verifyChecked buf table counters

end PricingParams

namespace PricingResponse

def readChecked (buf : Bytes) (table : Nat) : Reading PricingResponse := do
  let idx ← Checked.getField 4 buf table 4 0
  let alpha ← getFloatChecked buf table 6
  let beta ← getFloatChecked buf table 8
  let price ← getFloatChecked buf table 10
  let hedgeRatio ← getFloatChecked buf table 12
  return ⟨UInt32.ofNat idx, alpha, beta, price, hedgeRatio⟩

def readVectorChecked (buf : Bytes) (vec : Nat) : Reading (List PricingResponse) := do
  let size ← Checked.vectorSize buf vec
  (List.range size).mapM fun i => do
    let table ← Checked.tableElement buf vec i
    readChecked buf table

def verifyChecked (buf : Bytes) (table : Nat) : Counters → Verifying Counters :=
  Checked.verifyTable buf table fun counters => do
    let counters ← Checked.check (Checked.verifyField 4 4 buf table 4) counters
    let counters ← Checked.check (Checked.verifyField 4 4 buf table 6) counters
    let counters ← Checked.check (Checked.verifyField 4 4 buf table 8) counters
    let counters ← Checked.check (Checked.verifyField 4 4 buf table 10) counters
    Checked.check (Checked.verifyField 4 4 buf table 12) counters

end PricingResponse

/-! ## The receivers -/

namespace RangePricingRequest

def verifyChecked (buf : Bytes) (table : Nat) : Counters → Verifying Counters :=
  Checked.verifyTable buf table fun counters => do
    let counters ← Checked.check (Checked.verifyOffsetRequired buf table 4) counters
    let request ← OptionT.lift (Checked.getPointer buf table 4)
    let counters ← PricingParams.verifyPointerChecked buf request counters
    let counters ← Checked.check (Checked.verifyField 8 8 buf table 6) counters
    let counters ← Checked.check (Checked.verifyOffsetRequired buf table 8) counters
    let pairs ← OptionT.lift (Checked.getPointer buf table 8)
    Checked.check (Checked.verifyVector 12 buf pairs) counters

/-- `rr->request()` and `rr->pairs()` are used without a look at the pointers. -/
def ofBytesChecked (buf : Bytes) : Reading RangePricingRequest := do
  let table ← Checked.getRoot buf
  let requestHash ← Checked.getField 8 buf table 6 0
  let pairsVec ← Checked.getPointer buf table 8
  let pairsVec ← Checked.dereference pairsVec
  let pairs ← AlphaBetaPair.readVectorChecked buf pairsVec
  let params ← Checked.getPointer buf table 4
  let params ← Checked.dereference params
  let request ← PricingParams.readChecked buf params
  return ⟨request, UInt64.ofNat requestHash, pairs⟩

/-- The server: `VerifyRangePricingRequestBuffer`, then every field. -/
def receive (buf : Bytes) : Reading (Option RangePricingRequest) := do
  let verified ← Checked.verifyBuffer (verifyChecked buf) buf
  if verified then
    let rr ← ofBytesChecked buf
    return some rr
  else return none

end RangePricingRequest

namespace BatchPricingRequest

def verifyChecked (buf : Bytes) (table : Nat) : Counters → Verifying Counters :=
  Checked.verifyTable buf table fun counters => do
    let counters ← Checked.check (Checked.verifyField 8 8 buf table 4) counters
    let counters ← Checked.check (Checked.verifyOffsetRequired buf table 6) counters
    let request ← OptionT.lift (Checked.getPointer buf table 6)
    let counters ← PricingParams.verifyPointerChecked buf request counters
    let counters ← Checked.check (Checked.verifyOffsetRequired buf table 8) counters
    let pairs ← OptionT.lift (Checked.getPointer buf table 8)
    Checked.check (Checked.verifyVector 12 buf pairs) counters

/-- A worker: `GetRoot`, `Verify`, the two null checks, then every field. -/
def receive (buf : Bytes) : Reading (Option BatchPricingRequest) := do
  let table ← Checked.getRoot buf
  let passed ← (verifyChecked buf table {}).run
  if passed.isSome then
    let params ← Checked.getPointer buf table 6
    let pairsVec ← Checked.getPointer buf table 8
    match params, pairsVec with
    | some params, some pairsVec =>
        let request ← PricingParams.readChecked buf params
        let pairs ← AlphaBetaPair.readVectorChecked buf pairsVec
        let batchCounterId ← Checked.getField 8 buf table 4 0
        return some ⟨UInt64.ofNat batchCounterId, request, pairs⟩
    | _, _ => return none
  else return none

end BatchPricingRequest

def verifyResponseChecked (buf : Bytes) (table : Nat) : Counters → Verifying Counters :=
  Checked.verifyTable buf table fun counters => do
    let counters ← Checked.check (Checked.verifyField 8 8 buf table 4) counters
    let counters ← Checked.check (Checked.verifyOffset buf table 6) counters
    let results ← OptionT.lift (Checked.getPointer buf table 6)
    let counters ← Checked.check (Checked.verifyVector 4 buf results) counters
    Checked.verifyVectorOfTables (PricingResponse.verifyChecked buf) buf results counters

/-- `GetRoot`, `Verify`, then the word and every result, if there are results. -/
def receiveResponse (buf : Bytes) : Reading (Option (UInt64 × Option (List PricingResponse))) := do
  let table ← Checked.getRoot buf
  let passed ← (verifyResponseChecked buf table {}).run
  if passed.isSome then
    let word ← Checked.getField 8 buf table 4 0
    let vec ← Checked.getPointer buf table 6
    match vec with
    | none => return some (UInt64.ofNat word, none)
    | some vec =>
        let results ← PricingResponse.readVectorChecked buf vec
        return some (UInt64.ofNat word, some results)
  else return none

/-- The collector. -/
def BatchPricingResponse.receive (buf : Bytes) : Reading (Option BatchPricingResponse) := do
  let received ← receiveResponse buf
  return received.map fun fields => ⟨fields.1, fields.2⟩

/-- A client. -/
def RangePricingResponse.receive (buf : Bytes) : Reading (Option RangePricingResponse) := do
  let received ← receiveResponse buf
  return received.map fun fields => ⟨fields.1, fields.2⟩

/-! ## Verifying reads nothing that was not checked -/

section Verify

variable {buf : Bytes}

theorem PricingParams.performs_verify (table : Nat) (counters : Counters) :
    Performs (PricingParams.verifyChecked buf table counters)
      (PricingParams.verify buf table counters) := by
  refine performs_verifyTable (fun htable counters => ?_) counters
  refine Performs.bind (Performs.check _ (verifyField_ok htable rfl 1 1)) fun _ _ => ?_
  refine Performs.bind (Performs.check _ (verifyField_ok htable rfl 4 4)) fun _ _ => ?_
  refine Performs.bind (Performs.check _ (verifyField_ok htable rfl 4 4)) fun _ _ => ?_
  refine Performs.bind (Performs.check _ (verifyField_ok htable rfl 4 4)) fun _ _ => ?_
  refine Performs.bind (Performs.check _ (verifyField_ok htable rfl 4 4)) fun _ _ => ?_
  exact Performs.check _ (verifyField_ok htable rfl 4 4)

theorem PricingParams.performs_verifyPointer (table : Option Nat) (counters : Counters) :
    Performs (PricingParams.verifyPointerChecked buf table counters)
      (PricingParams.verifyPointer buf table counters) := by
  cases table with
  | none => exact Performs.pure _
  | some table => exact PricingParams.performs_verify table counters

theorem PricingResponse.performs_verify (table : Nat) (counters : Counters) :
    Performs (PricingResponse.verifyChecked buf table counters)
      (PricingResponse.verify buf table counters) := by
  refine performs_verifyTable (fun htable counters => ?_) counters
  refine Performs.bind (Performs.check _ (verifyField_ok htable rfl 4 4)) fun _ _ => ?_
  refine Performs.bind (Performs.check _ (verifyField_ok htable rfl 4 4)) fun _ _ => ?_
  refine Performs.bind (Performs.check _ (verifyField_ok htable rfl 4 4)) fun _ _ => ?_
  refine Performs.bind (Performs.check _ (verifyField_ok htable rfl 4 4)) fun _ _ => ?_
  exact Performs.check _ (verifyField_ok htable rfl 4 4)

theorem RangePricingRequest.performs_verify (table : Nat) (counters : Counters) :
    Performs (RangePricingRequest.verifyChecked buf table counters)
      (RangePricingRequest.verify buf table counters) := by
  refine performs_verifyTable (fun htable counters => ?_) counters
  refine Performs.bind (Performs.check _ (verifyOffsetRequired_ok htable rfl)) fun _ hrequest => ?_
  have hpointer := readableField_of_verifyOffsetRequired (check_eq_some.mp hrequest).1
  refine Performs.bind_read (htable.getPointer rfl hpointer) ?_
  refine Performs.bind (PricingParams.performs_verifyPointer _ _) fun _ _ => ?_
  refine Performs.bind (Performs.check _ (verifyField_ok htable rfl 8 8)) fun _ _ => ?_
  refine Performs.bind (Performs.check _ (verifyOffsetRequired_ok htable rfl)) fun _ hpairs => ?_
  have hvec := readableField_of_verifyOffsetRequired (check_eq_some.mp hpairs).1
  refine Performs.bind_read (htable.getPointer rfl hvec) ?_
  exact Performs.check _ (verifyVector_ok 12 buf _)

theorem BatchPricingRequest.performs_verify (table : Nat) (counters : Counters) :
    Performs (BatchPricingRequest.verifyChecked buf table counters)
      (BatchPricingRequest.verify buf table counters) := by
  refine performs_verifyTable (fun htable counters => ?_) counters
  refine Performs.bind (Performs.check _ (verifyField_ok htable rfl 8 8)) fun _ _ => ?_
  refine Performs.bind (Performs.check _ (verifyOffsetRequired_ok htable rfl)) fun _ hrequest => ?_
  have hpointer := readableField_of_verifyOffsetRequired (check_eq_some.mp hrequest).1
  refine Performs.bind_read (htable.getPointer rfl hpointer) ?_
  refine Performs.bind (PricingParams.performs_verifyPointer _ _) fun _ _ => ?_
  refine Performs.bind (Performs.check _ (verifyOffsetRequired_ok htable rfl)) fun _ hpairs => ?_
  have hvec := readableField_of_verifyOffsetRequired (check_eq_some.mp hpairs).1
  refine Performs.bind_read (htable.getPointer rfl hvec) ?_
  exact Performs.check _ (verifyVector_ok 12 buf _)

theorem performs_verifyResponse (table : Nat) (counters : Counters) :
    Performs (verifyResponseChecked buf table counters) (verifyResponse buf table counters) := by
  refine performs_verifyTable (fun htable counters => ?_) counters
  refine Performs.bind (Performs.check _ (verifyField_ok htable rfl 8 8)) fun _ _ => ?_
  refine Performs.bind (Performs.check _ (verifyOffset_ok htable rfl)) fun _ hresults => ?_
  have hpointer := readableField_of_verifyOffset (check_eq_some.mp hresults).1
  refine Performs.bind_read (htable.getPointer rfl hpointer) ?_
  refine Performs.bind (Performs.check _ (verifyVector_ok 4 buf _)) fun _ hvec => ?_
  exact performs_verifyVectorOfTables PricingResponse.performs_verify (check_eq_some.mp hvec).1 _

end Verify

/-! ## What a verified table grants -/

section Readable

variable {buf : Bytes} {table : Nat} {counters passed : Counters}

/-- Every field of the parameters may be read. -/
structure PricingParams.ReadableAt (buf : Bytes) (table : Nat) : Prop where
  start : ReadableTable buf table
  optionType : ReadableField 1 buf table 4
  stockPrice : ReadableField 4 buf table 6
  strikePrice : ReadableField 4 buf table 8
  interestRate : ReadableField 4 buf table 10
  timeToMaturity : ReadableField 4 buf table 12
  stockDiscretization : ReadableField 4 buf table 14

theorem PricingParams.readableAt_of_verify
    (hpassed : PricingParams.verify buf table counters = some passed) :
    PricingParams.ReadableAt buf table := by
  obtain ⟨entered, left, hstart, hfields, -⟩ := verifyTable_eq_some.mp hpassed
  simp only [Option.bind_eq_bind, check_bind_eq_some, check_eq_some] at hfields
  obtain ⟨hoption, hstock, hstrike, hrate, htime, hdiscretization, -⟩ := hfields
  exact ⟨readableTable_of_verifyTableStart hstart, readableField_of_verifyField hoption,
    readableField_of_verifyField hstock, readableField_of_verifyField hstrike,
    readableField_of_verifyField hrate, readableField_of_verifyField htime,
    readableField_of_verifyField hdiscretization⟩

theorem getFloatChecked_ok (htable : ReadableTable buf table) {field : Nat}
    (hfield : field % 2 = 0) (hreadable : ReadableField 4 buf table field) :
    getFloatChecked buf table field = .ok (getFloat buf table field) := by
  rw [getFloatChecked, htable.getField hfield hreadable]
  rfl

theorem PricingParams.ReadableAt.read (hparams : PricingParams.ReadableAt buf table) :
    PricingParams.readChecked buf table = .ok (PricingParams.read buf table) := by
  rw [PricingParams.readChecked, hparams.start.getField rfl hparams.optionType,
    getFloatChecked_ok hparams.start rfl hparams.stockPrice,
    getFloatChecked_ok hparams.start rfl hparams.strikePrice,
    getFloatChecked_ok hparams.start rfl hparams.interestRate,
    getFloatChecked_ok hparams.start rfl hparams.timeToMaturity,
    getFloatChecked_ok hparams.start rfl hparams.stockDiscretization]
  rfl

/-- Every pair of a vector of structs may be read. -/
theorem readPairs_ok {vec : Nat} (hvec : ReadableVector 12 buf vec) :
    AlphaBetaPair.readVectorChecked buf vec = .ok (AlphaBetaPair.readVector buf (some vec)) := by
  rw [AlphaBetaPair.readVectorChecked, hvec.vectorSize]
  refine ReadableVector.mapM_elements fun i hi => ?_
  have haligned := hvec.size.aligned
  have hidx : Readable 4 buf (structElement 12 vec i + 0) := hvec.element hi (by decide) (by omega)
  have halpha : Readable 4 buf (structElement 12 vec i + 4) := hvec.element hi (by decide) (by omega)
  have hbeta : Readable 4 buf (structElement 12 vec i + 8) := hvec.element hi (by decide) (by omega)
  rw [Nat.add_zero] at hidx
  rw [AlphaBetaPair.readChecked, hidx.readScalar, halpha.readScalar, hbeta.readScalar]
  rfl

/-- Every field of a result may be read. -/
structure PricingResponse.ReadableAt (buf : Bytes) (table : Nat) : Prop where
  start : ReadableTable buf table
  idx : ReadableField 4 buf table 4
  alpha : ReadableField 4 buf table 6
  beta : ReadableField 4 buf table 8
  price : ReadableField 4 buf table 10
  hedgeRatio : ReadableField 4 buf table 12

theorem PricingResponse.readableAt_of_verify
    (hpassed : PricingResponse.verify buf table counters = some passed) :
    PricingResponse.ReadableAt buf table := by
  obtain ⟨entered, left, hstart, hfields, -⟩ := verifyTable_eq_some.mp hpassed
  simp only [Option.bind_eq_bind, check_bind_eq_some, check_eq_some] at hfields
  obtain ⟨hidx, halpha, hbeta, hprice, hhedge, -⟩ := hfields
  exact ⟨readableTable_of_verifyTableStart hstart, readableField_of_verifyField hidx,
    readableField_of_verifyField halpha, readableField_of_verifyField hbeta,
    readableField_of_verifyField hprice, readableField_of_verifyField hhedge⟩

theorem PricingResponse.ReadableAt.read (hresponse : PricingResponse.ReadableAt buf table) :
    PricingResponse.readChecked buf table = .ok (PricingResponse.read buf table) := by
  rw [PricingResponse.readChecked, hresponse.start.getField rfl hresponse.idx,
    getFloatChecked_ok hresponse.start rfl hresponse.alpha,
    getFloatChecked_ok hresponse.start rfl hresponse.beta,
    getFloatChecked_ok hresponse.start rfl hresponse.price,
    getFloatChecked_ok hresponse.start rfl hresponse.hedgeRatio]
  rfl

theorem readResponses_ok {vec : Nat} (hvec : ReadableVector 4 buf vec)
    (hpassed : verifyVectorOfTables (PricingResponse.verify buf) buf (some vec) counters =
      some passed) :
    PricingResponse.readVectorChecked buf vec = .ok (PricingResponse.readVector buf vec) := by
  rw [PricingResponse.readVectorChecked, hvec.vectorSize]
  refine ReadableVector.mapM_elements fun i hi => ?_
  obtain ⟨before, after, helement⟩ := exists_verified_element hpassed hi
  rw [Nat.zero_add] at helement
  rw [hvec.tableElement hi]
  exact (PricingResponse.readableAt_of_verify helement).read

/-- Everything a request or a batch refers to may be read, and its two required
pointers are not null. -/
structure ReadableRequest (buf : Bytes) (table wordField paramsField pairsField : Nat) : Prop where
  intro ::
  start : ReadableTable buf table
  word : ReadableField 8 buf table wordField
  paramsPointer : ReadableField 4 buf table paramsField
  pairsPointer : ReadableField 4 buf table pairsField
  params : ∃ params, getPointer buf table paramsField = some params ∧
    PricingParams.ReadableAt buf params
  pairs : ∃ vec, getPointer buf table pairsField = some vec ∧ ReadableVector 12 buf vec

theorem readable_params {paramsField : Nat} {entered left : Counters}
    (hrequired : verifyOffsetRequired buf table paramsField = true)
    (hparams : PricingParams.verifyPointer buf (getPointer buf table paramsField) entered =
      some left) :
    ∃ params, getPointer buf table paramsField = some params ∧
      PricingParams.ReadableAt buf params := by
  obtain ⟨params, hpointer⟩ := exists_getPointer_of_required hrequired
  rw [hpointer] at hparams
  exact ⟨params, hpointer, PricingParams.readableAt_of_verify hparams⟩

theorem readable_pairs {pairsField : Nat}
    (hrequired : verifyOffsetRequired buf table pairsField = true)
    (hpairs : verifyVector 12 buf (getPointer buf table pairsField) = true) :
    ∃ vec, getPointer buf table pairsField = some vec ∧ ReadableVector 12 buf vec := by
  obtain ⟨vec, hpointer⟩ := exists_getPointer_of_required hrequired
  rw [hpointer] at hpairs
  exact ⟨vec, hpointer, readableVector_of_verifyVectorAt hpairs⟩

theorem RangePricingRequest.readable_of_verify
    (hpassed : RangePricingRequest.verify buf table counters = some passed) :
    ReadableRequest buf table 6 4 8 := by
  obtain ⟨entered, left, hstart, hfields, -⟩ := verifyTable_eq_some.mp hpassed
  simp only [Option.bind_eq_bind, check_bind_eq_some] at hfields
  obtain ⟨hrequest, hfields⟩ := hfields
  obtain ⟨_, hparams, hfields⟩ := Option.bind_eq_some_iff.mp hfields
  simp only [check_bind_eq_some, check_eq_some] at hfields
  obtain ⟨hhash, hpairs, hvec, -⟩ := hfields
  exact ⟨readableTable_of_verifyTableStart hstart, readableField_of_verifyField hhash,
    readableField_of_verifyOffsetRequired hrequest, readableField_of_verifyOffsetRequired hpairs,
    readable_params hrequest hparams, readable_pairs hpairs hvec⟩

theorem BatchPricingRequest.readable_of_verify
    (hpassed : BatchPricingRequest.verify buf table counters = some passed) :
    ReadableRequest buf table 4 6 8 := by
  obtain ⟨entered, left, hstart, hfields, -⟩ := verifyTable_eq_some.mp hpassed
  simp only [Option.bind_eq_bind, check_bind_eq_some] at hfields
  obtain ⟨hcounter, hrequest, hfields⟩ := hfields
  obtain ⟨_, hparams, hfields⟩ := Option.bind_eq_some_iff.mp hfields
  simp only [check_bind_eq_some, check_eq_some] at hfields
  obtain ⟨hpairs, hvec, -⟩ := hfields
  exact ⟨readableTable_of_verifyTableStart hstart, readableField_of_verifyField hcounter,
    readableField_of_verifyOffsetRequired hrequest, readableField_of_verifyOffsetRequired hpairs,
    readable_params hrequest hparams, readable_pairs hpairs hvec⟩

end Readable

/-! ## The receivers read inside the message -/

section Receivers

variable {buf : Bytes}

theorem readable_root (hlength : 4 ≤ buf.length) : Readable 4 buf 0 := ⟨rfl, by omega⟩

/-- Following the root offset of a shorter message leaves the buffer. -/
theorem getRoot_short (hshort : ¬ 4 ≤ buf.length) :
    Checked.getRoot buf = .error (.outOfBounds 0 4) := by
  rw [Checked.getRoot, Checked.readScalar, if_neg (not_not.mpr rfl), if_pos (by omega)]

theorem length_of_verifyBuffer {verify : Nat → Counters → Option Counters}
    (hverified : verifyBuffer verify buf = true) : 4 ≤ buf.length := by
  simp only [verifyBuffer, Bool.and_eq_true, decide_eq_true_eq] at hverified
  exact Nat.le_trans (by decide) hverified.1.1

theorem RangePricingRequest.ofBytesChecked_ok
    (hmsg : verifyRangePricingRequestBuffer buf = true) :
    RangePricingRequest.ofBytesChecked buf = .ok (RangePricingRequest.ofBytes buf) := by
  obtain ⟨passed, hpassed⟩ := exists_verified_root hmsg
  have hreadable := RangePricingRequest.readable_of_verify hpassed
  obtain ⟨params, hparams, hread⟩ := hreadable.params
  obtain ⟨vec, hvec, hpairs⟩ := hreadable.pairs
  have hroot : Checked.getRoot buf = .ok (getRoot buf) :=
    (readable_root (length_of_verifyBuffer hmsg)).readScalar
  rw [RangePricingRequest.ofBytesChecked, hroot]
  simp only [bind, Except.bind, hreadable.start.getField rfl hreadable.word,
    hreadable.start.getPointer rfl hreadable.paramsPointer,
    hreadable.start.getPointer rfl hreadable.pairsPointer, hparams, hvec, Checked.dereference,
    pure, Except.pure, readPairs_ok hpairs, hread.read]
  rw [RangePricingRequest.ofBytes]
  simp only [hparams, hvec, Option.map_some, Option.getD_some]

theorem RangePricingRequest.receive_ok (buf : Bytes) :
    RangePricingRequest.receive buf =
      .ok (if verifyRangePricingRequestBuffer buf then some (RangePricingRequest.ofBytes buf)
        else none) := by
  have hverify : Checked.verifyBuffer (RangePricingRequest.verifyChecked buf) buf =
      .ok (verifyRangePricingRequestBuffer buf) :=
    verifyBuffer_ok RangePricingRequest.performs_verify
  rw [RangePricingRequest.receive, hverify]
  simp only [bind, Except.bind]
  split
  · next hmsg =>
      rw [RangePricingRequest.ofBytesChecked_ok hmsg]
      rfl
  · rfl

theorem BatchPricingRequest.receive_ok (hlength : 4 ≤ buf.length) :
    BatchPricingRequest.receive buf =
      .ok (if BatchPricingRequest.verifyBytes buf then some (BatchPricingRequest.ofBytes buf)
        else none) := by
  have hroot : Checked.getRoot buf = .ok (getRoot buf) := (readable_root hlength).readScalar
  have hverify : (BatchPricingRequest.verifyChecked buf (getRoot buf) {}).run =
      .ok (BatchPricingRequest.verify buf (getRoot buf) {}) :=
    BatchPricingRequest.performs_verify _ _
  rw [BatchPricingRequest.receive, hroot]
  simp only [bind, Except.bind, hverify]
  cases hpassed : BatchPricingRequest.verify buf (getRoot buf) {} with
  | none =>
      rw [BatchPricingRequest.verifyBytes, hpassed]
      rfl
  | some passed =>
      have hreadable := BatchPricingRequest.readable_of_verify hpassed
      obtain ⟨params, hparams, hread⟩ := hreadable.params
      obtain ⟨vec, hvec, hpairs⟩ := hreadable.pairs
      simp only [Option.isSome_some, if_true, hreadable.start.getField rfl hreadable.word,
        hreadable.start.getPointer rfl hreadable.paramsPointer,
        hreadable.start.getPointer rfl hreadable.pairsPointer, hparams, hvec, pure, Except.pure,
        readPairs_ok hpairs, hread.read]
      rw [BatchPricingRequest.verifyBytes, hpassed, BatchPricingRequest.ofBytes]
      simp only [hparams, hvec, Option.map_some, Option.getD_some, Option.isSome_some, if_true]

theorem receiveResponse_ok (hlength : 4 ≤ buf.length) :
    receiveResponse buf =
      .ok (if (verifyResponse buf (getRoot buf) {}).isSome then
        some (UInt64.ofNat (getField 8 buf (getRoot buf) 4 0),
          (getPointer buf (getRoot buf) 6).map (PricingResponse.readVector buf))
        else none) := by
  have hroot : Checked.getRoot buf = .ok (getRoot buf) := (readable_root hlength).readScalar
  have hverify : (verifyResponseChecked buf (getRoot buf) {}).run =
      .ok (verifyResponse buf (getRoot buf) {}) := performs_verifyResponse _ _
  rw [receiveResponse, hroot]
  simp only [bind, Except.bind, hverify]
  cases hpassed : verifyResponse buf (getRoot buf) {} with
  | none => rfl
  | some passed =>
      obtain ⟨entered, left, hstart, hfields, -⟩ := verifyTable_eq_some.mp hpassed
      simp only [Option.bind_eq_bind, check_bind_eq_some] at hfields
      obtain ⟨hword, hresults, hvector, htables⟩ := hfields
      have htable := readableTable_of_verifyTableStart hstart
      simp only [Option.isSome_some, if_true,
        htable.getField rfl (readableField_of_verifyField hword),
        htable.getPointer rfl (readableField_of_verifyOffset hresults)]
      cases hvec : getPointer buf (getRoot buf) 6 with
      | none => rfl
      | some vec =>
          rw [hvec] at hvector htables
          have hreadable : ReadableVector 4 buf vec := readableVector_of_verifyVectorAt hvector
          simp only [readResponses_ok hreadable htables]
          rfl

theorem BatchPricingResponse.receive_ok (hlength : 4 ≤ buf.length) :
    BatchPricingResponse.receive buf =
      .ok (if BatchPricingResponse.verifyBytes buf then some (BatchPricingResponse.ofBytes buf)
        else none) := by
  rw [BatchPricingResponse.receive, receiveResponse_ok hlength, BatchPricingResponse.verifyBytes]
  split <;> rfl

theorem RangePricingResponse.receive_ok (hlength : 4 ≤ buf.length) :
    RangePricingResponse.receive buf =
      .ok (if RangePricingResponse.verifyBytes buf then some (RangePricingResponse.ofBytes buf)
        else none) := by
  rw [RangePricingResponse.receive, receiveResponse_ok hlength, RangePricingResponse.verifyBytes]
  split <;> rfl

end Receivers

/-- Parsing stays inside the message.  The server verifies and reads a frontend
message of any bytes without a fault.  The workers, the collector and the clients
fault exactly on a message too short for its root offset.  From every other message
each of them gets all that it says, if it verifies. -/
theorem messages_read_inside (buf : Bytes) :
    (RangePricingRequest.receive buf =
      .ok (if verifyRangePricingRequestBuffer buf then some (RangePricingRequest.ofBytes buf)
        else none)) ∧
    (BatchPricingRequest.receive buf = if 4 ≤ buf.length then
        .ok (if BatchPricingRequest.verifyBytes buf then some (BatchPricingRequest.ofBytes buf)
          else none)
      else .error (.outOfBounds 0 4)) ∧
    (BatchPricingResponse.receive buf = if 4 ≤ buf.length then
        .ok (if BatchPricingResponse.verifyBytes buf then some (BatchPricingResponse.ofBytes buf)
          else none)
      else .error (.outOfBounds 0 4)) ∧
    (RangePricingResponse.receive buf = if 4 ≤ buf.length then
        .ok (if RangePricingResponse.verifyBytes buf then some (RangePricingResponse.ofBytes buf)
          else none)
      else .error (.outOfBounds 0 4)) := by
  refine ⟨RangePricingRequest.receive_ok buf, ?_⟩
  split
  · next hlength =>
      exact ⟨BatchPricingRequest.receive_ok hlength, BatchPricingResponse.receive_ok hlength,
        RangePricingResponse.receive_ok hlength⟩
  · next hshort =>
      have hroot := getRoot_short hshort
      refine ⟨?_, ?_, ?_⟩
      · rw [BatchPricingRequest.receive, hroot]
        rfl
      · rw [BatchPricingResponse.receive, receiveResponse, hroot]
        rfl
      · rw [RangePricingResponse.receive, receiveResponse, hroot]
        rfl

end RangePricer
