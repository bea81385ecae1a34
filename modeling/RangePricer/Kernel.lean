import RangePricer.Schema

/-!
# The pricing kernel and its two entry points

`vectorized_price` is modelled by the stores it executes, in program order, so
that what it writes and where it writes are both available.  Multiplication and
the two exponentials are parameters: the kernel uses Highway's lane-wise `Exp`
in its vector loop and `std::exp` in its scalar tail.
-/

namespace RangePricer

/-- The floating-point functions the kernel calls. -/
structure FloatUnit where
  mul : Binary32 → Binary32 → Binary32
  hnExp : Binary32 → Binary32
  stdExp : Binary32 → Binary32

/-- The vector width chosen by `HWY_DYNAMIC_DISPATCH`. -/
structure Simd where
  lanes : Nat
  lanes_pos : 0 < lanes

inductive Output where
  | prices
  | hedgeRatios
  deriving DecidableEq, Repr

/-- One store executed by the kernel; `vector` marks an `hn::Store`, which
writes consecutive elements and requires an aligned address. -/
structure Store where
  output : Output
  index : Nat
  values : List Binary32
  vector : Bool
  deriving DecidableEq, Repr

/-- The two vector stores of one iteration at index `i`. -/
def vectorStores (lanes : Nat) (vPv vHr : Binary32) (i : Nat) : List Store :=
  [⟨.prices, i, List.replicate lanes vPv, true⟩,
    ⟨.hedgeRatios, i, List.replicate lanes vHr, true⟩]

/-- `for (; i + N <= count; i += N)`, with the index it ends at.  Every
iteration advances `i`, so `count` iterations are enough fuel. -/
def vectorLoop (lanes count : Nat) (vPv vHr : Binary32) : Nat → Nat → List Store × Nat
  | 0, i => ([], i)
  | fuel + 1, i =>
      if i + lanes ≤ count then
        let (rest, last) := vectorLoop lanes count vPv vHr fuel (i + lanes)
        (vectorStores lanes vPv vHr i ++ rest, last)
      else ([], i)

/-- `for (; i < count; ++i)` with `count - i` elements to go. -/
def tailLoop (pv : Binary32) : Nat → Nat → List Store
  | 0, _ => []
  | remaining + 1, i =>
      ⟨.prices, i, [pv], false⟩ :: ⟨.hedgeRatios, i, [Binary32.zero], false⟩ ::
        tailLoop pv remaining (i + 1)

/-- The stores of `vectorized_price`.  The current model prices every pair with
`exp(-r * T)`; the remaining parameters are broadcast and not used. -/
def vectorizedPrice (fp : FloatUnit) (simd : Simd) (_S _K r T _ds : Binary32)
    (_alphas _betas : List Binary32) (count : Nat) : List Store :=
  let vNegRT := (fp.mul r T).neg
  let vPv := fp.hnExp vNegRT
  let (body, i) := vectorLoop simd.lanes count vPv Binary32.zero count 0
  let scalarTail :=
    if i < count then tailLoop (fp.stdExp (fp.mul r.neg T)) (count - i) i else []
  body ++ scalarTail

/-- Overwrite the elements from `index` on. -/
def overwrite (array : List Binary32) (index : Nat) (values : List Binary32) : List Binary32 :=
  array.take index ++ values ++ array.drop (index + values.length)

/-- The contents of one output array after the stores. -/
def runStores (output : Output) (stores : List Store) (array : List Binary32) : List Binary32 :=
  stores.foldl
    (fun array store =>
      if store.output = output then overwrite array store.index store.values else array)
    array

/-- `std::invalid_argument` and its message. -/
structure InvalidArgument where
  what : String
  deriving DecidableEq, Repr

def ttmMustBePositive : InvalidArgument := ⟨"time_to_maturity must be positive"⟩

def dsMustBePositive : InvalidArgument := ⟨"stock_discretization must be positive"⟩

/-- The two checks both entry points start with. -/
def checkParams (timeToMaturity stockDiscretization : Binary32) : Except InvalidArgument Unit :=
  if timeToMaturity.leZero then .error ttmMustBePositive
  else if stockDiscretization.leZero then .error dsMustBePositive
  else .ok ()

/-- Prices and hedge ratios of `n` pairs, computed in two zeroed arrays. -/
def priceArrays (fp : FloatUnit) (simd : Simd) (S K r T ds : Binary32)
    (alphas betas : List Binary32) (n : Nat) : List (Binary32 × Binary32) :=
  let stores := vectorizedPrice fp simd S K r T ds alphas betas n
  let zeros := List.replicate n Binary32.zero
  (runStores .prices stores zeros).zip (runStores .hedgeRatios stores zeros)

structure PricingInput where
  idx : UInt32
  alpha : Binary32
  beta : Binary32
  deriving DecidableEq, Repr

structure PricingOutput where
  idx : UInt32
  alpha : Binary32
  beta : Binary32
  price : Binary32
  hedgeRatio : Binary32
  deriving DecidableEq, Repr

/-- The plain entry point. -/
def price (fp : FloatUnit) (simd : Simd) (_optionType : OptionType)
    (stockPrice strikePrice interestRate timeToMaturity stockDiscretization : Binary32)
    (inputs : List PricingInput) : Except InvalidArgument (List PricingOutput) := do
  checkParams timeToMaturity stockDiscretization
  if inputs.isEmpty then return []
  let computed := priceArrays fp simd stockPrice strikePrice interestRate timeToMaturity
    stockDiscretization (inputs.map (·.alpha)) (inputs.map (·.beta)) inputs.length
  return inputs.zipWith
    (fun input out => ⟨input.idx, input.alpha, input.beta, out.1, out.2⟩) computed

/-- The FlatBuffer entry point used by the worker threads. -/
def process (fp : FloatUnit) (simd : Simd) (params : PricingParams)
    (pairs : List AlphaBetaPair) (batchId : UInt64) :
    Except InvalidArgument BatchPricingResponse := do
  checkParams params.timeToMaturity params.stockDiscretization
  let computed := priceArrays fp simd params.stockPrice params.strikePrice params.interestRate
    params.timeToMaturity params.stockDiscretization (pairs.map (·.alpha)) (pairs.map (·.beta))
    pairs.length
  return ⟨batchId, some (pairs.zipWith
    (fun pair out => createPricingResponse pair.idx pair.alpha pair.beta out.1 out.2) computed)⟩

/-! ## The stores in closed form -/

/-- Elements covered by the vector loop. -/
def vectorCount (lanes count : Nat) : Nat := lanes * (count / lanes)

theorem vectorCount_le (lanes count : Nat) : vectorCount lanes count ≤ count :=
  Nat.mul_div_le count lanes

section

variable {fp : FloatUnit} {simd : Simd} {S K r T ds : Binary32} {alphas betas : List Binary32}
  {lanes count : Nat} {vPv vHr : Binary32}

/-- Entered at `i` with enough fuel, the loop makes its two stores at every
whole vector that is left. -/
theorem vectorLoop_eq (hlanes : 0 < lanes) (fuel i : Nat) (hfuel : count ≤ i + fuel) :
    vectorLoop lanes count vPv vHr fuel i =
      ((List.range ((count - i) / lanes)).flatMap fun k =>
          vectorStores lanes vPv vHr (i + lanes * k),
        i + vectorCount lanes (count - i)) := by
  induction fuel generalizing i with
  | zero =>
      have hdone : count - i = 0 := by omega
      rw [vectorLoop, vectorCount, hdone, Nat.zero_div]
      rfl
  | succ fuel ih =>
      rw [vectorLoop]
      split
      · next hfits =>
          have hleft : (count - i) / lanes = (count - (i + lanes)) / lanes + 1 := by
            rw [Nat.div_eq_sub_div hlanes (by omega), Nat.sub_sub]
          rw [ih (i + lanes) (by omega)]
          simp only [vectorCount, hleft, List.range_succ_eq_map, List.flatMap_cons,
            List.flatMap_map, Nat.mul_zero, Nat.add_zero, Nat.mul_succ, Prod.mk.injEq]
          refine ⟨?_, by omega⟩
          congr 1
          apply List.flatMap_congr
          intro k _
          rw [Nat.add_assoc, Nat.add_comm lanes]
      · next hfull =>
          have hnone : (count - i) / lanes = 0 := Nat.div_eq_of_lt (by omega)
          rw [vectorCount, hnone]
          rfl

/-- The stores of the vector loop. -/
def vectorBody (lanes count : Nat) (vPv vHr : Binary32) : List Store :=
  (List.range (count / lanes)).flatMap fun k => vectorStores lanes vPv vHr (lanes * k)

/-- The stores of the scalar tail, none if whole vectors cover everything. -/
theorem vectorizedPrice_eq :
    vectorizedPrice fp simd S K r T ds alphas betas count =
      vectorBody simd.lanes count (fp.hnExp (fp.mul r T).neg) Binary32.zero ++
        tailLoop (fp.stdExp (fp.mul r.neg T)) (count - vectorCount simd.lanes count)
          (vectorCount simd.lanes count) := by
  have hcovered := vectorCount_le simd.lanes count
  simp only [vectorizedPrice, vectorLoop_eq simd.lanes_pos count 0 (Nat.zero_add count).ge,
    Nat.sub_zero, Nat.zero_add, vectorBody]
  split
  · rfl
  · next hdone =>
      have hnone : count - vectorCount simd.lanes count = 0 := by omega
      rw [hnone]
      rfl

end

/-! ## What the kernel leaves in its arrays -/

theorem runStores_append (output : Output) (first second : List Store)
    (array : List Binary32) :
    runStores output (first ++ second) array =
      runStores output second (runStores output first array) :=
  List.foldl_append

/-- Overwriting right behind an already written part. -/
theorem overwrite_behind (written values rest : List Binary32) :
    overwrite (written ++ rest) written.length values =
      (written ++ values) ++ rest.drop values.length := by
  rw [overwrite, List.take_left' rfl, ← List.drop_drop, List.drop_left' rfl]

/-- The value an output array receives from a vector or a scalar store. -/
def Output.value (pv : Binary32) : Output → Binary32
  | .prices => pv
  | .hedgeRatios => Binary32.zero

theorem runStores_vectorStores (output : Output) (lanes : Nat) (vPv : Binary32) (i : Nat)
    (array : List Binary32) :
    runStores output (vectorStores lanes vPv Binary32.zero i) array =
      overwrite array i (List.replicate lanes (output.value vPv)) := by
  cases output <;> rfl

/-- Whole vectors, one behind the other, from the front of the array. -/
theorem runStores_vectors (output : Output) (lanes : Nat) (vPv : Binary32)
    (array : List Binary32) (vectors : Nat) :
    runStores output
        ((List.range vectors).flatMap fun k => vectorStores lanes vPv Binary32.zero (lanes * k))
        array =
      List.replicate (lanes * vectors) (output.value vPv) ++ array.drop (lanes * vectors) := by
  induction vectors with
  | zero => rfl
  | succ vectors ih =>
      let written := List.replicate (lanes * vectors) (output.value vPv)
      have hindex : written.length = lanes * vectors := List.length_replicate
      have hnext := overwrite_behind written (List.replicate lanes (output.value vPv))
        (array.drop (lanes * vectors))
      rw [hindex, List.length_replicate, List.drop_drop] at hnext
      rw [List.range_succ, List.flatMap_append, List.flatMap_singleton, runStores_append, ih,
        runStores_vectorStores, hnext, Nat.mul_succ, List.replicate_add]

theorem runStores_tailLoop (output : Output) (pv : Binary32) (written rest : List Binary32) :
    runStores output (tailLoop pv rest.length written.length) (written ++ rest) =
      written ++ List.replicate rest.length (output.value pv) := by
  induction rest generalizing written with
  | nil => simp [tailLoop, runStores]
  | cons first rest ih =>
      have hstep : runStores output
          [⟨.prices, written.length, [pv], false⟩,
            ⟨.hedgeRatios, written.length, [Binary32.zero], false⟩] (written ++ first :: rest) =
          overwrite (written ++ first :: rest) written.length [output.value pv] := by
        cases output <;> rfl
      have hnext := ih (written ++ [output.value pv])
      rw [List.length_append, List.length_singleton] at hnext
      change runStores output ([_, _] ++ tailLoop pv rest.length (written.length + 1)) _ = _
      rw [runStores_append, hstep,
        overwrite_behind written [output.value pv] (first :: rest)]
      simpa [List.replicate_succ] using hnext

/-- The whole kernel: whole vectors first, the scalar tail behind them. -/
theorem runStores_vectorizedPrice (output : Output) (fp : FloatUnit) (simd : Simd)
    (S K r T ds : Binary32) (alphas betas array : List Binary32) :
    runStores output
        (vectorizedPrice fp simd S K r T ds alphas betas array.length) array =
      List.replicate (vectorCount simd.lanes array.length)
          (output.value (fp.hnExp (fp.mul r T).neg)) ++
        List.replicate (array.length - vectorCount simd.lanes array.length)
          (output.value (fp.stdExp (fp.mul r.neg T))) := by
  have hbody := runStores_vectors output simd.lanes (fp.hnExp (fp.mul r T).neg) array
    (array.length / simd.lanes)
  have htail := runStores_tailLoop output (fp.stdExp (fp.mul r.neg T))
    (List.replicate (vectorCount simd.lanes array.length)
      (output.value (fp.hnExp (fp.mul r T).neg)))
    (array.drop (vectorCount simd.lanes array.length))
  rw [List.length_replicate, List.length_drop] at htail
  rw [vectorizedPrice_eq, runStores_append, vectorBody, hbody]
  exact htail

/-- Price and hedge ratio of every position: whole vectors, then the tail. -/
theorem priceArrays_eq (fp : FloatUnit) (simd : Simd) (S K r T ds : Binary32)
    (alphas betas : List Binary32) (n : Nat) :
    priceArrays fp simd S K r T ds alphas betas n =
      List.replicate (vectorCount simd.lanes n) (fp.hnExp (fp.mul r T).neg, Binary32.zero) ++
        List.replicate (n - vectorCount simd.lanes n)
          (fp.stdExp (fp.mul r.neg T), Binary32.zero) := by
  have harrays (output : Output) := runStores_vectorizedPrice output fp simd S K r T ds alphas
    betas (List.replicate n Binary32.zero)
  simp only [List.length_replicate] at harrays
  simp only [priceArrays, harrays]
  rw [List.zip_append (by simp)]
  simp [Output.value]

theorem priceArrays_length (fp : FloatUnit) (simd : Simd) (S K r T ds : Binary32)
    (alphas betas : List Binary32) (n : Nat) :
    (priceArrays fp simd S K r T ds alphas betas n).length = n := by
  have hcovered := vectorCount_le simd.lanes n
  rw [priceArrays_eq, List.length_append, List.length_replicate, List.length_replicate]
  omega

/-! ## Binds that return -/

section

variable {ε α β : Type}

@[simp]
theorem ok_bind (value : α) (next : α → Except ε β) : (Except.ok value >>= next) = next value :=
  rfl

theorem bind_eq_ok {first : Except ε α} {next : α → Except ε β} {result : β} :
    (first >>= next) = .ok result ↔ ∃ value, first = .ok value ∧ next value = .ok result := by
  cases first with
  | error fault =>
      constructor
      · intro hbind
        cases hbind
      · rintro ⟨_, hfirst, -⟩
        cases hfirst
  | ok value =>
      constructor
      · intro hbind
        exact ⟨value, rfl, hbind⟩
      · rintro ⟨_, hfirst, hnext⟩
        cases hfirst
        exact hnext

end

/-! ## The checks -/

/-- Both parameters pass the comparisons of the entry points. -/
def PricingParams.accepted (params : PricingParams) : Bool :=
  !params.timeToMaturity.leZero && !params.stockDiscretization.leZero

theorem PricingParams.accepted_iff (params : PricingParams) :
    params.accepted = true ↔
      params.timeToMaturity.leZero = false ∧ params.stockDiscretization.leZero = false := by
  rw [accepted, Bool.and_eq_true, Bool.not_eq_true', Bool.not_eq_true']

theorem checkParams_eq_ok (params : PricingParams) :
    checkParams params.timeToMaturity params.stockDiscretization = .ok () ↔
      params.accepted = true := by
  rw [params.accepted_iff]
  cases httm : params.timeToMaturity.leZero <;> cases hds : params.stockDiscretization.leZero <;>
    simp [checkParams, httm, hds]

/-- What returns behind the checks returns its value, for accepted parameters. -/
theorem checked_eq_ok {α : Type} {params : PricingParams} {value result : α} :
    (do
      checkParams params.timeToMaturity params.stockDiscretization
      return value) = .ok result ↔ params.accepted = true ∧ value = result := by
  rw [bind_eq_ok, ← checkParams_eq_ok]
  constructor
  · rintro ⟨⟨⟩, hcheck, hvalue⟩
    exact ⟨hcheck, Except.ok.inj hvalue⟩
  · rintro ⟨hcheck, rfl⟩
    exact ⟨(), hcheck, rfl⟩

/-! ## The entry point of the workers -/

/-- The results `process` builds once the parameters are accepted. -/
def batchResults (fp : FloatUnit) (simd : Simd) (params : PricingParams)
    (pairs : List AlphaBetaPair) : List PricingResponse :=
  pairs.zipWith
    (fun pair out => createPricingResponse pair.idx pair.alpha pair.beta out.1 out.2)
    (priceArrays fp simd params.stockPrice params.strikePrice params.interestRate
      params.timeToMaturity params.stockDiscretization (pairs.map (·.alpha))
      (pairs.map (·.beta)) pairs.length)

theorem process_eq (fp : FloatUnit) (simd : Simd) (params : PricingParams)
    (pairs : List AlphaBetaPair) (batchId : UInt64) :
    process fp simd params pairs batchId = (do
      checkParams params.timeToMaturity params.stockDiscretization
      return ⟨batchId, some (batchResults fp simd params pairs)⟩) := rfl

theorem process_accepted (fp : FloatUnit) (simd : Simd) {params : PricingParams}
    (haccepted : params.accepted = true) (pairs : List AlphaBetaPair) (batchId : UInt64) :
    process fp simd params pairs batchId =
      .ok ⟨batchId, some (batchResults fp simd params pairs)⟩ := by
  rw [process_eq]
  exact checked_eq_ok.mpr ⟨haccepted, rfl⟩

theorem process_rejected (fp : FloatUnit) (simd : Simd) {params : PricingParams}
    (hrejected : params.accepted = false) (pairs : List AlphaBetaPair) (batchId : UInt64) :
    ∃ error, process fp simd params pairs batchId = .error error := by
  rw [process_eq]
  cases hcheck : checkParams params.timeToMaturity params.stockDiscretization with
  | error error => exact ⟨error, rfl⟩
  | ok =>
      rw [(checkParams_eq_ok params).mp hcheck] at hrejected
      cases hrejected

@[simp]
theorem batchResults_length (fp : FloatUnit) (simd : Simd) (params : PricingParams)
    (pairs : List AlphaBetaPair) :
    (batchResults fp simd params pairs).length = pairs.length := by
  rw [batchResults, List.length_zipWith, priceArrays_length, Nat.min_self]

/-- Building a result again from what it reads back as changes nothing. -/
theorem createPricingResponse_again (idx : UInt32) (alpha beta price hedgeRatio : Binary32) :
    let r := createPricingResponse idx alpha beta price hedgeRatio
    createPricingResponse r.idx r.alpha r.beta r.price r.hedgeRatio = r := by
  simp [createPricingResponse]

/-- A result of a batch, with the pair and the kernel output it was built from. -/
theorem exists_of_mem_batchResults {fp : FloatUnit} {simd : Simd} {params : PricingParams}
    {pairs : List AlphaBetaPair} {result : PricingResponse}
    (hresult : result ∈ batchResults fp simd params pairs) :
    ∃ pair ∈ pairs, ∃ out ∈ priceArrays fp simd params.stockPrice params.strikePrice
        params.interestRate params.timeToMaturity params.stockDiscretization
        (pairs.map (·.alpha)) (pairs.map (·.beta)) pairs.length,
      result = createPricingResponse pair.idx pair.alpha pair.beta out.1 out.2 := by
  obtain ⟨i, hi, rfl⟩ := List.getElem_of_mem hresult
  simp only [batchResults, List.getElem_zipWith]
  exact ⟨_, List.getElem_mem _, _, List.getElem_mem _, rfl⟩

/-! ## Sample arguments -/

/-- The floating-point functions as they behave at rate 0.07 and maturity 1. -/
def FloatUnit.sample : FloatUnit where
  mul x _ := x
  hnExp _ := ⟨0x3f6eb15c⟩
  stdExp _ := ⟨0x3f6eb15d⟩

/-- The pair `(idx, 1, 1)`. -/
def AlphaBetaPair.sample (idx : UInt32) : AlphaBetaPair := ⟨idx, ⟨0x3f800000⟩, ⟨0x3f800000⟩⟩

end RangePricer
