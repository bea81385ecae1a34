import RangePricer.Kernel

/-!
# Slicing a request into batches

`expand_to_batches` computes the chunk bounds in `int`, which wraps in the
optimised build of the repository.  A division is checked against a zero divisor
and a `reserve` against a negative count, so that the result is either the list
of batches or the way in which the function does not return one.
-/

namespace RangePricer

open FlatBuffers

/-- The ways in which `expand_to_batches` fails to return. -/
inductive Fault where
  | divideByZero
  | lengthError
  deriving DecidableEq, Repr

def intMin : Int := -2 ^ 31

def intMax : Int := 2 ^ 31 - 1

/-- The `int` an expression evaluates to. -/
def wrapInt (value : Int) : Int := (value + 2 ^ 31) % 2 ^ 32 - 2 ^ 31

/-- The quotient of two `int`s.  `INT_MIN / -1` is never asked for. -/
def intDiv (dividend divisor : Int) : Except Fault Int :=
  if divisor = 0 then .error .divideByZero else .ok (dividend.tdiv divisor)

/-- `std::vector::reserve` with a signed count converted to `size_t`. -/
def reserve (count : Int) : Except Fault Unit :=
  if count < 0 then .error .lengthError else .ok ()

/-- `static_cast<int>` of a 32-bit size. -/
def castToInt (size : Nat) : Int := wrapInt size

/-- The parameters `expand_to_batches` writes into every batch: five `add_` calls. -/
def batchParams (base : PricingParams) : PricingParams :=
  ((((({} : PricingParams).addStockPrice base.stockPrice).addStrikePrice
    base.strikePrice).addInterestRate base.interestRate).addTimeToMaturity
    base.timeToMaturity).addStockDiscretization base.stockDiscretization

/-- `rr->request_hash() * 1000 + c`, wrapping. -/
def batchCounterId (requestHash : UInt64) (c : Nat) : UInt64 :=
  requestHash * 1000 + UInt64.ofNat c

/-- The body of the chunk loop. -/
def sliceChunk (rr : RangePricingRequest) (total chunkSz : Int) (c : Nat) :
    Except Fault BatchPricingRequest := do
  let start := wrapInt (c * chunkSz)
  let stop := min (wrapInt (start + chunkSz)) total
  let count := wrapInt (stop - start)
  reserve count
  return {
    batchCounterId := batchCounterId rr.requestHash c
    request := batchParams rr.request
    pairs := (rr.pairs.drop start.toNat).take count.toNat }

def expandToBatches (rr : RangePricingRequest) (simdLanes : Int) :
    Except Fault (List BatchPricingRequest) := do
  let total := castToInt rr.pairs.length
  let chunkSz := simdLanes
  let roundedUp := wrapInt (wrapInt (total + chunkSz) - 1)
  let chunks ← intDiv roundedUp chunkSz
  reserve chunks
  (List.range chunks.toNat).mapM (sliceChunk rr total chunkSz)

/-! ## What is returned -/

theorem wrapInt_eq {value : Int} (hlow : intMin ≤ value) (hhigh : value ≤ intMax) :
    wrapInt value = value := by
  unfold wrapInt intMin intMax at *
  omega

theorem castToInt_of_lt {size : Nat} (hsize : size < 2 ^ 31) : castToInt size = size := by
  unfold castToInt wrapInt
  omega

/-- Chunk `c` of a request sliced `width` pairs at a time. -/
def chunkBatch (rr : RangePricingRequest) (width c : Nat) : BatchPricingRequest where
  batchCounterId := batchCounterId rr.requestHash c
  request := batchParams rr.request
  pairs := (rr.pairs.drop (c * width)).take width

/-- The rounded-up quotient of the code. -/
def chunkCount (total width : Nat) : Nat := (total + width - 1) / width

/-- All chunks of a request, in order. -/
def chunkBatches (rr : RangePricingRequest) (width : Nat) : List BatchPricingRequest :=
  (List.range (chunkCount rr.pairs.length width)).map (chunkBatch rr width)

theorem chunk_start_lt {total width c : Nat} (hwidth : 0 < width)
    (hc : c < chunkCount total width) : c * width < total := by
  have hle : (c + 1) * width ≤ total + width - 1 :=
    (Nat.mul_le_mul_right width hc).trans (Nat.div_mul_le_self _ _)
  rw [Nat.add_mul, Nat.one_mul] at hle
  omega

theorem chunkCount_covers {total width : Nat} (hwidth : 0 < width) :
    total ≤ chunkCount total width * width := by
  have hdiv := Nat.div_add_mod (total + width - 1) width
  have hmod := Nat.mod_lt (total + width - 1) hwidth
  rw [chunkCount, Nat.mul_comm]
  omega

theorem sliceChunk_eq {rr : RangePricingRequest} {width c : Nat} (hwidth : 0 < width)
    (hfits : (rr.pairs.length : Int) + width - 1 ≤ intMax)
    (hc : c < chunkCount rr.pairs.length width) :
    sliceChunk rr rr.pairs.length width c = .ok (chunkBatch rr width c) := by
  have hstart := chunk_start_lt hwidth hc
  have hcast : ((c * width : Nat) : Int) = (c : Int) * width := Int.natCast_mul c width
  have hmax : intMax = 2 ^ 31 - 1 := rfl
  have hmin : intMin = -2 ^ 31 := rfl
  have hcount : min ((c : Int) * width + width) (rr.pairs.length : Int) - c * width =
      ((min width (rr.pairs.length - c * width) : Nat) : Int) := by omega
  have hnonneg : ¬((min width (rr.pairs.length - c * width) : Nat) : Int) < 0 := by omega
  -- A chunk starts inside the pairs, so that its bounds are in range.
  have hfirst : intMin ≤ (c : Int) * width ∧ (c : Int) * width ≤ intMax := by omega
  have hlimit : intMin ≤ (c : Int) * width + width ∧ (c : Int) * width + width ≤ intMax := by omega
  have hsize : intMin ≤ ((min width (rr.pairs.length - c * width) : Nat) : Int) ∧
      ((min width (rr.pairs.length - c * width) : Nat) : Int) ≤ intMax := by omega
  rw [sliceChunk]
  simp only [wrapInt_eq hfirst.1 hfirst.2, wrapInt_eq hlimit.1 hlimit.2, hcount,
    wrapInt_eq hsize.1 hsize.2, reserve, if_neg hnonneg, ok_bind, chunkBatch]
  rw [← hcast, Int.toNat_natCast, Int.toNat_natCast]
  congr 2
  rw [List.take_eq_take_iff, List.length_drop]
  omega

theorem mapM_eq_ok_map {α β : Type} {f : α → Except Fault β} {g : α → β} (xs : List α)
    (hf : ∀ x ∈ xs, f x = .ok (g x)) : xs.mapM f = .ok (xs.map g) := by
  induction xs with
  | nil => rfl
  | cons x xs ih =>
      rw [List.mapM_cons, hf x List.mem_cons_self,
        ih fun y hy => hf y (List.mem_cons_of_mem x hy)]
      rfl

/-- Everything collected was returned for some element. -/
theorem exists_of_mem_mapM {α β : Type} {f : α → Except Fault β} {xs : List α} {ys : List β}
    (hmap : xs.mapM f = .ok ys) {y : β} (hy : y ∈ ys) : ∃ x, f x = .ok y := by
  induction xs generalizing ys with
  | nil =>
      obtain rfl : [] = ys := Except.ok.inj hmap
      cases hy
  | cons x xs ih =>
      rw [List.mapM_cons] at hmap
      obtain ⟨first, hfirst, hmap⟩ := bind_eq_ok.mp hmap
      obtain ⟨rest, hrest, hmap⟩ := bind_eq_ok.mp hmap
      obtain rfl := Except.ok.inj hmap
      rcases List.mem_cons.mp hy with rfl | hy
      · exact ⟨x, hfirst⟩
      · exact ih hrest hy

theorem tdiv_roundedUp (total : Nat) {width : Nat} (hwidth : 0 < width) :
    ((total : Int) + width - 1).tdiv width = (chunkCount total width : Nat) := by
  have hsum : (total : Int) + width - 1 = ((total + width - 1 : Nat) : Int) := by omega
  rw [hsum, ← Int.ofNat_tdiv, chunkCount]

/-- For a positive width that fits, slicing returns exactly the rounded-up
number of chunks.  The sum itself may be one too large. -/
theorem expandToBatches_eq {rr : RangePricingRequest} {width : Nat} (hwidth : 0 < width)
    (hfits : (rr.pairs.length : Int) + width - 1 ≤ intMax) :
    expandToBatches rr width = .ok (chunkBatches rr width) := by
  have hmax : intMax = 2 ^ 31 - 1 := rfl
  have hdiv := tdiv_roundedUp rr.pairs.length hwidth
  have hrounded : wrapInt (wrapInt ((rr.pairs.length : Int) + width) - 1) =
      rr.pairs.length + width - 1 := by
    unfold wrapInt
    omega
  have hquotient : intDiv ((rr.pairs.length : Int) + width - 1) width =
      .ok (chunkCount rr.pairs.length width : Nat) := by
    rw [intDiv, if_neg (by omega), hdiv]
  have hreserve : reserve (chunkCount rr.pairs.length width : Nat) = .ok () :=
    if_neg (by omega)
  rw [expandToBatches, castToInt_of_lt (by omega)]
  simp only [hrounded, hquotient, hreserve, ok_bind, Int.toNat_natCast]
  exact mapM_eq_ok_map _ fun c hc => sliceChunk_eq hwidth hfits (List.mem_range.mp hc)

/-- In range the chunks are returned. -/
theorem expandToBatches_inRange {rr : RangePricingRequest} {simdLanes : Int}
    (hlanes : 1 ≤ simdLanes)
    (hfits : (rr.pairs.length : Int) + simdLanes - 1 ≤ intMax) :
    expandToBatches rr simdLanes = .ok (chunkBatches rr simdLanes.toNat) := by
  have hcast : (simdLanes.toNat : Int) = simdLanes := Int.toNat_of_nonneg (by omega)
  have hchunks := @expandToBatches_eq rr simdLanes.toNat (by omega) (by rw [hcast]; exact hfits)
  rwa [hcast] at hchunks

/-- A wrapped count of chunks is zero, and the request has no batches, or negative. -/
theorem expandToBatches_wrapped {rr : RangePricingRequest} {simdLanes : Int}
    (hsmall : rr.pairs.length < 2 ^ 31) (hhigh : simdLanes ≤ intMax)
    (hwraps : intMax < (rr.pairs.length : Int) + simdLanes - 1) :
    expandToBatches rr simdLanes =
      if (rr.pairs.length : Int) + 2 * simdLanes ≤ 2 ^ 32 + 1 then .error .lengthError
      else .ok [] := by
  have hmax : intMax = 2 ^ 31 - 1 := rfl
  have hrounded : wrapInt (wrapInt ((rr.pairs.length : Int) + simdLanes) - 1) =
      -(2 ^ 32 + 1 - rr.pairs.length - simdLanes) := by
    unfold wrapInt
    omega
  have hquotient : intDiv (-(2 ^ 32 + 1 - rr.pairs.length - simdLanes)) simdLanes =
      .ok (-((2 ^ 32 + 1 - rr.pairs.length - simdLanes) / simdLanes)) := by
    rw [intDiv, if_neg (by omega), Int.neg_tdiv, Int.tdiv_eq_ediv_of_nonneg (by omega)]
  have hone : 1 ≤ (2 ^ 32 + 1 - (rr.pairs.length : Int) - simdLanes) / simdLanes ↔
      (rr.pairs.length : Int) + 2 * simdLanes ≤ 2 ^ 32 + 1 := by
    rw [Int.le_ediv_iff_mul_le (by omega)]
    omega
  have hnonneg : 0 ≤ (2 ^ 32 + 1 - (rr.pairs.length : Int) - simdLanes) / simdLanes :=
    Int.ediv_nonneg (by omega) (by omega)
  rw [expandToBatches, castToInt_of_lt hsmall]
  simp only [hrounded, hquotient, ok_bind]
  split
  · next hnegative =>
    rw [reserve, if_pos (by omega)]
    rfl
  · next hzero =>
    have hnone : (2 ^ 32 + 1 - (rr.pairs.length : Int) - simdLanes) / simdLanes = 0 := by omega
    rw [hnone]
    rfl

/-- The first chunk of a negative width reserves a negative count. -/
theorem sliceChunk_zero_of_neg {rr : RangePricingRequest} {total simdLanes : Int}
    (htotal : 0 ≤ total) (hlow : intMin ≤ simdLanes) (hneg : simdLanes < 0) :
    sliceChunk rr total simdLanes 0 = .error .lengthError := by
  have hmax : intMax = 2 ^ 31 - 1 := rfl
  have hlimit : min simdLanes total - 0 = simdLanes := by omega
  have hzero : wrapInt 0 = 0 := by decide
  have hwidth : wrapInt simdLanes = simdLanes := wrapInt_eq hlow (by omega)
  have hreserve : reserve simdLanes = .error .lengthError := if_pos hneg
  rw [sliceChunk]
  simp only [Int.natCast_zero, Int.zero_mul, hzero, Int.zero_add, hwidth, hlimit, hreserve]
  rfl

/-- With a width that is not positive slicing can only return no batch at all,
and only for a request with pairs or where one less than the width wraps. -/
theorem expandToBatches_nonpos {rr : RangePricingRequest} {simdLanes : Int}
    {batches : List BatchPricingRequest}
    (hsmall : rr.pairs.length < 2 ^ 31) (hlow : intMin ≤ simdLanes) (hnonpos : simdLanes ≤ 0)
    (hexpand : expandToBatches rr simdLanes = .ok batches) :
    batches = [] ∧ (0 < rr.pairs.length ∨ simdLanes = intMin) := by
  rw [expandToBatches, castToInt_of_lt hsmall] at hexpand
  obtain ⟨chunks, hchunks, hexpand⟩ := bind_eq_ok.mp hexpand
  obtain ⟨_, -, hexpand⟩ := bind_eq_ok.mp hexpand
  rw [intDiv] at hchunks
  split at hchunks
  · cases hchunks
  · next hdivisor =>
    obtain rfl := Except.ok.inj hchunks
    have hneg : simdLanes < 0 := by omega
    generalize hcount : (Int.tdiv _ simdLanes).toNat = count at hexpand
    cases count with
    | succ count =>
        rw [List.range_succ_eq_map, List.mapM_cons,
          sliceChunk_zero_of_neg (by omega) hlow hneg] at hexpand
        cases hexpand
    | zero =>
        obtain rfl : [] = batches := Except.ok.inj hexpand
        refine ⟨rfl, ?_⟩
        by_contra hcondition
        obtain ⟨hnone, hmin⟩ := not_or.mp hcondition
        -- Without pairs the quotient of two negative numbers is at least one.
        obtain ⟨width, rfl⟩ : ∃ width : Int, simdLanes = -width :=
          ⟨-simdLanes, (Int.neg_neg _).symm⟩
        have hrounded : wrapInt (wrapInt ((rr.pairs.length : Int) + -width) - 1) =
            -(width + 1) := by
          unfold wrapInt intMin at *
          omega
        rw [hrounded, Int.neg_tdiv_neg, Int.tdiv_eq_ediv_of_nonneg (by omega)] at hcount
        have hone : 1 ≤ (width + 1) / width :=
          (Int.le_ediv_iff_mul_le (by omega)).mpr (by omega)
        omega

/-- The batches of a request, if slicing returns: none where the width is not
positive or the count wraps. -/
def slicedBatches (rr : RangePricingRequest) (simdLanes : Int) : List BatchPricingRequest :=
  if 1 ≤ simdLanes ∧ (rr.pairs.length : Int) + simdLanes - 1 ≤ intMax then
    chunkBatches rr simdLanes.toNat
  else []

/-- In range the sliced batches are all chunks. -/
theorem slicedBatches_eq {rr : RangePricingRequest} {simdLanes : Int} (hlanes : 1 ≤ simdLanes)
    (hfits : (rr.pairs.length : Int) + simdLanes - 1 ≤ intMax) :
    slicedBatches rr simdLanes = chunkBatches rr simdLanes.toNat :=
  if_pos ⟨hlanes, hfits⟩

theorem slicedBatches_wrapped {rr : RangePricingRequest} {simdLanes : Int}
    (hwraps : intMax < (rr.pairs.length : Int) + simdLanes - 1) :
    slicedBatches rr simdLanes = [] :=
  if_neg fun hrange => absurd hrange.2 (Int.not_le.mpr hwraps)

/-- Every sliced batch is a chunk of a request in range. -/
theorem exists_of_mem_slicedBatches {rr : RangePricingRequest} {simdLanes : Int}
    {batch : BatchPricingRequest} (hbatch : batch ∈ slicedBatches rr simdLanes) :
    1 ≤ simdLanes ∧ (rr.pairs.length : Int) + simdLanes - 1 ≤ intMax ∧
      ∃ c < chunkCount rr.pairs.length simdLanes.toNat,
        batch = chunkBatch rr simdLanes.toNat c := by
  unfold slicedBatches at hbatch
  split at hbatch
  · next hrange =>
    obtain ⟨c, hc, rfl⟩ := List.mem_map.mp hbatch
    exact ⟨hrange.1, hrange.2, c, List.mem_range.mp hc, rfl⟩
  · cases hbatch

/-- On every `int` width, what slicing returns is known. -/
theorem expandToBatches_ok {rr : RangePricingRequest} {simdLanes : Int}
    {batches : List BatchPricingRequest} (hsmall : rr.pairs.length < 2 ^ 31)
    (hint : intMin ≤ simdLanes ∧ simdLanes ≤ intMax)
    (hexpand : expandToBatches rr simdLanes = .ok batches) :
    batches = slicedBatches rr simdLanes := by
  unfold slicedBatches
  split
  · next hrange =>
    rw [expandToBatches_inRange hrange.1 hrange.2] at hexpand
    exact (Except.ok.inj hexpand).symm
  · next hrange =>
    rcases Int.lt_or_le 0 simdLanes with hpos | hnonpos
    · have hwraps : intMax < (rr.pairs.length : Int) + simdLanes - 1 := by omega
      rw [expandToBatches_wrapped hsmall hint.2 hwraps] at hexpand
      split at hexpand
      · cases hexpand
      · exact (Except.ok.inj hexpand).symm
    · exact (expandToBatches_nonpos hsmall hint.1 hnonpos hexpand).1

/-- Whatever the width, every returned batch carries the parameters of the request. -/
theorem request_of_expandToBatches {rr : RangePricingRequest} {simdLanes : Int}
    {batches : List BatchPricingRequest} (hexpand : expandToBatches rr simdLanes = .ok batches)
    {batch : BatchPricingRequest} (hbatch : batch ∈ batches) :
    batch.request = batchParams rr.request := by
  obtain ⟨chunks, -, hexpand⟩ := bind_eq_ok.mp hexpand
  obtain ⟨_, -, hexpand⟩ := bind_eq_ok.mp hexpand
  obtain ⟨c, hslice⟩ := exists_of_mem_mapM hexpand hbatch
  obtain ⟨_, -, hslice⟩ := bind_eq_ok.mp hslice
  rw [← Except.ok.inj hslice]

@[simp]
theorem chunkBatches_length (rr : RangePricingRequest) (width : Nat) :
    (chunkBatches rr width).length = chunkCount rr.pairs.length width := by
  simp [chunkBatches]

theorem chunkBatch_pairs_length (rr : RangePricingRequest) (width c : Nat) :
    (chunkBatch rr width c).pairs.length = min width (rr.pairs.length - c * width) := by
  simp [chunkBatch]

/-- Consecutive windows of one width make up a prefix. -/
theorem flatMap_windows {α : Type} (xs : List α) (width count : Nat) :
    (List.range count).flatMap (fun c => (xs.drop (c * width)).take width) =
      xs.take (count * width) := by
  induction count with
  | zero => simp
  | succ count ih =>
      rw [List.range_succ, List.flatMap_append, ih, Nat.add_mul, Nat.one_mul, List.take_add]
      simp

/-- The chunks, in order, are the pairs of the request. -/
theorem flatMap_chunkBatches (rr : RangePricingRequest) {width : Nat} (hwidth : 0 < width) :
    (chunkBatches rr width).flatMap (·.pairs) = rr.pairs := by
  rw [chunkBatches, List.flatMap_map]
  exact (flatMap_windows rr.pairs width _).trans
    (List.take_of_length_le (chunkCount_covers hwidth))

end RangePricer
