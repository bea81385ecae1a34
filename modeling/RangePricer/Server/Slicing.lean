import Mathlib.Algebra.Order.Floor.Div
import RangePricer.Codec.Requests
import RangePricer.Server.Messages

/-!
# How a request is sliced

`expand_to_batches` works in `int` with a width that comes straight from a flag.
All its expressions fit and it returns batches exactly if the width is positive
and the sum of width and number of pairs is an `int`.  It partitions the pairs in
order also where that sum is one too large, since one is taken away again.  The
ids of the batches are a wrapping product, so that two requests share ids if
their products are close.
-/

namespace RangePricer

open FlatBuffers

/-! ## Flags -/

/-- The flags the server computes with. -/
structure Config where
  threads : Int32
  simdLanes : Int32
  deriving DecidableEq, Repr

/-- `validate_threads`, the only validator. -/
def validateThreads (val : Int32) : Bool := decide (1 ≤ val)

/-- Values that `ParseCommandLineFlags` accepts. -/
def Config.accepted (cfg : Config) : Bool := validateThreads cfg.threads

variable {rr : RangePricingRequest} {simdLanes : Int} {msg : Bytes}

/-! ## Safety -/

/-- The value of an expression is an `int`. -/
def FitsInt (value : Int) : Prop := intMin ≤ value ∧ value ≤ intMax

/-- No `int` expression of `expand_to_batches` overflows. -/
structure NoOverflow (total chunkSz : Int) : Prop where
  sum : FitsInt (total + chunkSz)
  roundedUp : FitsInt (total + chunkSz - 1)
  chunks : FitsInt ((total + chunkSz - 1).tdiv chunkSz)
  start : ∀ c : Nat, (c : Int) < (total + chunkSz - 1).tdiv chunkSz → FitsInt (c * chunkSz)
  stop : ∀ c : Nat, (c : Int) < (total + chunkSz - 1).tdiv chunkSz →
    FitsInt (c * chunkSz + chunkSz)
  count : ∀ c : Nat, (c : Int) < (total + chunkSz - 1).tdiv chunkSz →
    FitsInt (min (c * chunkSz + chunkSz) total - c * chunkSz)

/-- `expand_to_batches` computes without overflow and returns, with a batch for a
request with pairs. -/
structure SlicingSafe (rr : RangePricingRequest) (simdLanes : Int) : Prop where
  noOverflow : NoOverflow rr.pairs.length simdLanes
  returns : ∃ batches, expandToBatches rr simdLanes = .ok batches ∧ (rr.pairs ≠ [] → batches ≠ [])

/-- A positive width whose sum with the number of pairs fits makes all of it fit. -/
theorem noOverflow_of_fits {total width : Nat} (hwidth : 0 < width)
    (hfits : (total : Int) + width ≤ intMax) : NoOverflow total width := by
  have hmax : intMax = 2 ^ 31 - 1 := rfl
  have hmin : intMin = -2 ^ 31 := rfl
  have hle : chunkCount total width ≤ total + width - 1 := Nat.div_le_self _ _
  have hinside (c : Nat) (hc : (c : Int) < ((total : Int) + width - 1).tdiv width) :
      0 ≤ (c : Int) * width ∧ (c : Int) * width < total := by
    rw [tdiv_roundedUp total hwidth, Int.ofNat_lt] at hc
    have hstart := chunk_start_lt hwidth hc
    rw [← Int.natCast_mul]
    omega
  refine ⟨⟨?_, ?_⟩, ⟨?_, ?_⟩, ?_, fun c hc => ?_, fun c hc => ?_, fun c hc => ?_⟩
  iterate 4 omega
  · rw [tdiv_roundedUp total hwidth]
    constructor <;> omega
  all_goals
    obtain ⟨hnonneg, hlt⟩ := hinside c hc
    constructor <;> omega

/-- The width and the sum are in range. -/
theorem inRange_of_slicingSafe (hsmall : rr.pairs.length < 2 ^ 31) (hlow : intMin ≤ simdLanes)
    (hsafe : SlicingSafe rr simdLanes) :
    1 ≤ simdLanes ∧ (rr.pairs.length : Int) + simdLanes ≤ intMax := by
  obtain ⟨batches, hexpand, hsome⟩ := hsafe.returns
  refine ⟨?_, hsafe.noOverflow.sum.2⟩
  by_contra hnonpos
  obtain ⟨hnone, hpairs⟩ := expandToBatches_nonpos hsmall hlow (by omega) hexpand
  rcases Nat.eq_zero_or_pos rr.pairs.length with hempty | hpairs
  · have hone := hsafe.noOverflow.roundedUp.1
    omega
  · exact hsome (List.ne_nil_of_length_pos hpairs) hnone

/-- Slicing is safe exactly if `simd_lanes` is positive and its sum with the
number of pairs is an `int`. -/
theorem slicing_safe_iff (cfg : Config) (msg : Bytes) (_hcfg : cfg.accepted = true)
    (hmsg : verifyRangePricingRequestBuffer msg = true) :
    SlicingSafe (RangePricingRequest.ofBytes msg) cfg.simdLanes.toInt ↔
      1 ≤ cfg.simdLanes.toInt ∧
        ((RangePricingRequest.ofBytes msg).pairs.length : Int) + cfg.simdLanes.toInt ≤ intMax := by
  constructor
  · intro hsafe
    exact inRange_of_slicingSafe (verified_pairs_lt_int hmsg) cfg.simdLanes.le_toInt hsafe
  · rintro ⟨hlanes, hfits⟩
    have hcast : (cfg.simdLanes.toInt.toNat : Int) = cfg.simdLanes.toInt :=
      Int.toNat_of_nonneg (by omega)
    have hnoOverflow := @noOverflow_of_fits (RangePricingRequest.ofBytes msg).pairs.length
      cfg.simdLanes.toInt.toNat (by omega) (by rw [hcast]; exact hfits)
    rw [hcast] at hnoOverflow
    refine ⟨hnoOverflow, _, expandToBatches_inRange hlanes (by omega), ?_⟩
    intro hpairs hnone
    have hall := flatMap_chunkBatches (RangePricingRequest.ofBytes msg)
      (show 0 < cfg.simdLanes.toInt.toNat by omega)
    rw [hnone, List.flatMap_nil] at hall
    exact hpairs hall.symm

/-- Three pairs on two lanes. -/
theorem slicing_safe_sample :
    SlicingSafe (RangePricingRequest.ofBytes
      (RangePricingRequest.sample [.sample 0, .sample 1, .sample 2]).toBytes) 2 :=
  (slicing_safe_iff ⟨4, 2⟩ _ (by decide) (by decide +kernel)).mpr
    ⟨by decide, by decide +kernel⟩

/-- No validator keeps `simd_lanes` from being zero. -/
theorem not_slicing_safe :
    ¬ ∀ (cfg : Config) (msg : Bytes), cfg.accepted = true →
      verifyRangePricingRequestBuffer msg = true →
        SlicingSafe (RangePricingRequest.ofBytes msg) cfg.simdLanes.toInt := by
  intro hsafe
  obtain ⟨hlanes, -⟩ := inRange_of_slicingSafe (verified_pairs_lt_int (by decide +kernel))
    (by decide)
    (hsafe ⟨4, 0⟩ (RangePricingRequest.sample [.sample 0]).toBytes (by decide) (by decide +kernel))
  exact absurd hlanes (by decide)

/-! ## The partition -/

/-- The batches as their workers decode them: full ones and at last a shorter
one, which hold all pairs in order. -/
structure Partitions (pairs : List AlphaBetaPair) (width : Nat)
    (batches : List BatchPricingRequest) : Prop where
  count : batches.length = pairs.length ⌈/⌉ width
  full : ∀ c, (hc : c + 1 < batches.length) →
    (BatchPricingRequest.ofBytes batches[c].toBytes).pairs.length = width
  last : ∀ batch ∈ batches, 0 < (BatchPricingRequest.ofBytes batch.toBytes).pairs.length ∧
    (BatchPricingRequest.ofBytes batch.toBytes).pairs.length ≤ width
  flatMap_eq : (batches.flatMap fun batch =>
    (BatchPricingRequest.ofBytes batch.toBytes).pairs) = pairs

/-- A chunk decodes to its own pairs. -/
theorem chunkBatch_decoded (hpairs : rr.pairs.length < maxBufferSize / 12) (width c : Nat) :
    (BatchPricingRequest.ofBytes (chunkBatch rr width c).toBytes).pairs =
      (chunkBatch rr width c).pairs := by
  have hlength := chunkBatch_pairs_length rr width c
  have haccepted := @BatchPricingRequest.toBytes_accepted (chunkBatch rr width c) (by omega)
  rw [haccepted.2.1]

/-- There is a further chunk only behind a full one. -/
theorem chunkBatch_full {width c : Nat} (hwidth : 0 < width)
    (hnext : c + 1 < chunkCount rr.pairs.length width) :
    (chunkBatch rr width c).pairs.length = width := by
  have hstart := chunk_start_lt hwidth hnext
  rw [Nat.add_mul, Nat.one_mul] at hstart
  rw [chunkBatch_pairs_length]
  omega

theorem chunkBatches_partitions {width : Nat} (hwidth : 0 < width)
    (hpairs : rr.pairs.length < maxBufferSize / 12) :
    Partitions rr.pairs width (chunkBatches rr width) := by
  have hdecoded := chunkBatch_decoded hpairs width
  refine ⟨?_, fun c hc => ?_, fun batch hbatch => ?_, ?_⟩
  · rw [chunkBatches_length, Nat.ceilDiv_eq_add_pred_div, chunkCount]
  · rw [chunkBatches_length] at hc
    simp only [chunkBatches, List.getElem_map, List.getElem_range, hdecoded]
    exact chunkBatch_full hwidth hc
  · obtain ⟨c, hc, rfl⟩ := List.mem_map.mp hbatch
    have hstart := chunk_start_lt hwidth (List.mem_range.mp hc)
    rw [hdecoded, chunkBatch_pairs_length]
    omega
  · have hall := flatMap_chunkBatches rr hwidth
    rw [chunkBatches, List.flatMap_map] at hall ⊢
    simpa only [hdecoded] using hall

/-- Whenever the rounded-up sum is an `int`, the batches partition the pairs. -/
theorem slicing_partitions (simdLanes : Int32) (msg : Bytes)
    (hmsg : verifyRangePricingRequestBuffer msg = true) (hlanes : 1 ≤ simdLanes.toInt)
    (hsum :
      ((RangePricingRequest.ofBytes msg).pairs.length : Int) + simdLanes.toInt - 1 ≤ intMax) :
    ∃ batches,
      expandToBatches (RangePricingRequest.ofBytes msg) simdLanes.toInt = .ok batches ∧
        Partitions (RangePricingRequest.ofBytes msg).pairs simdLanes.toInt.toNat batches := by
  have hpartitions := chunkBatches_partitions (show 0 < simdLanes.toInt.toNat by omega)
    (verified_pairs_lt hmsg)
  exact ⟨_, expandToBatches_inRange hlanes hsum, hpartitions⟩

theorem slicing_partitions_sample :
    ∃ batches,
      expandToBatches (RangePricingRequest.ofBytes
        (RangePricingRequest.sample [.sample 0, .sample 1, .sample 2]).toBytes) 2 = .ok batches ∧
      Partitions (RangePricingRequest.ofBytes
        (RangePricingRequest.sample [.sample 0, .sample 1, .sample 2]).toBytes).pairs 2 batches :=
  slicing_partitions 2 _ (by decide +kernel) (by decide) (by decide +kernel)

/-! ## Batch ids -/

/-- `n` words from `a` on and `m` words from `b` on, counted on the circle, meet
unless each run ends before the other one starts. -/
theorem word_runs_disjoint_iff {a b : UInt64} {n m : Nat} (hn : 0 < n) (hm : 0 < m)
    (hsmall : n < 2 ^ 64) (hsmall' : m < 2 ^ 64) :
    (∀ c < n, ∀ c' < m, a + UInt64.ofNat c ≠ b + UInt64.ofNat c') ↔
      n ≤ (b - a).toNat ∧ m ≤ (a - b).toNat := by
  have hequal (c c' : Nat) : a + UInt64.ofNat c = b + UInt64.ofNat c' ↔
      (a.toNat + c) % 2 ^ 64 = (b.toNat + c') % 2 ^ 64 := by
    simp [← UInt64.toNat_inj]
  have ha := a.toNat_lt
  have hb := b.toNat_lt
  rw [UInt64.toNat_sub, UInt64.toNat_sub]
  constructor
  · intro hdisjoint
    constructor
    · by_contra hclose
      apply hdisjoint ((2 ^ 64 - a.toNat + b.toNat) % 2 ^ 64) (by omega) 0 hm
      exact (hequal _ _).mpr (by omega)
    · by_contra hclose
      apply hdisjoint 0 hn ((2 ^ 64 - b.toNat + a.toNat) % 2 ^ 64) (by omega)
      exact (hequal _ _).mpr (by omega)
  · rintro ⟨hforward, hbackward⟩ c hc c' hc' hsame
    have hmeet := (hequal c c').mp hsame
    omega

/-- No batch of one request has the id of a batch of the other. -/
def IdsDisjoint (batches batches' : List BatchPricingRequest) : Prop :=
  ∀ batch ∈ batches, ∀ batch' ∈ batches', batch.batchCounterId ≠ batch'.batchCounterId

/-- The first chunks of two requests share no id exactly if their wrapped
products are far enough apart for the numbers of chunks. -/
theorem idsDisjoint_iff (rr rr' : RangePricingRequest) {width width' n m : Nat}
    (hn : n < 2 ^ 64) (hm : m < 2 ^ 64) :
    IdsDisjoint ((List.range n).map (chunkBatch rr width))
        ((List.range m).map (chunkBatch rr' width')) ↔
      n = 0 ∨ m = 0 ∨ n ≤ ((rr'.requestHash - rr.requestHash) * 1000).toNat ∧
        m ≤ ((rr.requestHash - rr'.requestHash) * 1000).toNat := by
  have hchunks : IdsDisjoint ((List.range n).map (chunkBatch rr width))
        ((List.range m).map (chunkBatch rr' width')) ↔
      ∀ c < n, ∀ c' < m, batchCounterId rr.requestHash c ≠ batchCounterId rr'.requestHash c' := by
    simp only [IdsDisjoint, List.forall_mem_map, List.mem_range]
    rfl
  rw [hchunks]
  rcases Nat.eq_zero_or_pos n with hnone | hsome
  · simp [hnone]
  rcases Nat.eq_zero_or_pos m with hnone' | hsome'
  · simp [hnone']
  · rw [or_iff_right hsome.ne', or_iff_right hsome'.ne', UInt64.sub_mul, UInt64.sub_mul]
    exact word_runs_disjoint_iff hsome hsome' hn hm

/-- Products that do not wrap leave room for a thousand ids each. -/
theorem le_product_distance {hash hash' : UInt64} (hne : hash ≠ hash')
    (hsmall : hash.toNat * 1000 + 1000 ≤ 2 ^ 64) (hsmall' : hash'.toNat * 1000 + 1000 ≤ 2 ^ 64) :
    1000 ≤ ((hash' - hash) * 1000).toNat := by
  have hdistinct : hash.toNat ≠ hash'.toNat := fun hequal => hne (UInt64.toNat_inj.mp hequal)
  have hproduct (word : UInt64) (hword : word.toNat * 1000 + 1000 ≤ 2 ^ 64) :
      (word * 1000).toNat = word.toNat * 1000 := by
    rw [UInt64.toNat_mul]
    exact Nat.mod_eq_of_lt (show word.toNat * 1000 < 2 ^ 64 by omega)
  rw [UInt64.sub_mul, UInt64.toNat_sub, hproduct hash hsmall, hproduct hash' hsmall']
  rcases Nat.lt_or_gt_of_ne hdistinct with hless | hmore
  · have hwrapped : 2 ^ 64 - hash.toNat * 1000 + hash'.toNat * 1000 =
        2 ^ 64 + (hash'.toNat - hash.toNat) * 1000 := by omega
    rw [hwrapped, Nat.add_mod_left, Nat.mod_eq_of_lt (by omega)]
    omega
  · rw [Nat.mod_eq_of_lt (by omega)]
    omega

/-- Within a request the ids count up from the first one. -/
theorem nodup_chunkBatches (rr : RangePricingRequest) {width n : Nat} (hn : n < 2 ^ 64) :
    (((List.range n).map (chunkBatch rr width)).map (·.batchCounterId)).Nodup := by
  rw [List.map_map]
  refine List.Nodup.map_on (fun c hc c' hc' hsame => ?_) List.nodup_range
  have hoffsets : UInt64.ofNat c = UInt64.ofNat c' := (UInt64.add_right_inj _).mp hsame
  rw [List.mem_range] at hc hc'
  have hequal := congrArg UInt64.toNat hoffsets
  rwa [UInt64.toNat_ofNat_of_lt' (hc.trans hn), UInt64.toNat_ofNat_of_lt' (hc'.trans hn)]
    at hequal

/-- What is sliced are the first chunks of the request, and their number is a word. -/
theorem exists_slicedBatches_eq (rr : RangePricingRequest) (simdLanes : Int) :
    ∃ n < 2 ^ 64, slicedBatches rr simdLanes =
      (List.range n).map (chunkBatch rr simdLanes.toNat) := by
  unfold slicedBatches
  split
  · next hrange =>
    have hmax : intMax = 2 ^ 31 - 1 := rfl
    have hle : chunkCount rr.pairs.length simdLanes.toNat ≤
        rr.pairs.length + simdLanes.toNat - 1 := Nat.div_le_self _ _
    exact ⟨_, by omega, rfl⟩
  · exact ⟨0, by decide, rfl⟩

/-- Ids are distinct within a request; two requests share none exactly if their
wrapped products are far enough apart for the numbers of their batches, as they
are for small hashes and at most a thousand batches. -/
theorem batch_ids_iff (simdLanes : Int32) (msg msg' : Bytes)
    (hmsg : verifyRangePricingRequestBuffer msg = true)
    (hmsg' : verifyRangePricingRequestBuffer msg' = true) (_hlanes : 1 ≤ simdLanes.toInt)
    {batches batches' : List BatchPricingRequest}
    (hexpand : expandToBatches (RangePricingRequest.ofBytes msg) simdLanes.toInt = .ok batches)
    (hexpand' : expandToBatches (RangePricingRequest.ofBytes msg') simdLanes.toInt =
      .ok batches') :
    (batches.map (·.batchCounterId)).Nodup ∧
      (IdsDisjoint batches batches' ↔ batches = [] ∨ batches' = [] ∨
        batches.length ≤ (((RangePricingRequest.ofBytes msg').requestHash -
            (RangePricingRequest.ofBytes msg).requestHash) * 1000).toNat ∧
          batches'.length ≤ (((RangePricingRequest.ofBytes msg).requestHash -
            (RangePricingRequest.ofBytes msg').requestHash) * 1000).toNat) ∧
      ((RangePricingRequest.ofBytes msg).requestHash ≠
          (RangePricingRequest.ofBytes msg').requestHash →
        (RangePricingRequest.ofBytes msg).requestHash.toNat * 1000 + 1000 ≤ 2 ^ 64 →
          (RangePricingRequest.ofBytes msg').requestHash.toNat * 1000 + 1000 ≤ 2 ^ 64 →
            batches.length ≤ 1000 → batches'.length ≤ 1000 → IdsDisjoint batches batches') := by
  have hint := And.intro simdLanes.le_toInt (Int.le_sub_one_of_lt simdLanes.toInt_lt)
  obtain ⟨n, hn, hchunks⟩ :=
    exists_slicedBatches_eq (RangePricingRequest.ofBytes msg) simdLanes.toInt
  obtain ⟨m, hm, hchunks'⟩ :=
    exists_slicedBatches_eq (RangePricingRequest.ofBytes msg') simdLanes.toInt
  obtain rfl := (expandToBatches_ok (verified_pairs_lt_int hmsg) hint hexpand).trans hchunks
  obtain rfl := (expandToBatches_ok (verified_pairs_lt_int hmsg') hint hexpand').trans hchunks'
  have hdisjoint := @idsDisjoint_iff (RangePricingRequest.ofBytes msg)
    (RangePricingRequest.ofBytes msg') simdLanes.toInt.toNat simdLanes.toInt.toNat n m hn hm
  simp only [← List.length_eq_zero_iff, List.length_map, List.length_range]
  refine ⟨nodup_chunkBatches _ hn, hdisjoint, ?_⟩
  intro hne hsmall hsmall' hfew hfew'
  have hfar := hfew.trans (le_product_distance hne hsmall hsmall')
  have hfar' := hfew'.trans (le_product_distance hne.symm hsmall' hsmall)
  exact hdisjoint.mpr (.inr (.inr ⟨hfar, hfar'⟩))

/-- Three pairs under a hash of their own. -/
def sampleHashed (requestHash : UInt64) : RangePricingRequest :=
  { RangePricingRequest.sample [.sample 0, .sample 1, .sample 2] with requestHash := requestHash }

/-- Neighbouring hashes with three batches each. -/
theorem batch_ids_sample :
    (chunkBatches (RangePricingRequest.ofBytes (sampleHashed 1).toBytes) 1).length = 3 ∧
      IdsDisjoint
        (chunkBatches (RangePricingRequest.ofBytes (sampleHashed 1).toBytes) 1)
        (chunkBatches (RangePricingRequest.ofBytes (sampleHashed 2).toBytes) 1) := by
  refine ⟨by decide +kernel, (batch_ids_iff 1 (sampleHashed 1).toBytes (sampleHashed 2).toBytes
    (by decide +kernel) (by decide +kernel) (by decide)
    (expandToBatches_inRange (by decide) (by decide +kernel))
    (expandToBatches_inRange (by decide) (by decide +kernel))).2.2 ?_ ?_ ?_ ?_ ?_⟩
  all_goals decide +kernel

/-- Hashes whose difference is `2 ^ 61` have one product. -/
theorem not_batch_ids :
    ¬ ∀ (simdLanes : Int32) (msg msg' : Bytes), verifyRangePricingRequestBuffer msg = true →
      verifyRangePricingRequestBuffer msg' = true → 1 ≤ simdLanes.toInt →
        (RangePricingRequest.ofBytes msg).requestHash ≠
          (RangePricingRequest.ofBytes msg').requestHash →
        ∀ batches batches',
          expandToBatches (RangePricingRequest.ofBytes msg) simdLanes.toInt = .ok batches →
            expandToBatches (RangePricingRequest.ofBytes msg') simdLanes.toInt = .ok batches' →
              IdsDisjoint batches batches' := by
  intro hdisjoint
  have hids := hdisjoint 1 (sampleHashed 1).toBytes (sampleHashed (1 + 2 ^ 61)).toBytes
    (by decide +kernel) (by decide +kernel) (by decide) (by decide +kernel) _ _
    (expandToBatches_inRange (by decide) (by decide +kernel))
    (expandToBatches_inRange (by decide) (by decide +kernel))
  rw [chunkBatches, chunkBatches, idsDisjoint_iff _ _ (by decide +kernel) (by decide +kernel)]
    at hids
  revert hids
  decide +kernel

end RangePricer
