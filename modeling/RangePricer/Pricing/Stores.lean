import RangePricer.Kernel

/-!
# Where the kernel stores

The vector stores of `vectorized_price` stand at the multiples of the lane count
that leave room for a whole vector.  Highway's `Store` needs an address that is a
multiple of the vector's size; the buffers come from the default allocator, which
promises sixteen bytes.
-/

namespace RangePricer

section

variable {fp : FloatUnit} {simd : Simd} {S K r T ds : Binary32} {alphas betas : List Binary32}
  {lanes count : Nat} {vPv vHr : Binary32}

/-! ## The vector stores -/

theorem mem_vectorBody {store : Store} :
    store ∈ vectorBody lanes count vPv vHr ↔
      ∃ k < count / lanes, store ∈ vectorStores lanes vPv vHr (lanes * k) := by
  simp only [vectorBody, List.mem_flatMap, List.mem_range]

theorem vector_of_mem_vectorStores {i : Nat} {store : Store}
    (hstore : store ∈ vectorStores lanes vPv vHr i) : store.vector = true ∧ store.index = i := by
  simp only [vectorStores, List.mem_cons, List.not_mem_nil, or_false] at hstore
  rcases hstore with rfl | rfl
  · exact ⟨rfl, rfl⟩
  · exact ⟨rfl, rfl⟩

theorem vector_of_mem_vectorBody {store : Store}
    (hstore : store ∈ vectorBody lanes count vPv vHr) : store.vector = true := by
  obtain ⟨k, -, hstore⟩ := mem_vectorBody.mp hstore
  exact (vector_of_mem_vectorStores hstore).1

theorem scalar_of_mem_tailLoop {pv : Binary32} {remaining i : Nat} {store : Store}
    (hstore : store ∈ tailLoop pv remaining i) : store.vector = false := by
  induction remaining generalizing i with
  | zero => cases hstore
  | succ remaining ih =>
      rw [tailLoop, List.mem_cons, List.mem_cons] at hstore
      rcases hstore with rfl | rfl | hrest
      · rfl
      · rfl
      · exact ih hrest

/-- The vector stores of the kernel are the two at each whole vector. -/
theorem mem_vectorizedPrice_vector {store : Store} :
    store ∈ vectorizedPrice fp simd S K r T ds alphas betas count ∧ store.vector = true ↔
      ∃ k < count / simd.lanes, store ∈
        vectorStores simd.lanes (fp.hnExp (fp.mul r T).neg) Binary32.zero (simd.lanes * k) := by
  rw [vectorizedPrice_eq, List.mem_append]
  constructor
  · rintro ⟨hbody | htail, hvector⟩
    · exact mem_vectorBody.mp hbody
    · rw [scalar_of_mem_tailLoop htail] at hvector
      cases hvector
  · rintro ⟨k, hk, hstore⟩
    exact ⟨.inl (mem_vectorBody.mpr ⟨k, hk, hstore⟩), (vector_of_mem_vectorStores hstore).1⟩

/-! ## Aligned addresses -/

/-- Base addresses of the two output buffers, as the default allocator returns
them. -/
structure Buffers where
  base : Output → Nat
  aligned : ∀ output, 16 ∣ base output

/-- The address of a store, for elements of `sizeof(float)` bytes. -/
def Buffers.address (buffers : Buffers) (store : Store) : Nat :=
  buffers.base store.output + store.index * 4

/-- Every `hn::Store` meets its precondition. -/
def AlignedStores (buffers : Buffers) (simd : Simd) (stores : List Store) : Prop :=
  ∀ store ∈ stores, store.vector = true → simd.lanes * 4 ∣ buffers.address store

/-- A store at a multiple of the lane count is as aligned as its buffer. -/
theorem Buffers.dvd_address_iff (buffers : Buffers) {store : Store} {k : Nat}
    (hindex : store.index = lanes * k) :
    lanes * 4 ∣ buffers.address store ↔ lanes * 4 ∣ buffers.base store.output := by
  have hoffset : lanes * 4 ∣ store.index * 4 :=
    ⟨k, by rw [hindex, Nat.mul_right_comm]⟩
  exact Nat.dvd_add_left hoffset

/-- The first iteration stores at the bases themselves. -/
theorem AlignedStores.bases {buffers : Buffers}
    (haligned : AlignedStores buffers simd (vectorizedPrice fp simd S K r T ds alphas betas count))
    (hmany : simd.lanes ≤ count) (output : Output) : simd.lanes * 4 ∣ buffers.base output := by
  obtain ⟨store, hstore, houtput⟩ : ∃ store ∈ vectorStores simd.lanes
      (fp.hnExp (fp.mul r T).neg) Binary32.zero (simd.lanes * 0), store.output = output := by
    cases output with
    | prices => exact ⟨_, List.mem_cons_self, rfl⟩
    | hedgeRatios => exact ⟨_, List.mem_cons_of_mem _ List.mem_cons_self, rfl⟩
  have hfirst : 0 < count / simd.lanes := Nat.div_pos hmany simd.lanes_pos
  obtain ⟨hmem, hvector⟩ := mem_vectorizedPrice_vector.mpr ⟨0, hfirst, hstore⟩
  rw [← houtput, ← buffers.dvd_address_iff (vector_of_mem_vectorStores hstore).2]
  exact haligned store hmem hvector

/-- Without a whole vector there is nothing to align; with aligned buffers every
multiple of the lane count is aligned too. -/
theorem alignedStores_of_bases {buffers : Buffers}
    (hbases : simd.lanes ≤ count → ∀ output, simd.lanes * 4 ∣ buffers.base output) :
    AlignedStores buffers simd (vectorizedPrice fp simd S K r T ds alphas betas count) := by
  intro store hmem hvector
  obtain ⟨k, hk, hstore⟩ := mem_vectorizedPrice_vector.mp ⟨hmem, hvector⟩
  have hmany : simd.lanes ≤ count := by
    by_contra hfew
    rw [Nat.div_eq_of_lt (Nat.lt_of_not_le hfew)] at hk
    cases hk
  rw [buffers.dvd_address_iff (vector_of_mem_vectorStores hstore).2]
  exact hbases hmany store.output

/-- Vectors of at most sixteen bytes are always stored to aligned addresses. -/
theorem alignedStores_of_narrow (buffers : Buffers) (hnarrow : simd.lanes ∣ 4) :
    AlignedStores buffers simd (vectorizedPrice fp simd S K r T ds alphas betas count) := by
  apply alignedStores_of_bases
  intro _ output
  exact Nat.dvd_trans (Nat.mul_dvd_mul_right hnarrow 4) (buffers.aligned output)

/-- The kernel stores to aligned addresses exactly if no whole vector fits or
both buffers are aligned to the vector's size. -/
theorem aligned_stores_iff (fp : FloatUnit) (simd : Simd) (S K r T ds : Binary32)
    (alphas betas : List Binary32) (count : Nat) (buffers : Buffers) :
    AlignedStores buffers simd (vectorizedPrice fp simd S K r T ds alphas betas count) ↔
      count < simd.lanes ∨ ∀ output, simd.lanes * 4 ∣ buffers.base output := by
  constructor
  · intro haligned
    rcases Nat.lt_or_ge count simd.lanes with hfew | hmany
    · exact .inl hfew
    · exact .inr (haligned.bases hmany)
  · rintro (hfew | hbases)
    · exact alignedStores_of_bases fun hmany => absurd hmany (Nat.not_le_of_lt hfew)
    · exact alignedStores_of_bases fun _ => hbases

/-- Both buffers at an odd multiple of sixteen. -/
def Buffers.sample : Buffers := ⟨fun _ => 16, fun _ => Nat.dvd_refl 16⟩

/-- Eight lanes, one whole vector and buffers that are not aligned to it. -/
theorem not_aligned_stores :
    ¬ ∀ (fp : FloatUnit) (simd : Simd) (S K r T ds : Binary32) (alphas betas : List Binary32)
      (count : Nat) (buffers : Buffers),
        AlignedStores buffers simd (vectorizedPrice fp simd S K r T ds alphas betas count) := by
  intro haligned
  have hwide := haligned ⟨fun x _ => x, id, id⟩ ⟨8, by decide⟩ .zero .zero .zero .zero .zero [] []
    8 .sample
  have hbase : 8 * 4 ∣ Buffers.sample.base .prices := hwide.bases le_rfl .prices
  revert hbase
  decide

end

end RangePricer
