import RangePricer.Pricing.Stores

/-!
# What the kernel covers

The indices the kernel writes, in program order.  A vector store at `i` writes
the indices from `i` to `i + N - 1`, so the whole vectors write the multiple of
the lane count they end at and nothing behind it, and the tail goes on from
there: either output receives `0`, `1`, …, `count - 1`, each of them once.
-/

namespace RangePricer

section

variable {fp : FloatUnit} {simd : Simd} {S K r T ds : Binary32} {alphas betas : List Binary32}
  {lanes count : Nat} {vPv vHr : Binary32}

/-! ## The indices of the stores -/

/-- The indices a store writes. -/
def Store.touched (store : Store) : List Nat :=
  List.range' store.index store.values.length

/-- The indices at which the stores write one of the outputs. -/
def writes (output : Output) (stores : List Store) : List Nat :=
  stores.flatMap fun store => if store.output = output then store.touched else []

theorem writes_append (output : Output) (first second : List Store) :
    writes output (first ++ second) = writes output first ++ writes output second :=
  List.flatMap_append

theorem writes_flatMap {α : Type} (output : Output) (stores : α → List Store) (items : List α) :
    writes output (items.flatMap stores) = items.flatMap fun item => writes output (stores item) :=
  List.flatMap_assoc

/-- One iteration of the vector loop writes a whole vector to either output. -/
theorem writes_vectorStores (output : Output) (i : Nat) :
    writes output (vectorStores lanes vPv vHr i) = List.range' i lanes := by
  cases output with
  | prices => simp [writes, vectorStores, Store.touched]
  | hedgeRatios => simp [writes, vectorStores, Store.touched]

/-- The indices behind a range continue it. -/
theorem range_append_range' (front back : Nat) :
    List.range front ++ List.range' front back = List.range (front + back) := by
  have happend := @List.range'_append_1 0 front back
  rwa [Nat.zero_add, ← List.range_eq_range', ← List.range_eq_range'] at happend

/-- Consecutive blocks of one size leave no gap. -/
theorem flatMap_blocks (size blocks : Nat) :
    ((List.range blocks).flatMap fun k => List.range' (size * k) size) =
      List.range (size * blocks) := by
  induction blocks with
  | zero => rfl
  | succ blocks ih =>
      rw [List.range_succ, List.flatMap_append, ih, List.flatMap_singleton, Nat.mul_succ,
        range_append_range']

theorem writes_vectorBody (output : Output) :
    writes output (vectorBody lanes count vPv vHr) = List.range (vectorCount lanes count) := by
  rw [vectorBody, writes_flatMap, vectorCount, ← flatMap_blocks]
  apply List.flatMap_congr
  intro k _
  exact writes_vectorStores output (lanes * k)

theorem writes_tailLoop (output : Output) (pv : Binary32) (remaining i : Nat) :
    writes output (tailLoop pv remaining i) = List.range' i remaining := by
  induction remaining generalizing i with
  | zero => rfl
  | succ remaining ih =>
      have hstep : writes output (tailLoop pv (remaining + 1) i) =
          i :: writes output (tailLoop pv remaining (i + 1)) := by
        cases output <;> rfl
      rw [hstep, ih, List.range'_succ]

/-- Either output is written from front to back. -/
theorem writes_vectorizedPrice (output : Output) :
    writes output (vectorizedPrice fp simd S K r T ds alphas betas count) = List.range count := by
  rw [vectorizedPrice_eq, writes_append, writes_vectorBody, writes_tailLoop, range_append_range',
    Nat.add_sub_cancel' (vectorCount_le simd.lanes count)]

/-! ## Vector stores and scalar stores -/

theorem filter_vector_vectorizedPrice :
    (vectorizedPrice fp simd S K r T ds alphas betas count).filter (·.vector) =
      vectorBody simd.lanes count (fp.hnExp (fp.mul r T).neg) Binary32.zero := by
  rw [vectorizedPrice_eq, List.filter_append, List.filter_eq_self.mpr, List.filter_eq_nil_iff.mpr,
    List.append_nil]
  · intro store hstore
    rw [scalar_of_mem_tailLoop hstore]
    exact Bool.false_ne_true
  · intro store hstore
    exact vector_of_mem_vectorBody hstore

theorem filter_scalar_vectorizedPrice :
    (vectorizedPrice fp simd S K r T ds alphas betas count).filter (!·.vector) =
      tailLoop (fp.stdExp (fp.mul r.neg T)) (count - vectorCount simd.lanes count)
        (vectorCount simd.lanes count) := by
  rw [vectorizedPrice_eq, List.filter_append, List.filter_eq_nil_iff.mpr, List.filter_eq_self.mpr,
    List.nil_append]
  · intro store hstore
    rw [scalar_of_mem_tailLoop hstore]
    rfl
  · intro store hstore
    rw [vector_of_mem_vectorBody hstore]
    exact Bool.false_ne_true

/-! ## The index as a `size_t` -/

/-- The vector loop with an index that wraps, `none` while it has not ended. -/
def sizeLoop (lanes count : Nat) (vPv vHr : Binary32) : Nat → Nat → Option (List Store × Nat)
  | 0, _ => none
  | fuel + 1, i =>
      if (i + lanes) % 2 ^ 64 ≤ count then do
        let (rest, last) ← sizeLoop lanes count vPv vHr fuel ((i + lanes) % 2 ^ 64)
        return (vectorStores lanes vPv vHr i ++ rest, last)
      else some ([], i)

/-- The index does not wrap while `count + N` has room in a `size_t`. -/
theorem sizeLoop_eq (hlanes : 0 < lanes) (hroom : count + lanes < 2 ^ 64) (fuel i : Nat)
    (hi : i ≤ count) (hfuel : count < i + fuel) :
    sizeLoop lanes count vPv vHr fuel i = some (vectorLoop lanes count vPv vHr fuel i) := by
  induction fuel generalizing i with
  | zero => exact absurd hfuel (Nat.not_lt_of_le hi)
  | succ fuel ih =>
      have hnext : (i + lanes) % 2 ^ 64 = i + lanes := Nat.mod_eq_of_lt (by omega)
      rw [sizeLoop, vectorLoop, hnext]
      split
      · next hfits =>
          rw [ih (i + lanes) hfits (by omega)]
          rfl
      · rfl

/-- The loop over `size_t` ends, behind the last whole vector. -/
theorem sizeLoop_vectorBody (hlanes : 0 < lanes) (hroom : count + lanes < 2 ^ 64) {fuel : Nat}
    (hfuel : count < fuel) :
    sizeLoop lanes count vPv vHr fuel 0 =
      some (vectorBody lanes count vPv vHr, vectorCount lanes count) := by
  rw [sizeLoop_eq hlanes hroom fuel 0 (Nat.zero_le count) (by omega),
    vectorLoop_eq hlanes fuel 0 (by omega)]
  simp only [Nat.sub_zero, Nat.zero_add]
  rfl

/-! ## The arrays behind the stores -/

/-- A store whose indices stay below a limit ends below it, unless it is empty. -/
theorem end_le_of_touched {limit index : Nat} {values : List Binary32}
    (hwithin : ∀ i ∈ List.range' index values.length, i < limit) :
    values = [] ∨ index + values.length ≤ limit := by
  cases values with
  | nil => exact .inl rfl
  | cons first values =>
      have hlast : index + values.length ∈ List.range' index (first :: values).length :=
        List.mem_range'_1.mpr ⟨Nat.le_add_right _ _, Nat.lt_succ_self _⟩
      exact .inr (hwithin _ hlast)

theorem overwrite_nil (array : List Binary32) (index : Nat) : overwrite array index [] = array := by
  rw [overwrite, List.append_nil, List.length_nil, Nat.add_zero, List.take_append_drop]

/-- A write within the front part leaves what follows it alone. -/
theorem overwrite_append {array values : List Binary32} {index : Nat}
    (hwithin : ∀ i ∈ List.range' index values.length, i < array.length) (rest : List Binary32) :
    overwrite (array ++ rest) index values = overwrite array index values ++ rest := by
  rcases end_le_of_touched hwithin with rfl | hend
  · rw [overwrite_nil, overwrite_nil]
  · rw [overwrite, overwrite, List.drop_append_of_le_length hend,
      List.take_append_of_le_length (Nat.le_trans (Nat.le_add_right _ _) hend),
      List.append_assoc _ _ rest]

theorem length_overwrite {array values : List Binary32} {index : Nat}
    (hwithin : ∀ i ∈ List.range' index values.length, i < array.length) :
    (overwrite array index values).length = array.length := by
  rcases end_le_of_touched hwithin with rfl | hend
  · rw [overwrite_nil]
  · rw [overwrite, List.length_append, List.length_append, List.length_take, List.length_drop]
    omega

/-- Stores whose writes stay within the front part leave what follows it alone. -/
theorem runStores_append_array {output : Output} {stores : List Store} {array : List Binary32}
    (hwithin : ∀ i ∈ writes output stores, i < array.length) (rest : List Binary32) :
    runStores output stores (array ++ rest) = runStores output stores array ++ rest := by
  induction stores generalizing array with
  | nil => rfl
  | cons store stores ih =>
      rw [writes, List.flatMap_cons, List.forall_mem_append] at hwithin
      obtain ⟨hfirst, hothers⟩ := hwithin
      simp only [runStores, List.foldl_cons]
      split
      · next houtput =>
          rw [if_pos houtput] at hfirst
          rw [overwrite_append hfirst]
          apply ih
          rwa [length_overwrite hfirst]
      · exact ih hothers

/-- What the kernel leaves in a buffer that holds at least `count` elements. -/
theorem getElem?_runStores (output : Output) {array : List Binary32} (hroom : count ≤ array.length)
    (i : Nat) :
    (runStores output (vectorizedPrice fp simd S K r T ds alphas betas count) array)[i]? =
      if i < vectorCount simd.lanes count then some (output.value (fp.hnExp (fp.mul r T).neg))
      else if i < count then some (output.value (fp.stdExp (fp.mul r.neg T)))
      else array[i]? := by
  have hlength : (array.take count).length = count := List.length_take_of_le hroom
  have hwithin : ∀ i ∈ writes output (vectorizedPrice fp simd S K r T ds alphas betas count),
      i < (array.take count).length := by
    intro i hi
    rw [writes_vectorizedPrice, List.mem_range] at hi
    rwa [hlength]
  have hfront := runStores_vectorizedPrice output fp simd S K r T ds alphas betas
    (array.take count)
  rw [hlength] at hfront
  have hcovered := vectorCount_le simd.lanes count
  conv_lhs => rw [← List.take_append_drop count array]
  rw [runStores_append_array hwithin, hfront]
  simp only [List.getElem?_append, List.length_append, List.length_replicate,
    List.getElem?_replicate, List.getElem?_drop, Nat.add_sub_cancel' hcovered]
  by_cases hvector : i < vectorCount simd.lanes count
  · have hinside : i < count := Nat.lt_of_lt_of_le hvector hcovered
    simp only [if_pos hvector, if_pos hinside]
  · by_cases hinside : i < count
    · have htail : i - vectorCount simd.lanes count < count - vectorCount simd.lanes count := by
        omega
      simp only [if_neg hvector, if_pos hinside, if_pos htail]
    · have hbehind : count + (i - count) = i := by omega
      simp only [if_neg hvector, if_neg hinside, hbehind]

/-- Both outputs are written once at every index below `count` and nowhere else,
by the vector loop up to the end of the last whole vector and by the tail from
there on. -/
theorem vectorized_price_covers (fp : FloatUnit) (simd : Simd) (S K r T ds : Binary32)
    (alphas betas : List Binary32) (count : Nat) :
    let vPv := fp.hnExp (fp.mul r T).neg
    let pv := fp.stdExp (fp.mul r.neg T)
    let stores := vectorizedPrice fp simd S K r T ds alphas betas count
    let covered := simd.lanes * (count / simd.lanes)
    (∀ output i, (writes output stores).count i = if i < count then 1 else 0) ∧
      (vectorLoop simd.lanes count vPv Binary32.zero count 0).2 = covered ∧
      (count + simd.lanes < 2 ^ 64 → ∀ fuel > count,
        sizeLoop simd.lanes count vPv Binary32.zero fuel 0 =
          some (stores.filter (·.vector), covered)) ∧
      (∀ output, writes output (stores.filter (·.vector)) = List.range covered ∧
        writes output (stores.filter (!·.vector)) = List.range' covered (count - covered)) ∧
      ∀ array : List Binary32, count ≤ array.length → ∀ i,
        (runStores .prices stores array)[i]? =
            (if i < covered then some vPv else if i < count then some pv else array[i]?) ∧
          (runStores .hedgeRatios stores array)[i]? =
            if i < count then some Binary32.zero else array[i]? := by
  intro vPv pv stores covered
  refine ⟨?_, ?_, ?_, ?_, ?_⟩
  · intro output i
    rw [writes_vectorizedPrice, List.count_range]
  · rw [vectorLoop_eq simd.lanes_pos count 0 (Nat.zero_add count).ge, Nat.zero_add, Nat.sub_zero]
    rfl
  · intro hroom fuel hfuel
    rw [filter_vector_vectorizedPrice]
    exact sizeLoop_vectorBody simd.lanes_pos hroom hfuel
  · intro output
    rw [filter_vector_vectorizedPrice, filter_scalar_vectorizedPrice]
    exact ⟨writes_vectorBody output, writes_tailLoop output _ _ _⟩
  · intro array hroom i
    refine ⟨getElem?_runStores .prices hroom i, ?_⟩
    rw [getElem?_runStores .hedgeRatios hroom i]
    by_cases hvector : i < vectorCount simd.lanes count
    · have hinside : i < count := Nat.lt_of_lt_of_le hvector (vectorCount_le simd.lanes count)
      rw [if_pos hvector, if_pos hinside]
      rfl
    · rw [if_neg hvector]
      rfl

end

end RangePricer
