import Mathlib.Data.List.ProdSigma
import RangePricer.Codec.Requests

/-!
# The grid a client asks for

Both clients number the pairs of a grid in two nested loops.  The C++ client
copies the structs into their vector, the Python client prepends them from the
last to the first, and each of them field by field from the last; both vectors
read back as the same pairs.
-/

namespace RangePricer

open FlatBuffers

/-! ## Enumerating the grid -/

section

variable {Index : Type} (next : Index → Index)

/-- The inner loop: one pair for each beta, numbered on. -/
def gridRow (betas : List Binary32) (acc : List (Index × Binary32 × Binary32) × Index)
    (alpha : Binary32) : List (Index × Binary32 × Binary32) × Index :=
  betas.foldl (fun (pairs, idx) beta => (pairs ++ [(idx, alpha, beta)], next idx)) acc

/-- The outer loop over the alphas. -/
def gridLoop (start : Index) (alphas betas : List Binary32) :
    List (Index × Binary32 × Binary32) :=
  (alphas.foldl (gridRow next betas) ([], start)).1

/-- Points of a grid, numbered from `start`. -/
def numbered (start : Index) (points : List (Binary32 × Binary32)) :
    List (Index × Binary32 × Binary32) :=
  points.mapIdx fun k point => (next^[k] start, point.1, point.2)

theorem numbered_append (start : Index) (points more : List (Binary32 × Binary32)) :
    numbered next start (points ++ more) =
      numbered next start points ++ numbered next (next^[points.length] start) more := by
  simp only [numbered, List.mapIdx_append, Function.iterate_add_apply]

theorem map_snd_numbered (start : Index) (points : List (Binary32 × Binary32)) :
    (numbered next start points).map Prod.snd = points := by
  refine List.ext_getElem ?_ fun k hleft hright => ?_
  · rw [List.length_map, numbered, List.length_mapIdx]
  · simp only [numbered, List.getElem_map, List.getElem_mapIdx]

theorem gridRow_numbered (start : Index) (points : List (Binary32 × Binary32))
    (betas : List Binary32) (alpha : Binary32) :
    gridRow next betas (numbered next start points, next^[points.length] start) alpha =
      (numbered next start (points ++ betas.map (Prod.mk alpha)),
        next^[(points ++ betas.map (Prod.mk alpha)).length] start) := by
  induction betas generalizing points with
  | nil => simp [gridRow]
  | cons beta rest ih =>
      have hone : numbered next start points ++ [(next^[points.length] start, alpha, beta)] =
          numbered next start (points ++ [(alpha, beta)]) := by
        rw [numbered_append]
        rfl
      have hcount : next (next^[points.length] start) =
          next^[(points ++ [(alpha, beta)]).length] start := by
        rw [List.length_append, List.length_singleton, Function.iterate_succ_apply']
      have hrest := ih (points ++ [(alpha, beta)])
      rw [← hone, ← hcount, List.append_assoc, List.singleton_append, ← List.map_cons] at hrest
      exact hrest

/-- The loops number the points of the grid row by row. -/
theorem gridLoop_eq (start : Index) (alphas betas : List Binary32) :
    gridLoop next start alphas betas = numbered next start (alphas ×ˢ betas) := by
  have hrows (points : List (Binary32 × Binary32)) :
      alphas.foldl (gridRow next betas)
          (numbered next start points, next^[points.length] start) =
        (numbered next start (points ++ alphas ×ˢ betas),
          next^[(points ++ alphas ×ˢ betas).length] start) := by
    induction alphas generalizing points with
    | nil => simp
    | cons alpha rest ih =>
        rw [List.foldl_cons, gridRow_numbered, ih, List.product_cons, List.append_assoc]
  exact congrArg Prod.fst (hrows [])

end

/-- Position `k` of a grid is row `k / |betas|`, column `k mod |betas|`. -/
theorem getElem?_product (alphas betas : List Binary32) {k : Nat}
    (hk : k < alphas.length * betas.length) :
    ∃ alpha beta, (alphas ×ˢ betas)[k]? = some (alpha, beta) ∧
      alphas[k / betas.length]? = some alpha ∧ betas[k % betas.length]? = some beta := by
  induction alphas generalizing k with
  | nil => simp at hk
  | cons first rest ih =>
      have hpos : 0 < betas.length := Nat.pos_of_ne_zero fun hzero => by simp [hzero] at hk
      rw [List.product_cons]
      rcases Nat.lt_or_ge k betas.length with hrow | hbeyond
      · rw [List.getElem?_append_left (by simpa using hrow), Nat.div_eq_of_lt hrow,
          Nat.mod_eq_of_lt hrow]
        exact ⟨first, betas[k], by simp [hrow], rfl, List.getElem?_eq_getElem hrow⟩
      · rw [List.length_cons, Nat.add_mul, Nat.one_mul] at hk
        obtain ⟨alpha, beta, hpoint, halpha, hbeta⟩ := @ih (k - betas.length) (by omega)
        have hdiv : k / betas.length = (k - betas.length) / betas.length + 1 := by
          rw [Nat.div_eq_sub_div hpos hbeyond]
        refine ⟨alpha, beta, ?_, ?_, ?_⟩
        · rw [List.getElem?_append_right (by simpa using hbeyond), List.length_map, hpoint]
        · rw [hdiv, List.getElem?_cons_succ, halpha]
        · rw [Nat.mod_eq_sub_mod hbeyond, hbeta]

/-- Pair `k` is `(k, alphas[k / |betas|], betas[k mod |betas|])`. -/
structure IsGrid (alphas betas : List Binary32) (pairs : List AlphaBetaPair) : Prop where
  length_eq : pairs.length = alphas.length * betas.length
  pair_eq : ∀ k, (hk : k < pairs.length) → pairs[k].idx.toNat = k ∧
    alphas[k / betas.length]? = some pairs[k].alpha ∧
      betas[k % betas.length]? = some pairs[k].beta

/-- Numbered points are the grid as long as the numbers fit. -/
theorem isGrid_numbered {Index : Type} {next : Index → Index} {start : Index}
    {alphas betas : List Binary32} {word : Index → UInt32}
    (hword : ∀ k < alphas.length * betas.length, (word (next^[k] start)).toNat = k) :
    IsGrid alphas betas
      ((numbered next start (alphas ×ˢ betas)).map fun (idx, alpha, beta) =>
        ⟨word idx, alpha, beta⟩) := by
  have hlength : (alphas ×ˢ betas).length = alphas.length * betas.length :=
    List.length_product alphas betas
  refine ⟨by simp [numbered, hlength], fun k hk => ?_⟩
  simp only [numbered, List.length_map, List.length_mapIdx, hlength] at hk
  obtain ⟨alpha, beta, hpoint, halpha, hbeta⟩ := getElem?_product alphas betas hk
  obtain ⟨hin, hpoint⟩ := List.getElem?_eq_some_iff.mp hpoint
  simp only [numbered, List.getElem_map, List.getElem_mapIdx, hpoint]
  exact ⟨hword k hk, halpha, hbeta⟩

/-! ## The C++ client -/

/-- `uint32_t idx`, counted up with wrapping. -/
def gridPairs (alphas betas : List Binary32) : List AlphaBetaPair :=
  (gridLoop (· + 1) (0 : UInt32) alphas betas).map fun (idx, alpha, beta) => ⟨idx, alpha, beta⟩

/-- The request the C++ client builds; the option type is not set. -/
def clientRequest (S K r T ds : Binary32) (requestHash : UInt64)
    (alphas betas : List Binary32) : RangePricingRequest where
  request := {
    stockPrice := S
    strikePrice := K
    interestRate := r
    timeToMaturity := T
    stockDiscretization := ds }
  requestHash := requestHash
  pairs := gridPairs alphas betas

theorem gridPairs_isGrid {alphas betas : List Binary32}
    (hfits : alphas.length * betas.length < 2 ^ 32) :
    IsGrid alphas betas (gridPairs alphas betas) := by
  rw [gridPairs, gridLoop_eq]
  refine @isGrid_numbered _ _ _ _ _ id fun k hk => ?_
  have hcount : (fun idx : UInt32 => idx + 1)^[k] 0 = UInt32.ofNat k := by
    clear hk
    induction k with
    | zero => rfl
    | succ k ih => rw [Function.iterate_succ_apply', ih, UInt32.ofNat_add]; rfl
  rw [hcount, id, UInt32.toNat_ofNat_of_lt' (hk.trans hfits)]

/-! ## The Python client -/

/-- The operations of the Python `flatbuffers.Builder` that encode a vector of
structs; `bytes` is the part of its buffer written so far. -/
structure PyBuilder (B : Type) where
  new : B
  startVector : B → (elemSize numElems alignment : Nat) → B
  prep : B → (size additionalBytes : Nat) → B
  prependFloat32 : B → Binary32 → B
  prependUint32 : B → Nat → B
  endVector : B → B
  bytes : B → Bytes
  vectorNumElems : B → Nat

namespace PyBuilder

variable {B : Type}

/-- What the documentation of the builder says of the bytes written. -/
structure Documented (py : PyBuilder B) : Prop where
  new : py.bytes py.new = []
  /-- The elements, `numElems` of `elemSize` bytes, will end aligned. -/
  startVector : ∀ b elemSize numElems,
    (∃ pad, py.bytes (py.startVector b elemSize numElems 4) = List.replicate pad 0 ++ py.bytes b) ∧
      4 ∣ (py.bytes (py.startVector b elemSize numElems 4)).length + elemSize * numElems ∧
        py.vectorNumElems (py.startVector b elemSize numElems 4) = numElems
  /-- Just enough padding for an element of `size` after `additionalBytes`. -/
  prep : ∀ b additionalBytes,
    (∃ pad < 4, py.bytes (py.prep b 4 additionalBytes) = List.replicate pad 0 ++ py.bytes b) ∧
      4 ∣ (py.bytes (py.prep b 4 additionalBytes)).length + additionalBytes ∧
        py.vectorNumElems (py.prep b 4 additionalBytes) = py.vectorNumElems b
  prependFloat32 : ∀ b value,
    py.bytes (py.prependFloat32 b value) =
        leBytes 4 value.bits.toNat ++ py.bytes (py.prep b 4 0) ∧
      py.vectorNumElems (py.prependFloat32 b value) = py.vectorNumElems b
  prependUint32 : ∀ b value, value < 2 ^ 32 →
    py.bytes (py.prependUint32 b value) = leBytes 4 value ++ py.bytes (py.prep b 4 0) ∧
      py.vectorNumElems (py.prependUint32 b value) = py.vectorNumElems b
  /-- Space for the number of elements has been aligned for already. -/
  endVector : ∀ b, py.bytes (py.endVector b) = leBytes 4 (py.vectorNumElems b) ++ py.bytes b

/-- `CreateAlphaBetaPair`: the fields from the last to the first. -/
def createAlphaBetaPair (py : PyBuilder B) (b : B) (idx : Nat) (alpha beta : Binary32) : B :=
  let b := py.prep b 4 12
  let b := py.prependFloat32 b beta
  let b := py.prependFloat32 b alpha
  py.prependUint32 b idx

/-- The pairs of `build_request`, prepended in reverse. -/
def buildPairs (py : PyBuilder B) (alphas betas : List Binary32) : B :=
  let pairs := gridLoop (· + 1) (0 : Nat) alphas betas
  let b := py.startVector py.new 12 pairs.length 4
  let b := pairs.reverse.foldl
    (fun b (idx, alpha, beta) => py.createAlphaBetaPair b idx alpha beta) b
  py.endVector b

variable {py : PyBuilder B}

/-- An aligned builder needs no padding. -/
theorem Documented.prep_aligned (hpy : py.Documented) {b : B} {additionalBytes : Nat}
    (haligned : 4 ∣ (py.bytes b).length) (hadditional : 4 ∣ additionalBytes) :
    py.bytes (py.prep b 4 additionalBytes) = py.bytes b ∧
      py.vectorNumElems (py.prep b 4 additionalBytes) = py.vectorNumElems b := by
  obtain ⟨⟨pad, hpad, hbytes⟩, hend, hcount⟩ := hpy.prep b additionalBytes
  rw [hbytes, List.length_append, List.length_replicate] at hend
  obtain rfl : pad = 0 := by omega
  exact ⟨hbytes, hcount⟩

/-- One struct is prepended in the byte order of the schema. -/
theorem Documented.createAlphaBetaPair (hpy : py.Documented) {b : B} {idx : Nat}
    {alpha beta : Binary32} (haligned : 4 ∣ (py.bytes b).length) (hidx : idx < 2 ^ 32) :
    py.bytes (py.createAlphaBetaPair b idx alpha beta) =
        (AlphaBetaPair.mk (UInt32.ofNat idx) alpha beta).toBytes ++ py.bytes b ∧
      py.vectorNumElems (py.createAlphaBetaPair b idx alpha beta) = py.vectorNumElems b := by
  obtain ⟨hprep, hprepCount⟩ := hpy.prep_aligned haligned (show 4 ∣ 12 by decide)
  -- Each of the three words leaves the builder aligned for the next.
  obtain ⟨hbeta, hbetaCount⟩ := hpy.prependFloat32 (py.prep b 4 12) beta
  rw [(hpy.prep_aligned (hprep ▸ haligned) (Nat.dvd_zero 4)).1, hprep] at hbeta
  have halignedBeta : 4 ∣ (py.bytes (py.prependFloat32 (py.prep b 4 12) beta)).length := by
    rw [hbeta, List.length_append, leBytes_length]
    omega
  obtain ⟨halpha, halphaCount⟩ :=
    hpy.prependFloat32 (py.prependFloat32 (py.prep b 4 12) beta) alpha
  rw [(hpy.prep_aligned halignedBeta (Nat.dvd_zero 4)).1, hbeta] at halpha
  have halignedAlpha : 4 ∣
      (py.bytes (py.prependFloat32 (py.prependFloat32 (py.prep b 4 12) beta) alpha)).length := by
    rw [halpha, List.length_append, List.length_append, leBytes_length, leBytes_length]
    omega
  obtain ⟨hword, hwordCount⟩ := hpy.prependUint32
    (py.prependFloat32 (py.prependFloat32 (py.prep b 4 12) beta) alpha) idx hidx
  rw [(hpy.prep_aligned halignedAlpha (Nat.dvd_zero 4)).1, halpha] at hword
  refine ⟨?_, ?_⟩
  · rw [PyBuilder.createAlphaBetaPair, hword, AlphaBetaPair.toBytes,
      UInt32.toNat_ofNat_of_lt' hidx]
    simp only [List.append_assoc]
  · rw [PyBuilder.createAlphaBetaPair, hwordCount, halphaCount, hbetaCount, hprepCount]

/-- The structs prepended in reverse stand in their own order. -/
theorem Documented.foldl_createAlphaBetaPair (hpy : py.Documented)
    (pairs : List (Nat × Binary32 × Binary32)) {b : B} (haligned : 4 ∣ (py.bytes b).length)
    (hpairs : ∀ pair ∈ pairs, pair.1 < 2 ^ 32) :
    py.bytes (pairs.reverse.foldl
        (fun b (idx, alpha, beta) => py.createAlphaBetaPair b idx alpha beta) b) =
        (pairs.map fun (idx, alpha, beta) =>
          AlphaBetaPair.mk (UInt32.ofNat idx) alpha beta).flatMap AlphaBetaPair.toBytes ++
            py.bytes b ∧
      py.vectorNumElems (pairs.reverse.foldl
        (fun b (idx, alpha, beta) => py.createAlphaBetaPair b idx alpha beta) b) =
          py.vectorNumElems b := by
  rw [List.foldl_reverse]
  induction pairs with
  | nil => exact ⟨rfl, rfl⟩
  | cons pair rest ih =>
      obtain ⟨hbytes, hcount⟩ := ih fun other hother => hpairs other (List.mem_cons_of_mem _ hother)
      have hlength : ((rest.map fun (idx, alpha, beta) =>
          AlphaBetaPair.mk (UInt32.ofNat idx) alpha beta).flatMap AlphaBetaPair.toBytes).length =
            12 * (rest.map _).length :=
        StoredAt.length_flatMap fun other _ => other.toBytes_length
      rw [List.foldr_cons]
      generalize List.foldr _ b rest = built at hbytes hcount ⊢
      have hbuilt : 4 ∣ (py.bytes built).length := by
        rw [hbytes, List.length_append, hlength]
        omega
      obtain ⟨hfirst, hfirstCount⟩ :=
        @Documented.createAlphaBetaPair _ _ hpy built pair.1 pair.2.1 pair.2.2 hbuilt
          (hpairs pair List.mem_cons_self)
      refine ⟨?_, hfirstCount.trans hcount⟩
      rw [hfirst, hbytes, List.map_cons, List.flatMap_cons, List.append_assoc]

/-- The vector of the Python client reads back as the grid, whatever is written
in front of it afterwards. -/
theorem Documented.buildPairs (hpy : py.Documented) {alphas betas : List Binary32}
    (hfits : alphas.length * betas.length < 2 ^ 32) (front : Bytes) :
    IsGrid alphas betas (AlphaBetaPair.readVector (front ++ py.bytes (py.buildPairs alphas betas))
      (some front.length)) := by
  obtain ⟨pairs, hpairs⟩ : ∃ pairs, pairs = gridLoop (· + 1) (0 : Nat) alphas betas := ⟨_, rfl⟩
  obtain ⟨structs, hstructs⟩ : ∃ structs, structs =
    pairs.map fun (idx, alpha, beta) => AlphaBetaPair.mk (UInt32.ofNat idx) alpha beta := ⟨_, rfl⟩
  have hcount (k : Nat) : (fun idx => idx + 1)^[k] 0 = k := by
    induction k with
    | zero => rfl
    | succ k ih => rw [Function.iterate_succ_apply', ih]
  have hgrid : IsGrid alphas betas structs := by
    rw [hstructs, hpairs, gridLoop_eq]
    refine @isGrid_numbered _ _ _ _ _ UInt32.ofNat fun k hk => ?_
    rw [hcount, UInt32.toNat_ofNat_of_lt' (hk.trans hfits)]
  have hlength : structs.length = pairs.length := by rw [hstructs, List.length_map]
  have hsmall : pairs.length < 256 ^ 4 := by
    rw [← hlength, hgrid.length_eq]
    exact hfits
  have hidx : ∀ pair ∈ pairs, pair.1 < 2 ^ 32 := by
    intro pair hpair
    rw [hpairs, gridLoop_eq, numbered, List.mem_mapIdx] at hpair
    obtain ⟨k, hk, rfl⟩ := hpair
    rw [List.length_product] at hk
    simp only [hcount]
    omega
  -- The number of structs, the structs, then the padding in front of nothing.
  obtain ⟨⟨pad, hstart⟩, haligned, hnumElems⟩ := hpy.startVector py.new 12 pairs.length
  obtain ⟨hbody, hsame⟩ := hpy.foldl_createAlphaBetaPair pairs
    (show 4 ∣ (py.bytes (py.startVector py.new 12 pairs.length 4)).length by omega) hidx
  have hbytes : py.bytes (py.buildPairs alphas betas) =
      (leBytes 4 structs.length ++ structs.flatMap AlphaBetaPair.toBytes) ++
        py.bytes (py.startVector py.new 12 pairs.length 4) := by
    rw [PyBuilder.buildPairs, ← hpairs, hpy.endVector, hsame, hnumElems, hbody, hlength, ← hstructs,
      List.append_assoc]
  have hstored := (StoredAt.of_append
    (leBytes 4 structs.length ++ structs.flatMap AlphaBetaPair.toBytes)
    (py.bytes (py.startVector py.new 12 pairs.length 4))).push front
  rw [← hbytes] at hstored
  have haddress : (front ++ py.bytes (py.buildPairs alphas betas)).length -
      (py.bytes (py.buildPairs alphas betas)).length = front.length := by
    rw [List.length_append, Nat.add_sub_cancel]
  have hsize := hstored.left.readScalar
  rw [hlength, Nat.mod_eq_of_lt hsmall, ← hlength] at hsize
  have hread := AlphaBetaPair.readVector_eq hstored hsize
  rw [haddress] at hread
  rwa [hread]

/-- A builder that keeps its bytes and the number of elements. -/
def sample : PyBuilder (Bytes × Nat) where
  new := ([], 0)
  startVector b elemSize numElems alignment :=
    (List.replicate (paddingBytes (b.1.length + elemSize * numElems) (max 4 alignment)) 0 ++ b.1,
      numElems)
  prep b size additionalBytes :=
    (List.replicate (paddingBytes (b.1.length + additionalBytes) size) 0 ++ b.1, b.2)
  prependFloat32 b value :=
    (leBytes 4 value.bits.toNat ++ (List.replicate (paddingBytes b.1.length 4) 0 ++ b.1), b.2)
  prependUint32 b value :=
    (leBytes 4 value ++ (List.replicate (paddingBytes b.1.length 4) 0 ++ b.1), b.2)
  endVector b := (leBytes 4 b.2 ++ b.1, b.2)
  bytes b := b.1
  vectorNumElems b := b.2

theorem sample_documented : sample.Documented where
  new := rfl
  startVector b elemSize numElems := by
    refine ⟨⟨_, rfl⟩, ?_, rfl⟩
    have hdvd := @dvd_add_paddingBytes 4 (b.1.length + elemSize * numElems) (by decide)
    change 4 ∣ (List.replicate (paddingBytes (b.1.length + elemSize * numElems) 4) 0 ++
      b.1).length + elemSize * numElems
    rw [List.length_append, List.length_replicate]
    omega
  prep b additionalBytes := by
    refine ⟨⟨_, @paddingBytes_lt 4 _ (by decide), rfl⟩, ?_, rfl⟩
    have hdvd := @dvd_add_paddingBytes 4 (b.1.length + additionalBytes) (by decide)
    change 4 ∣ (List.replicate (paddingBytes (b.1.length + additionalBytes) 4) 0 ++
      b.1).length + additionalBytes
    rw [List.length_append, List.length_replicate]
    omega
  prependFloat32 b value := ⟨rfl, rfl⟩
  prependUint32 b value _ := ⟨rfl, rfl⟩
  endVector b := rfl

end PyBuilder

end RangePricer
