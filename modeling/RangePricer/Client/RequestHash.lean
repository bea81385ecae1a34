import RangePricer.Arithmetic.LowestBit
import RangePricer.Binary32

/-!
# The request hash

Both clients fold the five parameters of a request into a 64-bit word, the C++
client with wrapping arithmetic over `std::hash<float>`, the Python client with
integers that are masked once for each step over the bit patterns.  A step keeps
the lowest bit at which two hashes differ and moves the one at which two seeds
differ down by two, so that a difference survives as long as it is high enough.
-/

namespace RangePricer

open LowestBit

/-! ## The two implementations -/

/-- `std::hash<float>`: equal keys have equal hashes, and any key but the two
zeros has its bit pattern for a hash. -/
structure StdHash where
  run : Binary32 → UInt64
  zeros : run Binary32.negZero = run Binary32.zero
  pattern : ∀ x : Binary32, x.isZero = false → run x = x.bits.toUInt64

/-- `hash_combine` of the C++ client, over any hash of a float. -/
def hashCombine (hash : Binary32 → UInt64) (seed : UInt64) (v : Binary32) : UInt64 :=
  seed ^^^ (hash v + 0x9e3779b9 + (seed <<< (6 : UInt64)) + (seed >>> (2 : UInt64)))

/-- `request_hash` as the C++ client derives it. -/
def clientRequestHash (hash : Binary32 → UInt64)
    (stockPrice strikePrice interestRate timeToMaturity stockDiscretization : Binary32) : UInt64 :=
  let h := 0
  let h := hashCombine hash h stockPrice
  let h := hashCombine hash h strikePrice
  let h := hashCombine hash h interestRate
  let h := hashCombine hash h timeToMaturity
  hashCombine hash h stockDiscretization

/-- `_hash_combine` of the Python client, on unbounded integers. -/
def pyHashCombine (seed : Nat) (v : Binary32) : Nat :=
  (seed ^^^ (v.bits.toNat + 0x9e3779b9 + (seed <<< 6) + (seed >>> 2))) &&& 0xFFFFFFFFFFFFFFFF

/-- `compute_request_hash`. -/
def computeRequestHash
    (stockPrice strikePrice interestRate timeToMaturity stockDiscretization : Binary32) : Nat :=
  [stockPrice, strikePrice, interestRate, timeToMaturity, stockDiscretization].foldl
    pyHashCombine 0

/-! ## One step -/

/-- A mixing step, on a seed and a hash. -/
def mix (seed h : Nat) : Nat :=
  (seed ^^^ (h + 0x9e3779b9 + (seed <<< 6) + (seed >>> 2))) % 2 ^ 64

/-- The step of the C++ client on a hash: the shift and each addition wrap. -/
def wrappingMix (seed h : UInt64) : UInt64 :=
  seed ^^^ (h + 0x9e3779b9 + (seed <<< (6 : UInt64)) + (seed >>> (2 : UInt64)))

/-- The step of the Python client on a hash: nothing is lost before the mask. -/
def maskedMix (seed h : Nat) : Nat :=
  (seed ^^^ (h + 0x9e3779b9 + (seed <<< 6) + (seed >>> 2))) &&& 0xFFFFFFFFFFFFFFFF

theorem maskedMix_eq (seed h : Nat) : maskedMix seed h = mix seed h :=
  Nat.and_two_pow_sub_one_eq_mod _ 64

/-- Wrapping in every operation is truncating once. -/
theorem toNat_wrappingMix (seed h : UInt64) :
    (wrappingMix seed h).toNat = mix seed.toNat h.toNat := by
  have hseed : seed.toNat % 2 ^ 64 = seed.toNat := Nat.mod_eq_of_lt seed.toNat_lt
  rw [wrappingMix, mix, UInt64.toNat_xor, Nat.xor_mod_two_pow, hseed, UInt64.toNat_add,
    UInt64.toNat_add, UInt64.toNat_add, UInt64.toNat_shiftLeft, UInt64.toNat_shiftRight]
  simp only [Nat.mod_add_mod, Nat.add_mod_mod]
  rfl

theorem pyHashCombine_eq (seed : Nat) (v : Binary32) :
    pyHashCombine seed v = mix seed v.bits.toNat :=
  maskedMix_eq seed v.bits.toNat

theorem toNat_hashCombine (hash : Binary32 → UInt64) (seed : UInt64) (v : Binary32) :
    (hashCombine hash seed v).toNat = mix seed.toNat (hash v).toNat :=
  toNat_wrappingMix seed (hash v)

/-! ## Step by step -/

/-- Started alike, the two clients hold the same seed after every step. -/
theorem scanl_maskedMix (hashes : List UInt64) (seed : UInt64) :
    (hashes.map UInt64.toNat).scanl maskedMix seed.toNat =
      (hashes.scanl wrappingMix seed).map UInt64.toNat := by
  induction hashes generalizing seed with
  | nil => rfl
  | cons h rest ih =>
      have hstep : maskedMix seed.toNat h.toNat = (wrappingMix seed h).toNat := by
        rw [maskedMix_eq, toNat_wrappingMix]
      rw [List.map_cons, List.scanl_cons, List.scanl_cons, List.map_cons, hstep, ih]

/-- Masked integers and wrapping words agree at every step over 32-bit hashes,
and the mask keeps every seed within a word. -/
theorem masked_mixing_wraps (hashes : List UInt32) :
    (hashes.map UInt32.toNat).scanl maskedMix 0 =
        ((hashes.map UInt32.toUInt64).scanl wrappingMix 0).map UInt64.toNat ∧
      ∀ seed ∈ (hashes.map UInt32.toNat).scanl maskedMix 0, seed < 2 ^ 64 := by
  have hpatterns : hashes.map UInt32.toNat = (hashes.map UInt32.toUInt64).map UInt64.toNat := by
    rw [List.map_map]
    apply List.map_congr_left
    intro h _
    exact (UInt32.toNat_toUInt64 h).symm
  have hsteps := scanl_maskedMix (hashes.map UInt32.toUInt64) 0
  rw [hpatterns]
  refine ⟨hsteps, ?_⟩
  intro seed hseed
  obtain ⟨word, -, rfl⟩ := List.mem_map.mp (hsteps ▸ hseed)
  exact word.toNat_lt

/-! ## Differences -/

variable {p q : Nat} {seed seed' h h' : Nat}

/-- A difference between the hashes stays at its bit. -/
theorem mix_differAt_hash (hdiffer : DifferAt q h h') (hq : q < 64) :
    DifferAt q (mix seed h) (mix seed h') := by
  have hrotate (x : Nat) : x + 0x9e3779b9 + (seed <<< 6) + (seed >>> 2) =
      0x9e3779b9 + (seed <<< 6) + (seed >>> 2) + x := by omega
  rw [mix, mix, hrotate h, hrotate h']
  exact ((hdiffer.add rfl).xor rfl).truncate hq

/-- A difference between the seeds moves down by two bits. -/
theorem mix_differAt_seed (hdiffer : DifferAt (p + 2) seed seed') (hp : p < 64)
    (hhash : h ≡ h' [MOD 2 ^ (p + 1)]) : DifferAt p (mix seed h) (mix seed' h') := by
  have hseed : seed ≡ seed' [MOD 2 ^ (p + 1)] := modEq_of_le (Nat.le_succ _) hdiffer.modEq
  have hshifted : seed <<< 6 ≡ seed' <<< 6 [MOD 2 ^ (p + 1)] :=
    modEq_of_le (by omega) (shiftLeft_modEq hdiffer.modEq 6)
  have hsum := (hhash.add_right 0x9e3779b9).add hshifted
  exact ((hdiffer.shiftRight.add hsum).xor hseed).truncate hp

/-! ## The whole fold -/

/-- Two folds, side by side. -/
def foldBoth (pairs : List (Nat × Nat)) (seeds : Nat × Nat) : Nat × Nat :=
  pairs.foldl (fun seeds hashes => (mix seeds.1 hashes.1, mix seeds.2 hashes.2)) seeds

theorem foldBoth_eq (pairs : List (Nat × Nat)) (seeds : Nat × Nat) :
    foldBoth pairs seeds =
      ((pairs.map Prod.fst).foldl mix seeds.1, (pairs.map Prod.snd).foldl mix seeds.2) := by
  induction pairs generalizing seeds with
  | nil => rfl
  | cons pair rest ih => exact ih _

/-- A difference between the seeds survives as many steps as it has room for. -/
theorem foldBoth_differAt (pairs : List (Nat × Nat)) {seeds : Nat × Nat}
    (hdiffer : DifferAt (p + 2 * pairs.length) seeds.1 seeds.2) (hhigh : p + 2 * pairs.length < 64)
    (hpairs : ∀ pair ∈ pairs, pair.1 ≡ pair.2 [MOD 2 ^ (p + 2 * pairs.length - 1)]) :
    DifferAt p (foldBoth pairs seeds).1 (foldBoth pairs seeds).2 := by
  induction pairs generalizing seeds with
  | nil => exact hdiffer
  | cons pair rest ih =>
      rw [List.length_cons] at hdiffer hhigh hpairs
      have hroom : p + 2 * (rest.length + 1) = p + 2 * rest.length + 2 := by omega
      rw [hroom] at hdiffer hhigh hpairs
      have hstep := mix_differAt_seed hdiffer (by omega) (hpairs pair List.mem_cons_self)
      apply ih hstep (by omega)
      intro other hother
      exact modEq_of_le (by omega) (hpairs other (List.mem_cons_of_mem _ hother))

/-- A difference at one position survives the steps behind it. -/
theorem foldl_mix_ne (front back : List Nat) (hdiffer : DifferAt q h h') (hq : q < 64)
    (hback : 2 * back.length ≤ q) (seed : Nat) :
    (front ++ h :: back).foldl mix seed ≠ (front ++ h' :: back).foldl mix seed := by
  have hstart := @mix_differAt_hash q (front.foldl mix seed) h h' hdiffer hq
  have hroom : q - 2 * back.length + 2 * (back.map fun x => (x, x)).length = q := by
    rw [List.length_map]
    omega
  rw [← hroom] at hstart
  have hend := @foldBoth_differAt _ (back.map fun x => (x, x)) (_, _) hstart (by omega) ?_
  · rw [foldBoth_eq] at hend
    simp only [List.map_map, Function.comp_def, List.map_id'] at hend
    rw [List.foldl_append, List.foldl_append]
    exact hend.ne
  · intro pair hpair
    obtain ⟨x, -, rfl⟩ := List.mem_map.mp hpair
    rfl

/-! ## Where the clients agree -/

/-- Hashes that are equal or differ at bit 31 first, as those of the zeros do. -/
def EqualOrSign (pair : Nat × Nat) : Prop := pair.1 = pair.2 ∨ DifferAt 31 pair.1 pair.2

theorem EqualOrSign.modEq {pair : Nat × Nat} (hpair : EqualOrSign pair) :
    pair.1 ≡ pair.2 [MOD 2 ^ 31] := by
  rcases hpair with hequal | hdiffer
  · rw [hequal]
  · exact hdiffer.modEq

/-- Over a few such hashes two folds agree only if all hashes do. -/
theorem foldBoth_eq_iff {pairs : List (Nat × Nat)} (hpairs : ∀ pair ∈ pairs, EqualOrSign pair)
    (hfew : pairs.length ≤ 16) (seed : Nat) :
    (foldBoth pairs (seed, seed)).1 = (foldBoth pairs (seed, seed)).2 ↔
      ∀ pair ∈ pairs, pair.1 = pair.2 := by
  induction pairs generalizing seed with
  | nil => exact ⟨fun _ pair hpair => absurd hpair List.not_mem_nil, fun _ => rfl⟩
  | cons pair rest ih =>
      have hrest := fun other hother => hpairs other (List.mem_cons_of_mem _ hother)
      rw [List.length_cons] at hfew
      rw [List.forall_mem_cons]
      rcases hpairs pair List.mem_cons_self with hequal | hdiffer
      · have hstep : foldBoth (pair :: rest) (seed, seed) =
            foldBoth rest (mix seed pair.1, mix seed pair.1) := by
          rw [foldBoth, List.foldl_cons, hequal]
          rfl
        rw [hstep, ih hrest (by omega)]
        exact ⟨fun hall => ⟨hequal, hall⟩, fun hall => hall.2⟩
      · have hroom : 31 - 2 * rest.length + 2 * rest.length = 31 := by omega
        have hstart := @mix_differAt_hash 31 seed _ _ hdiffer (by decide)
        rw [← hroom] at hstart
        have hend := @foldBoth_differAt _ rest (mix seed pair.1, mix seed pair.2) hstart (by omega)
          fun other hother => modEq_of_le (by omega) (hrest other hother).modEq
        exact ⟨fun hsame => absurd hsame hend.ne, fun hall => absurd hall.1 hdiffer.ne⟩

/-- What the two clients hash for each parameter. -/
def hashPairs (hash : StdHash) (params : List Binary32) : List (Nat × Nat) :=
  params.map fun v => ((hash.run v).toNat, v.bits.toNat)

theorem toNat_foldl_hashCombine (hash : Binary32 → UInt64) (params : List Binary32)
    (seed : UInt64) :
    (params.foldl (hashCombine hash) seed).toNat =
      (params.map fun v => (hash v).toNat).foldl mix seed.toNat := by
  induction params generalizing seed with
  | nil => rfl
  | cons v rest ih => rw [List.foldl_cons, List.map_cons, List.foldl_cons, ih, toNat_hashCombine]

theorem foldl_pyHashCombine (params : List Binary32) (seed : Nat) :
    params.foldl pyHashCombine seed = (params.map fun v => v.bits.toNat).foldl mix seed := by
  induction params generalizing seed with
  | nil => rfl
  | cons v rest ih => rw [List.foldl_cons, List.map_cons, List.foldl_cons, ih, pyHashCombine_eq]

section

variable {S K r T ds : Binary32}

/-- The two clients derive the same number. -/
def HashesAgree (hash : StdHash) (S K r T ds : Binary32) : Prop :=
  (clientRequestHash hash.run S K r T ds).toNat = computeRequestHash S K r T ds

instance (hash : StdHash) (S K r T ds : Binary32) : Decidable (HashesAgree hash S K r T ds) :=
  inferInstanceAs (Decidable (_ = _))

theorem zero_or_negZero {x : Binary32} (hzero : x.isZero = true) :
    x = Binary32.zero ∨ x = Binary32.negZero := by
  have hmagnitude : x.magnitude = 0 := by simpa [Binary32.isZero] using hzero
  have hlow : x.bits.toNat % 2 ^ 31 = 0 := by
    have hmasked := congrArg UInt32.toNat hmagnitude
    rw [Binary32.magnitude, UInt32.toNat_and] at hmasked
    exact (Nat.and_two_pow_sub_one_eq_mod _ 31).symm.trans hmasked
  have hlt := x.bits.toNat_lt
  have hcases : x.bits.toNat = 0 ∨ x.bits.toNat = 2 ^ 31 := by omega
  rcases hcases with hnat | hnat
  · exact .inl (congrArg Binary32.mk (UInt32.toNat_inj.mp hnat))
  · exact .inr (congrArg Binary32.mk (UInt32.toNat_inj.mp hnat))

namespace StdHash

variable {hash : StdHash} {v : Binary32}

theorem toNat_pattern (hnonzero : v.isZero = false) : (hash.run v).toNat = v.bits.toNat := by
  rw [hash.pattern v hnonzero, UInt32.toNat_toUInt64]

/-- A hash that maps the zeros to the pattern of one of them. -/
theorem equalOrSign
    (hzero : hash.run Binary32.zero = 0 ∨ hash.run Binary32.zero = 0x80000000) (v : Binary32) :
    EqualOrSign ((hash.run v).toNat, v.bits.toNat) := by
  cases hv : v.isZero with
  | false => exact .inl (toNat_pattern hv)
  | true =>
      rcases zero_or_negZero hv with rfl | rfl
      · rcases hzero with hrun | hrun
        · exact .inl (by rw [hrun]; rfl)
        · exact .inr (by rw [hrun]; decide)
      · rw [hash.zeros]
        rcases hzero with hrun | hrun
        · exact .inr (by rw [hrun]; decide)
        · exact .inl (by rw [hrun]; rfl)

theorem hashesAgree_of_same
    (hsame : ∀ v ∈ [S, K, r, T, ds], (hash.run v).toNat = v.bits.toNat) :
    HashesAgree hash S K r T ds := by
  have hclient := toNat_foldl_hashCombine hash.run [S, K, r, T, ds] 0
  have hpython := foldl_pyHashCombine [S, K, r, T, ds] 0
  rw [List.map_congr_left hsame] at hclient
  exact hclient.trans hpython.symm

/-- With such a hash the clients agree exactly if they hash every parameter alike. -/
theorem hashesAgree_iff
    (hzero : hash.run Binary32.zero = 0 ∨ hash.run Binary32.zero = 0x80000000) :
    HashesAgree hash S K r T ds ↔
      ∀ v ∈ [S, K, r, T, ds], (hash.run v).toNat = v.bits.toNat := by
  refine ⟨fun hagree => ?_, hashesAgree_of_same⟩
  have hpairs : ∀ pair ∈ hashPairs hash [S, K, r, T, ds], EqualOrSign pair := by
    intro pair hpair
    obtain ⟨v, -, rfl⟩ := List.mem_map.mp hpair
    exact equalOrSign hzero v
  have hboth := foldBoth_eq_iff hpairs (show 5 ≤ 16 by decide) 0
  rw [foldBoth_eq, hashPairs, List.map_map, List.map_map, List.forall_mem_map] at hboth
  have hclient := toNat_foldl_hashCombine hash.run [S, K, r, T, ds] 0
  have hpython := foldl_pyHashCombine [S, K, r, T, ds] 0
  exact hboth.mp (hclient.symm.trans (hagree.trans hpython))

/-- The hash that maps the zeros to `word`. -/
def withZero (word : UInt64) : StdHash where
  run x := if x.isZero then word else x.bits.toUInt64
  zeros := rfl
  pattern x hnonzero := by rw [hnonzero]; rfl

end StdHash

/-- The clients agree under every admissible hash exactly if no parameter is a
zero; under one that hashes zero to its pattern, exactly if none is `-0.0f`. -/
theorem request_hashes_agree_iff (S K r T ds : Binary32) :
    ((∀ hash : StdHash, HashesAgree hash S K r T ds) ↔
        ∀ v ∈ [S, K, r, T, ds], v.isZero = false) ∧
      ∀ hash : StdHash, hash.run Binary32.zero = 0 →
        (HashesAgree hash S K r T ds ↔ ∀ v ∈ [S, K, r, T, ds], v ≠ Binary32.negZero) := by
  refine ⟨⟨fun hagree v hv => ?_, fun hnonzero hash => ?_⟩, fun hash hzero => ?_⟩
  · by_contra hzero
    rcases zero_or_negZero (Bool.not_eq_false _ ▸ hzero) with rfl | rfl
    · have hall := (StdHash.hashesAgree_iff (.inr rfl)).mp (hagree (.withZero 0x80000000))
      exact absurd (hall _ hv) (by decide)
    · have hall := (StdHash.hashesAgree_iff (.inl rfl)).mp (hagree (.withZero 0))
      exact absurd (hall _ hv) (by decide)
  · exact StdHash.hashesAgree_of_same fun v hv => StdHash.toNat_pattern (hnonzero v hv)
  · rw [StdHash.hashesAgree_iff (.inl hzero)]
    refine forall₂_congr fun v _ => ?_
    cases hv : v.isZero with
    | false =>
        have hother : v ≠ Binary32.negZero := by
          rintro rfl
          revert hv
          decide
        exact iff_of_true (StdHash.toNat_pattern hv) hother
    | true =>
        rcases zero_or_negZero hv with rfl | rfl
        · exact iff_of_true (by rw [hzero]; rfl) (by decide)
        · refine iff_of_false ?_ fun hne => hne rfl
          rw [hash.zeros, hzero]
          decide

/-- A rate of `-0.0f` beside ordinary parameters. -/
theorem not_request_hashes_agree :
    ¬ ∀ (hash : StdHash) (S K r T ds : Binary32), HashesAgree hash S K r T ds := by
  intro hagree
  have hsample := hagree (.withZero 0) ⟨0x42c80000⟩ ⟨0x42c80000⟩ .negZero ⟨0x3f800000⟩ ⟨0x3c23d70a⟩
  revert hsample
  decide

end

/-! ## Neighbouring requests -/

/-- The five parameters, by position. -/
abbrev Parameters := Fin 5 → Binary32

def Parameters.requestHash (v : Parameters) : Nat :=
  computeRequestHash (v 0) (v 1) (v 2) (v 3) (v 4)

/-- The lowest bit at which two patterns differ. -/
def FirstDiffer (q : Nat) (x y : Binary32) : Prop := DifferAt q x.bits.toNat y.bits.toNat

instance (q : Nat) (x y : Binary32) : Decidable (FirstDiffer q x y) :=
  inferInstanceAs (Decidable (DifferAt _ _ _))

/-- Tuples that differ at position `i` only, and there from bit `q` on. -/
structure Neighbours (i : Fin 5) (q : Nat) (v v' : Parameters) : Prop where
  same : ∀ j, j ≠ i → v j = v' j
  differ : FirstDiffer q (v i) (v' i)

/-- The hashes that are folded, in order. -/
def Parameters.hashes (v : Parameters) : List Nat := List.ofFn fun i => (v i).bits.toNat

theorem Parameters.requestHash_eq (v : Parameters) : v.requestHash = v.hashes.foldl mix 0 := by
  have hhashes : v.hashes = [v 0, v 1, v 2, v 3, v 4].map fun x => x.bits.toNat := by
    simp [hashes, List.ofFn_succ]
  rw [requestHash, computeRequestHash, foldl_pyHashCombine, hhashes]

theorem Neighbours.hashes_eq {i : Fin 5} {v v' : Parameters}
    (hneighbours : Neighbours i q v v') :
    v.hashes = v.hashes.take i ++ (v i).bits.toNat :: v.hashes.drop (i + 1) ∧
      v'.hashes = v.hashes.take i ++ (v' i).bits.toNat :: v.hashes.drop (i + 1) := by
  have hlength : i.val < v.hashes.length := by
    rw [Parameters.hashes, List.length_ofFn]
    exact i.isLt
  have hset (x : Nat) : v.hashes.set i x = v.hashes.take i ++ x :: v.hashes.drop (i + 1) := by
    rw [List.set_eq_take_append_cons_drop, if_pos hlength]
  have hat (u : Parameters) (j : Nat) (hj : j < u.hashes.length) :
      u.hashes[j] = (u ⟨j, by rwa [Parameters.hashes, List.length_ofFn] at hj⟩).bits.toNat :=
    List.getElem_ofFn _
  refine ⟨?_, ?_⟩
  · have hself := List.set_getElem_self hlength
    rw [hat, hset] at hself
    exact hself.symm
  · rw [← hset]
    refine List.ext_getElem (by simp [Parameters.hashes]) fun j hj hj' => ?_
    rw [List.getElem_set, hat]
    split
    · next hhere => simp only [← hhere]
    · next helsewhere =>
        have hother : (⟨j, by rwa [Parameters.hashes, List.length_ofFn] at hj⟩ : Fin 5) ≠ i :=
          fun hsame => helsewhere (congrArg Fin.val hsame).symm
        rw [hat, ← hneighbours.same _ hother]

/-- A difference survives if it leaves two bits for every position behind it. -/
theorem Neighbours.requestHash_ne {i : Fin 5} {v v' : Parameters}
    (hneighbours : Neighbours i q v v') (hq : q < 64) (hroom : 2 * (4 - i.val) ≤ q) :
    v.requestHash ≠ v'.requestHash := by
  obtain ⟨hhashes, hhashes'⟩ := hneighbours.hashes_eq
  have hback : (v.hashes.drop (i + 1)).length = 4 - i.val := by
    rw [List.length_drop, Parameters.hashes, List.length_ofFn]
    omega
  rw [v.requestHash_eq, v'.requestHash_eq, hhashes, hhashes']
  exact foldl_mix_ne _ _ hneighbours.differ hq (by rwa [hback]) 0

theorem Neighbours.exists_of_ne {i : Fin 5} {v v' : Parameters} (hsame : ∀ j, j ≠ i → v j = v' j)
    (hne : v i ≠ v' i) : ∃ q < 32, Neighbours i q v v' := by
  have hbits : ¬ (v i).bits.toNat ≡ (v' i).bits.toNat [MOD 2 ^ 32] := by
    rw [Nat.ModEq, Nat.mod_eq_of_lt (v i).bits.toNat_lt, Nat.mod_eq_of_lt (v' i).bits.toNat_lt]
    exact fun hequal => hne (congrArg Binary32.mk (UInt32.toNat_inj.mp hequal))
  obtain ⟨q, hq, hdiffer⟩ := exists_differAt hbits
  exact ⟨q, hq, hsame, hdiffer⟩

/-- No position is behind the last one. -/
theorem requestHash_ne_of_last {v v' : Parameters} (hsame : ∀ j, j ≠ 4 → v j = v' j)
    (hne : v 4 ≠ v' 4) : v.requestHash ≠ v'.requestHash := by
  obtain ⟨q, hq, hneighbours⟩ := Neighbours.exists_of_ne hsame hne
  exact hneighbours.requestHash_ne (hq.trans (by decide)) (Nat.zero_le q)

/-! ## Collisions -/

def Parameters.tuple (S K r T ds : Binary32) : Parameters
  | 0 => S
  | 1 => K
  | 2 => r
  | 3 => T
  | 4 => ds

/-- Parameters, and another value for one of them, that differs from bit `bit`
on and leaves the hash as it is. -/
structure Collision where
  position : Fin 5
  bit : Nat
  (stockPrice strikePrice interestRate timeToMaturity stockDiscretization other : Binary32)

namespace Collision

def left (c : Collision) : Parameters :=
  .tuple c.stockPrice c.strikePrice c.interestRate c.timeToMaturity c.stockDiscretization

def right (c : Collision) : Parameters := Function.update c.left c.position c.other

/-- One collision for every bit that is too low for its position. -/
def all : List Collision :=
  [⟨0, 0, ⟨0x42ec63c6⟩, ⟨0xad8c4087⟩, ⟨0x3d4ccccd⟩, ⟨0x3f800000⟩, ⟨0x3c23d70a⟩, ⟨0x42ec63c7⟩⟩,
    ⟨0, 1, ⟨0x42d7f609⟩, ⟨0x22995d04⟩, ⟨0x3d4ccccd⟩, ⟨0x3f800000⟩, ⟨0x3c23d70a⟩, ⟨0x42d7f66f⟩⟩,
    ⟨0, 2, ⟨0x42e797be⟩, ⟨0x42c3eaba⟩, ⟨0xbb988964⟩, ⟨0x3f800000⟩, ⟨0x3c23d70a⟩, ⟨0x42e797ca⟩⟩,
    ⟨0, 3, ⟨0x42dbd1d4⟩, ⟨0x42d219a8⟩, ⟨0xb3fa06c9⟩, ⟨0x3f800000⟩, ⟨0x3c23d70a⟩, ⟨0x42dbd75c⟩⟩,
    ⟨0, 4, ⟨0x42cca015⟩, ⟨0x42fc514b⟩, ⟨0x3d4fc7e4⟩, ⟨0xc4a46f9c⟩, ⟨0x3c23d70a⟩, ⟨0x42cca0e5⟩⟩,
    ⟨0, 5, ⟨0x42ead3f1⟩, ⟨0x42ef2ffc⟩, ⟨0x3d46d26e⟩, ⟨0xac1e00dc⟩, ⟨0x3c23d70a⟩, ⟨0x42ead451⟩⟩,
    ⟨0, 6, ⟨0x42ce86fd⟩, ⟨0x42cc522e⟩, ⟨0x3d7e5dc7⟩, ⟨0x3f84f6a8⟩, ⟨0xb7793755⟩, ⟨0x42ce873d⟩⟩,
    ⟨0, 7, ⟨0x42f2feac⟩, ⟨0x42f43525⟩, ⟨0x3d53e8c2⟩, ⟨0x3fbdf987⟩, ⟨0xe0802faa⟩, ⟨0x42f2ff2c⟩⟩,
    ⟨1, 0, ⟨0x42daa259⟩, ⟨0x42ead3b2⟩, ⟨0x3a05b027⟩, ⟨0x3f800000⟩, ⟨0x3c23d70a⟩, ⟨0x42ead3d3⟩⟩,
    ⟨1, 1, ⟨0x42da0e37⟩, ⟨0x42fb0c4a⟩, ⟨0xe473c8c9⟩, ⟨0x3f800000⟩, ⟨0x3c23d70a⟩, ⟨0x42fb0c50⟩⟩,
    ⟨1, 2, ⟨0x42c89ba8⟩, ⟨0x42d41376⟩, ⟨0x3d5b3c52⟩, ⟨0xd95d47ba⟩, ⟨0x3c23d70a⟩, ⟨0x42d4137a⟩⟩,
    ⟨1, 3, ⟨0x42ea6448⟩, ⟨0x42c5af9f⟩, ⟨0x3d7efe4d⟩, ⟨0xb1489cdd⟩, ⟨0x3c23d70a⟩, ⟨0x42c5afa7⟩⟩,
    ⟨1, 4, ⟨0x42f3198f⟩, ⟨0x42f06105⟩, ⟨0x3d6ca0b1⟩, ⟨0x3faab3a4⟩, ⟨0xad540e80⟩, ⟨0x42f06b75⟩⟩,
    ⟨1, 5, ⟨0x42f69389⟩, ⟨0x42d16b66⟩, ⟨0x3d7ae023⟩, ⟨0x3faf3b37⟩, ⟨0x03e7c899⟩, ⟨0x42d16b86⟩⟩,
    ⟨2, 0, ⟨0x42cea8f8⟩, ⟨0x42ef9ba9⟩, ⟨0x3d5559c7⟩, ⟨0x1f721e87⟩, ⟨0x3c23d70a⟩, ⟨0x3d5559c8⟩⟩,
    ⟨2, 1, ⟨0x42c457ce⟩, ⟨0x42fdfce1⟩, ⟨0x3d77fd37⟩, ⟨0xf1b29cf8⟩, ⟨0x3c23d70a⟩, ⟨0x3d78028d⟩⟩,
    ⟨2, 2, ⟨0x42ddeab7⟩, ⟨0x42d50ca2⟩, ⟨0x3d43e311⟩, ⟨0x3fac5e3b⟩, ⟨0xc64af05b⟩, ⟨0x3d43e34d⟩⟩,
    ⟨2, 3, ⟨0x42dfe6c2⟩, ⟨0x42f6398f⟩, ⟨0x3d79c275⟩, ⟨0x3f87463c⟩, ⟨0x63678ed0⟩, ⟨0x3d79c3fd⟩⟩,
    ⟨3, 0, ⟨0x42c8d950⟩, ⟨0x42c00ce2⟩, ⟨0x3d6da8b6⟩, ⟨0x3fa24b26⟩, ⟨0xc8315837⟩, ⟨0x3fa24b27⟩⟩,
    ⟨3, 1, ⟨0x42fcf5cb⟩, ⟨0x42d58ee0⟩, ⟨0x3d714130⟩, ⟨0x3faba0a9⟩, ⟨0xd85c2cbc⟩, ⟨0x3faba14f⟩⟩]

theorem all_collide : ∀ c ∈ all, FirstDiffer c.bit (c.left c.position) c.other ∧
    c.left.requestHash = c.right.requestHash := by
  decide +kernel

theorem all_cover : ∀ (i : Fin 5) (q : Fin 32), q.val < 2 * (4 - i.val) →
    ∃ c ∈ all, c.position = i ∧ c.bit = q.val := by
  decide +kernel

theorem neighbours {c : Collision} (hc : c ∈ all) :
    Neighbours c.position c.bit c.left c.right where
  same j hj := (Function.update_of_ne hj _ _).symm
  differ := by
    rw [right, Function.update_self]
    exact (all_collide c hc).1

end Collision

/-- Requests that differ at one position are kept apart exactly by the bits that
leave room for the positions behind it. -/
theorem request_hash_separates_iff (i : Fin 5) (q : Fin 32) :
    (∀ v v' : Parameters, Neighbours i q v v' → v.requestHash ≠ v'.requestHash) ↔
      2 * (4 - i.val) ≤ q.val := by
  constructor
  · intro hseparates
    by_contra hlow
    obtain ⟨c, hc, rfl, hbit⟩ := Collision.all_cover i q (Nat.lt_of_not_le hlow)
    exact hseparates c.left c.right (hbit ▸ Collision.neighbours hc) (Collision.all_collide c hc).2
  · intro hroom v v' hneighbours
    exact hneighbours.requestHash_ne (q.isLt.trans (by decide)) hroom

/-- Two maturities that are neighbouring floats. -/
theorem not_request_hash_separates :
    ¬ ∀ v v' : Parameters, (∃! i, v i ≠ v' i) → v.requestHash ≠ v'.requestHash := by
  intro hseparates
  refine hseparates
    (.tuple ⟨0x42e80000⟩ ⟨0x42d00000⟩ ⟨0x3e051eb8⟩ ⟨0x3fdfc8b9⟩ ⟨0x3c02ca67⟩)
    (.tuple ⟨0x42e80000⟩ ⟨0x42d00000⟩ ⟨0x3e051eb8⟩ ⟨0x3fdfc8ba⟩ ⟨0x3c02ca67⟩)
    ⟨3, ?_, ?_⟩ ?_
  all_goals decide +kernel

end RangePricer
