import Mathlib.Data.Nat.ModEq

/-!
# The lowest bit at which two numbers differ

Addition, exclusive or and truncation carry a difference upwards only, so the
lowest bit at which two numbers differ stays where it is while both are combined
with the same low bits.  A shift to the right moves it down.
-/

namespace LowestBit

variable {p w a b x y : Nat}

/-- `a` and `b` agree below bit `p` and differ at it. -/
structure DifferAt (p a b : Nat) : Prop where
  modEq : a ≡ b [MOD 2 ^ p]
  not_modEq : ¬ a ≡ b [MOD 2 ^ (p + 1)]

instance (p a b : Nat) : Decidable (DifferAt p a b) :=
  decidable_of_iff (a ≡ b [MOD 2 ^ p] ∧ ¬ a ≡ b [MOD 2 ^ (p + 1)])
    ⟨fun h => ⟨h.1, h.2⟩, fun h => ⟨h.modEq, h.not_modEq⟩⟩

theorem modEq_of_le (hle : p ≤ w) (hxy : x ≡ y [MOD 2 ^ w]) : x ≡ y [MOD 2 ^ p] :=
  hxy.of_dvd (Nat.pow_dvd_pow 2 hle)

theorem xor_modEq (hxy : x ≡ y [MOD 2 ^ p]) (hab : a ≡ b [MOD 2 ^ p]) :
    x ^^^ a ≡ y ^^^ b [MOD 2 ^ p] := by
  rw [Nat.ModEq, Nat.xor_mod_two_pow, Nat.xor_mod_two_pow, hxy, hab]

/-- Exclusive or with equal low bits can be undone. -/
theorem modEq_of_xor (hxy : x ≡ y [MOD 2 ^ p]) (hxor : x ^^^ a ≡ y ^^^ b [MOD 2 ^ p]) :
    a ≡ b [MOD 2 ^ p] := by
  have hboth := xor_modEq hxy hxor
  rwa [← Nat.xor_assoc, Nat.xor_self, Nat.zero_xor, ← Nat.xor_assoc, Nat.xor_self,
    Nat.zero_xor] at hboth

namespace DifferAt

variable (hdiffer : DifferAt p a b)

include hdiffer

theorem ne : a ≠ b := by
  rintro rfl
  exact hdiffer.not_modEq rfl

theorem symm : DifferAt p b a :=
  ⟨hdiffer.modEq.symm, fun h => hdiffer.not_modEq h.symm⟩

theorem add (hxy : x ≡ y [MOD 2 ^ (p + 1)]) : DifferAt p (x + a) (y + b) where
  modEq := (modEq_of_le (Nat.le_succ p) hxy).add hdiffer.modEq
  not_modEq hsum := hdiffer.not_modEq (Nat.ModEq.add_left_cancel hxy hsum)

theorem xor (hxy : x ≡ y [MOD 2 ^ (p + 1)]) : DifferAt p (x ^^^ a) (y ^^^ b) where
  modEq := xor_modEq (modEq_of_le (Nat.le_succ p) hxy) hdiffer.modEq
  not_modEq hxor := hdiffer.not_modEq (modEq_of_xor hxy hxor)

/-- Truncation to more than `p` bits. -/
theorem truncate (hp : p < w) : DifferAt p (a % 2 ^ w) (b % 2 ^ w) where
  modEq := (modEq_of_le hp.le (Nat.mod_modEq a _)).trans
    (hdiffer.modEq.trans (modEq_of_le hp.le (Nat.mod_modEq b _)).symm)
  not_modEq htruncated := hdiffer.not_modEq
    ((modEq_of_le hp (Nat.mod_modEq a _)).symm.trans
      (htruncated.trans (modEq_of_le hp (Nat.mod_modEq b _))))

end DifferAt

/-- A shift to the right by `w` moves the difference down by `w`. -/
theorem DifferAt.shiftRight (hdiffer : DifferAt (p + w) a b) : DifferAt p (a >>> w) (b >>> w) := by
  have hquotient (x k : Nat) : (x / 2 ^ w) % 2 ^ k = x % 2 ^ (k + w) / 2 ^ w := by
    rw [Nat.add_comm k w, Nat.pow_add, Nat.mod_mul_right_div_self]
  rw [Nat.shiftRight_eq_div_pow, Nat.shiftRight_eq_div_pow]
  constructor
  · rw [Nat.ModEq, hquotient, hquotient, hdiffer.modEq]
  · intro hshifted
    apply hdiffer.not_modEq
    -- The bits below `w` agree as well.
    have hlow := modEq_of_le (Nat.le_add_left w p) hdiffer.modEq
    rw [Nat.ModEq, hquotient, hquotient] at hshifted
    have hsame (x : Nat) : x % 2 ^ (p + 1 + w) % 2 ^ w = x % 2 ^ w :=
      Nat.mod_mod_of_dvd _ (Nat.pow_dvd_pow 2 (Nat.le_add_left _ _))
    rw [Nat.add_right_comm, Nat.ModEq, ← Nat.div_add_mod (a % 2 ^ (p + 1 + w)) (2 ^ w),
      ← Nat.div_add_mod (b % 2 ^ (p + 1 + w)) (2 ^ w), hshifted, hsame, hsame, hlow]

/-- A shift to the left keeps what agrees. -/
theorem shiftLeft_modEq (hab : a ≡ b [MOD 2 ^ p]) (w : Nat) :
    a <<< w ≡ b <<< w [MOD 2 ^ (p + w)] := by
  rw [Nat.shiftLeft_eq, Nat.shiftLeft_eq, Nat.pow_add]
  exact hab.mul_right' _

/-- Numbers that differ within `w` bits have a lowest bit at which they do. -/
theorem exists_differAt (hne : ¬ a ≡ b [MOD 2 ^ w]) : ∃ p < w, DifferAt p a b := by
  induction w with
  | zero => exact absurd (Nat.modEq_one) hne
  | succ w ih =>
      by_cases hlow : a ≡ b [MOD 2 ^ w]
      · exact ⟨w, Nat.lt_succ_self w, hlow, hne⟩
      · obtain ⟨p, hp, hdiffer⟩ := ih hlow
        exact ⟨p, Nat.lt_succ_of_lt hp, hdiffer⟩

end LowestBit
