import Mathlib.Logic.Basic

/-!
# Binary32 bit patterns

The wire carries `float` fields as 32-bit patterns and the server only compares
them with zero, copies them and negates one of them.  A float is therefore its
pattern; arithmetic that the code delegates to the hardware stays a parameter of
the modules that need it.
-/

namespace RangePricer

/-- The bit pattern of an IEEE-754 binary32 value. -/
structure Binary32 where
  bits : UInt32
  deriving DecidableEq, Repr

namespace Binary32

/-- The pattern of `0.0f`. -/
def zero : Binary32 := ⟨0⟩

/-- The pattern of `-0.0f`. -/
def negZero : Binary32 := ⟨0x80000000⟩

instance : Inhabited Binary32 := ⟨zero⟩

/-- The pattern without its sign bit. -/
def magnitude (x : Binary32) : UInt32 := x.bits &&& 0x7fffffff

def signBit (x : Binary32) : Bool := x.bits >>> 31 == 1

def isNaN (x : Binary32) : Bool := decide (0x7f800000 < x.magnitude)

/-- The comparison `x == 0.0f`, true of both zeros. -/
def isZero (x : Binary32) : Bool := x.magnitude == 0

/-- The comparison `x <= 0`, false whenever `x` is unordered. -/
def leZero (x : Binary32) : Bool := !x.isNaN && (x.isZero || x.signBit)

/-- The comparison `0 < x`, false whenever `x` is unordered. -/
def positive (x : Binary32) : Bool := !x.isNaN && !x.isZero && !x.signBit

/-- Sign flip, as `-x` and `hn::Neg` perform it. -/
def neg (x : Binary32) : Binary32 := ⟨x.bits ^^^ 0x80000000⟩

/-- Forget the sign of a zero. -/
def unsignedZero (x : Binary32) : Binary32 := if x.isZero then zero else x

/-- Equality of patterns with the two zeros identified. -/
def Agrees (x y : Binary32) : Prop := x.unsignedZero = y.unsignedZero

instance (x y : Binary32) : Decidable (x.Agrees y) :=
  inferInstanceAs (Decidable (_ = _))

@[simp]
theorem isZero_zero : zero.isZero = true := by decide

@[simp]
theorem unsignedZero_zero : zero.unsignedZero = zero := by decide

@[simp]
theorem unsignedZero_idem (x : Binary32) :
    x.unsignedZero.unsignedZero = x.unsignedZero := by
  by_cases hzero : x.isZero
  · simp [unsignedZero, hzero]
  · simp [unsignedZero, hzero]

@[simp]
theorem isZero_unsignedZero (x : Binary32) : x.unsignedZero.isZero = x.isZero := by
  by_cases hzero : x.isZero
  · simp [unsignedZero, hzero]
  · simp [unsignedZero, hzero]

@[refl]
theorem Agrees.refl (x : Binary32) : x.Agrees x := rfl

theorem Agrees.symm {x y : Binary32} (h : x.Agrees y) : y.Agrees x := Eq.symm h

theorem Agrees.trans {x y z : Binary32} (hxy : x.Agrees y) (hyz : y.Agrees z) :
    x.Agrees z :=
  Eq.trans hxy hyz

/-- Dropping the sign of a zero changes nothing that the wire can distinguish. -/
@[simp]
theorem unsignedZero_agrees (x : Binary32) : x.unsignedZero.Agrees x :=
  unsignedZero_idem x

theorem leZero_unsignedZero (x : Binary32) : x.unsignedZero.leZero = x.leZero := by
  by_cases hzero : x.isZero
  · have hmagnitude : x.magnitude = 0 := by simpa [isZero] using hzero
    have hnan : x.isNaN = false := by simp [isNaN, hmagnitude]
    have hright : x.leZero = true := by simp [leZero, hnan, hzero]
    rw [unsignedZero, if_pos hzero, hright]
    decide
  · simp [unsignedZero, hzero]

/-- What is not compared below zero is positive or unordered. -/
theorem leZero_eq_false (x : Binary32) :
    x.leZero = false ↔ x.isNaN = true ∨ x.positive = true := by
  cases hnan : x.isNaN <;> cases hzero : x.isZero <;> cases hsign : x.signBit <;>
    simp [leZero, positive, hnan, hzero, hsign]

theorem isNaN_of_positive {x : Binary32} (hpositive : x.positive = true) : x.isNaN = false := by
  cases hnan : x.isNaN with
  | false => rfl
  | true => simp [positive, hnan] at hpositive

end Binary32

end RangePricer
