import Mathlib.Control.Monad.Basic
import RangePricer.FlatBuffers.Table

/-!
# Reads that have to stay inside the buffer

The accessors and the verifier once more, in the order in which the code
evaluates them and with memory that holds the buffer and nothing else: a scalar
read outside it, or at an address its type is not aligned for, is a fault.  The
buffer itself starts aligned.  Each function agrees with its plain form wherever
what it reads has been checked before, and the verifier checks all it reads.
-/

namespace FlatBuffers

/-- A read that memory does not grant. -/
inductive ReadFault where
  | misaligned (address width : Nat)
  | outOfBounds (address width : Nat)
  | nullPointer
  deriving DecidableEq, Repr

/-- A computation that reads the buffer. -/
abbrev Reading := Except ReadFault

/-- A verification, which stops at the first failed check. -/
abbrev Verifying := OptionT Reading

namespace Checked

/-! ## Accessors -/

def readScalar (width : Nat) (buf : Bytes) (address : Nat) : Reading Nat :=
  if address % width ≠ 0 then .error (.misaligned address width)
  else if buf.length < address + width then .error (.outOfBounds address width)
  else .ok (FlatBuffers.readScalar width buf address)

def vtableAddress (buf : Bytes) (table : Nat) : Reading Nat := do
  let word ← readScalar 4 buf table
  return (((table : Int) - soffsetValue word) % 2 ^ 64).toNat

def getOptionalFieldOffset (buf : Bytes) (table field : Nat) : Reading Nat := do
  let vtable ← vtableAddress buf table
  let vtsize ← readScalar 2 buf vtable
  if field < vtsize then readScalar 2 buf (vtable + field) else return 0

def getField (width : Nat) (buf : Bytes) (table field defaultval : Nat) : Reading Nat := do
  let fieldOffset ← getOptionalFieldOffset buf table field
  if fieldOffset = 0 then return defaultval else readScalar width buf (table + fieldOffset)

def getPointer (buf : Bytes) (table field : Nat) : Reading (Option Nat) := do
  let fieldOffset ← getOptionalFieldOffset buf table field
  let p := table + fieldOffset
  if fieldOffset = 0 then return none
  else
    let offset ← readScalar 4 buf p
    return some (p + offset)

/-- Use a pointer as if it were never null. -/
def dereference : Option Nat → Reading Nat
  | none => .error .nullPointer
  | some address => return address

def getRoot (buf : Bytes) : Reading Nat := readScalar 4 buf 0

def vectorSize (buf : Bytes) (vec : Nat) : Reading Nat := readScalar 4 buf vec

def tableElement (buf : Bytes) (vec i : Nat) : Reading Nat := do
  let p := vec + 4 + i * 4
  let offset ← readScalar 4 buf p
  return p + offset

/-! ## Verifier -/

def check (ok : Reading Bool) (counters : Counters) : Verifying Counters := do
  let ok ← ok
  OptionT.mk (return FlatBuffers.check ok counters)

def verifyField (width align : Nat) (buf : Bytes) (table field : Nat) : Reading Bool := do
  let fieldOffset ← getOptionalFieldOffset buf table field
  return fieldOffset == 0 ||
    (verifyAlignment (table + fieldOffset) align && verifyRange buf (table + fieldOffset) width)

def verifyOffsetAt (buf : Bytes) (start : Nat) : Reading Nat :=
  if verifyScalar 4 buf start then do
    let o ← readScalar 4 buf start
    return if o != 0 && decide (0 ≤ soffsetValue o) && verifyRange buf (start + o) 1 then o else 0
  else return 0

def verifyOffset (buf : Bytes) (table field : Nat) : Reading Bool := do
  let fieldOffset ← getOptionalFieldOffset buf table field
  if fieldOffset = 0 then return true
  else
    let o ← verifyOffsetAt buf (table + fieldOffset)
    return o != 0

def verifyOffsetRequired (buf : Bytes) (table field : Nat) : Reading Bool := do
  let fieldOffset ← getOptionalFieldOffset buf table field
  if fieldOffset = 0 then return false
  else
    let o ← verifyOffsetAt buf (table + fieldOffset)
    return o != 0

def verifyVectorAt (elemSize : Nat) (buf : Bytes) (vec : Nat) : Reading Bool :=
  if verifyScalar 4 buf vec then do
    let size ← readScalar 4 buf vec
    return decide (size < maxBufferSize / elemSize) && verifyRange buf vec (4 + elemSize * size)
  else return false

def verifyVector (elemSize : Nat) (buf : Bytes) : Option Nat → Reading Bool
  | none => return true
  | some vec => verifyVectorAt elemSize buf vec

def verifyTableStart (buf : Bytes) (table : Nat) (counters : Counters) : Verifying Counters := do
  let counters ← check (return verifyScalar 4 buf table) counters
  let vtable ← vtableAddress buf table
  let counters ← OptionT.mk (return verifyComplexity counters)
  let counters ← check (return verifyScalar 2 buf vtable) counters
  let vsize ← readScalar 2 buf vtable
  check (return verifyAlignment vsize 2 && vsize % 2 == 0 && verifyRange buf vtable vsize) counters

def verifyTable (buf : Bytes) (table : Nat) (fields : Counters → Verifying Counters)
    (counters : Counters) : Verifying Counters := do
  let counters ← verifyTableStart buf table counters
  let counters ← fields counters
  return endTable counters

def verifyElements (verify : Nat → Counters → Verifying Counters) (buf : Bytes) (vec : Nat) :
    Nat → Nat → Counters → Verifying Counters
  | 0, _, counters => return counters
  | remaining + 1, i, counters => do
      let table ← tableElement buf vec i
      let counters ← verify table counters
      verifyElements verify buf vec remaining (i + 1) counters

def verifyVectorOfTables (verify : Nat → Counters → Verifying Counters) (buf : Bytes) :
    Option Nat → Counters → Verifying Counters
  | none, counters => return counters
  | some vec, counters => do
      let size ← vectorSize buf vec
      verifyElements verify buf vec size 0 counters

def verifyBuffer (verify : Nat → Counters → Verifying Counters) (buf : Bytes) : Reading Bool :=
  if minBufferSize ≤ buf.length then do
    let o ← verifyOffsetAt buf 0
    if o = 0 then return false
    else
      let passed ← (verify o {}).run
      return passed.isSome
  else return false

end Checked

/-! ## What may be read -/

/-- The scalar lies in the buffer, at an address aligned for it. -/
structure Readable (width : Nat) (buf : Bytes) (address : Nat) : Prop where
  aligned : address % width = 0
  inside : address + width ≤ buf.length

theorem Readable.readScalar {width : Nat} {buf : Bytes} {address : Nat}
    (hreadable : Readable width buf address) :
    Checked.readScalar width buf address = .ok (FlatBuffers.readScalar width buf address) := by
  rw [Checked.readScalar, if_neg (not_not.mpr hreadable.aligned),
    if_neg (Nat.not_lt.mpr hreadable.inside)]

theorem readable_of_verifyScalar {width : Nat} {buf : Bytes} {address : Nat}
    (hverified : verifyScalar width buf address = true) : Readable width buf address := by
  simp only [verifyScalar, verifyAlignment, verifyRange, Bool.and_eq_true, beq_iff_eq,
    decide_eq_true_eq] at hverified
  obtain ⟨haligned, hwidth, hinside⟩ := hverified
  exact ⟨haligned, by omega⟩

/-- The checked computation ends without a fault, with the plain result. -/
def Performs {α : Type} (checked : Verifying α) (plain : Option α) : Prop :=
  checked.run = .ok plain

namespace Performs

variable {α β : Type}

theorem pure (value : α) : Performs (pure value) (some value) := rfl

theorem mk (plain : Option α) : Performs (OptionT.mk (Pure.pure plain)) plain := rfl

theorem bind {checked : Verifying α} {plain : Option α} {next : α → Verifying β}
    {plainNext : α → Option β} (hchecked : Performs checked plain)
    (hnext : ∀ value, plain = some value → Performs (next value) (plainNext value)) :
    Performs (checked >>= next) (plain.bind plainNext) := by
  unfold Performs at hchecked
  cases plain with
  | none => simp [Performs, OptionT.run_bind, hchecked]; rfl
  | some value =>
      have hvalue := hnext value rfl
      simp only [Performs, OptionT.run_bind, hchecked]
      exact hvalue

/-- A read that is granted is passed on. -/
theorem bind_read {checked : Reading α} {value : α} {next : α → Verifying β} {plain : Option β}
    (hread : checked = .ok value) (hnext : Performs (next value) plain) :
    Performs (OptionT.lift checked >>= next) plain := by
  subst hread
  exact hnext

theorem check {checked : Reading Bool} {ok : Bool} (counters : Counters)
    (hchecked : checked = .ok ok) :
    Performs (Checked.check checked counters) (FlatBuffers.check ok counters) := by
  subst hchecked
  rfl

end Performs

/-! ## Tables -/

/-- Both size words of a table may be read, and its vtable lies in the buffer. -/
structure ReadableTable (buf : Bytes) (table : Nat) : Prop where
  word : Readable 4 buf table
  vtsize : Readable 2 buf (vtableAddress buf table)
  even : readScalar 2 buf (vtableAddress buf table) % 2 = 0
  inside : vtableAddress buf table + readScalar 2 buf (vtableAddress buf table) ≤ buf.length

/-- The field, if it is present, may be read. -/
def ReadableField (width : Nat) (buf : Bytes) (table field : Nat) : Prop :=
  getOptionalFieldOffset buf table field ≠ 0 →
    Readable width buf (table + getOptionalFieldOffset buf table field)

theorem check_and (first second : Bool) (counters : Counters) :
    (check first counters).bind (check second) = check (first && second) counters := by
  cases first <;> rfl

/-- The start of a table is verified without a read that was not checked. -/
theorem performs_verifyTableStart (buf : Bytes) (table : Nat) (counters : Counters) :
    Performs (Checked.verifyTableStart buf table counters)
      (verifyTableStart buf table counters) := by
  refine Performs.bind (Performs.check counters rfl) fun entered hword => ?_
  have hreadable := readable_of_verifyScalar (check_eq_some.mp hword).1
  have hvtable : Checked.vtableAddress buf table = .ok (vtableAddress buf table) := by
    rw [Checked.vtableAddress, hreadable.readScalar]
    rfl
  refine Performs.bind_read hvtable (Performs.bind (Performs.mk _) fun entered _ => ?_)
  dsimp only
  rw [Bool.and_assoc, Bool.and_assoc, ← check_and]
  refine Performs.bind (Performs.check _ rfl) fun entered hvtsize => ?_
  have hvsize := (readable_of_verifyScalar (check_eq_some.mp hvtsize).1).readScalar
  exact Performs.bind_read hvsize (by rw [← Bool.and_assoc]; exact Performs.check _ rfl)

theorem readableTable_of_verifyTableStart {buf : Bytes} {table : Nat} {counters passed : Counters}
    (hpassed : verifyTableStart buf table counters = some passed) : ReadableTable buf table := by
  obtain ⟨_, hword, hpassed⟩ := Option.bind_eq_some_iff.mp hpassed
  obtain ⟨_, -, hpassed⟩ := Option.bind_eq_some_iff.mp hpassed
  obtain ⟨hvtable, -⟩ := check_eq_some.mp hpassed
  simp only [Bool.and_eq_true, beq_iff_eq] at hvtable
  obtain ⟨⟨⟨hvtsize, -⟩, heven⟩, hrange⟩ := hvtable
  refine ⟨readable_of_verifyScalar (check_eq_some.mp hword).1, readable_of_verifyScalar hvtsize,
    heven, ?_⟩
  simp only [verifyRange, Bool.and_eq_true, decide_eq_true_eq] at hrange
  omega

namespace ReadableTable

variable {buf : Bytes} {table field : Nat}

/-- The entry of a field in the vtable may be read: fields have even numbers. -/
theorem getOptionalFieldOffset (htable : ReadableTable buf table) (hfield : field % 2 = 0) :
    Checked.getOptionalFieldOffset buf table field =
      .ok (FlatBuffers.getOptionalFieldOffset buf table field) := by
  have hvtable : Checked.vtableAddress buf table = .ok (vtableAddress buf table) := by
    rw [Checked.vtableAddress, htable.word.readScalar]
    rfl
  rw [Checked.getOptionalFieldOffset, hvtable]
  simp only [bind, Except.bind, htable.vtsize.readScalar]
  rw [FlatBuffers.getOptionalFieldOffset]
  split
  · next hpresent =>
      have heven := htable.even
      have haligned := htable.vtsize.aligned
      have hinside := htable.inside
      have hentry : Readable 2 buf (vtableAddress buf table + field) :=
        ⟨by omega, by omega⟩
      exact hentry.readScalar
  · rfl

theorem getField (htable : ReadableTable buf table) (hfield : field % 2 = 0) {width : Nat}
    (hreadable : ReadableField width buf table field) (defaultval : Nat) :
    Checked.getField width buf table field defaultval =
      .ok (FlatBuffers.getField width buf table field defaultval) := by
  rw [Checked.getField, htable.getOptionalFieldOffset hfield, FlatBuffers.getField]
  simp only [bind, Except.bind]
  split
  · rfl
  · next hpresent => exact (hreadable hpresent).readScalar

theorem getPointer (htable : ReadableTable buf table) (hfield : field % 2 = 0)
    (hreadable : ReadableField 4 buf table field) :
    Checked.getPointer buf table field = .ok (FlatBuffers.getPointer buf table field) := by
  rw [Checked.getPointer, htable.getOptionalFieldOffset hfield, FlatBuffers.getPointer]
  simp only [bind, Except.bind]
  split
  · rfl
  · next hpresent =>
      rw [(hreadable hpresent).readScalar]
      rfl

end ReadableTable

/-! ## Checks of fields -/

section Fields

variable {buf : Bytes} {table field : Nat}

theorem verifyField_ok (htable : ReadableTable buf table) (hfield : field % 2 = 0)
    (width align : Nat) :
    Checked.verifyField width align buf table field =
      .ok (verifyField width align buf table field) := by
  rw [Checked.verifyField, htable.getOptionalFieldOffset hfield]
  rfl

theorem readableField_of_verifyField {width : Nat}
    (hverified : verifyField width width buf table field = true) :
    ReadableField width buf table field := by
  intro hpresent
  simp only [verifyField, Bool.or_eq_true, beq_iff_eq] at hverified
  exact readable_of_verifyScalar (hverified.resolve_left hpresent)

/-- An offset is read only after the place it is stored at was verified. -/
theorem verifyOffsetAt_ok (buf : Bytes) (start : Nat) :
    Checked.verifyOffsetAt buf start = .ok (verifyOffsetAt buf start) := by
  unfold Checked.verifyOffsetAt verifyOffsetAt
  split
  · next hscalar =>
      rw [(readable_of_verifyScalar hscalar).readScalar]
      rfl
  · rfl

theorem readable_of_verifyOffsetAt {start : Nat} (hoffset : verifyOffsetAt buf start ≠ 0) :
    Readable 4 buf start := by
  unfold verifyOffsetAt at hoffset
  split at hoffset
  · next hscalar => exact readable_of_verifyScalar hscalar
  · exact absurd rfl hoffset

theorem verifyOffset_ok (htable : ReadableTable buf table) (hfield : field % 2 = 0) :
    Checked.verifyOffset buf table field = .ok (verifyOffset buf table field) := by
  rw [Checked.verifyOffset, htable.getOptionalFieldOffset hfield, verifyOffset]
  simp only [bind, Except.bind, verifyOffsetAt_ok]
  split
  · next habsent => simp [habsent, pure, Except.pure]
  · next hpresent => simp [hpresent, pure, Except.pure]

theorem readableField_of_verifyOffset (hverified : verifyOffset buf table field = true) :
    ReadableField 4 buf table field := by
  intro hpresent
  simp only [verifyOffset, Bool.or_eq_true, beq_iff_eq, bne_iff_ne] at hverified
  exact readable_of_verifyOffsetAt (hverified.resolve_left hpresent)

theorem verifyOffsetRequired_ok (htable : ReadableTable buf table) (hfield : field % 2 = 0) :
    Checked.verifyOffsetRequired buf table field = .ok (verifyOffsetRequired buf table field) := by
  rw [Checked.verifyOffsetRequired, htable.getOptionalFieldOffset hfield, verifyOffsetRequired]
  simp only [bind, Except.bind, verifyOffsetAt_ok]
  split
  · next habsent => simp [habsent, pure, Except.pure]
  · next hpresent => simp [hpresent, pure, Except.pure]

/-- A required field is present. -/
theorem exists_getPointer_of_required (hverified : verifyOffsetRequired buf table field = true) :
    ∃ address, getPointer buf table field = some address := by
  simp only [verifyOffsetRequired, Bool.and_eq_true, bne_iff_ne] at hverified
  rw [getPointer, if_neg hverified.1]
  exact ⟨_, rfl⟩

theorem readableField_of_verifyOffsetRequired
    (hverified : verifyOffsetRequired buf table field = true) :
    ReadableField 4 buf table field := by
  intro _
  simp only [verifyOffsetRequired, Bool.and_eq_true, bne_iff_ne] at hverified
  exact readable_of_verifyOffsetAt hverified.2

end Fields

/-! ## Vectors -/

/-- The size word and all elements of a vector lie in the buffer. -/
structure ReadableVector (elemSize : Nat) (buf : Bytes) (vec : Nat) : Prop where
  size : Readable 4 buf vec
  inside : vec + (4 + elemSize * vectorSize buf vec) ≤ buf.length

theorem readableVector_of_verifyVectorAt {elemSize : Nat} {buf : Bytes} {vec : Nat}
    (hverified : verifyVectorAt elemSize buf vec = true) : ReadableVector elemSize buf vec := by
  simp only [verifyVectorAt, Bool.and_eq_true] at hverified
  obtain ⟨⟨hsize, -⟩, hrange⟩ := hverified
  simp only [verifyRange, Bool.and_eq_true, decide_eq_true_eq] at hrange
  refine ⟨readable_of_verifyScalar hsize, ?_⟩
  rw [vectorSize]
  omega

theorem verifyVectorAt_ok (elemSize : Nat) (buf : Bytes) (vec : Nat) :
    Checked.verifyVectorAt elemSize buf vec = .ok (verifyVectorAt elemSize buf vec) := by
  unfold Checked.verifyVectorAt verifyVectorAt
  split
  · next hsize =>
      rw [(readable_of_verifyScalar hsize).readScalar]
      simp [hsize, bind, Except.bind, pure, Except.pure]
  · next hsize => simp [hsize, pure, Except.pure]

theorem verifyVector_ok (elemSize : Nat) (buf : Bytes) (vec : Option Nat) :
    Checked.verifyVector elemSize buf vec = .ok (verifyVector elemSize buf vec) := by
  cases vec with
  | none => rfl
  | some vec => exact verifyVectorAt_ok elemSize buf vec

namespace ReadableVector

variable {buf : Bytes} {vec : Nat}

theorem vectorSize {elemSize : Nat} (hvec : ReadableVector elemSize buf vec) :
    Checked.vectorSize buf vec = .ok (FlatBuffers.vectorSize buf vec) :=
  hvec.size.readScalar

/-- A scalar of an element may be read where its place in the element is aligned. -/
theorem element {elemSize : Nat} (hvec : ReadableVector elemSize buf vec) {i width field : Nat}
    (hi : i < FlatBuffers.vectorSize buf vec) (hfield : field + width ≤ elemSize)
    (haligned : (vec + 4 + i * elemSize + field) % width = 0) :
    Readable width buf (structElement elemSize vec i + field) := by
  refine ⟨haligned, ?_⟩
  have hinside := hvec.inside
  have hbefore : (i + 1) * elemSize ≤ FlatBuffers.vectorSize buf vec * elemSize :=
    Nat.mul_le_mul_right elemSize hi
  rw [Nat.add_mul, Nat.one_mul] at hbefore
  rw [Nat.mul_comm] at hinside
  rw [structElement]
  omega

/-- Reading all elements, each of which may be read. -/
theorem mapM_elements {α : Type} {size : Nat} {read : Nat → Reading α} {value : Nat → α}
    (hread : ∀ i < size, read i = .ok (value i)) :
    (List.range size).mapM read = .ok ((List.range size).map value) := by
  have helements (elements : List Nat) (hbound : ∀ i ∈ elements, i < size) :
      elements.mapM read = .ok (elements.map value) := by
    induction elements with
    | nil => rfl
    | cons i rest ih =>
        rw [List.mapM_cons, hread i (hbound i List.mem_cons_self),
          ih fun j hj => hbound j (List.mem_cons_of_mem i hj)]
        rfl
  exact helements _ fun i hi => List.mem_range.mp hi

theorem tableElement (hvec : ReadableVector 4 buf vec) {i : Nat}
    (hi : i < FlatBuffers.vectorSize buf vec) :
    Checked.tableElement buf vec i = .ok (FlatBuffers.tableElement buf vec i) := by
  have haligned := hvec.size.aligned
  have helement : Readable 4 buf (structElement 4 vec i + 0) :=
    hvec.element hi le_rfl (by omega)
  rw [Checked.tableElement]
  simp only [bind, Except.bind]
  rw [show vec + 4 + i * 4 = structElement 4 vec i + 0 from rfl, helement.readScalar]
  rfl

end ReadableVector

/-! ## Whole tables -/

section Tables

variable {buf : Bytes} {table : Nat}

/-- A table is verified without an unchecked read if its fields are, once its start is. -/
theorem performs_verifyTable {checkedFields : Counters → Verifying Counters}
    {fields : Counters → Option Counters}
    (hfields : ReadableTable buf table → ∀ counters,
      Performs (checkedFields counters) (fields counters)) (counters : Counters) :
    Performs (Checked.verifyTable buf table checkedFields counters)
      (verifyTable buf table fields counters) := by
  refine Performs.bind (performs_verifyTableStart buf table counters) fun entered hstart => ?_
  refine Performs.bind (hfields (readableTable_of_verifyTableStart hstart) entered) fun left _ => ?_
  exact Performs.pure _

theorem performs_verifyElements {checkedVerify : Nat → Counters → Verifying Counters}
    {verify : Nat → Counters → Option Counters} {vec : Nat}
    (hverify : ∀ table counters, Performs (checkedVerify table counters) (verify table counters))
    (hvec : ReadableVector 4 buf vec) {remaining i : Nat}
    (hend : i + remaining ≤ vectorSize buf vec) (counters : Counters) :
    Performs (Checked.verifyElements checkedVerify buf vec remaining i counters)
      (verifyElements verify buf vec remaining i counters) := by
  induction remaining generalizing i counters with
  | zero => exact Performs.pure _
  | succ remaining ih =>
      refine Performs.bind_read (hvec.tableElement (by omega)) ?_
      exact Performs.bind (hverify _ counters) fun next _ => ih (by omega) next

theorem performs_verifyVectorOfTables {checkedVerify : Nat → Counters → Verifying Counters}
    {verify : Nat → Counters → Option Counters}
    (hverify : ∀ table counters, Performs (checkedVerify table counters) (verify table counters))
    {vec : Option Nat} (hvec : verifyVector 4 buf vec = true) (counters : Counters) :
    Performs (Checked.verifyVectorOfTables checkedVerify buf vec counters)
      (verifyVectorOfTables verify buf vec counters) := by
  cases vec with
  | none => exact Performs.pure _
  | some vec =>
      have hreadable : ReadableVector 4 buf vec := readableVector_of_verifyVectorAt hvec
      refine Performs.bind_read hreadable.vectorSize ?_
      exact performs_verifyElements hverify hreadable (by omega) counters

/-- Whatever the bytes, a buffer is verified without a read that was not checked. -/
theorem verifyBuffer_ok {checkedVerify : Nat → Counters → Verifying Counters}
    {verify : Nat → Counters → Option Counters}
    (hverify : ∀ table counters, Performs (checkedVerify table counters) (verify table counters)) :
    Checked.verifyBuffer checkedVerify buf = .ok (verifyBuffer verify buf) := by
  unfold Checked.verifyBuffer verifyBuffer
  split
  · next hlength =>
      have hroot : Performs (checkedVerify (verifyOffsetAt buf 0) {}) _ := hverify _ _
      simp only [verifyOffsetAt_ok, bind, Except.bind]
      split
      · next hnull => simp [hnull, pure, Except.pure]
      · next hoffset =>
          simp only [Performs] at hroot
          simp [hroot, hlength, hoffset, pure, Except.pure]
  · next hlength => simp [hlength, pure, Except.pure]

end Tables

end FlatBuffers
