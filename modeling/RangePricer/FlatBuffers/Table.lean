import RangePricer.FlatBuffers.Scalar

/-!
# Reading and verifying tables

Accessors of `flatbuffers::Table` and `flatbuffers::Vector`, and the checks of
`flatbuffers::Verifier` with its default options.  Addresses are indices from
the start of the buffer.  The verifier's mutable counters are passed through; a
failed check is `none`, since every caller stops at the first one.
-/

namespace FlatBuffers

/-! ## Accessors -/

/-- `Table::GetVTable`: the signed offset stored at the table is subtracted. -/
def vtableAddress (buf : Bytes) (table : Nat) : Nat :=
  (((table : Int) - soffsetValue (readScalar 4 buf table)) % 2 ^ 64).toNat

/-- The offset of a field from its table, or `0` if the field is not present. -/
def getOptionalFieldOffset (buf : Bytes) (table field : Nat) : Nat :=
  let vtable := vtableAddress buf table
  let vtsize := readScalar 2 buf vtable
  if field < vtsize then readScalar 2 buf (vtable + field) else 0

def getField (width : Nat) (buf : Bytes) (table field defaultval : Nat) : Nat :=
  let fieldOffset := getOptionalFieldOffset buf table field
  if fieldOffset = 0 then defaultval else readScalar width buf (table + fieldOffset)

/-- `Table::GetPointer`, with `none` for the null pointer. -/
def getPointer (buf : Bytes) (table field : Nat) : Option Nat :=
  let fieldOffset := getOptionalFieldOffset buf table field
  let p := table + fieldOffset
  if fieldOffset = 0 then none else some (p + readScalar 4 buf p)

def getRoot (buf : Bytes) : Nat := readScalar 4 buf 0

def vectorSize (buf : Bytes) (vec : Nat) : Nat := readScalar 4 buf vec

/-- Address of element `i` of a vector of structs. -/
def structElement (elemSize vec i : Nat) : Nat := vec + 4 + i * elemSize

/-- Address of the table that element `i` of a vector of offsets refers to. -/
def tableElement (buf : Bytes) (vec i : Nat) : Nat :=
  let p := vec + 4 + i * 4
  p + readScalar 4 buf p

/-! ## Verifier -/

/-- `FLATBUFFERS_MAX_BUFFER_SIZE`, the default `max_size`. -/
def maxBufferSize : Nat := 2 ^ 31 - 1

def maxDepth : Nat := 64

def maxTables : Nat := 1000000

/-- `FLATBUFFERS_MIN_BUFFER_SIZE`. -/
def minBufferSize : Nat := 4 + 4 + 2 + 2

/-- The verifier's `depth_` and `num_tables_`. -/
structure Counters where
  depth : Nat := 0
  numTables : Nat := 0
  deriving DecidableEq, Repr

def check (ok : Bool) (counters : Counters) : Option Counters :=
  if ok then some counters else none

/-- `Verify(elem, elem_len)`: a range within the buffer. -/
def verifyRange (buf : Bytes) (elem elemLen : Nat) : Bool :=
  decide (elemLen < buf.length) && decide (elem ≤ buf.length - elemLen)

def verifyAlignment (elem align : Nat) : Bool := elem % align == 0

/-- `Verify<T>(elem)`. -/
def verifyScalar (width : Nat) (buf : Bytes) (elem : Nat) : Bool :=
  verifyAlignment elem width && verifyRange buf elem width

/-- `Table::VerifyField<T>`. -/
def verifyField (width align : Nat) (buf : Bytes) (table field : Nat) : Bool :=
  let fieldOffset := getOptionalFieldOffset buf table field
  fieldOffset == 0 ||
    (verifyAlignment (table + fieldOffset) align && verifyRange buf (table + fieldOffset) width)

/-- `VerifyOffset(start)`: the offset stored at `start`, or `0` on failure. -/
def verifyOffsetAt (buf : Bytes) (start : Nat) : Nat :=
  if verifyScalar 4 buf start then
    let o := readScalar 4 buf start
    if o != 0 && decide (0 ≤ soffsetValue o) && verifyRange buf (start + o) 1 then o else 0
  else 0

/-- `Table::VerifyOffset`. -/
def verifyOffset (buf : Bytes) (table field : Nat) : Bool :=
  let fieldOffset := getOptionalFieldOffset buf table field
  fieldOffset == 0 || verifyOffsetAt buf (table + fieldOffset) != 0

/-- `Table::VerifyOffsetRequired`. -/
def verifyOffsetRequired (buf : Bytes) (table field : Nat) : Bool :=
  let fieldOffset := getOptionalFieldOffset buf table field
  fieldOffset != 0 && verifyOffsetAt buf (table + fieldOffset) != 0

/-- `VerifyVectorOrString` without a terminator. -/
def verifyVectorAt (elemSize : Nat) (buf : Bytes) (vec : Nat) : Bool :=
  let size := readScalar 4 buf vec
  verifyScalar 4 buf vec && decide (size < maxBufferSize / elemSize) &&
    verifyRange buf vec (4 + elemSize * size)

/-- `VerifyVector`: the null pointer is accepted. -/
def verifyVector (elemSize : Nat) (buf : Bytes) (vec : Option Nat) : Bool :=
  vec.all (verifyVectorAt elemSize buf)

def verifyComplexity (counters : Counters) : Option Counters :=
  let entered : Counters := ⟨counters.depth + 1, counters.numTables + 1⟩
  check (decide (entered.depth ≤ maxDepth) && decide (entered.numTables ≤ maxTables)) entered

def verifyTableStart (buf : Bytes) (table : Nat) (counters : Counters) : Option Counters := do
  let counters ← check (verifyScalar 4 buf table) counters
  let vtable := vtableAddress buf table
  let counters ← verifyComplexity counters
  let vsize := readScalar 2 buf vtable
  check (verifyScalar 2 buf vtable && verifyAlignment vsize 2 && vsize % 2 == 0 &&
    verifyRange buf vtable vsize) counters

def endTable (counters : Counters) : Counters :=
  { counters with depth := counters.depth - 1 }

/-- Verify one table: its start, its fields (in a body that may descend), its end. -/
def verifyTable (buf : Bytes) (table : Nat) (fields : Counters → Option Counters)
    (counters : Counters) : Option Counters := do
  let counters ← verifyTableStart buf table counters
  let counters ← fields counters
  pure (endTable counters)

/-- `VerifyVectorOfTables` from element `i` on, with `remaining` elements to go. -/
def verifyElements (verify : Nat → Counters → Option Counters) (buf : Bytes) (vec : Nat) :
    Nat → Nat → Counters → Option Counters
  | 0, _, counters => some counters
  | remaining + 1, i, counters => do
      let counters ← verify (tableElement buf vec i) counters
      verifyElements verify buf vec remaining (i + 1) counters

/-- `VerifyVectorOfTables`: the null pointer is accepted. -/
def verifyVectorOfTables (verify : Nat → Counters → Option Counters) (buf : Bytes) :
    Option Nat → Counters → Option Counters
  | none, counters => some counters
  | some vec, counters => verifyElements verify buf vec (vectorSize buf vec) 0 counters

/-- `VerifyBufferFromStart` with no identifier and `start = 0`. -/
def verifyBuffer (verify : Nat → Counters → Option Counters) (buf : Bytes) : Bool :=
  decide (minBufferSize ≤ buf.length) && verifyOffsetAt buf 0 != 0 &&
    (verify (verifyOffsetAt buf 0) {}).isSome

/-- A message is within the verifier's `max_size` and verifies. -/
def admits (verifyBytes : Bytes → Bool) (buf : Bytes) : Bool :=
  decide (buf.length < maxBufferSize) && verifyBytes buf

/-! ## What a passed check says -/

theorem check_eq_some {ok : Bool} {counters passed : Counters} :
    check ok counters = some passed ↔ ok = true ∧ counters = passed := by
  cases ok <;> simp [check]

theorem check_bind_eq_some {ok : Bool} {counters passed : Counters}
    {next : Counters → Option Counters} :
    (check ok counters).bind next = some passed ↔ ok = true ∧ next counters = some passed := by
  cases ok <;> simp [check]

theorem check_true (counters : Counters) : check true counters = some counters := rfl

theorem verifyTable_eq_some {buf : Bytes} {table : Nat} {fields : Counters → Option Counters}
    {counters passed : Counters} :
    verifyTable buf table fields counters = some passed ↔
      ∃ entered left, verifyTableStart buf table counters = some entered ∧
        fields entered = some left ∧ endTable left = passed := by
  simp [verifyTable, Option.bind_eq_some_iff]

theorem verifyOffsetAt_eq {buf : Bytes} {start : Nat} (hoffset : verifyOffsetAt buf start ≠ 0) :
    verifyOffsetAt buf start = readScalar 4 buf start := by
  unfold verifyOffsetAt at hoffset ⊢
  split at hoffset
  · next hscalar =>
      dsimp only at hoffset ⊢
      split at hoffset
      · next hinside => rw [if_pos hscalar, if_pos hinside]
      · exact absurd rfl hoffset
  · exact absurd rfl hoffset

/-- A verified buffer has verified its root table. -/
theorem exists_verified_root {verify : Nat → Counters → Option Counters} {buf : Bytes}
    (hverified : verifyBuffer verify buf = true) :
    ∃ passed, verify (getRoot buf) {} = some passed := by
  simp only [verifyBuffer, Bool.and_eq_true, bne_iff_ne] at hverified
  obtain ⟨⟨-, hroot⟩, hpassed⟩ := hverified
  rw [verifyOffsetAt_eq hroot] at hpassed
  exact Option.isSome_iff_exists.mp hpassed

/-! ## Counting tables -/

/-- Entering a table counts it, and never beyond the limit. -/
theorem numTables_of_verifyTable {buf : Bytes} {table : Nat} {fields : Counters → Option Counters}
    {counters passed : Counters}
    (hfields : ∀ entered left, fields entered = some left → entered = left)
    (hpassed : verifyTable buf table fields counters = some passed) :
    passed.numTables = counters.numTables + 1 ∧ passed.numTables ≤ maxTables := by
  obtain ⟨entered, left, hstart, hleft, rfl⟩ := verifyTable_eq_some.mp hpassed
  obtain rfl := hfields entered left hleft
  obtain ⟨_, hword, hstart⟩ := Option.bind_eq_some_iff.mp hstart
  obtain ⟨_, hcomplexity, hstart⟩ := Option.bind_eq_some_iff.mp hstart
  obtain ⟨-, rfl⟩ := check_eq_some.mp hword
  obtain ⟨hlimits, rfl⟩ := check_eq_some.mp hcomplexity
  obtain ⟨-, rfl⟩ := check_eq_some.mp hstart
  simp only [Bool.and_eq_true, decide_eq_true_eq] at hlimits
  exact ⟨rfl, hlimits.2⟩

section

variable {verify : Nat → Counters → Option Counters} {buf : Bytes} {vec : Nat}

/-- A verified vector has no more elements than tables may be counted. -/
theorem numTables_of_verifyElements
    (hverify : ∀ table counters passed, verify table counters = some passed →
      passed.numTables = counters.numTables + 1 ∧ passed.numTables ≤ maxTables)
    {remaining i : Nat} {counters passed : Counters} (hcounters : counters.numTables ≤ maxTables)
    (hpassed : verifyElements verify buf vec remaining i counters = some passed) :
    counters.numTables + remaining ≤ maxTables := by
  induction remaining generalizing i counters with
  | zero => exact hcounters
  | succ remaining ih =>
      obtain ⟨next, hnext, hrest⟩ := Option.bind_eq_some_iff.mp hpassed
      obtain ⟨hcount, hlimit⟩ := hverify _ _ _ hnext
      have hrest := ih hlimit hrest
      omega

/-- Every element of a verified vector verifies. -/
theorem exists_verified_element {remaining i : Nat} {counters passed : Counters}
    (hpassed : verifyElements verify buf vec remaining i counters = some passed) {j : Nat}
    (hj : j < remaining) :
    ∃ before after, verify (tableElement buf vec (i + j)) before = some after := by
  induction remaining generalizing i counters j with
  | zero => exact absurd hj (Nat.not_lt_zero j)
  | succ remaining ih =>
      obtain ⟨next, hnext, hrest⟩ := Option.bind_eq_some_iff.mp hpassed
      cases j with
      | zero => exact ⟨counters, next, hnext⟩
      | succ j =>
          have helement := ih hrest (Nat.lt_of_succ_lt_succ hj)
          rwa [Nat.add_right_comm] at helement

/-- A vector verifies if its elements do and they are few enough. -/
theorem verifyElements_eq {count : Nat}
    (hverify : ∀ i < count, ∀ counters : Counters, counters.depth < maxDepth →
      counters.numTables < maxTables →
        verify (tableElement buf vec i) counters =
          some ⟨counters.depth, counters.numTables + 1⟩)
    {remaining i : Nat} {counters : Counters} (hend : i + remaining ≤ count)
    (hdepth : counters.depth < maxDepth) (htables : counters.numTables + remaining ≤ maxTables) :
    verifyElements verify buf vec remaining i counters =
      some ⟨counters.depth, counters.numTables + remaining⟩ := by
  induction remaining generalizing i counters with
  | zero => rfl
  | succ remaining ih =>
      have hrest := @ih (i + 1) ⟨counters.depth, counters.numTables + 1⟩ (by omega) hdepth
        (by dsimp only; omega)
      rw [verifyElements, hverify i (by omega) counters hdepth (by omega), Option.bind_eq_bind,
        Option.bind_some, hrest, Nat.add_assoc, Nat.add_comm 1]

end

end FlatBuffers
