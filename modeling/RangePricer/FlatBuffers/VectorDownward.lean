import RangePricer.FlatBuffers.Table
import RangePricer.Transition.Success

/-!
# The memory under a builder

`vector_downward` keeps two sequences in one allocation: the data, which grows
downwards from its end, and a scratch pad, which grows upwards from its start.
Every access is checked against the allocation, and every `FLATBUFFERS_ASSERT`
is a fault of its own.  A refinement relates the allocation to the two
sequences: it says that they never overlap and survive every reallocation.
-/

namespace FlatBuffers

open Transition

/-- What stops the construction of a buffer. -/
inductive BuildFault where
  /-- A `FLATBUFFERS_ASSERT` fails. -/
  | assertion
  /-- An access outside the allocation, or through a null pointer. -/
  | outOfBounds
  deriving DecidableEq, Repr

abbrev Building := Except BuildFault

def assert (condition : Bool) : Building Unit :=
  if condition then .ok () else .error .assertion

/-- `memcpy` out of an allocation. -/
def load (memory : Bytes) (address len : Nat) : Building Bytes :=
  if address + len ≤ memory.length then .ok ((memory.drop address).take len)
  else .error .outOfBounds

/-- `memcpy` into an allocation. -/
def store (memory : Bytes) (address : Nat) (bytes : Bytes) : Building Bytes :=
  if address + bytes.length ≤ memory.length then
    .ok (memory.take address ++ bytes ++ memory.drop (address + bytes.length))
  else .error .outOfBounds

/-- `allocate`; nothing is known of the contents of fresh memory. -/
structure Allocator where
  allocate : Nat → Bytes
  length_allocate : ∀ size, (allocate size).length = size

/-- Fresh memory with a pattern in it. -/
def Allocator.sample : Allocator := ⟨fun size => List.replicate size 205, fun _ => by simp⟩

/-- `memcpy_downward` -/
def memcpyDownward (oldP : Bytes) (oldSize : Nat) (newP : Bytes)
    (newSize inUseBack inUseFront : Nat) : Building Bytes := do
  let back ← load oldP (oldSize - inUseBack) inUseBack
  let newP ← store newP (newSize - inUseBack) back
  let front ← load oldP 0 inUseFront
  store newP 0 front

def Allocator.reallocateDownward (allocator : Allocator) (oldP : Bytes)
    (oldSize newSize inUseBack inUseFront : Nat) : Building Bytes := do
  assert (decide (oldSize < newSize))
  memcpyDownward oldP oldSize (allocator.allocate newSize) newSize inUseBack inUseFront

/-- The difference of two `uoffset_t`. -/
def wordSub (a b : Nat) : Nat := (((a : Int) - b) % 2 ^ 32).toNat

/-- `AlignOf<largest_scalar_t>()`, the default `buffer_minalign`. -/
def bufferMinalign : Nat := 8

/-- `vector_downward<uoffset_t>` with the default `max_size`.  Pointers are offsets into
the allocation; `size_`, a `uoffset_t`, is kept modulo `2 ^ 32`.  `reserved_`, a `size_t`,
stays below `2 ^ 32` where callers keep to their sizes. -/
structure VectorDownward where
  allocator : Allocator
  initialSize : Nat
  reserved : Nat := 0
  size : Nat := 0
  buf : Option Bytes := none
  /-- The boundary between the free part and the data. -/
  cur : Nat := 0
  /-- The end of the scratch pad. -/
  scratch : Nat := 0

namespace VectorDownward

def unusedBufferSize (v : VectorDownward) : Nat := (v.cur - v.scratch) % 2 ^ 32

def scratchSize (v : VectorDownward) : Nat := v.scratch % 2 ^ 32

/-- The new size of the allocation, rounded up to the alignment. -/
def grownSize (v : VectorDownward) (len : Nat) : Nat :=
  let reserved := v.reserved + max len (if v.reserved ≠ 0 then v.reserved / 2 else v.initialSize)
  (reserved + bufferMinalign - 1) / bufferMinalign * bufferMinalign

/-- The new allocation takes the place of the old one. -/
def moveTo (v : VectorDownward) (reserved : Nat) (buf : Bytes) : VectorDownward :=
  { v with
    reserved := reserved
    buf := some buf
    cur := reserved - v.size
    scratch := v.scratchSize }

def reallocate (v : VectorDownward) (len : Nat) : Building VectorDownward := do
  let reserved := v.grownSize len
  let buf ← match v.buf with
    | some buf =>
        v.allocator.reallocateDownward buf v.reserved reserved v.size v.scratchSize
    | none => .ok (v.allocator.allocate reserved)
  return v.moveTo reserved buf

/-- Grow if the length is larger than the unused part of the buffer. -/
def grow (v : VectorDownward) (len : Nat) : Building VectorDownward :=
  if v.unusedBufferSize < len then v.reallocate len else .ok v

def ensureSpace (v : VectorDownward) (len : Nat) : Building VectorDownward := do
  assert (decide (v.scratch ≤ v.cur))
  let v ← v.grow len
  assert (decide (v.size < maxBufferSize))
  return v

def makeSpace (v : VectorDownward) (len : Nat) : Building VectorDownward :=
  if len = 0 then .ok v else do
    let v ← v.ensureSpace len
    return { v with cur := v.cur - len, size := (v.size + len % 2 ^ 32) % 2 ^ 32 }

/-- Read through a pointer. -/
def readBytes (v : VectorDownward) (address len : Nat) : Building Bytes :=
  match v.buf with
  | some buf => load buf address len
  | none => .error .outOfBounds

/-- Write through a pointer. -/
def writeBytes (v : VectorDownward) (address : Nat) (bytes : Bytes) : Building VectorDownward :=
  match v.buf with
  | some buf => do
      let buf ← store buf address bytes
      return { v with buf := some buf }
  | none => .error .outOfBounds

def push (v : VectorDownward) (bytes : Bytes) : Building VectorDownward :=
  if bytes.length = 0 then .ok v else do
    let v ← v.makeSpace bytes.length
    v.writeBytes v.cur bytes

/-- `push_small`, on the bytes of the scalar. -/
def pushSmall (v : VectorDownward) (bytes : Bytes) : Building VectorDownward := do
  let v ← v.makeSpace bytes.length
  v.writeBytes v.cur bytes

def scratchPushSmall (v : VectorDownward) (bytes : Bytes) : Building VectorDownward := do
  let v ← v.ensureSpace bytes.length
  let v ← v.writeBytes v.scratch bytes
  return { v with scratch := v.scratch + bytes.length }

/-- `fill`; a loop over no bytes touches nothing. -/
def fill (v : VectorDownward) (zeroPadBytes : Nat) : Building VectorDownward :=
  if zeroPadBytes = 0 then .ok v else do
    let v ← v.makeSpace zeroPadBytes
    v.writeBytes v.cur (List.replicate zeroPadBytes 0)

def fillBig (v : VectorDownward) (zeroPadBytes : Nat) : Building VectorDownward := do
  let v ← v.makeSpace zeroPadBytes
  v.writeBytes v.cur (List.replicate zeroPadBytes 0)

def pop (v : VectorDownward) (bytesToRemove : Nat) : VectorDownward :=
  { v with cur := v.cur + bytesToRemove, size := wordSub v.size bytesToRemove }

def scratchPop (v : VectorDownward) (bytesToRemove : Nat) : VectorDownward :=
  { v with scratch := v.scratch - bytesToRemove }

def clearScratch (v : VectorDownward) : VectorDownward := { v with scratch := 0 }

/-- `clear`: the allocation is kept. -/
def clear (v : VectorDownward) : VectorDownward :=
  match v.buf with
  | some _ => { v with cur := v.reserved, size := 0, scratch := 0 }
  | none => { v with reserved := 0, cur := 0, size := 0, scratch := 0 }

/-- `data` -/
def data (v : VectorDownward) : Building Nat := do
  assert v.buf.isSome
  return v.cur

/-- `scratch_end`, which asserts what `scratch_data` asserts. -/
def scratchEnd (v : VectorDownward) : Building Nat := do
  assert v.buf.isSome
  return v.scratch

/-- `data_at` -/
def dataAt (v : VectorDownward) (offset : Nat) : Nat := v.reserved - offset

end VectorDownward

/-! ## Memory -/

theorem assert_true {condition : Bool} (hcondition : condition = true) :
    assert condition = .ok () :=
  if_pos hcondition

theorem load_ok {memory before content after : Bytes}
    (hmemory : memory = before ++ content ++ after) :
    load memory before.length content.length = .ok content := by
  subst hmemory
  rw [load, if_pos (by simp only [List.length_append]; omega), List.append_assoc,
    List.drop_left, List.take_left]

theorem store_ok {memory before content after bytes : Bytes}
    (hmemory : memory = before ++ content ++ after) (hlength : content.length = bytes.length) :
    store memory before.length bytes = .ok (before ++ bytes ++ after) := by
  subst hmemory
  rw [store, if_pos (by simp only [List.length_append]; omega), ← hlength,
    ← List.length_append, List.drop_left, List.append_assoc before, List.take_left]

/-- Where it does not wrap, the difference is the one of natural numbers. -/
theorem wordSub_eq {a b : Nat} (hle : b ≤ a) (hlt : a < 2 ^ 32) : wordSub a b = a - b := by
  rw [wordSub]
  omega

/-- Moving to a larger allocation keeps both ends and their contents. -/
theorem memcpyDownward_ok {oldP newP data scratch gap : Bytes}
    (hold : oldP = scratch ++ gap ++ data) (hroom : scratch.length + data.length ≤ newP.length) :
    ∃ wide, memcpyDownward oldP oldP.length newP newP.length data.length scratch.length =
        .ok (scratch ++ wide ++ data) ∧
      scratch.length + wide.length + data.length = newP.length := by
  have hback : load oldP (oldP.length - data.length) data.length = .ok data := by
    have hlength : oldP.length - data.length = (scratch ++ gap).length := by
      rw [hold, List.length_append, Nat.add_sub_cancel]
    rw [hlength]
    exact load_ok (by rw [hold, List.append_nil])
  have hfront : load oldP 0 scratch.length = .ok scratch :=
    @load_ok oldP [] scratch (gap ++ data) (by rw [hold, List.append_assoc]; rfl)
  obtain ⟨low, high, hnew, hlow⟩ : ∃ low high, newP = low ++ high ∧
      low.length = newP.length - data.length :=
    ⟨newP.take (newP.length - data.length), newP.drop (newP.length - data.length),
      (List.take_append_drop _ _).symm, by rw [List.length_take]; omega⟩
  have hsplit := congrArg List.length hnew
  rw [List.length_append] at hsplit
  obtain ⟨first, wide, hwide, hfirst⟩ : ∃ first wide, low = first ++ wide ∧
      first.length = scratch.length :=
    ⟨low.take scratch.length, low.drop scratch.length, (List.take_append_drop _ _).symm,
      by rw [List.length_take]; omega⟩
  have hdata : store newP (newP.length - data.length) data = .ok (low ++ data) := by
    rw [← hlow, ← List.append_nil (low ++ data)]
    exact store_ok (by rw [hnew, List.append_nil]) (by omega)
  have hscratch : store (low ++ data) 0 scratch = .ok (scratch ++ wide ++ data) := by
    rw [List.append_assoc scratch]
    exact @store_ok _ [] first (wide ++ data) scratch
      (by rw [hwide, List.append_assoc]; rfl) hfirst
  refine ⟨wide, ?_, ?_⟩
  · rw [memcpyDownward, hback]
    change (store newP (newP.length - data.length) data >>= _) = _
    rw [hdata]
    change (load oldP 0 scratch.length >>= _) = _
    rw [hfront]
    exact hscratch
  · have hlength := congrArg List.length hwide
    rw [List.length_append] at hlength
    omega

namespace VectorDownward

/-! ## The two sequences -/

/-- The allocation holds the data at its end and the scratch pad at its start. -/
structure Holds (v : VectorDownward) (data pad : Bytes) : Prop where
  intro ::
  exists_gap : ∃ gap, v.buf.getD [] = pad ++ gap ++ data ∧ v.cur = pad.length + gap.length
  reserved_eq : v.reserved = (v.buf.getD []).length
  scratch_eq : v.scratch = pad.length
  size_eq : v.size = data.length
  data_lt : data.length < 2 ^ 32
  pad_lt : pad.length < 2 ^ 32

theorem holds_new (allocator : Allocator) (initialSize : Nat) :
    (⟨allocator, initialSize, 0, 0, none, 0, 0⟩ : VectorDownward).Holds [] [] :=
  ⟨⟨[], rfl, rfl⟩, rfl, rfl, rfl, by decide, by decide⟩

variable {v : VectorDownward} {data pad : Bytes}

theorem grownSize_ge (v : VectorDownward) (len : Nat) : v.reserved + len ≤ v.grownSize len := by
  simp only [grownSize, bufferMinalign]
  omega

theorem Holds.scratchSize (hholds : v.Holds data pad) : v.scratchSize = pad.length := by
  rw [VectorDownward.scratchSize, hholds.scratch_eq, Nat.mod_eq_of_lt hholds.pad_lt]

theorem Holds.moveTo (hholds : v.Holds data pad) {wide : Bytes} {reserved : Nat}
    (hreserved : pad.length + wide.length + data.length = reserved) :
    (v.moveTo reserved (pad ++ wide ++ data)).Holds data pad where
  exists_gap := by
    refine ⟨wide, rfl, ?_⟩
    have hsize := hholds.size_eq
    simp only [VectorDownward.moveTo]
    omega
  reserved_eq := by
    simp only [VectorDownward.moveTo, Option.getD_some, List.length_append]
    omega
  scratch_eq := hholds.scratchSize
  size_eq := hholds.size_eq
  data_lt := hholds.data_lt
  pad_lt := hholds.pad_lt

/-- Growing makes room and keeps both sequences. -/
theorem Holds.reallocate (hholds : v.Holds data pad) {len : Nat} (hlen : 0 < len) :
    Succeeds (v.reallocate len) fun w => w.Holds data pad ∧ w.scratch + len ≤ w.cur := by
  obtain ⟨gap, hbuf, hcur⟩ := hholds.exists_gap
  have hgrown := v.grownSize_ge len
  have hfresh := v.allocator.length_allocate (v.grownSize len)
  have hused : v.reserved = pad.length + gap.length + data.length := by
    rw [hholds.reserved_eq, hbuf]
    simp only [List.length_append]
  obtain ⟨wide, hmoved, hlength⟩ : ∃ wide,
      (v.reallocate len) = .ok (v.moveTo (v.grownSize len) (pad ++ wide ++ data)) ∧
        pad.length + wide.length + data.length = v.grownSize len := by
    cases hold : v.buf with
    | none =>
        rw [hold] at hbuf
        obtain ⟨hfront, rfl⟩ := List.append_eq_nil_iff.mp hbuf.symm
        obtain ⟨rfl, rfl⟩ := List.append_eq_nil_iff.mp hfront
        refine ⟨v.allocator.allocate (v.grownSize len), ?_, ?_⟩
        · rw [VectorDownward.reallocate, hold, List.nil_append, List.append_nil]
          rfl
        · simp only [List.length_nil, hfresh]
          omega
    | some buf =>
        rw [hold] at hbuf
        obtain ⟨wide, hcopy, hlength⟩ := @memcpyDownward_ok buf
          (v.allocator.allocate (v.grownSize len)) data pad gap hbuf (by omega)
        refine ⟨wide, ?_, hlength.trans hfresh⟩
        have hreserved : v.reserved = buf.length := by rw [hholds.reserved_eq, hold]; rfl
        rw [hfresh, ← hreserved, ← hholds.size_eq, ← hholds.scratchSize] at hcopy
        have hassert : assert (decide (v.reserved < v.grownSize len)) = .ok () :=
          if_pos (decide_eq_true (by omega))
        rw [VectorDownward.reallocate, hold]
        change ((do assert _; memcpyDownward _ _ _ _ _ _) >>= _) = _
        rw [hassert]
        change (memcpyDownward _ _ _ _ _ _ >>= _) = _
        rw [hcopy]
        rfl
  refine ⟨_, hmoved, hholds.moveTo hlength, ?_⟩
  have hsize := hholds.size_eq
  have hscratch := hholds.scratchSize
  simp only [VectorDownward.moveTo]
  omega

/-! ## Room for more -/

theorem Holds.scratch_le (hholds : v.Holds data pad) : v.scratch ≤ v.cur := by
  obtain ⟨gap, -, hcur⟩ := hholds.exists_gap
  rw [hholds.scratch_eq, hcur]
  exact Nat.le_add_right _ _

/-- The free part, which is measured modulo `2 ^ 32`, is never taken for larger than it is. -/
theorem Holds.grow (hholds : v.Holds data pad) {len : Nat} (hlen : 0 < len) :
    Succeeds (v.grow len) fun w => w.Holds data pad ∧ w.scratch + len ≤ w.cur := by
  rw [VectorDownward.grow]
  split
  · exact hholds.reallocate hlen
  · next hroom =>
      have hle := hholds.scratch_le
      have hmod := Nat.mod_le (v.cur - v.scratch) (2 ^ 32)
      rw [unusedBufferSize] at hroom
      exact .ok ⟨hholds, by omega⟩

theorem Holds.ensureSpace (hholds : v.Holds data pad) {len : Nat} (hlen : 0 < len)
    (hsize : data.length < maxBufferSize) :
    Succeeds (v.ensureSpace len) fun w => w.Holds data pad ∧ w.scratch + len ≤ w.cur := by
  rw [VectorDownward.ensureSpace, assert_true (decide_eq_true hholds.scratch_le)]
  refine (hholds.grow hlen).bind fun w hw => ?_
  rw [assert_true (decide_eq_true (by rw [hw.1.size_eq]; exact hsize))]
  exact .ok hw

/-- Beyond the maximal size the request for space ends in an assertion, and in nothing else. -/
theorem Holds.ensureSpace_error (hholds : v.Holds data pad) {len : Nat} (hlen : 0 < len)
    (hsize : maxBufferSize ≤ data.length) : v.ensureSpace len = .error .assertion := by
  obtain ⟨w, hgrow, hw, -⟩ := hholds.grow hlen
  have hfails : assert (decide (w.size < maxBufferSize)) = .error .assertion := by
    rw [assert, if_neg]
    rw [hw.size_eq, decide_eq_true_eq]
    exact Nat.not_lt.mpr hsize
  rw [VectorDownward.ensureSpace, assert_true (decide_eq_true hholds.scratch_le)]
  change (v.grow len >>= _) = _
  rw [hgrow]
  change (assert (decide (w.size < maxBufferSize)) >>= _) = _
  rw [hfails]
  rfl

theorem Holds.makeSpace_error (hholds : v.Holds data pad) {len : Nat} (hlen : 0 < len)
    (hsize : maxBufferSize ≤ data.length) : v.makeSpace len = .error .assertion := by
  rw [VectorDownward.makeSpace, if_neg (Nat.pos_iff_ne_zero.mp hlen),
    hholds.ensureSpace_error hlen hsize]
  rfl

/-- The new part of the data is whatever the free part held. -/
theorem Holds.makeSpace (hholds : v.Holds data pad) {len : Nat}
    (hsize : data.length < maxBufferSize) (hfits : data.length + len < 2 ^ 32) :
    Succeeds (v.makeSpace len) fun w => ∃ fresh : Bytes, fresh.length = len ∧
      w.Holds (fresh ++ data) pad := by
  rw [VectorDownward.makeSpace]
  split
  · next hzero => exact .ok ⟨[], by rw [hzero]; rfl, hholds⟩
  · next hlen =>
      refine (hholds.ensureSpace (Nat.pos_of_ne_zero hlen) hsize).bind fun w hw => .ok ?_
      obtain ⟨hw, hroom⟩ := hw
      obtain ⟨gap, hbuf, hcur⟩ := hw.exists_gap
      have hscratch := hw.scratch_eq
      have hsize := hw.size_eq
      refine ⟨gap.drop (gap.length - len), by rw [List.length_drop]; omega,
        ⟨⟨gap.take (gap.length - len), ?_, ?_⟩, hw.reserved_eq, hscratch, ?_, ?_, hw.pad_lt⟩⟩
      · change w.buf.getD [] = _
        rw [hbuf]
        simp only [List.append_assoc]
        rw [← List.append_assoc (List.take _ _), List.take_append_drop]
      · change w.cur - len = _
        rw [List.length_take]
        omega
      · change (w.size + len % 2 ^ 32) % 2 ^ 32 = _
        rw [List.length_append, List.length_drop]
        omega
      · rw [List.length_append, List.length_drop]
        omega

/-! ## Reading and writing -/

/-- What is not empty is in an allocation. -/
theorem Holds.exists_buf (hholds : v.Holds data pad) (hsome : pad ++ data ≠ []) :
    ∃ buf, v.buf = some buf := by
  obtain ⟨gap, hbuf, -⟩ := hholds.exists_gap
  cases hnone : v.buf with
  | some buf => exact ⟨buf, rfl⟩
  | none =>
      rw [hnone, Option.getD_none, List.append_assoc] at hbuf
      obtain ⟨rfl, hrest⟩ := List.append_eq_nil_iff.mp hbuf.symm
      obtain ⟨-, rfl⟩ := List.append_eq_nil_iff.mp hrest
      exact absurd rfl hsome

section

variable {before content after bytes : Bytes}

theorem Holds.readBytes (hholds : v.Holds (before ++ content ++ after) pad)
    (hsome : content ≠ []) :
    v.readBytes (v.cur + before.length) content.length = .ok content := by
  obtain ⟨buf, hbuf⟩ := hholds.exists_buf (by simp [hsome])
  obtain ⟨gap, hmemory, hcur⟩ := hholds.exists_gap
  rw [hbuf, Option.getD_some] at hmemory
  have haddress : v.cur + before.length = (pad ++ gap ++ before).length := by
    simp only [List.length_append]
    omega
  rw [VectorDownward.readBytes, hbuf, haddress]
  exact @load_ok buf (pad ++ gap ++ before) content after
    (by rw [hmemory]; simp only [List.append_assoc])

theorem Holds.readScratch (hholds : v.Holds data (before ++ content ++ after))
    (hsome : content ≠ []) :
    v.readBytes before.length content.length = .ok content := by
  obtain ⟨buf, hbuf⟩ := hholds.exists_buf (by simp [hsome])
  obtain ⟨gap, hmemory, -⟩ := hholds.exists_gap
  rw [hbuf, Option.getD_some] at hmemory
  rw [VectorDownward.readBytes, hbuf]
  exact @load_ok buf before content (after ++ gap ++ data)
    (by rw [hmemory]; simp only [List.append_assoc])

/-- Overwriting part of the data changes that part only. -/
theorem Holds.writeBytes (hholds : v.Holds (before ++ content ++ after) pad)
    (hlength : content.length = bytes.length) (hsome : bytes ≠ []) :
    Succeeds (v.writeBytes (v.cur + before.length) bytes)
      fun w => w.Holds (before ++ bytes ++ after) pad := by
  have hcontent : content ≠ [] := by
    rintro rfl
    exact hsome (List.length_eq_zero_iff.mp hlength.symm)
  obtain ⟨buf, hbuf⟩ := hholds.exists_buf (by simp [hcontent])
  obtain ⟨⟨gap, hmemory, hcur⟩, hreserved, hscratch, hsize, hdata, hpad⟩ := hholds
  rw [hbuf, Option.getD_some] at hmemory hreserved
  have haddress : v.cur + before.length = (pad ++ gap ++ before).length := by
    simp only [List.length_append]
    omega
  have hstore : store buf (v.cur + before.length) bytes =
      .ok (pad ++ gap ++ before ++ bytes ++ after) := by
    rw [haddress]
    exact store_ok (by rw [hmemory]; simp only [List.append_assoc]) hlength
  refine ⟨{ v with buf := some (pad ++ gap ++ before ++ bytes ++ after) }, ?_,
    ⟨⟨gap, ?_, hcur⟩, ?_, hscratch, ?_, ?_, hpad⟩⟩
  · rw [VectorDownward.writeBytes, hbuf]
    change (store buf (v.cur + before.length) bytes >>= _) = _
    rw [hstore]
    rfl
  · simp only [Option.getD_some, List.append_assoc]
  · rw [hmemory] at hreserved
    simp only [Option.getD_some, List.length_append] at hreserved ⊢
    omega
  · simp only [List.length_append] at hsize ⊢
    omega
  · simp only [List.length_append] at hdata ⊢
    omega

/-- Reading part of the data. -/
theorem Holds.readData (hholds : v.Holds data pad) {k len : Nat} (hpos : 0 < len)
    (hin : k + len ≤ data.length) :
    v.readBytes (v.cur + k) len = .ok ((data.drop k).take len) := by
  have hbefore : (data.take k).length = k := List.length_take_of_le (by omega)
  have hcontent : ((data.drop k).take len).length = len :=
    List.length_take_of_le (by rw [List.length_drop]; omega)
  have hsplit : data = data.take k ++ (data.drop k).take len ++ (data.drop k).drop len := by
    rw [List.append_assoc, List.take_append_drop, List.take_append_drop]
  rw [hsplit] at hholds
  have hread := hholds.readBytes (List.length_pos_iff.mp (hcontent.symm ▸ hpos))
  rwa [hbefore, hcontent] at hread

/-- Overwriting part of the data, by position. -/
theorem Holds.writeData (hholds : v.Holds data pad) {k : Nat} {bytes : Bytes}
    (hpos : 0 < bytes.length) (hin : k + bytes.length ≤ data.length) :
    Succeeds (v.writeBytes (v.cur + k) bytes)
      fun w => w.Holds (data.take k ++ bytes ++ data.drop (k + bytes.length)) pad := by
  have hbefore : (data.take k).length = k := List.length_take_of_le (by omega)
  have hsplit : data = data.take k ++ (data.drop k).take bytes.length ++
      data.drop (k + bytes.length) := by
    rw [← List.drop_drop, List.append_assoc, List.take_append_drop, List.take_append_drop]
  have hcontent : ((data.drop k).take bytes.length).length = bytes.length :=
    List.length_take_of_le (by rw [List.length_drop]; omega)
  have hsplitted := hholds
  rw [hsplit] at hsplitted
  have hwrite := hsplitted.writeBytes hcontent (List.length_pos_iff.mp hpos)
  rwa [hbefore] at hwrite

/-- Where `data_at` points. -/
theorem Holds.dataAt (hholds : v.Holds data pad) {offset : Nat} (hoffset : offset ≤ data.length) :
    v.dataAt offset = v.cur + (data.length - offset) := by
  obtain ⟨gap, hmemory, hcur⟩ := hholds.exists_gap
  have hreserved := hholds.reserved_eq
  rw [hmemory] at hreserved
  simp only [List.length_append] at hreserved
  rw [VectorDownward.dataAt]
  omega

/-- A write behind the scratch pad lengthens it. -/
theorem Holds.writeScratch (hholds : v.Holds data pad) (hroom : v.scratch + bytes.length ≤ v.cur)
    (hsome : bytes ≠ []) (hpad : pad.length + bytes.length < 2 ^ 32) :
    Succeeds (v.writeBytes v.scratch bytes)
      fun w => ({ w with scratch := w.scratch + bytes.length } : VectorDownward).Holds data
        (pad ++ bytes) := by
  obtain ⟨⟨gap, hmemory, hcur⟩, hreserved, hscratch, hsize, hdata, -⟩ := hholds
  have hpos := List.length_pos_iff.mpr hsome
  obtain ⟨low, high, rfl, hlow⟩ : ∃ low high, gap = low ++ high ∧ low.length = bytes.length :=
    ⟨gap.take bytes.length, gap.drop bytes.length, (List.take_append_drop _ _).symm,
      by rw [List.length_take]; omega⟩
  obtain ⟨buf, hbuf⟩ : ∃ buf, v.buf = some buf := by
    cases hnone : v.buf with
    | some buf => exact ⟨buf, rfl⟩
    | none =>
        rw [hnone] at hmemory
        have hempty := congrArg List.length hmemory
        simp only [Option.getD_none, List.length_nil, List.length_append] at hempty
        omega
  rw [hbuf, Option.getD_some] at hmemory hreserved
  have hstore : store buf v.scratch bytes = .ok (pad ++ bytes ++ (high ++ data)) := by
    rw [hscratch]
    exact @store_ok buf pad low (high ++ data) bytes
      (by rw [hmemory]; simp only [List.append_assoc]) hlow
  refine ⟨{ v with buf := some (pad ++ bytes ++ (high ++ data)) }, ?_,
    ⟨⟨high, ?_, ?_⟩, ?_, ?_, hsize, hdata, ?_⟩⟩
  · rw [VectorDownward.writeBytes, hbuf]
    change (store buf v.scratch bytes >>= _) = _
    rw [hstore]
    rfl
  · simp only [Option.getD_some, List.append_assoc]
  · simp only [List.length_append] at hcur ⊢
    omega
  · rw [hmemory] at hreserved
    simp only [Option.getD_some, List.length_append] at hreserved ⊢
    omega
  · simp only [List.length_append]
    omega
  · rw [List.length_append]
    exact hpad

end

/-! ## The operations on the two sequences -/

theorem Holds.pushSmall (hholds : v.Holds data pad) {bytes : Bytes} (hsome : bytes ≠ [])
    (hsize : data.length < maxBufferSize) (hfits : data.length + bytes.length < 2 ^ 32) :
    Succeeds (v.pushSmall bytes) fun w => w.Holds (bytes ++ data) pad := by
  refine (hholds.makeSpace hsize hfits).bind fun w hw => ?_
  obtain ⟨fresh, hfresh, hw⟩ := hw
  exact @Holds.writeBytes w pad [] fresh data bytes hw hfresh hsome

theorem Holds.push (hholds : v.Holds data pad) {bytes : Bytes}
    (hsize : data.length < maxBufferSize) (hfits : data.length + bytes.length < 2 ^ 32) :
    Succeeds (v.push bytes) fun w => w.Holds (bytes ++ data) pad := by
  rw [VectorDownward.push]
  split
  · next hzero =>
      obtain rfl := List.length_eq_zero_iff.mp hzero
      exact .ok hholds
  · next hsome =>
      exact hholds.pushSmall (fun hnone => hsome (by rw [hnone]; rfl)) hsize hfits

theorem Holds.fillBig (hholds : v.Holds data pad) {count : Nat} (hpos : 0 < count)
    (hsize : data.length < maxBufferSize) (hfits : data.length + count < 2 ^ 32) :
    Succeeds (v.fillBig count) fun w => w.Holds (List.replicate count 0 ++ data) pad := by
  refine (hholds.makeSpace hsize hfits).bind fun w hw => ?_
  obtain ⟨fresh, hfresh, hw⟩ := hw
  refine @Holds.writeBytes w pad [] fresh data _ hw (by rw [hfresh, List.length_replicate]) ?_
  rw [ne_eq, List.replicate_eq_nil_iff]
  omega

theorem Holds.fill (hholds : v.Holds data pad) {count : Nat}
    (hsize : data.length < maxBufferSize) (hfits : data.length + count < 2 ^ 32) :
    Succeeds (v.fill count) fun w => w.Holds (List.replicate count 0 ++ data) pad := by
  rw [VectorDownward.fill]
  split
  · next hzero =>
      rw [hzero]
      exact .ok hholds
  · next hsome => exact hholds.fillBig (Nat.pos_of_ne_zero hsome) hsize hfits

theorem Holds.scratchPushSmall (hholds : v.Holds data pad) {bytes : Bytes} (hsome : bytes ≠ [])
    (hsize : data.length < maxBufferSize) (hpad : pad.length + bytes.length < 2 ^ 32) :
    Succeeds (v.scratchPushSmall bytes) fun w => w.Holds data (pad ++ bytes) := by
  refine (hholds.ensureSpace (List.length_pos_iff.mpr hsome) hsize).bind fun w hw => ?_
  exact (hw.1.writeScratch hw.2 hsome hpad).bind fun u hu => .ok hu

theorem Holds.pop {front rest : Bytes} (hholds : v.Holds (front ++ rest) pad) :
    (v.pop front.length).Holds rest pad := by
  obtain ⟨⟨gap, hmemory, hcur⟩, hreserved, hscratch, hsize, hdata, hpad⟩ := hholds
  rw [List.length_append] at hsize hdata
  rw [VectorDownward.pop]
  refine ⟨⟨gap ++ front, ?_, ?_⟩, hreserved, hscratch, ?_, by omega, hpad⟩
  · dsimp only
    rw [hmemory]
    simp only [List.append_assoc]
  · dsimp only
    rw [List.length_append]
    omega
  · dsimp only
    rw [wordSub_eq (by omega) (by omega), hsize, Nat.add_sub_cancel_left]

theorem Holds.scratchPop {kept dropped : Bytes} (hholds : v.Holds data (kept ++ dropped)) :
    (v.scratchPop dropped.length).Holds data kept := by
  obtain ⟨⟨gap, hmemory, hcur⟩, hreserved, hscratch, hsize, hdata, hpad⟩ := hholds
  rw [List.length_append] at hscratch hpad hcur
  refine ⟨⟨dropped ++ gap, ?_, ?_⟩, hreserved, ?_, hsize, hdata, by omega⟩
  · change v.buf.getD [] = _
    rw [hmemory]
    simp only [List.append_assoc]
  · change v.cur = _
    rw [List.length_append]
    omega
  · change v.scratch - dropped.length = _
    omega

theorem Holds.clearScratch (hholds : v.Holds data pad) : v.clearScratch.Holds data [] := by
  obtain ⟨⟨gap, hmemory, hcur⟩, hreserved, -, hsize, hdata, -⟩ := hholds
  refine ⟨⟨pad ++ gap, ?_, ?_⟩, hreserved, rfl, hsize, hdata, by decide⟩
  · change v.buf.getD [] = _
    rw [hmemory, List.nil_append]
  · change v.cur = _
    rw [List.length_append, List.length_nil]
    omega

theorem Holds.clear (hholds : v.Holds data pad) : v.clear.Holds [] [] := by
  have hreserved := hholds.reserved_eq
  rw [VectorDownward.clear]
  cases hbuf : v.buf with
  | some buf =>
      rw [hbuf] at hreserved
      refine ⟨⟨buf, ?_, ?_⟩, ?_, rfl, rfl, by decide, by decide⟩
      · simp
      · simpa using hreserved
      · simpa using hreserved
  | none => exact ⟨⟨[], by simp, rfl⟩, by simp, rfl, rfl, by decide, by decide⟩

end VectorDownward

end FlatBuffers
