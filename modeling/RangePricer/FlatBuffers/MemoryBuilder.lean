import RangePricer.FlatBuffers.Growth
import RangePricer.FlatBuffers.VectorDownward

/-!
# A builder on its memory

`FlatBufferBuilder` once more, on the vector it writes to: the fields of the
open table and the offsets of the vtables are in the scratch pad, and a vtable
is filled in, compared and dropped where it lies in memory.  All reads and
writes go through the allocation, and the assertions of the code are kept.
-/

namespace FlatBuffers

/-- The eight bytes of a `FieldLoc`, two of them padding. -/
def FieldLoc.bytes (loc : FieldLoc) : Bytes := leBytes 4 loc.off ++ leBytes 2 loc.id ++ [0, 0]

/-- `FlatBufferBuilderImpl<false>` with its default options. -/
structure FlatBufferBuilder where
  buf : VectorDownward
  numFieldLoc : Nat := 0
  maxVoffset : Nat := 0
  nested : Bool := false
  finished : Bool := false
  minalign : Nat := 1

namespace FlatBufferBuilder

/-- `FlatBufferBuilder builder(initial_size)` -/
def new (allocator : Allocator) (initialSize : Nat) : FlatBufferBuilder where
  buf := ⟨allocator, initialSize, 0, 0, none, 0, 0⟩

def getSize (c : FlatBufferBuilder) : Nat := c.buf.size

/-- A call on the vector. -/
def onBuf (c : FlatBufferBuilder) (call : VectorDownward → Building VectorDownward) :
    Building FlatBufferBuilder := do
  let buf ← call c.buf
  return { c with buf := buf }

/-- `ReadScalar` through a pointer into the vector. -/
def readScalar (c : FlatBufferBuilder) (width address : Nat) : Building Nat := do
  let bytes ← c.buf.readBytes address width
  return leValue bytes

/-- `WriteScalar` through a pointer into the vector. -/
def writeScalar (c : FlatBufferBuilder) (width value address : Nat) : Building FlatBufferBuilder :=
  c.onBuf (·.writeBytes address (leBytes width value))

def trackMinAlign (c : FlatBufferBuilder) (elemSize : Nat) : FlatBufferBuilder :=
  if c.minalign < elemSize then { c with minalign := elemSize } else c

def align (c : FlatBufferBuilder) (elemSize : Nat) : Building FlatBufferBuilder :=
  (c.trackMinAlign elemSize).onBuf (·.fill (paddingBytes c.buf.size elemSize))

def pushBytes (c : FlatBufferBuilder) (bytes : Bytes) : Building FlatBufferBuilder :=
  c.onBuf (·.push bytes)

/-- `PushElement<T>`, which returns the size afterwards. -/
def pushElement (c : FlatBufferBuilder) (width value : Nat) :
    Building (FlatBufferBuilder × Nat) := do
  let c ← c.align width
  let c ← c.onBuf (·.pushSmall (leBytes width value))
  return (c, c.getSize)

def trackField (c : FlatBufferBuilder) (field off : Nat) : Building FlatBufferBuilder := do
  let c ← c.onBuf (·.scratchPushSmall (FieldLoc.bytes ⟨off, field⟩))
  return { c with
    numFieldLoc := (c.numFieldLoc + 1) % 2 ^ 32
    maxVoffset := if c.maxVoffset < field then field else c.maxVoffset }

def addElement (c : FlatBufferBuilder) (field width value : Nat) (isDefault : Bool) :
    Building FlatBufferBuilder :=
  if isDefault then .ok c else do
    let (c, off) ← c.pushElement width value
    c.trackField field off

def referTo (c : FlatBufferBuilder) (off : Nat) : Building (FlatBufferBuilder × Nat) := do
  let c ← c.align 4
  assert (decide (off ≠ 0 ∧ off ≤ c.getSize))
  return (c, (wordSub c.getSize off + 4) % 2 ^ 32)

/-- `PushElement(Offset<T>)` -/
def pushOffset (c : FlatBufferBuilder) (off : Nat) : Building FlatBufferBuilder := do
  let (c, reference) ← c.referTo off
  let (c, _) ← c.pushElement 4 reference
  return c

def addOffset (c : FlatBufferBuilder) (field off : Nat) : Building FlatBufferBuilder :=
  if off = 0 then .ok c else do
    let (c, reference) ← c.referTo off
    c.addElement field 4 reference (reference == 0)

def notNested (c : FlatBufferBuilder) : Building Unit := do
  assert (!c.nested)
  assert (decide (c.numFieldLoc = 0))

def startTable (c : FlatBufferBuilder) : Building (FlatBufferBuilder × Nat) := do
  c.notNested
  return ({ c with nested := true }, c.getSize)

def clearOffsets (c : FlatBufferBuilder) : FlatBufferBuilder :=
  { c with buf := c.buf.scratchPop (c.numFieldLoc * 8), numFieldLoc := 0, maxVoffset := 0 }

/-! `EndTable`, in its four parts. -/

/-- Write the positions of the recorded fields into the vtable at the front. -/
def writeOffsets (vtableOffsetLoc : Nat) :
    (remaining it : Nat) → FlatBufferBuilder → Building FlatBufferBuilder
  | 0, _, c => .ok c
  | remaining + 1, it, c => do
      let off ← c.readScalar 4 it
      let id ← c.readScalar 2 (it + 4)
      let data ← c.buf.data
      let old ← c.readScalar 2 (data + id)
      assert (decide (old = 0))
      let c ← c.writeScalar 2 (wordSub vtableOffsetLoc off) (data + id)
      writeOffsets vtableOffsetLoc remaining (it + 8) c

/-- The vtable of the open table, in front of the table. -/
def writeVtable (c : FlatBufferBuilder) (start vtableOffsetLoc : Nat) :
    Building FlatBufferBuilder := do
  let c := { c with
    maxVoffset := max ((c.maxVoffset + 2) % 2 ^ 16) (fieldIndexToOffset 0) }
  let c ← c.onBuf (·.fillBig c.maxVoffset)
  let tableObjectSize := wordSub vtableOffsetLoc start
  assert (decide (tableObjectSize < 0x10000))
  let data ← c.buf.data
  let c ← c.writeScalar 2 tableObjectSize (data + 2)
  let data ← c.buf.data
  let c ← c.writeScalar 2 c.maxVoffset data
  let scratchEnd ← c.buf.scratchEnd
  let c ← c.writeOffsets vtableOffsetLoc c.numFieldLoc (scratchEnd - c.numFieldLoc * 8)
  return c.clearOffsets

/-- The first of the earlier vtables that equals the one at `vt1`. -/
def findVtable (c : FlatBufferBuilder) (vt1 vt1Size : Nat) :
    (remaining it : Nat) → Building (Option Nat)
  | 0, _ => .ok none
  | remaining + 1, it => do
      let vtOffset ← c.readScalar 4 it
      let vt2 := c.buf.dataAt vtOffset
      let vt2Size ← c.readScalar 2 vt2
      if vt1Size ≠ vt2Size then c.findVtable vt1 vt1Size remaining (it + 4)
      else do
        let left ← c.buf.readBytes vt2 vt1Size
        let right ← c.buf.readBytes vt1 vt1Size
        if left ≠ right then c.findVtable vt1 vt1Size remaining (it + 4)
        else return some vtOffset

/-- Drop the new vtable for an equal one, or remember it. -/
def chooseVtable (c : FlatBufferBuilder) (vtableOffsetLoc : Nat) (found : Option Nat) :
    Building (FlatBufferBuilder × Nat) :=
  let vtUse := found.getD c.getSize
  let c := match found with
    | some _ => { c with buf := c.buf.pop (wordSub c.getSize vtableOffsetLoc) }
    | none => c
  if vtUse = c.getSize then do
    let c ← c.onBuf (·.scratchPushSmall (leBytes 4 vtUse))
    return (c, vtUse)
  else return (c, vtUse)

def endTable (c : FlatBufferBuilder) (start : Nat) : Building (FlatBufferBuilder × Nat) := do
  assert c.nested
  let (c, vtableOffsetLoc) ← c.pushElement 4 0
  let c ← c.writeVtable start vtableOffsetLoc
  let vt1 ← c.buf.data
  let vt1Size ← c.readScalar 2 vt1
  let scratchEnd ← c.buf.scratchEnd
  let found ← c.findVtable vt1 vt1Size ((scratchEnd + 3) / 4) 0
  let (c, vtUse) ← c.chooseVtable vtableOffsetLoc found
  let c ← c.writeScalar 4 (soffsetWord vtUse vtableOffsetLoc) (c.buf.dataAt vtableOffsetLoc)
  return ({ c with nested := false }, vtableOffsetLoc)

def preAlign (c : FlatBufferBuilder) (len alignment : Nat) : Building FlatBufferBuilder :=
  if len = 0 then .ok c
  else (c.trackMinAlign alignment).onBuf (·.fill (paddingBytes (c.getSize + len) alignment))

def startVector (c : FlatBufferBuilder) (len elemSize alignment : Nat) :
    Building FlatBufferBuilder := do
  c.notNested
  let c := { c with nested := true }
  let c ← c.preAlign (len * elemSize) 4
  c.preAlign (len * elemSize) alignment

def endVector (c : FlatBufferBuilder) (len : Nat) : Building (FlatBufferBuilder × Nat) := do
  assert c.nested
  let c := { c with nested := false }
  c.pushElement 4 len

/-- `CreateVectorOfStructs`, on the bytes of each struct. -/
def createVectorOfStructs (c : FlatBufferBuilder) (elemSize alignment : Nat)
    (elems : List Bytes) : Building (FlatBufferBuilder × Nat) := do
  let c ← c.startVector elems.length elemSize alignment
  let c ← c.pushBytes elems.flatten
  c.endVector elems.length

/-- `CreateVector` of table offsets: the elements are pushed last to first. -/
def createVectorOfOffsets (c : FlatBufferBuilder) (offsets : List Nat) :
    Building (FlatBufferBuilder × Nat) := do
  let c ← c.startVector offsets.length 4 4
  let c ← offsets.reverse.foldlM pushOffset c
  c.endVector offsets.length

/-- `Finish` without identifier or size prefix. -/
def finish (c : FlatBufferBuilder) (root : Nat) : Building FlatBufferBuilder := do
  assert (!c.finished)
  c.notNested
  let c := { c with buf := c.buf.clearScratch }
  let c ← c.preAlign 4 c.minalign
  let c ← c.pushOffset root
  return { c with finished := true }

/-- The bytes from `GetBufferPointer()`, `GetSize()` of them. -/
def finishedBytes (c : FlatBufferBuilder) : Building Bytes := do
  assert c.finished
  let data ← c.buf.data
  c.buf.readBytes data c.getSize

/-- `GetOptionalFieldOffset` of a table in the vector. -/
def optionalFieldOffset (c : FlatBufferBuilder) (p field : Nat) : Building Nat := do
  let word ← c.readScalar 4 p
  let vtable := (p : Int) - soffsetValue word
  if vtable < 0 then .error .outOfBounds else do
    let vtsize ← c.readScalar 2 vtable.toNat
    if field < vtsize then c.readScalar 2 (vtable.toNat + field) else return 0

/-- `Required` -/
def required (c : FlatBufferBuilder) (table field : Nat) : Building Unit := do
  let entry ← c.optionalFieldOffset (c.buf.dataAt table) field
  assert (decide (entry ≠ 0))

def addSlot (c : FlatBufferBuilder) : Builder.Slot → Building FlatBufferBuilder
  | .scalar field width value isDefault => c.addElement field width value isDefault
  | .offset field target => c.addOffset field target

/-- A whole table: its `add_` calls between `StartTable` and `EndTable`. -/
def buildTable (c : FlatBufferBuilder) (slots : List Builder.Slot) :
    Building (FlatBufferBuilder × Nat) := do
  let (c, start) ← c.startTable
  let c ← slots.foldlM addSlot c
  c.endTable start

end FlatBufferBuilder

end FlatBuffers
