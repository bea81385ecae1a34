import RangePricer.FlatBuffers.Scalar

/-!
# The buffer builder

`FlatBufferBuilder` with its default options: default-valued scalars are not
written, vtables are shared between tables of the same layout.  Sizes and
offsets count bytes from the end of the buffer; they are natural numbers, and a
value becomes a machine word only where it is written into the buffer.
-/

namespace FlatBuffers

/-- `PaddingBytes`, for a `scalarSize` that is a power of two. -/
def paddingBytes (bufSize scalarSize : Nat) : Nat :=
  (scalarSize - bufSize % scalarSize) % scalarSize

/-- A field written into the table under construction. -/
structure FieldLoc where
  off : Nat
  id : Nat
  deriving DecidableEq, Repr

structure Builder where
  buf : Bytes := []
  minalign : Nat := 1
  /-- Fields of the open table, in the order they were added. -/
  fieldLocs : List FieldLoc := []
  maxVoffset : Nat := 0
  /-- Offsets of the vtables written so far. -/
  vtables : List Nat := []
  deriving Repr

/-- `FieldIndexToOffset`. -/
def fieldIndexToOffset (fieldId : Nat) : Nat := 4 + fieldId * 2

/-- The `voffset_t` entries of the vtable that `EndTable` writes: its own size,
the size of the object, then the position of every field, zero if absent. -/
def vtableEntries (maxVoffset tableObjectSize vtableOffsetLoc : Nat)
    (fieldLocs : List FieldLoc) : List Nat :=
  fieldLocs.foldl
    (fun entries loc => entries.set (loc.id / 2) (vtableOffsetLoc - loc.off))
    (maxVoffset :: tableObjectSize :: List.replicate (maxVoffset / 2 - 2) 0)

def vtableBytes (entries : List Nat) : Bytes := entries.flatMap (leBytes 2)

/-- The word stored at a table: its vtable's offset relative to its own. -/
def soffsetWord (vtUse vtableOffsetLoc : Nat) : Nat :=
  (((vtUse : Int) - vtableOffsetLoc) % 2 ^ 32).toNat

/-- `EndTable`'s comparison of an earlier vtable with the new one. -/
def sameVtable (buf : Bytes) (vt1 : Bytes) (vtOffset : Nat) : Bool :=
  let vt2 := tail buf vtOffset
  let vt1Size := leValue (vt1.take 2)
  vt1Size == leValue (vt2.take 2) && vt2.take vt1Size == vt1.take vt1Size

namespace Builder

/-- `GetSize`. -/
def size (b : Builder) : Nat := b.buf.length

def pushBytes (b : Builder) (bytes : Bytes) : Builder := { b with buf := bytes ++ b.buf }

/-- `buf_.fill`. -/
def fill (b : Builder) (zeroPadBytes : Nat) : Builder :=
  b.pushBytes (List.replicate zeroPadBytes 0)

def trackMinAlign (b : Builder) (elemSize : Nat) : Builder :=
  { b with minalign := max b.minalign elemSize }

def align (b : Builder) (elemSize : Nat) : Builder :=
  (b.trackMinAlign elemSize).fill (paddingBytes b.size elemSize)

/-- `PushElement<T>` with `width = sizeof(T)`; its offset is the size afterwards. -/
def pushElement (b : Builder) (width value : Nat) : Builder :=
  (b.align width).pushBytes (leBytes width value)

def trackField (b : Builder) (field off : Nat) : Builder :=
  { b with
    fieldLocs := b.fieldLocs ++ [⟨off, field⟩]
    maxVoffset := max b.maxVoffset field }

/-- `AddElement<T>`; `isDefault` is `IsTheSameAs(e, def)`. -/
def addElement (b : Builder) (field width value : Nat) (isDefault : Bool) : Builder :=
  if isDefault then b else
    let pushed := b.pushElement width value
    pushed.trackField field pushed.size

/-- `ReferTo`: the builder aligned for the reference, and the reference itself. -/
def referTo (b : Builder) (off : Nat) : Builder × Nat :=
  let aligned := b.align 4
  (aligned, aligned.size - off + 4)

/-- `PushElement(Offset<T>)`. -/
def pushOffset (b : Builder) (off : Nat) : Builder :=
  let (aligned, reference) := b.referTo off
  aligned.pushElement 4 reference

def addOffset (b : Builder) (field off : Nat) : Builder :=
  if off = 0 then b else
    let (aligned, reference) := b.referTo off
    aligned.addElement field 4 reference (reference == 0)

/-- `StartTable` returns the current size and changes nothing else that is read. -/
def startTable (b : Builder) : Nat := b.size

def clearOffsets (b : Builder) : Builder := { b with fieldLocs := [], maxVoffset := 0 }

/-- `EndTable`: the table's word, its vtable unless an equal one exists already,
and the offset of the table. -/
def endTable (b : Builder) (start : Nat) : Builder × Nat :=
  let opened := b.pushElement 4 0
  let vtableOffsetLoc := opened.size
  let maxVoffset := max (b.maxVoffset + 2) (fieldIndexToOffset 0)
  let vt1 := vtableBytes
    (vtableEntries maxVoffset (vtableOffsetLoc - start) vtableOffsetLoc b.fieldLocs)
  let cleared := opened.clearOffsets
  match b.vtables.find? (sameVtable (vt1 ++ opened.buf) vt1) with
  | some vtUse =>
      ({ cleared with
          buf := writeScalar 4 (soffsetWord vtUse vtableOffsetLoc) opened.buf 0 },
        vtableOffsetLoc)
  | none =>
      let vtUse := (vt1 ++ opened.buf).length
      ({ cleared with
          buf := writeScalar 4 (soffsetWord vtUse vtableOffsetLoc) (vt1 ++ opened.buf)
            ((vt1 ++ opened.buf).length - vtableOffsetLoc)
          vtables := b.vtables ++ [vtUse] },
        vtableOffsetLoc)

/-- `PreAlign`. -/
def preAlign (b : Builder) (len alignment : Nat) : Builder :=
  if len = 0 then b else
    (b.trackMinAlign alignment).fill (paddingBytes (b.size + len) alignment)

/-- `StartVector`. -/
def startVector (b : Builder) (len elemSize alignment : Nat) : Builder :=
  (b.preAlign (len * elemSize) 4).preAlign (len * elemSize) alignment

/-- `EndVector`; the offset of the vector is the size afterwards. -/
def endVector (b : Builder) (len : Nat) : Builder := b.pushElement 4 len

/-- `CreateVectorOfStructs`, on the bytes of each struct. -/
def createVectorOfStructs (b : Builder) (elemSize alignment : Nat) (elems : List Bytes) :
    Builder × Nat :=
  let started := b.startVector elems.length elemSize alignment
  let done := (started.pushBytes elems.flatten).endVector elems.length
  (done, done.size)

/-- `CreateVector` of table offsets: the elements are pushed last to first. -/
def createVectorOfOffsets (b : Builder) (offsets : List Nat) : Builder × Nat :=
  let started := b.startVector offsets.length 4 4
  let done := (offsets.foldr (fun off acc => acc.pushOffset off) started).endVector offsets.length
  (done, done.size)

/-- `Finish` without identifier or size prefix: the finished buffer. -/
def finish (b : Builder) (root : Nat) : Bytes :=
  ((b.preAlign 4 b.minalign).pushOffset root).buf

end Builder

end FlatBuffers
