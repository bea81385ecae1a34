import RangePricer.FlatBuffers.VectorDownward

/-!
# Any sequence of calls on the memory of a builder

The calls a builder makes on its vector, and what they do to the two sequences
the vector stands for.  Whatever the calls, the vector holds what they describe:
neither the size of its allocation nor the contents of fresh memory show.  Within
the sizes that callers keep to, the allocation stays below `2 ^ 32` bytes, so that
no size wraps and the free part is never measured too small.
-/

namespace FlatBuffers

open Transition

/-- A call on the vector. -/
inductive VectorCall where
  | push (bytes : Bytes)
  | pushSmall (bytes : Bytes)
  | fill (zeroPadBytes : Nat)
  | scratchPushSmall (bytes : Bytes)
  | pop (bytesToRemove : Nat)
  | scratchPop (bytesToRemove : Nat)
  | clearScratch
  | clear
  deriving DecidableEq, Repr

/-- What the vector stands for. -/
structure Contents where
  data : Bytes := []
  pad : Bytes := []
  deriving DecidableEq, Repr

namespace VectorCall

def perform (v : VectorDownward) : VectorCall → Building VectorDownward
  | .push bytes => v.push bytes
  | .pushSmall bytes => v.pushSmall bytes
  | .fill zeroPadBytes => v.fill zeroPadBytes
  | .scratchPushSmall bytes => v.scratchPushSmall bytes
  | .pop bytesToRemove => .ok (v.pop bytesToRemove)
  | .scratchPop bytesToRemove => .ok (v.scratchPop bytesToRemove)
  | .clearScratch => .ok v.clearScratch
  | .clear => .ok v.clear

/-- The bytes the call asks space for. -/
def space : VectorCall → Nat
  | .push bytes | .pushSmall bytes | .scratchPushSmall bytes => bytes.length
  | .fill zeroPadBytes => zeroPadBytes
  | .pop _ | .scratchPop _ | .clearScratch | .clear => 0

/-- What a call does to the two sequences, if there is room for it. -/
def effect (contents : Contents) : VectorCall → Contents
  | .push bytes | .pushSmall bytes => { contents with data := bytes ++ contents.data }
  | .fill zeroPadBytes =>
      { contents with data := List.replicate zeroPadBytes 0 ++ contents.data }
  | .scratchPushSmall bytes => { contents with pad := contents.pad ++ bytes }
  | .pop bytesToRemove => { contents with data := contents.data.drop bytesToRemove }
  | .scratchPop bytesToRemove =>
      { contents with pad := contents.pad.take (contents.pad.length - bytesToRemove) }
  | .clearScratch => { contents with pad := [] }
  | .clear => {}

/-- No call asks for space once the data has reached the maximal size. -/
def effect? (contents : Contents) (call : VectorCall) : Option Contents :=
  if 0 < call.space ∧ maxBufferSize ≤ contents.data.length then none
  else some (call.effect contents)

/-- The sizes a caller keeps to: scalars are not empty, nothing is popped that is not
there, one call asks for less than 1 GiB, and for no more than makes 2.5 GiB with
what the two sequences hold. -/
def legal (contents : Contents) (call : VectorCall) : Bool :=
  decide (call.space < 2 ^ 30) &&
    decide (contents.data.length + contents.pad.length + call.space ≤ 2 ^ 31 + 2 ^ 29) &&
      match call with
      | .pushSmall bytes | .scratchPushSmall bytes => decide (bytes ≠ [])
      | .pop bytesToRemove => decide (bytesToRemove ≤ contents.data.length)
      | .scratchPop bytesToRemove => decide (bytesToRemove ≤ contents.pad.length)
      | .push _ | .fill _ | .clearScratch | .clear => true

/-- Legal calls one after the other, up to the first that finds no room. -/
def legalRun (contents : Contents) : List VectorCall → Bool
  | [] => true
  | call :: rest =>
      call.legal contents &&
        match call.effect? contents with
        | some after => legalRun after rest
        | none => true

variable {v : VectorDownward} {contents : Contents} {call : VectorCall}

theorem perform_ok (hholds : v.Holds contents.data contents.pad)
    (hlegal : call.legal contents = true)
    (hroom : ¬ (0 < call.space ∧ maxBufferSize ≤ contents.data.length)) :
    Succeeds (call.perform v) fun w =>
      w.Holds (call.effect contents).data (call.effect contents).pad := by
  have hmax : maxBufferSize < 2 ^ 31 := by decide
  have hsize (hspace : 0 < call.space) : contents.data.length < maxBufferSize :=
    Nat.lt_of_not_le fun hle => hroom ⟨hspace, hle⟩
  simp only [legal, Bool.and_eq_true, decide_eq_true_eq] at hlegal
  obtain ⟨⟨hspace, htotal⟩, hlegal⟩ := hlegal
  cases call with
  | push bytes =>
      rcases bytes with - | ⟨byte, bytes⟩
      · exact .ok hholds
      · have hlt := hsize (Nat.succ_pos _)
        have hlength : (byte :: bytes).length < 2 ^ 30 := hspace
        exact hholds.push hlt (by omega)
  | pushSmall bytes =>
      have hsome : bytes ≠ [] := of_decide_eq_true hlegal
      have hlt := hsize (List.length_pos_iff.mpr hsome)
      have hlength : bytes.length < 2 ^ 30 := hspace
      exact hholds.pushSmall hsome hlt (by omega)
  | fill zeroPadBytes =>
      rcases zeroPadBytes with - | count
      · exact .ok hholds
      · have hlt := hsize (Nat.succ_pos _)
        have hlength : count + 1 < 2 ^ 30 := hspace
        exact hholds.fill hlt (by omega)
  | scratchPushSmall bytes =>
      have hsome : bytes ≠ [] := of_decide_eq_true hlegal
      rw [space] at htotal
      exact hholds.scratchPushSmall hsome (hsize (List.length_pos_iff.mpr hsome)) (by omega)
  | pop bytesToRemove =>
      have hfront : (contents.data.take bytesToRemove).length = bytesToRemove :=
        List.length_take_of_le (of_decide_eq_true hlegal)
      rw [← List.take_append_drop bytesToRemove contents.data] at hholds
      have hpopped := hholds.pop
      rw [hfront] at hpopped
      exact .ok hpopped
  | scratchPop bytesToRemove =>
      have hlast : (contents.pad.drop (contents.pad.length - bytesToRemove)).length =
          bytesToRemove := by
        have hle : bytesToRemove ≤ contents.pad.length := of_decide_eq_true hlegal
        rw [List.length_drop]
        omega
      rw [← List.take_append_drop (contents.pad.length - bytesToRemove) contents.pad] at hholds
      have hpopped := hholds.scratchPop
      rw [hlast] at hpopped
      exact .ok hpopped
  | clearScratch => exact .ok hholds.clearScratch
  | clear => exact .ok hholds.clear

theorem perform_error (hholds : v.Holds contents.data contents.pad) (hspace : 0 < call.space)
    (hfull : maxBufferSize ≤ contents.data.length) : call.perform v = .error .assertion := by
  cases call with
  | push bytes =>
      have hsome : ¬ bytes.length = 0 := Nat.pos_iff_ne_zero.mp hspace
      have hnone : v.makeSpace bytes.length = .error .assertion :=
        hholds.makeSpace_error hspace hfull
      rw [perform, VectorDownward.push, if_neg hsome]
      change (v.makeSpace bytes.length >>= _) = _
      rw [hnone]
      rfl
  | pushSmall bytes =>
      have hnone : v.makeSpace bytes.length = .error .assertion :=
        hholds.makeSpace_error hspace hfull
      change (v.makeSpace bytes.length >>= _) = _
      rw [hnone]
      rfl
  | fill zeroPadBytes =>
      have hsome : ¬ zeroPadBytes = 0 := Nat.pos_iff_ne_zero.mp hspace
      have hnone : v.makeSpace zeroPadBytes = .error .assertion :=
        hholds.makeSpace_error hspace hfull
      rw [perform, VectorDownward.fill, if_neg hsome]
      change (v.makeSpace zeroPadBytes >>= _) = _
      rw [hnone]
      rfl
  | scratchPushSmall bytes =>
      have hnone : v.ensureSpace bytes.length = .error .assertion :=
        hholds.ensureSpace_error hspace hfull
      change (v.ensureSpace bytes.length >>= _) = _
      rw [hnone]
      rfl
  | pop | scratchPop | clearScratch | clear => exact absurd hspace (lt_irrefl 0)

end VectorCall

/-! ## The size of the allocation -/

namespace VectorDownward

variable {v w : VectorDownward} {len : Nat}

/-- The allocation is kept, or replaced because the free part is too small. -/
structure Grown (v : VectorDownward) (len : Nat) (w : VectorDownward) : Prop where
  initialSize : w.initialSize = v.initialSize
  reserved : w.reserved ≤ v.reserved ∨ v.unusedBufferSize < len ∧ w.reserved = v.grownSize len

theorem Grown.refl (v : VectorDownward) (len : Nat) : v.Grown len v := ⟨rfl, .inl le_rfl⟩

theorem grown_ensureSpace (v : VectorDownward) (len : Nat) :
    Ensures (v.ensureSpace len) (v.Grown len) := by
  refine .bind_any fun _ => Ensures.bind ?_ fun w hw => .bind_any fun _ => .ok hw
  rw [VectorDownward.grow]
  split
  · next hroom =>
      have hmoved (buf : Bytes) : Ensures (.ok (v.moveTo (v.grownSize len) buf) : Building _)
          (v.Grown len) := .ok ⟨rfl, .inr ⟨hroom, rfl⟩⟩
      rw [VectorDownward.reallocate]
      split <;> exact .bind_any hmoved
  · exact .ok (.refl v len)

theorem grown_makeSpace (v : VectorDownward) (len : Nat) :
    Ensures (v.makeSpace len) (v.Grown len) := by
  rw [VectorDownward.makeSpace]
  split
  · exact .ok (.refl v len)
  · exact (grown_ensureSpace v len).bind fun w hw => .ok ⟨hw.initialSize, hw.reserved⟩

theorem Grown.writeBytes (hgrown : v.Grown len w) (address : Nat) (bytes : Bytes) :
    Ensures (w.writeBytes address bytes) (v.Grown len) := by
  rw [VectorDownward.writeBytes]
  split
  · exact .bind_any fun buf => .ok ⟨hgrown.initialSize, hgrown.reserved⟩
  · exact .error

theorem grown_pushSmall (v : VectorDownward) (bytes : Bytes) :
    Ensures (v.pushSmall bytes) (v.Grown bytes.length) :=
  (grown_makeSpace v bytes.length).bind fun _ hw => hw.writeBytes _ _

end VectorDownward

theorem VectorCall.grown_perform (v : VectorDownward) (call : VectorCall) :
    Ensures (call.perform v) (v.Grown call.space) := by
  cases call with
  | push bytes =>
      rw [perform, VectorDownward.push]
      split
      · exact .ok (.refl v _)
      · exact VectorDownward.grown_pushSmall v bytes
  | pushSmall bytes => exact VectorDownward.grown_pushSmall v bytes
  | fill zeroPadBytes =>
      rw [perform, VectorDownward.fill]
      split
      · exact .ok (.refl v _)
      · exact (VectorDownward.grown_makeSpace v zeroPadBytes).bind fun _ hw => hw.writeBytes _ _
  | scratchPushSmall bytes =>
      refine (VectorDownward.grown_ensureSpace v bytes.length).bind fun w hw => ?_
      exact (hw.writeBytes _ _).bind fun u hu => .ok ⟨hu.initialSize, hu.reserved⟩
  | pop | scratchPop | clearScratch => exact .ok ⟨rfl, .inl le_rfl⟩
  | clear =>
      refine .ok ?_
      rw [VectorDownward.clear]
      split
      · exact ⟨rfl, .inl le_rfl⟩
      · exact ⟨rfl, .inl (Nat.zero_le _)⟩

/-- An allocation that is replaced was full, so that its successor is not too large. -/
theorem VectorDownward.Grown.reserved_lt {v w : VectorDownward} {data pad : Bytes} {len : Nat}
    (hgrown : v.Grown len w) (hholds : v.Holds data pad) (hinitial : v.initialSize ≤ 2 ^ 31)
    (hreserved : v.reserved < 2 ^ 32) (hlen : len < 2 ^ 30)
    (htotal : data.length + pad.length + len ≤ 2 ^ 31 + 2 ^ 29) : w.reserved < 2 ^ 32 := by
  rcases hgrown.reserved with hkept | ⟨hroom, hnew⟩
  · exact hkept.trans_lt hreserved
  · obtain ⟨gap, hmemory, hcur⟩ := hholds.exists_gap
    have hscratch := hholds.scratch_eq
    have hlength := hholds.reserved_eq
    rw [hmemory, List.length_append, List.length_append] at hlength
    -- The free part is smaller than what it is measured modulo.
    rw [unusedBufferSize, Nat.mod_eq_of_lt (by omega)] at hroom
    rw [hnew, grownSize]
    dsimp only [bufferMinalign]
    split <;> omega

/-- Whatever the initial size up to 2 GiB, and whatever fresh memory contains, a vector
on which only legal calls are made holds exactly the two sequences the calls
describe, in an allocation of less than 4 GiB that it never leaves.  It stops only
where space is asked for beyond the maximal size, and there with the assertion made
for it. -/
theorem vector_refines (allocator : Allocator) (initialSize : Nat) (calls : List VectorCall)
    (hinitial : initialSize ≤ 2 ^ 31) (hlegal : VectorCall.legalRun {} calls = true) :
    match calls.foldlM VectorCall.effect? {} with
    | some contents =>
        Succeeds (calls.foldlM VectorCall.perform ⟨allocator, initialSize, 0, 0, none, 0, 0⟩)
          fun v => v.Holds contents.data contents.pad ∧ v.reserved < 2 ^ 32
    | none =>
        calls.foldlM VectorCall.perform ⟨allocator, initialSize, 0, 0, none, 0, 0⟩ =
          .error .assertion := by
  have hnew := VectorDownward.holds_new allocator initialSize
  obtain ⟨v, hv⟩ : ∃ v : VectorDownward, v = ⟨allocator, initialSize, 0, 0, none, 0, 0⟩ := ⟨_, rfl⟩
  have hreserved : v.reserved < 2 ^ 32 := by
    rw [hv]
    exact Nat.two_pow_pos 32
  have hsmall : v.initialSize ≤ 2 ^ 31 := by
    rw [hv]
    exact hinitial
  rw [← hv] at hnew ⊢
  clear hv
  revert hlegal hnew
  change _ → v.Holds ({} : Contents).data ({} : Contents).pad → _
  generalize ({} : Contents) = contents
  intro hlegal hholds
  induction calls generalizing v contents with
  | nil => exact .ok ⟨hholds, hreserved⟩
  | cons call rest ih =>
      obtain ⟨hcall, hrest⟩ := Bool.and_eq_true_iff.mp hlegal
      rw [List.foldlM_cons, List.foldlM_cons]
      by_cases hfull : 0 < call.space ∧ maxBufferSize ≤ contents.data.length
      · rw [VectorCall.effect?, if_pos hfull, VectorCall.perform_error hholds hfull.1 hfull.2]
        rfl
      · have heffect : call.effect? contents = some (call.effect contents) := if_neg hfull
        obtain ⟨w, hw, hafter⟩ := VectorCall.perform_ok hholds hcall hfull
        have hgrown := VectorCall.grown_perform v call w hw
        simp only [VectorCall.legal, Bool.and_eq_true, decide_eq_true_eq] at hcall
        have hbound := hgrown.reserved_lt hholds hsmall hreserved hcall.1.1 hcall.1.2
        rw [heffect] at hrest ⊢
        rw [hw]
        exact ih w hbound (hgrown.initialSize.le.trans hsmall) _ hrest hafter

/-- Both sequences outgrow an allocation of eight bytes more than once. -/
def sampleCalls : List VectorCall :=
  [.fill 3, .scratchPushSmall [1, 2, 3, 4], .pushSmall [5, 6, 7, 8], .scratchPushSmall [9, 10],
    .push [11, 12, 13, 14, 15, 16, 17], .pop 2, .scratchPop 1]

theorem vector_refines_sample :
    Succeeds (sampleCalls.foldlM VectorCall.perform ⟨.sample, 8, 0, 0, none, 0, 0⟩)
      fun v => v.Holds [13, 14, 15, 16, 17, 5, 6, 7, 8, 0, 0, 0] [1, 2, 3, 4, 9] ∧
        v.reserved < 2 ^ 32 :=
  vector_refines .sample 8 sampleCalls (by decide) (by decide)

end FlatBuffers
