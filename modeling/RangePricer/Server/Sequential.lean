import Mathlib.Data.List.Infix
import RangePricer.Server.Completion
import RangePricer.Server.Prices

/-!
# The server as a function

What the workers, pipes and schedules compute together is a function of the
message alone: every pair is priced by itself, at a price that depends on the
parameters and on the position of the pair in its chunk, and the results are
listed by `idx`.  The concurrent server refines that function: whatever the
interleaving, its replies are the function's values, in the order of the
messages.
-/

namespace RangePricer

open FlatBuffers Transition Transition.System

variable {env : Env} {messages : List Bytes}

/-! ## What a message is worth -/

/-- The number of pairs in the chunk that holds position `i` of `total`. -/
def chunkSize (width total i : Nat) : Nat :=
  min width (total - i / width * width)

/-- The price of position `i`: the whole vectors of its chunk go through the
vector loop, the rest of the chunk through the scalar tail. -/
def positionPrice (env : Env) (rr : RangePricingRequest) (i : Nat) : Binary32 :=
  let width := env.simdLanes.toNat
  if i % width < vectorCount env.simd.lanes (chunkSize width rr.pairs.length i) then
    env.fp.vectorPrice (batchParams rr.request)
  else env.fp.scalarPrice (batchParams rr.request)

/-- The result of the pair at position `i`; the results of a chunk that reaches
the verifier's table limit are lost. -/
def positionResult (env : Env) (rr : RangePricingRequest) (pair : AlphaBetaPair) (i : Nat) :
    Option PricingResponse :=
  if chunkSize env.simdLanes.toNat rr.pairs.length i < maxTables then
    some (createPricingResponse pair.idx pair.alpha pair.beta (positionPrice env rr i)
      Binary32.zero)
  else none

/-- The results of a request, in the order of its pairs; there are none if its
chunks cannot be counted. -/
def sequentialResults (env : Env) (rr : RangePricingRequest) : List PricingResponse :=
  if rr.request.accepted ∧ 1 ≤ env.simdLanes ∧
      (rr.pairs.length : Int) + env.simdLanes - 1 ≤ intMax then
    rr.pairs.zipIdx.filterMap fun entry => positionResult env rr entry.1 entry.2
  else []

/-- The reply to a message, computed without workers. -/
def serveSequentially (env : Env) (msg : Bytes) : RangePricingResponse :=
  if verifyRangePricingRequestBuffer msg then
    let rr := RangePricingRequest.ofBytes msg
    ⟨rr.requestHash, some (StdSort.insertion.run (sequentialResults env rr))⟩
  else errorReply

/-! ## The batches of a request compute it -/

/-- Consecutive windows of one width, their positions included, make up a prefix. -/
theorem flatMap_windows_zipIdx {α β : Type} (xs : List α) (f : α × Nat → Option β)
    (width count : Nat) :
    (List.range count).flatMap (fun c =>
        (((xs.drop (c * width)).take width).zipIdx (c * width)).filterMap f) =
      ((xs.take (count * width)).zipIdx).filterMap f := by
  induction count with
  | zero => simp
  | succ count ih =>
      rw [List.range_succ, List.flatMap_append, ih, Nat.add_mul, Nat.one_mul, List.take_add,
        List.zipIdx_append, List.filterMap_append]
      congr 1
      rw [List.flatMap_cons, List.flatMap_nil, List.append_nil]
      -- A window behind the end of the list is empty, wherever it starts.
      obtain hinside | hbehind := Nat.le_total (count * width) xs.length
      · rw [List.length_take_of_le hinside, Nat.zero_add]
      · rw [List.drop_eq_nil_of_le hbehind]
        simp

/-- The two halves of the price arrays, position by position. -/
theorem batchResults_eq_map (fp : FloatUnit) (simd : Simd) (params : PricingParams)
    (pairs : List AlphaBetaPair) :
    batchResults fp simd params pairs = pairs.zipIdx.map fun entry =>
      createPricingResponse entry.1.idx entry.1.alpha entry.1.beta
        (if entry.2 < vectorCount simd.lanes pairs.length then fp.vectorPrice params
          else fp.scalarPrice params) Binary32.zero := by
  apply List.ext_getElem
  · rw [batchResults_length, List.length_map, List.length_zipIdx]
  intro j hj _
  simp only [batchResults, priceArrays_eq, List.getElem_zipWith, List.getElem_append,
    List.length_replicate, List.getElem_replicate, List.getElem_map, List.getElem_zipIdx,
    Nat.zero_add, FloatUnit.vectorPrice, FloatUnit.scalarPrice]
  split <;> rfl

/-- Position `j` of a chunk lies in that chunk. -/
theorem position_in_chunk {width c j : Nat} (hj : j < width) :
    (c * width + j) / width = c ∧ (c * width + j) % width = j := by
  have hwidth : 0 < width := Nat.zero_lt_of_lt hj
  rw [Nat.mul_comm c width, Nat.mul_add_div hwidth, Nat.mul_add_mod, Nat.div_eq_of_lt hj,
    Nat.mod_eq_of_lt hj]
  exact ⟨rfl, rfl⟩

/-- Inside a chunk the result of a position depends on the place in the chunk. -/
theorem positionResult_chunk {rr : RangePricingRequest} {c j : Nat} (pair : AlphaBetaPair)
    (hj : j < (chunkBatch rr env.simdLanes.toNat c).pairs.length) :
    positionResult env rr pair (c * env.simdLanes.toNat + j) =
      if (chunkBatch rr env.simdLanes.toNat c).pairs.length < maxTables then
        some (createPricingResponse pair.idx pair.alpha pair.beta
          (if j < vectorCount env.simd.lanes (chunkBatch rr env.simdLanes.toNat c).pairs.length then
            env.fp.vectorPrice (batchParams rr.request)
          else env.fp.scalarPrice (batchParams rr.request)) Binary32.zero)
      else none := by
  rw [chunkBatch_pairs_length] at hj ⊢
  obtain ⟨hdiv, hmod⟩ : (c * env.simdLanes.toNat + j) / env.simdLanes.toNat = c ∧ _ :=
    position_in_chunk (hj.trans_le (Nat.min_le_left _ _))
  simp only [positionResult, positionPrice, chunkSize, hdiv, hmod]

/-- A batch is worth the results of its positions. -/
theorem collect_chunkBatch {rr : RangePricingRequest} (c : Nat)
    (hpairs : rr.pairs.length < maxBufferSize / 12) (haccepted : rr.request.accepted = true) :
    collect (workerReply env (chunkBatch rr env.simdLanes.toNat c)) =
      ((chunkBatch rr env.simdLanes.toNat c).pairs.zipIdx (c * env.simdLanes.toNat)).filterMap
        fun entry => positionResult env rr entry.1 entry.2 := by
  have hlength := chunkBatch_pairs_length rr env.simdLanes.toNat c
  have hbatchAccepted : (chunkBatch rr env.simdLanes.toNat c).request.accepted = true :=
    (batchParams_accepted rr.request).trans haccepted
  rw [collect_accepted (by omega) hbatchAccepted, List.zipIdx_eq_map_add, List.filterMap_map]
  refine Eq.trans ?_ (List.filterMap_congr fun entry hentry =>
    positionResult_chunk entry.1 (List.snd_lt_of_mem_zipIdx hentry)).symm
  split
  · rw [batchResults_eq_map, List.filterMap_eq_map']
    rfl
  · exact (List.filterMap_eq_nil_iff.mpr fun _ _ => rfl).symm

/-- The batches of a verified request are worth its sequential results. -/
theorem contributions_eq_sequential {msg : Bytes}
    (hmsg : verifyRangePricingRequestBuffer msg = true) :
    contributions env (requestBatches env msg) =
      sequentialResults env (RangePricingRequest.ofBytes msg) := by
  rw [sequentialResults]
  split
  · next hrange =>
      obtain ⟨haccepted, hlanes, hfits⟩ := hrange
      have hwidth : 0 < env.simdLanes.toNat := by omega
      have hwhole : (RangePricingRequest.ofBytes msg).pairs.length ≤ _ := chunkCount_covers hwidth
      rw [contributions, requestBatches, slicedBatches_eq hlanes hfits, chunkBatches,
        List.flatMap_map,
        List.flatMap_congr fun c _ => collect_chunkBatch c (verified_pairs_lt hmsg) haccepted]
      refine (flatMap_windows_zipIdx _ _ _ _).trans ?_
      rw [List.take_of_length_le hwhole]
  · next hrange =>
      cases haccepted : (RangePricingRequest.ofBytes msg).request.accepted with
      | false => exact contributions_rejected hmsg haccepted
      | true =>
          have hnone : requestBatches env msg = [] := if_neg fun hfits => hrange ⟨haccepted, hfits⟩
          rw [hnone]
          rfl

/-! ## The server refines the function -/

/-- The same reply up to the order of results with one `idx`. -/
structure RangePricingResponse.Refines (reply sequential : RangePricingResponse) : Prop where
  requestHash : reply.requestHash = sequential.requestHash
  present : reply.results.isSome = sequential.results.isSome
  results : (reply.results.getD []).Perm (sequential.results.getD [])
  order : (reply.results.getD []).map (·.idx) = (sequential.results.getD []).map (·.idx)

/-- Sorted rearrangements list the same `idx` in the same order. -/
theorem map_idx_eq_of_perm {results results' : List PricingResponse}
    (hperm : results.Perm results') (hsorted : results.Pairwise (fun a b => a.idx ≤ b.idx))
    (hsorted' : results'.Pairwise (fun a b => a.idx ≤ b.idx)) :
    results.map (·.idx) = results'.map (·.idx) :=
  (hperm.map _).eq_of_pairwise (fun _ _ _ _ hab hba => UInt32.le_antisymm hab hba)
    (List.pairwise_map.mpr hsorted) (List.pairwise_map.mpr hsorted')

/-- Rearrangements that list the same `idx` are the same if no `idx` repeats. -/
theorem eq_of_perm_of_map_idx {results results' : List PricingResponse}
    (hperm : results.Perm results') (horder : results.map (·.idx) = results'.map (·.idx))
    (hdistinct : (results.map (·.idx)).Nodup) : results = results' := by
  have hlength : results.length = results'.length := hperm.length_eq
  apply List.ext_getElem hlength
  intro i hi hi'
  have hmem : results'[i] ∈ results := hperm.symm.subset (List.getElem_mem hi')
  apply List.inj_on_of_nodup_map hdistinct (List.getElem_mem hi) hmem
  have hidx := congrArg (fun idxs => idxs[i]?) horder
  simpa [hi, hi'] using hidx

/-- A malformed message is answered by the error reply. -/
theorem Answers.eq_errorReply {msg : Bytes} {reply : RangePricingResponse}
    (hmsg : verifyRangePricingRequestBuffer msg = false) (hanswers : Answers env msg reply) :
    reply = errorReply := by
  obtain ⟨-, rfl⟩ | ⟨hgood, -⟩ := hanswers
  · rfl
  · rw [hmsg] at hgood
    cases hgood

theorem Answers.refines {msg : Bytes} {reply : RangePricingResponse}
    (hanswers : Answers env msg reply) : reply.Refines (serveSequentially env msg) := by
  cases hmsg : verifyRangePricingRequestBuffer msg with
  | false =>
      rw [hanswers.eq_errorReply hmsg, serveSequentially, hmsg]
      exact ⟨rfl, rfl, List.Perm.refl _, rfl⟩
  | true =>
      obtain ⟨results, rfl, hperm, hsorted⟩ := hanswers.exists_results hmsg
      rw [contributions_eq_sequential hmsg] at hperm
      have hsame := hperm.trans (StdSort.insertion.perm _).symm
      rw [serveSequentially, hmsg]
      exact ⟨rfl, rfl, hsame, map_idx_eq_of_perm hsame hsorted (StdSort.insertion.sorted _)⟩

/-- The message repeats no `idx`. -/
def DistinctIdx (msg : Bytes) : Prop :=
  verifyRangePricingRequestBuffer msg = true →
    ((RangePricingRequest.ofBytes msg).pairs.map (·.idx)).Nodup

instance (msg : Bytes) : Decidable (DistinctIdx msg) :=
  inferInstanceAs (Decidable (_ → _))

/-- A message without repeated `idx` has one reply. -/
theorem Answers.eq_sequential {msg : Bytes} {reply : RangePricingResponse}
    (hdistinct : DistinctIdx msg) (hanswers : Answers env msg reply) :
    reply = serveSequentially env msg := by
  have hrefines := hanswers.refines
  cases hmsg : verifyRangePricingRequestBuffer msg with
  | false =>
      rw [hanswers.eq_errorReply hmsg, serveSequentially, hmsg]
      rfl
  | true =>
      obtain ⟨results, rfl, hperm, -⟩ := hanswers.exists_results hmsg
      have hnodup : (results.map (·.idx)).Nodup := by
        rw [(hperm.map _).nodup_iff]
        exact (hdistinct hmsg).sublist (requestBatches_idx_sublist hmsg)
      obtain ⟨-, -, hsame, horder⟩ := hrefines
      rw [serveSequentially, hmsg] at hsame horder ⊢
      have hequal := eq_of_perm_of_map_idx hsame horder hnodup
      simpa using hequal

/-- The messages answered so far are the first ones. -/
theorem exists_answers_prefix {state : State env.threads}
    (hreach : (server env).Reachable (State.init env.threads messages) state) :
    ∃ answered, answered <+: messages ∧ List.Forall₂ (Answers env) answered state.replies := by
  obtain ⟨answered, current, hsplit, hreplies, -⟩ := inventory_of_reachable hreach
  rw [List.append_assoc] at hsplit
  exact ⟨answered, ⟨_, hsplit.symm⟩, hreplies⟩

theorem eq_map_of_forall₂ {α β : Type} {R : α → β → Prop} {f : α → β} {xs : List α} {ys : List β}
    (hrelated : List.Forall₂ R xs ys) (hunique : ∀ x ∈ xs, ∀ y, R x y → y = f x) :
    ys = xs.map f := by
  induction hrelated with
  | nil => rfl
  | cons hxy _ ih =>
      rw [List.map_cons, ← hunique _ List.mem_cons_self _ hxy,
        ← ih fun x hx => hunique x (List.mem_cons_of_mem _ hx)]

theorem Completed.replies_eq {state : State env.threads}
    (hdistinct : ∀ msg ∈ messages, DistinctIdx msg) (hdone : Completed env messages state) :
    state.replies = messages.map (serveSequentially env) :=
  eq_map_of_forall₂ hdone.replies fun msg hmsg _ hanswers =>
    hanswers.eq_sequential (hdistinct msg hmsg)

/-- Whatever the schedule, the replies are those of the function up to the order of
results with one `idx`.  Where no message repeats an `idx` they are its values on
the first messages, and on all messages once a schedule is over, if each message
can be served. -/
theorem serving_refines_sequential (env : Env) (messages : List Bytes)
    (hdispatch : 1 ≤ env.dispatchHwm) (hresults : 1 ≤ env.resultsHwm) :
    (∀ state, (server env).Reachable (State.init env.threads messages) state →
      ∃ answered, answered <+: messages ∧
        List.Forall₂ RangePricingResponse.Refines state.replies
          (answered.map (serveSequentially env))) ∧
    ((∀ msg ∈ messages, DistinctIdx msg) →
      (∀ state, (server env).Reachable (State.init env.threads messages) state →
        state.replies <+: messages.map (serveSequentially env)) ∧
      ((∀ msg ∈ messages, servable env msg = true) → ∀ actions state,
        (server env).Completes (State.init env.threads messages) actions state →
          state.replies = messages.map (serveSequentially env))) := by
  refine ⟨fun state hreach => ?_, fun hdistinct => ⟨fun state hreach => ?_,
    fun hservable actions state hend => ?_⟩⟩
  · obtain ⟨answered, hinit, hreplies⟩ := exists_answers_prefix hreach
    refine ⟨answered, hinit, ?_⟩
    rw [List.forall₂_map_right_iff]
    exact hreplies.flip.imp fun reply msg hanswers => hanswers.refines
  · obtain ⟨answered, hinit, hreplies⟩ := exists_answers_prefix hreach
    rw [eq_map_of_forall₂ hreplies fun msg hmsg _ hanswers =>
      hanswers.eq_sequential (hdistinct msg (hinit.subset hmsg))]
    exact hinit.map _
  · have hdone := completed_of_servable hend.reachable hend.stuck hdispatch hresults hservable
    exact hdone.replies_eq hdistinct

/-- Three pairs, one to a batch, and a malformed message. -/
theorem serving_refines_sample :
    ∃ actions state, (server Env.sample).Completes (State.init Env.sample.threads
        [(RangePricingRequest.sample ([2, 0, 1].map AlphaBetaPair.sample)).toBytes, [0]])
        actions state ∧
      state.replies = [⟨1, some (([0, 1, 2].map AlphaBetaPair.sample).map fun pair =>
        createPricingResponse pair.idx pair.alpha pair.beta ⟨0x3f6eb15c⟩ Binary32.zero)⟩,
        errorReply] := by
  obtain ⟨actions, state, hend⟩ := exists_server_completes Env.sample
    [(RangePricingRequest.sample ([2, 0, 1].map AlphaBetaPair.sample)).toBytes, [0]]
  have hserves := ((serving_refines_sequential Env.sample
    [(RangePricingRequest.sample ([2, 0, 1].map AlphaBetaPair.sample)).toBytes, [0]]
    le_rfl le_rfl).2 (by decide +kernel)).2 (by decide +kernel) actions state hend
  refine ⟨actions, state, hend, hserves.trans ?_⟩
  decide +kernel

end RangePricer
