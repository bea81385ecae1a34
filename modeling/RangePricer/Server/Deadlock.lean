import Mathlib.Data.List.TakeWhile
import RangePricer.Server.Progress

/-!
# When serving deadlocks

A request within the capacity runs to its reply; a request beyond it can be
driven into the deadlock, whatever was served before.  Together they say exactly
which message sequences are free of deadlock under every interleaving.
-/

namespace RangePricer

open FlatBuffers Transition Transition.System

variable {env : Env} {messages : List Bytes}

/-- `expand_to_batches` faulted. -/
def ServerPhase.hasCrashed : ServerPhase → Bool
  | .crashed _ => true
  | .awaiting | .dispatching .. | .collecting .. | .replying _ => false

/-- The messages up to the first one the expansion faults on; the others are never received. -/
def receivable (env : Env) (messages : List Bytes) : List Bytes :=
  messages.takeWhile fun msg => !(handleMessage env msg).hasCrashed

theorem handleMessage_serving {msg : Bytes} (hmsg : (handleMessage env msg).hasCrashed = false) :
    (handleMessage env msg).serving = true := by
  unfold handleMessage at hmsg ⊢
  split
  · next hverified =>
      rw [if_pos hverified] at hmsg
      dsimp only at hmsg ⊢
      split
      · rfl
      · next fault hexpand =>
          rw [hexpand] at hmsg
          cases hmsg
  · rfl

/-- A message that leads to batches is being dispatched. -/
theorem exists_dispatching {msg : Bytes} (hbatches : 0 < (handleMessage env msg).batchCount) :
    ∃ rr batches, handleMessage env msg = .dispatching rr batches 0 := by
  unfold handleMessage at hbatches ⊢
  split
  · next hverified =>
      rw [if_pos hverified] at hbatches
      dsimp only at hbatches ⊢
      split
      · exact ⟨_, _, rfl⟩
      · next fault hexpand =>
          rw [hexpand] at hbatches
          cases hbatches
  · next hmalformed =>
      rw [if_neg hmalformed] at hbatches
      cases hbatches

theorem recv_step {state : State env.threads} {msg : Bytes} {rest : List Bytes}
    (hawaiting : state.server = .awaiting) (hinbox : state.inbox = msg :: rest) :
    (server env).Step state { state with server := handleMessage env msg, inbox := rest } :=
  (ServerStep.frontendRecv msg rest hawaiting hinbox).step

/-! ## Runs to the reply -/

/-- While a request is served the inbox stays, the batches do not grow, and the
phase ends with one more reply. -/
theorem serving_cases {state next : State env.threads} (hserving : state.server.serving = true)
    (hstep : (server env).Step state next) :
    next.inbox = state.inbox ∧ next.server.batchCount ≤ state.server.batchCount ∧
      ((next.server.serving = true ∧ next.replies = state.replies) ∨
        (next.server = .awaiting ∧ ∃ reply, next.replies = state.replies ++ [reply])) := by
  obtain hserver | ⟨i, worker, hworker, rfl⟩ := step_cases hstep
  · cases hserver with
    | frontendRecv msg rest hserver hinbox =>
        simp [hserver, ServerPhase.serving] at hserving
    | dispatchSend i rr batches sent batch hserver hbatch hroom =>
        exact ⟨rfl, by simp [hserver, ServerPhase.batchCount], .inl ⟨rfl, rfl⟩⟩
    | endDispatch rr batches hserver =>
        exact ⟨rfl, by simp [hserver, ServerPhase.batchCount], .inl ⟨rfl, rfl⟩⟩
    | resultsRecv i rr batches received allResults msg rest hserver hpipe hmore =>
        exact ⟨rfl, by simp [hserver, ServerPhase.batchCount], .inl ⟨rfl, rfl⟩⟩
    | endCollect rr batches allResults hserver =>
        exact ⟨rfl, Nat.zero_le _, .inl ⟨rfl, rfl⟩⟩
    | frontendSend reply hserver =>
        exact ⟨rfl, Nat.zero_le _, .inr ⟨rfl, reply, rfl⟩⟩
  · exact ⟨rfl, le_rfl, .inl ⟨hserving, rfl⟩⟩

/-- A request within the capacity can be run to its reply. -/
theorem exists_answered {state : State env.threads} (hdispatch : 1 ≤ env.dispatchHwm)
    (hresults : 1 ≤ env.resultsHwm)
    (hreach : (server env).Reachable (State.init env.threads messages) state)
    (hserving : state.server.serving = true)
    (hsmall : state.server.batchCount ≤ capacity env) :
    ∃ target reply, (server env).Reachable (State.init env.threads messages) target ∧
      target.server = .awaiting ∧ target.inbox = state.inbox ∧
        target.replies = state.replies ++ [reply] := by
  let Inv (s : State env.threads) : Prop :=
    (server env).Reachable (State.init env.threads messages) s ∧ s.inbox = state.inbox ∧
      s.server.batchCount ≤ capacity env ∧
        ((s.server.serving = true ∧ s.replies = state.replies) ∨
          (s.server = .awaiting ∧ ∃ reply, s.replies = state.replies ++ [reply]))
  have hkeep (before after : State env.threads) (hinv : Inv before)
      (hphase : before.server.serving = true) (hstep : (server env).Step before after) :
      Inv after ∧ after.work < before.work := by
    obtain ⟨hbefore, hinbox, hcount, hreplies⟩ := hinv
    obtain ⟨hinbox', hcount', hcases⟩ := serving_cases hphase hstep
    have hsame : before.replies = state.replies := by
      obtain ⟨_, hsame⟩ | ⟨hawaiting, _⟩ := hreplies
      · exact hsame
      · simp [hawaiting, ServerPhase.serving] at hphase
    rw [hsame] at hcases
    exact ⟨⟨hbefore.tail hstep, hinbox'.trans hinbox, hcount'.trans hcount, hcases⟩,
      work_lt hphase hstep⟩
  have hstart : Inv state := ⟨hreach, rfl, hsmall, .inl ⟨hserving, rfl⟩⟩
  obtain ⟨target, -, ⟨htarget, hinbox, hcount, hreplies⟩, hsettled⟩ :=
    exists_settled State.work hkeep hstart
  obtain ⟨hphase, _⟩ | ⟨hawaiting, reply, hreply⟩ := hreplies
  · -- Still serving and stuck would be a deadlock, which needs more batches.
    have hinv := inventory_of_reachable htarget
    obtain henabled | hdead := enabled_or_deadlocked hdispatch hresults hinv hphase
    · exact absurd henabled (hsettled hphase)
    · exact absurd (hdead.capacity_lt hinv) (Nat.not_lt.mpr hcount)
  · exact ⟨target, reply, htarget, hawaiting, hinbox, hreply⟩

/-- Messages within the capacity are answered one after the other. -/
theorem exists_awaiting {pre rest : List Bytes} {state : State env.threads}
    (hdispatch : 1 ≤ env.dispatchHwm) (hresults : 1 ≤ env.resultsHwm)
    (hsafe : ∀ msg ∈ pre, (handleMessage env msg).hasCrashed = false ∧
      (handleMessage env msg).batchCount ≤ capacity env)
    (hreach : (server env).Reachable (State.init env.threads messages) state)
    (hawaiting : state.server = .awaiting) (hinbox : state.inbox = pre ++ rest) :
    ∃ target, (server env).Reachable (State.init env.threads messages) target ∧
      target.server = .awaiting ∧ target.inbox = rest ∧
        target.replies.length = state.replies.length + pre.length := by
  induction pre generalizing state with
  | nil => exact ⟨state, hreach, hawaiting, hinbox, rfl⟩
  | cons msg pre ih =>
      obtain ⟨hcrash, hcount⟩ := hsafe msg List.mem_cons_self
      have hserving := handleMessage_serving hcrash
      generalize hphase : handleMessage env msg = phase at hserving hcount
      have hrecv : (server env).Step state _ := recv_step hawaiting hinbox
      rw [hphase] at hrecv
      obtain ⟨middle, reply, hmiddle, hserver, hrest, hreplies⟩ :=
        exists_answered hdispatch hresults (hreach.tail hrecv) hserving hcount
      obtain ⟨target, htarget, hdone, hleft, hlength⟩ :=
        ih (fun msg hmsg => hsafe msg (List.mem_cons_of_mem _ hmsg)) hmiddle hserver hrest
      refine ⟨target, htarget, hdone, hleft, ?_⟩
      simp only [hlength, hreplies, List.length_append, List.length_cons, List.length_nil]
      omega

/-! ## Runs into the deadlock -/

/-- A request beyond the capacity is driven into the deadlock by any schedule. -/
theorem exists_deadlocked {state : State env.threads} {msg : Bytes} {rest : List Bytes}
    (hdispatch : 1 ≤ env.dispatchHwm) (hresults : 1 ≤ env.resultsHwm)
    (hreach : (server env).Reachable (State.init env.threads messages) state)
    (hawaiting : state.server = .awaiting) (hinbox : state.inbox = msg :: rest)
    (hlarge : capacity env < (handleMessage env msg).batchCount) :
    ∃ target, (server env).Reachable (State.init env.threads messages) target ∧
      Deadlocked env target := by
  obtain ⟨rr, batches, hphase⟩ := exists_dispatching (Nat.lt_of_le_of_lt (Nat.zero_le _) hlarge)
  rw [hphase, ServerPhase.batchCount] at hlarge
  have hrecv := recv_step hawaiting hinbox
  let Inv (s : State env.threads) : Prop :=
    (server env).Reachable (State.init env.threads messages) s ∧
      ∃ sent, s.server = .dispatching rr batches sent
  have hkeep (before after : State env.threads) (hinv : Inv before) (_ : True)
      (hstep : (server env).Step before after) : Inv after ∧ after.work < before.work := by
    obtain ⟨hbefore, sent, hserver⟩ := hinv
    refine ⟨⟨hbefore.tail hstep, ?_⟩, work_lt (by rw [hserver]; rfl) hstep⟩
    -- The dispatch cannot end: all batches would have to be under way.
    have hroom : sent < batches.length := by
      have hsent := (inventory_of_reachable hbefore).sent_eq hserver
      have hcard := card_inFlight_le (fits_of_reachable hbefore)
      omega
    obtain hstep | ⟨i, worker, hworker, rfl⟩ := step_cases hstep
    · cases hstep with
      | frontendRecv _ _ hother => rw [hserver] at hother; cases hother
      | dispatchSend _ _ _ _ _ hother =>
          rw [hserver] at hother
          cases hother
          exact ⟨_, rfl⟩
      | endDispatch _ _ hother =>
          rw [hserver] at hother
          cases hother
          exact absurd hroom (lt_irrefl _)
      | resultsRecv _ _ _ _ _ _ _ hother => rw [hserver] at hother; cases hother
      | endCollect _ _ _ hother => rw [hserver] at hother; cases hother
      | frontendSend _ hother => rw [hserver] at hother; cases hother
    · exact ⟨sent, hserver⟩
  have hstart : Inv { state with server := handleMessage env msg, inbox := rest } :=
    ⟨hreach.tail hrecv, 0, hphase⟩
  obtain ⟨target, -, ⟨htarget, sent, hserver⟩, hsettled⟩ :=
    exists_settled State.work hkeep hstart
  refine ⟨target, htarget, ?_⟩
  have hserving : target.server.serving = true := by rw [hserver]; rfl
  obtain henabled | hdead :=
    enabled_or_deadlocked hdispatch hresults (inventory_of_reachable htarget) hserving
  · exact absurd henabled (hsettled trivial)
  · exact hdead

/-! ## The exact condition -/

theorem Answers.not_crashed {msg : Bytes} {reply : RangePricingResponse}
    (hanswers : Answers env msg reply) : (handleMessage env msg).hasCrashed = false := by
  cases hanswers with
  | malformed hmsg _ => simp [handleMessage, hmsg, ServerPhase.hasCrashed]
  | served hmsg hgathered =>
      obtain ⟨batches, received, hexpand, _⟩ := hgathered.exists_order
      simp [handleMessage, hmsg, hexpand, ServerPhase.hasCrashed]

/-- The message being served is one the server could receive. -/
theorem Inventory.exists_current {state : State env.threads} (hinv : Inventory env messages state)
    (hserving : 0 < state.server.batchCount) :
    ∃ msg ∈ receivable env messages,
      (handleMessage env msg).batchCount = state.server.batchCount := by
  obtain ⟨answered, current, hsplit, hreplies, haccounts⟩ := hinv
  generalize hserver : state.server = phase at haccounts hserving
  generalize inFlight env state.workers = flight at haccounts
  have hanswered : ∀ msg ∈ answered, (handleMessage env msg).hasCrashed = false := by
    intro msg hmem
    obtain ⟨k, hk, rfl⟩ := List.getElem_of_mem hmem
    obtain ⟨hlength, hforall⟩ := List.forall₂_iff_get.mp hreplies
    exact (hforall k hk (hlength ▸ hk)).not_crashed
  have hreceivable (msg : Bytes) (hcurrent : current = [msg])
      (hcrash : (handleMessage env msg).hasCrashed = false) : msg ∈ receivable env messages := by
    rw [hsplit, hcurrent, receivable, List.append_assoc,
      List.takeWhile_append_of_pos (by simpa using hanswered)]
    simp [hcrash]
  cases haccounts with
  | awaiting => cases hserving
  | dispatching msg batches sent hmsg hexpand hsent =>
      have hhandle := handleMessage_ok hmsg hexpand
      exact ⟨msg, hreceivable msg rfl (by rw [hhandle]; rfl), by rw [hhandle]; rfl⟩
  | collecting msg batches received _ hmsg hexpand htotal =>
      have hhandle := handleMessage_ok hmsg hexpand
      exact ⟨msg, hreceivable msg rfl (by rw [hhandle]; rfl), by rw [hhandle]; rfl⟩
  | replying => cases hserving
  | crashed => cases hserving

/-- Serving never deadlocks, and never stops while a request is served, exactly
when every message the server can receive expands to batches within the capacity. -/
theorem deadlock_free_iff (env : Env) (messages : List Bytes) (hdispatch : 1 ≤ env.dispatchHwm)
    (hresults : 1 ≤ env.resultsHwm) :
    (∀ state, (server env).Reachable (State.init env.threads messages) state →
      ¬ Deadlocked env state ∧
        (state.server.serving = true → (server env).Enabled state)) ↔
      ∀ msg ∈ receivable env messages, (handleMessage env msg).batchCount ≤ capacity env := by
  constructor
  · intro hfree msg hmsg
    by_contra hlarge
    rw [not_le] at hlarge
    -- Take the first message beyond the capacity; all before it are answered.
    obtain ⟨first, hfirst⟩ : ∃ first, (receivable env messages).find?
        (fun msg => decide (capacity env < (handleMessage env msg).batchCount)) = some first :=
      Option.isSome_iff_exists.mp (List.find?_isSome.mpr ⟨msg, hmsg, decide_eq_true hlarge⟩)
    obtain ⟨hbeyond, pre, post, hsplit, hpre⟩ := List.find?_eq_some_iff_append.mp hfirst
    obtain ⟨rest, hrest⟩ : receivable env messages <+: messages := List.takeWhile_prefix _
    have hmessages : messages = pre ++ first :: (post ++ rest) := by
      rw [← hrest, hsplit, List.append_assoc, List.cons_append]
    have hwithin : ∀ msg ∈ pre, (handleMessage env msg).hasCrashed = false ∧
        (handleMessage env msg).batchCount ≤ capacity env := by
      intro msg hmem
      have hkept : msg ∈ receivable env messages := by
        rw [hsplit]
        exact List.mem_append_left _ hmem
      exact ⟨by simpa using List.mem_takeWhile_imp hkept, by simpa using hpre msg hmem⟩
    obtain ⟨state, hreach, hawaiting, hinbox, _⟩ :=
      exists_awaiting hdispatch hresults hwithin (Reachable.refl (State.init _ messages)) rfl
        hmessages
    obtain ⟨target, htarget, hdead⟩ :=
      exists_deadlocked hdispatch hresults hreach hawaiting hinbox (of_decide_eq_true hbeyond)
    exact (hfree target htarget).1 hdead
  · intro hsmall state hreach
    have hinv := inventory_of_reachable hreach
    have hsafe : ¬ Deadlocked env state := by
      intro hdead
      have hlarge := hdead.capacity_lt hinv
      obtain ⟨msg, hmsg, hcount⟩ :=
        hinv.exists_current (Nat.lt_of_le_of_lt (Nat.zero_le _) hlarge)
      have hle := hsmall msg hmsg
      omega
    exact ⟨hsafe, fun hserving =>
      (enabled_or_deadlocked hdispatch hresults hinv hserving).resolve_right hsafe⟩

/-- One worker with pipes of one message serves a request of three batches. -/
theorem deadlock_free_three :
    capacity Env.sample = 3 ∧
      ∀ state, (server Env.sample).Reachable (State.init Env.sample.threads
          [(RangePricingRequest.sample ([0, 1, 2].map AlphaBetaPair.sample)).toBytes]) state →
        ¬ Deadlocked Env.sample state ∧
          (state.server.serving = true → (server Env.sample).Enabled state) :=
  ⟨rfl, (deadlock_free_iff Env.sample _ (by decide) (by decide)).mpr (by decide +kernel)⟩

/-- With four batches the same setting deadlocks. -/
theorem not_deadlock_free :
    ¬ ∀ (env : Env) (messages : List Bytes), 1 ≤ env.threads → 1 ≤ env.simdLanes →
      1 ≤ env.dispatchHwm → 1 ≤ env.resultsHwm →
        (∀ msg ∈ messages, verifyRangePricingRequestBuffer msg = true) →
          ∀ state, (server env).Reachable (State.init env.threads messages) state →
            ¬ Deadlocked env state ∧
              (state.server.serving = true → (server env).Enabled state) := by
  intro hfree
  obtain ⟨state, hreach, hdead⟩ := exists_deadlocked
    (by decide) (by decide) (Reachable.refl (State.init Env.sample.threads
      [(RangePricingRequest.sample ([0, 1, 2, 3].map AlphaBetaPair.sample)).toBytes])) rfl rfl
    (by decide +kernel)
  exact (hfree Env.sample _ (by decide) (by decide) (by decide) (by decide) (by decide +kernel)
    state hreach).1 hdead

end RangePricer
