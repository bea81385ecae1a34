import Mathlib.Algebra.Order.Group.Multiset
import RangePricer.Server.Machine
import RangePricer.Transition.Pool

/-!
# The inventory of a served request

Every batch sent for the current request is in exactly one place: in a dispatch
pipe, with a worker, in a results pipe, or already collected.  The inventory
records it by the result message it leads to, so a worker step leaves it
unchanged.  From it follow the exact count of batches under way, the emptiness
of all pipes between two requests, and that every reply answers its message.
-/

namespace RangePricer

open FlatBuffers Transition

variable {env : Env}

/-! ## Batches under way -/

/-- What a worker holds, as the message it will push. -/
def WorkerPhase.held (env : Env) : WorkerPhase → Multiset ResultMessage
  | .pricing batch => {workerReply env batch}
  | .pushing msg => {msg}
  | .starting | .pullConnected | .receiving => 0

/-- Everything in a worker's pipes and hands, as result messages. -/
def Worker.inFlight (env : Env) (worker : Worker) : Multiset ResultMessage :=
  ↑(worker.dispatchPipe.map (workerReply env)) + worker.phase.held env + ↑worker.resultsPipe

/-- Everything under way between the server's two sockets. -/
def inFlight (env : Env) (workers : Fin env.threads → Worker) : Multiset ResultMessage :=
  poolSum (Worker.inFlight env) workers

/-- A worker moves what it has along and neither loses nor adds anything. -/
theorem WorkerStep.inFlight_eq {worker next : Worker} (hstep : WorkerStep env worker next) :
    next.inFlight env = worker.inFlight env := by
  cases hstep with
  | connectPull hphase => simp [Worker.inFlight, hphase, WorkerPhase.held]
  | connectPush hphase => simp [Worker.inFlight, hphase, WorkerPhase.held]
  | pullRecv batch rest hphase hpipe =>
      simp only [Worker.inFlight, hphase, hpipe, WorkerPhase.held, List.map_cons,
        ← Multiset.cons_coe, ← Multiset.singleton_add, add_zero]
      rw [add_comm {workerReply env batch}]
  | priceBatch batch hphase => simp [Worker.inFlight, hphase, WorkerPhase.held]
  | pushSend msg hphase hroom =>
      simp only [Worker.inFlight, hphase, WorkerPhase.held, ← Multiset.coe_add,
        Multiset.coe_singleton, add_zero]
      rw [add_assoc, add_comm ({msg} : Multiset ResultMessage)]

/-- The worker neither holds a batch nor has one in its pipes. -/
structure Worker.Quiet (worker : Worker) : Prop where
  idle : worker.idle = true
  dispatchPipe : worker.dispatchPipe = []
  resultsPipe : worker.resultsPipe = []

theorem Worker.quiet_iff (worker : Worker) : worker.Quiet ↔ worker.inFlight env = 0 := by
  constructor
  · rintro ⟨hidle, hdispatch, hresults⟩
    have hheld : worker.phase.held env = 0 := by
      cases hphase : worker.phase <;> simp [Worker.idle, hphase] at hidle <;> rfl
    simp [Worker.inFlight, hdispatch, hresults, hheld]
  · intro hempty
    simp only [Worker.inFlight, add_eq_zero, Multiset.coe_eq_zero, List.map_eq_nil_iff] at hempty
    obtain ⟨⟨hdispatch, hheld⟩, hresults⟩ := hempty
    refine ⟨?_, hdispatch, hresults⟩
    cases hphase : worker.phase <;> simp [WorkerPhase.held, hphase] at hheld <;>
      simp [Worker.idle, hphase]

theorem inFlight_eq_zero_iff {workers : Fin env.threads → Worker} :
    inFlight env workers = 0 ↔ ∀ i, (workers i).Quiet := by
  rw [inFlight, poolSum, Finset.sum_eq_zero_iff]
  constructor
  · exact fun hempty i => (Worker.quiet_iff _).mpr (hempty i (Finset.mem_univ i))
  · exact fun hquiet i _ => (Worker.quiet_iff _).mp (hquiet i)

/-! ## The invariant -/

/-- How the server's phase accounts for the message being served, if any, and
for everything under way. -/
inductive Accounts (env : Env) : ServerPhase → List Bytes → Multiset ResultMessage → Prop where
  | awaiting : Accounts env .awaiting [] 0
  | dispatching (msg : Bytes) (batches : List BatchPricingRequest) (sent : Nat)
      (hmsg : verifyRangePricingRequestBuffer msg = true)
      (hexpand : expandToBatches (RangePricingRequest.ofBytes msg) env.simdLanes = .ok batches)
      (hsent : sent ≤ batches.length) :
      Accounts env (.dispatching (RangePricingRequest.ofBytes msg) batches sent) [msg]
        ↑((batches.take sent).map (workerReply env))
  | collecting (msg : Bytes) (batches : List BatchPricingRequest)
      (received : List ResultMessage) (flight : Multiset ResultMessage)
      (hmsg : verifyRangePricingRequestBuffer msg = true)
      (hexpand : expandToBatches (RangePricingRequest.ofBytes msg) env.simdLanes = .ok batches)
      (htotal : flight + (received : Multiset ResultMessage) =
        ((batches.map (workerReply env) : List ResultMessage) : Multiset ResultMessage)) :
      Accounts env
        (.collecting (RangePricingRequest.ofBytes msg) batches received.length
          (received.flatMap collect)) [msg] flight
  | replying (msg : Bytes) (reply : RangePricingResponse) (hanswers : Answers env msg reply) :
      Accounts env (.replying reply) [msg] 0
  | crashed (msg : Bytes) (fault : Fault)
      (hmsg : verifyRangePricingRequestBuffer msg = true)
      (hexpand : expandToBatches (RangePricingRequest.ofBytes msg) env.simdLanes = .error fault) :
      Accounts env (.crashed fault) [msg] 0

/-- The messages split into those answered, the one being served and those still
to come; every reply answers its message; nothing under way is unaccounted for. -/
structure Inventory (env : Env) (messages : List Bytes) (state : State env.threads) :
    Prop where
  intro ::
  exists_split : ∃ answered current,
    messages = answered ++ current ++ state.inbox ∧
      List.Forall₂ (Answers env) answered state.replies ∧
      Accounts env state.server current (inFlight env state.workers)

theorem Inventory.accounts {messages : List Bytes} {state : State env.threads} {phase : ServerPhase}
    (hinv : Inventory env messages state) (hserver : state.server = phase) :
    ∃ current, Accounts env phase current (inFlight env state.workers) := by
  obtain ⟨answered, current, -, -, haccounts⟩ := hinv
  exact ⟨current, hserver ▸ haccounts⟩

theorem handleMessage_accounts (msg : Bytes) : Accounts env (handleMessage env msg) [msg] 0 := by
  unfold handleMessage
  split
  · next hmsg =>
      dsimp only
      split
      · next batches hexpand =>
          simpa using Accounts.dispatching msg batches 0 hmsg hexpand (Nat.zero_le _)
      · next fault hexpand => exact .crashed msg fault hmsg hexpand
  · next hmsg =>
      exact .replying msg errorReply (.malformed (by simpa using hmsg) rfl)

/-- Sending one more batch puts its result message under way. -/
theorem Accounts.dispatchSend {rr : RangePricingRequest} {batches : List BatchPricingRequest}
    {sent : Nat} {batch : BatchPricingRequest} {current : List Bytes}
    {flight : Multiset ResultMessage}
    (haccounts : Accounts env (.dispatching rr batches sent) current flight)
    (hbatch : batches[sent]? = some batch) :
    Accounts env (.dispatching rr batches (sent + 1)) current
      (flight + {workerReply env batch}) := by
  cases haccounts with
  | dispatching msg _ _ hmsg hexpand hsent =>
      obtain ⟨hlt, rfl⟩ := List.getElem?_eq_some_iff.mp hbatch
      have hnext : Accounts env _ _ _ := .dispatching msg batches (sent + 1) hmsg hexpand hlt
      rw [List.take_succ_eq_append_getElem hlt, List.map_append, ← Multiset.coe_add] at hnext
      simpa using hnext

theorem Accounts.endDispatch {rr : RangePricingRequest} {batches : List BatchPricingRequest}
    {current : List Bytes} {flight : Multiset ResultMessage}
    (haccounts : Accounts env (.dispatching rr batches batches.length) current flight) :
    Accounts env (.collecting rr batches 0 []) current flight := by
  cases haccounts with
  | dispatching msg _ _ hmsg hexpand hsent =>
      apply Accounts.collecting msg batches [] _ hmsg hexpand
      simp

/-- Collecting a message takes it off what is under way. -/
theorem Accounts.resultsRecv {rr : RangePricingRequest} {batches : List BatchPricingRequest}
    {received : Nat} {allResults : List PricingResponse} {msg : ResultMessage}
    {current : List Bytes} {flight flight' : Multiset ResultMessage}
    (haccounts : Accounts env (.collecting rr batches received allResults) current flight)
    (hflight : flight' + {msg} = flight) :
    Accounts env (.collecting rr batches (received + 1) (allResults ++ collect msg)) current
      flight' := by
  cases haccounts with
  | collecting request _ done _ hmsg hexpand htotal =>
      have hnext : Accounts env _ _ flight' := .collecting request batches (done ++ [msg]) flight'
        hmsg hexpand (by
          rw [← htotal, ← hflight, ← Multiset.coe_add, Multiset.coe_singleton, add_assoc,
            add_comm (↑done : Multiset ResultMessage)])
      simpa using hnext

/-- Once as many messages are collected as batches were sent, nothing is under
way and the reply answers the request. -/
theorem Accounts.endCollect {rr : RangePricingRequest} {batches : List BatchPricingRequest}
    {allResults : List PricingResponse} {current : List Bytes} {flight : Multiset ResultMessage}
    (haccounts : Accounts env (.collecting rr batches batches.length allResults) current flight) :
    flight = 0 ∧ Accounts env (.replying (buildReply env rr allResults)) current 0 := by
  generalize hcount : batches.length = count at haccounts
  cases haccounts with
  | collecting msg _ received _ hmsg hexpand htotal =>
      have hcards := congrArg Multiset.card htotal
      simp only [Multiset.card_add, Multiset.coe_card, List.length_map, hcount] at hcards
      have hflight : flight = 0 := Multiset.card_eq_zero.mp (by omega)
      refine ⟨hflight, .replying msg _ (.served hmsg ⟨batches, received, hexpand, ?_, rfl⟩)⟩
      rw [hflight, zero_add] at htotal
      exact Multiset.coe_eq_coe.mp htotal

theorem ServerStep.inventory {messages : List Bytes} {state next : State env.threads}
    (hstep : ServerStep env state next) (hinv : Inventory env messages state) :
    Inventory env messages next := by
  obtain ⟨answered, current, hsplit, hreplies, haccounts⟩ := hinv
  cases hstep with
  | frontendRecv msg rest hserver hinbox =>
      rw [hserver] at haccounts
      generalize hflight : inFlight env state.workers = flight at haccounts
      cases haccounts with
      | awaiting =>
          refine ⟨answered, [msg], ?_, hreplies, ?_⟩
          · rw [hsplit, hinbox]
            simp
          · change Accounts env (handleMessage env msg) [msg] (inFlight env state.workers)
            rw [hflight]
            exact handleMessage_accounts msg
  | dispatchSend i rr batches sent batch hserver hbatch hroom =>
      rw [hserver] at haccounts
      refine ⟨answered, current, hsplit, hreplies, ?_⟩
      have hgain : inFlight env (Function.update state.workers i
          { state.workers i with
            dispatchPipe := (state.workers i).dispatchPipe ++ [batch] }) =
          inFlight env state.workers + {workerReply env batch} := by
        apply poolSum_update_gain
        simp only [Worker.inFlight, List.map_append, ← Multiset.coe_add, List.map_cons,
          List.map_nil, Multiset.coe_singleton]
        simp only [add_assoc, add_left_comm, add_comm]
      change Accounts env _ current (inFlight env (Function.update _ _ _))
      rw [hgain]
      exact haccounts.dispatchSend hbatch
  | endDispatch rr batches hserver =>
      rw [hserver] at haccounts
      exact ⟨answered, current, hsplit, hreplies, haccounts.endDispatch⟩
  | resultsRecv i rr batches received allResults msg rest hserver hpipe hmore =>
      rw [hserver] at haccounts
      refine ⟨answered, current, hsplit, hreplies, ?_⟩
      have hloss : inFlight env (Function.update state.workers i
          { state.workers i with resultsPipe := rest }) + {msg} =
          inFlight env state.workers := by
        apply poolSum_update_loss
        simp only [Worker.inFlight, hpipe, ← Multiset.cons_coe, ← Multiset.singleton_add]
        simp only [add_assoc, add_left_comm, add_comm]
      exact haccounts.resultsRecv hloss
  | endCollect rr batches allResults hserver =>
      rw [hserver] at haccounts
      obtain ⟨hflight, hreplying⟩ := haccounts.endCollect
      refine ⟨answered, current, hsplit, hreplies, ?_⟩
      change Accounts env _ current (inFlight env state.workers)
      rw [hflight]
      exact hreplying
  | frontendSend reply hserver =>
      rw [hserver] at haccounts
      generalize hflight : inFlight env state.workers = flight at haccounts
      cases haccounts with
      | replying msg _ hanswers =>
          refine ⟨answered ++ [msg], [], ?_, ?_, ?_⟩
          · rw [hsplit, List.append_nil]
          · exact List.rel_append hreplies (.cons hanswers .nil)
          · change Accounts env .awaiting [] (inFlight env state.workers)
            rw [hflight]
            exact .awaiting

/-- One step of any thread keeps the inventory. -/
theorem Inventory.step {messages : List Bytes} {state next : State env.threads}
    (hinv : Inventory env messages state) (hstep : (server env).Step state next) :
    Inventory env messages next := by
  obtain hserver | ⟨i, worker, hworker, rfl⟩ := step_cases hstep
  · exact hserver.inventory hinv
  · obtain ⟨answered, current, hsplit, hreplies, haccounts⟩ := hinv
    refine ⟨answered, current, hsplit, hreplies, ?_⟩
    change Accounts env state.server current (inFlight env (Function.update _ _ _))
    rw [inFlight, poolSum_update_eq hworker.inFlight_eq]
    exact haccounts

theorem inventory_init (env : Env) (messages : List Bytes) :
    Inventory env messages (State.init env.threads messages) := by
  refine ⟨[], [], rfl, .nil, ?_⟩
  have hempty : inFlight env (State.init env.threads messages).workers = 0 := by
    rw [inFlight, poolSum]
    apply Finset.sum_eq_zero
    intro i _
    simp [State.init, Worker.inFlight, WorkerPhase.held]
  rw [hempty]
  exact .awaiting

/-- The inventory holds in every reachable state. -/
theorem inventory_of_reachable {messages : List Bytes} {state : State env.threads}
    (hreach : (server env).Reachable (State.init env.threads messages) state) :
    Inventory env messages state :=
  hreach.invariant (fun _ _ hinv hstep => hinv.step hstep) (inventory_init env messages)

end RangePricer
