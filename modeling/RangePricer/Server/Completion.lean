import RangePricer.Server.Deadlock
import RangePricer.Transition.Termination

/-!
# How serving ends

Every step of every thread, also the connecting of a worker and the receipt of a
message, uses up one unit of the work the messages carry.  So a run cannot go on
forever, all runs that get equally far are equally long, and where no thread can
move one of three things has happened: all messages are answered, the expansion
faulted on a message, or the threads wait for each other.
-/

namespace RangePricer

open FlatBuffers Transition Transition.System

variable {env : Env} {messages : List Bytes}

/-! ## One step, one unit of work -/

/-- The steps a message costs, all threads together: the receipt, and what it leads to. -/
def messageSteps (env : Env) (msg : Bytes) : Nat :=
  (handleMessage env msg).work + 1

/-- Everything still to be done, the messages not yet received included. -/
def State.remaining (env : Env) (state : State env.threads) : Nat :=
  state.work + (state.inbox.map (messageSteps env)).sum

/-- A malformed message costs two steps, a fault one, and a request five for each
batch and four besides. -/
theorem messageSteps_eq (env : Env) (msg : Bytes) :
    messageSteps env msg =
      if verifyRangePricingRequestBuffer msg then
        match expandToBatches (RangePricingRequest.ofBytes msg) env.simdLanes with
        | .ok batches => 5 * batches.length + 4
        | .error _ => 1
      else 2 := by
  unfold messageSteps handleMessage
  split
  · dsimp only
    generalize expandToBatches (RangePricingRequest.ofBytes msg) env.simdLanes = expanded
    cases expanded <;> rfl
  · rfl

theorem WorkerStep.work_eq {worker next : Worker} (hstep : WorkerStep env worker next) :
    next.work + 1 = worker.work := by
  cases hstep with
  | connectPull hphase | connectPush hphase | priceBatch batch hphase =>
      simp only [Worker.work, hphase, WorkerPhase.work]
      omega
  | pullRecv batch rest hphase hpipe =>
      simp only [Worker.work, hphase, hpipe, WorkerPhase.work, List.length_cons]
      omega
  | pushSend msg hphase hroom =>
      simp only [Worker.work, hphase, WorkerPhase.work, List.length_append,
        List.length_singleton]
      omega

theorem ServerStep.remaining_eq {state next : State env.threads}
    (hstep : ServerStep env state next) :
    next.remaining env + 1 = state.remaining env := by
  cases hstep with
  | frontendRecv msg rest hserver hinbox =>
      simp only [State.remaining, State.work, hserver, hinbox, List.map_cons, List.sum_cons,
        messageSteps, ServerPhase.work]
      omega
  | dispatchSend i rr batches sent batch hserver hbatch hroom =>
      obtain ⟨hlt, -⟩ := List.getElem?_eq_some_iff.mp hbatch
      have hpool := poolSum_update_add Worker.work state.workers i
        { state.workers i with dispatchPipe := (state.workers i).dispatchPipe ++ [batch] }
      simp only [Worker.work, List.length_append, List.length_singleton] at hpool
      simp only [State.remaining, State.work, State.setWorker_workers, State.setWorker_inbox,
        hserver, ServerPhase.work]
      omega
  | resultsRecv i rr batches received allResults msg rest hserver hpipe hmore =>
      have hpool := poolSum_update_add Worker.work state.workers i
        { state.workers i with resultsPipe := rest }
      simp only [Worker.work, hpipe, List.length_cons] at hpool
      simp only [State.remaining, State.work, State.setWorker_workers, State.setWorker_inbox,
        hserver, ServerPhase.work]
      omega
  | endDispatch rr batches hserver =>
      simp only [State.remaining, State.work, hserver, ServerPhase.work]
      omega
  | endCollect rr batches allResults hserver | frontendSend reply hserver =>
      simp only [State.remaining, State.work, hserver, ServerPhase.work]
      omega

/-- Every step of every thread uses up one unit. -/
theorem remaining_eq {state next : State env.threads} (hstep : (server env).Step state next) :
    next.remaining env + 1 = state.remaining env := by
  obtain hserver | ⟨i, worker, hworker, rfl⟩ := step_cases hstep
  · exact hserver.remaining_eq
  · have hpool := poolSum_update_add Worker.work state.workers i worker
    have hunit := hworker.work_eq
    simp only [State.remaining, State.work, State.setWorker_server, State.setWorker_workers,
      State.setWorker_inbox]
    omega

theorem remaining_init (env : Env) (messages : List Bytes) :
    (State.init env.threads messages).remaining env =
      2 * env.threads + (messages.map (messageSteps env)).sum := by
  have hworkers : poolSum Worker.work (State.init env.threads messages).workers =
      env.threads * 2 := by
    simp [poolSum, State.init, Worker.work, WorkerPhase.work]
  simp only [State.remaining, State.work, hworkers]
  simp only [State.init, ServerPhase.work, Nat.zero_add, Nat.mul_comm]

/-! ## The states without a step -/

/-- The worker waits for a batch and nothing is in its pipes. -/
def Worker.waiting : Worker := { phase := .receiving }

/-- Every message is answered and every thread waits. -/
structure Completed (env : Env) (messages : List Bytes) (state : State env.threads) : Prop where
  awaiting : state.server = .awaiting
  inbox : state.inbox = []
  replies : List.Forall₂ (Answers env) messages state.replies
  workers : ∀ i, state.workers i = Worker.waiting

/-- The expansion of a message faulted; the messages before it are answered and
the ones behind it are left in the inbox. -/
structure Fallen (env : Env) (messages : List Bytes) (state : State env.threads) : Prop where
  intro ::
  exists_fault : ∃ answered msg fault, messages = answered ++ msg :: state.inbox ∧
    List.Forall₂ (Answers env) answered state.replies ∧
      handleMessage env msg = .crashed fault ∧ state.server = .crashed fault
  workers : ∀ i, state.workers i = Worker.waiting

/-- The ways in which serving ends. -/
inductive Outcome (env : Env) (messages : List Bytes) (state : State env.threads) : Prop where
  | completed (hdone : Completed env messages state)
  | fallen (hfallen : Fallen env messages state)
  | deadlocked (hdead : Deadlocked env state)

/-- A worker without a step and without work waits. -/
theorem Worker.Quiet.eq_waiting {worker : Worker} (hquiet : worker.Quiet)
    (hblocked : ∀ next, ¬ WorkerStep env worker next) : worker = Worker.waiting := by
  obtain ⟨hphase, -⟩ | ⟨msg, hphase, -⟩ := Worker.blocked_cases hblocked
  · obtain ⟨phase, dispatchPipe, resultsPipe⟩ := worker
    obtain rfl : phase = .receiving := hphase
    obtain rfl : dispatchPipe = [] := hquiet.dispatchPipe
    obtain rfl : resultsPipe = [] := hquiet.resultsPipe
    rfl
  · have hidle := hquiet.idle
    rw [Worker.idle, hphase] at hidle
    cases hidle

theorem Worker.waiting_blocked (next : Worker) : ¬ WorkerStep env Worker.waiting next := by
  intro hstep
  cases hstep with
  | pullRecv batch rest hphase hpipe => cases hpipe
  | connectPull hphase | connectPush hphase | priceBatch batch hphase | pushSend msg hphase =>
      cases hphase

/-- With all workers waiting only the server thread can move. -/
theorem serverStep_of_waiting {state next : State env.threads}
    (hworkers : ∀ i, state.workers i = Worker.waiting) (hstep : (server env).Step state next) :
    ServerStep env state next := by
  obtain hserver | ⟨i, worker, hworker, -⟩ := step_cases hstep
  · exact hserver
  · rw [hworkers i] at hworker
    exact absurd hworker (Worker.waiting_blocked worker)

theorem Completed.stuck {state : State env.threads} (hdone : Completed env messages state) :
    ¬ (server env).Enabled state := by
  rintro ⟨next, hstep⟩
  cases serverStep_of_waiting hdone.workers hstep with
  | frontendRecv msg rest hserver hinbox =>
      rw [hdone.inbox] at hinbox
      cases hinbox
  | dispatchSend _ _ _ _ _ hserver | endDispatch _ _ hserver | resultsRecv _ _ _ _ _ _ _ hserver
  | endCollect _ _ _ hserver | frontendSend _ hserver =>
      rw [hdone.awaiting] at hserver
      cases hserver

/-- The server thread takes no step after a fault. -/
theorem ServerStep.not_crashed {state next : State env.threads} {fault : Fault}
    (hstep : ServerStep env state next) : state.server ≠ .crashed fault := by
  intro hcrashed
  cases hstep with
  | frontendRecv _ _ hserver | dispatchSend _ _ _ _ _ hserver | endDispatch _ _ hserver
  | resultsRecv _ _ _ _ _ _ _ hserver | endCollect _ _ _ hserver | frontendSend _ hserver =>
      rw [hcrashed] at hserver
      cases hserver

theorem Fallen.stuck {state : State env.threads} (hfallen : Fallen env messages state) :
    ¬ (server env).Enabled state := by
  rintro ⟨next, hstep⟩
  obtain ⟨-, -, fault, -, -, -, hserver⟩ := hfallen.exists_fault
  exact (serverStep_of_waiting hfallen.workers hstep).not_crashed hserver

theorem Deadlocked.stuck {state : State env.threads} (hdead : Deadlocked env state) :
    ¬ (server env).Enabled state := by
  rintro ⟨next, hstep⟩
  obtain ⟨rr, batches, sent, hsending, hmore⟩ := hdead.sending
  obtain hstep | ⟨i, worker, hworker, -⟩ := step_cases hstep
  · cases hstep with
    | dispatchSend i _ _ _ _ hserver _ hroom =>
        simp only [Worker.canAccept, Bool.and_eq_true, decide_eq_true_eq] at hroom
        exact absurd hroom.2 (Nat.not_lt.mpr (hdead.dispatchFull i))
    | endDispatch _ _ hserver =>
        rw [hsending] at hserver
        cases hserver
        exact lt_irrefl _ hmore
    | frontendRecv _ _ hserver | resultsRecv _ _ _ _ _ _ _ hserver | endCollect _ _ _ hserver
    | frontendSend _ hserver =>
        rw [hsending] at hserver
        cases hserver
  · obtain ⟨msg, hpushing⟩ := hdead.pushing i
    cases hworker with
    | pushSend _ _ hroom => exact absurd hroom (Nat.not_lt.mpr (hdead.resultsFull i))
    | connectPull hphase | connectPush hphase | pullRecv _ _ hphase | priceBatch _ hphase =>
        rw [hpushing] at hphase
        cases hphase

theorem Outcome.stuck {state : State env.threads} (hend : Outcome env messages state) :
    ¬ (server env).Enabled state := by
  cases hend with
  | completed hdone => exact hdone.stuck
  | fallen hfallen => exact hfallen.stuck
  | deadlocked hdead => exact hdead.stuck

/-- Where no thread can move, serving has ended in one of its ways. -/
theorem outcome_of_stuck {state : State env.threads} (hdispatch : 1 ≤ env.dispatchHwm)
    (hresults : 1 ≤ env.resultsHwm) (hinv : Inventory env messages state)
    (hstuck : ¬ (server env).Enabled state) : Outcome env messages state := by
  have hwaiting (hflight : inFlight env state.workers = 0) (i : Fin env.threads) :
      state.workers i = Worker.waiting :=
    (inFlight_eq_zero_iff.mp hflight i).eq_waiting fun next
      (hstep : WorkerStep env (state.workers i) next) => hstuck ⟨_, hstep.step⟩
  have hserving (hphase : state.server.serving = true) : Outcome env messages state :=
    .deadlocked ((enabled_or_deadlocked hdispatch hresults hinv hphase).resolve_left hstuck)
  obtain ⟨answered, current, hsplit, hreplies, haccounts⟩ := hinv
  cases hserver : state.server with
  | dispatching | collecting | replying => exact hserving (by rw [hserver]; rfl)
  | awaiting =>
      rw [hserver] at haccounts
      generalize hflight : inFlight env state.workers = flight at haccounts
      cases haccounts
      have hinbox : state.inbox = [] := by
        cases hinbox : state.inbox with
        | nil => rfl
        | cons msg rest => exact absurd ⟨_, recv_step hserver hinbox⟩ hstuck
      rw [hinbox, List.append_nil, List.append_nil] at hsplit
      exact .completed ⟨hserver, hinbox, hsplit ▸ hreplies, hwaiting hflight⟩
  | crashed fault =>
      rw [hserver] at haccounts
      generalize hflight : inFlight env state.workers = flight at haccounts
      cases haccounts with
      | crashed msg _ hmsg hexpand =>
          refine .fallen ⟨⟨answered, msg, fault, ?_, hreplies, ?_, hserver⟩, hwaiting hflight⟩
          · rw [hsplit, List.append_assoc]
            rfl
          · simp [handleMessage, hmsg, hexpand]

/-! ## Every run ends -/

theorem remaining_lt {before after : State env.threads} (_ : True)
    (hstep : (server env).Step before after) :
    True ∧ after.remaining env < before.remaining env :=
  ⟨trivial, (Nat.lt_succ_self _).trans_eq (remaining_eq hstep)⟩

/-- A run is as long as the work it has done. -/
theorem length_add_remaining {state : State env.threads} {actions : List (Action env.threads)}
    (hrun : (server env).run? (State.init env.threads messages) actions = some state) :
    actions.length + state.remaining env =
      2 * env.threads + (messages.map (messageSteps env)).sum := by
  rw [← remaining_init]
  exact length_add_measure (fun _ => True) (State.remaining env)
    (fun _ _ _ hstep => ⟨trivial, remaining_eq hstep⟩) trivial hrun

/-- Some schedule is over. -/
theorem exists_server_completes (env : Env) (messages : List Bytes) :
    ∃ actions state, (server env).Completes (State.init env.threads messages) actions state :=
  exists_complete_run (fun _ => True) (State.remaining env) (fun _ _ => remaining_lt) trivial

/-- Serving cannot go on forever.  Every schedule can be continued to its end, its
length is the work it has done, and a state has no step left exactly if serving
has ended there in one of the three ways. -/
theorem serving_ends (env : Env) (messages : List Bytes) (hdispatch : 1 ≤ env.dispatchHwm)
    (hresults : 1 ≤ env.resultsHwm) :
    ¬ (server env).RunsForever (State.init env.threads messages) ∧
      ∀ actions state, (server env).run? (State.init env.threads messages) actions = some state →
        actions.length + state.remaining env =
          2 * env.threads + (messages.map (messageSteps env)).sum ∧
        (∃ rest target,
          (server env).Completes (State.init env.threads messages) (actions ++ rest) target) ∧
        (¬ (server env).Enabled state ↔ Outcome env messages state) := by
  refine ⟨not_runsForever (fun _ => True) (State.remaining env)
    (fun _ _ => remaining_lt) trivial,
    fun actions state hrun => ⟨length_add_remaining hrun, ?_, ?_, ?_⟩⟩
  · exact exists_completes (fun _ => True) (State.remaining env)
      (fun _ _ => remaining_lt) hrun trivial
  · exact outcome_of_stuck hdispatch hresults (inventory_of_reachable (reachable_of_run? hrun))
  · exact Outcome.stuck

/-- A request with two batches and a malformed message, served by one worker:
whatever the schedule, eighteen steps in all. -/
theorem serving_ends_two :
    ¬ (server Env.sample).RunsForever (State.init Env.sample.threads
        [(RangePricingRequest.sample ([0, 1].map AlphaBetaPair.sample)).toBytes, [0]]) ∧
      ∀ actions state, (server Env.sample).run? (State.init Env.sample.threads
          [(RangePricingRequest.sample ([0, 1].map AlphaBetaPair.sample)).toBytes, [0]])
          actions = some state →
        actions.length + state.remaining Env.sample = 18 := by
  obtain ⟨hends, hruns⟩ := serving_ends Env.sample
    [(RangePricingRequest.sample ([0, 1].map AlphaBetaPair.sample)).toBytes, [0]] le_rfl le_rfl
  refine ⟨hends, fun actions state hrun => (hruns actions state hrun).1.trans ?_⟩
  decide +kernel

/-! ## When every schedule answers every message -/

/-- The message neither makes the expansion fault nor needs more room than there is. -/
def servable (env : Env) (msg : Bytes) : Bool :=
  !(handleMessage env msg).hasCrashed &&
    decide ((handleMessage env msg).batchCount ≤ capacity env)

theorem servable_iff {msg : Bytes} :
    servable env msg = true ↔ (handleMessage env msg).hasCrashed = false ∧
      (handleMessage env msg).batchCount ≤ capacity env := by
  simp [servable]

/-- A state that serving ended in is reached by a schedule that is over. -/
theorem Outcome.exists_completes {state : State env.threads} (hend : Outcome env messages state)
    (hreach : (server env).Reachable (State.init env.threads messages) state) :
    ∃ actions, (server env).Completes (State.init env.threads messages) actions state := by
  obtain ⟨actions, hrun⟩ := hreach.exists_run?
  exact ⟨actions, hrun, hend.stuck⟩

/-- After a fault the server stays where it is. -/
theorem crashed_of_reachable {before after : State env.threads} {fault : Fault}
    (hcrashed : before.server = .crashed fault) (hreach : (server env).Reachable before after) :
    after.server = .crashed fault := by
  refine hreach.invariant (fun state next (hserver : state.server = .crashed fault) hstep => ?_)
    hcrashed
  obtain hstep | ⟨i, worker, -, rfl⟩ := step_cases hstep
  · exact absurd hserver hstep.not_crashed
  · exact hserver

/-- A message that cannot be served, behind messages that can, spoils some schedule. -/
theorem exists_not_completed {pre : List Bytes} (rest : List Bytes) {msg : Bytes}
    (hdispatch : 1 ≤ env.dispatchHwm) (hresults : 1 ≤ env.resultsHwm)
    (hpre : ∀ msg ∈ pre, servable env msg = true) (hmsg : servable env msg = false) :
    ∃ actions state, (server env).Completes
        (State.init env.threads (pre ++ msg :: rest)) actions state ∧
      state.server ≠ .awaiting := by
  obtain ⟨state, hreach, hawaiting, hinbox, -⟩ := exists_awaiting hdispatch hresults
    (fun msg hmem => servable_iff.mp (hpre msg hmem))
    (Reachable.refl (State.init env.threads (pre ++ msg :: rest))) rfl rfl
  by_cases hlarge : capacity env < (handleMessage env msg).batchCount
  · obtain ⟨target, htarget, hdead⟩ :=
      exists_deadlocked hdispatch hresults hreach hawaiting hinbox hlarge
    have houtcome : Outcome env (pre ++ msg :: rest) target := .deadlocked hdead
    obtain ⟨actions, hend⟩ := houtcome.exists_completes htarget
    obtain ⟨rr, batches, sent, hsending, -⟩ := hdead.sending
    exact ⟨actions, target, hend, by rw [hsending]; exact ServerPhase.noConfusion⟩
  · obtain ⟨fault, hfault⟩ : ∃ fault, handleMessage env msg = .crashed fault := by
      have hcrash : (handleMessage env msg).hasCrashed = true := by
        simpa [servable, Nat.not_lt.mp hlarge] using hmsg
      cases hphase : handleMessage env msg with
      | crashed fault => exact ⟨fault, rfl⟩
      | awaiting | dispatching | collecting | replying =>
          rw [hphase] at hcrash
          cases hcrash
    have hrecv := recv_step hawaiting hinbox
    rw [hfault] at hrecv
    obtain ⟨actions, hrun⟩ := (hreach.tail hrecv).exists_run?
    obtain ⟨rest', target, hend⟩ := exists_completes (fun _ => True) (State.remaining env)
      (fun _ _ => remaining_lt) hrun trivial
    have hlater : (server env).Reachable { state with server := .crashed fault, inbox := rest }
        target := by
      have hwhole := hend.run
      rw [run?_append, hrun] at hwhole
      exact reachable_of_run? hwhole
    have hcrashed := crashed_of_reachable rfl hlater
    exact ⟨actions ++ rest', target, hend, by rw [hcrashed]; exact ServerPhase.noConfusion⟩

/-- One message that cannot be served spoils some schedule: the first such message does. -/
theorem exists_spoiled {msg : Bytes} (hdispatch : 1 ≤ env.dispatchHwm)
    (hresults : 1 ≤ env.resultsHwm) (hmem : msg ∈ messages) (hmsg : servable env msg = false) :
    ∃ actions state, (server env).Completes (State.init env.threads messages) actions state ∧
      state.server ≠ .awaiting := by
  obtain ⟨first, hfirst⟩ : ∃ first, messages.find? (fun msg => !servable env msg) = some first :=
    Option.isSome_iff_exists.mp (List.find?_isSome.mpr ⟨msg, hmem, by simpa using hmsg⟩)
  obtain ⟨hbad, pre, rest, rfl, hpre⟩ := List.find?_eq_some_iff_append.mp hfirst
  exact exists_not_completed rest hdispatch hresults (fun msg hmem => by simpa using hpre msg hmem)
    (by simpa using hbad)

theorem Completed.remaining_eq_zero {state : State env.threads}
    (hdone : Completed env messages state) : state.remaining env = 0 := by
  have hworkers : poolSum Worker.work state.workers = 0 := by
    simp [poolSum, hdone.workers, Worker.work, Worker.waiting, WorkerPhase.work]
  simp [State.remaining, State.work, hdone.awaiting, hdone.inbox, hworkers, ServerPhase.work]

/-- Where no thread can move every message is answered, if each can be served. -/
theorem completed_of_servable {state : State env.threads}
    (hreach : (server env).Reachable (State.init env.threads messages) state)
    (hstuck : ¬ (server env).Enabled state) (hdispatch : 1 ≤ env.dispatchHwm)
    (hresults : 1 ≤ env.resultsHwm) (hservable : ∀ msg ∈ messages, servable env msg = true) :
    Completed env messages state := by
  have hinv := inventory_of_reachable hreach
  cases outcome_of_stuck hdispatch hresults hinv hstuck with
  | completed hdone => exact hdone
  | fallen hfallen =>
      obtain ⟨answered, msg, fault, hsplit, -, hfault, -⟩ := hfallen.exists_fault
      have hmsg := servable_iff.mp (hservable msg (by simp [hsplit]))
      rw [hfault] at hmsg
      cases hmsg.1
  | deadlocked hdead =>
      have hlarge := hdead.capacity_lt hinv
      obtain ⟨msg, hmem, hcount⟩ := hinv.exists_current (Nat.zero_lt_of_lt hlarge)
      have hsmall := (servable_iff.mp (hservable msg
        ((List.takeWhile_prefix _).subset hmem))).2
      exact absurd hlarge (Nat.not_lt.mpr (hcount ▸ hsmall))

/-- Every schedule that is over has answered every message, after the same number
of steps, exactly if every message can be served on its own. -/
theorem serving_completes_iff (env : Env) (messages : List Bytes)
    (hdispatch : 1 ≤ env.dispatchHwm) (hresults : 1 ≤ env.resultsHwm) :
    (∀ actions state, (server env).Completes (State.init env.threads messages) actions state →
      Completed env messages state ∧
        actions.length = 2 * env.threads + (messages.map (messageSteps env)).sum) ↔
      ∀ msg ∈ messages, servable env msg = true := by
  constructor
  · intro hcompletes msg hmsg
    by_contra hspoiled
    obtain ⟨actions, state, hend, hserver⟩ :=
      exists_spoiled hdispatch hresults hmsg (by simpa using hspoiled)
    exact hserver (hcompletes actions state hend).1.awaiting
  · intro hservable actions state hend
    have hdone := completed_of_servable hend.reachable hend.stuck hdispatch hresults hservable
    have hlength := length_add_remaining hend.run
    rw [hdone.remaining_eq_zero, Nat.add_zero] at hlength
    exact ⟨hdone, hlength⟩

/-- One worker with places for three batches serves three batches and a malformed
message in twenty-three steps. -/
theorem serving_completes_three :
    ∃ actions state, (server Env.sample).Completes (State.init Env.sample.threads
        [(RangePricingRequest.sample ([0, 1, 2].map AlphaBetaPair.sample)).toBytes, [0]])
        actions state ∧
      state.replies.length = 2 ∧ actions.length = 23 := by
  obtain ⟨actions, state, hend⟩ := exists_server_completes Env.sample
    [(RangePricingRequest.sample ([0, 1, 2].map AlphaBetaPair.sample)).toBytes, [0]]
  obtain ⟨hdone, hlength⟩ := (serving_completes_iff Env.sample
    [(RangePricingRequest.sample ([0, 1, 2].map AlphaBetaPair.sample)).toBytes, [0]]
    le_rfl le_rfl).mpr (by decide +kernel) actions state hend
  refine ⟨actions, state, hend, hdone.replies.length_eq.symm, hlength.trans ?_⟩
  decide +kernel

end RangePricer
