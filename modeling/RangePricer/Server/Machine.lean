import Mathlib.Logic.Function.Basic
import RangePricer.Server.Messages
import RangePricer.Transition.System

/-!
# The serving loop and its workers

The server thread and the worker threads as one action system.  Every worker
has its own dispatch pipe, created by its `pull.connect`, and its own results
pipe; a blocking send is an action that is disabled while every candidate pipe
is full, a blocking receive one that is disabled while every pipe is empty.
Pricing, which touches no socket, is an action of its own.
-/

namespace RangePricer

open FlatBuffers

/-- Where a worker thread stands. -/
inductive WorkerPhase where
  | starting
  | pullConnected
  /-- Waiting in `pull.recv`. -/
  | receiving
  | pricing (batch : BatchPricingRequest)
  /-- Waiting in `push.send`. -/
  | pushing (msg : ResultMessage)
  deriving DecidableEq, Repr

/-- A worker thread together with the two pipes it shares with the server. -/
structure Worker where
  phase : WorkerPhase := .starting
  dispatchPipe : List BatchPricingRequest := []
  resultsPipe : List ResultMessage := []
  deriving DecidableEq, Repr

/-- Where the server thread stands, with the local variables it still needs. -/
inductive ServerPhase where
  /-- Waiting in `frontend.recv`. -/
  | awaiting
  /-- Sending `batches`, the first `sent` of which are gone. -/
  | dispatching (rr : RangePricingRequest) (batches : List BatchPricingRequest) (sent : Nat)
  | collecting (rr : RangePricingRequest) (batches : List BatchPricingRequest)
      (received : Nat) (allResults : List PricingResponse)
  /-- In `frontend.send`. -/
  | replying (reply : RangePricingResponse)
  /-- Left by a fault that no handler of the loop catches. -/
  | crashed (fault : Fault)
  deriving Repr

structure State (threads : Nat) where
  server : ServerPhase
  workers : Fin threads → Worker
  /-- Frontend messages not yet received. -/
  inbox : List Bytes
  /-- Replies sent so far, oldest first. -/
  replies : List RangePricingResponse

inductive Action (threads : Nat) where
  | frontendRecv
  | dispatchSend (worker : Fin threads)
  | endDispatch
  | resultsRecv (worker : Fin threads)
  | endCollect
  | frontendSend
  | connectPull (worker : Fin threads)
  | connectPush (worker : Fin threads)
  | pullRecv (worker : Fin threads)
  | priceBatch (worker : Fin threads)
  | pushSend (worker : Fin threads)
  deriving DecidableEq, Repr

namespace Worker

/-- The dispatch pipe exists and has room. -/
def canAccept (env : Env) (worker : Worker) : Bool :=
  worker.phase ≠ .starting && decide (worker.dispatchPipe.length < env.dispatchHwm)

/-- The worker holds no batch and no unsent result. -/
def idle (worker : Worker) : Bool :=
  match worker.phase with
  | .starting | .pullConnected | .receiving => true
  | .pricing _ | .pushing _ => false

end Worker

namespace State

variable {threads : Nat}

/-- All threads started, nothing received yet. -/
def init (threads : Nat) (inbox : List Bytes) : State threads where
  server := .awaiting
  workers := fun _ => {}
  inbox := inbox
  replies := []

def setWorker (state : State threads) (i : Fin threads) (worker : Worker) : State threads :=
  { state with workers := Function.update state.workers i worker }

@[simp]
theorem setWorker_server (state : State threads) (i : Fin threads) (worker : Worker) :
    (state.setWorker i worker).server = state.server := rfl

@[simp]
theorem setWorker_inbox (state : State threads) (i : Fin threads) (worker : Worker) :
    (state.setWorker i worker).inbox = state.inbox := rfl

@[simp]
theorem setWorker_replies (state : State threads) (i : Fin threads) (worker : Worker) :
    (state.setWorker i worker).replies = state.replies := rfl

@[simp]
theorem setWorker_workers (state : State threads) (i : Fin threads) (worker : Worker) :
    (state.setWorker i worker).workers = Function.update state.workers i worker := rfl

end State

/-- What the server does with a frontend message it has received, up to its next call into ZeroMQ. A
fault of `expand_to_batches` ends the process, so its state is part of the phase. -/
def handleMessage (env : Env) (msg : Bytes) : ServerPhase :=
  if verifyRangePricingRequestBuffer msg then
    let rr := RangePricingRequest.ofBytes msg
    match expandToBatches rr env.simdLanes with
    | .ok batches => .dispatching rr batches 0
    | .error fault => .crashed fault
  else .replying errorReply

theorem handleMessage_ok {env : Env} {msg : Bytes} {batches : List BatchPricingRequest}
    (hmsg : verifyRangePricingRequestBuffer msg = true)
    (hexpand : expandToBatches (RangePricingRequest.ofBytes msg) env.simdLanes = .ok batches) :
    handleMessage env msg = .dispatching (RangePricingRequest.ofBytes msg) batches 0 := by
  simp [handleMessage, hmsg, hexpand]

variable (env : Env)

/-- The steps of the server thread. -/
def serverStep? (state : State env.threads) : Action env.threads → Option (State env.threads)
  | .frontendRecv =>
      match state.server, state.inbox with
      | .awaiting, msg :: rest =>
          some { state with server := handleMessage env msg, inbox := rest }
      | _, _ => none
  | .dispatchSend i =>
      let worker := state.workers i
      match state.server with
      | .dispatching rr batches sent =>
          match batches[sent]? with
          | some batch =>
              if worker.canAccept env then
                some { state.setWorker i
                    { worker with dispatchPipe := worker.dispatchPipe ++ [batch] } with
                  server := .dispatching rr batches (sent + 1) }
              else none
          | none => none
      | _ => none
  | .endDispatch =>
      match state.server with
      | .dispatching rr batches sent =>
          if sent = batches.length then
            some { state with server := .collecting rr batches 0 [] }
          else none
      | _ => none
  | .resultsRecv i =>
      let worker := state.workers i
      match state.server, worker.resultsPipe with
      | .collecting rr batches received allResults, msg :: rest =>
          if received < batches.length then
            some { state.setWorker i { worker with resultsPipe := rest } with
              server := .collecting rr batches (received + 1) (allResults ++ collect msg) }
          else none
      | _, _ => none
  | .endCollect =>
      match state.server with
      | .collecting rr batches received allResults =>
          if received = batches.length then
            some { state with server := .replying (buildReply env rr allResults) }
          else none
      | _ => none
  | .frontendSend =>
      match state.server with
      | .replying reply =>
          some { state with server := .awaiting, replies := state.replies ++ [reply] }
      | _ => none
  | _ => none

/-- The steps of worker thread `i`. -/
def workerStep? (worker : Worker) : Action env.threads → Option Worker
  | .connectPull _ =>
      if worker.phase = .starting then some { worker with phase := .pullConnected } else none
  | .connectPush _ =>
      if worker.phase = .pullConnected then some { worker with phase := .receiving } else none
  | .pullRecv _ =>
      match worker.phase, worker.dispatchPipe with
      | .receiving, batch :: rest =>
          some { worker with phase := .pricing batch, dispatchPipe := rest }
      | _, _ => none
  | .priceBatch _ =>
      match worker.phase with
      | .pricing batch => some { worker with phase := .pushing (workerReply env batch) }
      | _ => none
  | .pushSend _ =>
      match worker.phase with
      | .pushing msg =>
          if worker.resultsPipe.length < env.resultsHwm then
            some { worker with phase := .receiving, resultsPipe := worker.resultsPipe ++ [msg] }
          else none
      | _ => none
  | _ => none

/-- The worker thread an action belongs to, if it is not the server's. -/
def Action.workerThread? {threads : Nat} : Action threads → Option (Fin threads)
  | .connectPull i | .connectPush i | .pullRecv i | .priceBatch i | .pushSend i => some i
  | _ => none

def step? (state : State env.threads) (action : Action env.threads) :
    Option (State env.threads) :=
  match action.workerThread? with
  | some i => (workerStep? env (state.workers i) action).map (state.setWorker i)
  | none => serverStep? env state action

/-- The serving system. -/
def server : Transition.System (State env.threads) (Action env.threads) := ⟨step? env⟩

/-! ## What a step can do -/

/-- The steps of the server thread, one constructor for each. -/
inductive ServerStep (state : State env.threads) : State env.threads → Prop where
  | frontendRecv (msg : Bytes) (rest : List Bytes)
      (hserver : state.server = .awaiting) (hinbox : state.inbox = msg :: rest) :
      ServerStep state { state with server := handleMessage env msg, inbox := rest }
  | dispatchSend (i : Fin env.threads) (rr : RangePricingRequest)
      (batches : List BatchPricingRequest) (sent : Nat) (batch : BatchPricingRequest)
      (hserver : state.server = .dispatching rr batches sent)
      (hbatch : batches[sent]? = some batch)
      (hroom : (state.workers i).canAccept env = true) :
      ServerStep state
        { state.setWorker i { state.workers i with
            dispatchPipe := (state.workers i).dispatchPipe ++ [batch] } with
          server := .dispatching rr batches (sent + 1) }
  | endDispatch (rr : RangePricingRequest) (batches : List BatchPricingRequest)
      (hserver : state.server = .dispatching rr batches batches.length) :
      ServerStep state { state with server := .collecting rr batches 0 [] }
  | resultsRecv (i : Fin env.threads) (rr : RangePricingRequest)
      (batches : List BatchPricingRequest) (received : Nat)
      (allResults : List PricingResponse) (msg : ResultMessage) (rest : List ResultMessage)
      (hserver : state.server = .collecting rr batches received allResults)
      (hpipe : (state.workers i).resultsPipe = msg :: rest)
      (hmore : received < batches.length) :
      ServerStep state
        { state.setWorker i { state.workers i with resultsPipe := rest } with
          server := .collecting rr batches (received + 1) (allResults ++ collect msg) }
  | endCollect (rr : RangePricingRequest) (batches : List BatchPricingRequest)
      (allResults : List PricingResponse)
      (hserver : state.server = .collecting rr batches batches.length allResults) :
      ServerStep state { state with server := .replying (buildReply env rr allResults) }
  | frontendSend (reply : RangePricingResponse) (hserver : state.server = .replying reply) :
      ServerStep state
        { state with server := .awaiting, replies := state.replies ++ [reply] }

/-- The steps of a worker thread, one constructor for each. -/
inductive WorkerStep (worker : Worker) : Worker → Prop where
  | connectPull (hphase : worker.phase = .starting) :
      WorkerStep worker { worker with phase := .pullConnected }
  | connectPush (hphase : worker.phase = .pullConnected) :
      WorkerStep worker { worker with phase := .receiving }
  | pullRecv (batch : BatchPricingRequest) (rest : List BatchPricingRequest)
      (hphase : worker.phase = .receiving) (hpipe : worker.dispatchPipe = batch :: rest) :
      WorkerStep worker { worker with phase := .pricing batch, dispatchPipe := rest }
  | priceBatch (batch : BatchPricingRequest) (hphase : worker.phase = .pricing batch) :
      WorkerStep worker { worker with phase := .pushing (workerReply env batch) }
  | pushSend (msg : ResultMessage) (hphase : worker.phase = .pushing msg)
      (hroom : worker.resultsPipe.length < env.resultsHwm) :
      WorkerStep worker
        { worker with phase := .receiving, resultsPipe := worker.resultsPipe ++ [msg] }

variable {env}

theorem serverStep?_sound {state next : State env.threads} {action : Action env.threads}
    (hstep : serverStep? env state action = some next) : ServerStep env state next := by
  cases action with
  | frontendRecv =>
      simp only [serverStep?] at hstep
      split at hstep
      · next _ _ msg rest hserver hinbox =>
          obtain rfl := Option.some.inj hstep
          exact .frontendRecv msg rest hserver hinbox
      · cases hstep
  | dispatchSend i =>
      simp only [serverStep?] at hstep
      split at hstep
      · next _ rr batches sent hserver =>
          split at hstep
          · next _ batch hbatch =>
              split at hstep
              · next hroom =>
                  obtain rfl := Option.some.inj hstep
                  exact .dispatchSend i rr batches sent batch hserver hbatch hroom
              · cases hstep
          · cases hstep
      · cases hstep
  | endDispatch =>
      simp only [serverStep?] at hstep
      split at hstep
      · next _ rr batches sent hserver =>
          split at hstep
          · next hdone =>
              obtain rfl := Option.some.inj hstep
              exact .endDispatch rr batches (hdone ▸ hserver)
          · cases hstep
      · cases hstep
  | resultsRecv i =>
      simp only [serverStep?] at hstep
      split at hstep
      · next _ _ rr batches received allResults msg rest hserver hpipe =>
          split at hstep
          · next hmore =>
              obtain rfl := Option.some.inj hstep
              exact .resultsRecv i rr batches received allResults msg rest hserver hpipe hmore
          · cases hstep
      · cases hstep
  | endCollect =>
      simp only [serverStep?] at hstep
      split at hstep
      · next _ rr batches received allResults hserver =>
          split at hstep
          · next hdone =>
              obtain rfl := Option.some.inj hstep
              exact .endCollect rr batches allResults (hdone ▸ hserver)
          · cases hstep
      · cases hstep
  | frontendSend =>
      simp only [serverStep?] at hstep
      split at hstep
      · next _ reply hserver =>
          obtain rfl := Option.some.inj hstep
          exact .frontendSend reply hserver
      · cases hstep
  | connectPull | connectPush | pullRecv | priceBatch | pushSend => cases hstep

theorem workerStep?_sound {worker next : Worker} {action : Action env.threads}
    (hstep : workerStep? env worker action = some next) : WorkerStep env worker next := by
  cases action with
  | connectPull =>
      obtain ⟨hphase, hnext⟩ := Option.ite_none_right_eq_some.mp hstep
      obtain rfl := Option.some.inj hnext
      exact .connectPull hphase
  | connectPush =>
      obtain ⟨hphase, hnext⟩ := Option.ite_none_right_eq_some.mp hstep
      obtain rfl := Option.some.inj hnext
      exact .connectPush hphase
  | pullRecv =>
      simp only [workerStep?] at hstep
      split at hstep
      · next _ _ batch rest hphase hpipe =>
          obtain rfl := Option.some.inj hstep
          exact .pullRecv batch rest hphase hpipe
      · cases hstep
  | priceBatch =>
      simp only [workerStep?] at hstep
      split at hstep
      · next _ batch hphase =>
          obtain rfl := Option.some.inj hstep
          exact .priceBatch batch hphase
      · cases hstep
  | pushSend =>
      simp only [workerStep?] at hstep
      split at hstep
      · next _ msg hphase =>
          obtain ⟨hroom, hnext⟩ := Option.ite_none_right_eq_some.mp hstep
          obtain rfl := Option.some.inj hnext
          exact .pushSend msg hphase hroom
      · cases hstep
  | frontendRecv | dispatchSend | endDispatch | resultsRecv | endCollect | frontendSend =>
      cases hstep

/-- Every step is one of the server thread or one of a single worker thread. -/
theorem step_cases {state next : State env.threads} (hstep : (server env).Step state next) :
    ServerStep env state next ∨
      ∃ i worker, WorkerStep env (state.workers i) worker ∧ next = state.setWorker i worker := by
  obtain ⟨action, haction⟩ := hstep
  change step? env state action = some next at haction
  unfold step? at haction
  split at haction
  · next i _ =>
      obtain ⟨worker, hworker, rfl⟩ := Option.map_eq_some_iff.mp haction
      exact .inr ⟨i, worker, workerStep?_sound hworker, rfl⟩
  · exact .inl (serverStep?_sound haction)

theorem ServerStep.step {state next : State env.threads} (hstep : ServerStep env state next) :
    (server env).Step state next := by
  cases hstep with
  | frontendRecv msg rest hserver hinbox =>
      exact ⟨.frontendRecv, by
        simp [server, step?, Action.workerThread?, serverStep?, hserver, hinbox]⟩
  | dispatchSend i rr batches sent batch hserver hbatch hroom =>
      exact ⟨.dispatchSend i, by
        simp [server, step?, Action.workerThread?, serverStep?, hserver, hbatch, hroom]⟩
  | endDispatch rr batches hserver =>
      exact ⟨.endDispatch, by
        simp [server, step?, Action.workerThread?, serverStep?, hserver]⟩
  | resultsRecv i rr batches received allResults msg rest hserver hpipe hmore =>
      exact ⟨.resultsRecv i, by
        simp [server, step?, Action.workerThread?, serverStep?, hserver, hpipe, hmore]⟩
  | endCollect rr batches allResults hserver =>
      exact ⟨.endCollect, by
        simp [server, step?, Action.workerThread?, serverStep?, hserver]⟩
  | frontendSend reply hserver =>
      exact ⟨.frontendSend, by
        simp [server, step?, Action.workerThread?, serverStep?, hserver]⟩

theorem WorkerStep.step {state : State env.threads} {i : Fin env.threads} {worker : Worker}
    (hstep : WorkerStep env (state.workers i) worker) :
    (server env).Step state (state.setWorker i worker) := by
  cases hstep with
  | connectPull hphase =>
      exact ⟨.connectPull i, by simp [server, step?, Action.workerThread?, workerStep?, hphase]⟩
  | connectPush hphase =>
      exact ⟨.connectPush i, by simp [server, step?, Action.workerThread?, workerStep?, hphase]⟩
  | pullRecv batch rest hphase hpipe =>
      exact ⟨.pullRecv i, by
        simp [server, step?, Action.workerThread?, workerStep?, hphase, hpipe]⟩
  | priceBatch batch hphase =>
      exact ⟨.priceBatch i, by simp [server, step?, Action.workerThread?, workerStep?, hphase]⟩
  | pushSend msg hphase hroom =>
      exact ⟨.pushSend i, by
        simp [server, step?, Action.workerThread?, workerStep?, hphase, hroom]⟩

end RangePricer
