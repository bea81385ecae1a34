import RangePricer.Server.Deadlock

/-!
# The server process

Everything around the serving loop: the order in which `main` and `run_server`
create their threads, the signal mask each thread inherits, the shutdown
monitor, the errors that ZeroMQ raises and the joins that follow.  The serving
loop and its workers are the system of the previous modules, here with threads
that start late and may end.
-/

namespace RangePricer

open FlatBuffers Transition

inductive Signal where
  | sigint
  | sigterm
  deriving DecidableEq, Repr

/-- The part of a thread's signal mask that concerns the two signals. -/
structure SignalMask where
  sigint : Bool
  sigterm : Bool
  deriving DecidableEq, Repr

namespace SignalMask

def blocks (mask : SignalMask) : Signal → Bool
  | .sigint => mask.sigint
  | .sigterm => mask.sigterm

/-- The set `main` and the monitor build with `sigaddset`. -/
def both : SignalMask := ⟨true, true⟩

/-- `pthread_sigmask(SIG_BLOCK, ..)`. -/
def block (mask set : SignalMask) : SignalMask :=
  ⟨mask.sigint || set.sigint, mask.sigterm || set.sigterm⟩

@[simp]
theorem block_both (mask : SignalMask) : mask.block both = both := by
  simp [block, both]

end SignalMask

/-- `zmq::error_t::num()`. -/
inductive ZmqError where
  | eterm
  | other (num : Nat)
  deriving DecidableEq, Repr

inductive ThreadId (threads : Nat) where
  | main
  /-- spdlog's periodic flusher. -/
  | flusher
  /-- The threads libzmq starts for the context. -/
  | zmq
  | worker (i : Fin threads)
  | monitor
  deriving DecidableEq, Repr

/-- Where the main thread stands, by what it does next. -/
inductive MainPhase where
  | settingUp
  | flushEvery
  | blockSignals
  /-- First statement of `run_server`. -/
  | opening
  /-- Workers created so far; after the last one the monitor is. -/
  | spawning (count : Nat)
  /-- First statement of the `try` block. -/
  | binding
  | serving
  /-- Workers joined so far; after the last one the monitor is. -/
  | joining (count : Nat)
  /-- `run_server` has returned. -/
  | returned
  | exited
  deriving DecidableEq, Repr

namespace MainPhase

/-- `main` has entered `run_server`. -/
def entered : MainPhase → Bool
  | .settingUp | .flushEvery | .blockSignals => false
  | .opening | .spawning _ | .binding | .serving | .joining _ | .returned | .exited => true

/-- In `t.join()` or `monitor.join()`. -/
def inJoin : MainPhase → Bool
  | .joining _ => true
  | .settingUp | .flushEvery | .blockSignals | .opening | .spawning _ | .binding | .serving
  | .returned | .exited => false

end MainPhase

inductive Context where
  | absent
  | live
  | shutDown
  deriving DecidableEq, Repr

inductive MonitorPhase where
  /-- In `sigwait`. -/
  | waiting
  | notified (sig : Signal)
  | finished
  deriving DecidableEq, Repr

structure Process (threads : Nat) where
  main : MainPhase
  mainMask : SignalMask
  /-- The mask of each thread that is alive. -/
  flusher : Option SignalMask
  zmqThreads : Option SignalMask
  workerMasks : Fin threads → Option SignalMask
  monitor : Option (SignalMask × MonitorPhase)
  context : Context
  /-- Signals pending for the process. -/
  pending : Signal → Bool
  /-- Killed by a signal or by an exception that nothing catches. -/
  terminated : Bool
  server : State threads

namespace Process

variable {threads : Nat}

/-- The process at the first statement of `main`, with the mask it inherited. -/
def init (threads : Nat) (inherited : SignalMask) (inbox : List Bytes) : Process threads where
  main := .settingUp
  mainMask := inherited
  flusher := none
  zmqThreads := none
  workerMasks := fun _ => none
  monitor := none
  context := .absent
  pending := fun _ => false
  terminated := false
  server := State.init threads inbox

/-- The process has neither been killed nor has it exited. -/
def running (process : Process threads) : Bool :=
  !process.terminated && decide (process.main ≠ .exited)

/-- The mask of a live thread. -/
def mask? (process : Process threads) : ThreadId threads → Option SignalMask
  | .main => some process.mainMask
  | .flusher => process.flusher
  | .zmq => process.zmqThreads
  | .worker i => process.workerMasks i
  | .monitor =>
      match process.monitor with
      | some (mask, .waiting) | some (mask, .notified _) => some mask
      | some (_, .finished) | none => none

/-- No live thread takes the signal's default action. -/
def blockedEverywhere (process : Process threads) (sig : Signal) : Bool :=
  process.mainMask.blocks sig && (process.mask? .flusher).all (·.blocks sig) &&
    (process.mask? .zmq).all (·.blocks sig) && (process.mask? .monitor).all (·.blocks sig) &&
      decide (∀ i, (process.workerMasks i).all (·.blocks sig) = true)

/-- The monitor is in `sigwait`. -/
def monitorWaits (process : Process threads) : Bool :=
  match process.monitor with
  | some (_, .waiting) => true
  | some (_, .notified _) | some (_, .finished) | none => false

end Process

/-- The action calls into ZeroMQ. -/
def Action.usesSocket {threads : Nat} : Action threads → Bool
  | .priceBatch _ | .endDispatch | .endCollect => false
  | _ => true

/-- The server is in `frontend.recv`, `dispatch.send`, `results.recv` or `frontend.send`. -/
def ServerPhase.usesSocket : ServerPhase → Bool
  | .awaiting | .replying _ => true
  | .dispatching _ batches sent => decide (sent < batches.length)
  | .collecting _ batches received _ => decide (received < batches.length)
  | .crashed _ => false

/-- The worker is in a call that may raise an error. -/
def WorkerPhase.usesSocket : WorkerPhase → Bool
  | .pricing _ => false
  | .starting | .pullConnected | .receiving | .pushing _ => true

inductive ProcessAction (threads : Nat) where
  | setupLogger
  | flushEvery
  | blockSignals
  | openSockets
  /-- An error before the `try` block. -/
  | openError
  | spawnWorker (i : Fin threads)
  | spawnMonitor
  | bindFrontend
  | serve (action : Action threads)
  /-- An error inside the `try` block. -/
  | mainError (error : ZmqError)
  | workerError (i : Fin threads) (error : ZmqError)
  | joinWorker (i : Fin threads)
  | joinMonitor
  | spdlogShutdown
  /-- A signal arrives and is delivered to the given thread, or stays pending. -/
  | signal (sig : Signal) (thread : Option (ThreadId threads))
  | sigwait (sig : Signal)
  | shutdown
  deriving DecidableEq, Repr

namespace Process

variable {threads : Nat} (process : Process threads)

/-- The thread of a serving action is alive, and so are the sockets it uses. -/
def canServe (action : Action threads) : Bool :=
  (match action.workerThread? with
    | some i => (process.workerMasks i).isSome
    | none => decide (process.main = .serving)) &&
  (match action with
    | .dispatchSend i => (process.workerMasks i).isSome
    | _ => true) &&
  (!action.usesSocket || decide (process.context = .live))

/-- ETERM is raised only once the context has been shut down. -/
def canRaise (error : ZmqError) : Bool :=
  decide (error = .eterm → process.context = .shutDown)

/-- The main thread is in a call of the `try` block that may raise an error. -/
def inTry : Bool :=
  decide (process.main = .binding) ||
    decide (process.main = .serving) && process.server.server.usesSocket

end Process

/-- The steps of a process that is still running. -/
def runningStep? (env : Env) (process : Process env.threads)
    (action : ProcessAction env.threads) : Option (Process env.threads) :=
  match action with
  | .setupLogger =>
      if process.main = .settingUp then some { process with main := .flushEvery } else none
  | .flushEvery =>
      if process.main = .flushEvery then
        some { process with main := .blockSignals, flusher := some process.mainMask }
      else none
  | .blockSignals =>
      if process.main = .blockSignals then
        some { process with main := .opening, mainMask := process.mainMask.block .both }
      else none
  | .openSockets =>
      if process.main = .opening then
        some { process with
          main := .spawning 0, context := .live, zmqThreads := some .both }
      else none
  | .openError =>
      if process.main = .opening then some { process with terminated := true } else none
  | .spawnWorker i =>
      if process.main = .spawning i then
        some { process with
          main := .spawning (i + 1)
          workerMasks := Function.update process.workerMasks i (some process.mainMask) }
      else none
  | .spawnMonitor =>
      if process.main = .spawning env.threads then
        some { process with main := .binding, monitor := some (process.mainMask, .waiting) }
      else none
  | .bindFrontend =>
      if process.main = .binding ∧ process.context = .live then
        some { process with main := .serving }
      else none
  | .serve action =>
      if process.canServe action then
        (step? env process.server action).map fun server =>
          { process with server := server, terminated := server.server.hasCrashed }
      else none
  | .mainError error =>
      if process.inTry ∧ process.canRaise error then
        some { process with main := .joining 0 }
      else none
  | .workerError i error =>
      if (process.workerMasks i).isSome ∧ (process.server.workers i).phase.usesSocket ∧
          process.canRaise error then
        some { process with workerMasks := Function.update process.workerMasks i none }
      else none
  | .joinWorker i =>
      if process.main = .joining i ∧ process.workerMasks i = none then
        some { process with main := .joining (i + 1) }
      else none
  | .joinMonitor =>
      if process.main = .joining env.threads ∧
          process.monitor.map Prod.snd = some .finished then
        some { process with main := .returned, zmqThreads := none }
      else none
  | .spdlogShutdown =>
      if process.main = .returned then
        some { process with main := .exited, flusher := none }
      else none
  | .signal sig (some thread) =>
      if (process.mask? thread).any (fun mask => !mask.blocks sig) then
        some { process with terminated := true }
      else none
  | .signal sig none =>
      if process.blockedEverywhere sig ∨ process.monitorWaits then
        some { process with pending := Function.update process.pending sig true }
      else none
  | .sigwait sig =>
      match process.monitor with
      | some (mask, .waiting) =>
          if process.pending sig then
            some { process with
              pending := Function.update process.pending sig false
              monitor := some (mask, .notified sig) }
          else none
      | _ => none
  | .shutdown =>
      match process.monitor with
      | some (mask, .notified _) =>
          some { process with context := .shutDown, monitor := some (mask, .finished) }
      | _ => none

def processStep? (env : Env) (process : Process env.threads)
    (action : ProcessAction env.threads) : Option (Process env.threads) :=
  if process.running then runningStep? env process action else none

/-- The whole process. -/
def processSystem (env : Env) :
    Transition.System (Process env.threads) (ProcessAction env.threads) :=
  ⟨processStep? env⟩

/-! ## What a step can do -/

/-- The steps of a running process, one constructor for each. -/
inductive ProcessStep (env : Env) (process : Process env.threads) :
    ProcessAction env.threads → Process env.threads → Prop where
  | setupLogger (hmain : process.main = .settingUp) :
      ProcessStep env process .setupLogger { process with main := .flushEvery }
  | flushEvery (hmain : process.main = .flushEvery) :
      ProcessStep env process .flushEvery
        { process with main := .blockSignals, flusher := some process.mainMask }
  | blockSignals (hmain : process.main = .blockSignals) :
      ProcessStep env process .blockSignals
        { process with main := .opening, mainMask := process.mainMask.block .both }
  | openSockets (hmain : process.main = .opening) :
      ProcessStep env process .openSockets
        { process with main := .spawning 0, context := .live, zmqThreads := some .both }
  | openError (hmain : process.main = .opening) :
      ProcessStep env process .openError { process with terminated := true }
  | spawnWorker (i : Fin env.threads) (hmain : process.main = .spawning i) :
      ProcessStep env process (.spawnWorker i)
        { process with
          main := .spawning (i + 1)
          workerMasks := Function.update process.workerMasks i (some process.mainMask) }
  | spawnMonitor (hmain : process.main = .spawning env.threads) :
      ProcessStep env process .spawnMonitor
        { process with main := .binding, monitor := some (process.mainMask, .waiting) }
  | bindFrontend (hmain : process.main = .binding) (hcontext : process.context = .live) :
      ProcessStep env process .bindFrontend { process with main := .serving }
  | serve (action : Action env.threads) (next : State env.threads)
      (hcan : process.canServe action = true)
      (hnext : step? env process.server action = some next) :
      ProcessStep env process (.serve action)
        { process with server := next, terminated := next.server.hasCrashed }
  | mainError (error : ZmqError) (htry : process.inTry = true)
      (hraise : process.canRaise error = true) :
      ProcessStep env process (.mainError error) { process with main := .joining 0 }
  | workerError (i : Fin env.threads) (error : ZmqError)
      (hraise : process.canRaise error = true) :
      ProcessStep env process (.workerError i error)
        { process with workerMasks := Function.update process.workerMasks i none }
  | joinWorker (i : Fin env.threads) (hmain : process.main = .joining i)
      (hended : process.workerMasks i = none) :
      ProcessStep env process (.joinWorker i) { process with main := .joining (i + 1) }
  | joinMonitor (hmain : process.main = .joining env.threads)
      (hended : process.monitor.map Prod.snd = some .finished) :
      ProcessStep env process .joinMonitor
        { process with main := .returned, zmqThreads := none }
  | spdlogShutdown (hmain : process.main = .returned) :
      ProcessStep env process .spdlogShutdown
        { process with main := .exited, flusher := none }
  | deliver (sig : Signal) (thread : ThreadId env.threads) (mask : SignalMask)
      (hmask : process.mask? thread = some mask) (hblocks : mask.blocks sig = false) :
      ProcessStep env process (.signal sig (some thread)) { process with terminated := true }
  | pend (sig : Signal) :
      ProcessStep env process (.signal sig none)
        { process with pending := Function.update process.pending sig true }
  | sigwait (sig : Signal) (mask : SignalMask)
      (hmonitor : process.monitor = some (mask, .waiting)) (hpending : process.pending sig = true) :
      ProcessStep env process (.sigwait sig)
        { process with
          pending := Function.update process.pending sig false
          monitor := some (mask, .notified sig) }
  | shutdown (sig : Signal) (mask : SignalMask)
      (hmonitor : process.monitor = some (mask, .notified sig)) :
      ProcessStep env process .shutdown
        { process with context := .shutDown, monitor := some (mask, .finished) }

variable {env : Env}

theorem processStep?_eq_some {process next : Process env.threads}
    {action : ProcessAction env.threads} :
    processStep? env process action = some next ↔
      process.running = true ∧ runningStep? env process action = some next :=
  Option.ite_none_right_eq_some

theorem processStep?_sound {process next : Process env.threads}
    {action : ProcessAction env.threads} (hstep : processStep? env process action = some next) :
    ProcessStep env process action next := by
  obtain ⟨-, hstep⟩ := processStep?_eq_some.mp hstep
  cases action with
  | setupLogger =>
      obtain ⟨hmain, hnext⟩ := Option.ite_none_right_eq_some.mp hstep
      obtain rfl := Option.some.inj hnext
      exact .setupLogger hmain
  | flushEvery =>
      obtain ⟨hmain, hnext⟩ := Option.ite_none_right_eq_some.mp hstep
      obtain rfl := Option.some.inj hnext
      exact .flushEvery hmain
  | blockSignals =>
      obtain ⟨hmain, hnext⟩ := Option.ite_none_right_eq_some.mp hstep
      obtain rfl := Option.some.inj hnext
      exact .blockSignals hmain
  | openSockets =>
      obtain ⟨hmain, hnext⟩ := Option.ite_none_right_eq_some.mp hstep
      obtain rfl := Option.some.inj hnext
      exact .openSockets hmain
  | openError =>
      obtain ⟨hmain, hnext⟩ := Option.ite_none_right_eq_some.mp hstep
      obtain rfl := Option.some.inj hnext
      exact .openError hmain
  | spawnWorker i =>
      obtain ⟨hmain, hnext⟩ := Option.ite_none_right_eq_some.mp hstep
      obtain rfl := Option.some.inj hnext
      exact .spawnWorker i hmain
  | spawnMonitor =>
      obtain ⟨hmain, hnext⟩ := Option.ite_none_right_eq_some.mp hstep
      obtain rfl := Option.some.inj hnext
      exact .spawnMonitor hmain
  | bindFrontend =>
      obtain ⟨⟨hmain, hcontext⟩, hnext⟩ := Option.ite_none_right_eq_some.mp hstep
      obtain rfl := Option.some.inj hnext
      exact .bindFrontend hmain hcontext
  | serve action =>
      obtain ⟨hcan, hnext⟩ := Option.ite_none_right_eq_some.mp hstep
      obtain ⟨server, hserver, rfl⟩ := Option.map_eq_some_iff.mp hnext
      exact .serve action server hcan hserver
  | mainError error =>
      obtain ⟨⟨htry, hraise⟩, hnext⟩ := Option.ite_none_right_eq_some.mp hstep
      obtain rfl := Option.some.inj hnext
      exact .mainError error htry hraise
  | workerError i error =>
      obtain ⟨⟨-, -, hraise⟩, hnext⟩ := Option.ite_none_right_eq_some.mp hstep
      obtain rfl := Option.some.inj hnext
      exact .workerError i error hraise
  | joinWorker i =>
      obtain ⟨⟨hmain, hended⟩, hnext⟩ := Option.ite_none_right_eq_some.mp hstep
      obtain rfl := Option.some.inj hnext
      exact .joinWorker i hmain hended
  | joinMonitor =>
      obtain ⟨⟨hmain, hended⟩, hnext⟩ := Option.ite_none_right_eq_some.mp hstep
      obtain rfl := Option.some.inj hnext
      exact .joinMonitor hmain hended
  | spdlogShutdown =>
      obtain ⟨hmain, hnext⟩ := Option.ite_none_right_eq_some.mp hstep
      obtain rfl := Option.some.inj hnext
      exact .spdlogShutdown hmain
  | signal sig thread =>
      cases thread with
      | some thread =>
          obtain ⟨hany, hnext⟩ := Option.ite_none_right_eq_some.mp hstep
          obtain rfl := Option.some.inj hnext
          cases hmask : process.mask? thread with
          | none => simp [hmask] at hany
          | some mask => exact .deliver sig thread mask hmask (by simpa [hmask] using hany)
      | none =>
          obtain ⟨-, hnext⟩ := Option.ite_none_right_eq_some.mp hstep
          obtain rfl := Option.some.inj hnext
          exact .pend sig
  | sigwait sig =>
      rw [runningStep?] at hstep
      split at hstep
      · next mask hmonitor =>
          obtain ⟨hpending, hnext⟩ := Option.ite_none_right_eq_some.mp hstep
          obtain rfl := Option.some.inj hnext
          exact .sigwait sig mask hmonitor hpending
      · cases hstep
  | shutdown =>
      rw [runningStep?] at hstep
      split at hstep
      · next mask sig hmonitor =>
          obtain rfl := Option.some.inj hstep
          exact .shutdown sig mask hmonitor
      · cases hstep

theorem Process.step_cases {process next : Process env.threads}
    (hstep : (processSystem env).Step process next) :
    ∃ action, ProcessStep env process action next := by
  obtain ⟨action, hstep⟩ := hstep
  exact ⟨action, processStep?_sound hstep⟩

/-- The serving part of a process is a run of the serving system. -/
theorem Process.server_reachable {process next : Process env.threads}
    (hreach : (processSystem env).Reachable process next) :
    (RangePricer.server env).Reachable process.server next.server := by
  induction hreach with
  | refl => exact System.Reachable.refl _
  | tail _ hstep ih =>
      obtain ⟨action, hstep⟩ := Process.step_cases hstep
      cases hstep with
      | serve action next hcan hnext => exact ih.tail ⟨action, hnext⟩
      | _ => exact ih

end RangePricer
