import RangePricer.Process.Joins
import RangePricer.Transition.Termination

/-!
# How the process shuts down

Once the monitor has shut the context down every call into ZeroMQ raises ETERM:
the server thread leaves its loop for the joins, a worker ends after at most the
batch it is pricing, and the process exits with no thread left.  What remains to
be done is a number, and every step other than the arrival of a signal lowers it.
-/

namespace RangePricer

open FlatBuffers Transition Transition.System

variable {env : Env} {process next : Process env.threads} {action : ProcessAction env.threads}
  {inherited : SignalMask} {inbox : List Bytes}

/-! ## The threads of each phase -/

namespace MainPhase

/-- All threads have been created. -/
def launched : MainPhase → Bool
  | .settingUp | .flushEvery | .blockSignals | .opening | .spawning _ => false
  | .binding | .serving | .joining _ | .returned | .exited => true

/-- Workers joined so far. -/
def joined (threads : Nat) : MainPhase → Nat
  | .joining count => count
  | .returned | .exited => threads
  | .settingUp | .flushEvery | .blockSignals | .opening | .spawning _ | .binding | .serving => 0

end MainPhase

/-- The monitor has shut the context down. -/
def Process.monitorFinished (process : Process env.threads) : Prop :=
  process.monitor.map Prod.snd = some .finished

/-- Which threads there are in which phase of the main thread. -/
structure Orderly (process : Process env.threads) : Prop where
  monitor : process.monitor.isSome = process.main.launched
  /-- The monitor alone shuts the context down. -/
  context : process.context = .shutDown ↔ process.monitorFinished
  count : process.main.joined env.threads ≤ env.threads
  /-- A worker that has been joined has ended for good. -/
  workers : ∀ i : Fin env.threads, i.val < process.main.joined env.threads →
    process.workerMasks i = none
  returned : process.main = .returned ∨ process.main = .exited →
    process.monitorFinished ∧ process.zmqThreads = none
  exited : process.main = .exited → process.flusher = none ∧ process.terminated = false
  crashed : process.server.server.hasCrashed = true → process.terminated = true

theorem orderly_init (env : Env) (inherited : SignalMask) (inbox : List Bytes) :
    Orderly (Process.init env.threads inherited inbox) where
  monitor := rfl
  context := ⟨fun hshut => (by cases hshut), fun hfinished => (by cases hfinished)⟩
  count := Nat.zero_le _
  workers := fun i hi => absurd hi (Nat.not_lt_zero _)
  returned := by rintro (hmain | hmain) <;> cases hmain
  exited := fun hmain => by cases hmain
  crashed := fun hcrashed => by cases hcrashed

theorem MainPhase.joined_eq_zero {main : MainPhase} (hmain : main.launched = false)
    (threads : Nat) : main.joined threads = 0 := by
  cases main with
  | settingUp | flushEvery | blockSignals | opening | spawning => rfl
  | binding | serving | joining | returned | exited => cases hmain

/-- A process that is still creating its threads. -/
theorem Orderly.of_setup (hmain : process.main.launched = false)
    (hmonitor : process.monitor = none) (hcontext : process.context ≠ .shutDown)
    (hcrashed : process.server.server.hasCrashed = true → process.terminated = true) :
    Orderly process where
  monitor := by
    rw [hmonitor, hmain]
    rfl
  context := by
    rw [Process.monitorFinished, hmonitor]
    exact ⟨fun hshut => absurd hshut hcontext, fun hfinished => by cases hfinished⟩
  count := by
    rw [MainPhase.joined_eq_zero hmain]
    exact Nat.zero_le _
  workers := by
    rw [MainPhase.joined_eq_zero hmain]
    exact fun i hi => absurd hi (Nat.not_lt_zero _)
  returned := by
    rintro (hphase | hphase) <;> rw [hphase] at hmain <;> cases hmain
  exited := by
    intro hphase
    rw [hphase] at hmain
    cases hmain
  crashed := hcrashed

/-- Until it is created the monitor is absent, and nobody has shut the context down. -/
theorem Orderly.setup (horderly : Orderly process) (hmain : process.main.launched = false) :
    process.monitor = none ∧ process.context ≠ .shutDown := by
  have hnone : process.monitor = none :=
    Option.not_isSome_iff_eq_none.mp (by rw [horderly.monitor, hmain]; exact Bool.false_ne_true)
  refine ⟨hnone, fun hshut => ?_⟩
  have hfinished := horderly.context.mp hshut
  rw [Process.monitorFinished, hnone] at hfinished
  cases hfinished

/-- The `try` block binds the frontend and serves. -/
theorem Process.inTry_cases (htry : process.inTry = true) :
    process.main = .binding ∨ process.main = .serving := by
  rw [Process.inTry, Bool.or_eq_true, Bool.and_eq_true, decide_eq_true_eq,
    decide_eq_true_eq] at htry
  exact htry.imp_right And.left

theorem Orderly.step (horderly : Orderly process) (hrunning : process.running = true)
    (hstep : ProcessStep env process action next) : Orderly next := by
  rw [Process.running, Bool.and_eq_true, decide_eq_true_eq, Bool.not_eq_true'] at hrunning
  obtain ⟨halive, hrunning⟩ := hrunning
  cases hstep with
  | setupLogger hmain | flushEvery hmain | blockSignals hmain | spawnWorker i hmain =>
      obtain ⟨hmonitor, hcontext⟩ := horderly.setup (by rw [hmain]; rfl)
      exact .of_setup rfl hmonitor hcontext horderly.crashed
  | openSockets hmain =>
      obtain ⟨hmonitor, -⟩ := horderly.setup (by rw [hmain]; rfl)
      exact .of_setup rfl hmonitor Context.noConfusion horderly.crashed
  | openError hmain =>
      have hsetup : process.main.launched = false := by rw [hmain]; rfl
      obtain ⟨hmonitor, hcontext⟩ := horderly.setup hsetup
      exact .of_setup hsetup hmonitor hcontext fun _ => rfl
  | spawnMonitor hmain =>
      obtain ⟨-, hcontext⟩ := horderly.setup (by rw [hmain]; rfl)
      exact { horderly with
        monitor := rfl
        context := ⟨fun hshut => absurd hshut hcontext, fun hfinished => by cases hfinished⟩
        count := Nat.zero_le _
        workers := fun i hi => absurd hi (Nat.not_lt_zero _)
        returned := by rintro (hphase | hphase) <;> cases hphase
        exited := fun hphase => by cases hphase }
  | bindFrontend hmain =>
      exact { horderly with
        monitor := horderly.monitor.trans (by rw [hmain]; rfl)
        count := Nat.zero_le _
        workers := fun i hi => absurd hi (Nat.not_lt_zero _)
        returned := by rintro (hphase | hphase) <;> cases hphase
        exited := fun hphase => by cases hphase }
  | mainError error htry =>
      have hlaunched : process.main.launched = true := by
        obtain hmain | hmain := Process.inTry_cases htry <;> rw [hmain] <;> rfl
      exact { horderly with
        monitor := horderly.monitor.trans hlaunched
        count := Nat.zero_le _
        workers := fun i hi => absurd hi (Nat.not_lt_zero _)
        returned := by rintro (hphase | hphase) <;> cases hphase
        exited := fun hphase => by cases hphase }
  | serve action server =>
      exact { horderly with
        exited := fun hphase => absurd hphase hrunning
        crashed := id }
  | workerError i =>
      refine { horderly with workers := fun j hj => ?_ }
      by_cases hsame : j = i
      · rw [hsame]
        exact Function.update_self ..
      · exact (Function.update_of_ne hsame ..).trans (horderly.workers j hj)
  | joinWorker i hmain hended =>
      exact { horderly with
        monitor := horderly.monitor.trans (by rw [hmain]; rfl)
        count := i.isLt
        workers := fun j hj => by
          obtain hlt | heq := Nat.lt_succ_iff_lt_or_eq.mp hj
          · exact horderly.workers j (by rw [hmain]; exact hlt)
          · rw [Fin.ext heq]
            exact hended
        returned := by rintro (hphase | hphase) <;> cases hphase
        exited := fun hphase => by cases hphase }
  | joinMonitor hmain hended =>
      exact { horderly with
        monitor := horderly.monitor.trans (by rw [hmain]; rfl)
        count := le_rfl
        workers := fun i _ => horderly.workers i (by rw [hmain]; exact i.isLt)
        returned := fun _ => ⟨hended, rfl⟩
        exited := fun hphase => by cases hphase }
  | spdlogShutdown hmain =>
      exact { horderly with
        monitor := horderly.monitor.trans (by rw [hmain]; rfl)
        count := le_rfl
        workers := fun i _ => horderly.workers i (by rw [hmain]; exact i.isLt)
        returned := fun _ => horderly.returned (.inl hmain)
        exited := fun _ => ⟨rfl, halive⟩ }
  | deliver =>
      exact { horderly with
        exited := fun hphase => absurd hphase hrunning
        crashed := fun _ => rfl }
  | pend => exact { horderly with }
  | sigwait sig mask hmonitor =>
      have hwaiting : ¬ process.monitorFinished := by
        rw [Process.monitorFinished, hmonitor]
        exact fun hfinished => by cases hfinished
      exact { horderly with
        monitor := (by rw [hmonitor]; rfl : true = process.monitor.isSome).trans horderly.monitor
        context := ⟨fun hshut => absurd (horderly.context.mp hshut) hwaiting,
          fun hfinished => by cases hfinished⟩
        returned := fun hphase => absurd (horderly.returned hphase).1 hwaiting }
  | shutdown sig mask hmonitor =>
      exact { horderly with
        monitor := (by rw [hmonitor]; rfl : true = process.monitor.isSome).trans horderly.monitor
        context := ⟨fun _ => rfl, fun _ => rfl⟩
        returned := fun hphase => ⟨rfl, (horderly.returned hphase).2⟩ }

/-- Every reachable process is orderly. -/
theorem orderly_of_reachable
    (hreach : (processSystem env).Reachable (Process.init env.threads inherited inbox) process) :
    Orderly process := by
  refine hreach.invariant (fun before after horderly hstep => ?_) (orderly_init env inherited inbox)
  obtain ⟨action, hstep⟩ := hstep
  exact horderly.step (processStep?_eq_some.mp hstep).1 (processStep?_sound hstep)

/-! ## What is left to do -/

/-- The arrival of a signal; all other actions are the process's own. -/
def ProcessAction.isSignal {threads : Nat} : ProcessAction threads → Bool
  | .signal _ _ => true
  | _ => false

/-- The process while no further signal arrives. -/
def signalFree (env : Env) :
    Transition.System (Process env.threads) (ProcessAction env.threads) :=
  (processSystem env).only fun action => !action.isSignal

/-- Steps of the main thread from a call that raises ETERM to the end of `main`. -/
def MainPhase.left (threads : Nat) : MainPhase → Nat
  | .joining count => threads - count + 2
  | .returned => 1
  | .exited => 0
  | .settingUp | .flushEvery | .blockSignals | .opening | .spawning _ | .binding | .serving =>
      threads + 3

/-- Steps the server thread may take before its next call into ZeroMQ. -/
def ServerPhase.left : ServerPhase → Nat
  | .dispatching .. => 2
  | .collecting .. => 1
  | .awaiting | .replying _ | .crashed _ => 0

/-- Steps a live worker takes until it has ended. -/
def WorkerPhase.left : WorkerPhase → Nat
  | .pricing _ => 2
  | .starting | .pullConnected | .receiving | .pushing _ => 1

def workerLeft : Option SignalMask → Worker → Nat
  | some _, worker => worker.phase.left
  | none, _ => 0

/-- A bound on the steps left once the context has been shut down. -/
def Process.left (process : Process env.threads) : Nat :=
  process.main.left env.threads + process.server.server.left +
    ∑ i, workerLeft (process.workerMasks i) (process.server.workers i)

/-- Ending a live worker leaves less to do. -/
theorem left_lt_of_workerError {i : Fin env.threads} (hlive : (process.workerMasks i).isSome) :
    ({ process with workerMasks := Function.update process.workerMasks i none } :
      Process env.threads).left < process.left := by
  have hsum := sum_update_add (fun j mask => workerLeft mask (process.server.workers j))
    process.workerMasks i none
  obtain ⟨mask, hmask⟩ := Option.isSome_iff_exists.mp hlive
  have hpos : 0 < workerLeft (process.workerMasks i) (process.server.workers i) := by
    rw [hmask]
    cases hphase : (process.server.workers i).phase <;> simp [workerLeft, hphase, WorkerPhase.left]
  have hended : workerLeft none (process.server.workers i) = 0 := rfl
  simp only [Process.left]
  omega

/-- Without sockets only pricing, or the end of a loop of the server thread, is left. -/
theorem left_lt_of_serve {action : Action env.threads} {server : State env.threads}
    (hcan : process.canServe action = true) (hsocket : action.usesSocket = false)
    (hnext : step? env process.server action = some server) (terminated : Bool) :
    server.server.hasCrashed = process.server.server.hasCrashed ∧
      ({ process with server := server, terminated := terminated } : Process env.threads).left <
        process.left := by
  cases action with
  | priceBatch i =>
      simp only [Process.canServe, Action.workerThread?, Bool.and_eq_true] at hcan
      obtain ⟨mask, hmask⟩ := Option.isSome_iff_exists.mp hcan.1.1
      obtain ⟨worker, hworker, rfl⟩ := Option.map_eq_some_iff.mp hnext
      simp only [workerStep?] at hworker
      split at hworker
      · next batch hphase =>
          obtain rfl := Option.some.inj hworker
          have hsum := sum_update_add (fun j worker => workerLeft (process.workerMasks j) worker)
            process.server.workers i
            { process.server.workers i with phase := .pushing (workerReply env batch) }
          have hpricing :
              workerLeft (process.workerMasks i) (process.server.workers i) = 2 := by
            simp [hmask, workerLeft, hphase, WorkerPhase.left]
          have hpushing : workerLeft (process.workerMasks i) { process.server.workers i with
              phase := .pushing (workerReply env batch) } = 1 := by
            simp [hmask, workerLeft, WorkerPhase.left]
          simp only [hpricing, hpushing] at hsum
          refine ⟨rfl, ?_⟩
          simp only [Process.left, State.setWorker_server, State.setWorker_workers]
          omega
      · cases hworker
  | endDispatch =>
      simp only [step?, Action.workerThread?, serverStep?] at hnext
      split at hnext
      · next rr batches sent hserver =>
          obtain ⟨-, hnext⟩ := Option.ite_none_right_eq_some.mp hnext
          obtain rfl := Option.some.inj hnext
          refine ⟨by rw [hserver]; rfl, ?_⟩
          simp only [Process.left, hserver, ServerPhase.left]
          omega
      · cases hnext
  | endCollect =>
      simp only [step?, Action.workerThread?, serverStep?] at hnext
      split at hnext
      · next rr batches received allResults hserver =>
          obtain ⟨-, hnext⟩ := Option.ite_none_right_eq_some.mp hnext
          obtain rfl := Option.some.inj hnext
          refine ⟨by rw [hserver]; rfl, ?_⟩
          simp only [Process.left, hserver, ServerPhase.left]
          omega
      · cases hnext
  | frontendRecv | dispatchSend | resultsRecv | frontendSend | connectPull | connectPush
  | pullRecv | pushSend => cases hsocket

/-- Once the context has been shut down every step but a signal leaves less to do. -/
theorem left_lt (horderly : Orderly process) (hshut : process.context = .shutDown)
    (hown : action.isSignal = false) (hstep : processStep? env process action = some next) :
    next.context = .shutDown ∧ next.terminated = false ∧ next.left < process.left := by
  obtain ⟨hrunning, hnext⟩ := processStep?_eq_some.mp hstep
  rw [Process.running, Bool.and_eq_true, Bool.not_eq_true'] at hrunning
  obtain ⟨halive, -⟩ := hrunning
  have hlaunched (hmain : process.main.launched = false) : False :=
    (horderly.setup hmain).2 hshut
  have hfinished := horderly.context.mp hshut
  cases processStep?_sound hstep with
  | setupLogger hmain | flushEvery hmain | blockSignals hmain | openSockets hmain
  | openError hmain | spawnWorker i hmain | spawnMonitor hmain =>
      exact (hlaunched (by rw [hmain]; rfl)).elim
  | bindFrontend hmain hlive =>
      rw [hshut] at hlive
      cases hlive
  | serve action server hcan hserver =>
      have hsocket : action.usesSocket = false := by
        simp only [Process.canServe, Bool.and_eq_true] at hcan
        simpa [hshut] using hcan.2
      obtain ⟨hsame, hlower⟩ := left_lt_of_serve hcan hsocket hserver server.server.hasCrashed
      refine ⟨hshut, ?_, hlower⟩
      change server.server.hasCrashed = false
      rw [hsame, ← Bool.not_eq_true]
      intro hcrashed
      cases halive.symm.trans (horderly.crashed hcrashed)
  | mainError error htry =>
      refine ⟨hshut, halive, ?_⟩
      obtain hmain | hmain := Process.inTry_cases htry <;>
      · simp only [Process.left, hmain, MainPhase.left]
        omega
  | workerError i error =>
      exact ⟨hshut, halive, left_lt_of_workerError (Option.ite_none_right_eq_some.mp hnext).1.1⟩
  | joinWorker i hmain =>
      refine ⟨hshut, halive, ?_⟩
      have hi := i.isLt
      simp only [Process.left, hmain, MainPhase.left]
      omega
  | joinMonitor hmain | spdlogShutdown hmain =>
      refine ⟨hshut, halive, ?_⟩
      simp only [Process.left, hmain, MainPhase.left]
      omega
  | deliver | pend => cases hown
  | sigwait sig mask hmonitor | shutdown sig mask hmonitor =>
      rw [Process.monitorFinished, hmonitor] at hfinished
      cases hfinished

/-! ## There is always something left to do -/

theorem signalFree_step_iff {target : Process env.threads} :
    (signalFree env).step? process action = some target ↔
      action.isSignal = false ∧ processStep? env process action = some target := by
  rw [signalFree, only_step?_eq_some, Bool.not_eq_true']
  rfl

/-- `main` has returned 0, and every thread the process created has ended before. -/
structure Ended (process : Process env.threads) : Prop where
  exited : process.main = .exited
  terminated : process.terminated = false
  workers : ∀ i, process.workerMasks i = none
  monitor : process.monitorFinished
  context : process.context = .shutDown
  zmqThreads : process.zmqThreads = none
  flusher : process.flusher = none

theorem Ended.stuck (hended : Ended process) : ¬ (signalFree env).Enabled process := by
  rintro ⟨next, action, hstep⟩
  have hrunning := (processStep?_eq_some.mp (signalFree_step_iff.mp hstep).2).1
  rw [Process.running, Bool.and_eq_true, decide_eq_true_eq] at hrunning
  exact hrunning.2 hended.exited

/-- A process on its way out. -/
structure Leaving (inherited : SignalMask) (inbox : List Bytes) (process : Process env.threads) :
    Prop where
  reachable : (processSystem env).Reachable (Process.init env.threads inherited inbox) process
  context : process.context = .shutDown
  terminated : process.terminated = false

theorem Leaving.step (hleaving : Leaving inherited inbox process)
    (hstep : (signalFree env).Step process next) :
    Leaving inherited inbox next ∧ next.left < process.left := by
  obtain ⟨action, hstep⟩ := hstep
  obtain ⟨hown, hstep⟩ := signalFree_step_iff.mp hstep
  obtain ⟨hshut, halive, hlower⟩ :=
    left_lt (orderly_of_reachable hleaving.reachable) hleaving.context hown hstep
  exact ⟨⟨hleaving.reachable.tail ⟨action, hstep⟩, hshut, halive⟩, hlower⟩

end RangePricer
