import RangePricer.Process.Shutdown
import RangePricer.Server.Completion

/-!
# The process while nothing goes wrong

No signal arrives and no call raises an error.  The threads start late and one
after the other, a worker may connect before the next one exists and before the
frontend is bound, and a fault of the expansion takes the whole process down.
None of this changes what serving comes to: the process does the work of the
serving system and the steps of its own start, and ends where serving ends.
-/

namespace RangePricer

open FlatBuffers Transition Transition.System

variable {env : Env} {process next : Process env.threads} {action : ProcessAction env.threads}
  {inherited : SignalMask} {inbox : List Bytes}

/-! ## The process without signals and errors -/

/-- An error raised by a call into ZeroMQ. -/
def ProcessAction.isError {threads : Nat} : ProcessAction threads → Bool
  | .openError | .mainError _ | .workerError _ _ => true
  | _ => false

def undisturbed (env : Env) :
    Transition.System (Process env.threads) (ProcessAction env.threads) :=
  (processSystem env).only fun action => !action.isSignal && !action.isError

theorem undisturbed_step_iff {target : Process env.threads} :
    (undisturbed env).step? process action = some target ↔
      (action.isSignal = false ∧ action.isError = false) ∧
        processStep? env process action = some target := by
  rw [undisturbed, only_step?_eq_some, Bool.and_eq_true, Bool.not_eq_true', Bool.not_eq_true']
  rfl

namespace MainPhase

/-- Steps until the main thread serves. -/
def setupLeft (threads : Nat) : MainPhase → Nat
  | .settingUp => threads + 6
  | .flushEvery => threads + 5
  | .blockSignals => threads + 4
  | .opening => threads + 3
  | .spawning count => threads - count + 2
  | .binding => 1
  | .serving | .joining _ | .returned | .exited => 0

/-- Workers created so far. -/
def spawned (threads : Nat) : MainPhase → Nat
  | .settingUp | .flushEvery | .blockSignals | .opening => 0
  | .spawning count => count
  | .binding | .serving | .joining _ | .returned | .exited => threads

/-- The sockets of `run_server` have been opened. -/
def opened : MainPhase → Bool
  | .settingUp | .flushEvery | .blockSignals | .opening => false
  | .spawning _ | .binding | .serving | .joining _ | .returned | .exited => true

/-- The main thread has not left its loop. -/
def working : MainPhase → Bool
  | .settingUp | .flushEvery | .blockSignals | .opening | .spawning _ | .binding | .serving => true
  | .joining _ | .returned | .exited => false

end MainPhase

/-- A process in which nothing has gone wrong, a fault of the expansion apart. -/
structure Working (process : Process env.threads) : Prop where
  main : process.main.working = true
  context : process.context = .live ↔ process.main.opened = true
  count : process.main.spawned env.threads ≤ env.threads
  workers : ∀ i : Fin env.threads,
    (process.workerMasks i).isSome = true ↔ i.val < process.main.spawned env.threads
  /-- The monitor has not been notified. -/
  monitor : ∀ mask phase, process.monitor = some (mask, phase) → phase = .waiting
  pending : ∀ sig, process.pending sig = false
  terminated : process.terminated = process.server.server.hasCrashed

theorem working_init (env : Env) (inherited : SignalMask) (inbox : List Bytes) :
    Working (Process.init env.threads inherited inbox) where
  main := rfl
  context := ⟨fun hlive => (by cases hlive), fun hopened => (by cases hopened)⟩
  count := Nat.zero_le _
  workers := fun i =>
    ⟨fun hlive => (by cases hlive), fun hi => absurd hi (Nat.not_lt_zero _)⟩
  monitor := fun mask phase hmonitor => by cases hmonitor
  pending := fun sig => rfl
  terminated := rfl

/-- The steps left, those of the start and those of serving. -/
def Process.serviceLeft (process : Process env.threads) : Nat :=
  process.main.setupLeft env.threads + process.server.remaining env

theorem serviceLeft_init (env : Env) (inherited : SignalMask) (inbox : List Bytes) :
    (Process.init env.threads inherited inbox).serviceLeft =
      3 * env.threads + 6 + (inbox.map (messageSteps env)).sum := by
  have hserver := remaining_init env inbox
  simp only [Process.serviceLeft, Process.init, MainPhase.setupLeft]
  omega

theorem Working.step (hworking : Working process)
    (hstep : (undisturbed env).Step process next) :
    Working next ∧ next.serviceLeft + 1 = process.serviceLeft := by
  obtain ⟨action, hstep⟩ := hstep
  obtain ⟨⟨hsignal, herror⟩, hstep⟩ := undisturbed_step_iff.mp hstep
  cases processStep?_sound hstep with
  | openError | mainError | workerError => cases herror
  | deliver | pend => cases hsignal
  | setupLogger hmain | flushEvery hmain | blockSignals hmain =>
      refine ⟨{ hworking with
        main := rfl
        context := hworking.context.trans (by rw [hmain]; exact Iff.rfl)
        count := Nat.zero_le _
        workers := fun i => (hworking.workers i).trans (by rw [hmain]; exact Iff.rfl) }, ?_⟩
      simp only [Process.serviceLeft, hmain, MainPhase.setupLeft]
      omega
  | openSockets hmain =>
      refine ⟨{ hworking with
        main := rfl
        context := ⟨fun _ => rfl, fun _ => rfl⟩
        count := Nat.zero_le _
        workers := fun i => (hworking.workers i).trans (by rw [hmain]; exact Iff.rfl) }, ?_⟩
      simp only [Process.serviceLeft, hmain, MainPhase.setupLeft]
      omega
  | spawnWorker i hmain =>
      refine ⟨{ hworking with
        main := rfl
        context := hworking.context.trans (by rw [hmain]; exact Iff.rfl)
        count := i.isLt
        workers := fun j => ?_ }, ?_⟩
      · have hj := hworking.workers j
        rw [hmain] at hj
        simp only [MainPhase.spawned] at hj ⊢
        obtain rfl | hother := eq_or_ne j i
        · simp
        · have hvalue : j.val ≠ i.val := fun hsame => hother (Fin.ext hsame)
          rw [Function.update_of_ne hother, hj]
          omega
      · have hi := i.isLt
        simp only [Process.serviceLeft, hmain, MainPhase.setupLeft]
        omega
  | spawnMonitor hmain =>
      refine ⟨{ hworking with
        main := rfl
        context := hworking.context.trans (by rw [hmain]; exact Iff.rfl)
        count := le_rfl
        workers := fun i => (hworking.workers i).trans (by rw [hmain]; exact Iff.rfl)
        monitor := fun mask phase hmonitor => by cases hmonitor; rfl }, ?_⟩
      simp only [Process.serviceLeft, hmain, MainPhase.setupLeft]
      omega
  | bindFrontend hmain =>
      refine ⟨{ hworking with
        main := rfl
        context := hworking.context.trans (by rw [hmain]; exact Iff.rfl)
        count := le_rfl
        workers := fun i => (hworking.workers i).trans (by rw [hmain]; exact Iff.rfl) }, ?_⟩
      simp only [Process.serviceLeft, hmain, MainPhase.setupLeft]
      omega
  | serve action server hcan hserver =>
      have hunit := remaining_eq ⟨action, hserver⟩
      refine ⟨{ hworking with terminated := rfl }, ?_⟩
      simp only [Process.serviceLeft]
      omega
  | joinWorker i hmain | joinMonitor hmain | spdlogShutdown hmain =>
      have hphase := hworking.main
      rw [hmain] at hphase
      cases hphase
  | sigwait sig mask hmonitor hpending =>
      rw [hworking.pending sig] at hpending
      cases hpending
  | shutdown sig mask hmonitor =>
      cases hworking.monitor _ _ hmonitor

/-! ## Where the process rests -/

theorem Working.running (hworking : Working process) (halive : process.terminated = false) :
    process.running = true := by
  have hmain := hworking.main
  rw [Process.running, halive, Bool.not_false, Bool.true_and, decide_eq_true_eq]
  intro hexited
  rw [hexited] at hmain
  cases hmain

theorem undisturbed_step {target : Process env.threads} (hsignal : action.isSignal = false)
    (herror : action.isError = false) (hrunning : process.running = true)
    (hstep : runningStep? env process action = some target) :
    (undisturbed env).Step process target :=
  ⟨action, undisturbed_step_iff.mpr
    ⟨⟨hsignal, herror⟩, processStep?_eq_some.mpr ⟨hrunning, hstep⟩⟩⟩

/-- The start never waits for anything. -/
theorem Working.exists_setup_step (hworking : Working process)
    (hrunning : process.running = true) (hserving : process.main ≠ .serving) :
    ∃ next, (undisturbed env).Step process next ∧ next.server = process.server := by
  have hphase := hworking.main
  cases hmain : process.main with
  | settingUp =>
      exact ⟨_, @undisturbed_step env process .setupLogger _ rfl rfl hrunning (if_pos hmain), rfl⟩
  | flushEvery =>
      exact ⟨_, @undisturbed_step env process .flushEvery _ rfl rfl hrunning (if_pos hmain), rfl⟩
  | blockSignals =>
      exact ⟨_, @undisturbed_step env process .blockSignals _ rfl rfl hrunning (if_pos hmain), rfl⟩
  | opening =>
      exact ⟨_, @undisturbed_step env process .openSockets _ rfl rfl hrunning (if_pos hmain), rfl⟩
  | spawning count =>
      have hcount := hworking.count
      rw [hmain, MainPhase.spawned] at hcount
      obtain hmore | rfl := Nat.lt_or_eq_of_le hcount
      · exact ⟨_, @undisturbed_step env process (.spawnWorker ⟨count, hmore⟩) _ rfl rfl hrunning
          (if_pos hmain), rfl⟩
      · exact ⟨_, @undisturbed_step env process .spawnMonitor _ rfl rfl hrunning (if_pos hmain),
          rfl⟩
  | binding =>
      have hlive := hworking.context.mpr (by rw [hmain]; rfl)
      exact ⟨_, @undisturbed_step env process .bindFrontend _ rfl rfl hrunning
        (if_pos ⟨hmain, hlive⟩), rfl⟩
  | serving => exact absurd hmain hserving
  | joining | returned | exited =>
      rw [hmain] at hphase
      cases hphase

/-- Once the main thread serves all threads are there, and so are their sockets. -/
theorem Working.canServe (hworking : Working process) (hmain : process.main = .serving)
    (action : Action env.threads) : process.canServe action = true := by
  have hlive : process.context = .live := hworking.context.mpr (by rw [hmain]; rfl)
  have hworkers (i : Fin env.threads) : (process.workerMasks i).isSome = true :=
    (hworking.workers i).mpr (by rw [hmain]; exact i.isLt)
  cases action <;> simp [Process.canServe, Action.workerThread?, hlive, hmain, hworkers]

/-- The process after a step of the serving system. -/
def Process.afterServing (process : Process env.threads) (server : State env.threads) :
    Process env.threads :=
  { process with server := server, terminated := server.server.hasCrashed }

theorem Working.serve_step (hworking : Working process) (halive : process.terminated = false)
    (hmain : process.main = .serving) {action : Action env.threads} {server : State env.threads}
    (hserver : step? env process.server action = some server) :
    (undisturbed env).step? process (.serve action) = some (process.afterServing server) := by
  refine undisturbed_step_iff.mpr ⟨⟨rfl, rfl⟩, processStep?_eq_some.mpr
    ⟨hworking.running halive, ?_⟩⟩
  rw [runningStep?, if_pos (hworking.canServe hmain action), hserver]
  rfl

/-- From then on the process does nothing but serve. -/
theorem Working.step_of_serving (hworking : Working process) (hmain : process.main = .serving)
    (hstep : (undisturbed env).Step process next) :
    (server env).Step process.server next.server := by
  obtain ⟨action, hstep⟩ := hstep
  obtain ⟨⟨hsignal, herror⟩, hstep⟩ := undisturbed_step_iff.mp hstep
  cases processStep?_sound hstep with
  | openError | mainError | workerError => cases herror
  | deliver | pend => cases hsignal
  | serve action server hcan hserver => exact ⟨action, hserver⟩
  | setupLogger hphase | flushEvery hphase | blockSignals hphase | openSockets hphase
  | spawnWorker i hphase | spawnMonitor hphase | bindFrontend hphase | joinWorker i hphase
  | joinMonitor hphase | spdlogShutdown hphase =>
      rw [hmain] at hphase
      cases hphase
  | sigwait sig mask hmonitor hpending =>
      rw [hworking.pending sig] at hpending
      cases hpending
  | shutdown sig mask hmonitor => cases hworking.monitor _ _ hmonitor

/-- The ways in which the process comes to rest. -/
inductive Rests (env : Env) (inbox : List Bytes) (process : Process env.threads) : Prop where
  | completed (hmain : process.main = .serving) (halive : process.terminated = false)
      (hdone : Completed env inbox process.server)
  | deadlocked (hmain : process.main = .serving) (halive : process.terminated = false)
      (hdead : Deadlocked env process.server)
  /-- The expansion faulted, which nothing catches. -/
  | killed (hkilled : process.terminated = true) (fault : Fault)
      (hcrashed : process.server.server = .crashed fault)

theorem ServerPhase.exists_fault {phase : ServerPhase} (hcrashed : phase.hasCrashed = true) :
    ∃ fault, phase = .crashed fault := by
  cases phase with
  | crashed fault => exact ⟨fault, rfl⟩
  | awaiting | dispatching | collecting | replying => cases hcrashed

theorem not_enabled_of_terminated (hkilled : process.terminated = true) :
    ¬ (undisturbed env).Enabled process := by
  rintro ⟨next, action, hstep⟩
  have hrunning := (processStep?_eq_some.mp (undisturbed_step_iff.mp hstep).2).1
  rw [Process.running, hkilled] at hrunning
  cases hrunning

theorem Rests.stuck (hworking : Working process) (hrests : Rests env inbox process) :
    ¬ (undisturbed env).Enabled process := by
  cases hrests with
  | completed hmain halive hdone =>
      rintro ⟨next, hstep⟩
      exact hdone.stuck ⟨_, hworking.step_of_serving hmain hstep⟩
  | deadlocked hmain halive hdead =>
      rintro ⟨next, hstep⟩
      exact hdead.stuck ⟨_, hworking.step_of_serving hmain hstep⟩
  | killed hkilled => exact not_enabled_of_terminated hkilled

theorem rests_of_stuck (hdispatch : 1 ≤ env.dispatchHwm) (hresults : 1 ≤ env.resultsHwm)
    (hworking : Working process) (hinv : Inventory env inbox process.server)
    (hstuck : ¬ (undisturbed env).Enabled process) : Rests env inbox process := by
  cases halive : process.terminated with
  | true =>
      obtain ⟨fault, hcrashed⟩ := ServerPhase.exists_fault (hworking.terminated.symm.trans halive)
      exact .killed halive fault hcrashed
  | false =>
      have hmain : process.main = .serving := by
        by_contra hsetup
        obtain ⟨next, hstep, -⟩ := hworking.exists_setup_step (hworking.running halive) hsetup
        exact hstuck ⟨next, hstep⟩
      have hserver : ¬ (server env).Enabled process.server := by
        rintro ⟨next, action, hnext⟩
        exact hstuck ⟨_, _, hworking.serve_step halive hmain hnext⟩
      cases outcome_of_stuck hdispatch hresults hinv hserver with
      | completed hdone => exact .completed hmain halive hdone
      | deadlocked hdead => exact .deadlocked hmain halive hdead
      | fallen hfallen =>
          obtain ⟨-, -, fault, -, -, -, hcrashed⟩ := hfallen.exists_fault
          have hkilled := hworking.terminated
          rw [hcrashed, halive] at hkilled
          cases hkilled

/-! ## From the serving system to the process -/

/-- The start can be run to its end before anything is served. -/
theorem Working.exists_serving (hworking : Working process) (halive : process.terminated = false) :
    ∃ target, (undisturbed env).Reachable process target ∧ Working target ∧
      target.terminated = false ∧ target.main = .serving ∧ target.server = process.server := by
  induction hleft : process.serviceLeft generalizing process with
  | zero =>
      refine ⟨process, Reachable.refl _, hworking, halive, ?_, rfl⟩
      by_contra hsetup
      obtain ⟨next, hstep, -⟩ := hworking.exists_setup_step (hworking.running halive) hsetup
      have hunit := (hworking.step hstep).2
      omega
  | succ left ih =>
      by_cases hmain : process.main = .serving
      · exact ⟨process, Reachable.refl _, hworking, halive, hmain, rfl⟩
      · obtain ⟨next, hstep, hsame⟩ := hworking.exists_setup_step (hworking.running halive) hmain
        obtain ⟨hnext, hunit⟩ := hworking.step hstep
        have hlives : next.terminated = false := by
          rw [hnext.terminated, hsame, ← hworking.terminated, halive]
        obtain ⟨target, hreach, htarget, hlast, hserving, hserver⟩ :=
          ih hnext hlives (by omega)
        exact ⟨target, (Reachable.single hstep).trans hreach, htarget, hlast, hserving,
          hserver.trans hsame⟩

/-- A run of the serving system is one of the process, as far as the process survives it. -/
theorem Working.exists_served (hworking : Working process) (halive : process.terminated = false)
    (hmain : process.main = .serving) {actions : List (Action env.threads)}
    {after : State env.threads} (hrun : (server env).run? process.server actions = some after) :
    ∃ target, (undisturbed env).Reachable process target ∧ Working target ∧
      ((target.main = .serving ∧ target.terminated = false ∧ target.server = after) ∨
        target.terminated = true) := by
  induction actions generalizing process with
  | nil =>
      exact ⟨process, Reachable.refl _, hworking, .inl ⟨hmain, halive, Option.some.inj hrun⟩⟩
  | cons action rest ih =>
      obtain ⟨next, haction, hrest⟩ := Option.bind_eq_some_iff.mp hrun
      have hstep : (undisturbed env).Step process (process.afterServing next) :=
        ⟨_, hworking.serve_step halive hmain haction⟩
      have hnext := (hworking.step hstep).1
      cases hlives : next.server.hasCrashed with
      | true => exact ⟨_, Reachable.single hstep, hnext, .inr hlives⟩
      | false =>
          obtain ⟨target, hreach, htarget, hcases⟩ := ih hnext hlives hmain hrest
          exact ⟨target, (Reachable.single hstep).trans hreach, htarget, hcases⟩

/-! ## What the process comes to -/

theorem working_of_run? {actions : List (ProcessAction env.threads)}
    (hrun : (undisturbed env).run? (Process.init env.threads inherited inbox) actions =
      some process) : Working process :=
  (reachable_of_run? hrun).invariant (fun _ _ hbefore hstep => (hbefore.step hstep).1)
    (working_init env inherited inbox)

theorem inventory_of_run? {actions : List (ProcessAction env.threads)}
    (hrun : (undisturbed env).run? (Process.init env.threads inherited inbox) actions =
      some process) : Inventory env inbox process.server :=
  inventory_of_reachable (Process.server_reachable (reachable_of_run? hrun).of_only)

/-- With servable messages only the process neither faults nor deadlocks. -/
theorem Rests.completed_of_servable (hdispatch : 1 ≤ env.dispatchHwm)
    (hresults : 1 ≤ env.resultsHwm) (hrests : Rests env inbox process)
    (hreach : (server env).Reachable (State.init env.threads inbox) process.server)
    (hservable : ∀ msg ∈ inbox, servable env msg = true) :
    process.main = .serving ∧ process.terminated = false ∧
      Completed env inbox process.server := by
  cases hrests with
  | completed hmain halive hdone => exact ⟨hmain, halive, hdone⟩
  | deadlocked hmain halive hdead =>
      exact ⟨hmain, halive,
        RangePricer.completed_of_servable hreach hdead.stuck hdispatch hresults hservable⟩
  | killed hkilled fault hcrashed =>
      obtain ⟨answered, current, hsplit, -, haccounts⟩ := inventory_of_reachable hreach
      rw [hcrashed] at haccounts
      generalize inFlight env process.server.workers = flight at haccounts
      cases haccounts with
      | crashed msg _ hmsg hexpand =>
          have hsafe := servable_iff.mp (hservable msg (by simp [hsplit]))
          have hfault : handleMessage env msg = .crashed fault := by
            simp [handleMessage, hmsg, hexpand]
          rw [hfault] at hsafe
          cases hsafe.1

/-- A schedule on which serving ends is followed by the process to its end, unless it is killed
on the way. -/
theorem exists_stuck (inherited : SignalMask) {actions : List (Action env.threads)}
    {after : State env.threads}
    (hend : (server env).Completes (State.init env.threads inbox) actions after) :
    ∃ target, (undisturbed env).Reachable (Process.init env.threads inherited inbox) target ∧
      ¬ (undisturbed env).Enabled target ∧ (target.server = after ∨ target.terminated = true) := by
  obtain ⟨started, hstart, hworking, halive, hmain, hserver⟩ :=
    (working_init env inherited inbox).exists_serving rfl
  have hinit : started.server = State.init env.threads inbox := hserver
  obtain ⟨target, hserve, htarget, hcases⟩ :=
    hworking.exists_served halive hmain (hinit.symm ▸ hend.run)
  refine ⟨target, hstart.trans hserve, ?_, hcases.imp_left fun hcase => hcase.2.2⟩
  obtain ⟨hmain, -, rfl⟩ | hkilled := hcases
  · rintro ⟨next, hstep⟩
    exact hend.stuck ⟨_, htarget.step_of_serving hmain hstep⟩
  · exact not_enabled_of_terminated hkilled

/-- Undisturbed, a process does exactly the work of its messages and of its own
start, whatever the order in which its threads come up and take turns.  It rests
where all messages are answered, in a deadlock or killed by a fault; and it always
comes to answer all messages exactly if each can be served on its own. -/
theorem process_serves (env : Env) (inherited : SignalMask) (inbox : List Bytes)
    (hdispatch : 1 ≤ env.dispatchHwm) (hresults : 1 ≤ env.resultsHwm) :
    (∀ actions process,
      (undisturbed env).run? (Process.init env.threads inherited inbox) actions = some process →
        actions.length + process.serviceLeft =
            3 * env.threads + 6 + (inbox.map (messageSteps env)).sum ∧
          (¬ (undisturbed env).Enabled process ↔ Rests env inbox process)) ∧
      ((∀ actions process,
        (undisturbed env).Completes (Process.init env.threads inherited inbox) actions process →
          process.main = .serving ∧ process.terminated = false ∧
            Completed env inbox process.server) ↔
        ∀ msg ∈ inbox, servable env msg = true) := by
  refine ⟨fun actions process hrun => ⟨?_, ?_, ?_⟩, ?_, fun hservable actions process hend => ?_⟩
  · rw [← serviceLeft_init env inherited inbox]
    exact length_add_measure Working Process.serviceLeft
      (fun before after hbefore hstep => hbefore.step hstep) (working_init env inherited inbox) hrun
  · exact rests_of_stuck hdispatch hresults (working_of_run? hrun) (inventory_of_run? hrun)
  · exact Rests.stuck (working_of_run? hrun)
  · intro hcompletes msg hmsg
    by_contra hspoiled
    obtain ⟨actions, after, hend, hserver⟩ :=
      exists_spoiled hdispatch hresults hmsg (by simpa using hspoiled)
    obtain ⟨target, hreach, hstuck, hrests⟩ := exists_stuck inherited hend
    obtain ⟨schedule, hrun⟩ := hreach.exists_run?
    obtain ⟨-, halive, hdone⟩ := hcompletes schedule target ⟨hrun, hstuck⟩
    obtain hsame | hkilled := hrests
    · exact hserver (hsame ▸ hdone.awaiting)
    · rw [hkilled] at halive
      cases halive
  · have hrests := rests_of_stuck hdispatch hresults (working_of_run? hend.run)
      (inventory_of_run? hend.run) hend.stuck
    exact hrests.completed_of_servable hdispatch hresults
      (Process.server_reachable (reachable_of_run? hend.run).of_only) hservable

/-- One worker with places for three batches comes up and answers a request of three
batches and a malformed message. -/
theorem process_serves_three :
    ∃ actions process, (undisturbed Env.sample).Completes (Process.init Env.sample.threads
        ⟨false, false⟩
        [(RangePricingRequest.sample ([0, 1, 2].map AlphaBetaPair.sample)).toBytes, [0]])
        actions process ∧
      process.main = .serving ∧ process.server.replies.length = 2 := by
  obtain ⟨actions, process, hend⟩ := exists_complete_run Working Process.serviceLeft
    (fun before after hbefore hstep =>
      ⟨(hbefore.step hstep).1, Nat.lt_of_succ_le (hbefore.step hstep).2.le⟩)
    (working_init Env.sample ⟨false, false⟩
      [(RangePricingRequest.sample ([0, 1, 2].map AlphaBetaPair.sample)).toBytes, [0]])
  obtain ⟨hserving, -, hdone⟩ := (process_serves Env.sample ⟨false, false⟩
    [(RangePricingRequest.sample ([0, 1, 2].map AlphaBetaPair.sample)).toBytes, [0]]
    le_rfl le_rfl).2.mpr (by decide +kernel) actions process hend
  exact ⟨actions, process, hend, hserving, hdone.replies.length_eq.symm⟩

end RangePricer
