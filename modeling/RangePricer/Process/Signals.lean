import RangePricer.Process.Machine

/-!
# Who handles a signal

Every thread runs with the mask it inherited from the main thread when it was
created, and spdlog's flusher is created before the main thread blocks SIGINT
and SIGTERM.  A signal therefore always reaches the monitor exactly if the
process was started with both signals blocked already.
-/

namespace RangePricer

open FlatBuffers Transition Transition.System

variable {env : Env} {process next : Process env.threads} {action : ProcessAction env.threads}

/-! ## Masks and pending signals -/

/-- A worker has the mask it had, or the one just stored for it. -/
theorem mask_of_update {masks : Fin env.threads → Option SignalMask} {i j : Fin env.threads}
    {stored : Option SignalMask} {mask : SignalMask}
    (hmask : Function.update masks i stored j = some mask) :
    masks j = some mask ∨ stored = some mask := by
  by_cases hsame : j = i
  · rw [hsame, Function.update_self] at hmask
    exact .inr hmask
  · rw [Function.update_of_ne hsame] at hmask
    exact .inl hmask

/-- A thread keeps its mask, inherits that of the main thread or blocks both signals. -/
theorem ProcessStep.mask_cases (hstep : ProcessStep env process action next)
    {thread : ThreadId env.threads} {mask : SignalMask} (hmask : next.mask? thread = some mask) :
    process.mask? thread = some mask ∨ mask = process.mainMask ∨ mask = .both := by
  cases hstep with
  | setupLogger | openError | bindFrontend | serve | mainError | joinWorker | deliver | pend =>
      exact .inl hmask
  | flushEvery =>
      cases thread with
      | flusher => exact .inr (.inl (Option.some.inj hmask).symm)
      | _ => exact .inl hmask
  | blockSignals =>
      cases thread with
      | main =>
          rw [← Option.some.inj hmask, SignalMask.block_both]
          exact .inr (.inr rfl)
      | _ => exact .inl hmask
  | openSockets =>
      cases thread with
      | zmq => exact .inr (.inr (Option.some.inj hmask).symm)
      | _ => exact .inl hmask
  | spawnWorker i =>
      cases thread with
      | worker j =>
          rcases mask_of_update hmask with hold | hnew
          · exact .inl hold
          · exact .inr (.inl (Option.some.inj hnew).symm)
      | _ => exact .inl hmask
  | spawnMonitor =>
      cases thread with
      | monitor => exact .inr (.inl (Option.some.inj hmask).symm)
      | _ => exact .inl hmask
  | workerError i =>
      cases thread with
      | worker j =>
          rcases mask_of_update hmask with hold | hnone
          · exact .inl hold
          · cases hnone
      | _ => exact .inl hmask
  | joinMonitor =>
      cases thread with
      | zmq => cases hmask
      | _ => exact .inl hmask
  | spdlogShutdown =>
      cases thread with
      | flusher => cases hmask
      | _ => exact .inl hmask
  | sigwait sig old hmonitor =>
      cases thread with
      | monitor =>
          left
          rw [Process.mask?, hmonitor]
          exact hmask
      | _ => exact .inl hmask
  | shutdown sig old hmonitor =>
      cases thread with
      | monitor => cases hmask
      | _ => exact .inl hmask

/-- A pending signal stays pending until the monitor's `sigwait` takes it. -/
theorem ProcessStep.pending_cases (hstep : ProcessStep env process action next) {sig : Signal}
    (hpending : process.pending sig = true) :
    next.pending sig = true ∨ action = .sigwait sig := by
  cases hstep with
  | pend other =>
      left
      by_cases hsame : sig = other
      · rw [hsame]
        exact Function.update_self ..
      · exact (Function.update_of_ne hsame ..).trans hpending
  | sigwait other =>
      by_cases hsame : sig = other
      · rw [hsame]
        exact .inr rfl
      · exact .inl ((Function.update_of_ne hsame ..).trans hpending)
  | _ => exact .inl hpending

/-- If both signals were blocked at the start every thread blocks them always. -/
theorem mask_of_reachable {inherited : SignalMask} {inbox : List Bytes}
    (hinherited : inherited = .both)
    (hreach : (processSystem env).Reachable (Process.init env.threads inherited inbox) process)
    {thread : ThreadId env.threads} {mask : SignalMask}
    (hmask : process.mask? thread = some mask) : mask = .both := by
  induction hreach generalizing thread mask with
  | refl =>
      cases thread with
      | main => exact (Option.some.inj hmask).symm.trans hinherited
      | _ => cases hmask
  | tail _ hstep ih =>
      obtain ⟨action, hstep⟩ := Process.step_cases hstep
      rcases hstep.mask_cases hmask with hsame | hmain | hboth
      · exact ih hsame
      · exact hmain.trans (@ih .main _ rfl)
      · exact hboth

/-! ## The way to the monitor -/

/-- Every thread blocks both signals, so that they stay pending until the
monitor's `sigwait` takes one and shuts the context down. -/
structure SignalsHandled (env : Env) (process : Process env.threads) : Prop where
  blocked : ∀ thread mask, process.mask? thread = some mask → ∀ sig, mask.blocks sig = true
  survives : ∀ sig thread next, processStep? env process (.signal sig thread) = some next →
    next.terminated = false ∧ next.pending sig = true
  monitorOnly : ∀ action next sig, processStep? env process action = some next →
    process.pending sig = true → next.pending sig = true ∨ action = .sigwait sig
  shutsDown : ∀ sig mask, process.running = true → process.monitor = some (mask, .waiting) →
    process.pending sig = true →
      ∃ taken next, processStep? env process (.sigwait sig) = some taken ∧
        processStep? env taken .shutdown = some next ∧ next.context = .shutDown

/-- A monitor that waits takes a pending signal and shuts the context down. -/
theorem exists_shutdown {sig : Signal} {mask : SignalMask} (hrunning : process.running = true)
    (hmonitor : process.monitor = some (mask, .waiting)) (hpending : process.pending sig = true) :
    ∃ taken next, processStep? env process (.sigwait sig) = some taken ∧
      processStep? env taken .shutdown = some next ∧ next.context = .shutDown := by
  have htaken : runningStep? env process (.sigwait sig) = some { process with
      pending := Function.update process.pending sig false
      monitor := some (mask, .notified sig) } := by
    simp only [runningStep?, hmonitor, hpending, if_true]
  exact ⟨_, _, processStep?_eq_some.mpr ⟨hrunning, htaken⟩,
    processStep?_eq_some.mpr ⟨hrunning, rfl⟩, rfl⟩

/-- The flusher runs with the inherited mask: a signal it does not block kills
the process after `run_server` has been entered. -/
theorem exists_killed (env : Env) {inherited : SignalMask} (inbox : List Bytes) {sig : Signal}
    (hunblocked : inherited.blocks sig = false) :
    ∃ process next : Process env.threads,
      (processSystem env).Reachable (Process.init env.threads inherited inbox) process ∧
        process.main.entered = true ∧
          processStep? env process (.signal sig (some .flusher)) = some next ∧
            next.terminated = true := by
  have hrun : (processSystem env).run? (Process.init env.threads inherited inbox)
      [.setupLogger, .flushEvery, .blockSignals] = some _ := rfl
  have hkill : (!inherited.blocks sig) = true := by rw [hunblocked]; rfl
  exact ⟨_, _, reachable_of_run? hrun, rfl, processStep?_eq_some.mpr ⟨rfl, if_pos hkill⟩, rfl⟩

/-- Signals always reach the monitor exactly if both were blocked before `main`. -/
theorem signals_handled_iff (env : Env) (inherited : SignalMask) (inbox : List Bytes) :
    (∀ process, (processSystem env).Reachable (Process.init env.threads inherited inbox) process →
      process.main.entered = true → SignalsHandled env process) ↔
        ∀ sig, inherited.blocks sig = true := by
  constructor
  · intro hhandled sig
    by_contra hunblocked
    obtain ⟨process, next, hreach, hentered, hstep, hkilled⟩ :=
      exists_killed env inbox (Bool.not_eq_true _ ▸ hunblocked)
    have hsurvives := (hhandled process hreach hentered).survives sig _ next hstep
    rw [hkilled] at hsurvives
    cases hsurvives.1
  · intro hblocks process hreach _
    have hinherited : inherited = .both :=
      congrArg₂ SignalMask.mk (hblocks .sigint) (hblocks .sigterm)
    have hblocked (thread : ThreadId env.threads) (mask : SignalMask)
        (hmask : process.mask? thread = some mask) (sig : Signal) : mask.blocks sig = true := by
      rw [mask_of_reachable hinherited hreach hmask]
      cases sig <;> rfl
    refine ⟨hblocked, fun sig thread next hstep => ?_,
      fun action next sig hstep hpending => (processStep?_sound hstep).pending_cases hpending,
      fun sig mask hrunning hmonitor hpending => exists_shutdown hrunning hmonitor hpending⟩
    have hrunning := (processStep?_eq_some.mp hstep).1
    rw [Process.running, Bool.and_eq_true, Bool.not_eq_true'] at hrunning
    cases processStep?_sound hstep with
    | deliver _ thread mask hmask hunblocked =>
        rw [hblocked thread mask hmask sig] at hunblocked
        cases hunblocked
    | pend => exact ⟨hrunning.1, Function.update_self ..⟩

/-- A server started with no signal blocked can be killed by one. -/
theorem not_signals_handled :
    ¬ ∀ (env : Env) (inherited : SignalMask) (inbox : List Bytes) (process : Process env.threads),
      (processSystem env).Reachable (Process.init env.threads inherited inbox) process →
        process.main.entered = true → SignalsHandled env process := by
  intro hhandled
  obtain ⟨process, next, hreach, hentered, hstep, hkilled⟩ :=
    @exists_killed Env.sample ⟨false, false⟩ [] .sigterm rfl
  have hsurvives := (hhandled _ _ _ process hreach hentered).survives .sigterm _ next hstep
  rw [hkilled] at hsurvives
  cases hsurvives.1

end RangePricer
