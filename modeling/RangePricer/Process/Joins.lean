import RangePricer.Process.Machine

/-!
# Waiting for threads that end

`run_server` leaves its serving loop through one handler for all ZeroMQ errors
and then joins its workers and the monitor.  These end only when the context is
shut down, which the monitor alone does: an error other than ETERM on a live
context leaves the server waiting for threads that wait for the server.
-/

namespace RangePricer

open FlatBuffers Transition Transition.System

variable {env : Env} {process next : Process env.threads} {action : ProcessAction env.threads}

/-- The server joins its threads only when they have been told to end. -/
structure JoinsEnd (process : Process env.threads) : Prop where
  shutDown : process.main.inJoin = true → process.context = .shutDown
  /-- It never waits, unasked, for workers in `pull.recv` and a monitor in `sigwait`. -/
  notStranded : ¬ (process.main.inJoin = true ∧ process.context = .live ∧
    (∀ sig, process.pending sig = false) ∧ process.monitorWaits = true ∧
      ∀ i, (process.workerMasks i).isSome = true → (process.server.workers i).phase = .receiving)

theorem JoinsEnd.of_shutDown (hshut : process.main.inJoin = true → process.context = .shutDown) :
    JoinsEnd process := by
  refine ⟨hshut, ?_⟩
  rintro ⟨hjoin, hlive, -⟩
  rw [hshut hjoin] at hlive
  cases hlive

/-- The `try` block is left by an error other than ETERM. -/
def ProcessAction.raisesOther {threads : Nat} : ProcessAction threads → Bool
  | .mainError (.other _) => true
  | _ => false

/-- No error other than ETERM is raised in the `try` block on a live context. -/
def RaisesOnlyEterm (process : Process env.threads) (action : ProcessAction env.threads) : Prop :=
  action.raisesOther = true → process.context = .shutDown

/-- The loop is left for the joins on a context that has been shut down. -/
theorem ProcessStep.joins_shutDown (hstep : ProcessStep env process action next)
    (hraises : RaisesOnlyEterm process action)
    (hprocess : process.main.inJoin = true → process.context = .shutDown)
    (hjoin : next.main.inJoin = true) : next.context = .shutDown := by
  cases hstep with
  | setupLogger | flushEvery | blockSignals | openSockets | spawnWorker | spawnMonitor
  | bindFrontend | joinMonitor | spdlogShutdown => cases hjoin
  | openError | serve | workerError | deliver | pend | sigwait => exact hprocess hjoin
  | joinWorker i hmain =>
      exact hprocess (by rw [hmain]; rfl)
  | shutdown => rfl
  | mainError error htry hraise =>
      cases error with
      | eterm => exact of_decide_eq_true hraise rfl
      | other num => exact hraises rfl

/-- In every run the server joins only threads that have been told to end,
exactly if no step raises another error than ETERM on a live context. -/
theorem joins_end_iff (env : Env) (inherited : SignalMask) (inbox : List Bytes)
    (actions : List (ProcessAction env.threads)) (last : Process env.threads)
    (hrun : (processSystem env).run? (Process.init env.threads inherited inbox) actions =
      some last) :
    (processSystem env).Visits JoinsEnd (Process.init env.threads inherited inbox) actions ↔
      (processSystem env).Takes RaisesOnlyEterm (Process.init env.threads inherited inbox)
        actions := by
  refine @visits_iff_takes _ _ _
    (fun process => process.main.inJoin = true → process.context = .shutDown) _ _
    (fun process hprocess => .of_shutDown hprocess)
    (fun before action after hbefore hstep hraises =>
      (processStep?_sound hstep).joins_shutDown hraises hbefore)
    (fun before action after _ hstep hraises hends => ?_) _ last _ (fun hjoin => ?_) hrun
  · obtain ⟨hother, hlive⟩ := Classical.not_imp.mp hraises
    cases @processStep?_sound env before after action hstep with
    | mainError => exact hlive (hends.shutDown rfl)
    | _ => cases hother
  · cases hjoin

/-- From the start of `main` to the serving loop, for one worker. -/
def sampleStart : List (ProcessAction 1) :=
  [.setupLogger, .flushEvery, .blockSignals, .openSockets, .spawnWorker (Fin.last 0),
    .serve (.connectPull (Fin.last 0)), .serve (.connectPush (Fin.last 0)), .spawnMonitor]

/-- A clean shutdown: SIGTERM reaches the monitor, everything else follows. -/
def sampleShutdown : List (ProcessAction 1) :=
  sampleStart ++ [.bindFrontend, .signal .sigterm none, .sigwait .sigterm, .shutdown,
    .mainError .eterm, .workerError (Fin.last 0) .eterm, .joinWorker (Fin.last 0), .joinMonitor,
    .spdlogShutdown]

theorem joins_end_sample :
    ∃ last, (processSystem Env.sample).run? (Process.init 1 ⟨false, false⟩ []) sampleShutdown =
        some last ∧ last.main = .exited ∧
      (processSystem Env.sample).Visits JoinsEnd (Process.init 1 ⟨false, false⟩ [])
        sampleShutdown := by
  have hsome : ((processSystem Env.sample).run? (Process.init 1 ⟨false, false⟩ [])
      sampleShutdown).map Process.main = some .exited := by
    decide
  obtain ⟨last, hrun, hexited⟩ := Option.map_eq_some_iff.mp hsome
  refine ⟨last, hrun, hexited,
    (joins_end_iff Env.sample ⟨false, false⟩ [] sampleShutdown last hrun).mpr ?_⟩
  have hclean : ∀ action ∈ sampleShutdown, action.raisesOther = false := by decide
  apply takes_of_forall
  intro action haction process hother
  cases (hclean action haction).symm.trans hother

/-- EADDRINUSE. -/
def sampleBindError : ZmqError := .other 98

/-- The endpoint is taken: the server joins a worker that nobody tells to end. -/
theorem not_joins_end :
    ¬ ∀ (env : Env) (inherited : SignalMask) (inbox : List Bytes) (process : Process env.threads),
      (processSystem env).Reachable (Process.init env.threads inherited inbox) process →
        JoinsEnd process := by
  intro hends
  have hsome : ((processSystem Env.sample).run? (Process.init 1 ⟨false, false⟩ [])
      (sampleStart ++ [.mainError sampleBindError])).map
        (fun process => (process.main.inJoin, process.context)) = some (true, .live) := by
    decide
  obtain ⟨process, hrun, hstate⟩ := Option.map_eq_some_iff.mp hsome
  obtain ⟨hjoin, hlive⟩ := Prod.mk.inj hstate
  have hshut := (hends Env.sample ⟨false, false⟩ [] process (reachable_of_run? hrun)).shutDown hjoin
  rw [hlive] at hshut
  cases hshut

end RangePricer
