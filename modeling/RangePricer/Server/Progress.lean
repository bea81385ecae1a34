import RangePricer.Server.Inventory

/-!
# Progress while a request is served

The server sends all batches of a request before it receives a result, so the
pipes and the workers must hold every batch but the one it is sending.  They
hold at most `capacity env`; a request with more batches can be driven into a
state where the server and every worker wait for each other, and a request with
fewer cannot.  Every other step lowers `State.work`, so a request within the
capacity is always answered.
-/

namespace RangePricer

open FlatBuffers Transition

variable {env : Env} {messages : List Bytes}

/-- The batches that fit in the pipes and the workers' hands. -/
def capacity (env : Env) : Nat :=
  env.threads * (env.dispatchHwm + env.resultsHwm + 1)

/-- A request is being served. -/
def ServerPhase.serving : ServerPhase → Bool
  | .dispatching .. | .collecting .. | .replying .. => true
  | .awaiting | .crashed _ => false

/-- The batches of the request being served, as far as the server still needs them. -/
def ServerPhase.batchCount : ServerPhase → Nat
  | .dispatching _ batches _ | .collecting _ batches _ _ => batches.length
  | .replying _ | .awaiting | .crashed _ => 0

/-- The server waits in `dispatch.send` with every dispatch pipe full, and every
worker waits in `push.send` with its results pipe full. -/
structure Deadlocked (env : Env) (state : State env.threads) : Prop where
  sending : ∃ rr batches sent, state.server = .dispatching rr batches sent ∧
    sent < batches.length
  dispatchFull : ∀ i, env.dispatchHwm ≤ (state.workers i).dispatchPipe.length
  pushing : ∀ i, ∃ msg, (state.workers i).phase = .pushing msg
  resultsFull : ∀ i, env.resultsHwm ≤ (state.workers i).resultsPipe.length

/-! ## Pipes never hold more than their capacity -/

structure Worker.Fits (env : Env) (worker : Worker) : Prop where
  dispatchPipe : worker.dispatchPipe.length ≤ env.dispatchHwm
  resultsPipe : worker.resultsPipe.length ≤ env.resultsHwm

theorem WorkerStep.fits {worker next : Worker} (hstep : WorkerStep env worker next)
    (hfits : worker.Fits env) : next.Fits env := by
  cases hstep with
  | connectPull hphase => exact ⟨hfits.dispatchPipe, hfits.resultsPipe⟩
  | connectPush hphase => exact ⟨hfits.dispatchPipe, hfits.resultsPipe⟩
  | pullRecv batch rest hphase hpipe =>
      have hlength := hfits.dispatchPipe
      rw [hpipe, List.length_cons] at hlength
      exact ⟨Nat.le_of_succ_le hlength, hfits.resultsPipe⟩
  | priceBatch batch hphase => exact ⟨hfits.dispatchPipe, hfits.resultsPipe⟩
  | pushSend msg hphase hroom =>
      refine ⟨hfits.dispatchPipe, ?_⟩
      rw [List.length_append, List.length_singleton]
      exact hroom

theorem forall_update {n : Nat} {Good : Worker → Prop} {workers : Fin n → Worker} {i : Fin n}
    {worker : Worker} (hworkers : ∀ j, Good (workers j)) (hworker : Good worker) (j : Fin n) :
    Good (Function.update workers i worker j) := by
  by_cases hj : j = i
  · subst hj
    rwa [Function.update_self]
  · rw [Function.update_of_ne hj]
    exact hworkers j

theorem Worker.Fits.step {state next : State env.threads}
    (hfits : ∀ i, (state.workers i).Fits env) (hstep : (server env).Step state next) :
    ∀ i, (next.workers i).Fits env := by
  obtain hserver | ⟨i, worker, hworker, rfl⟩ := step_cases hstep
  · cases hserver with
    | frontendRecv | endDispatch | endCollect | frontendSend => exact hfits
    | dispatchSend i rr batches sent batch hserver hbatch hroom =>
        refine forall_update hfits ⟨?_, (hfits i).resultsPipe⟩
        simp only [Worker.canAccept, Bool.and_eq_true, decide_eq_true_eq] at hroom
        rw [List.length_append, List.length_singleton]
        exact hroom.2
    | resultsRecv i rr batches received allResults msg rest hserver hpipe hmore =>
        refine forall_update hfits ⟨(hfits i).dispatchPipe, ?_⟩
        have hlength := (hfits i).resultsPipe
        rw [hpipe, List.length_cons] at hlength
        exact Nat.le_of_succ_le hlength
  · exact forall_update hfits (hworker.fits (hfits i))

theorem fits_of_reachable {state : State env.threads}
    (hreach : (server env).Reachable (State.init env.threads messages) state) :
    ∀ i, (state.workers i).Fits env :=
  hreach.invariant (fun _ _ hfits hstep => Worker.Fits.step hfits hstep)
    fun _ => ⟨Nat.zero_le _, Nat.zero_le _⟩

/-! ## Counting what is under way -/

/-- The number of batches in a worker's hands. -/
def Worker.heldCount (worker : Worker) : Nat :=
  if worker.idle then 0 else 1

theorem Worker.card_inFlight (worker : Worker) :
    (worker.inFlight env).card =
      worker.dispatchPipe.length + worker.heldCount + worker.resultsPipe.length := by
  have hheld : (worker.phase.held env).card = worker.heldCount := by
    cases hphase : worker.phase <;>
      simp [WorkerPhase.held, Worker.heldCount, Worker.idle, hphase]
  simp only [Worker.inFlight, Multiset.card_add, Multiset.coe_card, List.length_map, hheld]

theorem card_inFlight (workers : Fin env.threads → Worker) :
    (inFlight env workers).card =
      poolSum (fun worker => worker.dispatchPipe.length) workers +
        poolSum Worker.heldCount workers +
          poolSum (fun worker => worker.resultsPipe.length) workers := by
  simp only [inFlight, poolSum, Multiset.card_sum, Worker.card_inFlight, Finset.sum_add_distrib]

theorem card_inFlight_le {workers : Fin env.threads → Worker}
    (hfits : ∀ i, (workers i).Fits env) : (inFlight env workers).card ≤ capacity env := by
  have hworker (i : Fin env.threads) :
      ((workers i).inFlight env).card ≤ env.dispatchHwm + env.resultsHwm + 1 := by
    have hheld : (workers i).heldCount ≤ 1 := by
      unfold Worker.heldCount
      split <;> omega
    have hdispatch := (hfits i).dispatchPipe
    have hresults := (hfits i).resultsPipe
    rw [Worker.card_inFlight]
    omega
  have hsum := poolSum_le hworker
  rwa [poolSum, ← Multiset.card_sum] at hsum

/-- In a deadlock every place is taken. -/
theorem Deadlocked.capacity_le {state : State env.threads} (hdead : Deadlocked env state) :
    capacity env ≤ (inFlight env state.workers).card := by
  have hworker (i : Fin env.threads) :
      env.dispatchHwm + env.resultsHwm + 1 ≤ ((state.workers i).inFlight env).card := by
    obtain ⟨msg, hphase⟩ := hdead.pushing i
    have hheld : (state.workers i).heldCount = 1 := by
      simp [Worker.heldCount, Worker.idle, hphase]
    have hdispatch := hdead.dispatchFull i
    have hresults := hdead.resultsFull i
    rw [Worker.card_inFlight, hheld]
    omega
  have hsum := Finset.card_nsmul_le_sum Finset.univ
    (fun i => ((state.workers i).inFlight env).card) _ fun i _ => hworker i
  rw [inFlight, poolSum, Multiset.card_sum]
  simpa [capacity] using hsum

theorem Inventory.sent_eq {state : State env.threads} {rr : RangePricingRequest}
    {batches : List BatchPricingRequest} {sent : Nat} (hinv : Inventory env messages state)
    (hserver : state.server = .dispatching rr batches sent) :
    (inFlight env state.workers).card = sent ∧ sent ≤ batches.length := by
  obtain ⟨current, haccounts⟩ := hinv.accounts hserver
  generalize inFlight env state.workers = flight at haccounts
  cases haccounts with
  | dispatching msg _ _ hmsg hexpand hsent =>
      refine ⟨?_, hsent⟩
      simpa using hsent

theorem Inventory.received_eq {state : State env.threads} {rr : RangePricingRequest}
    {batches : List BatchPricingRequest} {received : Nat} {allResults : List PricingResponse}
    (hinv : Inventory env messages state)
    (hserver : state.server = .collecting rr batches received allResults) :
    (inFlight env state.workers).card + received = batches.length := by
  obtain ⟨current, haccounts⟩ := hinv.accounts hserver
  generalize inFlight env state.workers = flight at haccounts
  cases haccounts with
  | collecting msg _ done _ hmsg hexpand htotal =>
      have hcards := congrArg Multiset.card htotal
      simpa using hcards

/-- A deadlock needs more batches than the capacity. -/
theorem Deadlocked.capacity_lt {state : State env.threads} (hdead : Deadlocked env state)
    (hinv : Inventory env messages state) : capacity env < state.server.batchCount := by
  obtain ⟨rr, batches, sent, hserver, hmore⟩ := hdead.sending
  have hcard := (hinv.sent_eq hserver).1
  have hfull := hdead.capacity_le
  rw [hserver, ServerPhase.batchCount]
  omega

/-! ## Some thread can move, or all are blocked -/

/-- A worker that cannot move waits for a batch or for room in its results pipe. -/
theorem Worker.blocked_cases {worker : Worker} (hblocked : ∀ next, ¬ WorkerStep env worker next) :
    (worker.phase = .receiving ∧ worker.dispatchPipe = []) ∨
      ∃ msg, worker.phase = .pushing msg ∧ env.resultsHwm ≤ worker.resultsPipe.length := by
  cases hphase : worker.phase with
  | starting => exact absurd (.connectPull hphase) (hblocked _)
  | pullConnected => exact absurd (.connectPush hphase) (hblocked _)
  | receiving =>
      cases hpipe : worker.dispatchPipe with
      | nil => exact .inl ⟨rfl, rfl⟩
      | cons batch rest => exact absurd (.pullRecv batch rest hphase hpipe) (hblocked _)
  | pricing batch => exact absurd (.priceBatch batch hphase) (hblocked _)
  | pushing msg =>
      refine .inr ⟨msg, rfl, Nat.le_of_not_lt fun hroom => ?_⟩
      exact hblocked _ (.pushSend msg hphase hroom)

/-- While a request is served, the only state without a step is the deadlock. -/
theorem enabled_or_deadlocked {state : State env.threads} (hdispatch : 1 ≤ env.dispatchHwm)
    (hresults : 1 ≤ env.resultsHwm) (hinv : Inventory env messages state)
    (hserving : state.server.serving = true) :
    (server env).Enabled state ∨ Deadlocked env state := by
  by_cases henabled : (server env).Enabled state
  · exact .inl henabled
  apply Or.inr
  have hstuck {next : State env.threads} : ¬ (server env).Step state next :=
    fun hstep => henabled ⟨next, hstep⟩
  have hblocked (i : Fin env.threads) := Worker.blocked_cases fun next
    (hstep : WorkerStep env (state.workers i) next) => hstuck hstep.step
  cases hserver : state.server with
  | awaiting => simp [hserver, ServerPhase.serving] at hserving
  | crashed fault => simp [hserver, ServerPhase.serving] at hserving
  | replying reply => exact absurd (ServerStep.frontendSend reply hserver).step hstuck
  | dispatching rr batches sent =>
      obtain ⟨_, hle⟩ := hinv.sent_eq hserver
      have hmore : sent < batches.length := by
        apply lt_of_le_of_ne hle
        intro hdone
        subst hdone
        exact hstuck (ServerStep.endDispatch rr batches hserver).step
      have hfull (i : Fin env.threads) : (state.workers i).canAccept env = false := by
        apply Bool.eq_false_iff.mpr
        intro hroom
        exact hstuck (ServerStep.dispatchSend i rr batches sent _ hserver
          (List.getElem?_eq_getElem hmore) hroom).step
      -- A worker that waits for a batch has room, so every worker waits in `push.send`.
      have hpushing (i : Fin env.threads) : ∃ msg, (state.workers i).phase = .pushing msg ∧
          env.resultsHwm ≤ (state.workers i).resultsPipe.length := by
        obtain ⟨hphase, hpipe⟩ | hpush := hblocked i
        · have hroom := hfull i
          simp [Worker.canAccept, hphase, hpipe] at hroom
          omega
        · exact hpush
      refine ⟨⟨rr, batches, sent, hserver, hmore⟩, fun i => ?_, fun i => ?_, fun i => ?_⟩
      · obtain ⟨msg, hphase, _⟩ := hpushing i
        have hroom := hfull i
        simp [Worker.canAccept, hphase] at hroom
        exact hroom
      · exact (hpushing i).imp fun _ h => h.1
      · exact (hpushing i).elim fun _ h => h.2
  | collecting rr batches received allResults =>
      have htotal := hinv.received_eq hserver
      have hmore : received < batches.length := by
        apply lt_of_le_of_ne (by omega)
        intro hdone
        subst hdone
        exact hstuck (ServerStep.endCollect rr batches allResults hserver).step
      have hquiet (i : Fin env.threads) : (state.workers i).Quiet := by
        have hempty : (state.workers i).resultsPipe = [] := by
          cases hpipe : (state.workers i).resultsPipe with
          | nil => rfl
          | cons msg rest =>
              exact absurd (ServerStep.resultsRecv i rr batches received allResults msg rest
                hserver hpipe hmore).step hstuck
        obtain ⟨hphase, hpipe⟩ | ⟨msg, _, hfull⟩ := hblocked i
        · exact ⟨by simp [Worker.idle, hphase], hpipe, hempty⟩
        · rw [hempty, List.length_nil] at hfull
          omega
      rw [inFlight_eq_zero_iff.mpr hquiet, Multiset.card_zero] at htotal
      omega

/-! ## Every step brings the reply closer -/

def ServerPhase.work : ServerPhase → Nat
  | .awaiting | .crashed _ => 0
  | .dispatching _ batches sent => 5 * (batches.length - sent) + 3
  | .collecting .. => 2
  | .replying _ => 1

def WorkerPhase.work : WorkerPhase → Nat
  | .starting => 2
  | .pullConnected => 1
  | .receiving => 0
  | .pricing _ => 3
  | .pushing _ => 2

/-- Each batch counts the stages it still has to pass. -/
def Worker.work (worker : Worker) : Nat :=
  4 * worker.dispatchPipe.length + worker.phase.work + worker.resultsPipe.length

def State.work {threads : Nat} (state : State threads) : Nat :=
  state.server.work + poolSum Worker.work state.workers

theorem WorkerStep.work_lt {worker next : Worker} (hstep : WorkerStep env worker next) :
    next.work < worker.work := by
  cases hstep with
  | connectPull hphase => simp [Worker.work, hphase, WorkerPhase.work]
  | connectPush hphase => simp [Worker.work, hphase, WorkerPhase.work]
  | pullRecv batch rest hphase hpipe =>
      simp only [Worker.work, hphase, hpipe, WorkerPhase.work, List.length_cons]
      omega
  | priceBatch batch hphase => simp [Worker.work, hphase, WorkerPhase.work]
  | pushSend msg hphase hroom =>
      simp only [Worker.work, hphase, WorkerPhase.work, List.length_append,
        List.length_singleton]
      omega

theorem ServerStep.work_lt {state next : State env.threads} (hstep : ServerStep env state next)
    (hserving : state.server.serving = true) : next.work < state.work := by
  cases hstep with
  | frontendRecv msg rest hserver hinbox =>
      simp [hserver, ServerPhase.serving] at hserving
  | dispatchSend i rr batches sent batch hserver hbatch hroom =>
      obtain ⟨hlt, _⟩ := List.getElem?_eq_some_iff.mp hbatch
      have hpool := poolSum_update_add Worker.work state.workers i
        { state.workers i with dispatchPipe := (state.workers i).dispatchPipe ++ [batch] }
      simp only [Worker.work, List.length_append, List.length_singleton] at hpool
      simp only [State.work, State.setWorker_workers, hserver, ServerPhase.work]
      omega
  | endDispatch rr batches hserver =>
      simp [State.work, hserver, ServerPhase.work]
  | resultsRecv i rr batches received allResults msg rest hserver hpipe hmore =>
      have hpool := poolSum_update_add Worker.work state.workers i
        { state.workers i with resultsPipe := rest }
      simp only [Worker.work, hpipe, List.length_cons] at hpool
      simp only [State.work, State.setWorker_workers, hserver, ServerPhase.work]
      omega
  | endCollect rr batches allResults hserver =>
      simp [State.work, hserver, ServerPhase.work]
  | frontendSend reply hserver =>
      simp [State.work, hserver, ServerPhase.work]

theorem work_lt {state next : State env.threads} (hserving : state.server.serving = true)
    (hstep : (server env).Step state next) : next.work < state.work := by
  obtain hserver | ⟨i, worker, hworker, rfl⟩ := step_cases hstep
  · exact hserver.work_lt hserving
  · have hpool := poolSum_update_add Worker.work state.workers i worker
    have hlower := hworker.work_lt
    simp only [State.work, State.setWorker_server, State.setWorker_workers]
    omega

end RangePricer
