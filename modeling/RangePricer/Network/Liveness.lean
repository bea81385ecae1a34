import RangePricer.Network.Delivery

/-!
# Every client is served

The clients' own steps use up units of work like the server's, so a network of
clients comes to an end too.  It ends with a reply at every client under every
schedule exactly if the server can serve each request on its own: a request it
cannot serve blocks it for all clients whose requests it has not answered by then.
-/

namespace RangePricer

open FlatBuffers Transition Transition.System

variable {env : Env} {clients : Nat} {requests : Fin clients → Bytes}

/-! ## One step, one unit of work -/

/-- What a client has still to see done, apart from what is already in the server. -/
def ClientPhase.remaining (env : Env) (request : Bytes) : ClientPhase → Nat
  | .ready => messageSteps env request + 3
  | .sent => messageSteps env request + 2
  | .waiting | .replied _ => 1
  | .done _ => 0

/-- The same for all clients. -/
def clientsRemaining (env : Env) (requests : Fin clients → Bytes)
    (phases : Fin clients → ClientPhase) : Nat :=
  ∑ i, (phases i).remaining env (requests i)

def NetworkState.remaining (env : Env) (requests : Fin clients → Bytes)
    (state : NetworkState env.threads clients) : Nat :=
  state.server.remaining env + clientsRemaining env requests state.phases

/-- A client that moves on takes its part off the total. -/
theorem clientsRemaining_update {phases : Fin clients → ClientPhase} {i : Fin clients}
    {phase : ClientPhase} {units : Nat}
    (hunits : (phases i).remaining env (requests i) =
      phase.remaining env (requests i) + units) :
    clientsRemaining env requests (Function.update phases i phase) + units =
      clientsRemaining env requests phases := by
  have hsum := sum_update_add (fun j phase => ClientPhase.remaining env (requests j) phase)
    phases i phase
  simp only [hunits] at hsum
  simp only [clientsRemaining]
  omega

theorem NetworkStep.remaining_eq {state next : NetworkState env.threads clients}
    (hstep : NetworkStep env requests state next) {answered : List (Fin clients)}
    (hroute : Route env requests state answered) :
    next.remaining env requests + 1 = state.remaining env requests := by
  cases hstep with
  | clientSend i hphase =>
      have hunit : clientsRemaining env requests (Function.update state.phases i .sent) + 1 = _ :=
        clientsRemaining_update (by rw [hphase]; rfl)
      rw [NetworkState.remaining, NetworkState.remaining, ← hunit]
      rfl
  | arrive i hphase =>
      have hunit : clientsRemaining env requests (Function.update state.phases i .waiting) +
          (messageSteps env (requests i) + 1) = _ :=
        clientsRemaining_update (by rw [hphase]; exact Nat.add_comm _ 1)
      have hserver : (state.enqueue i (requests i)).server.remaining env =
          state.server.remaining env + messageSteps env (requests i) := by
        simp [NetworkState.enqueue, State.remaining, State.work, Nat.add_assoc]
      have hphases : (state.enqueue i (requests i)).phases =
          Function.update state.phases i .waiting := rfl
      rw [NetworkState.remaining, NetworkState.remaining, hserver, hphases, ← hunit]
      omega
  | frontendRecv msg rest hserver hinbox =>
      have hunit := (ServerStep.frontendRecv msg rest hserver hinbox).remaining_eq
      rw [NetworkState.remaining, NetworkState.remaining, ← hunit]
      exact Nat.add_right_comm _ _ 1
  | internal next hinternal =>
      have hunit := RangePricer.remaining_eq hinternal.step
      rw [NetworkState.remaining, NetworkState.remaining, ← hunit]
      exact Nat.add_right_comm _ _ 1
  | frontendSend reply hserver =>
      have hunit := (ServerStep.frontendSend reply hserver).remaining_eq
      have hphases : clientsRemaining env requests (state.advance
          { state.server with server := .awaiting, replies := state.server.replies ++ [reply] }
          .frontendSend).phases = clientsRemaining env requests state.phases := by
        obtain ⟨i, hcurrent, hwaiting⟩ :=
          hroute.exists_current (by rw [hserver]; exact ServerPhase.noConfusion)
        have hunit : clientsRemaining env requests
            (Function.update state.phases i (.replied reply)) + 0 = _ :=
          clientsRemaining_update (by rw [hwaiting]; rfl)
        simpa [NetworkState.advance, hcurrent] using hunit
      rw [NetworkState.remaining, NetworkState.remaining, ← hunit, hphases,
        NetworkState.advance_server]
      exact Nat.add_right_comm _ _ 1
  | clientRecv i reply hphase =>
      have hunit : clientsRemaining env requests
          (Function.update state.phases i (.done reply)) + 1 = _ :=
        clientsRemaining_update (by rw [hphase]; rfl)
      rw [NetworkState.remaining, NetworkState.remaining, ← hunit]
      rfl

theorem network_remaining_eq (before after : NetworkState env.threads clients)
    (hroute : ∃ answered, Route env requests before answered)
    (hstep : (network env requests).Step before after) :
    (∃ answered, Route env requests after answered) ∧
      after.remaining env requests + 1 = before.remaining env requests := by
  obtain ⟨answered, hroute⟩ := hroute
  exact ⟨(networkStep_cases hstep).exists_route hroute,
    (networkStep_cases hstep).remaining_eq hroute⟩

theorem network_remaining_lt (before after : NetworkState env.threads clients)
    (hroute : ∃ answered, Route env requests before answered)
    (hstep : (network env requests).Step before after) :
    (∃ answered, Route env requests after answered) ∧
      after.remaining env requests < before.remaining env requests := by
  obtain ⟨hnext, hunit⟩ := network_remaining_eq before after hroute hstep
  exact ⟨hnext, (Nat.lt_succ_self _).trans_eq hunit⟩

theorem network_remaining_init (env : Env) (requests : Fin clients → Bytes) :
    (NetworkState.init env.threads clients).remaining env requests =
      2 * env.threads + ∑ i, (messageSteps env (requests i) + 3) := by
  rw [NetworkState.remaining]
  exact congrArg (· + _) (remaining_init env [])

/-! ## Where the network comes to rest -/

/-- Some schedule of the clients and the server is over. -/
theorem exists_network_completes (env : Env) (requests : Fin clients → Bytes) :
    ∃ actions state,
      (network env requests).Completes (NetworkState.init env.threads clients) actions state :=
  exists_complete_run (fun state => ∃ answered, Route env requests state answered)
    (NetworkState.remaining env requests) network_remaining_lt ⟨[], route_init env requests⟩

/-- A client without a step waits for its reply or has it. -/
theorem phase_of_stuck {state : NetworkState env.threads clients}
    (hstuck : ¬ (network env requests).Enabled state) (i : Fin clients) :
    state.phases i = .waiting ∨ ∃ reply, state.phases i = .done reply := by
  cases hphase : state.phases i with
  | ready => exact absurd (step_of_ready hphase) hstuck
  | sent => exact absurd (step_of_sent hphase) hstuck
  | waiting => exact .inl rfl
  | replied reply => exact absurd (step_of_replied hphase) hstuck
  | done reply => exact .inr ⟨reply, rfl⟩

/-- Every client has its reply where no party can move, if each request can be served. -/
theorem done_of_stuck {state : NetworkState env.threads clients} {answered : List (Fin clients)}
    (hdispatch : 1 ≤ env.dispatchHwm) (hresults : 1 ≤ env.resultsHwm)
    (hservable : ∀ i, servable env (requests i) = true)
    (hroute : Route env requests state answered)
    (hstuck : ¬ (network env requests).Enabled state) :
    Completed env ((answered ++ state.pending).map requests) state.server ∧
      ∀ i, ∃ reply, state.phases i = .done reply := by
  have hserver : Completed env ((answered ++ state.pending).map requests) state.server := by
    refine completed_of_servable hroute.reachable (mt step_of_server hstuck) hdispatch hresults ?_
    intro msg hmsg
    obtain ⟨i, -, rfl⟩ := List.mem_map.mp hmsg
    exact hservable i
  have hpeers : state.peers = [] := by
    have hinbox := hroute.inbox
    rw [hserver.inbox] at hinbox
    exact List.map_eq_nil_iff.mp hinbox.symm
  have hnobody : state.pending = [] := by
    rw [NetworkState.pending, hroute.current.mpr hserver.awaiting, hpeers]
    rfl
  refine ⟨hserver, fun i => (phase_of_stuck hstuck i).resolve_left fun hwaiting => ?_⟩
  have hmem := (hroute.waiting i).mp hwaiting
  rw [hnobody] at hmem
  cases hmem

/-! ## A request that cannot be served -/

/-- The server does not move again, and `client` waits for it. -/
structure Blocked (env : Env) (state : NetworkState env.threads clients) (client : Fin clients) :
    Prop where
  stuck : ¬ (server env).Enabled state.server
  busy : state.server.server ≠ .awaiting
  waiting : state.phases client = .waiting

/-- A server that is stuck while it is busy stays so when messages arrive. -/
theorem extend_stuck {state : State env.threads} (later : List Bytes)
    (hbusy : state.server ≠ .awaiting) (hstuck : ¬ (server env).Enabled state) :
    ¬ (server env).Enabled (state.extend later) := by
  rintro ⟨next, hstep⟩
  apply hstuck
  obtain hserver | ⟨i, worker, hworker, -⟩ := step_cases hstep
  · cases hserver with
    | frontendRecv msg rest hserver hinbox => exact absurd hserver hbusy
    | dispatchSend i rr batches sent batch hserver hbatch hroom =>
        have hshorter : ServerStep env state _ :=
          .dispatchSend i rr batches sent batch hserver hbatch hroom
        exact ⟨_, hshorter.step⟩
    | endDispatch rr batches hserver =>
        have hshorter : ServerStep env state _ := .endDispatch rr batches hserver
        exact ⟨_, hshorter.step⟩
    | resultsRecv i rr batches received allResults msg rest hserver hpipe hmore =>
        have hshorter : ServerStep env state _ :=
          .resultsRecv i rr batches received allResults msg rest hserver hpipe hmore
        exact ⟨_, hshorter.step⟩
    | endCollect rr batches allResults hserver =>
        have hshorter : ServerStep env state _ := .endCollect rr batches allResults hserver
        exact ⟨_, hshorter.step⟩
    | frontendSend reply hserver =>
        have hshorter : ServerStep env state _ := .frontendSend reply hserver
        exact ⟨_, hshorter.step⟩
  · have hshorter : WorkerStep env (state.workers i) worker := hworker
    exact ⟨_, hshorter.step⟩

theorem Blocked.step {state next : NetworkState env.threads clients} {client : Fin clients}
    (hblocked : Blocked env state client) (hstep : NetworkStep env requests state next) :
    Blocked env next client := by
  have hphase {i : Fin clients} {phase : ClientPhase} (hi : state.phases i ≠ .waiting) :
      Function.update state.phases i phase client = .waiting := by
    rw [Function.update_of_ne, hblocked.waiting]
    rintro rfl
    exact hi hblocked.waiting
  cases hstep with
  | clientSend i hready =>
      exact ⟨hblocked.stuck, hblocked.busy, hphase (by rw [hready]; exact ClientPhase.noConfusion)⟩
  | arrive i hsent =>
      exact ⟨extend_stuck _ hblocked.busy hblocked.stuck, hblocked.busy,
        hphase (by rw [hsent]; exact ClientPhase.noConfusion)⟩
  | frontendRecv msg rest hserver hinbox => exact absurd hserver hblocked.busy
  | internal next hinternal => exact absurd ⟨_, hinternal.step⟩ hblocked.stuck
  | frontendSend reply hserver =>
      exact absurd ⟨_, (ServerStep.frontendSend reply hserver).step⟩ hblocked.stuck
  | clientRecv i reply hreplied =>
      exact ⟨hblocked.stuck, hblocked.busy,
        hphase (by rw [hreplied]; exact ClientPhase.noConfusion)⟩

/-- A request that cannot be served, sent first, leaves a client without its reply. -/
theorem exists_blocked {i : Fin clients} (hdispatch : 1 ≤ env.dispatchHwm)
    (hresults : 1 ≤ env.resultsHwm) (hbad : servable env (requests i) = false) :
    ∃ actions state client,
      (network env requests).Completes (NetworkState.init env.threads clients) actions state ∧
        Blocked env state client := by
  obtain ⟨serving, halted, hend, hbusy⟩ :
      ∃ actions state, (server env).Completes (State.init env.threads ([] ++ [requests i]))
        actions state ∧ state.server ≠ .awaiting :=
    exists_not_completed [] hdispatch hresults (fun _ hmem => absurd hmem List.not_mem_nil) hbad
  let sent : NetworkState env.threads clients :=
    (NetworkState.init env.threads clients).setClient i .sent
  have hsend : (network env requests).run? (NetworkState.init env.threads clients)
      [.clientSend i, .arrive i] = some (sent.enqueue i (requests i)) := by
    simp [run?, network, networkStep?, NetworkState.init, NetworkState.setClient, sent]
  obtain ⟨state, hserve, hstate⟩ : ∃ state, (network env requests).run?
      (sent.enqueue i (requests i)) (serving.map .serve) = some state ∧ state.server = halted :=
    exists_run?_serve hend.run
  have hrun := run?_append_of_run? hsend hserve
  obtain ⟨answered, hroute⟩ := route_of_reachable (reachable_of_run? hrun)
  obtain ⟨client, -, hwaiting⟩ := hroute.exists_current (by rwa [hstate])
  have hblocked : Blocked env state client :=
    ⟨by rw [hstate]; exact hend.stuck, by rwa [hstate], hwaiting⟩
  obtain ⟨rest, target, hover⟩ := exists_completes
    (fun state => ∃ answered, Route env requests state answered)
    (NetworkState.remaining env requests) network_remaining_lt hrun ⟨answered, hroute⟩
  refine ⟨_, target, client, hover, ?_⟩
  have hlater : (network env requests).Reachable state target := by
    have hwhole := hover.run
    rw [run?_append, hrun] at hwhole
    exact reachable_of_run? hwhole
  have hkeep (before after : NetworkState env.threads clients)
      (hbefore : Blocked env before client) (hstep : (network env requests).Step before after) :
      Blocked env after client := hbefore.step (networkStep_cases hstep)
  exact hlater.invariant hkeep hblocked

/-- The clients and the server cannot go on forever, and every schedule that is over
has brought every client its reply, after the same number of steps, exactly if the
server can serve each of the requests on its own. -/
theorem clients_served_iff (env : Env) (requests : Fin clients → Bytes)
    (hdispatch : 1 ≤ env.dispatchHwm) (hresults : 1 ≤ env.resultsHwm) :
    ¬ (network env requests).RunsForever (NetworkState.init env.threads clients) ∧
      ((∀ actions state,
        (network env requests).Completes (NetworkState.init env.threads clients) actions state →
          (∀ i, ∃ reply, state.phases i = .done reply) ∧
            actions.length = 2 * env.threads + ∑ i, (messageSteps env (requests i) + 3)) ↔
        ∀ i, servable env (requests i) = true) := by
  refine ⟨not_runsForever (fun state => ∃ answered, Route env requests state answered)
    (NetworkState.remaining env requests) network_remaining_lt ⟨[], route_init env requests⟩,
    ?_, ?_⟩
  · intro hserved i
    by_contra hbad
    obtain ⟨actions, state, client, hover, hblocked⟩ :=
      exists_blocked hdispatch hresults (Bool.eq_false_iff.mpr hbad)
    obtain ⟨reply, hdone⟩ := (hserved actions state hover).1 client
    rw [hblocked.waiting] at hdone
    cases hdone
  · intro hservable actions state hover
    obtain ⟨answered, hroute⟩ := route_of_reachable hover.reachable
    obtain ⟨hserver, hdone⟩ := done_of_stuck hdispatch hresults hservable hroute hover.stuck
    refine ⟨hdone, ?_⟩
    have hlength := length_add_measure (fun state => ∃ answered, Route env requests state answered)
      (NetworkState.remaining env requests) network_remaining_eq ⟨[], route_init env requests⟩
      hover.run
    have hnothing : clientsRemaining env requests state.phases = 0 := by
      apply Finset.sum_eq_zero
      intro i _
      obtain ⟨reply, hphase⟩ := hdone i
      rw [hphase, ClientPhase.remaining]
    rwa [network_remaining_init, NetworkState.remaining, hserver.remaining_eq_zero,
      hnothing] at hlength

/-- Three clients of one worker: two with a request of three batches and one with a
malformed message. -/
def sampleClients : Fin 3 → Bytes :=
  ![(RangePricingRequest.sample ([0, 1, 2].map AlphaBetaPair.sample)).toBytes, [0],
    (RangePricingRequest.sample ([0, 1, 2].map AlphaBetaPair.sample)).toBytes]

theorem clients_served_three :
    ∃ actions state, (network Env.sample sampleClients).Completes
        (NetworkState.init Env.sample.threads 3) actions state ∧
      (∀ i, ∃ reply, state.phases i = .done reply) ∧ actions.length = 51 := by
  obtain ⟨actions, state, hend⟩ := exists_network_completes Env.sample sampleClients
  obtain ⟨hdone, hlength⟩ := (clients_served_iff Env.sample sampleClients
    le_rfl le_rfl).2.mpr (by decide +kernel) actions state hend
  refine ⟨actions, state, hend, hdone, hlength.trans ?_⟩
  decide +kernel

end RangePricer
