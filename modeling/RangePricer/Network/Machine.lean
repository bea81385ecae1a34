import RangePricer.Server.Sequential

/-!
# Clients around the server

Any number of clients, each with one request, and the server behind its reply
socket.  A client sends from a request socket and then waits; the messages arrive
in any order.  The reply socket takes one message at a time, remembers whose it
is, and sends the next reply to that client and to nobody else.
-/

namespace RangePricer

open FlatBuffers Transition Transition.System

/-- Where a client stands. -/
inductive ClientPhase where
  | ready
  /-- The request is on its way to the server. -/
  | sent
  /-- The request has arrived at the server. -/
  | waiting
  /-- The reply is on its way to the client. -/
  | replied (reply : RangePricingResponse)
  /-- `sock.recv` has returned. -/
  | done (reply : RangePricingResponse)
  deriving Repr

/-- The reply that was sent to a client, received or not. -/
def ClientPhase.reply? : ClientPhase → Option RangePricingResponse
  | .ready | .sent | .waiting => none
  | .replied reply | .done reply => some reply

structure NetworkState (threads clients : Nat) where
  phases : Fin clients → ClientPhase
  server : State threads
  /-- The senders of the messages in the server's inbox, in the same order. -/
  peers : List (Fin clients)
  /-- The sender of the message being served. -/
  current : Option (Fin clients)

inductive NetworkAction (threads clients : Nat) where
  | clientSend (client : Fin clients)
  | arrive (client : Fin clients)
  | serve (action : Action threads)
  | clientRecv (client : Fin clients)
  deriving DecidableEq, Repr

namespace NetworkState

variable {threads clients : Nat}

def init (threads clients : Nat) : NetworkState threads clients where
  phases := fun _ => .ready
  server := State.init threads []
  peers := []
  current := none

def setClient (state : NetworkState threads clients) (i : Fin clients) (phase : ClientPhase) :
    NetworkState threads clients :=
  { state with phases := Function.update state.phases i phase }

/-- A request joins the inbox of the server. -/
def enqueue (state : NetworkState threads clients) (i : Fin clients) (msg : Bytes) :
    NetworkState threads clients :=
  { state.setClient i .waiting with
    server := { state.server with inbox := state.server.inbox ++ [msg] }
    peers := state.peers ++ [i] }

/-- What a step of the server does to the socket it is made on. -/
def advance (state : NetworkState threads clients) (next : State threads) :
    Action threads → NetworkState threads clients
  | .frontendRecv =>
      { state with server := next, current := state.peers.head?, peers := state.peers.tail }
  | .frontendSend =>
      match state.current, next.replies.getLast? with
      | some i, some reply =>
          { state.setClient i (.replied reply) with server := next, current := none }
      | _, _ => { state with server := next, current := none }
  | _ => { state with server := next }

@[simp]
theorem setClient_phases (state : NetworkState threads clients) (i : Fin clients)
    (phase : ClientPhase) :
    (state.setClient i phase).phases = Function.update state.phases i phase := rfl

@[simp]
theorem setClient_server (state : NetworkState threads clients) (i : Fin clients)
    (phase : ClientPhase) : (state.setClient i phase).server = state.server := rfl

@[simp]
theorem setClient_peers (state : NetworkState threads clients) (i : Fin clients)
    (phase : ClientPhase) : (state.setClient i phase).peers = state.peers := rfl

@[simp]
theorem setClient_current (state : NetworkState threads clients) (i : Fin clients)
    (phase : ClientPhase) : (state.setClient i phase).current = state.current := rfl

@[simp]
theorem advance_server (state : NetworkState threads clients) (next : State threads)
    (action : Action threads) : (state.advance next action).server = next := by
  unfold advance
  split
  · rfl
  · split <;> rfl
  · rfl

end NetworkState

variable (env : Env) {clients : Nat} (requests : Fin clients → Bytes)

def networkStep? (state : NetworkState env.threads clients) :
    NetworkAction env.threads clients → Option (NetworkState env.threads clients)
  | .clientSend i =>
      match state.phases i with
      | .ready => some (state.setClient i .sent)
      | _ => none
  | .arrive i =>
      match state.phases i with
      | .sent => some (state.enqueue i (requests i))
      | _ => none
  | .serve action =>
      (step? env state.server action).map fun next => state.advance next action
  | .clientRecv i =>
      match state.phases i with
      | .replied reply => some (state.setClient i (.done reply))
      | _ => none

/-- The clients and the server. -/
def network : System (NetworkState env.threads clients) (NetworkAction env.threads clients) :=
  ⟨networkStep? env requests⟩

/-! ## What a step can do -/

/-- A step of the server behind the reply socket. -/
structure Internal (state next : State env.threads) : Prop where
  step : (server env).Step state next
  inbox : next.inbox = state.inbox
  replies : next.replies = state.replies
  awaiting : next.server = .awaiting ↔ state.server = .awaiting

/-- The steps of the network, one constructor for each. -/
inductive NetworkStep (state : NetworkState env.threads clients) :
    NetworkState env.threads clients → Prop where
  | clientSend (i : Fin clients) (hphase : state.phases i = .ready) :
      NetworkStep state (state.setClient i .sent)
  | arrive (i : Fin clients) (hphase : state.phases i = .sent) :
      NetworkStep state (state.enqueue i (requests i))
  | frontendRecv (msg : Bytes) (rest : List Bytes) (hserver : state.server.server = .awaiting)
      (hinbox : state.server.inbox = msg :: rest) :
      NetworkStep state
        (state.advance { state.server with server := handleMessage env msg, inbox := rest }
          .frontendRecv)
  | internal (next : State env.threads) (hinternal : Internal env state.server next) :
      NetworkStep state { state with server := next }
  | frontendSend (reply : RangePricingResponse) (hserver : state.server.server = .replying reply) :
      NetworkStep state
        (state.advance
          { state.server with server := .awaiting, replies := state.server.replies ++ [reply] }
          .frontendSend)
  | clientRecv (i : Fin clients) (reply : RangePricingResponse)
      (hphase : state.phases i = .replied reply) :
      NetworkStep state (state.setClient i (.done reply))

variable {env requests}

theorem handleMessage_ne_awaiting (msg : Bytes) : handleMessage env msg ≠ .awaiting := by
  unfold handleMessage
  split
  · dsimp only
    split <;> exact ServerPhase.noConfusion
  · exact ServerPhase.noConfusion

/-- The actions behind the reply socket. -/
def Action.behindSocket {threads : Nat} : Action threads → Bool
  | .frontendRecv | .frontendSend => false
  | _ => true

theorem internal_of_step? {state next : State env.threads} {action : Action env.threads}
    (hbehind : action.behindSocket = true) (hstep : step? env state action = some next) :
    Internal env state next := by
  have hany : (server env).Step state next := ⟨action, hstep⟩
  unfold step? at hstep
  split at hstep
  · obtain ⟨worker, -, rfl⟩ := Option.map_eq_some_iff.mp hstep
    exact ⟨hany, rfl, rfl, Iff.rfl⟩
  · next hthread =>
      cases action with
      | frontendRecv | frontendSend => cases hbehind
      | connectPull | connectPush | pullRecv | priceBatch | pushSend => cases hthread
      | dispatchSend | endDispatch | resultsRecv | endCollect =>
          cases serverStep?_sound hstep with
          | frontendRecv msg rest hserver => simp [serverStep?, hserver] at hstep
          | frontendSend reply hserver => simp [serverStep?, hserver] at hstep
          | dispatchSend _ _ _ _ _ hserver | endDispatch _ _ hserver
          | resultsRecv _ _ _ _ _ _ _ hserver | endCollect _ _ _ hserver =>
              exact ⟨hany, rfl, rfl, by simp [hserver]⟩

theorem networkStep?_sound {state next : NetworkState env.threads clients}
    {action : NetworkAction env.threads clients}
    (hstep : networkStep? env requests state action = some next) :
    NetworkStep env requests state next := by
  cases action with
  | clientSend i =>
      simp only [networkStep?] at hstep
      split at hstep
      · next hphase =>
          obtain rfl := Option.some.inj hstep
          exact .clientSend i hphase
      · cases hstep
  | arrive i =>
      simp only [networkStep?] at hstep
      split at hstep
      · next hphase =>
          obtain rfl := Option.some.inj hstep
          exact .arrive i hphase
      · cases hstep
  | clientRecv i =>
      simp only [networkStep?] at hstep
      split at hstep
      · next reply hphase =>
          obtain rfl := Option.some.inj hstep
          exact .clientRecv i reply hphase
      · cases hstep
  | serve action =>
      obtain ⟨after, hserver, rfl⟩ := Option.map_eq_some_iff.mp hstep
      cases action with
      | frontendRecv =>
          change serverStep? env state.server .frontendRecv = some after at hserver
          simp only [serverStep?] at hserver
          split at hserver
          · next _ _ msg rest hawaiting hinbox =>
              obtain rfl := Option.some.inj hserver
              exact .frontendRecv msg rest hawaiting hinbox
          · cases hserver
      | frontendSend =>
          change serverStep? env state.server .frontendSend = some after at hserver
          simp only [serverStep?] at hserver
          split at hserver
          · next _ reply hreplying =>
              obtain rfl := Option.some.inj hserver
              exact .frontendSend reply hreplying
          · cases hserver
      | dispatchSend | endDispatch | resultsRecv | endCollect | connectPull | connectPush
      | pullRecv | priceBatch | pushSend => exact .internal after (internal_of_step? rfl hserver)

theorem networkStep_cases {state next : NetworkState env.threads clients}
    (hstep : (network env requests).Step state next) : NetworkStep env requests state next := by
  obtain ⟨action, haction⟩ := hstep
  exact networkStep?_sound haction

/-! ## What a state enables -/

theorem step_of_ready {state : NetworkState env.threads clients} {i : Fin clients}
    (hphase : state.phases i = .ready) : (network env requests).Enabled state :=
  ⟨_, .clientSend i, by simp only [network, networkStep?, hphase]; rfl⟩

theorem step_of_sent {state : NetworkState env.threads clients} {i : Fin clients}
    (hphase : state.phases i = .sent) : (network env requests).Enabled state :=
  ⟨_, .arrive i, by simp only [network, networkStep?, hphase]; rfl⟩

theorem step_of_replied {state : NetworkState env.threads clients} {i : Fin clients}
    {reply : RangePricingResponse} (hphase : state.phases i = .replied reply) :
    (network env requests).Enabled state :=
  ⟨_, .clientRecv i, by simp only [network, networkStep?, hphase]; rfl⟩

/-- The server moves whenever it can. -/
theorem step_of_server {state : NetworkState env.threads clients}
    (henabled : (server env).Enabled state.server) : (network env requests).Enabled state := by
  obtain ⟨next, action, haction⟩ := henabled
  exact ⟨state.advance next action, .serve action, Option.map_eq_some_iff.mpr ⟨next, haction, rfl⟩⟩

/-- A run of the server is a run of the network. -/
theorem exists_run?_serve {state : NetworkState env.threads clients} {after : State env.threads}
    {actions : List (Action env.threads)}
    (hrun : (server env).run? state.server actions = some after) :
    ∃ target, (network env requests).run? state (actions.map .serve) = some target ∧
      target.server = after := by
  induction actions generalizing state with
  | nil => exact ⟨state, rfl, Option.some.inj hrun⟩
  | cons action rest ih =>
      obtain ⟨next, haction, hrest⟩ := Option.bind_eq_some_iff.mp hrun
      have hserver : (state.advance next action).server = next :=
        NetworkState.advance_server state next action
      obtain ⟨target, htarget, hafter⟩ := ih (hserver.symm ▸ hrest)
      refine ⟨target, Option.bind_eq_some_iff.mpr ⟨_, ?_, htarget⟩, hafter⟩
      exact Option.map_eq_some_iff.mpr ⟨next, haction, rfl⟩

end RangePricer
