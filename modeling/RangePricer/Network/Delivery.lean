import RangePricer.Network.Machine

/-!
# Every client gets the reply to its own request

The server behind the reply socket sees one stream of messages.  It is the list of
requests in the order of their arrival, which grows while the server works; a
message more at its end changes nothing for the messages before it.  So whatever
holds of the server alone holds of the server among its clients, and the socket's
book-keeping returns the `k`-th reply to the `k`-th sender.
-/

namespace RangePricer

open FlatBuffers Transition Transition.System

variable {env : Env} {clients : Nat} {requests : Fin clients → Bytes}

/-! ## A longer inbox -/

/-- The same state with more messages behind those of the inbox. -/
def State.extend {threads : Nat} (state : State threads) (later : List Bytes) : State threads :=
  { state with inbox := state.inbox ++ later }

theorem extend_step {state next : State env.threads} (later : List Bytes)
    (hstep : (server env).Step state next) :
    (server env).Step (state.extend later) (next.extend later) := by
  obtain hserver | ⟨i, worker, hworker, rfl⟩ := step_cases hstep
  · cases hserver with
    | frontendRecv msg rest hserver hinbox =>
        have hlonger : ServerStep env (state.extend later) _ :=
          .frontendRecv msg (rest ++ later) hserver (by rw [State.extend, hinbox, List.cons_append])
        exact hlonger.step
    | dispatchSend i rr batches sent batch hserver hbatch hroom =>
        have hlonger : ServerStep env (state.extend later) _ :=
          .dispatchSend i rr batches sent batch hserver hbatch hroom
        exact hlonger.step
    | endDispatch rr batches hserver =>
        have hlonger : ServerStep env (state.extend later) _ := .endDispatch rr batches hserver
        exact hlonger.step
    | resultsRecv i rr batches received allResults msg rest hserver hpipe hmore =>
        have hlonger : ServerStep env (state.extend later) _ :=
          .resultsRecv i rr batches received allResults msg rest hserver hpipe hmore
        exact hlonger.step
    | endCollect rr batches allResults hserver =>
        have hlonger : ServerStep env (state.extend later) _ :=
          .endCollect rr batches allResults hserver
        exact hlonger.step
    | frontendSend reply hserver =>
        have hlonger : ServerStep env (state.extend later) _ := .frontendSend reply hserver
        exact hlonger.step
  · have hlonger : WorkerStep env ((state.extend later).workers i) worker := hworker
    exact hlonger.step

/-- What the server reaches it also reaches with more messages to come. -/
theorem reachable_extend {messages : List Bytes} {state : State env.threads}
    (hreach : (server env).Reachable (State.init env.threads messages) state)
    (later : List Bytes) :
    (server env).Reachable (State.init env.threads (messages ++ later)) (state.extend later) := by
  induction hreach with
  | refl => exact Reachable.refl _
  | tail _ edge ih => exact ih.tail (extend_step later edge)

/-! ## The route of a message -/

/-- The clients whose messages have arrived and are not answered, oldest first. -/
def NetworkState.pending {threads : Nat} (state : NetworkState threads clients) :
    List (Fin clients) :=
  state.current.toList ++ state.peers

/-- The server has seen the requests in the order of their arrival; `answered` are
the clients its replies went to, one for each. -/
structure Route (env : Env) (requests : Fin clients → Bytes)
    (state : NetworkState env.threads clients) (answered : List (Fin clients)) : Prop where
  distinct : (answered ++ state.pending).Nodup
  reachable : (server env).Reachable
    (State.init env.threads ((answered ++ state.pending).map requests)) state.server
  inbox : state.server.inbox = state.peers.map requests
  current : state.current = none ↔ state.server.server = .awaiting
  waiting : ∀ i, state.phases i = .waiting ↔ i ∈ state.pending
  replied : answered.map (fun i => (state.phases i).reply?) = state.server.replies.map some
  only : ∀ i, (state.phases i).reply?.isSome = true → i ∈ answered

namespace Route

variable {state : NetworkState env.threads clients} {answered : List (Fin clients)}

theorem reply_of_mem (hroute : Route env requests state answered) {i : Fin clients}
    (hi : i ∈ answered) : (state.phases i).reply?.isSome = true := by
  have hmem : (state.phases i).reply? ∈ state.server.replies.map some :=
    hroute.replied ▸ List.mem_map_of_mem hi
  obtain ⟨reply, -, hreply⟩ := List.mem_map.mp hmem
  rw [← hreply]
  rfl

/-- Nothing changes for the route while a client changes its phase, as long as its
reply, if it has one, stays. -/
theorem setClient (hroute : Route env requests state answered) {i : Fin clients}
    {phase : ClientPhase} (hreply : phase.reply? = (state.phases i).reply?)
    (hwaiting : phase = .waiting ↔ state.phases i = .waiting) :
    Route env requests (state.setClient i phase) answered := by
  have hkeep (j : Fin clients) :
      (Function.update state.phases i phase j).reply? = (state.phases j).reply? := by
    by_cases hj : j = i
    · rw [hj, Function.update_self, hreply]
    · rw [Function.update_of_ne hj]
  refine ⟨hroute.distinct, hroute.reachable, hroute.inbox, hroute.current, fun j => ?_, ?_,
    fun j hj => hroute.only j (hkeep j ▸ hj)⟩
  · rw [← show _ ↔ j ∈ (state.setClient i phase).pending from hroute.waiting j]
    by_cases hj : j = i
    · rw [hj, NetworkState.setClient_phases, Function.update_self, hwaiting]
    · rw [NetworkState.setClient_phases, Function.update_of_ne hj]
  · exact (List.map_congr_left fun j _ => hkeep j).trans hroute.replied

/-- A client whose request is on its way has no place in the route yet. -/
theorem not_mem_of_sent (hroute : Route env requests state answered) {i : Fin clients}
    (hphase : state.phases i = .sent) : i ∉ answered ++ state.pending := by
  intro hi
  obtain hanswered | hpending := List.mem_append.mp hi
  · have hreply := hroute.reply_of_mem hanswered
    rw [hphase] at hreply
    cases hreply
  · have hwaiting := (hroute.waiting i).mpr hpending
    rw [hphase] at hwaiting
    cases hwaiting

/-- A request that arrives goes to the end of the route. -/
theorem enqueue (hroute : Route env requests state answered) {i : Fin clients}
    (hphase : state.phases i = .sent) :
    Route env requests (state.enqueue i (requests i)) answered := by
  have hnew := hroute.not_mem_of_sent hphase
  have hpending : (state.enqueue i (requests i)).pending = state.pending ++ [i] :=
    (List.append_assoc _ _ _).symm
  have hself : (state.enqueue i (requests i)).phases i = .waiting := Function.update_self _ _ _
  have hother {j : Fin clients} (hj : j ≠ i) :
      (state.enqueue i (requests i)).phases j = state.phases j := Function.update_of_ne hj _ _
  constructor
  · rw [hpending, ← List.append_assoc]
    apply hroute.distinct.append (List.nodup_singleton i)
    rw [List.disjoint_singleton]
    exact hnew
  · rw [hpending, ← List.append_assoc, List.map_append]
    exact reachable_extend hroute.reachable _
  · change state.server.inbox ++ [requests i] = (state.peers ++ [i]).map requests
    rw [hroute.inbox, List.map_append, List.map_cons, List.map_nil]
  · exact hroute.current
  · intro j
    rw [hpending, List.mem_append, List.mem_singleton]
    by_cases hj : j = i
    · exact iff_of_true (hj ▸ hself) (.inr hj)
    · rw [hother hj, hroute.waiting j, or_iff_left hj]
  · refine (List.map_congr_left fun j hj => ?_).trans hroute.replied
    rw [hother]
    rintro rfl
    exact hnew (List.mem_append_left _ hj)
  · intro j hj
    by_cases hji : j = i
    · rw [hji, hself] at hj
      cases hj
    · exact hroute.only j (hother hji ▸ hj)

/-- The message received is the one of the first sender. -/
theorem frontendRecv (hroute : Route env requests state answered) {msg : Bytes}
    {rest : List Bytes} (hserver : state.server.server = .awaiting)
    (hinbox : state.server.inbox = msg :: rest) :
    Route env requests
      (state.advance { state.server with server := handleMessage env msg, inbox := rest }
        .frontendRecv) answered := by
  have hcurrent := hroute.current.mpr hserver
  obtain ⟨i, peers, hpeers⟩ : ∃ i peers, state.peers = i :: peers := by
    cases hpeers : state.peers with
    | nil => simp [hroute.inbox, hpeers] at hinbox
    | cons i peers => exact ⟨i, peers, rfl⟩
  have hpending : (state.advance
      { state.server with server := handleMessage env msg, inbox := rest }
        .frontendRecv).pending = state.pending := by
    simp [NetworkState.advance, NetworkState.pending, hcurrent, hpeers]
  constructor
  · rw [hpending]
    exact hroute.distinct
  · rw [hpending]
    exact hroute.reachable.tail (recv_step hserver hinbox)
  · change rest = state.peers.tail.map requests
    rw [List.map_tail, ← hroute.inbox, hinbox, List.tail_cons]
  · change state.peers.head? = none ↔ handleMessage env msg = .awaiting
    rw [hpeers, List.head?_cons]
    exact iff_of_false (Option.some_ne_none i) (handleMessage_ne_awaiting msg)
  · rw [hpending]
    exact hroute.waiting
  · exact hroute.replied
  · exact hroute.only

/-- A step behind the socket leaves the route as it is. -/
theorem internal (hroute : Route env requests state answered) {next : State env.threads}
    (hinternal : Internal env state.server next) :
    Route env requests { state with server := next } answered where
  distinct := hroute.distinct
  reachable := hroute.reachable.tail hinternal.step
  inbox := hinternal.inbox.trans hroute.inbox
  current := hroute.current.trans hinternal.awaiting.symm
  waiting := hroute.waiting
  replied := hroute.replied.trans (congrArg _ hinternal.replies.symm)
  only := hroute.only

/-- A server that is not awaiting a message has the sender of one. -/
theorem exists_current (hroute : Route env requests state answered)
    (hserver : state.server.server ≠ .awaiting) :
    ∃ i, state.current = some i ∧ state.phases i = .waiting := by
  obtain ⟨i, hcurrent⟩ := Option.ne_none_iff_exists'.mp (mt hroute.current.mp hserver)
  refine ⟨i, hcurrent, (hroute.waiting i).mpr ?_⟩
  rw [NetworkState.pending, hcurrent]
  exact List.mem_cons_self

/-- The reply goes to the sender of the message being served. -/
theorem frontendSend (hroute : Route env requests state answered) {reply : RangePricingResponse}
    (hserver : state.server.server = .replying reply) :
    ∃ i, Route env requests
      (state.advance
        { state.server with server := .awaiting, replies := state.server.replies ++ [reply] }
        .frontendSend) (answered ++ [i]) := by
  obtain ⟨i, hcurrent, -⟩ := hroute.exists_current (by rw [hserver]; exact ServerPhase.noConfusion)
  have hpending : state.pending = i :: state.peers := by
    rw [NetworkState.pending, hcurrent]
    rfl
  have hadvance : state.advance
      { state.server with server := .awaiting, replies := state.server.replies ++ [reply] }
      .frontendSend =
        { state.setClient i (.replied reply) with
          server := { state.server with
            server := .awaiting, replies := state.server.replies ++ [reply] }
          current := none } := by
    simp [NetworkState.advance, hcurrent]
  rw [hadvance]
  -- The sender has been in the route once, so it is in neither of its remaining parts.
  have hdistinct := hroute.distinct
  rw [hpending] at hdistinct
  have hnew : i ∉ answered ++ state.peers :=
    (List.nodup_cons.mp (List.perm_middle.nodup_iff.mp hdistinct)).1
  have hother {j : Fin clients} (hj : j ≠ i) :
      Function.update state.phases i (.replied reply) j = state.phases j :=
    Function.update_of_ne hj _ _
  refine ⟨i, ?_, ?_, hroute.inbox, iff_of_true rfl rfl, fun j => ?_, ?_, fun j hj => ?_⟩
  · change ((answered ++ [i]) ++ state.peers).Nodup
    rwa [List.append_assoc]
  · change (server env).Reachable
      (State.init env.threads (((answered ++ [i]) ++ state.peers).map requests)) _
    have hreach := hroute.reachable.tail (ServerStep.frontendSend reply hserver).step
    rw [hpending] at hreach
    rwa [List.append_assoc]
  · change Function.update state.phases i (.replied reply) j = .waiting ↔ j ∈ state.peers
    by_cases hj : j = i
    · rw [hj, Function.update_self]
      exact iff_of_false ClientPhase.noConfusion fun hi => hnew (List.mem_append_right _ hi)
    · rw [hother hj, hroute.waiting j, hpending, List.mem_cons, or_iff_right hj]
  · change (answered ++ [i]).map
      (fun j => (Function.update state.phases i (.replied reply) j).reply?) =
        (state.server.replies ++ [reply]).map some
    rw [List.map_append, List.map_append, ← hroute.replied]
    refine congrArg₂ _ (List.map_congr_left fun j hj => ?_) ?_
    · rw [hother]
      rintro rfl
      exact hnew (List.mem_append_left _ hj)
    · simp [ClientPhase.reply?]
  · by_cases hji : j = i
    · exact List.mem_append_right _ (List.mem_singleton.mpr hji)
    · change (Function.update state.phases i (.replied reply) j).reply?.isSome = true at hj
      rw [hother hji] at hj
      exact List.mem_append_left _ (hroute.only j hj)

end Route

theorem NetworkStep.exists_route {state next : NetworkState env.threads clients}
    (hstep : NetworkStep env requests state next) {answered : List (Fin clients)}
    (hroute : Route env requests state answered) :
    ∃ answered, Route env requests next answered := by
  cases hstep with
  | clientSend i hphase =>
      exact ⟨answered, hroute.setClient (by rw [hphase]; rfl) (by simp [hphase])⟩
  | arrive i hphase => exact ⟨answered, hroute.enqueue hphase⟩
  | frontendRecv msg rest hserver hinbox => exact ⟨answered, hroute.frontendRecv hserver hinbox⟩
  | internal next hinternal => exact ⟨answered, hroute.internal hinternal⟩
  | frontendSend reply hserver =>
      obtain ⟨i, hnext⟩ := hroute.frontendSend hserver
      exact ⟨answered ++ [i], hnext⟩
  | clientRecv i reply hphase =>
      exact ⟨answered, hroute.setClient (by rw [hphase]; rfl) (by simp [hphase])⟩

theorem route_init (env : Env) (requests : Fin clients → Bytes) :
    Route env requests (NetworkState.init env.threads clients) [] where
  distinct := List.nodup_nil
  reachable := Reachable.refl _
  inbox := rfl
  current := iff_of_true rfl rfl
  waiting := fun _ => iff_of_false ClientPhase.noConfusion List.not_mem_nil
  replied := rfl
  only := fun _ hnone => absurd hnone Bool.false_ne_true

/-- The route exists in every reachable state of the network. -/
theorem route_of_reachable {state : NetworkState env.threads clients}
    (hreach : (network env requests).Reachable (NetworkState.init env.threads clients) state) :
    ∃ answered, Route env requests state answered := by
  have hkeep (before after : NetworkState env.threads clients)
      (hroute : ∃ answered, Route env requests before answered)
      (hstep : (network env requests).Step before after) :
      ∃ answered, Route env requests after answered := by
    obtain ⟨answered, hroute⟩ := hroute
    exact (networkStep_cases hstep).exists_route hroute
  exact hreach.invariant hkeep ⟨[], route_init env requests⟩

/-! ## The replies -/

/-- A reply a client has answers the request of that client. -/
theorem Route.answers {state : NetworkState env.threads clients} {answered : List (Fin clients)}
    (hroute : Route env requests state answered) {i : Fin clients} {reply : RangePricingResponse}
    (hreply : (state.phases i).reply? = some reply) : Answers env (requests i) reply := by
  obtain ⟨k, hk, rfl⟩ := List.getElem_of_mem (hroute.only i (by rw [hreply]; rfl))
  have hreplies : state.server.replies[k]? = some reply := by
    have hmap := congrArg (fun replies => replies[k]?) hroute.replied
    simp only [List.getElem?_map, List.getElem?_eq_getElem hk, Option.map_some, hreply] at hmap
    obtain ⟨_, hfound, hsame⟩ := Option.map_eq_some_iff.mp hmap.symm
    rw [hfound, Option.some.inj hsame]
  obtain ⟨msg, hmsg, hanswers⟩ := answers_of_reachable hroute.reachable hreplies
  rw [List.map_append, List.getElem?_append_left (by simpa using hk), List.getElem?_map,
    List.getElem?_eq_getElem hk, Option.map_some] at hmsg
  exact Option.some.inj hmsg ▸ hanswers

/-- Whatever the order in which the clients send and the messages arrive, each reply
the server has sent is with one client, and no client has another one; it is what
the function makes of that client's own request. -/
theorem replies_delivered (env : Env) (requests : Fin clients → Bytes) :
    ∀ state, (network env requests).Reachable (NetworkState.init env.threads clients) state →
      (∃ answered : List (Fin clients), answered.Nodup ∧
        answered.map (fun i => (state.phases i).reply?) = state.server.replies.map some ∧
          ∀ i, (state.phases i).reply?.isSome = true → i ∈ answered) ∧
      ∀ i reply, (state.phases i).reply? = some reply →
        reply.Refines (serveSequentially env (requests i)) ∧
          (DistinctIdx (requests i) → reply = serveSequentially env (requests i)) := by
  intro state hreach
  obtain ⟨answered, hroute⟩ := route_of_reachable hreach
  refine ⟨⟨answered, hroute.distinct.of_append_left, hroute.replied, hroute.only⟩,
    fun i reply hreply => ?_⟩
  have hanswers := hroute.answers hreply
  exact ⟨hanswers.refines, fun hdistinct => hanswers.eq_sequential hdistinct⟩

/-- Two clients, the second with a malformed message that arrives first: each has its
own reply. -/
theorem replies_delivered_two :
    ∃ state, (network Env.sample
        ![(RangePricingRequest.sample [.sample 0]).toBytes, [0]]).Reachable
          (NetworkState.init Env.sample.threads 2) state ∧
      (state.phases 0).reply? = some (serveSequentially Env.sample
        (RangePricingRequest.sample [.sample 0]).toBytes) ∧
      (state.phases 1).reply? = some errorReply := by
  have hrun : ((network Env.sample
      ![(RangePricingRequest.sample [.sample 0]).toBytes, [0]]).run?
        (NetworkState.init Env.sample.threads 2)
        ([.clientSend 0, .clientSend 1, .arrive 1, .arrive 0] ++
          ([.frontendRecv, .frontendSend, .connectPull 0, .connectPush 0, .frontendRecv,
            .dispatchSend 0, .endDispatch, .pullRecv 0, .priceBatch 0, .pushSend 0,
            .resultsRecv 0, .endCollect, .frontendSend] : List (Action 1)).map .serve)).map
        (fun state => decide (∀ i, (state.phases i).reply?.isSome = true)) = some true := by
    decide +kernel
  obtain ⟨state, hstate, hreplied⟩ := Option.map_eq_some_iff.mp hrun
  have hreach := reachable_of_run? hstate
  have hdelivered := (replies_delivered Env.sample
    ![(RangePricingRequest.sample [.sample 0]).toBytes, [0]] state hreach).2
  obtain ⟨first, hfirst⟩ := Option.isSome_iff_exists.mp (of_decide_eq_true hreplied 0)
  obtain ⟨second, hsecond⟩ := Option.isSome_iff_exists.mp (of_decide_eq_true hreplied 1)
  refine ⟨state, hreach, ?_, ?_⟩
  · rw [hfirst, (hdelivered 0 first hfirst).2 (by decide +kernel)]
    rfl
  · rw [hsecond, (hdelivered 1 second hsecond).2 (by decide +kernel)]
    decide +kernel

end RangePricer
