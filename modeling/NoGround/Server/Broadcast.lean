/-
  Server/Broadcast.lean --- what the clients of the game server are sent, and in which
  order.

  `handleMessages`, `handleNewConnection` and `handleDisconnect` send by `wsSendToAll` only,
  from inside a callback that is handed the client table.  At that moment the table holds
  exactly the clients registered by the trace (Conn/Tenure.lean), each once.  So a broadcast
  reaches each of them once; and two clients are sent the same frames, in the same order, from
  the moment when the later one was registered.

  A ping is the one frame that is not sent by `wsSendToAll`.
-/
import NoGround.Conn.Tenure
import NoGround.Server.Handlers
import NoGround.Ws.Safety
import NoGround.Ws.Streams

set_option autoImplicit false

namespace NoGround

open NoGround.Lib

variable {ω : Type}

/-! ## What is broadcast, and what is written -/

/-- What a callback sends. -/
def netEvents : List WsEvent → List NetEvent
  | [] => []
  | .net e :: t => e :: netEvents t
  | .received _ :: t => netEvents t
  | .delivered _ :: t => netEvents t
  | .handshake _ _ _ :: t => netEvents t

/-- What is sent by `wsSendToAll`. -/
def relayed : ConnEvent WsEvent → List NetEvent
  | .callback .onping _ _ _ _ => []
  | .callback .onconnect _ _ _ out => netEvents out
  | .callback .onmessage _ _ _ out => netEvents out
  | .callback .ondisconnect _ _ _ out => netEvents out
  | .accepted _ => []
  | .registered _ => []
  | .closed _ => []
  | .deleted _ => []

/-- The frames `wsSendToAll` was called with. -/
def broadcastFrames : List NetEvent → List (List UInt8)
  | [] => []
  | .broadcast frame _ :: t => frame :: broadcastFrames t
  | .frame _ _ :: t => broadcastFrames t
  | .sent _ _ _ :: t => broadcastFrames t

/-- All broadcasts of a trace. -/
def broadcasts (t : List (ConnEvent WsEvent)) : List (List UInt8) :=
  t.flatMap fun e => broadcastFrames (relayed e)

/-- The frames `wsSendToAll` wrote to a socket, as far as it took them. -/
def writtenTo (fd : Int) (t : List (ConnEvent WsEvent)) : List (List UInt8) :=
  t.flatMap fun e => (writesTo fd (relayed e)).map Write.accepted

/-! ## One broadcast -/

theorem WellWritten.writesTo_append {t u : List NetEvent} (ht : WellWritten t)
    (hu : WellWritten u) (fd : Int) : writesTo fd (t ++ u) = writesTo fd t ++ writesTo fd u := by
  induction ht with
  | nil => rfl
  | broadcast frame fds _ ih => exact ih
  | @write fd' frame sends t hsends ht ih =>
    rw [List.cons_append, List.append_assoc]
    by_cases hfd : fd' = fd
    · subst hfd
      rw [(ht.append hu).writesTo_write, ht.writesTo_write, ih]
      rfl
    · rw [writesTo_write_of_ne hfd, writesTo_write_of_ne hfd, ih]

theorem broadcastFrames_append (t u : List NetEvent) :
    broadcastFrames (t ++ u) = broadcastFrames t ++ broadcastFrames u := by
  induction t with
  | nil => rfl
  | cons e t ih =>
    cases e with
    | broadcast frame fds => exact congrArg (frame :: ·) ih
    | frame fd frame => exact ih
    | sent fd message accepted => exact ih

section OneBroadcast

variable (sys : Sys ω)

/-- A frame that is sent in full is written, and is all that is written. -/
theorem wsSendPacket_written (client : Client) (packet : WSPacket) (w : ω)
    (hfull : SentInFull (wsSendPacket sys client packet w).out) (fd : Int) :
    writesTo fd (wsSendPacket sys client packet w).out =
      if client.fd = fd then [⟨packet.frame, packet.frame⟩] else [] := by
  obtain ⟨r, w', n, rest, hrun, hout⟩ := wsSendPacket_run sys client packet w
  rw [hrun] at hfull ⊢
  have hn : n = packet.headerBytes.length := hfull (.sent client.fd packet.headerBytes n) (by simp)
  rcases hout with ⟨hcut, -⟩ | ⟨-, k, hk, rfl⟩
  · omega
  · have hkfull : k = packet.data.length := hfull (.sent client.fd packet.data k) (by simp)
    subst hn hkfull
    by_cases hfd : client.fd = fd
    · subst hfd
      simp [writesTo, takenFirst, WSPacket.frame]
    · simp [writesTo, hfd]

theorem wsSendPacket_broadcastFrames (client : Client) (packet : WSPacket) (w : ω) :
    broadcastFrames (wsSendPacket sys client packet w).out = [] := by
  obtain ⟨r, w', n, rest, hrun, hout⟩ := wsSendPacket_run sys client packet w
  rw [hrun]
  rcases hout with ⟨-, rfl⟩ | ⟨-, k, -, rfl⟩ <;> rfl

/-- One packet to every client of a list: each is written the frame as often as it is on
the list. -/
theorem sendToEach_run (packet : WSPacket) (clients : List Client) (w : ω) :
    ∃ r w' out, sendToEach sys packet clients w = ⟨.ok r, w', out⟩ ∧ WellWritten out ∧
      broadcastFrames out = [] ∧
      (SentInFull out → ∀ fd, writesTo fd out =
        (clients.filter (·.fd = fd)).map fun _ => ⟨packet.frame, packet.frame⟩) := by
  induction clients generalizing w with
  | nil => exact ⟨0, w, [], rfl, .nil, rfl, fun _ _ => rfl⟩
  | cons client clients ih =>
    obtain ⟨r, w₁, n, tail, hrun, -⟩ := wsSendPacket_run sys client packet w
    obtain ⟨r', w₂, rest, hrest, hwell, hnone, hwritten⟩ := ih w₁
    have hfirst := wsSendPacket_wellWritten sys client packet w
    have hone := wsSendPacket_written sys client packet w
    have hnone₁ := wsSendPacket_broadcastFrames sys client packet w
    rw [hrun] at hfirst hone hnone₁
    refine ⟨r + r', w₂, _, ?_, hfirst.append hwell, ?_, ?_⟩
    · rw [sendToEach, Proc.bind_run_ok hrun, Proc.bind_run_ok hrest]
      simp
    · rw [broadcastFrames_append, hnone₁, hnone]
      rfl
    · intro hfull fd
      have hfull₁ := fun e he => hfull e (List.mem_append_left rest he)
      have hfull₂ := fun e he => hfull e (List.mem_append_right _ he)
      rw [hfirst.writesTo_append hwell, hone hfull₁ fd, hwritten hfull₂ fd, List.filter_cons]
      by_cases hfd : client.fd = fd
      · simp [hfd]
      · simp [hfd]

/-- What a callback sends reaches every client of the table once, and nobody else. -/
def RelaysTo (server : Server) (t : List NetEvent) : Prop :=
  SentInFull t → server.fds.Nodup → ∀ fd,
    (writesTo fd t).map Write.accepted = if fd ∈ server.fds then broadcastFrames t else []

theorem relaysTo_nil (server : Server) : RelaysTo server [] := by
  intro _ _ fd
  split <;> rfl

theorem filter_fd_of_nodup {clients : List Client} (h : (clients.map (·.fd)).Nodup) (fd : Int)
    {α : Type} (a : α) :
    (clients.filter (·.fd = fd)).map (fun _ => a) =
      if fd ∈ clients.map (·.fd) then [a] else [] := by
  induction clients with
  | nil => rfl
  | cons client clients ih =>
    rw [List.map_cons, List.nodup_cons] at h
    rw [List.filter_cons, List.map_cons]
    by_cases hfd : client.fd = fd
    · subst hfd
      have hrest := ih h.2
      rw [if_neg h.1] at hrest
      rw [if_pos (by simp), List.map_cons, hrest, if_pos List.mem_cons_self]
    · have hmem : fd ∈ client.fd :: clients.map (·.fd) ↔ fd ∈ clients.map (·.fd) := by
        simp [Ne.symm hfd]
      rw [if_neg (by simpa using hfd), ih h.2]
      simp only [hmem]

/-- **One broadcast.** -/
theorem wsSendToAll_relaysTo (server : Server) (packet : WSPacket) (w : ω) :
    ∃ r w' out, wsSendToAll sys (some server) packet w = ⟨.ok r, w', out⟩ ∧
      RelaysTo server out := by
  obtain ⟨r, w', out, hrun, -, hnone, hwritten⟩ :=
    sendToEach_run sys packet server.clients.items w
  refine ⟨r, w', .broadcast packet.frame server.fds :: out, ?_, ?_⟩
  · show (Proc.emit (.broadcast packet.frame server.fds) >>= fun _ =>
      sendToEach sys packet server.clients.items) w = _
    rw [Proc.emit_bind_run, hrun]
  · intro hfull hnodup fd
    have hout : SentInFull out := fun e he => hfull e (List.mem_cons_of_mem _ he)
    show (writesTo fd out).map Write.accepted =
      if fd ∈ server.fds then packet.frame :: broadcastFrames out else []
    rw [hwritten hout fd, filter_fd_of_nodup hnodup, hnone]
    unfold Server.fds
    split <;> rfl

end OneBroadcast

/-! ## The callbacks -/

theorem netEvents_append (t u : List WsEvent) :
    netEvents (t ++ u) = netEvents t ++ netEvents u := by
  induction t with
  | nil => rfl
  | cons e t ih =>
    cases e with
    | net e => exact congrArg (e :: ·) ih
    | received bytes => exact ih
    | delivered packet => exact ih
    | handshake fd response accepted => exact ih

@[simp] theorem netEvents_map_net (t : List NetEvent) : netEvents (t.map .net) = t := by
  induction t with
  | nil => rfl
  | cons e t ih => exact congrArg (e :: ·) ih

section Callbacks

variable (sys : Sys ω) (accept_key : List UInt8 → List UInt8)

/-- Nothing but its answer is sent by a handshake. -/
theorem wsHandshake_netEvents (client : Client) (w : ω) :
    netEvents (wsHandshake sys accept_key client w).out = [] := by
  have hkeeps : Proc.Keeps (fun t _ => netEvents t = []) (wsHandshake sys accept_key client) := by
    have hstep : ∀ {α : Type} (f : ω → α × ω),
        Proc.Keeps (fun t _ => netEvents t = []) (Proc.step f : Proc Halt ω WsEvent α) :=
      fun f => Proc.Triple.step fun _ _ h => h
    unfold wsHandshake
    refine Proc.Keeps.bind (hstep _) fun r => ?_
    refine Proc.Keeps.ite (fun _ => Proc.Keeps.pure _) fun _ => ?_
    refine Proc.Keeps.ite (fun _ => Proc.Keeps.pure _) fun _ => ?_
    refine Proc.Keeps.bind (Proc.Keeps.ofExcept _) fun found => ?_
    refine Proc.Keeps.ite (fun _ => ?_) fun _ => Proc.Keeps.pure _
    refine Proc.Keeps.bind (Proc.Keeps.ofExcept _) fun len => ?_
    refine Proc.Keeps.bind (hstep _) fun sent => ?_
    refine Proc.Keeps.bind (Proc.Triple.emit fun t _ h => ?_) fun _ => Proc.Keeps.pure _
    rw [netEvents_append, h]
    rfl
  exact hkeeps.run rfl

/-- A connection is announced, or nothing is sent; and it is never to be retried. -/
theorem wsHandleConnection_run (server : Server) (client : Client) (w : ω) :
    RelaysTo server
        (netEvents (wsHandleConnection sys accept_key (wsserver sys) server client w).out) ∧
      ∀ status client', (wsHandleConnection sys accept_key (wsserver sys) server client w).outcome =
        .ok (status, client') → status ≠ .retry := by
  have hsilent := wsHandshake_netEvents sys accept_key client w
  unfold wsHandleConnection
  rcases hrun : wsHandshake sys accept_key client w with ⟨r, w₁, out₁⟩
  rw [hrun] at hsilent
  cases r with
  | error e =>
    rw [Proc.bind_run_error hrun, hsilent]
    exact ⟨relaysTo_nil server, fun _ _ h => by cases h⟩
  | ok a =>
    obtain ⟨handshake_ok, client₁⟩ := a
    rw [Proc.bind_run_ok hrun]
    by_cases hok : handshake_ok = .keepAlive
    · obtain ⟨r, w₂, out₂, hall, hrelays⟩ := wsSendToAll_relaysTo sys server
        (noticePacket (noticeText "New client connected: " client₁)) w₁
      have hnew : handleNewConnection sys server client₁ w₁ =
          ⟨.ok (.keepAlive, client₁), w₂, out₂⟩ := by
        unfold handleNewConnection
        simp only [Proc.bind_run_ok hall, Proc.pure_run, List.append_nil]
      simp only [if_pos hok, wsserver, Proc.mapOut_run, hnew, netEvents_append, hsilent,
        netEvents_map_net, List.nil_append]
      refine ⟨hrelays, ?_⟩
      intro status client' h
      cases h
      decide
    · simp only [if_neg hok, Proc.pure_run, List.append_nil, hsilent]
      refine ⟨relaysTo_nil server, ?_⟩
      intro status client' h
      cases h
      decide

/-- Nothing is sent by `handlePacket`, and the status in the record stays. -/
theorem handlePacket_run (server : Server) (client : Client) (packet : WSPacket) (w : ω) :
    ∃ status client' w', handlePacket sys server client packet w =
        ⟨.ok (status, client'), w', []⟩ ∧ client'.status = client.status := by
  unfold handlePacket
  split
  · exact ⟨_, _, _, rfl, rfl⟩
  · split
    · rw [Proc.step_bind_run]
      exact ⟨_, _, _, rfl, rfl⟩
    · exact ⟨_, _, _, rfl, rfl⟩

theorem handleMessages_run (server : Server) (client : Client) (packet : WSPacket) (w : ω) :
    ∃ w' out, handleMessages sys server client packet w = ⟨.ok client, w', out⟩ ∧
      RelaysTo server out := by
  obtain ⟨r, w', out, hrun, hrelays⟩ := wsSendToAll_relaysTo sys server packet w
  refine ⟨w', out, ?_, hrelays⟩
  unfold handleMessages
  split <;> simp only [Proc.bind_run_ok hrun, Proc.pure_run, List.append_nil]

theorem handleDisconnect_run (server : Server) (client : Client) (w : ω) :
    ∃ w' out, handleDisconnect sys server client w = ⟨.ok (), w', out⟩ ∧
      RelaysTo server out := by
  obtain ⟨r, w', out, hrun, hrelays⟩ := wsSendToAll_relaysTo sys server
    (noticePacket (noticeText "Client disconected: " client)) w
  refine ⟨w', out, ?_, hrelays⟩
  unfold handleDisconnect
  simp only [Proc.bind_run_ok hrun, Proc.pure_run, List.append_nil]

/-- A packet is relayed, or nothing is sent. -/
theorem dispatchPacket_run (server : Server) (client : Client) (packet : WSPacket) (w : ω) :
    ∃ status client' w' out, dispatchPacket (wsserver sys) server client packet w =
        ⟨.ok (status, client'), w', out⟩ ∧ client'.status = client.status ∧
      RelaysTo server (netEvents out) := by
  obtain ⟨status, client₁, w₁, hpacket, hstatus⟩ := handlePacket_run sys server client packet w
  have hfirst : Proc.mapOut WsEvent.net (handlePacket sys server client packet) w =
      ⟨.ok (status, client₁), w₁, []⟩ := by
    rw [Proc.mapOut_run, hpacket]
    rfl
  unfold dispatchPacket
  simp only [wsserver]
  rw [Proc.bind_run_ok hfirst]
  by_cases hmessage : status = .keepAlive ∧ packet.isMessage = true
  · obtain ⟨w₂, out, hmessages, hrelays⟩ := handleMessages_run sys server client₁ packet w₁
    have hdeliver : deliverPacket (wsserver sys) server client₁ packet w₁ =
        ⟨.ok client₁, w₂, .delivered packet :: out.map .net⟩ := by
      unfold deliverPacket
      simp only [wsserver, Proc.emit_bind_run, Proc.mapOut_run, hmessages]
    refine ⟨status, client₁, w₂, .delivered packet :: out.map .net, ?_, hstatus, ?_⟩
    · rw [if_pos hmessage]
      unfold wsserver at hdeliver
      rw [Proc.bind_run_ok hdeliver]
      simp
    · rw [netEvents, netEvents_map_net]
      exact hrelays
  · refine ⟨status, client₁, w₁, [], ?_, hstatus, relaysTo_nil server⟩
    rw [if_neg hmessage]
    rfl

theorem wsHandleMessages_run (server : Server) (client : Client) (w : ω) :
    RelaysTo server
        (netEvents (wsHandleMessages sys (wsserver sys) server client w).out) ∧
      ∀ status client', (wsHandleMessages sys (wsserver sys) server client w).outcome =
        .ok (status, client') → client'.status = client.status := by
  have hclient := @receiveFrame_client _ sys client w
  have hsilent : netEvents (receiveFrame sys client w).out = [] := by
    rw [receiveFrame_out]
    split <;> rfl
  unfold wsHandleMessages
  rcases hrun : receiveFrame sys client w with ⟨r, w₁, out₁⟩
  rw [hrun] at hsilent hclient
  cases r with
  | error e =>
    rw [Proc.bind_run_error hrun, hsilent]
    exact ⟨relaysTo_nil server, fun _ _ h => by cases h⟩
  | ok a =>
    obtain ⟨received, client₁⟩ := a
    have hstatus₁ : client₁.status = client.status := by
      rw [hclient rfl]
      rfl
    rw [Proc.bind_run_ok hrun]
    cases received with
    | error status =>
      simp only [Proc.pure_run, List.append_nil, hsilent]
      refine ⟨relaysTo_nil server, ?_⟩
      intro status' client' h
      cases h
      exact hstatus₁
    | ok packet =>
      obtain ⟨status, client₂, w₂, out₂, hdispatch, hstatus₂, hrelays⟩ :=
        dispatchPacket_run sys server client₁ packet w₁
      simp only [hdispatch, netEvents_append, hsilent, List.nil_append]
      refine ⟨hrelays, ?_⟩
      intro status' client' h
      cases h
      exact hstatus₂.trans hstatus₁

/-! ## The server -/

/-- The callbacks of the game server ask for no retry. -/
theorem skserver_neverRetries : (skserver sys accept_key).NeverRetries where
  onconnect := by
    intro f s c w status c' w' out hf hrun
    cases hf
    have h := (wsHandleConnection_run sys accept_key s c w).2
    rw [hrun] at h
    exact h status c' rfl
  onping := by
    intro f s c w status c' w' out hf hrun
    cases hf
    obtain ⟨status', client', w'', hping, hne⟩ := wsHandlePing_run sys c w
    have hmapped : Proc.mapOut WsEvent.net (wsHandlePing sys c) w =
        ⟨.ok (status, c'), w', out⟩ := hrun
    rw [Proc.mapOut_run, hping] at hmapped
    cases hmapped
    exact hne
  onmessage := by
    intro f s c w status c' w' out hf hrun hc
    cases hf
    have h := (wsHandleMessages_run sys s c w).2
    rw [hrun] at h
    rw [h status c' rfl]
    exact hc

/-- A callback relays to the tables it is called on. -/
theorem relaysTo_of_callOn {s : Server} {e : ConnEvent WsEvent}
    (h : CallOn (skserver sys accept_key) s e) : RelaysTo s (relayed e) := by
  cases e with
  | accepted fd => exact relaysTo_nil s
  | registered fd => exact relaysTo_nil s
  | closed fd => exact relaysTo_nil s
  | deleted fd => exact relaysTo_nil s
  | callback kind server client status out =>
    obtain ⟨rfl, ⟨f, w, r, w', hf, hrun, -⟩ | ⟨rfl, -, f, w, r, w', hf, hrun⟩⟩ := h
    · cases kind with
      | onconnect =>
        cases hf
        have hrelays := (wsHandleConnection_run sys accept_key server client w).1
        rw [hrun] at hrelays
        exact hrelays
      | ondisconnect => cases hf
      | onmessage =>
        cases hf
        have hrelays := (wsHandleMessages_run sys server client w).1
        rw [hrun] at hrelays
        exact hrelays
      | onping => exact relaysTo_nil server
    · cases hf
      obtain ⟨w'', out', hdisconnect, hrelays⟩ := handleDisconnect_run sys server client w
      have hmapped : Proc.mapOut WsEvent.net (handleDisconnect sys server client) w =
          ⟨r, w', out⟩ := hrun
      rw [Proc.mapOut_run, hdisconnect] at hmapped
      cases hmapped
      show RelaysTo server (netEvents (out'.map .net))
      rw [netEvents_map_net]
      exact hrelays

end Callbacks

/-! ## Every run -/

/-- What is broadcast at an event reaches everybody registered before it, once. -/
def Reaches (before : List (ConnEvent WsEvent)) (e : ConnEvent WsEvent) : Prop :=
  ∀ fd, writtenTo fd [e] = if fd ∈ registeredFds before then broadcasts [e] else []

theorem RelaysTo.reaches {s : Server} {before : List (ConnEvent WsEvent)}
    {e : ConnEvent WsEvent} (h : RelaysTo s (relayed e)) (hsent : SentInFull (relayed e))
    (hperm : (registeredFds before).Perm s.fds) (hnodup : s.fds.Nodup) : Reaches before e := by
  intro fd
  have hfd := h hsent hnodup fd
  simp only [writtenTo, broadcasts, List.flatMap_cons, List.flatMap_nil, List.append_nil,
    hperm.mem_iff]
  exact hfd

/-- A client that stays registered is written every broadcast. -/
theorem writtenTo_eq_broadcasts {t u : List (ConnEvent WsEvent)} {fd : Int}
    (heach : EachEvent Reaches (t ++ u)) (hend : fd ∈ registeredFds (t ++ u))
    (hno : .registered fd ∉ u) : writtenTo fd u = broadcasts u := by
  induction u generalizing t with
  | nil => rfl
  | cons e u ih =>
    have hgain : ∀ e' ∈ e :: u, registryMove e' ≠ .gain fd := by
      intro e' he' hmove
      cases e' with
      | registered fd' =>
        cases hmove
        exact hno he'
      | accepted fd' => cases hmove
      | closed fd' => cases hmove
      | deleted fd' => cases hmove
      | callback kind server client status out => cases hmove
    have hmem : fd ∈ registeredFds t := mem_held_of_append registryMove hend hgain
    have hfirst : writtenTo fd [e] = broadcasts [e] := by
      rw [heach t e u rfl fd, if_pos hmem]
    have hsplit : t ++ e :: u = (t ++ [e]) ++ u := by simp
    rw [hsplit] at heach hend
    have hrest := ih heach hend fun hmem => hno (List.mem_cons_of_mem e hmem)
    have happend : writtenTo fd (e :: u) = writtenTo fd [e] ++ writtenTo fd u := by
      simp [writtenTo]
    rw [happend, hfirst, hrest]
    simp [broadcasts]

/-- **The same broadcasts for everybody**, in a run with the trace `t` that ends in `s`. -/
structure SameBroadcasts (t : List (ConnEvent WsEvent)) (s : Server) : Prop where
  /-- two clients at the end: since the later one was registered, both were written the same
  frames in the same order -/
  agree : ∀ before b after a, t = before ++ .registered b :: after →
    .registered b ∉ after → .registered a ∉ after → b ∈ s.fds → a ∈ s.fds →
    writtenTo b after = writtenTo a after
  /-- whatever a callback broadcasts is written once to each client in the table then, and
  to nobody else -/
  once : ∀ kind server client status out, .callback kind server client status out ∈ t →
    ∀ fd, writtenTo fd [.callback kind server client status out] =
      if fd ∈ server.fds then broadcasts [.callback kind server client status out] else []

/-- **Broadcast order.**  In every run of the game server from `conInitServer`, with a fresh
`accept` and broadcasts that are sent in full, all clients are written the same
broadcasts. -/
theorem serve_sameBroadcasts (sys : Sys ω) (accept_key : List UInt8 → List UInt8)
    {config : ServerConfig} (hmax : 1 ≤ config.max_connections) {m₀ m : Machine ω}
    {out : List (ConnEvent WsEvent)} (hinit : conInitServer sys config m₀ = ⟨.ok 0, m, out⟩)
    {n : Nat} (hfresh : AcceptsFresh (serve sys (skserver sys accept_key) n m).out)
    (hsent : ∀ e ∈ (serve sys (skserver sys accept_key) n m).out, SentInFull (relayed e)) :
    SameBroadcasts (serve sys (skserver sys accept_key) n m).out
      (serve sys (skserver sys accept_key) n m).state.server := by
  obtain ⟨-, hs, hempty, -⟩ := conInitServer_ok sys hmax hinit
  obtain ⟨hend, hcalls⟩ := serve_tenure sys (skserver sys accept_key) hs hempty n
  have honce := serve_once sys (skserver_neverRetries sys accept_key) hs hempty hfresh
  have heach : EachEvent Reaches (serve sys (skserver sys accept_key) n m).out := by
    intro before e after heq
    obtain ⟨s, hcall, hperm⟩ := hcalls before e after heq
    have hnodup : s.fds.Nodup := hperm.nodup_iff.mp (honce before e after heq)
    exact (relaysTo_of_callOn sys accept_key hcall).reaches (hsent e (by simp [heq])) hperm hnodup
  refine ⟨?_, ?_⟩
  · intro before b after a heq hb ha hbend haend
    have hsplit : before ++ .registered b :: after = (before ++ [.registered b]) ++ after := by
      simp
    have hall : ∀ fd, .registered fd ∉ after → fd ∈ (serve sys (skserver sys accept_key) n
        m).state.server.fds → writtenTo fd after = broadcasts after := by
      intro fd hno hfd
      rw [heq, hsplit] at heach hend
      exact writtenTo_eq_broadcasts heach (hend.mem_iff.mpr hfd) hno
    rw [hall b hb hbend, hall a ha haend]
  · intro kind server client status events hmem fd
    obtain ⟨before, after, heq⟩ := List.append_of_mem hmem
    obtain ⟨s, ⟨hserver, -⟩, hperm⟩ := hcalls before _ after heq
    subst hserver
    rw [heach before _ after heq fd]
    simp only [hperm.mem_iff]

/-- The request of a web socket client. -/
def handshakeRequest : List UInt8 :=
  ascii "GET / HTTP/1.1\r\nSec-WebSocket-Key: dGhlIHNhbXBsZSBub25jZQ==\r\n\r\n"

/-- What `_wsCalculateAcceptKey` makes of the key in it. -/
def handshakeAcceptKey : List UInt8 := ascii "s3pPLMBiTxaQ9kYGzzhZRbK+xOo="

/-- Two clients connect, and the first one sends a text of one byte. -/
def twoClients : Script where
  polls := [(1, [POLLIN]), (1, [POLLIN]), (1, [0#16, POLLIN])]
  accepts := [4, 5]
  recvs :=
    [some handshakeRequest, none, some handshakeRequest, none, none,
      some [0x81], some [0x81, 0x81, 1, 2, 3, 4, 0x69], none]

/-- The first is written the notice about the second, and both are written the text. -/
theorem serve_sameBroadcasts_two_clients :
    let r := serve Script.sys (skserver Script.sys fun _ => handshakeAcceptKey) 3
      (startServer twoClients)
    SameBroadcasts r.out r.state.server ∧ r.state.server.fds = [4, 5] ∧
      (writtenTo 4 r.out).length = 2 ∧ (writtenTo 5 r.out).length = 1 := by
  refine ⟨serve_sameBroadcasts Script.sys _ one_le_threeSlots
    (startServer_init _) ?_ ?_, ?_⟩
  · decide +kernel
  · decide +kernel
  · decide +kernel

end NoGround
