/-
  Server/Relay.lean --- what one client says is what every other client hears.

  One client of the game server writes frames back to back, and everything else in the world is
  arbitrary: what the others write, when they come and go, what poll answers, what the sockets
  take.  A call of `onmessage` for it takes one frame off its stream, if the reads of the stream
  are in step with it (Ws/Framing.lean), and nothing else touches the stream (Server/Aside.lean).
  So over a whole run its posts are its frames, and with Server/Hearing.lean they go through to
  the other clients byte for byte.
-/
import NoGround.Conn.Worlds
import NoGround.Server.Aside
import NoGround.Server.Hearing

set_option autoImplicit false

namespace NoGround

open NoGround.Lib

variable {ω : Type}

/-! ## What one client says -/

/-- The messages of one client among the posts. -/
def saidBy (fd : Int) : List Post → List Message
  | [] => []
  | .said fd' packet :: ps =>
      if fd' = fd then (packet.header.opcode, packet.length, packet.data) :: saidBy fd ps
      else saidBy fd ps
  | .joined _ :: ps => saidBy fd ps
  | .left _ :: ps => saidBy fd ps

/-- `onmessage` is called for the client. -/
def Serves (fd : Int) : ConnEvent WsEvent → Prop
  | .callback .onmessage _ client _ _ => client.fd = fd
  | _ => False

instance (fd : Int) : DecidablePred (Serves fd) := fun e => by
  unfold Serves
  split <;> infer_instance

/-- The socket is handed to `onconnect`. -/
def Connects (fd : Int) : ConnEvent WsEvent → Prop
  | .callback .onconnect _ client _ _ => client.fd = fd
  | _ => False

instance (fd : Int) : DecidablePred (Connects fd) := fun e => by
  unfold Connects
  split <;> infer_instance

/-- How often `onmessage` was called for the client. -/
def callsFor (fd : Int) (t : List (ConnEvent WsEvent)) : Nat := t.countP fun e => Serves fd e

theorem saidBy_append (fd : Int) (ps qs : List Post) :
    saidBy fd (ps ++ qs) = saidBy fd ps ++ saidBy fd qs := by
  induction ps with
  | nil => rfl
  | cons post ps ih =>
    cases post with
    | joined client => exact ih
    | left client => exact ih
    | said fd' packet =>
      by_cases hfd : fd' = fd
      · rw [List.cons_append, saidBy, if_pos hfd, saidBy, if_pos hfd, ih, List.cons_append]
      · rw [List.cons_append, saidBy, if_neg hfd, saidBy, if_neg hfd, ih]

theorem saidBy_packetsOf (fd : Int) (out : List WsEvent) :
    saidBy fd ((packetsOf out).map (.said fd)) = messagesOf out := by
  induction out with
  | nil => rfl
  | cons e out ih =>
    cases e with
    | received bytes => exact ih
    | handshake fd' response accepted => exact ih
    | net e => exact ih
    | delivered packet =>
      rw [packetsOf, List.map_cons, saidBy, if_pos rfl, ih]
      rfl

theorem saidBy_packetsOf_of_ne {fd fd' : Int} (h : fd' ≠ fd) (packets : List WSPacket) :
    saidBy fd (packets.map (.said fd')) = [] := by
  induction packets with
  | nil => rfl
  | cons packet packets ih => rw [List.map_cons, saidBy, if_neg h, ih]

theorem posts_append (t u : List (ConnEvent WsEvent)) : posts (t ++ u) = posts t ++ posts u :=
  List.flatMap_append

/-- An event at which the client says nothing. -/
theorem saidBy_postsAt {fd : Int} {e : ConnEvent WsEvent} (h : ¬ Serves fd e) :
    saidBy fd (postsAt e) = [] := by
  cases e with
  | accepted fd' => rfl
  | registered fd' => rfl
  | closed fd' => rfl
  | deleted fd' => rfl
  | callback kind server client status out =>
    cases kind with
    | onconnect =>
      match status with
      | some .keepAlive => rfl
      | some .kill => rfl
      | some .retry => rfl
      | none => rfl
    | onping => rfl
    | ondisconnect => rfl
    | onmessage => exact saidBy_packetsOf_of_ne h (packetsOf out)

/-! ## The stream of the client -/

/-- After a trace: the client has said as many of its frames as there were calls for it, in
order, and the rest of them is what is still to be read. -/
structure InOrder (frames : List ClientFrame) (fd : Int) (t : List (ConnEvent WsEvent))
    (p : Peer ω) : Prop where
  said : saidBy fd (posts t) =
    (frames.take (min (callsFor fd t) frames.length)).map ClientFrame.message
  pending : p.pending = wireOf (frames.drop (min (callsFor fd t) frames.length))
  cuts : CutsFit (frames.drop (min (callsFor fd t) frames.length)) p.cuts

section InOrder

variable {frames : List ClientFrame} {fd : Int} {t : List (ConnEvent WsEvent)} {p q : Peer ω}

/-- Nothing is said, and the stream stays. -/
theorem InOrder.idle (h : InOrder frames fd t p) {e : ConnEvent WsEvent} (he : ¬ Serves fd e)
    (hpending : q.pending = p.pending) (hcuts : q.cuts = p.cuts) :
    InOrder frames fd (t ++ [e]) q := by
  have hcalls : callsFor fd (t ++ [e]) = callsFor fd t := by
    unfold callsFor
    rw [List.countP_append, List.countP_singleton, if_neg (fun h => he (of_decide_eq_true h)),
      Nat.add_zero]
  have hposts : saidBy fd (posts (t ++ [e])) = saidBy fd (posts t) := by
    have hlast : posts [e] = postsAt e := List.flatMap_singleton postsAt e
    rw [posts_append, saidBy_append, hlast, saidBy_postsAt he, List.append_nil]
  exact ⟨by rw [hposts, hcalls]; exact h.said, by rw [hpending, hcalls]; exact h.pending,
    by rw [hcuts, hcalls]; exact h.cuts⟩

/-- A system call that is not about the stream. -/
theorem InOrder.call (h : InOrder frames fd t p) (hpending : q.pending = p.pending)
    (hcuts : q.cuts = p.cuts) : InOrder frames fd t q :=
  ⟨h.said, hpending ▸ h.pending, hcuts ▸ h.cuts⟩

/-- A call of `onmessage` for the client. -/
theorem InOrder.serve (h : InOrder frames fd t p) (server : Server) {client : Client}
    (hfd : client.fd = fd) (status : Option ConnStatus) {out : List WsEvent}
    (hrest : (frames.drop (callsFor fd t) = [] ∧ messagesOf out = [] ∧ q.pending = p.pending) ∨
      ∃ frame, frames[callsFor fd t]? = some frame ∧ messagesOf out = [frame.message] ∧
        q.pending = wireOf (frames.drop (callsFor fd t + 1)) ∧
        q.cuts = fun i => p.cuts (i + 1)) :
    InOrder frames fd (t ++ [.callback .onmessage server client status out]) q := by
  have hcalls : callsFor fd (t ++ [.callback .onmessage server client status out]) =
      callsFor fd t + 1 := by
    have hserves : Serves fd (.callback .onmessage server client status out) := hfd
    unfold callsFor
    rw [List.countP_append, List.countP_singleton, if_pos (decide_eq_true hserves)]
  have hposts : saidBy fd (posts (t ++ [.callback .onmessage server client status out])) =
      saidBy fd (posts t) ++ messagesOf out := by
    have hlast : posts [.callback .onmessage server client status out] =
        (packetsOf out).map (.said client.fd) := List.flatMap_singleton _ _
    rw [posts_append, saidBy_append, hlast, hfd, saidBy_packetsOf]
  obtain ⟨hsaid, hpending, hcuts⟩ := h
  rcases hrest with ⟨hnil, hnone, hsame⟩ | ⟨frame, hframe, hone, htail, hshift⟩
  · -- Everything was said before.
    have hlen : frames.length ≤ callsFor fd t := List.drop_eq_nil_iff.mp hnil
    have hmin : min (callsFor fd t) frames.length = frames.length := Nat.min_eq_right hlen
    have hmin' : min (callsFor fd t + 1) frames.length = frames.length :=
      Nat.min_eq_right (by omega)
    rw [hmin] at hsaid hpending
    refine ⟨?_, ?_, ?_⟩
    · rw [hposts, hcalls, hmin', hsaid, hnone, List.append_nil]
    · rw [hcalls, hmin', hsame, hpending]
    · rw [hcalls, hmin', List.drop_length]
      trivial
  · have hlt : callsFor fd t < frames.length := (List.getElem?_eq_some_iff.mp hframe).1
    have hmin : min (callsFor fd t) frames.length = callsFor fd t := Nat.min_eq_left (by omega)
    have hmin' : min (callsFor fd t + 1) frames.length = callsFor fd t + 1 :=
      Nat.min_eq_left (by omega)
    have hdrop : frames.drop (callsFor fd t) = frame :: frames.drop (callsFor fd t + 1) :=
      List.drop_eq_getElem?_toList_append.trans (by rw [hframe]; rfl)
    rw [hmin] at hsaid hcuts
    refine ⟨?_, ?_, ?_⟩
    · rw [hposts, hcalls, hmin', hsaid, hone, List.take_add_one, hframe, List.map_append]
      rfl
    · rw [hcalls, hmin', htail]
    · rw [hdrop] at hcuts
      rw [hcalls, hmin', hshift]
      exact hcuts.2

end InOrder

/-! ## The game server with the stream of one client -/

theorem wsserver_keepsMessages (sys : Sys ω) : (wsserver sys).KeepsMessages := by
  refine ⟨⟨handlePacket sys, rfl, ?_⟩, ⟨handleMessages sys, rfl⟩⟩
  intro server client packet w hmessage
  refine ⟨client, ?_⟩
  unfold handlePacket
  have hclose : packet.header.opcode ≠ WS_OP_CLOSE := by
    rcases isMessage_iff.mp hmessage with h | h
    · rw [h]
      decide
    · rw [h]
      decide
  have hpong : packet.header.opcode ≠ WS_OP_PONG := by
    rcases isMessage_iff.mp hmessage with h | h
    · rw [h]
      decide
    · rw [h]
      decide
  rw [if_neg hclose, if_neg hpong]
  rfl

theorem wsserver_returns (sys : Sys ω) : (wsserver sys).Returns := by
  refine ⟨?_, ?_⟩
  · intro f hf server client packet w
    cases hf
    obtain ⟨status, client', w', hrun, -⟩ := handlePacket_run sys server client packet w
    exact ⟨(status, client'), by rw [hrun]⟩
  · intro f hf server client packet w
    cases hf
    obtain ⟨w', out, hrun, -⟩ := handleMessages_run sys server client packet w
    exact ⟨client, by rw [hrun]⟩

section OnePeer

variable (sys : Sys ω) (accept_key : List UInt8 → List UInt8) {frames : List ClientFrame}
  {fd : Int}

/-- A call of `onmessage` for the client takes a frame off its stream, if there is one. -/
theorem InOrder.onmessage {t : List (ConnEvent WsEvent)} {p : Peer ω}
    (h : InOrder frames fd t p) (server : Server) {client : Client} (hfd : client.fd = fd)
    (status : Option ConnStatus) :
    InOrder frames fd
      (t ++ [.callback .onmessage server client status (wsHandleMessages (Peer.sys sys fd)
        (wsserver (Peer.sys sys fd)) server client p).out])
      (wsHandleMessages (Peer.sys sys fd) (wsserver (Peer.sys sys fd)) server client p).state := by
  rw [Peer.wsserver_onPeer]
  subst hfd
  cases hframe : frames[callsFor client.fd t]? with
  | none =>
    have hnil : frames.drop (callsFor client.fd t) = [] :=
      List.drop_eq_nil_iff.mpr (List.getElem?_eq_none_iff.mp hframe)
    have hpending : p.pending = [] := by
      rw [h.pending, Nat.min_eq_right (List.getElem?_eq_none_iff.mp hframe), List.drop_length]
      rfl
    obtain ⟨client', hrun⟩ := wsHandleMessages_drained sys (wsserver sys) client server hpending
    rw [hrun]
    exact h.serve server rfl status (.inl ⟨hnil, rfl, rfl⟩)
  | some frame =>
    have hlt : callsFor client.fd t < frames.length := (List.getElem?_eq_some_iff.mp hframe).1
    have hmin : min (callsFor client.fd t) frames.length = callsFor client.fd t :=
      Nat.min_eq_left (by omega)
    have hdrop : frames.drop (callsFor client.fd t) =
        frame :: frames.drop (callsFor client.fd t + 1) :=
      List.drop_eq_getElem?_toList_append.trans (by rw [hframe]; rfl)
    have hpending := h.pending
    have hcuts := h.cuts
    rw [hmin, hdrop] at hpending hcuts
    obtain ⟨hfit, -⟩ := hcuts
    rw [← hpending] at hfit
    have hwire : p.pending = frame.wire ++ wireOf (frames.drop (callsFor client.fd t + 1)) :=
      hpending.trans List.flatMap_cons
    obtain ⟨client', w', out, hrun, hout⟩ := wsHandleMessages_frame sys client
      (wsserver_keepsMessages sys) (wsserver_returns sys) server hwire hfit.1 hfit.2
    rw [hrun]
    exact h.serve server rfl status (.inr ⟨frame, hframe, hout, rfl, rfl⟩)

/-- A program that runs aside. -/
theorem InOrder.aside {ε α : Type} {t : List (ConnEvent WsEvent)} {p : Peer ω}
    (h : InOrder frames fd t p) {e : ConnEvent WsEvent} (he : ¬ Serves fd e)
    (m : Proc Halt ω ε α) : InOrder frames fd (t ++ [e]) (Peer.aside m p).state := by
  rw [Peer.aside_run]
  exact h.idle he rfl rfl

/-- **One step of the server.**  As long as its socket is not connected again, the client is
served in order. -/
theorem keepsWorld_inOrder :
    KeepsWorld (Peer.sys sys fd) (skserver (Peer.sys sys fd) accept_key)
      (fun t p => (∀ e ∈ t, ¬ Connects fd e) → InOrder frames fd t p) where
  emit := by
    intro t p e he h hno
    have hserves : ¬ Serves fd e := by
      intro hserves
      cases e with
      | callback kind server client status out => exact he
      | accepted fd' => exact hserves
      | registered fd' => exact hserves
      | closed fd' => exact hserves
      | deleted fd' => exact hserves
    exact (h fun e' he' => hno e' (List.mem_append_left _ he')).idle hserves rfl rfl
  clock h hno := (h hno).call rfl rfl
  poll _ h hno := (h hno).call rfl rfl
  accept _ h hno := (h hno).call rfl rfl
  close _ h hno := (h hno).call rfl rfl
  peek := by
    intro t p fd' h hno
    by_cases hfd : fd' = fd
    · have hstate : ((Peer.sys sys fd).received fd' 1 .peek p).2 = p := by
        unfold Sys.received Peer.sys Peer.recv
        simp only [if_pos hfd]
        split <;> rfl
      rw [hstate]
      exact h hno
    · rw [Peer.received_eq sys fd hfd]
      exact (h hno).call rfl rfl
  call := by
    intro kind f hf server client t p h hno
    have hbefore := h fun e he => hno e (List.mem_append_left _ he)
    cases kind with
    | onconnect =>
      cases hf
      have hfd : client.fd ≠ fd := hno _ (List.mem_append_right _ List.mem_cons_self)
      rw [Peer.wsHandleConnection_aside sys fd accept_key server hfd]
      exact hbefore.aside id _
    | ondisconnect => cases hf
    | onping =>
      cases hf
      have haside : Proc.mapOut WsEvent.net (wsHandlePing (Peer.sys sys fd) client) =
          Peer.aside (Proc.mapOut WsEvent.net (wsHandlePing sys client)) := by
        rw [Peer.aside_mapOut, Peer.wsHandlePing_aside]
      dsimp only
      rw [haside]
      exact hbefore.aside id _
    | onmessage =>
      cases hf
      by_cases hfd : client.fd = fd
      · exact hbefore.onmessage sys server hfd _
      · rw [Peer.wsHandleMessages_aside sys fd server hfd]
        exact hbefore.aside (e := .callback .onmessage server client _ _) hfd _
  notify := by
    intro f hf server client t p h hno
    cases hf
    have hbefore := h fun e he => hno e (List.mem_append_left _ he)
    have haside : Proc.mapOut WsEvent.net (handleDisconnect (Peer.sys sys fd) server client) =
        Peer.aside (Proc.mapOut WsEvent.net (handleDisconnect sys server client)) := by
      rw [Peer.aside_mapOut, Peer.handleDisconnect_aside]
    dsimp only
    rw [haside]
    exact hbefore.aside id _

/-- **Every run.**  A client that wrote `frames` says them one after the other. -/
theorem serve_inOrder {m : Machine (Peer ω)} (hpending : m.world.pending = wireOf frames)
    (hcuts : CutsFit frames m.world.cuts) {n : Nat}
    (hno : ∀ e ∈ (serve (Peer.sys sys fd) (skserver (Peer.sys sys fd) accept_key) n m).out,
      ¬ Connects fd e) :
    InOrder frames fd (serve (Peer.sys sys fd) (skserver (Peer.sys sys fd) accept_key) n m).out
      (serve (Peer.sys sys fd) (skserver (Peer.sys sys fd) accept_key) n m).state.world := by
  refine (serve_keepsWorld (keepsWorld_inOrder sys accept_key) n).run ?_ hno
  exact fun _ => ⟨rfl, hpending, hcuts⟩

end OnePeer

/-! ## From one client to the others -/

/-- **The relay**, over a part of a run with the trace `t`, that ends in `m`.  The client has
said its frames one after the other, one for each call of `onmessage`, and what is left of its
stream starts with the next one.  Everybody who was registered before and stays, and whose
socket takes what it is given, reads frame by frame the posts of the run, these messages among
them. -/
structure Relayed (frames : List ClientFrame) (fd : Int) (t : List (ConnEvent WsEvent))
    (m : Machine (Peer ω)) : Prop where
  said : saidBy fd (posts t) =
    (frames.take (min (callsFor fd t) frames.length)).map ClientFrame.message
  pending : m.world.pending = wireOf (frames.drop (min (callsFor fd t) frames.length))
  heard : ∀ listener ∈ m.server.fds, .registered listener ∉ t → TakesAll listener (sentIn t) →
    ∃ heard, records readFrame (streamTo listener (sentIn t)) = some heard ∧
      heard.filter (·.opcode ≠ WS_OP_PING) = (posts t).map fun post => post.packet.sent

/-- Every run of the game server, from a moment on at which the client's stream is a list of
frames that the reads to come are in step with; as long as its descriptor is not connected
again. -/
theorem serve_relayed (sys : Sys ω) (accept_key : List UInt8 → List UInt8)
    {config : ServerConfig} (hmax : 1 ≤ config.max_connections) {fd : Int}
    {m₀ m m₁ : Machine (Peer ω)} {out t₁ : List (ConnEvent WsEvent)}
    (hinit : conInitServer (Peer.sys sys fd) config m₀ = ⟨.ok 0, m, out⟩) {n₁ : Nat}
    (hbefore : serve (Peer.sys sys fd) (skserver (Peer.sys sys fd) accept_key) n₁ m =
      ⟨.ok (), m₁, t₁⟩)
    {frames : List ClientFrame} (hpending : m₁.world.pending = wireOf frames)
    (hcuts : CutsFit frames m₁.world.cuts) {n₂ : Nat}
    (hfresh : AcceptsFresh (t₁ ++
      (serve (Peer.sys sys fd) (skserver (Peer.sys sys fd) accept_key) n₂ m₁).out))
    (hno : ∀ e ∈ (serve (Peer.sys sys fd) (skserver (Peer.sys sys fd) accept_key) n₂ m₁).out,
      ¬ Connects fd e) :
    Relayed frames fd
      (serve (Peer.sys sys fd) (skserver (Peer.sys sys fd) accept_key) n₂ m₁).out
      (serve (Peer.sys sys fd) (skserver (Peer.sys sys fd) accept_key) n₂ m₁).state := by
  obtain ⟨hsaid, hrest, -⟩ := serve_inOrder sys accept_key hpending hcuts hno
  refine ⟨hsaid, hrest, ?_⟩
  -- Both parts of the run are one run.
  obtain ⟨-, hs, hempty, -⟩ := conInitServer_ok _ hmax hinit
  have hrun : serve (Peer.sys sys fd) (skserver (Peer.sys sys fd) accept_key) (n₁ + n₂) m =
      ⟨_, _, _⟩ := Proc.times_add_run hbefore n₂
  obtain ⟨hend, hcalls⟩ := serve_tenure (Peer.sys sys fd)
    (skserver (Peer.sys sys fd) accept_key) hs hempty (n₁ + n₂)
  have honce (h : AcceptsFresh (serve (Peer.sys sys fd) (skserver (Peer.sys sys fd) accept_key)
      (n₁ + n₂) m).out) :=
    serve_once (Peer.sys sys fd) (skserver_neverRetries (Peer.sys sys fd) accept_key) hs hempty h
  rw [hrun] at hend hcalls honce
  intro listener hstays hregistered hall
  have hproper := each_proper hcalls
  exact hears_of_registered (each_hears hcalls (honce hfresh))
    (fun e he => hproper e (List.mem_append_right _ he)) (hend.mem_iff.mpr hstays) hregistered hall

/-- The stream of a client that asks to be let in and then says one byte, and a second client. -/
def asksAndTalks : Peer Script where
  pending := handshakeRequest ++ wireOf [oneByteText 0x68]
  cuts := fun i => if i = 0 then handshakeRequest.length else 7
  rest :=
    { polls := [(1, [POLLIN]), (1, [POLLIN]), (1, [0#16, POLLIN])]
      accepts := [4, 5]
      recvs := [some handshakeRequest, none, none] }

/-- The game server with it: initialised, and after both clients were let in. -/
def asksServer : Callbacks (Peer Script) WsEvent :=
  skserver (Peer.sys Script.sys 4) fun _ => handshakeAcceptKey

def asksStart : Result Halt (Machine (Peer Script)) (ConnEvent WsEvent) Int :=
  conInitServer (Peer.sys Script.sys 4) threeSlots ⟨Server.blank, asksAndTalks⟩

def asksFirst : Result Halt (Machine (Peer Script)) (ConnEvent WsEvent) Unit :=
  serve (Peer.sys Script.sys 4) asksServer 2 asksStart.state

/-- Both clients read the text. -/
theorem serve_relayed_two_clients :
    let r := serve (Peer.sys Script.sys 4) asksServer 1 asksFirst.state
    Relayed [oneByteText 0x68] 4 r.out r.state ∧ r.state.server.fds = [4, 5] ∧
      callsFor 4 r.out = 1 := by
  have hinit : asksStart = ⟨.ok 0, asksStart.state, asksStart.out⟩ :=
    Result.eq_ok (by decide +kernel)
  have hfirst : asksFirst = ⟨.ok (), asksFirst.state, asksFirst.out⟩ :=
    Result.eq_ok (by decide +kernel)
  have hcuts : CutsFit [oneByteText 0x68] asksFirst.state.world.cuts :=
    ⟨by decide +kernel, trivial⟩
  refine ⟨serve_relayed Script.sys _ one_le_threeSlots hinit hfirst ?_ hcuts ?_ ?_, ?_⟩
  · decide +kernel
  · decide +kernel
  · decide +kernel
  · decide +kernel

end NoGround
