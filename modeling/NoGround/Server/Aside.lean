/-
  Server/Aside.lean --- the game server in a world with one client's stream.

  `Peer.sys` is a system in which one socket has a stream of its own, and everything else is
  arbitrary.  A program that makes no read of that socket is the program of the rest of the
  world, run aside (`Peer.aside`): it leaves the stream alone, and the stream does not change
  what it does.  Shown here for each function of the server, from the sends up to the callbacks.
-/
import NoGround.Server.Handlers
import NoGround.Ws.Framing

set_option autoImplicit false

namespace NoGround

open NoGround.Lib

variable {ω : Type}

/-! ## Programs that leave the stream alone -/

namespace Peer

section Aside

variable {ε ε' α β : Type}

theorem aside_run (m : Proc Halt ω ε α) (p : Peer ω) :
    aside m p = ⟨(m p.rest).outcome, { p with rest := (m p.rest).state }, (m p.rest).out⟩ := by
  rcases hm : m p.rest with ⟨r, w, out⟩
  unfold aside Proc.zoom
  simp [hm]

theorem aside_emit (e : ε) : aside (Proc.emit e : Proc Halt ω ε Unit) = Proc.emit e := rfl

theorem aside_ofExcept (x : Except Halt α) :
    aside (Proc.ofExcept x : Proc Halt ω ε α) = Proc.ofExcept x := by
  cases x <;> rfl

theorem aside_bind (m : Proc Halt ω ε α) (f : α → Proc Halt ω ε β) :
    aside (m >>= f) = aside m >>= fun a => aside (f a) := by
  funext p
  rcases hm : m p.rest with ⟨r, w, out⟩
  have haside : aside m p = ⟨r, { p with rest := w }, out⟩ := by rw [aside_run, hm]
  cases r with
  | error e => rw [aside_run, Proc.bind_run_error hm, Proc.bind_run_error haside]
  | ok a => rw [aside_run, Proc.bind_run_ok hm, Proc.bind_run_ok haside, aside_run]

theorem aside_ite {c : Prop} [Decidable c] (m₁ m₂ : Proc Halt ω ε α) :
    aside (if c then m₁ else m₂) = if c then aside m₁ else aside m₂ := by
  split <;> rfl

theorem aside_mapOut (f : ε' → ε) (m : Proc Halt ω ε' α) :
    aside (Proc.mapOut f m) = Proc.mapOut f (aside m) := by
  funext p
  rw [aside_run, Proc.mapOut_run, Proc.mapOut_run, aside_run]

end Aside

section Sys

variable (sys : Sys ω) (fd : Int)

theorem received_eq {fd' : Int} (h : fd' ≠ fd) (n : Nat) (flag : RecvFlag) :
    (Peer.sys sys fd).received fd' n flag = call (sys.received fd' n flag) := by
  funext p
  unfold Sys.received Peer.sys
  simp only [if_neg h]
  rfl

/-! ## The functions of the server -/

theorem conSendMessage_aside (fd' : Int) (message : List UInt8) :
    conSendMessage (Peer.sys sys fd) fd' message = aside (conSendMessage sys fd' message) := by
  unfold conSendMessage sendTraced
  simp only [aside_bind, aside_ite]
  rfl

theorem wsSendPacket_aside (client : Client) (packet : WSPacket) :
    wsSendPacket (Peer.sys sys fd) client packet = aside (wsSendPacket sys client packet) := by
  unfold wsSendPacket sendFrame
  rw [aside_bind, aside_emit, aside_bind, ← conSendMessage_aside]
  congr 1
  funext _
  congr 1
  funext r
  rw [aside_ite, aside_bind, ← conSendMessage_aside]
  rfl

theorem sendToEach_aside (packet : WSPacket) (clients : List Client) :
    sendToEach (Peer.sys sys fd) packet clients = aside (sendToEach sys packet clients) := by
  induction clients with
  | nil => rfl
  | cons client clients ih =>
    rw [sendToEach, sendToEach, aside_bind, ← wsSendPacket_aside]
    congr 1
    funext err
    rw [aside_bind, ← ih]
    rfl

theorem wsSendToAll_aside (bserver : Option Server) (packet : WSPacket) :
    wsSendToAll (Peer.sys sys fd) bserver packet = aside (wsSendToAll sys bserver packet) := by
  cases bserver with
  | none => rfl
  | some bserver =>
    unfold wsSendToAll
    rw [aside_bind, ← sendToEach_aside]
    rfl

theorem wsHandlePing_aside (client : Client) :
    wsHandlePing (Peer.sys sys fd) client = aside (wsHandlePing sys client) := by
  unfold wsHandlePing sendTraced
  rw [aside_bind, aside_bind, aside_bind]
  congr 1
  funext _
  congr 1
  funext err
  rw [aside_ite, aside_bind]
  rfl

theorem handleMessages_aside (server : Server) (client : Client) (packet : WSPacket) :
    handleMessages (Peer.sys sys fd) server client packet =
      aside (handleMessages sys server client packet) := by
  unfold handleMessages
  rw [aside_ite, aside_bind, ← wsSendToAll_aside]
  rfl

theorem handleNewConnection_aside (server : Server) (client : Client) :
    handleNewConnection (Peer.sys sys fd) server client =
      aside (handleNewConnection sys server client) := by
  unfold handleNewConnection
  dsimp only
  rw [aside_bind, ← wsSendToAll_aside]
  rfl

theorem handleDisconnect_aside (server : Server) (client : Client) :
    handleDisconnect (Peer.sys sys fd) server client =
      aside (handleDisconnect sys server client) := by
  unfold handleDisconnect
  dsimp only
  rw [aside_bind, ← wsSendToAll_aside]
  rfl

theorem handlePacket_aside (server : Server) (client : Client) (packet : WSPacket) :
    handlePacket (Peer.sys sys fd) server client packet =
      aside (handlePacket sys server client packet) := by
  unfold handlePacket
  rw [aside_ite, aside_ite, aside_bind]
  rfl

/-- The game server in the world of a peer is the game server aside. -/
theorem wsserver_onPeer : wsserver (Peer.sys sys fd) = (wsserver sys).onPeer := by
  unfold wsserver WSServer.onPeer
  congr 2
  · funext server client
    exact handleNewConnection_aside sys fd server client
  · funext server client packet
    exact handleMessages_aside sys fd server client packet
  · funext server client packet
    exact handlePacket_aside sys fd server client packet

/-! ## Receiving from somebody else -/

section Receive

variable {client : Client}

theorem wsHandshake_aside (accept_key : List UInt8 → List UInt8) (h : client.fd ≠ fd) :
    wsHandshake (Peer.sys sys fd) accept_key client =
      aside (wsHandshake sys accept_key client) := by
  unfold wsHandshake
  rw [received_eq sys fd h]
  simp only [aside_bind, aside_ite, aside_ofExcept]
  rfl

theorem wsHandleConnection_aside (accept_key : List UInt8 → List UInt8) (server : Server)
    (h : client.fd ≠ fd) :
    wsHandleConnection (Peer.sys sys fd) accept_key (wsserver (Peer.sys sys fd)) server client =
      aside (wsHandleConnection sys accept_key (wsserver sys) server client) := by
  unfold wsHandleConnection
  rw [aside_bind, ← wsHandshake_aside sys fd accept_key h]
  congr 1
  funext a
  obtain ⟨handshake_ok, client₁⟩ := a
  dsimp only
  rw [aside_ite]
  congr 1
  show Proc.mapOut _ (handleNewConnection (Peer.sys sys fd) server client₁) =
    aside (Proc.mapOut _ (handleNewConnection sys server client₁))
  rw [aside_mapOut, handleNewConnection_aside]

theorem readPayload_aside {ε : Type} (buffer : Nat → UInt8) (size : Nat) (head : FrameHead)
    (packet : WSPacket) :
    (readPayload (Peer.sys sys fd) buffer size head packet : Proc Halt (Peer ω) ε WSPacket) =
      aside (readPayload sys buffer size head packet) := by
  unfold readPayload
  rw [aside_ite, aside_bind]
  congr 2
  funext heap
  dsimp only
  rw [aside_ite]
  congr 1
  cases Block.each 0 _ (toSize (head.len size)) 0 ⟨head.length, heap⟩ <;> rfl

theorem wsReadPacket_aside {ε : Type} (buffer : Nat → UInt8) (size : Nat) (packet : WSPacket) :
    (wsReadPacket (Peer.sys sys fd) buffer size packet :
      Proc Halt (Peer ω) ε (Option WSPacket)) = aside (wsReadPacket sys buffer size packet) := by
  unfold wsReadPacket
  rw [aside_ite]
  congr 1
  cases readHead buffer with
  | none => rfl
  | some head =>
    dsimp only
    rw [aside_bind, ← readPayload_aside]
    rfl

theorem pullRemaining_aside (h : client.fd ≠ fd) (packet : WSPacket) (remain_len : Nat) :
    pullRemaining (Peer.sys sys fd) client.fd packet remain_len =
      aside (pullRemaining sys client.fd packet remain_len) := by
  unfold pullRemaining
  rw [received_eq sys fd h]
  simp only [aside_bind, aside_ite, aside_ofExcept]
  rfl

theorem receivePacket_aside (h : client.fd ≠ fd) (bytes_read : Nat) :
    receivePacket (Peer.sys sys fd) client bytes_read =
      aside (receivePacket sys client bytes_read) := by
  unfold receivePacket
  rw [aside_bind, ← wsReadPacket_aside]
  congr 1
  funext packet
  cases packet with
  | none => rfl
  | some packet =>
    dsimp only
    unfold completePacket
    rw [aside_ite, aside_ite, ← pullRemaining_aside sys fd h]
    rfl

theorem receiveFrame_aside (h : client.fd ≠ fd) :
    receiveFrame (Peer.sys sys fd) client = aside (receiveFrame sys client) := by
  unfold receiveFrame firstRead
  rw [received_eq sys fd h]
  rw [aside_bind, aside_bind]
  congr 1
  · congr 1
    funext r
    rw [aside_bind]
    congr 1
    unfold Proc.when
    rw [aside_ite]
    rfl
  · funext r
    have hfilled : (client.fillBuffer (r.bytes.getD [])).fd ≠ fd := h
    dsimp only
    rw [aside_ite, aside_bind, ← receivePacket_aside sys fd hfilled]
    congr 2
    funext packet
    cases packet <;> rfl

theorem wsHandleMessages_aside (server : Server) (h : client.fd ≠ fd) :
    wsHandleMessages (Peer.sys sys fd) (wsserver (Peer.sys sys fd)) server client =
      aside (wsHandleMessages sys (wsserver sys) server client) := by
  unfold wsHandleMessages
  rw [aside_bind, ← receiveFrame_aside sys fd h]
  congr 1
  funext a
  obtain ⟨received, client⟩ := a
  cases received with
  | error status => rfl
  | ok packet =>
    show dispatchPacket (wsserver (Peer.sys sys fd)) server client packet =
      aside (dispatchPacket (wsserver sys) server client packet)
    unfold dispatchPacket
    show (Proc.mapOut _ (handlePacket (Peer.sys sys fd) server client packet) >>= _) =
      aside (Proc.mapOut _ (handlePacket sys server client packet) >>= _)
    rw [aside_bind, aside_mapOut, ← handlePacket_aside]
    congr 1
    funext b
    obtain ⟨status, client₁⟩ := b
    dsimp only
    rw [aside_ite, aside_bind]
    congr 2
    show (Proc.emit (WsEvent.delivered packet) >>= fun _ =>
        Proc.mapOut WsEvent.net (handleMessages (Peer.sys sys fd) server client₁ packet)) =
      aside (Proc.emit (WsEvent.delivered packet) >>= fun _ =>
        Proc.mapOut WsEvent.net (handleMessages sys server client₁ packet))
    rw [aside_bind, aside_mapOut, ← handleMessages_aside]
    rfl

end Receive

end Sys

end Peer

end NoGround
