/-
  Server/Posts.lean --- what the clients of the game server hear.

  Abstractly the server is a room: somebody joins, says something, or leaves, and everybody
  in the room hears of it (`Post`).  The code does this with bytes on sockets.  A client that
  reads its stream frame by frame, with the header reader of the repository, finds the posts
  of the run since it was registered, each once, in their order, as they were posted; and
  between them nothing but pings.
-/
import NoGround.Lib.Stream
import NoGround.Server.Reserved
import NoGround.Ws.RoundTrip

set_option autoImplicit false

namespace NoGround

open NoGround.Lib

variable {ω : Type}

/-! ## Frames of the server -/

/-- A frame the server writes: a whole message under no mask. -/
structure ServerFrame where
  opcode : BitVec 4
  RSV : BitVec 3
  data : List UInt8
  deriving DecidableEq

/-- The bytes of it. -/
def ServerFrame.wire (frame : ServerFrame) : List UInt8 :=
  ({ opcode := frame.opcode
     RSV := frame.RSV
     FIN := 1#1
     length := (encodeLength frame.data.length).1
     mask := 0#1 } : WSFrameHeader).toBytes ++ (encodeLength frame.data.length).2 ++ frame.data

/-- Take one frame of the server off a stream. -/
def readFrame (bytes : List UInt8) : Option (ServerFrame × List UInt8) :=
  match readHead (bufferOf bytes) with
  | none => none
  | some head =>
      if head.header.mask = 1#1 ∨ head.header.FIN = 0#1 ∨
          bytes.length < head.offset + head.length then none
      else some (⟨head.header.opcode, head.header.RSV, (bytes.drop head.offset).take head.length⟩,
        bytes.drop (head.offset + head.length))

/-- The frame `wsSendPacket` writes for a packet. -/
def WSPacket.sent (packet : WSPacket) : ServerFrame :=
  ⟨packet.header.opcode, packet.header.RSV, packet.data⟩

/-- The packet carries as many bytes as it says, and not too many. -/
structure WSPacket.Whole (packet : WSPacket) : Prop where
  data : packet.data.length = packet.length
  length_le : packet.length ≤ MAX_WS_PACKET_LENGTH

theorem WSPacket.frame_eq_wire {packet : WSPacket} (h : packet.data.length = packet.length) :
    packet.frame = packet.sent.wire := by
  unfold WSPacket.frame WSPacket.headerBytes ServerFrame.wire WSPacket.sent
  rw [h]

/-- The head of a frame, in the wire format. -/
def ServerFrame.head (frame : ServerFrame) (h : frame.data.length < 2 ^ 32) : WireHead where
  opcode := frame.opcode
  RSV := frame.RSV
  FIN := 1#1
  form := sentForm frame.data.length
  length := frame.data.length
  key := none
  fits := sentForm_fits h

theorem ServerFrame.wire_eq (frame : ServerFrame) (h : frame.data.length < 2 ^ 32) :
    frame.wire = (frame.head h).wire ++ frame.data := by
  unfold ServerFrame.wire ServerFrame.head WireHead.wire WireHead.header
  rw [encodeLength_eq]
  simp

/-- What is written for a frame is read as that frame, whatever comes behind it. -/
theorem ServerFrame.delimits (frame : ServerFrame)
    (hmax : frame.data.length ≤ MAX_WS_PACKET_LENGTH) :
    Delimits readFrame ServerFrame.wire frame := by
  have hlimit : MAX_WS_PACKET_LENGTH = 52428800 := rfl
  have hlt : frame.data.length < 2 ^ 32 := by omega
  have hlen := (frame.head hlt).length_wire
  refine ⟨?_, ?_⟩
  · intro hnil
    rw [frame.wire_eq hlt] at hnil
    rw [(List.append_eq_nil_iff.mp hnil).1, List.length_nil] at hlen
    omega
  · intro rest
    have hread := (frame.head hlt).readHead_eq (bufferOf (frame.wire ++ rest)) (by
      intro i hi
      rw [frame.wire_eq hlt, List.append_assoc, bufferOf_append hi])
    rw [if_pos (show (frame.head hlt).length ≤ MAX_WS_PACKET_LENGTH from hmax)] at hread
    have hfits : ¬ ((frame.head hlt).header.mask = 1#1 ∨ (frame.head hlt).header.FIN = 0#1 ∨
        (frame.wire ++ rest).length < (frame.head hlt).wire.length + frame.data.length) := by
      rintro (h | h | h)
      · exact absurd h (show ¬ (0#1 : BitVec 1) = 1#1 by decide)
      · exact absurd h (show ¬ (1#1 : BitVec 1) = 0#1 by decide)
      · rw [frame.wire_eq hlt, List.length_append, List.length_append] at h
        omega
    unfold readFrame
    rw [hread]
    refine (if_neg hfits).trans ?_
    have hsplit : frame.wire ++ rest = (frame.head hlt).wire ++ (frame.data ++ rest) := by
      rw [frame.wire_eq hlt, List.append_assoc]
    show some ((⟨frame.opcode, frame.RSV, ((frame.wire ++ rest).drop
        (frame.head hlt).wire.length).take frame.data.length⟩ : ServerFrame),
      (frame.wire ++ rest).drop ((frame.head hlt).wire.length + frame.data.length)) = _
    rw [hsplit, ← List.drop_drop, List.drop_left, List.take_left, List.drop_left]

/-! ## Posts -/

/-- What everybody in the room hears of. -/
inductive Post where
  | joined (client : Client)
  | said (fd : Int) (packet : WSPacket)
  | left (client : Client)

/-- The packet it is broadcast in. -/
def Post.packet : Post → WSPacket
  | .joined client => noticePacket (noticeText "New client connected: " client)
  | .said _ packet => packet
  | .left client => noticePacket (noticeText "Client disconected: " client)

/-- The packets handed to `onmessage`. -/
def packetsOf : List WsEvent → List WSPacket
  | [] => []
  | .delivered packet :: t => packet :: packetsOf t
  | .received _ :: t => packetsOf t
  | .handshake _ _ _ :: t => packetsOf t
  | .net _ :: t => packetsOf t

/-- What is posted at one event: a client that was let in, a message, a client that goes. -/
def postsAt : ConnEvent WsEvent → List Post
  | .callback .onconnect _ client (some .keepAlive) _ => [.joined client]
  | .callback .onmessage _ client _ out => (packetsOf out).map (.said client.fd)
  | .callback .ondisconnect _ client _ _ => [.left client]
  | _ => []

/-- What is posted in a run. -/
def posts (t : List (ConnEvent WsEvent)) : List Post := t.flatMap postsAt

/-- A text or a binary message, whole. -/
structure Post.Proper (post : Post) : Prop where
  whole : post.packet.Whole
  message : post.packet.isMessage = true

/-- A number of `k` digits. -/
theorem length_decimal_le {n k : Nat} (hk : 0 < k) (hn : n < 10 ^ k) :
    (decimal n).length ≤ k := by
  unfold decimal ascii
  rw [List.length_map, String.length_toList]
  exact (Nat.length_repr_le_iff hk).mpr hn

/-- A notice has at most 45 characters, so `snprintf` cuts nothing off. -/
theorem length_noticeText_le {notice : String} (hnotice : (ascii notice).length ≤ 22)
    (client : Client) : (noticeText notice client).length ≤ 45 := by
  have hbyte : ∀ b : UInt8, (decimal b.toNat).length ≤ 3 := fun b =>
    length_decimal_le (by decide) (Nat.lt_trans b.toNat_lt (by decide))
  have hport : (decimal (htons client.addr.sin_port).toNat).length ≤ 5 :=
    length_decimal_le (by decide) (Nat.lt_trans (UInt16.toNat_lt _) (by decide))
  have h₁ := hbyte client.addr.sin_addr.1
  have h₂ := hbyte client.addr.sin_addr.2.1
  have h₃ := hbyte client.addr.sin_addr.2.2.1
  have h₄ := hbyte client.addr.sin_addr.2.2.2
  have hdot : (ascii ".").length = 1 := by decide
  have hcolon : (ascii ": ").length = 2 := by decide
  have hline : (ascii "\n").length = 1 := by decide
  unfold noticeText inet_ntoa
  simp only [List.length_append]
  omega

theorem proper_notice (notice : String) (hnotice : (ascii notice).length ≤ 22)
    (client : Client) :
    (noticePacket (noticeText notice client)).Whole ∧
      (noticePacket (noticeText notice client)).isMessage = true := by
  have hlimit : MAX_WS_PACKET_LENGTH = 52428800 := rfl
  have hlen := length_noticeText_le hnotice client
  refine ⟨⟨?_, ?_⟩, rfl⟩
  · show ((Block.ofBytes _).bytes _).length = _
    exact Block.length_bytes _ _
  · show (noticeText notice client).length ≤ MAX_WS_PACKET_LENGTH
    omega

/-! ## What a callback posts -/

/-- Nothing is posted and nothing sent, or one post is, and is broadcast. -/
def Announces (sys : Sys ω) (server : Server) (ps : List Post) (t : List NetEvent) : Prop :=
  ps = [] ∧ t = [] ∨
    ∃ post w, ps = [post] ∧ post.Proper ∧ t = (wsSendToAll sys (some server) post.packet w).out

theorem packetsOf_append (t u : List WsEvent) :
    packetsOf (t ++ u) = packetsOf t ++ packetsOf u := by
  induction t with
  | nil => rfl
  | cons e t ih =>
    cases e with
    | delivered packet => exact congrArg (packet :: ·) ih
    | received bytes => exact ih
    | handshake fd response accepted => exact ih
    | net e => exact ih

theorem packetsOf_map_net (t : List NetEvent) : packetsOf (t.map .net) = [] := by
  induction t with
  | nil => rfl
  | cons e t ih => exact ih

section Callbacks

variable (sys : Sys ω) (accept_key : List UInt8 → List UInt8)

/-- A handshake leaves the address in the record. -/
theorem wsHandshake_addr (client : Client) :
    Proc.Triple (fun _ _ => True) (wsHandshake sys accept_key client)
      (fun a _ _ => a.2.addr = client.addr) (fun _ _ _ => True) := by
  unfold wsHandshake
  apply Proc.Triple.bind (Q := fun _ _ _ => True) (Proc.Triple.step fun _ _ _ => trivial)
  intro r
  apply Proc.Triple.ite
  · exact fun _ => Proc.Triple.pure fun _ _ _ => rfl
  intro _
  apply Proc.Triple.ite
  · exact fun _ => Proc.Triple.pure fun _ _ _ => rfl
  intro _
  apply Proc.Triple.bind (Q := fun _ _ _ => True)
  · intro t w _
    unfold Proc.Post
    split <;> trivial
  intro found
  apply Proc.Triple.ite
  · intro _
    apply Proc.Triple.bind (Q := fun _ _ _ => True)
    · intro t w _
      unfold Proc.Post
      split <;> trivial
    intro len
    apply Proc.Triple.bind (Q := fun _ _ _ => True) (Proc.Triple.step fun _ _ _ => trivial)
    intro sent
    apply Proc.Triple.bind (Q := fun _ _ _ => True) (Proc.Triple.emit fun _ _ _ => trivial)
    exact fun _ => Proc.Triple.pure fun _ _ _ => rfl
  · exact fun _ => Proc.Triple.pure fun _ _ _ => rfl

/-- A client that is let in is announced. -/
theorem wsHandleConnection_announces (server : Server) (client : Client) (w : ω) :
    Announces sys server
      (postsAt (.callback .onconnect server client
        (answered (wsHandleConnection sys accept_key (wsserver sys) server client w).outcome)
        (wsHandleConnection sys accept_key (wsserver sys) server client w).out))
      (netEvents (wsHandleConnection sys accept_key (wsserver sys) server client w).out) := by
  have hsilent := wsHandshake_netEvents sys accept_key client w
  have haddr := wsHandshake_addr sys accept_key client
  unfold wsHandleConnection
  rcases hrun : wsHandshake sys accept_key client w with ⟨r, w₁, out₁⟩
  rw [hrun] at hsilent
  cases r with
  | error e =>
    rw [Proc.bind_run_error hrun, hsilent]
    exact .inl ⟨rfl, rfl⟩
  | ok a =>
    obtain ⟨handshake_ok, client₁⟩ := a
    have hclient : client₁.addr = client.addr := haddr.ok (t := []) trivial hrun
    have htext : noticeText "New client connected: " client₁ =
        noticeText "New client connected: " client := by
      unfold noticeText
      rw [hclient]
    rw [Proc.bind_run_ok hrun]
    by_cases hok : handshake_ok = .keepAlive
    · obtain ⟨r, w₂, out₂, hall, -⟩ := wsSendToAll_relaysTo sys server
        (noticePacket (noticeText "New client connected: " client₁)) w₁
      have hnew : handleNewConnection sys server client₁ w₁ =
          ⟨.ok (.keepAlive, client₁), w₂, out₂⟩ := by
        unfold handleNewConnection
        simp only [Proc.bind_run_ok hall, Proc.pure_run, List.append_nil]
      simp only [if_pos hok, wsserver, Proc.mapOut_run, hnew, netEvents_append, hsilent,
        netEvents_map_net, List.nil_append]
      obtain ⟨hwhole, hmessage⟩ := proper_notice "New client connected: " (by decide) client
      refine .inr ⟨.joined client, w₁, rfl, ⟨hwhole, hmessage⟩, ?_⟩
      show out₂ = (wsSendToAll sys (some server)
        (noticePacket (noticeText "New client connected: " client)) w₁).out
      rw [← htext, hall]
    · simp only [if_neg hok, Proc.pure_run, List.append_nil, hsilent]
      exact .inl ⟨rfl, rfl⟩

/-- A client that goes is announced. -/
theorem handleDisconnect_announces (server : Server) (client : Client) (w : ω) :
    Announces sys server [.left client] (handleDisconnect sys server client w).out := by
  obtain ⟨r, w', out, hrun, -⟩ := wsSendToAll_relaysTo sys server
    (noticePacket (noticeText "Client disconected: " client)) w
  obtain ⟨hwhole, hmessage⟩ := proper_notice "Client disconected: " (by decide) client
  refine .inr ⟨.left client, w, rfl, ⟨hwhole, hmessage⟩, ?_⟩
  show (handleDisconnect sys server client w).out = (wsSendToAll sys (some server)
    (noticePacket (noticeText "Client disconected: " client)) w).out
  unfold handleDisconnect
  simp only [Proc.bind_run_ok hrun, Proc.pure_run, List.append_nil, hrun]

/-! ## What is received -/

/-- A packet that is received carries what its head declares. -/
theorem receivePacket_whole {client : Client} {bytes : List UInt8} {w : ω} {packet : WSPacket}
    (hk : bytes.length ≤ WS_MAX_HEADER_LEN)
    (h : (receivePacket sys (client.fillBuffer bytes) bytes.length w).outcome =
      .ok (some packet)) :
    packet.Whole := by
  have hfirst (head : FrameHead) (heap : Nat → UInt8) :
      (firstPacket head bytes heap).data.length = head.length := by
    unfold WSPacket.data firstPacket FrameHead.packet
    by_cases hlength : head.length = 0
    · rw [if_pos hlength, hlength]
      rfl
    · rw [if_neg hlength]
      exact Block.length_bytes _ _
  have hsurvives : Survives bytes := by
    by_contra hstop
    obtain ⟨e, w', hrun, -⟩ := receivePacket_error sys client hk hstop w
    rw [hrun] at h
    cases h
  obtain ⟨hin, hun⟩ := hsurvives
  cases hhead : headOf bytes with
  | none =>
    rw [receivePacket_none sys client hhead w] at h
    cases h
  | some head =>
    simp only [PayloadOverrun, UnsupportedFrame, hhead] at hin hun
    have hle := readHead_length (readHead_of_headOf hhead).2
    by_cases hmore : head.NeedsMore bytes.length
    · rw [receivePacket_pulled sys client hhead hin hk hun hmore rfl] at h
      simp only [Except.ok.injEq] at h
      split at h
      · cases h
        exact ⟨Block.length_bytes _ _, hle⟩
      · cases h
    · rw [receivePacket_complete sys client hhead hin hk hun hmore w] at h
      cases h
      exact ⟨hfirst head _, hle⟩

theorem receiveFrame_whole {client client' : Client} {w : ω} {packet : WSPacket}
    (h : (receiveFrame sys client w).outcome = .ok (.ok packet, client')) : packet.Whole := by
  by_cases hnil : firstBytes sys client w = []
  · obtain ⟨status, w', hrun⟩ := receiveFrame_idle sys client w hnil
    rw [hrun] at h
    cases h
  · rw [receiveFrame_bytes sys client w hnil] at h
    have hwhole := @receivePacket_whole _ sys client (firstBytes sys client w)
      (sys.received client.fd WS_MAX_HEADER_LEN .dontWait w).2 packet
      (length_firstBytes_le sys client w)
    rcases hrun : receivePacket sys (client.fillBuffer (firstBytes sys client w))
      (firstBytes sys client w).length
      (sys.received client.fd WS_MAX_HEADER_LEN .dontWait w).2 with ⟨o, w', out⟩
    rw [hrun] at h hwhole
    cases o with
    | error e => cases h
    | ok received =>
      cases received with
      | none => cases h
      | some packet' =>
        cases h
        exact hwhole rfl

/-- A packet that is a message is handed on and broadcast, if `handlePacket` keeps its
sender. -/
theorem dispatchPacket_announces (server : Server) (client : Client) {packet : WSPacket}
    (hwhole : packet.Whole) (fd : Int) (w : ω) :
    Announces sys server
      ((packetsOf (dispatchPacket (wsserver sys) server client packet w).out).map (.said fd))
      (netEvents (dispatchPacket (wsserver sys) server client packet w).out) := by
  obtain ⟨status, client₁, w₁, hpacket, -⟩ := handlePacket_run sys server client packet w
  have hfirst : Proc.mapOut WsEvent.net (handlePacket sys server client packet) w =
      ⟨.ok (status, client₁), w₁, []⟩ := by
    rw [Proc.mapOut_run, hpacket]
    rfl
  rw [dispatchPacket_some (show (wsserver sys).onpacket = some (handlePacket sys) from rfl),
    Proc.bind_run_ok hfirst]
  by_cases hmessage : status = .keepAlive ∧ packet.isMessage = true
  · obtain ⟨r, w₂, out, hall, -⟩ := wsSendToAll_relaysTo sys server packet w₁
    have hdeliver : deliverPacket (wsserver sys) server client₁ packet w₁ =
        ⟨.ok client₁, w₂, .delivered packet :: out.map .net⟩ := by
      unfold deliverPacket wsserver handleMessages
      simp only [Proc.emit_bind_run, Proc.mapOut_run]
      split <;> simp only [Proc.bind_run_ok hall, Proc.pure_run, List.append_nil]
    refine .inr ⟨.said fd packet, w₁, ?_, ⟨hwhole, hmessage.2⟩, ?_⟩
    · simp only [if_pos hmessage, Proc.bind_run_ok hdeliver, Proc.pure_run, List.append_nil,
        List.nil_append, packetsOf, packetsOf_map_net, List.map_cons, List.map_nil]
    · show _ = (wsSendToAll sys (some server) packet w₁).out
      simp only [if_pos hmessage, Proc.bind_run_ok hdeliver, Proc.pure_run, List.append_nil,
        List.nil_append, netEvents, netEvents_map_net, hall]
  · rw [if_neg hmessage]
    exact .inl ⟨rfl, rfl⟩

theorem wsHandleMessages_announces (server : Server) (client : Client) (fd : Int) (w : ω) :
    Announces sys server
      ((packetsOf (wsHandleMessages sys (wsserver sys) server client w).out).map (.said fd))
      (netEvents (wsHandleMessages sys (wsserver sys) server client w).out) := by
  have hsilent : netEvents (receiveFrame sys client w).out = [] ∧
      packetsOf (receiveFrame sys client w).out = [] := by
    rw [receiveFrame_out]
    split <;> exact ⟨rfl, rfl⟩
  have hwhole := @receiveFrame_whole _ sys client
  unfold wsHandleMessages
  rcases hrun : receiveFrame sys client w with ⟨r, w₁, out₁⟩
  rw [hrun] at hsilent
  cases r with
  | error e =>
    rw [Proc.bind_run_error hrun]
    exact .inl ⟨by rw [hsilent.2]; rfl, hsilent.1⟩
  | ok a =>
    obtain ⟨received, client₁⟩ := a
    rw [Proc.bind_run_ok hrun]
    cases received with
    | error status =>
      simp only [Proc.pure_run, List.append_nil]
      exact .inl ⟨by rw [hsilent.2]; rfl, hsilent.1⟩
    | ok packet =>
      have hok : (receiveFrame sys client w).outcome = .ok (.ok packet, client₁) := by rw [hrun]
      simp only [netEvents_append, packetsOf_append, hsilent, List.nil_append]
      exact dispatchPacket_announces sys server client₁ (hwhole hok) fd w₁

/-! ## Every event -/

/-- A callback, called on the tables `s`: it announces what it posts, and only a ping is sent
by itself. -/
theorem announces_of_callOn {s : Server} {e : ConnEvent WsEvent}
    (h : CallOn (skserver sys accept_key) s e) : Announces sys s (postsAt e) (relayed e) := by
  cases e with
  | accepted fd => exact .inl ⟨rfl, rfl⟩
  | registered fd => exact .inl ⟨rfl, rfl⟩
  | closed fd => exact .inl ⟨rfl, rfl⟩
  | deleted fd => exact .inl ⟨rfl, rfl⟩
  | callback kind server client status out =>
    obtain ⟨rfl, ⟨f, w, r, w', hf, hrun, rfl⟩ | ⟨rfl, rfl, f, w, r, w', hf, hrun⟩⟩ := h
    · cases kind with
      | onconnect =>
        cases hf
        have hannounces := wsHandleConnection_announces sys accept_key server client w
        rw [hrun] at hannounces
        exact hannounces
      | ondisconnect => cases hf
      | onmessage =>
        cases hf
        have hannounces := wsHandleMessages_announces sys server client client.fd w
        rw [hrun] at hannounces
        exact hannounces
      | onping => exact .inl ⟨rfl, rfl⟩
    · cases hf
      have hannounces := handleDisconnect_announces sys server client w
      have hmapped : Proc.mapOut WsEvent.net (handleDisconnect sys server client) w =
          ⟨r, w', out⟩ := hrun
      rw [Proc.mapOut_run] at hmapped
      cases hmapped
      show Announces sys server [.left client]
        (netEvents ((handleDisconnect sys server client w).out.map .net))
      rw [netEvents_map_net]
      exact hannounces

end Callbacks

end NoGround
