/-
  Server/Reserved.lean --- the reserved bits of the frames the game server writes.

  No extension is negotiated, so they should be zero.  A ping and a notice are written with
  a header of the server's own.  A message is written with the header it was received in:
  `wsSendPacket` replaces the mask, the `FIN` bit and the length in it, and leaves the
  reserved bits as the sender set them.

  So the frames of a run are clear if and only if every message that was relayed arrived
  clear.
-/
import NoGround.Server.Broadcast
import NoGround.Ws.Disclosure

set_option autoImplicit false

namespace NoGround

open NoGround.Lib

variable {ω : Type}

/-! ## Reserved bits -/

/-- The reserved bits of a frame on the wire. -/
def reservedBits (frame : List UInt8) : BitVec 3 :=
  (WSFrameHeader.ofBytes (frame.getD 0 0) (frame.getD 1 0)).RSV

/-- If the event is the start of a frame, the frame has clear reserved bits. -/
def ClearEvent : WsEvent → Prop
  | .net (.frame _ frame) => reservedBits frame = 0#3
  | _ => True

instance (e : WsEvent) : Decidable (ClearEvent e) := by
  unfold ClearEvent
  split <;> infer_instance

/-- Every frame that is written is clear. -/
def FramesClear (out : List WsEvent) : Prop := ∀ e ∈ out, ClearEvent e

instance (out : List WsEvent) : Decidable (FramesClear out) :=
  inferInstanceAs (Decidable (∀ e ∈ out, ClearEvent e))

/-- What a callback emitted. -/
def emitted : ConnEvent WsEvent → List WsEvent
  | .callback _ _ _ _ out => out
  | _ => []

/-- Every frame that the callbacks of a run write is clear. -/
def WritesClear (t : List (ConnEvent WsEvent)) : Prop := ∀ e ∈ t, FramesClear (emitted e)

instance (t : List (ConnEvent WsEvent)) : Decidable (WritesClear t) :=
  inferInstanceAs (Decidable (∀ e ∈ t, FramesClear (emitted e)))

/-- If the frame of a call of `wsHandleMessages` was handed to `onmessage`, it arrived with
clear reserved bits. -/
def MessageClear (out : List WsEvent) : Prop :=
  ∀ bytes rest packet, out = .received bytes :: rest → .delivered packet ∈ rest →
    reservedBits bytes = 0#3

/-- Every message of a run that was handed on arrived clear. -/
def MessagesClear (t : List (ConnEvent WsEvent)) : Prop :=
  ∀ server client status out, .callback .onmessage server client status out ∈ t →
    MessageClear out

theorem framesClear_iff {out : List WsEvent} :
    FramesClear out ↔ ∀ fd frame, .net (.frame fd frame) ∈ out → reservedBits frame = 0#3 := by
  constructor
  · intro h fd frame hmem
    exact h _ hmem
  · intro h e he
    unfold ClearEvent
    split
    · exact h _ _ he
    · trivial

theorem reservedBits_frame (packet : WSPacket) : reservedBits packet.frame = packet.header.RSV := by
  unfold WSPacket.frame WSPacket.headerBytes WSFrameHeader.toBytes reservedBits
  simp only [List.cons_append, List.getD_cons_zero, List.getD_cons_succ]
  rw [WSFrameHeader.ofBytes_toBytes]

theorem reservedBits_pingHeader : reservedBits pingHeader.toBytes = 0#3 := by decide

/-! ## What is written -/

/-- If the event is the start of a frame, it is this one. -/
def IsFrame (frame : List UInt8) : NetEvent → Prop
  | .frame _ frame' => frame' = frame
  | _ => True

section Written

variable (sys : Sys ω)

theorem emits_wsSendPacket (client : Client) (packet : WSPacket) :
    Proc.Emits (IsFrame packet.frame) (wsSendPacket sys client packet) := by
  intro w e he
  obtain ⟨r, w', n, rest, hrun, hrest⟩ := wsSendPacket_run sys client packet w
  rw [hrun] at he
  rcases hrest with ⟨-, rfl⟩ | ⟨-, k, -, rfl⟩
  · simp only [List.mem_cons, List.not_mem_nil, or_false] at he
    rcases he with rfl | rfl
    · rfl
    · trivial
  · simp only [List.mem_cons, List.not_mem_nil, or_false] at he
    rcases he with rfl | rfl | rfl
    · rfl
    · trivial
    · trivial

theorem emits_sendToEach (packet : WSPacket) (clients : List Client) :
    Proc.Emits (IsFrame packet.frame) (sendToEach sys packet clients) := by
  induction clients with
  | nil => exact Proc.Emits.pure _
  | cons client clients ih =>
    refine Proc.Emits.bind (emits_wsSendPacket sys client packet) fun err => ?_
    exact Proc.Emits.bind ih fun has_err => Proc.Emits.pure _

theorem emits_wsSendToAll (bserver : Option Server) (packet : WSPacket) :
    Proc.Emits (IsFrame packet.frame) (wsSendToAll sys bserver packet) := by
  cases bserver with
  | none => exact Proc.Emits.pure _
  | some bserver =>
    refine Proc.Emits.bind (Proc.Emits.emit trivial) fun _ => ?_
    exact emits_sendToEach sys packet _

theorem emits_wsHandlePing (client : Client) :
    Proc.Emits (IsFrame pingHeader.toBytes) (wsHandlePing sys client) := by
  refine Proc.Emits.bind (Proc.Emits.emit rfl) fun _ => ?_
  refine Proc.Emits.bind ?_ fun err => ?_
  · refine Proc.Emits.bind (Proc.Emits.step _) fun sent => ?_
    exact Proc.Emits.bind (Proc.Emits.emit trivial) fun _ => Proc.Emits.pure _
  · refine Proc.Emits.ite (Proc.Emits.pure _) ?_
    exact Proc.Emits.bind (Proc.Emits.step _) fun now => Proc.Emits.pure _

/-- Everybody on the list is written the frame. -/
theorem frame_mem_sendToEach (packet : WSPacket) {clients : List Client} {client : Client}
    (hmem : client ∈ clients) (w : ω) :
    .frame client.fd packet.frame ∈ (sendToEach sys packet clients w).out := by
  induction clients generalizing w with
  | nil => cases hmem
  | cons client' clients ih =>
    obtain ⟨r, w₁, n, rest, hrun, -⟩ := wsSendPacket_run sys client' packet w
    obtain ⟨r', w₂, out, hrest, -⟩ := sendToEach_run sys packet clients w₁
    rw [sendToEach, Proc.bind_run_ok hrun, Proc.bind_run_ok hrest]
    rcases List.mem_cons.mp hmem with rfl | hmem
    · simp
    · have htail := ih hmem w₁
      rw [hrest] at htail
      simp [htail]

theorem frame_mem_wsSendToAll (packet : WSPacket) {server : Server} {client : Client}
    (hmem : client ∈ server.clients.items) (w : ω) :
    .frame client.fd packet.frame ∈ (wsSendToAll sys (some server) packet w).out := by
  show NetEvent.frame client.fd packet.frame ∈ ((Proc.emit (.broadcast packet.frame server.fds) >>=
    fun _ => sendToEach sys packet server.clients.items) w).out
  rw [Proc.emit_bind_run]
  exact List.mem_cons_of_mem _ (frame_mem_sendToEach sys packet hmem w)

end Written

/-! ## What was received -/

section Received

variable (sys : Sys ω) {client : Client} {w : ω} {packet : WSPacket}

/-- The reserved bits of a packet are those of the first read. -/
theorem receivePacket_RSV {bytes : List UInt8} (hk : bytes.length ≤ WS_MAX_HEADER_LEN)
    (h : (receivePacket sys (client.fillBuffer bytes) bytes.length w).outcome =
      .ok (some packet)) :
    packet.header.RSV = reservedBits bytes := by
  have hsurvives : Survives bytes := by
    by_contra hstop
    obtain ⟨e, w', hrun, -⟩ := receivePacket_error sys client hk hstop w
    rw [hrun] at h
    cases h
  obtain ⟨hin, hun⟩ := hsurvives
  cases hhead : headOf bytes with
  | none =>
    rw [receivePacket_none sys client hhead w] at h
    cases h
  | some head =>
    simp only [PayloadOverrun, UnsupportedFrame, hhead] at hin hun
    have hheader : packet.header = head.header := by
      by_cases hmore : head.NeedsMore bytes.length
      · rw [receivePacket_pulled sys client hhead hin hk hun hmore rfl] at h
        simp only [Except.ok.injEq] at h
        split at h
        · cases h
          rfl
        · cases h
      · rw [receivePacket_complete sys client hhead hin hk hun hmore w] at h
        cases h
        rfl
    rw [hheader, (readHead_eq_some (readHead_of_headOf hhead).2).1]
    rfl

theorem receiveFrame_RSV {client' : Client}
    (h : (receiveFrame sys client w).outcome = .ok (.ok packet, client')) :
    firstBytes sys client w ≠ [] ∧ packet.header.RSV = reservedBits (firstBytes sys client w) := by
  by_cases hnil : firstBytes sys client w = []
  · obtain ⟨status, w', hrun⟩ := receiveFrame_idle sys client w hnil
    rw [hrun] at h
    cases h
  · refine ⟨hnil, ?_⟩
    rw [receiveFrame_bytes sys client w hnil] at h
    have hheader := @receivePacket_RSV _ sys client (afterFirst sys client w) packet _
      (length_firstBytes_le sys client w)
    unfold afterFirst at hheader
    rcases hrun : receivePacket sys (client.fillBuffer (firstBytes sys client w))
      (firstBytes sys client w).length
      (sys.received client.fd WS_MAX_HEADER_LEN .dontWait w).2 with ⟨o, w', out⟩
    rw [hrun] at h hheader
    cases o with
    | error e => cases h
    | ok received =>
      cases received with
      | none => cases h
      | some packet' =>
        cases h
        exact hheader rfl

end Received

/-! ## From a received header to a written one -/

/-- A message is relayed to the whole table, and nothing else is written; or nothing
happens. -/
def RelaysMessage (server : Server) (packet : WSPacket) (out : List WsEvent) : Prop :=
  out = [] ∨
    .delivered packet ∈ out ∧
      (∀ fd frame, .net (.frame fd frame) ∈ out → frame = packet.frame) ∧
      ∀ client ∈ server.clients.items, .net (.frame client.fd packet.frame) ∈ out

section Relay

variable (sys : Sys ω) (server : Server) (client : Client) (w : ω)

theorem deliverPacket_relays (packet : WSPacket) :
    RelaysMessage server packet (deliverPacket (wsserver sys) server client packet w).out := by
  have hall : (deliverPacket (wsserver sys) server client packet w).out =
      .delivered packet :: (wsSendToAll sys (some server) packet w).out.map .net := by
    obtain ⟨r, w', out, hrun, -⟩ := wsSendToAll_relaysTo sys server packet w
    unfold deliverPacket wsserver handleMessages
    simp only [Proc.emit_bind_run, Proc.mapOut_run]
    split <;> simp only [Proc.bind_run_ok hrun, hrun, Proc.pure_run, List.append_nil]
  rw [hall]
  refine .inr ⟨List.mem_cons_self, ?_, ?_⟩
  · intro fd frame hmem
    rcases List.mem_cons.mp hmem with hmem | hmem
    · cases hmem
    · obtain ⟨e, he, heq⟩ := List.mem_map.mp hmem
      cases heq
      exact emits_wsSendToAll sys (some server) packet w _ he
  · intro client' hmem
    exact List.mem_cons_of_mem _
      (List.mem_map_of_mem (frame_mem_wsSendToAll sys packet hmem w))

theorem dispatchPacket_relays (packet : WSPacket) :
    RelaysMessage server packet (dispatchPacket (wsserver sys) server client packet w).out := by
  obtain ⟨status, client₁, w₁, hpacket, -⟩ := handlePacket_run sys server client packet w
  have hfirst : Proc.mapOut WsEvent.net (handlePacket sys server client packet) w =
      ⟨.ok (status, client₁), w₁, []⟩ := by
    rw [Proc.mapOut_run, hpacket]
    rfl
  have hdeliver := deliverPacket_relays sys server client₁ w₁ packet
  rw [dispatchPacket_some (show (wsserver sys).onpacket = some (handlePacket sys) from rfl),
    Proc.bind_run_ok hfirst]
  by_cases hmessage : status = .keepAlive ∧ packet.isMessage = true
  · rw [if_pos hmessage]
    rcases hrun : deliverPacket (wsserver sys) server client₁ packet w₁ with ⟨r, w₂, out⟩
    rw [hrun] at hdeliver
    cases r with
    | error e =>
      rw [Proc.bind_run_error hrun]
      exact hdeliver
    | ok client₂ =>
      rw [Proc.bind_run_ok hrun]
      simpa using hdeliver
  · rw [if_neg hmessage]
    exact .inl rfl

/-- One message: the frames it makes are clear exactly if it arrived clear. -/
theorem wsHandleMessages_framesClear_iff {client' : Client}
    (hmem : client' ∈ server.clients.items) :
    FramesClear (wsHandleMessages sys (wsserver sys) server client w).out ↔
      MessageClear (wsHandleMessages sys (wsserver sys) server client w).out := by
  have hout := receiveFrame_out sys client w
  have hheader := @receiveFrame_RSV _ sys client w
  -- A first read alone writes nothing, and delivers nothing.
  have hsilent : FramesClear (receiveFrame sys client w).out ↔
      MessageClear (receiveFrame sys client w).out := by
    rw [hout]
    split
    · simp [FramesClear, MessageClear]
    · constructor
      · intro _ bytes rest packet heq hdelivered
        obtain ⟨-, rfl⟩ := List.cons.inj heq
        cases hdelivered
      · intro _ e he
        rw [List.mem_singleton.mp he]
        trivial
  unfold wsHandleMessages
  rcases hrun : receiveFrame sys client w with ⟨r, w₁, out₁⟩
  rw [hrun] at hout hheader hsilent
  cases r with
  | error e =>
    rw [Proc.bind_run_error hrun]
    exact hsilent
  | ok a =>
    obtain ⟨received, client₁⟩ := a
    rw [Proc.bind_run_ok hrun]
    cases received with
    | error status => simpa using hsilent
    | ok packet =>
      obtain ⟨hne, hRSV⟩ := hheader rfl
      simp only at hout
      rw [if_neg hne] at hout
      subst hout
      rcases dispatchPacket_relays sys server client₁ w₁ packet with
        hnil | ⟨hdelivered, honly, hall⟩
      · simp only [hnil, List.append_nil]
        exact hsilent
      · constructor
        · intro hclear bytes rest packet' heq _
          obtain ⟨hbytes, -⟩ := List.cons.inj heq
          cases hbytes
          rw [← hRSV, ← reservedBits_frame]
          exact hclear _ (List.mem_append_right _ (hall client' hmem))
        · intro hclear
          refine framesClear_iff.mpr fun fd frame hframe => ?_
          rcases List.mem_append.mp hframe with hframe | hframe
          · simp at hframe
          · rw [honly fd frame hframe, reservedBits_frame, hRSV]
            exact hclear _ _ packet rfl hdelivered

/-! ## The other callbacks -/

theorem clearEvent_net {frame : List UInt8} (hclear : reservedBits frame = 0#3) (e : NetEvent)
    (he : IsFrame frame e) : ClearEvent (.net e) := by
  cases e with
  | broadcast _ _ => trivial
  | frame fd frame' =>
    have heq : frame' = frame := he
    show reservedBits frame' = 0#3
    rw [heq, hclear]
  | sent _ _ _ => trivial

theorem reservedBits_noticePacket (text : List UInt8) :
    reservedBits (noticePacket text).frame = 0#3 :=
  reservedBits_frame (noticePacket text)

theorem emits_wsHandshake (accept_key : List UInt8 → List UInt8) :
    Proc.Emits ClearEvent (wsHandshake sys accept_key client) := by
  refine Proc.Emits.bind (Proc.Emits.step _) fun r => ?_
  refine Proc.Emits.ite (Proc.Emits.pure _) ?_
  refine Proc.Emits.ite (Proc.Emits.pure _) ?_
  refine Proc.Emits.bind (Proc.Emits.ofExcept _) fun found => ?_
  refine Proc.Emits.ite ?_ (Proc.Emits.pure _)
  refine Proc.Emits.bind (Proc.Emits.ofExcept _) fun len => ?_
  refine Proc.Emits.bind (Proc.Emits.step _) fun sent => ?_
  exact Proc.Emits.bind (Proc.Emits.emit trivial) fun _ => Proc.Emits.pure _

theorem emits_wsHandleConnection (accept_key : List UInt8 → List UInt8) :
    Proc.Emits ClearEvent (wsHandleConnection sys accept_key (wsserver sys) server client) := by
  refine Proc.Emits.bind (emits_wsHandshake sys client accept_key) fun a => ?_
  refine Proc.Emits.ite ?_ (Proc.Emits.pure _)
  refine Proc.Emits.mapOut (Q := IsFrame (noticePacket
    (noticeText "New client connected: " a.2)).frame) ?_
    (clearEvent_net (reservedBits_noticePacket _))
  exact Proc.Emits.bind (emits_wsSendToAll sys _ _) fun _ => Proc.Emits.pure _

theorem emits_handleDisconnect :
    Proc.Emits ClearEvent (Proc.mapOut .net (handleDisconnect sys server client)) := by
  refine Proc.Emits.mapOut (Q := IsFrame (noticePacket
    (noticeText "Client disconected: " client)).frame) ?_
    (clearEvent_net (reservedBits_noticePacket _))
  exact Proc.Emits.bind (emits_wsSendToAll sys _ _) fun _ => Proc.Emits.pure _

theorem emits_ping : Proc.Emits ClearEvent (Proc.mapOut .net (wsHandlePing sys client)) :=
  (emits_wsHandlePing sys client).mapOut (clearEvent_net reservedBits_pingHeader)

end Relay

/-! ## Every run -/

/-- A callback that is called by a run writes clear frames, unless it is `onmessage`; that
does so exactly for a message that arrived clear. -/
theorem framesClear_of_callOn (sys : Sys ω) (accept_key : List UInt8 → List UInt8) {s : Server}
    {kind : CallbackKind} {server : Server} {client : Client} {status : Option ConnStatus}
    {out : List WsEvent}
    (hcall : CallOn (skserver sys accept_key) s (.callback kind server client status out))
    (hfor : ForRegistered (.callback kind server client status out)) :
    FramesClear out ↔ (kind = .onmessage → MessageClear out) := by
  have hclear : kind ≠ .onmessage → FramesClear out →
      (FramesClear out ↔ (kind = .onmessage → MessageClear out)) :=
    fun hkind hall => ⟨fun _ h => absurd h hkind, fun _ => hall⟩
  obtain ⟨-, ⟨f, w, r, w', hf, hrun, -⟩ | ⟨rfl, -, f, w, r, w', hf, hrun⟩⟩ := hcall
  · have hout : out = (f server client w).out := by rw [hrun]
    subst hout
    cases kind with
    | onconnect =>
      cases hf
      exact hclear (by decide) (emits_wsHandleConnection sys server client accept_key w)
    | ondisconnect => cases hf
    | onmessage =>
      cases hf
      have hiff := wsHandleMessages_framesClear_iff sys server client w hfor
      exact ⟨fun h _ => hiff.mp h, fun h => hiff.mpr (h rfl)⟩
    | onping =>
      cases hf
      exact hclear (by decide) (emits_ping sys client w)
  · have hout : out = (f server client w).out := by rw [hrun]
    subst hout
    cases hf
    exact hclear (by decide) (emits_handleDisconnect sys server client w)

/-- **Reserved bits, exactly.**  In every run of the game server from `conInitServer`, every
frame that is written has clear reserved bits if and only if every message that was handed
on arrived with clear ones. -/
theorem serve_writesClear_iff (sys : Sys ω) (accept_key : List UInt8 → List UInt8)
    {config : ServerConfig} (hmax : 1 ≤ config.max_connections) {m₀ m : Machine ω}
    {out : List (ConnEvent WsEvent)} (hinit : conInitServer sys config m₀ = ⟨.ok 0, m, out⟩)
    (n : Nat) :
    WritesClear (serve sys (skserver sys accept_key) n m).out ↔
      MessagesClear (serve sys (skserver sys accept_key) n m).out := by
  obtain ⟨-, hs, -⟩ := conInitServer_ok sys hmax hinit
  obtain ⟨-, hcalls⟩ := serve_inSync sys (skserver sys accept_key) hs n
  have hfor := serve_forRegistered sys (skserver sys accept_key) hs n
  have heach : ∀ kind server client status out,
      .callback kind server client status out ∈ (serve sys (skserver sys accept_key) n m).out →
      (FramesClear out ↔ (kind = .onmessage → MessageClear out)) := by
    intro kind server client status out hmem
    obtain ⟨s, -, hcall⟩ := hcalls _ hmem
    exact framesClear_of_callOn sys accept_key hcall (hfor _ hmem)
  constructor
  · intro hwrites server client status out hmem
    exact (heach _ _ _ _ _ hmem).mp (hwrites _ hmem) rfl
  · intro hmessages e hmem
    cases e with
    | accepted _ => simp [FramesClear, emitted]
    | registered _ => simp [FramesClear, emitted]
    | closed _ => simp [FramesClear, emitted]
    | deleted _ => simp [FramesClear, emitted]
    | callback kind server client status out =>
      refine (heach _ _ _ _ _ hmem).mpr fun hkind => ?_
      subst hkind
      exact hmessages _ _ _ _ hmem

/-- Two clients connect, and the first one sends a text of one byte with a reserved bit. -/
def reservedText : Script where
  polls := [(1, [POLLIN]), (1, [POLLIN]), (1, [0#16, POLLIN])]
  accepts := [4, 5]
  recvs :=
    [some handshakeRequest, none, some handshakeRequest, none, none,
      some [0xC1], some [0xC1, 0x81, 1, 2, 3, 4, 0x69], none]

theorem serve_writesClear_iff_two_clients :
    let r := serve Script.sys (skserver Script.sys fun _ => handshakeAcceptKey) 3
      (startServer twoClients)
    WritesClear r.out ↔ MessagesClear r.out :=
  serve_writesClear_iff Script.sys _ one_le_threeSlots (startServer_init _) 3

/-- The text is written to both clients with the reserved bit. -/
theorem reserved_bit_relayed :
    let r := serve Script.sys (skserver Script.sys fun _ => handshakeAcceptKey) 3
      (startServer reservedText)
    r.outcome = .ok () ∧ ¬ WritesClear r.out ∧
      writtenTo 5 r.out = [[0xC1, 0x01, 0x68]] := by
  decide +kernel

end NoGround
