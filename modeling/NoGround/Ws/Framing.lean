/-
  Ws/Framing.lean --- does `wsHandleMessages` stay in step with the frames of a stream?

  One client writes frames back to back, and the kernel decides at every first read how
  many of the pending bytes it returns.  A call takes one frame off the stream exactly if
  its first read ends neither inside the head of the frame nor behind its end
  (`wsHandleMessages_frame`, `wsHandleMessages_desync`); the second read then pulls the
  rest.  A first read asks for fourteen bytes, and most short frames are shorter.

  The frames are given in the wire format of Ws/Frame.lean, and nothing is assumed about
  how their lengths are written.
-/
import NoGround.Ws.Disclosure
import NoGround.Ws.Frame

set_option autoImplicit false

namespace NoGround

open NoGround.Lib

variable {ω : Type}

/-! ## What a client writes -/

/-- A payload under its mask. -/
def MaskKey.mask (key : MaskKey) (data : List UInt8) : List UInt8 :=
  data.mapIdx fun i b => b ^^^ key.get i

/-- A masked message in one frame. -/
structure ClientFrame where
  opcode : BitVec 4
  RSV : BitVec 3
  form : LengthForm
  key : MaskKey
  data : List UInt8
  opcode_message : opcode = WS_OP_TEXT ∨ opcode = WS_OP_BIN
  fits : form.Fits data.length
  length_le : data.length ≤ MAX_WS_PACKET_LENGTH

/-- What `onmessage` should be told: the opcode, the length and the payload. -/
abbrev Message : Type := BitVec 4 × Nat × List UInt8

namespace ClientFrame

variable (frame : ClientFrame)

def head : WireHead where
  opcode := frame.opcode
  RSV := frame.RSV
  FIN := 1#1
  form := frame.form
  length := frame.data.length
  key := some frame.key
  fits := frame.fits

def wire : List UInt8 := frame.head.wire ++ frame.key.mask frame.data

def message : Message := (frame.opcode, frame.data.length, frame.data)

end ClientFrame

/-- The stream of a list of frames. -/
def wireOf (frames : List ClientFrame) : List UInt8 := frames.flatMap ClientFrame.wire

/-! ## What the kernel does with it -/

/-- One client's stream, in a world that is otherwise arbitrary. -/
structure Peer (ω : Type) where
  /-- written by the client, and not yet received -/
  pending : List UInt8
  /-- how many bytes have arrived, at each read still to come -/
  cuts : Nat → Nat
  rest : ω

/-- A read of up to `n` bytes returns at least one, and at most those pending. -/
def cutOf (cut n pending : Nat) : Nat := max 1 (min cut (min n pending))

namespace Peer

/-- How many bytes the next read returns, if it asks for `n`. -/
def cut (p : Peer ω) (n : Nat) : Nat := cutOf (p.cuts 0) n p.pending.length

/-- The world after that read. -/
def advance (p : Peer ω) (n : Nat) : Peer ω :=
  { p with pending := p.pending.drop (p.cut n), cuts := fun i => p.cuts (i + 1) }

/-- `recv` on the stream. -/
def recv (n : Nat) (flag : RecvFlag) (p : Peer ω) : RecvResult × Peer ω :=
  match flag with
  | .waitAll => (⟨some (p.pending.take n), 0⟩, { p with pending := p.pending.drop n })
  | .peek =>
      if p.pending = [] then (⟨none, EAGAIN⟩, p)
      else (⟨some (p.pending.take (p.cut n)), 0⟩, p)
  | .dontWait | .waitForOne =>
      if p.pending = [] then (⟨none, EAGAIN⟩, p)
      else (⟨some (p.pending.take (p.cut n)), 0⟩, p.advance n)

/-- A system call that does not concern the stream. -/
def call {α : Type} (f : ω → α × ω) (p : Peer ω) : α × Peer ω :=
  ((f p.rest).1, { p with rest := (f p.rest).2 })

/-- The system, with the stream behind the socket `fd`. -/
def sys (sys : Sys ω) (fd : Int) : Sys (Peer ω) where
  clock := call sys.clock
  poll pfds := call (sys.poll pfds)
  accept fd := call (sys.accept fd)
  close fd p := { p with rest := sys.close fd p.rest }
  recv fd' n flag p := if fd' = fd then p.recv n flag else call (sys.recv fd' n flag) p
  send fd message := call (sys.send fd message)
  fcntl fd := call (sys.fcntl fd)
  malloc := call sys.malloc
  calloc count size := call (sys.calloc count size)
  socket := call sys.socket
  setsockopt fd := call (sys.setsockopt fd)
  ioctl fd := call (sys.ioctl fd)
  bind fd port := call (sys.bind fd port)
  listen fd backlog := call (sys.listen fd backlog)

/-- A callback leaves the stream alone. -/
def aside {ε α : Type} (m : Proc Halt ω ε α) : Proc Halt (Peer ω) ε α :=
  Proc.zoom Peer.rest (fun p w => { p with rest := w }) id m

end Peer

/-- The callbacks, in the world of one client. -/
def WSServer.onPeer (ws : WSServer ω) : WSServer (Peer ω) where
  bare_server := ws.bare_server
  onconnect := ws.onconnect.map fun f server client => Peer.aside (f server client)
  onmessage := ws.onmessage.map fun f server client packet => Peer.aside (f server client packet)
  onpacket := ws.onpacket.map fun f server client packet => Peer.aside (f server client packet)

/-! ## Repeated calls -/

/-- One call of `wsHandleMessages` after the other, each for the same client, and with
the server as it then is: the statuses. -/
def handleEach (sys : Sys ω) (ws : WSServer ω) :
    List Server → Client → Proc Halt ω WsEvent (List ConnStatus)
  | [], _ => pure []
  | server :: servers, client => do
    let (status, client') ← wsHandleMessages sys ws server client
    let statuses ← handleEach sys ws servers { client' with fd := client.fd }
    return status :: statuses

/-- The calls of `onmessage`. -/
def messagesOf : List WsEvent → List Message
  | [] => []
  | .delivered packet :: t =>
      (packet.header.opcode, packet.length, packet.data) :: messagesOf t
  | .received _ :: t => messagesOf t
  | .handshake _ _ _ :: t => messagesOf t
  | .net _ :: t => messagesOf t

/-- After `n` calls: each kept the client, the first `n` frames were delivered, and
exactly they were taken off the stream. -/
structure InStep (frames : List ClientFrame) (n : Nat)
    (r : Result Halt (Peer ω) WsEvent (List ConnStatus)) : Prop where
  kept : r.outcome = .ok (List.replicate n .keepAlive)
  messages : messagesOf r.out = (frames.take n).map ClientFrame.message
  pending : r.state.pending = wireOf (frames.drop n)

/-- Every first read ends behind the head of its frame, and not behind its end. -/
def CutsFit : List ClientFrame → (Nat → Nat) → Prop
  | [], _ => True
  | frame :: frames, cuts =>
      (frame.head.wire.length ≤
          cutOf (cuts 0) WS_MAX_HEADER_LEN (wireOf (frame :: frames)).length ∧
        cutOf (cuts 0) WS_MAX_HEADER_LEN (wireOf (frame :: frames)).length ≤
          frame.wire.length) ∧
      CutsFit frames fun i => cuts (i + 1)

/-! ## The head of a frame, seen through a first read -/

theorem bufferOf_take {l : List UInt8} {k i : Nat} (h : i < k) :
    bufferOf (l.take k) i = l.getD i 0 := by
  simp [bufferOf, List.getD_eq_getElem?_getD, h]

theorem MaskKey.length_mask (key : MaskKey) (data : List UInt8) :
    (key.mask data).length = data.length := by
  simp [MaskKey.mask]

/-- Where a length ends is decided by its form alone. -/
theorem LengthForm.readLength_offset {form : LengthForm} {n m offset : Nat}
    {header : WSFrameHeader} {buffer : Nat → UInt8} (hfits : form.Fits n)
    (hcode : header.length = form.code n)
    (h : readLength header buffer = some (m, offset)) :
    offset = 2 + (form.extension n).length := by
  unfold readLength at h
  rw [hcode] at h
  cases form with
  | short =>
    have hlt : n < 126 := hfits
    rw [toNat_code_short hlt, if_pos hlt] at h
    cases h
    rfl
  | word =>
    rw [code, if_neg (show ¬ (126#7).toNat < 126 by decide),
      if_pos (show (126#7).toNat = 126 by decide)] at h
    cases h
    rfl
  | long =>
    rw [code, if_neg (show ¬ (127#7).toNat < 126 by decide),
      if_neg (show ¬ (127#7).toNat = 126 by decide)] at h
    simp only at h
    split at h
    · cases h
    · cases h
      rfl

namespace ClientFrame

variable {frame : ClientFrame} {tail : List UInt8} {k : Nat}

theorem length_wire (frame : ClientFrame) :
    frame.wire.length = frame.head.wire.length + frame.data.length := by
  rw [wire, List.length_append, MaskKey.length_mask]

theorem mask_head : frame.head.header.mask = 1#1 := rfl

theorem FIN_head : frame.head.header.FIN = 1#1 := rfl

theorem not_unsupported {head : FrameHead} (h : head.header = frame.head.header) :
    ¬ head.Unsupported := by
  rintro ⟨hFIN, -⟩
  rw [h, FIN_head] at hFIN
  exact absurd hFIN (by decide)

/-- More is asked for exactly if the read ended inside the payload. -/
theorem needsMore_iff :
    frame.head.frameHead.NeedsMore k ↔ frame.head.wire.length ≤ k ∧ k < frame.wire.length := by
  rw [length_wire]
  exact Iff.rfl

/-- A read that ends in the payload, or with it, is decoded inside it. -/
theorem not_overruns (hhead : frame.head.wire.length ≤ k) (hend : k ≤ frame.wire.length) :
    ¬ frame.head.frameHead.Overruns k := by
  rintro ⟨-, -, hrange⟩
  rw [length_wire] at hend
  exact hrange ⟨hhead, hend⟩

theorem two_le_length_wire (frame : ClientFrame) : 2 ≤ frame.head.wire.length := by
  have hlen := frame.head.length_wire
  omega

/-- A byte of the head, in a read that reaches it. -/
theorem buffer_head {i : Nat} (hi : i < frame.head.wire.length) (hk : i < k) :
    bufferOf ((frame.wire ++ tail).take k) i = frame.head.wire.getD i 0 := by
  rw [bufferOf_take hk, wire, List.append_assoc]
  simp only [List.getD_eq_getElem?_getD, List.getElem?_append_left hi]

/-- A byte of the payload, on the stream. -/
theorem getD_payload {j : Nat} (hj : j < frame.data.length) :
    (frame.wire ++ tail).getD (frame.head.wire.length + j) 0 =
      frame.data.getD j 0 ^^^ frame.key.get j := by
  have hmask : j < (frame.key.mask frame.data).length := by
    rwa [MaskKey.length_mask]
  rw [wire, List.append_assoc]
  simp only [List.getD_eq_getElem?_getD]
  rw [List.getElem?_append_right (by omega), Nat.add_sub_cancel_left,
    List.getElem?_append_left hmask]
  simp [MaskKey.mask, hj]

theorem header_eq (hk : 2 ≤ k) :
    WSFrameHeader.ofBytes (bufferOf ((frame.wire ++ tail).take k) 0)
      (bufferOf ((frame.wire ++ tail).take k) 1) = frame.head.header := by
  have hlen := two_le_length_wire frame
  rw [buffer_head (by omega) (by omega), buffer_head (by omega) (by omega)]
  exact WSFrameHeader.ofBytes_toBytes _

/-- A read that reaches the end of the head spells it. -/
theorem headOf_take (hhead : frame.head.wire.length ≤ k)
    (hk : k ≤ (frame.wire ++ tail).length) :
    headOf ((frame.wire ++ tail).take k) = some frame.head.frameHead := by
  have hlen := two_le_length_wire frame
  have hsize : sizeofWSFrameHeader = 2 := rfl
  unfold headOf
  have hread := WireHead.readHead_eq frame.head (bufferOf ((frame.wire ++ tail).take k))
    fun i hi => buffer_head hi (by omega)
  rw [List.length_take_of_le hk, if_neg (by omega), hread]
  exact if_pos frame.length_le

/-- Whatever a shorter read spells, the payload starts where it does. -/
theorem offset_headOf (hk : k ≤ (frame.wire ++ tail).length) {head : FrameHead}
    (h : headOf ((frame.wire ++ tail).take k) = some head) :
    head.header = frame.head.header ∧ head.offset = frame.head.wire.length := by
  obtain ⟨hsize, hread⟩ := readHead_of_headOf h
  rw [List.length_take_of_le hk] at hsize
  obtain ⟨hheader, offset, hlength, hmask⟩ := readHead_eq_some hread
  rw [header_eq hsize] at hheader
  have hoffset := LengthForm.readLength_offset frame.fits (by rw [hheader]; rfl) hlength
  refine ⟨hheader, ?_⟩
  rcases hmask with ⟨-, hend, -⟩ | ⟨hmask, -⟩
  · rw [hend, hoffset, WireHead.length_wire]
    rfl
  · rw [hheader] at hmask
    exact absurd mask_head hmask

/-- A payload byte that came with the first read is unmasked. -/
theorem byte_firstPayload {j : Nat} (hj : j < frame.data.length)
    (hk : k ≤ (frame.wire ++ tail).length) (hread : frame.head.wire.length + j < k)
    (heap : Nat → UInt8) :
    (firstPayload frame.head.frameHead ((frame.wire ++ tail).take k) heap).byte j =
      frame.data.getD j 0 := by
  have hdecoded : frame.head.frameHead.header.mask = 1#1 ∧
      j < ((frame.wire ++ tail).take k).length - frame.head.frameHead.offset := by
    refine ⟨mask_head, ?_⟩
    rw [List.length_take_of_le hk]
    show j < k - frame.head.wire.length
    omega
  unfold firstPayload
  simp only [if_pos hdecoded]
  show bufferOf _ (frame.head.wire.length + j) ^^^ frame.key.get j = _
  rw [bufferOf_take hread, getD_payload hj, UInt8.xor_assoc, UInt8.xor_self, UInt8.xor_zero]

/-- A frame that came with the first read is delivered as it was written. -/
theorem data_firstPacket_wire (hk : k = frame.wire.length) (heap : Nat → UInt8) :
    (firstPacket frame.head.frameHead ((frame.wire ++ tail).take k) heap).data = frame.data := by
  have hwire := length_wire frame
  by_cases hlength : frame.data.length = 0
  · rw [data_firstPacket_empty hlength, List.eq_nil_of_length_eq_zero hlength]
  · rw [data_firstPacket hlength]
    refine Eq.trans (Block.bytes_congr ?_) (Block.bytes_ofBytes frame.data)
    intro j hj
    have hj' : j < frame.data.length := hj
    refine byte_firstPayload hj' ?_ (by omega) heap
    rw [List.length_append]
    omega

/-- So is one of which the rest came with the second read. -/
theorem data_pulledPacket_wire (hk : k ≤ WS_MAX_HEADER_LEN)
    (hhead : frame.head.wire.length ≤ k) (hend : k < frame.wire.length) (heap : Nat → UInt8) :
    (pulledPacket frame.head.frameHead ((frame.wire ++ tail).take k) heap
      (((frame.wire ++ tail).drop k).take (frame.wire.length - k))).data = frame.data := by
  have hwire := length_wire frame
  have hle : k ≤ (frame.wire ++ tail).length := by
    rw [List.length_append]
    omega
  have hbytes := List.length_take_of_le hle
  have hmore : frame.head.frameHead.NeedsMore ((frame.wire ++ tail).take k).length := by
    rw [hbytes]
    exact needsMore_iff.mpr ⟨hhead, hend⟩
  rw [data_pulledPacket]
  refine Eq.trans (Block.bytes_congr ?_) (Block.bytes_ofBytes frame.data)
  intro j hj
  have hj' : j < frame.data.length := hj
  rw [byte_pulledPayload (by omega) hmore, hbytes]
  show (if k - frame.head.wire.length ≤ j ∧ j < frame.data.length then _ else _) =
    frame.data.getD j 0
  by_cases hpart : k - frame.head.wire.length ≤ j
  · rw [if_pos ⟨hpart, hj'⟩]
    show _ ^^^ frame.key.get j = _
    have hpos : k + (j - (k - frame.head.wire.length)) = frame.head.wire.length + j := by omega
    have hread : j - (k - frame.head.wire.length) < frame.wire.length - k := by omega
    have hrest : (((frame.wire ++ tail).drop k).take (frame.wire.length - k)).getD
        (j - (k - frame.head.wire.length)) 0 =
        (frame.wire ++ tail).getD (frame.head.wire.length + j) 0 := by
      simp only [List.getD_eq_getElem?_getD, List.getElem?_take, if_pos hread,
        List.getElem?_drop, hpos]
    show (((frame.wire ++ tail).drop k).take (frame.wire.length - k)).getD
        (j - (k - frame.head.wire.length)) 0 ^^^ frame.key.get j = _
    rw [hrest, getD_payload hj', UInt8.xor_assoc, UInt8.xor_self, UInt8.xor_zero]
  · rw [if_neg fun h => hpart h.1]
    exact byte_firstPayload hj' hle (by omega) heap

end ClientFrame

/-! ## The reads of a call -/

theorem cutOf_le {cut n pending : Nat} (hn : 1 ≤ n) (hpending : 1 ≤ pending) :
    1 ≤ cutOf cut n pending ∧ cutOf cut n pending ≤ n ∧ cutOf cut n pending ≤ pending := by
  unfold cutOf
  omega

section Reads

variable (sys : Sys ω) (client : Client) {p : Peer ω}

theorem Peer.received_first (hne : p.pending ≠ []) :
    (Peer.sys sys client.fd).received client.fd WS_MAX_HEADER_LEN .dontWait p =
      (⟨some (p.pending.take (p.cut WS_MAX_HEADER_LEN)), 0⟩, p.advance WS_MAX_HEADER_LEN) := by
  have hpos := List.length_pos_iff.mpr hne
  have hcut : p.cut WS_MAX_HEADER_LEN ≤ WS_MAX_HEADER_LEN := (cutOf_le (by decide) hpos).2.1
  unfold Sys.received Peer.sys Peer.recv
  simp only [if_true, if_neg hne, Option.map_some]
  rw [List.take_of_length_le]
  rw [List.length_take]
  exact Nat.le_trans (Nat.min_le_left _ _) hcut

theorem Peer.firstBytes_eq (hne : p.pending ≠ []) :
    firstBytes (Peer.sys sys client.fd) client p =
      p.pending.take (p.cut WS_MAX_HEADER_LEN) := by
  unfold firstBytes
  rw [Peer.received_first sys client hne]
  rfl

theorem Peer.received_rest (n : Nat) :
    (Peer.sys sys client.fd).received client.fd n .waitAll p =
      (⟨some (p.pending.take n), 0⟩, { p with pending := p.pending.drop n }) := by
  unfold Sys.received Peer.sys Peer.recv
  simp

end Reads

section Call

variable (sys : Sys ω) (ws : WSServer ω) (server : Server) (client : Client) {w w' : ω}
  {out : List WsEvent}

/-- A call whose frame is received goes on to the callbacks. -/
theorem wsHandleMessages_taken (hne : firstBytes sys client w ≠ []) {packet : WSPacket}
    (hrun : receivePacket sys (client.fillBuffer (firstBytes sys client w))
      (firstBytes sys client w).length (afterFirst sys client w) = ⟨.ok (some packet), w', out⟩)
    {r : Result Halt ω WsEvent (ConnStatus × Client)}
    (hdispatch : dispatchPacket ws server (client.fillBuffer (firstBytes sys client w)) packet
      w' = r) :
    wsHandleMessages sys ws server client w =
      ⟨r.outcome, r.state, .received (firstBytes sys client w) :: out ++ r.out⟩ := by
  have hframe := receiveFrame_bytes sys client w hne
  unfold afterFirst at hrun
  rw [hrun] at hframe
  unfold wsHandleMessages
  rw [Proc.bind_run_ok hframe]
  simp only [hdispatch]

theorem wsHandleMessages_refused (hne : firstBytes sys client w ≠ [])
    (hrun : receivePacket sys (client.fillBuffer (firstBytes sys client w))
      (firstBytes sys client w).length (afterFirst sys client w) = ⟨.ok none, w', out⟩) :
    (wsHandleMessages sys ws server client w).outcome =
      .ok (.kill, client.fillBuffer (firstBytes sys client w)) := by
  have hframe := receiveFrame_bytes sys client w hne
  unfold afterFirst at hrun
  rw [hrun] at hframe
  unfold wsHandleMessages
  rw [Proc.bind_run_ok hframe]
  rfl

theorem wsHandleMessages_halted (hne : firstBytes sys client w ≠ []) {e : Halt}
    (hrun : receivePacket sys (client.fillBuffer (firstBytes sys client w))
      (firstBytes sys client w).length (afterFirst sys client w) = ⟨.error e, w', out⟩) :
    (wsHandleMessages sys ws server client w).outcome = .error e := by
  have hframe := receiveFrame_bytes sys client w hne
  unfold afterFirst at hrun
  rw [hrun] at hframe
  unfold wsHandleMessages
  rw [Proc.bind_run_error hframe]

end Call

/-! ## The callbacks -/

theorem messagesOf_append (t u : List WsEvent) :
    messagesOf (t ++ u) = messagesOf t ++ messagesOf u := by
  induction t with
  | nil => rfl
  | cons e t ih =>
    cases e with
    | delivered packet => simp [messagesOf, ih]
    | received bytes => exact ih
    | handshake fd response accepted => exact ih
    | net e => exact ih

@[simp] theorem messagesOf_map_net (t : List NetEvent) : messagesOf (t.map .net) = [] := by
  induction t with
  | nil => rfl
  | cons e t ih => exact ih

section Callbacks

variable {ws : WSServer ω}

/-- The callbacks keep the client that sent a message, tell of it, and leave its stream
alone. -/
theorem dispatchPacket_onPeer (hkeep : ws.KeepsMessages) (hreturns : ws.Returns)
    (server : Server) (client : Client) {packet : WSPacket} (hmessage : packet.isMessage = true)
    (p : Peer ω) :
    ∃ client' w' out, dispatchPacket ws.onPeer server client packet p =
      ⟨.ok (.keepAlive, client'), { p with rest := w' }, out⟩ ∧
      messagesOf out = [(packet.header.opcode, packet.length, packet.data)] := by
  obtain ⟨f, hf, hstatus⟩ := hkeep.onpacket
  obtain ⟨g, hg⟩ := hkeep.onmessage
  obtain ⟨client₁, hok⟩ := hstatus server client packet p.rest hmessage
  obtain ⟨client₂, w₂, out₂, hrun₂⟩ :=
    (hreturns.onmessage g hg server client₁ packet).run (f server client packet p.rest).state
  -- `onpacket`, and then `onmessage`, in the world of the client.
  have hpacket : Proc.mapOut WsEvent.net (Peer.aside (f server client packet)) p =
      ⟨.ok (.keepAlive, client₁), { p with rest := (f server client packet p.rest).state },
        (f server client packet p.rest).out.map .net⟩ := by
    rw [Proc.mapOut_run]
    unfold Peer.aside Proc.zoom
    simp [hok]
  have hdeliver : deliverPacket ws.onPeer server client₁ packet
      { p with rest := (f server client packet p.rest).state } =
      ⟨.ok client₂, { p with rest := w₂ }, .delivered packet :: out₂.map .net⟩ := by
    unfold deliverPacket WSServer.onPeer
    simp only [hg, Option.map_some, Proc.emit_bind_run, Proc.mapOut_run]
    unfold Peer.aside Proc.zoom
    simp [hrun₂]
  refine ⟨client₂, w₂, (f server client packet p.rest).out.map .net ++
    (.delivered packet :: out₂.map .net), ?_, ?_⟩
  · rw [dispatchPacket_some (f := fun server client packet => Peer.aside (f server client packet))
      (by simp [WSServer.onPeer, hf]), Proc.bind_run_ok hpacket, if_pos ⟨rfl, hmessage⟩,
      Proc.bind_run_ok hdeliver]
    simp
  · rw [messagesOf_append, messagesOf_map_net]
    simp [messagesOf]

/-- Whatever they return, the callbacks leave the stream alone. -/
theorem dispatchPacket_pending (server : Server) (client : Client) (packet : WSPacket)
    (p : Peer ω) :
    (dispatchPacket ws.onPeer server client packet p).state.pending = p.pending := by
  have haside : ∀ {α : Type} (m : Proc Halt ω NetEvent α),
      Proc.Keeps (fun _ q => q.pending = p.pending)
        (Proc.mapOut WsEvent.net (Peer.aside m)) := by
    intro α m t q hq
    rw [Proc.mapOut_run]
    unfold Proc.Post Peer.aside Proc.zoom
    simp only
    split <;> exact hq
  have hdeliver : ∀ client, Proc.Keeps (fun _ q => q.pending = p.pending)
      (deliverPacket ws.onPeer server client packet) := by
    intro client
    unfold deliverPacket WSServer.onPeer
    cases ws.onmessage with
    | none => exact Proc.Keeps.pure _
    | some g =>
      exact Proc.Keeps.bind (Proc.Triple.emit fun _ _ hq => hq) fun _ => haside _
  have hkeeps : Proc.Keeps (fun _ q => q.pending = p.pending)
      (dispatchPacket ws.onPeer server client packet) := by
    unfold dispatchPacket
    cases hf : ws.onPeer.onpacket with
    | none => exact Proc.Keeps.pure _
    | some f' =>
      obtain ⟨f, -, rfl⟩ := Option.map_eq_some_iff.mp hf
      refine Proc.Keeps.bind (haside _) fun a => ?_
      refine Proc.Keeps.ite (fun _ => ?_) fun _ => Proc.Keeps.pure _
      exact Proc.Keeps.bind (hdeliver a.2) fun _ => Proc.Keeps.pure _
  exact hkeeps.run rfl

end Callbacks

/-! ## One call -/

section OneCall

variable (sys : Sys ω) (ws : WSServer ω) (client : Client) {p : Peer ω} {frame : ClientFrame}
  {tail : List UInt8}

theorem ClientFrame.wire_ne_nil (frame : ClientFrame) (tail : List UInt8) :
    frame.wire ++ tail ≠ [] := by
  have hlen := ClientFrame.two_le_length_wire frame
  have hwire := ClientFrame.length_wire frame
  intro hnil
  have hzero := congrArg List.length hnil
  rw [List.length_append, List.length_nil] at hzero
  omega

theorem Peer.afterFirst_eq (hne : p.pending ≠ []) :
    afterFirst (Peer.sys sys client.fd) client p = p.advance WS_MAX_HEADER_LEN := by
  unfold afterFirst
  rw [Peer.received_first sys client hne]

/-- `malloc` leaves the stream alone. -/
theorem Peer.afterRead_eq (fd : Int) (head : FrameHead) (q : Peer ω) :
    ∃ w', afterRead (Peer.sys sys fd) head q = { q with rest := w' } := by
  unfold afterRead
  split
  · exact ⟨q.rest, rfl⟩
  · exact ⟨(sys.malloc q.rest).2, rfl⟩

theorem Peer.cut_le (hne : p.pending ≠ []) :
    1 ≤ p.cut WS_MAX_HEADER_LEN ∧ p.cut WS_MAX_HEADER_LEN ≤ WS_MAX_HEADER_LEN ∧
      p.cut WS_MAX_HEADER_LEN ≤ p.pending.length :=
  cutOf_le (by decide) (List.length_pos_iff.mpr hne)

theorem Peer.length_take_cut (hne : p.pending ≠ []) :
    (p.pending.take (p.cut WS_MAX_HEADER_LEN)).length = p.cut WS_MAX_HEADER_LEN :=
  List.length_take_of_le (Peer.cut_le hne).2.2

theorem Peer.firstBytes_ne_nil (hne : p.pending ≠ []) :
    firstBytes (Peer.sys sys client.fd) client p ≠ [] := by
  rw [Peer.firstBytes_eq sys client hne, ← List.length_pos_iff, Peer.length_take_cut hne]
  exact (Peer.cut_le hne).1

/-- A first read that ends behind the head of a frame and not behind its end: the frame is
received as it was written, and exactly it is taken off the stream. -/
theorem receivePacket_frame (hp : p.pending = frame.wire ++ tail)
    (hhead : frame.head.wire.length ≤ p.cut WS_MAX_HEADER_LEN)
    (hend : p.cut WS_MAX_HEADER_LEN ≤ frame.wire.length) :
    ∃ packet w', receivePacket (Peer.sys sys client.fd)
        (client.fillBuffer (p.pending.take (p.cut WS_MAX_HEADER_LEN)))
        (p.pending.take (p.cut WS_MAX_HEADER_LEN)).length (p.advance WS_MAX_HEADER_LEN) =
        ⟨.ok (some packet), ⟨tail, fun i => p.cuts (i + 1), w'⟩, []⟩ ∧
      packet.header = frame.head.header ∧ packet.length = frame.data.length ∧
      packet.data = frame.data := by
  have hne : p.pending ≠ [] := hp ▸ frame.wire_ne_nil tail
  obtain ⟨-, hmax, hle⟩ := Peer.cut_le hne
  have hlen := Peer.length_take_cut hne
  have hwire := ClientFrame.length_wire frame
  unfold Peer.advance
  generalize p.cut WS_MAX_HEADER_LEN = k at *
  rw [hp] at hle hlen ⊢
  have htake := ClientFrame.headOf_take hhead hle
  have hun : ¬ frame.head.frameHead.Unsupported := ClientFrame.not_unsupported rfl
  have hin : ¬ frame.head.frameHead.Overruns ((frame.wire ++ tail).take k).length := by
    rw [hlen]
    exact ClientFrame.not_overruns hhead hend
  rcases Nat.lt_or_ge k frame.wire.length with hlt | hge
  · -- The rest of the payload is pulled.
    have hmore : frame.head.frameHead.NeedsMore ((frame.wire ++ tail).take k).length := by
      rw [hlen]
      exact ClientFrame.needsMore_iff.mpr ⟨hhead, hlt⟩
    have hmissing : frame.head.frameHead.offset + frame.head.frameHead.length -
        ((frame.wire ++ tail).take k).length = frame.wire.length - k := by
      rw [hlen, hwire]
      rfl
    have hrest := receivePacket_pulled (Peer.sys sys client.fd) client htake hin
      (by rw [hlen]; exact hmax) hun hmore
      (w := ⟨(frame.wire ++ tail).drop k, fun i => p.cuts (i + 1), p.rest⟩)
      (Peer.received_rest sys client _)
    have hcount : ((Peer.sys sys client.fd).malloc
        ⟨(frame.wire ++ tail).drop k, fun i => p.cuts (i + 1), p.rest⟩).2.pending =
        (frame.wire ++ tail).drop k := rfl
    rw [hmissing, hcount] at hrest
    have hfull : (((frame.wire ++ tail).drop k).take (frame.wire.length - k)).length =
        frame.wire.length - k := by
      rw [List.length_take_of_le]
      rw [List.length_drop, List.length_append]
      omega
    have htail : ((frame.wire ++ tail).drop k).drop (frame.wire.length - k) = tail := by
      rw [List.drop_drop, Nat.add_sub_cancel' (by omega), List.drop_left]
    rw [if_pos (RecvResult.count_eq_iff.mpr ⟨_, rfl, hfull⟩), htail] at hrest
    exact ⟨_, _, hrest, rfl, rfl, ClientFrame.data_pulledPacket_wire hmax hhead hlt _⟩
  · -- The read ended with the frame.
    have hk : k = frame.wire.length := by omega
    have hmore : ¬ frame.head.frameHead.NeedsMore ((frame.wire ++ tail).take k).length := by
      rw [hlen, ClientFrame.needsMore_iff]
      omega
    have htail : (frame.wire ++ tail).drop k = tail := by
      rw [hk, List.drop_left]
    rw [htail]
    obtain ⟨w', hw'⟩ := Peer.afterRead_eq sys client.fd frame.head.frameHead
      ⟨tail, fun i => p.cuts (i + 1), p.rest⟩
    have hcomplete := receivePacket_complete (Peer.sys sys client.fd) client htake hin
      (by rw [hlen]; exact hmax) hun hmore ⟨tail, fun i => p.cuts (i + 1), p.rest⟩
    rw [hw'] at hcomplete
    exact ⟨_, _, hcomplete, rfl, rfl, ClientFrame.data_firstPacket_wire hk _⟩

theorem ClientFrame.isMessage_of_header {packet : WSPacket}
    (h : packet.header = frame.head.header) : packet.isMessage = true := by
  rw [isMessage_iff, h]
  exact frame.opcode_message

/-- **One frame, in step.**  Exactly the frame is taken off the stream, and it is
delivered. -/
theorem wsHandleMessages_frame {ws : WSServer ω} (hkeep : ws.KeepsMessages) (hreturns : ws.Returns)
    (server : Server) (hp : p.pending = frame.wire ++ tail)
    (hhead : frame.head.wire.length ≤ p.cut WS_MAX_HEADER_LEN)
    (hend : p.cut WS_MAX_HEADER_LEN ≤ frame.wire.length) :
    ∃ client' w' out, wsHandleMessages (Peer.sys sys client.fd) ws.onPeer server client p =
      ⟨.ok (.keepAlive, client'), ⟨tail, fun i => p.cuts (i + 1), w'⟩, out⟩ ∧
      messagesOf out = [frame.message] := by
  have hne : p.pending ≠ [] := hp ▸ frame.wire_ne_nil tail
  obtain ⟨packet, w₁, hrun, hheader, hlength, hdata⟩ :=
    receivePacket_frame sys client hp hhead hend
  rw [← Peer.firstBytes_eq sys client hne, ← Peer.afterFirst_eq sys client hne] at hrun
  obtain ⟨client', w', out, hdispatch, hout⟩ := dispatchPacket_onPeer hkeep hreturns server
    (client.fillBuffer (firstBytes (Peer.sys sys client.fd) client p))
    (ClientFrame.isMessage_of_header hheader) ⟨tail, fun i => p.cuts (i + 1), w₁⟩
  refine ⟨client', w', _, wsHandleMessages_taken _ ws.onPeer server client
    (Peer.firstBytes_ne_nil sys client hne) hrun hdispatch, ?_⟩
  show messagesOf out = _
  rw [hout, hheader, hlength, hdata]
  rfl

/-- **One frame, out of step.**  Any other first read halts the process, kills the client,
or takes too little or too much off the stream. -/
theorem wsHandleMessages_desync (server : Server) (hp : p.pending = frame.wire ++ tail)
    (hcut : ¬ (frame.head.wire.length ≤ p.cut WS_MAX_HEADER_LEN ∧
      p.cut WS_MAX_HEADER_LEN ≤ frame.wire.length)) {client' : Client}
    (hkept : (wsHandleMessages (Peer.sys sys client.fd) ws.onPeer server client p).outcome =
      .ok (.keepAlive, client')) :
    (wsHandleMessages (Peer.sys sys client.fd) ws.onPeer server client p).state.pending ≠
      tail := by
  have hne : p.pending ≠ [] := hp ▸ frame.wire_ne_nil tail
  have hfirst := Peer.firstBytes_ne_nil sys client hne
  have hbytes := Peer.firstBytes_eq sys client hne
  have hworld := Peer.afterFirst_eq sys client hne
  have hlen := Peer.length_take_cut hne
  have hwire := ClientFrame.length_wire frame
  obtain ⟨-, hmax, hle⟩ := Peer.cut_le hne
  intro hpending
  cases hhead : headOf (firstBytes (Peer.sys sys client.fd) client p) with
  | none =>
    rw [wsHandleMessages_refused _ ws.onPeer server client hfirst
      (receivePacket_none _ client hhead _)] at hkept
    cases hkept
  | some head =>
    have hk := length_firstBytes_le (Peer.sys sys client.fd) client p
    have hle' : p.cut WS_MAX_HEADER_LEN ≤ (frame.wire ++ tail).length := hp ▸ hle
    have hspelled : headOf ((frame.wire ++ tail).take (p.cut WS_MAX_HEADER_LEN)) = some head := by
      rw [← hp, ← hbytes, hhead]
    obtain ⟨hheader, hoffset⟩ := ClientFrame.offset_headOf hle' hspelled
    have hun : ¬ head.Unsupported := ClientFrame.not_unsupported hheader
    by_cases hin : head.Overruns (firstBytes (Peer.sys sys client.fd) client p).length
    · rw [wsHandleMessages_halted _ ws.onPeer server client hfirst
        (receivePacket_overrun _ client hhead hin hk _)] at hkept
      cases hkept
    · -- A head that spells missing bytes is the head of the frame, and the read fits it.
      have hmore : ¬ head.NeedsMore (firstBytes (Peer.sys sys client.fd) client p).length := by
        rw [hbytes, hlen]
        intro hmore
        have hlow : frame.head.wire.length ≤ p.cut WS_MAX_HEADER_LEN := hoffset ▸ hmore.1
        rw [ClientFrame.headOf_take hlow hle'] at hspelled
        cases hspelled
        exact hcut ⟨hlow, Nat.le_of_lt (ClientFrame.needsMore_iff.mp hmore).2⟩
      have hrun := receivePacket_complete (Peer.sys sys client.fd) client hhead hin hk hun hmore
        (afterFirst (Peer.sys sys client.fd) client p)
      rw [wsHandleMessages_taken _ ws.onPeer server client hfirst hrun rfl] at hpending
      simp only [dispatchPacket_pending] at hpending
      obtain ⟨w', hw'⟩ := Peer.afterRead_eq sys client.fd head
        (afterFirst (Peer.sys sys client.fd) client p)
      rw [hw', hworld] at hpending
      -- What was taken is as long as the read.
      have htaken : (p.pending.drop (p.cut WS_MAX_HEADER_LEN)).length = tail.length :=
        congrArg List.length hpending
      rw [List.length_drop, hp, List.length_append] at htaken
      rw [List.length_append] at hle'
      exact hcut ⟨by omega, by omega⟩

/-- A call that finds nothing keeps the client. -/
theorem wsHandleMessages_drained (server : Server) (hp : p.pending = []) :
    ∃ client', wsHandleMessages (Peer.sys sys client.fd) ws.onPeer server client p =
      ⟨.ok (.keepAlive, client'), p, []⟩ := by
  have hr : (Peer.sys sys client.fd).received client.fd WS_MAX_HEADER_LEN .dontWait p =
      (⟨none, EAGAIN⟩, p) := by
    unfold Sys.received Peer.sys Peer.recv
    simp [hp]
  have hframe : receiveFrame (Peer.sys sys client.fd) client p =
      ⟨.ok (.error .keepAlive, client.fillBuffer []), p, []⟩ := by
    unfold receiveFrame
    rw [Proc.bind_run_ok (firstRead_run (Peer.sys sys client.fd) p hr)]
    rfl
  refine ⟨client.fillBuffer [], ?_⟩
  unfold wsHandleMessages
  rw [Proc.bind_run_ok hframe]
  rfl

end OneCall

/-! ## All calls -/

section Calls

variable (sys : Sys ω) {ws : WSServer ω} {frame : ClientFrame} {frames : List ClientFrame}

/-- What a run makes of its first call, and the rest of it. -/
theorem handleEach_cons_run (sys : Sys ω) (ws : WSServer ω) {server : Server}
    {servers : List Server} {client client' : Client} {status : ConnStatus} {w w' : ω}
    {out : List WsEvent}
    (hcall : wsHandleMessages sys ws server client w = ⟨.ok (status, client'), w', out⟩) :
    handleEach sys ws (server :: servers) client w =
      match handleEach sys ws servers { client' with fd := client.fd } w' with
      | ⟨.error e, w'', out'⟩ => ⟨.error e, w'', out ++ out'⟩
      | ⟨.ok statuses, w'', out'⟩ => ⟨.ok (status :: statuses), w'', out ++ out'⟩ := by
  rw [handleEach, Proc.bind_run_ok hcall]
  rcases hrest : handleEach sys ws servers { client' with fd := client.fd } w' with ⟨o, w'', out'⟩
  cases o with
  | error e => simp only [Proc.bind_run_error hrest]
  | ok statuses => simp only [Proc.bind_run_ok hrest, Proc.pure_run, List.append_nil]

/-- A run that starts with a frame in step is in step if the rest of it is. -/
theorem inStep_cons {server : Server} {servers : List Server} {client client' : Client} {n : Nat}
    {fd : Int} {p q : Peer ω} {out : List WsEvent}
    (hcall : wsHandleMessages (Peer.sys sys fd) ws.onPeer server client p =
      ⟨.ok (.keepAlive, client'), q, out⟩) (hout : messagesOf out = [frame.message]) :
    InStep (frame :: frames) (n + 1)
        (handleEach (Peer.sys sys fd) ws.onPeer (server :: servers) client p) ↔
      InStep frames n
        (handleEach (Peer.sys sys fd) ws.onPeer servers { client' with fd := client.fd } q) := by
  rw [handleEach_cons_run (Peer.sys sys fd) ws.onPeer hcall]
  rcases handleEach (Peer.sys sys fd) ws.onPeer servers { client' with fd := client.fd } q
    with ⟨o, q', out'⟩
  cases o with
  | error e =>
    constructor
    · rintro ⟨hkept, -, -⟩
      cases hkept
    · rintro ⟨hkept, -, -⟩
      cases hkept
  | ok statuses =>
    constructor
    · rintro ⟨hkept, hmessages, hpending⟩
      rw [messagesOf_append, hout] at hmessages
      refine ⟨?_, (List.cons.inj hmessages).2, hpending⟩
      exact congrArg Except.ok (List.cons.inj (Except.ok.inj hkept)).2
    · rintro ⟨hkept, hmessages, hpending⟩
      refine ⟨?_, ?_, hpending⟩
      · exact congrArg (fun l => Except.ok (ConnStatus.keepAlive :: l)) (Except.ok.inj hkept)
      · rw [messagesOf_append, hout, hmessages]
        rfl

/-- The first call of a run in step. -/
theorem inStep_first {server : Server} {client : Client} {fd : Int} {p : Peer ω}
    (h : InStep (frame :: frames) 1
      (handleEach (Peer.sys sys fd) ws.onPeer [server] client p)) :
    (∃ client', (wsHandleMessages (Peer.sys sys fd) ws.onPeer server client p).outcome =
      .ok (.keepAlive, client')) ∧
    (wsHandleMessages (Peer.sys sys fd) ws.onPeer server client p).state.pending =
      wireOf frames := by
  obtain ⟨hkept, -, hpending⟩ := h
  rw [handleEach] at hkept hpending
  rcases hcall : wsHandleMessages (Peer.sys sys fd) ws.onPeer server client p with ⟨o, q, out⟩
  cases o with
  | error e =>
    rw [Proc.bind_run_error hcall] at hkept
    cases hkept
  | ok a =>
    obtain ⟨status, client'⟩ := a
    rw [Proc.bind_run_ok hcall] at hkept hpending
    have hstatus : status = .keepAlive := (List.cons.inj (Except.ok.inj hkept)).1
    subst hstatus
    exact ⟨⟨client', rfl⟩, hpending⟩

/-- When every frame was taken, every further call keeps the client and does nothing. -/
theorem inStep_nil (servers : List Server) (client : Client) (cuts : Nat → Nat) (w : ω) :
    InStep [] servers.length
      (handleEach (Peer.sys sys client.fd) ws.onPeer servers client ⟨[], cuts, w⟩) := by
  induction servers generalizing client with
  | nil => exact ⟨rfl, rfl, rfl⟩
  | cons server servers ih =>
    obtain ⟨client', hcall⟩ := wsHandleMessages_drained sys ws client
      (p := ⟨[], cuts, w⟩) server rfl
    have hrest : InStep [] servers.length (handleEach (Peer.sys sys client.fd) ws.onPeer servers
      { client' with fd := client.fd } ⟨[], cuts, w⟩) := ih { client' with fd := client.fd }
    rw [handleEach_cons_run (Peer.sys sys client.fd) ws.onPeer hcall]
    rcases hrun : handleEach (Peer.sys sys client.fd) ws.onPeer servers
      { client' with fd := client.fd } ⟨[], cuts, w⟩ with ⟨o, q, out⟩
    rw [hrun] at hrest
    obtain ⟨hkept, hmessages, hpending⟩ := hrest
    simp only at hkept
    subst hkept
    exact ⟨rfl, by simpa using hmessages, by simpa using hpending⟩

/-- **Framing, exactly.**  A client writes frames back to back.  However often
`wsHandleMessages` is then called, every call keeps the client, `onmessage` is called for
one frame after the other, and what stays on the stream starts with the next frame: if and
only if every first read ends behind the head of its frame and not behind its end. -/
theorem handleEach_inStep_iff (hkeep : ws.KeepsMessages) (hreturns : ws.Returns)
    (frames : List ClientFrame) (client : Client) (cuts : Nat → Nat) (w : ω) :
    (∀ servers, InStep frames servers.length
      (handleEach (Peer.sys sys client.fd) ws.onPeer servers client
        ⟨wireOf frames, cuts, w⟩)) ↔ CutsFit frames cuts := by
  induction frames generalizing client cuts w with
  | nil => exact ⟨fun _ => trivial, fun _ servers => inStep_nil sys servers client cuts w⟩
  | cons frame frames ih =>
    have hp : wireOf (frame :: frames) = frame.wire ++ wireOf frames := List.flatMap_cons
    constructor
    · intro h
      have hfit : frame.head.wire.length ≤
            cutOf (cuts 0) WS_MAX_HEADER_LEN (wireOf (frame :: frames)).length ∧
          cutOf (cuts 0) WS_MAX_HEADER_LEN (wireOf (frame :: frames)).length ≤
            frame.wire.length := by
        by_contra hcut
        obtain ⟨⟨client', hkept⟩, hpending⟩ := inStep_first sys (h [Server.blank])
        exact wsHandleMessages_desync sys ws client Server.blank hp hcut hkept hpending
      obtain ⟨client', w', out, hcall, hout⟩ := wsHandleMessages_frame sys client
        (p := ⟨wireOf (frame :: frames), cuts, w⟩) hkeep hreturns Server.blank hp hfit.1 hfit.2
      refine ⟨hfit, (ih { client' with fd := client.fd } _ w').mp fun servers => ?_⟩
      exact (inStep_cons sys hcall hout).mp (h (Server.blank :: servers))
    · rintro ⟨hfit, hrest⟩ servers
      cases servers with
      | nil => exact ⟨rfl, rfl, rfl⟩
      | cons server servers =>
        obtain ⟨client', w', out, hcall, hout⟩ := wsHandleMessages_frame sys client
          (p := ⟨wireOf (frame :: frames), cuts, w⟩) hkeep hreturns server hp hfit.1 hfit.2
        exact (inStep_cons sys hcall hout).mpr
          ((ih { client' with fd := client.fd } _ w').mpr hrest servers)

end Calls

/-- A text of one byte. -/
def oneByteText (b : UInt8) : ClientFrame where
  opcode := WS_OP_TEXT
  RSV := 0#3
  form := .short
  key := fun _ => 0x55
  data := [b]
  opcode_message := .inl rfl
  fits := show 1 < 126 by decide
  length_le := show 1 ≤ MAX_WS_PACKET_LENGTH by decide

/-- One text, and a first read that returns all seven bytes of it. -/
theorem handleEach_inStep_iff_one_text :
    (∀ servers, InStep [oneByteText 0x68] servers.length
      (handleEach (Peer.sys Script.sys Client.blank.fd) quietServer.onPeer servers Client.blank
        ⟨wireOf [oneByteText 0x68], fun _ => 7, {}⟩)) ↔
      CutsFit [oneByteText 0x68] fun _ => 7 :=
  handleEach_inStep_iff Script.sys quietServer_keepsMessages quietServer_returns
    [oneByteText 0x68] Client.blank (fun _ => 7) {}

/-- Two texts, and a first read that returns all fourteen bytes of them. -/
theorem two_texts_out_of_step :
    ¬ ∀ servers, InStep [oneByteText 0x68, oneByteText 0x69] servers.length
      (handleEach (Peer.sys Script.sys Client.blank.fd) quietServer.onPeer servers Client.blank
        ⟨wireOf [oneByteText 0x68, oneByteText 0x69], fun _ => 14, {}⟩) := by
  intro h
  obtain ⟨⟨client', hkept⟩, -⟩ := inStep_first Script.sys (h [Server.blank])
  have hhalted : (wsHandleMessages (Peer.sys Script.sys Client.blank.fd) quietServer.onPeer
      Server.blank Client.blank
      ⟨wireOf [oneByteText 0x68, oneByteText 0x69], fun _ => 14, {}⟩).outcome =
      .error .outOfBounds := by
    decide +kernel
  rw [hhalted] at hkept
  cases hkept

end NoGround
