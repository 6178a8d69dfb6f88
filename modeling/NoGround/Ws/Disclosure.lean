/-
  Ws/Disclosure.lean --- does a delivered payload depend on what the heap held before?

  Two runs of `wsHandleMessages` on one system, which differ only in the contents of
  the blocks `malloc` returns, are compared by the packets they hand to `onmessage`
  (`frameOf`).  The payload of a masked frame is overwritten to its last byte before it
  is delivered.  Of an unmasked frame only what the second read returns is written: the
  part that came with the first read, and all of a frame that needs no second read, is
  never copied, and what is delivered there is the heap's.
-/
import NoGround.Ws.Safety

set_option autoImplicit false

namespace NoGround

open NoGround.Lib

variable {ω : Type}

/-! ## What is delivered -/

/-- The payloads handed to `onmessage`, and the frames a relay makes of them. -/
def delivered : List WsEvent → List (List UInt8 × List UInt8)
  | [] => []
  | .delivered packet :: t => (packet.data, packet.frame) :: delivered t
  | .received _ :: t => delivered t
  | .handshake _ _ _ :: t => delivered t
  | .net _ :: t => delivered t

theorem delivered_append (t u : List WsEvent) :
    delivered (t ++ u) = delivered t ++ delivered u := by
  induction t with
  | nil => rfl
  | cons e t ih =>
    cases e with
    | delivered packet => simp [delivered, ih]
    | received bytes => exact ih
    | handshake fd response accepted => exact ih
    | net e => exact ih

@[simp] theorem delivered_map_net (t : List NetEvent) : delivered (t.map .net) = [] := by
  induction t with
  | nil => rfl
  | cons e t ih => exact ih

/-- The packet a call of `wsHandleMessages` goes on with. -/
def frameOf (sys : Sys ω) (client : Client) (w : ω) : Option WSPacket :=
  match (receiveFrame sys client w).outcome with
  | .ok (.ok packet, _) => some packet
  | .ok (.error _, _) => none
  | .error _ => none

/-- `onpacket` keeps the client that sent a message. -/
structure WSServer.KeepsMessages (ws : WSServer ω) : Prop where
  onpacket : ∃ f, ws.onpacket = some f ∧ ∀ server client packet w,
    packet.isMessage = true →
      ∃ client', (f server client packet w).outcome = .ok (.keepAlive, client')
  onmessage : ∃ f, ws.onmessage = some f

section Delivered

variable {ws : WSServer ω} (hws : ws.KeepsMessages)

theorem dispatchPacket_some {f : OnWSPacket ω} (hf : ws.onpacket = some f)
    (server : Server) (client : Client) (packet : WSPacket) :
    dispatchPacket ws server client packet =
      (Proc.mapOut .net (f server client packet) >>= fun a =>
        if a.1 = .keepAlive ∧ packet.isMessage = true then
          deliverPacket ws server a.2 packet >>= fun client => pure (a.1, client)
        else pure (a.1, a.2)) := by
  unfold dispatchPacket
  rw [hf]

theorem delivered_deliverPacket {f : OnWSMessage ω} (hf : ws.onmessage = some f)
    (server : Server) (client : Client) (packet : WSPacket) (w : ω) :
    delivered (deliverPacket ws server client packet w).out =
      [(packet.data, packet.frame)] := by
  unfold deliverPacket
  rw [hf]
  simp [delivered, Proc.mapOut_run]

include hws

/-- The packet is delivered if it is a message, and nothing else is. -/
theorem delivered_dispatchPacket (server : Server) (client : Client) (packet : WSPacket)
    (w : ω) :
    delivered (dispatchPacket ws server client packet w).out =
      if packet.isMessage then [(packet.data, packet.frame)] else [] := by
  obtain ⟨f, hf, hkeep⟩ := hws.onpacket
  obtain ⟨g, hg⟩ := hws.onmessage
  have hnet := Proc.mapOut_run WsEvent.net (f server client packet) w
  rw [dispatchPacket_some hf]
  cases hmessage : packet.isMessage with
  | true =>
    obtain ⟨client', hok⟩ := hkeep server client packet w hmessage
    rw [hok] at hnet
    rcases hrun : deliverPacket ws server client' packet
      (f server client packet w).state with ⟨r, w', out⟩
    have hout := delivered_deliverPacket hg server client' packet
      (f server client packet w).state
    rw [hrun] at hout
    rw [Proc.bind_run_ok hnet, if_pos ⟨rfl, rfl⟩, delivered_append, delivered_map_net,
      List.nil_append]
    cases r with
    | error e => rw [Proc.bind_run_error hrun]; exact hout
    | ok a =>
      rw [Proc.bind_run_ok hrun, delivered_append, hout]
      rfl
  | false =>
    rcases hr : (f server client packet w).outcome with e | a
    · rw [hr] at hnet
      rw [Proc.bind_run_error hnet, delivered_map_net]
      rfl
    · rw [hr] at hnet
      rw [Proc.bind_run_ok hnet, if_neg (by simp), delivered_append, delivered_map_net]
      rfl

/-- What a call delivers: its frame, if it has one that is a message. -/
theorem delivered_wsHandleMessages (sys : Sys ω) (server : Server) (client : Client) (w : ω) :
    delivered (wsHandleMessages sys ws server client w).out =
      match frameOf sys client w with
      | none => []
      | some packet => if packet.isMessage then [(packet.data, packet.frame)] else [] := by
  have hout : delivered (receiveFrame sys client w).out = [] := by
    rw [receiveFrame_out]
    split <;> rfl
  unfold wsHandleMessages frameOf
  rcases hrun : receiveFrame sys client w with ⟨r, w', out⟩
  rw [hrun] at hout
  cases r with
  | error e =>
    rw [Proc.bind_run_error hrun]
    exact hout
  | ok a =>
    obtain ⟨received, client'⟩ := a
    rw [Proc.bind_run_ok hrun, delivered_append, hout, List.nil_append]
    cases received with
    | error status => rfl
    | ok packet => exact delivered_dispatchPacket hws server client' packet w'

end Delivered

/-! ## Frames over different heaps -/

/-- The same system, whose fresh blocks hold `heap`. -/
def Sys.withHeap (sys : Sys ω) (heap : Nat → UInt8) : Sys ω :=
  { sys with malloc := fun w => (heap, (sys.malloc w).2) }

section Heaps

variable (sys : Sys ω) (client : Client) (w : ω)

/-- The world after the first read. -/
def afterFirst : ω := (sys.received client.fd WS_MAX_HEADER_LEN .dontWait w).2

/-- What the second read returns, when `n` bytes are missing. -/
def secondRead (n : Nat) : RecvResult :=
  (sys.received client.fd n .waitAll (sys.malloc (afterFirst sys client w)).2).1

/-- A frame is what `receivePacket` makes of the first read. -/
theorem frameOf_eq (hne : firstBytes sys client w ≠ []) {o : Except Halt (Option WSPacket)}
    {w' : ω} {out : List WsEvent}
    (hrun : receivePacket sys (client.fillBuffer (firstBytes sys client w))
      (firstBytes sys client w).length (afterFirst sys client w) = ⟨o, w', out⟩) :
    frameOf sys client w = match o with
      | .ok packet => packet
      | .error _ => none := by
  unfold frameOf
  unfold afterFirst at hrun
  rw [receiveFrame_bytes sys client w hne, hrun]
  cases o with
  | error e => rfl
  | ok packet => cases packet <;> rfl

section FrameCases

variable {sys client w} {head : FrameHead} (heap : Nat → UInt8)

theorem firstBytes_ne_nil (hhead : headOf (firstBytes sys client w) = some head) :
    firstBytes sys client w ≠ [] := by
  intro hnil
  rw [hnil] at hhead
  cases hhead

theorem frameOf_none (hhead : headOf (firstBytes sys client w) = none) :
    frameOf (sys.withHeap heap) client w = none := by
  by_cases hnil : firstBytes sys client w = []
  · obtain ⟨status, w', hrun⟩ := receiveFrame_idle (sys.withHeap heap) client w hnil
    unfold frameOf
    rw [hrun]
  · exact frameOf_eq (sys.withHeap heap) client w hnil
      (receivePacket_none (sys.withHeap heap) client hhead _)

theorem frameOf_stopped (hstop : ¬ Survives (firstBytes sys client w)) :
    frameOf (sys.withHeap heap) client w = none := by
  have hne : firstBytes sys client w ≠ [] := by
    intro hnil
    exact hstop (hnil ▸ survives_nil)
  obtain ⟨e, w', hrun, -⟩ := receivePacket_error (sys.withHeap heap) client
    (length_firstBytes_le sys client w) hstop (afterFirst sys client w)
  exact frameOf_eq (sys.withHeap heap) client w hne hrun

theorem frameOf_complete (hhead : headOf (firstBytes sys client w) = some head)
    (hin : ¬ head.Overruns (firstBytes sys client w).length) (hun : ¬ head.Unsupported)
    (hmore : ¬ head.NeedsMore (firstBytes sys client w).length) :
    frameOf (sys.withHeap heap) client w =
      some (firstPacket head (firstBytes sys client w) heap) :=
  frameOf_eq (sys.withHeap heap) client w (firstBytes_ne_nil hhead)
    (receivePacket_complete (sys.withHeap heap) client hhead hin
      (length_firstBytes_le sys client w) hun hmore _)

/-- How many bytes are missing after the first read. -/
def missing (sys : Sys ω) (client : Client) (w : ω) (head : FrameHead) : Nat :=
  head.offset + head.length - (firstBytes sys client w).length

theorem frameOf_pulled (hhead : headOf (firstBytes sys client w) = some head)
    (hin : ¬ head.Overruns (firstBytes sys client w).length) (hun : ¬ head.Unsupported)
    (hmore : head.NeedsMore (firstBytes sys client w).length) :
    frameOf (sys.withHeap heap) client w =
      if (secondRead sys client w (missing sys client w head)).count =
          missing sys client w head then
        some (pulledPacket head (firstBytes sys client w) heap
          ((secondRead sys client w (missing sys client w head)).bytes.getD []))
      else none :=
  frameOf_eq (sys.withHeap heap) client w (firstBytes_ne_nil hhead)
    (receivePacket_pulled (sys.withHeap heap) client hhead hin
      (length_firstBytes_le sys client w) hun hmore rfl)

end FrameCases

end Heaps

/-! ## Payloads over different heaps -/

section Payloads

variable {head : FrameHead} {bytes : List UInt8}

theorem data_firstPacket (hlength : head.length ≠ 0) (heap : Nat → UInt8) :
    (firstPacket head bytes heap).data = (firstPayload head bytes heap).bytes head.length := by
  unfold WSPacket.data firstPacket FrameHead.packet
  rw [if_neg hlength]

theorem data_firstPacket_empty (hlength : head.length = 0) (heap : Nat → UInt8) :
    (firstPacket head bytes heap).data = [] := by
  unfold WSPacket.data firstPacket FrameHead.packet
  rw [if_pos hlength]

theorem data_pulledPacket (heap : Nat → UInt8) (rest : List UInt8) :
    (pulledPacket head bytes heap rest).data =
      (pulledPayload (firstPacket head bytes heap) (firstPayload head bytes heap) rest).bytes
        head.length := rfl

/-- A masked payload that is complete after the first read is decoded to its end. -/
theorem data_firstPacket_congr (hmask : head.header.mask = 1#1)
    (hin : ¬ head.Overruns bytes.length) (hmore : ¬ head.NeedsMore bytes.length)
    (heap₁ heap₂ : Nat → UInt8) :
    (firstPacket head bytes heap₁).data = (firstPacket head bytes heap₂).data := by
  by_cases hlength : head.length = 0
  · rw [data_firstPacket_empty hlength, data_firstPacket_empty hlength]
  · have hrange : head.offset ≤ bytes.length ∧ bytes.length ≤ head.offset + head.length := by
      by_contra hrange
      exact hin ⟨hmask, hlength, hrange⟩
    have hend : bytes.length = head.offset + head.length := by
      unfold FrameHead.NeedsMore at hmore
      omega
    rw [data_firstPacket hlength, data_firstPacket hlength]
    refine Block.bytes_congr ?_
    intro j hj
    have hdecoded : head.header.mask = 1#1 ∧ j < bytes.length - head.offset :=
      ⟨hmask, by omega⟩
    simp only [firstPayload, if_pos hdecoded]

theorem byte_pulledPayload (hk : bytes.length ≤ WS_MAX_HEADER_LEN)
    (hmore : head.NeedsMore bytes.length) (heap : Nat → UInt8) (rest : List UInt8) (j : Nat) :
    (pulledPayload (firstPacket head bytes heap) (firstPayload head bytes heap) rest).byte j =
      if bytes.length - head.offset ≤ j ∧ j < head.length then
        rest.getD (j - (bytes.length - head.offset)) 0 ^^^ head.mask_key.get j
      else (firstPayload head bytes heap).byte j := by
  have hmax : WS_MAX_HEADER_LEN = 14 := rfl
  have hlen : (firstPacket head bytes heap).len = bytes.length - head.offset :=
    FrameHead.packet_len_of_le hmore.1 (by omega) _
  unfold pulledPayload
  simp only [hlen]
  rfl

/-- A payload of which the first part is decoded, or is empty, and the rest is pulled. -/
theorem data_pulledPacket_congr (hk : bytes.length ≤ WS_MAX_HEADER_LEN)
    (hmore : head.NeedsMore bytes.length)
    (hfirst : head.header.mask = 1#1 ∨ bytes.length = head.offset)
    (heap₁ heap₂ : Nat → UInt8) (rest : List UInt8) :
    (pulledPacket head bytes heap₁ rest).data = (pulledPacket head bytes heap₂ rest).data := by
  rw [data_pulledPacket, data_pulledPacket]
  refine Block.bytes_congr ?_
  intro j hj
  rw [byte_pulledPayload hk hmore, byte_pulledPayload hk hmore]
  split
  · rfl
  · rename_i hpart
    rcases hfirst with hmask | hempty
    · have hdecoded : head.header.mask = 1#1 ∧ j < bytes.length - head.offset :=
        ⟨hmask, by omega⟩
      simp only [firstPayload, if_pos hdecoded]
    · omega

/-- The first byte of an unmasked payload that is not pulled is the heap's. -/
theorem byte_firstPayload_unmasked (hmask : head.header.mask ≠ 1#1) (heap : Nat → UInt8)
    (j : Nat) : (firstPayload head bytes heap).byte j = heap j := by
  simp [firstPayload, hmask]

theorem shown_congr {p q : WSPacket} (hheader : p.header = q.header)
    (hlength : p.length = q.length) (hdata : p.data = q.data) :
    (p.data, p.frame) = (q.data, q.frame) := by
  unfold WSPacket.frame WSPacket.headerBytes
  rw [hheader, hlength, hdata]

end Payloads

/-! ## Disclosure -/

/-- An unmasked message of which a part came with the first read. -/
def FrameHead.Stale (head : FrameHead) (k : Nat) : Prop :=
  head.header.mask ≠ 1#1 ∧ head.length ≠ 0 ∧ k ≠ head.offset ∧ ¬ head.Unsupported ∧
    (head.header.opcode = WS_OP_TEXT ∨ head.header.opcode = WS_OP_BIN)

/-- The first read spells such a frame, and what is missing of it is received. -/
def Discloses (sys : Sys ω) (client : Client) (w : ω) : Prop :=
  ∃ head, headOf (firstBytes sys client w) = some head ∧
    head.Stale (firstBytes sys client w).length ∧
    (head.NeedsMore (firstBytes sys client w).length →
      (secondRead sys client w (missing sys client w head)).count = missing sys client w head)

section Disclosure

variable {ws : WSServer ω}

/-- Which of two packets with one header is delivered does not matter, unless they are
messages with different data. -/
theorem shown_if_congr {p q : WSPacket} (hheader : p.header = q.header)
    (hlength : p.length = q.length) (hdata : p.isMessage = true → p.data = q.data) :
    (if p.isMessage then [(p.data, p.frame)] else []) =
      if q.isMessage then [(q.data, q.frame)] else [] := by
  have hmessage : p.isMessage = q.isMessage := by
    unfold WSPacket.isMessage
    rw [hheader]
  cases hp : p.isMessage with
  | true =>
    rw [← hmessage, hp, if_pos rfl, if_pos rfl, shown_congr hheader hlength (hdata hp)]
  | false => rw [← hmessage, hp]; rfl

/-- Two different payloads that are both delivered differ. -/
theorem shown_if_inj {p q : WSPacket} (hp : p.isMessage = true) (hq : q.isMessage = true)
    (h : (if p.isMessage then [(p.data, p.frame)] else []) =
      if q.isMessage then [(q.data, q.frame)] else []) : p.data = q.data := by
  rw [if_pos hp, if_pos hq] at h
  simp only [List.cons.injEq, Prod.mk.injEq, and_true] at h
  exact h.1

theorem isMessage_iff {packet : WSPacket} : packet.isMessage = true ↔
    packet.header.opcode = WS_OP_TEXT ∨ packet.header.opcode = WS_OP_BIN := by
  unfold WSPacket.isMessage
  simp

include ws in
/-- Delivered payloads do not depend on the heap, if no stale part is delivered. -/
theorem delivered_congr_of_not_discloses (hws : ws.KeepsMessages) {sys : Sys ω}
    {client : Client} {w : ω} (hnot : ¬ Discloses sys client w) (server : Server)
    (heap₁ heap₂ : Nat → UInt8) :
    delivered (wsHandleMessages (sys.withHeap heap₁) ws server client w).out =
      delivered (wsHandleMessages (sys.withHeap heap₂) ws server client w).out := by
  rw [delivered_wsHandleMessages hws, delivered_wsHandleMessages hws]
  cases hhead : headOf (firstBytes sys client w) with
  | none => rw [frameOf_none heap₁ hhead, frameOf_none heap₂ hhead]
  | some head =>
    by_cases hsurvives : Survives (firstBytes sys client w)
    · obtain ⟨hin, hun⟩ := hsurvives
      simp only [PayloadOverrun, UnsupportedFrame, hhead] at hin hun
      by_cases hmore : head.NeedsMore (firstBytes sys client w).length
      · rw [frameOf_pulled heap₁ hhead hin hun hmore, frameOf_pulled heap₂ hhead hin hun hmore]
        by_cases hcount : (secondRead sys client w (missing sys client w head)).count =
            missing sys client w head
        · rw [if_pos hcount, if_pos hcount]
          refine shown_if_congr rfl rfl ?_
          intro hmessage
          refine data_pulledPacket_congr (length_firstBytes_le sys client w) hmore ?_ _ _ _
          by_contra hstale
          rw [not_or] at hstale
          have hlength : head.length ≠ 0 := by
            unfold FrameHead.NeedsMore at hmore
            omega
          exact hnot ⟨head, hhead, ⟨hstale.1, hlength, hstale.2, hun,
            isMessage_iff.mp hmessage⟩, fun _ => hcount⟩
        · rw [if_neg hcount, if_neg hcount]
      · rw [frameOf_complete heap₁ hhead hin hun hmore,
          frameOf_complete heap₂ hhead hin hun hmore]
        refine shown_if_congr rfl rfl ?_
        intro hmessage
        by_cases hmask : head.header.mask = 1#1
        · exact data_firstPacket_congr hmask hin hmore _ _
        · by_cases hlength : head.length = 0
          · rw [data_firstPacket_empty hlength, data_firstPacket_empty hlength]
          · have hk : (firstBytes sys client w).length ≠ head.offset := by
              unfold FrameHead.NeedsMore at hmore
              omega
            exact absurd ⟨head, hhead, ⟨hmask, hlength, hk, hun, isMessage_iff.mp hmessage⟩,
              fun h => absurd h hmore⟩ hnot
    · rw [frameOf_stopped heap₁ hsurvives, frameOf_stopped heap₂ hsurvives]

/-- The first byte of a stale part is the first byte of the block. -/
theorem delivered_ne_of_discloses (hws : ws.KeepsMessages) {sys : Sys ω} {client : Client}
    {w : ω} (hdisc : Discloses sys client w) (server : Server) (heap₁ heap₂ : Nat → UInt8)
    (hheap : heap₁ 0 ≠ heap₂ 0) :
    delivered (wsHandleMessages (sys.withHeap heap₁) ws server client w).out ≠
      delivered (wsHandleMessages (sys.withHeap heap₂) ws server client w).out := by
  obtain ⟨head, hhead, ⟨hmask, hlength, hk, hun, hmessage⟩, hsecond⟩ := hdisc
  have hle := length_firstBytes_le sys client w
  have hin : ¬ head.Overruns (firstBytes sys client w).length := fun hover => hmask hover.1
  have hpos : 0 < head.length := Nat.pos_of_ne_zero hlength
  rw [delivered_wsHandleMessages hws, delivered_wsHandleMessages hws]
  intro heq
  by_cases hmore : head.NeedsMore (firstBytes sys client w).length
  · rw [frameOf_pulled heap₁ hhead hin hun hmore, frameOf_pulled heap₂ hhead hin hun hmore,
      if_pos (hsecond hmore), if_pos (hsecond hmore)] at heq
    have hdata := shown_if_inj (isMessage_iff.mpr hmessage) (isMessage_iff.mpr hmessage) heq
    rw [data_pulledPacket, data_pulledPacket] at hdata
    have hbyte := Block.bytes_inj hdata hpos
    have hpart : ¬ ((firstBytes sys client w).length - head.offset ≤ 0 ∧ 0 < head.length) := by
      have hge := hmore.1
      omega
    rw [byte_pulledPayload hle hmore, byte_pulledPayload hle hmore, if_neg hpart, if_neg hpart,
      byte_firstPayload_unmasked hmask, byte_firstPayload_unmasked hmask] at hbyte
    exact hheap hbyte
  · rw [frameOf_complete heap₁ hhead hin hun hmore, frameOf_complete heap₂ hhead hin hun hmore]
      at heq
    have hdata := shown_if_inj (isMessage_iff.mpr hmessage) (isMessage_iff.mpr hmessage) heq
    rw [data_firstPacket hlength, data_firstPacket hlength] at hdata
    have hbyte := Block.bytes_inj hdata hpos
    rw [byte_firstPayload_unmasked hmask, byte_firstPayload_unmasked hmask] at hbyte
    exact hheap hbyte

/-- **Disclosure, exactly.**  Two calls that receive the same bytes over different heaps
deliver, and relay, the same payloads if and only if no unmasked message is delivered of
which a part came with the first read. -/
theorem wsHandleMessages_heap_iff (sys : Sys ω) (hws : ws.KeepsMessages) (server : Server)
    (client : Client) (w : ω) :
    (∀ heap₁ heap₂,
      delivered (wsHandleMessages (sys.withHeap heap₁) ws server client w).out =
        delivered (wsHandleMessages (sys.withHeap heap₂) ws server client w).out) ↔
      ¬ Discloses sys client w := by
  constructor
  · intro h hdisc
    exact delivered_ne_of_discloses hws hdisc server (fun _ => 0) (fun _ => 1) (by decide) (h _ _)
  · intro hnot heap₁ heap₂
    exact delivered_congr_of_not_discloses hws hnot server heap₁ heap₂

end Disclosure

theorem quietServer_keepsMessages : quietServer.KeepsMessages :=
  ⟨⟨_, rfl, fun _ client _ _ _ => ⟨client, rfl⟩⟩, ⟨_, rfl⟩⟩

/-- A masked text of one byte. -/
theorem wsHandleMessages_heap_iff_masked_text :
    (∀ heap₁ heap₂,
      delivered (wsHandleMessages (Script.sys.withHeap heap₁) quietServer Server.blank
        Client.blank { recvs := [some [0x81, 0x81, 1, 2, 3, 4, 0x68]] }).out =
      delivered (wsHandleMessages (Script.sys.withHeap heap₂) quietServer Server.blank
        Client.blank { recvs := [some [0x81, 0x81, 1, 2, 3, 4, 0x68]] }).out) ↔
      ¬ Discloses Script.sys Client.blank
        { recvs := [some [0x81, 0x81, 1, 2, 3, 4, 0x68]] } :=
  wsHandleMessages_heap_iff Script.sys quietServer_keepsMessages Server.blank Client.blank _

/-- An unmasked text of one byte: the byte that is delivered is the heap's. -/
theorem unmasked_text_discloses :
    ¬ ∀ heap₁ heap₂,
      delivered (wsHandleMessages (Script.sys.withHeap heap₁) quietServer Server.blank
        Client.blank { recvs := [some [0x81, 0x01, 0x68]] }).out =
      delivered (wsHandleMessages (Script.sys.withHeap heap₂) quietServer Server.blank
        Client.blank { recvs := [some [0x81, 0x01, 0x68]] }).out := by
  intro h
  have hzero := h (fun _ => 0) (fun _ => 1)
  revert hzero
  decide +kernel

end NoGround
