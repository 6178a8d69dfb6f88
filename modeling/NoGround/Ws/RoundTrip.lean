/-
  Ws/RoundTrip.lean --- what `wsSendPacket` writes, `wsReadPacket` reads.

  The writer chooses a length form at 126 and at `SHRT_MAX`, the reader goes by the
  code it finds.  They meet in the wire format: the header that is written is the
  wire form of an unmasked head.
-/
import NoGround.Ws.Send
import NoGround.Ws.Frame

set_option autoImplicit false

namespace NoGround

open NoGround.Lib

variable {ω ω' : Type}

/-! ## What is written -/

/-- The form `wsSendPacket` chooses. -/
def sentForm (length : Nat) : LengthForm :=
  if length < 126 then .short else if length < SHRT_MAX then .word else .long

theorem sentForm_fits {length : Nat} (h : length < 2 ^ 32) :
    (sentForm length).Fits length := by
  have hshrt : SHRT_MAX = 32767 := rfl
  unfold sentForm
  split
  · assumption
  · split
    · show length < 2 ^ 16
      omega
    · exact h

theorem encodeLength_eq (length : Nat) :
    encodeLength length =
      ((sentForm length).code length, (sentForm length).extension length) := by
  unfold encodeLength sentForm
  split
  · rfl
  · split <;> rfl

/-- The head of the frame `wsSendPacket` writes. -/
def WSPacket.sentHead (packet : WSPacket) (h : packet.length < 2 ^ 32) : WireHead where
  opcode := packet.header.opcode
  RSV := packet.header.RSV
  FIN := 1#1
  form := sentForm packet.length
  length := packet.length
  key := none
  fits := sentForm_fits h

theorem WSPacket.headerBytes_eq (packet : WSPacket) (h : packet.length < 2 ^ 32) :
    packet.headerBytes = (packet.sentHead h).wire := by
  unfold headerBytes WireHead.wire WireHead.header sentHead
  rw [encodeLength_eq]
  simp

theorem streamTo_sent (fd : Int) (message : List UInt8) (accepted : Nat)
    (t : List NetEvent) :
    streamTo fd (.sent fd message accepted :: t) = message.take accepted ++ streamTo fd t :=
  if_pos rfl

/-- If nothing was cut short, the client's socket took the frame. -/
theorem streamTo_wsSendPacket (sys : Sys ω) (client : Client) (packet : WSPacket) (w : ω)
    (hsent : SentInFull (wsSendPacket sys client packet w).out) :
    streamTo client.fd (wsSendPacket sys client packet w).out =
      packet.headerBytes ++ packet.data := by
  obtain ⟨r, w', n, rest, hrun, hcase⟩ := wsSendPacket_run sys client packet w
  rw [hrun] at hsent ⊢
  have hn : n = packet.headerBytes.length :=
    hsent (.sent client.fd packet.headerBytes n) (by simp)
  rcases hcase with ⟨hlt, -⟩ | ⟨-, k, -, rfl⟩
  · omega
  · have hk : k = packet.data.length := hsent (.sent client.fd packet.data k) (by simp)
    rw [hn, hk]
    show streamTo client.fd (.sent client.fd packet.headerBytes _ :: _) = _
    rw [streamTo_sent, streamTo_sent, List.take_length, List.take_length]
    simp [streamTo]

/-! ## What is read -/

theorem bufferOf_append {bytes rest : List UInt8} {i : Nat} (h : i < bytes.length) :
    bufferOf (bytes ++ rest) i = bytes.getD i 0 := by
  simp [bufferOf, List.getD_eq_getElem?_getD, List.getElem?_append_left h]

/-- A complete unmasked frame is read as a packet with its fields, of which all of the
payload is there. -/
theorem wsReadPacket_unmasked (sys : Sys ω) {ε : Type} {buffer : Nat → UInt8} {size : Nat}
    {head : FrameHead} (hread : readHead buffer = some head)
    (hmask : head.header.mask ≠ 1#1) (hsize : size = head.offset + head.length)
    (packet : WSPacket) (w : ω) :
    ∃ p w', (wsReadPacket sys buffer size packet : Proc Halt ω ε (Option WSPacket)) w =
        ⟨.ok (some p), w', []⟩ ∧
      p.header = head.header ∧ p.length = head.length ∧ p.len = head.length := by
  have hmax : MAX_WS_PACKET_LENGTH = 52428800 := rfl
  have hoffset := readHead_offset hread
  have hlength := readHead_length hread
  have hlen : toU32 (head.len size) = head.length := by
    have hsub : (size : Int) - head.offset = head.length := by omega
    rw [FrameHead.len, hsub, toI32_of_lt (by omega), toU32_of_lt (by omega)]
  obtain ⟨payload, w', hrun⟩ := readPayload_ok_of_unmasked (ε := ε) sys buffer size packet w
    hmask
  refine ⟨head.packet size payload, w', ?_, rfl, rfl, hlen⟩
  have hbig : ¬ size < sizeofWSFrameHeader := by
    show ¬ size < 2
    omega
  unfold wsReadPacket
  rw [if_neg hbig, hread]
  simp only
  rw [Proc.bind_run_ok hrun]
  rfl

/-- **Encoder and decoder agree.**  What a complete `wsSendPacket` hands to `send` is a
header and the payload; `wsReadPacket` reads it as the same packet, or rejects it for
its length. -/
theorem wsReadPacket_wsSendPacket (sys : Sys ω) (client : Client) (packet : WSPacket)
    (w : ω) (hdata : packet.data.length = packet.length) (hu32 : packet.length < 2 ^ 32)
    (hsent : SentInFull (wsSendPacket sys client packet w).out)
    (sys' : Sys ω') (packet₀ : WSPacket) (w' : ω') :
    ∃ h, streamTo client.fd (wsSendPacket sys client packet w).out = h ++ packet.data ∧
      (packet.length ≤ MAX_WS_PACKET_LENGTH →
        ∃ p w'', (wsReadPacket sys' (bufferOf (h ++ packet.data)) (h ++ packet.data).length
            packet₀ : Proc Halt ω' NetEvent (Option WSPacket)) w' =
            ⟨.ok (some p), w'', []⟩ ∧
          p.header.opcode = packet.header.opcode ∧ p.header.RSV = packet.header.RSV ∧
          p.header.FIN = 1#1 ∧ p.header.mask = 0#1 ∧
          p.length = packet.length ∧ p.len = packet.length) ∧
      (MAX_WS_PACKET_LENGTH < packet.length →
        (wsReadPacket sys' (bufferOf (h ++ packet.data)) (h ++ packet.data).length
            packet₀ : Proc Halt ω' NetEvent (Option WSPacket)) w' =
          ⟨.ok none, w', []⟩) := by
  have hstream := streamTo_wsSendPacket sys client packet w hsent
  rw [packet.headerBytes_eq hu32] at hstream
  have hread := (packet.sentHead hu32).readHead_eq
    (bufferOf ((packet.sentHead hu32).wire ++ packet.data)) fun i hi => bufferOf_append hi
  have hlength : (packet.sentHead hu32).length = packet.length := rfl
  rw [hlength] at hread
  refine ⟨_, hstream, ?_, ?_⟩
  · intro hle
    rw [if_pos hle] at hread
    have hmask : (packet.sentHead hu32).frameHead.header.mask ≠ 1#1 := by
      simp [WireHead.frameHead, WireHead.header, WSPacket.sentHead]
    have hsize : ((packet.sentHead hu32).wire ++ packet.data).length =
        (packet.sentHead hu32).frameHead.offset + (packet.sentHead hu32).frameHead.length := by
      rw [List.length_append, hdata]
      rfl
    obtain ⟨p, w'', hrun, hheader, hplength, hplen⟩ := wsReadPacket_unmasked (ε := NetEvent)
      sys' hread hmask hsize packet₀ w'
    exact ⟨p, w'', hrun, by rw [hheader]; rfl, by rw [hheader]; rfl, by rw [hheader]; rfl,
      by rw [hheader]; rfl, hplength, hplen⟩
  · intro hgt
    rw [if_neg (Nat.not_le.mpr hgt)] at hread
    have hlen := (packet.sentHead hu32).length_wire
    have hsize : ¬ ((packet.sentHead hu32).wire ++ packet.data).length <
        sizeofWSFrameHeader := by
      rw [List.length_append, hlen]
      simp only [sizeofWSFrameHeader]
      omega
    unfold wsReadPacket
    rw [if_neg hsize, hread]
    rfl

/-- A ten-byte text, sent to a client that takes everything. -/
theorem wsReadPacket_wsSendPacket_ten_bytes :
    let packet : WSPacket := ⟨⟨WS_OP_TEXT, 5#3, 0#1, 99#7, 1#1⟩, fun _ => 7, 10, 3,
      some (Block.ofBytes [0, 1, 2, 3, 4, 5, 6, 7, 8, 9])⟩
    ∃ h, streamTo 4 (wsSendPacket Script.sys { Client.blank with fd := 4 } packet {}).out =
      h ++ packet.data :=
  (wsReadPacket_wsSendPacket Script.sys { Client.blank with fd := 4 } _ {}
    (by decide +kernel) (by decide +kernel) (by decide +kernel) Script.sys .zero {}).imp
    fun _ h => h.1

end NoGround
