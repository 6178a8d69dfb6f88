/-
  Ws/Receive.lean --- what `wsHandleMessages` makes of a first read.

  Everything is decided by the bytes of that read: their number `k`, and the head they
  spell with zeros behind them.  Four things can happen to a head that is accepted.
  The decode loop runs out of the payload (`Overruns`); the assertion fails
  (`Unsupported`); the rest of the payload is pulled; or the packet is taken as
  complete.

  The decode loop stays inside the payload exactly if the head is complete and the
  read did not run past the frame, `offset ≤ k ≤ offset + length`.  The source checks
  neither.
-/
import NoGround.Ws.Messages

set_option autoImplicit false

namespace NoGround

open NoGround.Lib

variable {ω : Type}

/-! ## Buffers and sizes -/

theorem buffer_fillBuffer (client : Client) (bytes : List UInt8) :
    (client.fillBuffer bytes).buffer = bufferOf bytes := by
  funext i
  unfold Client.buffer Client.fillBuffer bufferOf
  simp only [List.getD_eq_getElem?_getD]
  rcases Nat.lt_or_ge i bytes.length with hi | hi
  · rw [List.getElem?_append_left hi]
  · rw [List.getElem?_append_right hi, List.getElem?_eq_none hi, List.getElem?_replicate]
    split <;> rfl

namespace FrameHead

variable {head : FrameHead} {k : Nat}

/-- Behind a complete head, `len` counts the payload bytes that are there. -/
theorem len_of_le (h : head.offset ≤ k) (hk : k < 2 ^ 31) :
    head.len k = ((k - head.offset : Nat) : Int) := by
  have hsub : (k : Int) - head.offset = ((k - head.offset : Nat) : Int) := by omega
  rw [len, hsub, toI32_of_lt (by omega)]

/-- Inside a head, `len` is negative. -/
theorem len_of_lt (h : k < head.offset) (hoffset : head.offset < 2 ^ 31) :
    head.len k = -((head.offset - k : Nat) : Int) := by
  have hsub : (k : Int) - head.offset = -((head.offset - k : Nat) : Int) := by omega
  rw [len, hsub]
  unfold toI32
  exact Int.bmod_eq_of_le_mul_two (by omega) (by omega)

theorem packet_len_of_le (h : head.offset ≤ k) (hk : k < 2 ^ 31) (payload : Option Block) :
    (head.packet k payload).len = k - head.offset := by
  show toU32 (head.len k) = k - head.offset
  rw [len_of_le h hk, toU32_of_lt (by omega)]

/-- A packet whose head was incomplete looks complete: as a `u32`, its `len` is huge. -/
theorem packet_len_of_lt (h : k < head.offset) (hoffset : head.offset ≤ WS_MAX_HEADER_LEN)
    (hlength : head.length ≤ MAX_WS_PACKET_LENGTH) (payload : Option Block) :
    head.length ≤ (head.packet k payload).len := by
  have hmax : MAX_WS_PACKET_LENGTH = 52428800 := rfl
  have hheader : WS_MAX_HEADER_LEN = 14 := rfl
  show head.length ≤ toU32 (head.len k)
  rw [len_of_lt h (by omega)]
  unfold toU32
  omega

theorem toSize_len_of_le (h : head.offset ≤ k) (hk : k < 2 ^ 31) :
    toSize (head.len k) = k - head.offset := by
  rw [len_of_le h hk]
  unfold toSize
  omega

theorem toSize_len_of_lt (h : k < head.offset) (hoffset : head.offset ≤ WS_MAX_HEADER_LEN)
    (hlength : head.length ≤ MAX_WS_PACKET_LENGTH) : head.length < toSize (head.len k) := by
  have hmax : MAX_WS_PACKET_LENGTH = 52428800 := rfl
  have hheader : WS_MAX_HEADER_LEN = 14 := rfl
  rw [len_of_lt h (by omega)]
  unfold toSize
  omega

end FrameHead

/-! ## Pulling the rest -/

theorem length_received_le (sys : Sys ω) (fd : Int) (n : Nat) (flag : RecvFlag) (w : ω) :
    ((sys.received fd n flag w).1.bytes.getD []).length ≤ n := by
  unfold Sys.received
  simp only
  cases (sys.recv fd n flag w).1.bytes with
  | none => simp
  | some bytes => simp

theorem RecvResult.count_eq_iff {r : RecvResult} {n : Nat} :
    r.count = n ↔ ∃ bytes, r.bytes = some bytes ∧ bytes.length = n := by
  unfold count
  constructor
  · intro h
    cases hb : r.bytes with
    | none =>
      rw [hb] at h
      simp only at h
      omega
    | some bytes =>
      rw [hb] at h
      exact ⟨bytes, rfl, by simp only at h; omega⟩
  · rintro ⟨bytes, hb, rfl⟩
    rw [hb]

section Pull

variable {packet : WSPacket} {payload : Block}

/-- The payload after `bytes` were received behind the first `len` bytes of it. -/
def storedPayload (packet : WSPacket) (payload : Block) (bytes : List UInt8) : Block :=
  ⟨packet.length, fun j =>
    if packet.len ≤ j ∧ j < packet.len + bytes.length then bytes.getD (j - packet.len) 0
    else payload.byte j⟩

/-- The payload after `bytes` were received behind the first `len` bytes of it, to its
end, and decoded. -/
def pulledPayload (packet : WSPacket) (payload : Block) (bytes : List UInt8) : Block :=
  ⟨packet.length, fun j =>
    if packet.len ≤ j ∧ j < packet.length then
      bytes.getD (j - packet.len) 0 ^^^ packet.mask_key.get j
    else payload.byte j⟩

theorem WSPacket.store_eq (bytes : List UInt8) (hpayload : packet.payload = some payload)
    (hsize : payload.size = packet.length) (hfits : packet.len + bytes.length ≤ packet.length) :
    packet.store bytes =
      .ok { packet with payload := some (storedPayload packet payload bytes) } := by
  have heach := Block.each_of_le packet.len (fun i _ => bytes.getD i 0) bytes.length 0
    payload (by omega)
  unfold store
  simp only [hpayload, heach, Nat.add_zero, hsize]
  rfl

/-- The payload after `bytes` were received behind the first `len` bytes of it, and
decoded. -/
def decodedPayload (packet : WSPacket) (payload : Block) (bytes : List UInt8) : Block :=
  ⟨packet.length, fun j =>
    if packet.len ≤ j ∧ j < packet.len + bytes.length then
      bytes.getD (j - packet.len) 0 ^^^ packet.mask_key.get j
    else payload.byte j⟩

/-- What was stored behind the first `len` bytes is decoded in place. -/
theorem wsDecodePacketData_stored (packet : WSPacket) (payload : Block) (bytes : List UInt8)
    (hfits : packet.len + bytes.length ≤ packet.length) (hlength : packet.length < 2 ^ 32) :
    wsDecodePacketData { packet with payload := some (storedPayload packet payload bytes) }
        bytes.length =
      .ok (1, { packet with payload := some (decodedPayload packet payload bytes) }) := by
  have hdiff : toU32 ((packet.length : Int) - packet.len) = packet.length - packet.len := by
    have hsub : (packet.length : Int) - packet.len =
        ((packet.length - packet.len : Nat) : Int) := by omega
    rw [hsub, toU32_of_lt (by omega)]
  have hroom : ¬ packet.length - packet.len < bytes.length := by omega
  have heach := Block.each_of_le packet.len
    (fun i b => b ^^^ packet.mask_key.get (packet.len + i)) bytes.length 0
    (storedPayload packet payload bytes)
    (by show packet.len + 0 + _ ≤ packet.length; omega)
  unfold wsDecodePacketData
  simp only [hdiff, if_neg hroom, heach, Nat.add_zero]
  congr 4
  unfold decodedPayload storedPayload
  simp only [Block.mk.injEq, true_and]
  funext j
  split
  · rename_i hj
    have hkey : packet.len + (j - packet.len) = j := by omega
    rw [hkey]
  · rfl

theorem wsDecodePacketData_eq (packet : WSPacket) (payload : Block) (bytes : List UInt8)
    (hlen : packet.len < packet.length) (hlength : packet.length < 2 ^ 32)
    (hbytes : bytes.length = packet.length - packet.len) :
    wsDecodePacketData { packet with payload := some (storedPayload packet payload bytes) }
        (packet.length - packet.len) =
      .ok (1, { packet with payload := some (pulledPayload packet payload bytes) }) := by
  have hend : packet.len + bytes.length = packet.length := by omega
  have hdecode := wsDecodePacketData_stored packet payload bytes (by omega) hlength
  have hpulled : decodedPayload packet payload bytes = pulledPayload packet payload bytes := by
    unfold decodedPayload pulledPayload
    rw [hend]
  rw [hpulled, hbytes] at hdecode
  exact hdecode

/-- The second read never leaves the payload.  If it returns what was asked for, the
packet is complete. -/
theorem pullRemaining_run (sys : Sys ω) (fd : Int) (hpayload : packet.payload = some payload)
    (hsize : payload.size = packet.length) (hlen : packet.len < packet.length)
    (hlength : packet.length < 2 ^ 32) {w w' : ω} {r : RecvResult}
    (hr : sys.received fd (packet.length - packet.len) .waitAll w = (r, w')) :
    pullRemaining sys fd packet (packet.length - packet.len) w =
      ⟨.ok (if r.count = (packet.length - packet.len : Nat) then
          some { packet with
            len := packet.length
            payload := some (pulledPayload packet payload (r.bytes.getD [])) }
        else none), w', []⟩ := by
  have hbytes := length_received_le sys fd (packet.length - packet.len) .waitAll w
  rw [hr] at hbytes
  have hstore := WSPacket.store_eq (r.bytes.getD []) hpayload hsize
    (by simp only at hbytes; omega)
  unfold pullRemaining
  rw [Proc.step_bind_run, hr]
  simp only [hstore, Proc.ofExcept_ok, Proc.pure_bind_run]
  by_cases hcount : r.count = (packet.length - packet.len : Nat)
  · obtain ⟨bytes, hsome, hn⟩ := RecvResult.count_eq_iff.mp hcount
    have hget : r.bytes.getD [] = bytes := by rw [hsome]; rfl
    have hdecode := wsDecodePacketData_eq packet payload bytes hlen hlength hn
    have hlast : toU32 ((packet.len : Int) + r.count) = packet.length := by
      have hsum : (packet.len : Int) + r.count = (packet.length : Nat) := by omega
      rw [hsum, toU32_of_lt hlength]
    rw [if_neg (not_not.mpr hcount), if_pos hcount, hget]
    simp only [hdecode, Proc.ofExcept_ok, Proc.pure_bind_run]
    simp [hlast]
  · rw [if_pos hcount, if_neg hcount]
    rfl

end Pull

/-! ## The head of a first read -/

/-- The head the bytes of a first read spell, if there are two of them and its length is
accepted. -/
def headOf (bytes : List UInt8) : Option FrameHead :=
  if bytes.length < sizeofWSFrameHeader then none else readHead (bufferOf bytes)

/-- The decode loop of `wsReadPacket` runs out of the payload: the head is incomplete, or
the read went past the frame. -/
def FrameHead.Overruns (head : FrameHead) (k : Nat) : Prop :=
  head.header.mask = 1#1 ∧ head.length ≠ 0 ∧
    ¬ (head.offset ≤ k ∧ k ≤ head.offset + head.length)

/-- The frame is a fragment, and the first of its message. -/
def FrameHead.Unsupported (head : FrameHead) : Prop :=
  head.header.FIN = 0#1 ∧ head.header.opcode ≠ WS_OP_CONTINUATION

/-- The first read ended inside the payload. -/
def FrameHead.NeedsMore (head : FrameHead) (k : Nat) : Prop :=
  head.offset ≤ k ∧ k < head.offset + head.length

instance (head : FrameHead) (k : Nat) : Decidable (head.Overruns k) :=
  inferInstanceAs (Decidable (_ ∧ _ ∧ ¬ (_ ∧ _)))

instance (head : FrameHead) : Decidable head.Unsupported :=
  inferInstanceAs (Decidable (_ ∧ _))

instance (head : FrameHead) (k : Nat) : Decidable (head.NeedsMore k) :=
  inferInstanceAs (Decidable (_ ∧ _))

theorem readHead_of_headOf {bytes : List UInt8} {head : FrameHead}
    (h : headOf bytes = some head) :
    sizeofWSFrameHeader ≤ bytes.length ∧ readHead (bufferOf bytes) = some head := by
  unfold headOf at h
  split at h
  · cases h
  · exact ⟨by omega, h⟩

/-- The payload after the first read: of a masked frame the bytes that were there, and
behind them what the block held before. -/
def firstPayload (head : FrameHead) (bytes : List UInt8) (heap : Nat → UInt8) : Block :=
  ⟨head.length, fun j =>
    if head.header.mask = 1#1 ∧ j < bytes.length - head.offset then
      bufferOf bytes (head.offset + j) ^^^ head.mask_key.get j
    else heap j⟩

/-- The packet after the first read. -/
def firstPacket (head : FrameHead) (bytes : List UInt8) (heap : Nat → UInt8) : WSPacket :=
  head.packet bytes.length
    (if head.length = 0 then none else some (firstPayload head bytes heap))

/-- The world after `wsReadPacket`. -/
def afterRead (sys : Sys ω) (head : FrameHead) (w : ω) : ω :=
  if head.length = 0 then w else (sys.malloc w).2

section FirstRead

variable (sys : Sys ω) {bytes : List UInt8} {head : FrameHead}

theorem wsReadPacket_none (hhead : headOf bytes = none) (packet : WSPacket) (w : ω) :
    (wsReadPacket sys (bufferOf bytes) bytes.length packet :
      Proc Halt ω WsEvent (Option WSPacket)) w = ⟨.ok none, w, []⟩ := by
  unfold headOf at hhead
  unfold wsReadPacket
  split at hhead
  · rename_i hsize
    rw [if_pos hsize]
    rfl
  · rename_i hsize
    rw [if_neg hsize, hhead]
    rfl

theorem wsReadPacket_overrun (hhead : headOf bytes = some head)
    (hover : head.Overruns bytes.length) (hk : bytes.length ≤ WS_MAX_HEADER_LEN)
    (packet : WSPacket) (w : ω) :
    (wsReadPacket sys (bufferOf bytes) bytes.length packet :
      Proc Halt ω WsEvent (Option WSPacket)) w = ⟨.error .outOfBounds, (sys.malloc w).2, []⟩ := by
  obtain ⟨hsize, hread⟩ := readHead_of_headOf hhead
  obtain ⟨hmask, hlength, hrange⟩ := hover
  have hoffset := readHead_offset hread
  have hmax : WS_MAX_HEADER_LEN = 14 := rfl
  have hloop : head.length < toSize (head.len bytes.length) := by
    rcases Nat.lt_or_ge bytes.length head.offset with hlt | hge
    · exact FrameHead.toSize_len_of_lt hlt hoffset.2 (readHead_length hread)
    · rw [FrameHead.toSize_len_of_le hge (by omega)]
      omega
  unfold wsReadPacket
  rw [if_neg (by omega), hread]
  exact Proc.bind_run_error (readPayload_overrun sys _ _ packet w hlength hmask hloop) _

theorem wsReadPacket_first (hhead : headOf bytes = some head)
    (hin : ¬ head.Overruns bytes.length) (hk : bytes.length ≤ WS_MAX_HEADER_LEN) (w : ω) :
    (wsReadPacket sys (bufferOf bytes) bytes.length .zero :
      Proc Halt ω WsEvent (Option WSPacket)) w =
      ⟨.ok (some (firstPacket head bytes (sys.malloc w).1)), afterRead sys head w, []⟩ := by
  obtain ⟨hsize, hread⟩ := readHead_of_headOf hhead
  have hmax : WS_MAX_HEADER_LEN = 14 := rfl
  unfold wsReadPacket firstPacket afterRead
  rw [if_neg (by omega), hread]
  by_cases hlength : head.length = 0
  · rw [if_pos hlength, if_pos hlength]
    exact Proc.bind_run_ok (readPayload_empty sys _ _ .zero w hlength) _
  · rw [if_neg hlength, if_neg hlength]
    by_cases hmask : head.header.mask = 1#1
    · have hrange : head.offset ≤ bytes.length ∧
          bytes.length ≤ head.offset + head.length := by
        by_contra hrange
        exact hin ⟨hmask, hlength, hrange⟩
      have hloop := FrameHead.toSize_len_of_le hrange.1 (by omega)
      have hrun := readPayload_masked (ε := WsEvent) sys (bufferOf bytes) bytes.length .zero w
        hlength hmask (by omega)
      rw [hloop] at hrun
      have hpayload : firstPayload head bytes (sys.malloc w).1 = ⟨head.length, fun j =>
          if j < bytes.length - head.offset then
            bufferOf bytes (head.offset + j) ^^^ head.mask_key.get j
          else (sys.malloc w).1 j⟩ := by
        simp [firstPayload, hmask]
      rw [hpayload]
      exact Proc.bind_run_ok hrun _
    · have hpayload : firstPayload head bytes (sys.malloc w).1 =
          ⟨head.length, (sys.malloc w).1⟩ := by
        simp [firstPayload, hmask]
      rw [hpayload]
      exact Proc.bind_run_ok (readPayload_unmasked sys _ _ .zero w hlength hmask) _

end FirstRead

/-! ## `receivePacket`, case by case -/

section Receive

variable (sys : Sys ω) (client : Client) {bytes : List UInt8} {head : FrameHead}

theorem receivePacket_none (hhead : headOf bytes = none) (w : ω) :
    receivePacket sys (client.fillBuffer bytes) bytes.length w = ⟨.ok none, w, []⟩ := by
  unfold receivePacket
  rw [buffer_fillBuffer, Proc.bind_run_ok (wsReadPacket_none sys hhead .zero w)]
  rfl

theorem receivePacket_overrun (hhead : headOf bytes = some head)
    (hover : head.Overruns bytes.length) (hk : bytes.length ≤ WS_MAX_HEADER_LEN) (w : ω) :
    receivePacket sys (client.fillBuffer bytes) bytes.length w =
      ⟨.error .outOfBounds, (sys.malloc w).2, []⟩ := by
  unfold receivePacket
  rw [buffer_fillBuffer]
  exact Proc.bind_run_error (wsReadPacket_overrun sys hhead hover hk .zero w) _

/-- A frame that stays inside its payload goes on to `completePacket`. -/
theorem receivePacket_first (hhead : headOf bytes = some head)
    (hin : ¬ head.Overruns bytes.length) (hk : bytes.length ≤ WS_MAX_HEADER_LEN) (w : ω) :
    receivePacket sys (client.fillBuffer bytes) bytes.length w =
      completePacket sys client.fd (firstPacket head bytes (sys.malloc w).1)
        (afterRead sys head w) := by
  unfold receivePacket
  rw [buffer_fillBuffer, Proc.bind_run_ok (wsReadPacket_first sys hhead hin hk w)]
  rfl

theorem firstPacket_unsupported (heap : Nat → UInt8) :
    (firstPacket head bytes heap).header.FIN = 0#1 ∧
      (firstPacket head bytes heap).header.opcode ≠ WS_OP_CONTINUATION ↔ head.Unsupported :=
  Iff.rfl

theorem receivePacket_unsupported (hhead : headOf bytes = some head)
    (hin : ¬ head.Overruns bytes.length) (hk : bytes.length ≤ WS_MAX_HEADER_LEN)
    (hun : head.Unsupported) (w : ω) :
    receivePacket sys (client.fillBuffer bytes) bytes.length w =
      ⟨.error .abort, afterRead sys head w, []⟩ := by
  rw [receivePacket_first sys client hhead hin hk]
  unfold completePacket
  rw [if_pos ((firstPacket_unsupported _).mpr hun)]
  rfl

/-- The comparison of `packet.len` with `packet.length`, as `u32`s. -/
theorem firstPacket_needsMore (hhead : headOf bytes = some head)
    (hk : bytes.length ≤ WS_MAX_HEADER_LEN) (heap : Nat → UInt8) :
    (0 < (firstPacket head bytes heap).length ∧
      (firstPacket head bytes heap).len < (firstPacket head bytes heap).length) ↔
      head.NeedsMore bytes.length := by
  obtain ⟨hsize, hread⟩ := readHead_of_headOf hhead
  have hoffset := readHead_offset hread
  have hmax : WS_MAX_HEADER_LEN = 14 := rfl
  have hlength : (firstPacket head bytes heap).length = head.length := rfl
  unfold FrameHead.NeedsMore
  rcases Nat.lt_or_ge bytes.length head.offset with hlt | hge
  · have hlen : head.length ≤ (firstPacket head bytes heap).len :=
      FrameHead.packet_len_of_lt hlt hoffset.2 (readHead_length hread) _
    omega
  · have hlen : (firstPacket head bytes heap).len = bytes.length - head.offset :=
      FrameHead.packet_len_of_le hge (by omega) _
    omega

theorem receivePacket_complete (hhead : headOf bytes = some head)
    (hin : ¬ head.Overruns bytes.length) (hk : bytes.length ≤ WS_MAX_HEADER_LEN)
    (hun : ¬ head.Unsupported) (hmore : ¬ head.NeedsMore bytes.length) (w : ω) :
    receivePacket sys (client.fillBuffer bytes) bytes.length w =
      ⟨.ok (some (firstPacket head bytes (sys.malloc w).1)), afterRead sys head w, []⟩ := by
  rw [receivePacket_first sys client hhead hin hk]
  unfold completePacket
  rw [if_neg (mt (firstPacket_unsupported _).mp hun),
    if_neg (mt (firstPacket_needsMore hhead hk _).mp hmore)]
  rfl

/-- The packet after the second read. -/
def pulledPacket (head : FrameHead) (bytes : List UInt8) (heap : Nat → UInt8)
    (rest : List UInt8) : WSPacket :=
  { firstPacket head bytes heap with
    len := head.length
    payload := some (pulledPayload (firstPacket head bytes heap)
      (firstPayload head bytes heap) rest) }

theorem receivePacket_pulled (hhead : headOf bytes = some head)
    (hin : ¬ head.Overruns bytes.length) (hk : bytes.length ≤ WS_MAX_HEADER_LEN)
    (hun : ¬ head.Unsupported) (hmore : head.NeedsMore bytes.length) {w w' : ω}
    {r : RecvResult}
    (hr : sys.received client.fd (head.offset + head.length - bytes.length) .waitAll
      (sys.malloc w).2 = (r, w')) :
    receivePacket sys (client.fillBuffer bytes) bytes.length w =
      ⟨.ok (if r.count = (head.offset + head.length - bytes.length : Nat) then
        some (pulledPacket head bytes (sys.malloc w).1 (r.bytes.getD [])) else none), w', []⟩ := by
  have hmax : WS_MAX_HEADER_LEN = 14 := rfl
  have hmaxlen : MAX_WS_PACKET_LENGTH = 52428800 := rfl
  obtain ⟨hsize, hread⟩ := readHead_of_headOf hhead
  have hle := readHead_length hread
  have hlt := (firstPacket_needsMore hhead hk (sys.malloc w).1).mpr hmore
  obtain ⟨hge, hend⟩ := hmore
  have hlength : (firstPacket head bytes (sys.malloc w).1).length = head.length := rfl
  have hlen : (firstPacket head bytes (sys.malloc w).1).len = bytes.length - head.offset :=
    FrameHead.packet_len_of_le hge (by omega) _
  have hremain : (firstPacket head bytes (sys.malloc w).1).length -
      (firstPacket head bytes (sys.malloc w).1).len =
      head.offset + head.length - bytes.length := by omega
  have hworld : afterRead sys head w = (sys.malloc w).2 := if_neg (by omega)
  have hpayload : (firstPacket head bytes (sys.malloc w).1).payload =
      some (firstPayload head bytes (sys.malloc w).1) := if_neg (by omega)
  rw [receivePacket_first sys client hhead hin hk]
  unfold completePacket
  rw [if_neg (mt (firstPacket_unsupported _).mp hun), if_pos hlt, hworld]
  have hrun := pullRemaining_run sys client.fd hpayload rfl hlt.2 (by omega)
    (hremain ▸ hr)
  rw [hremain] at hrun ⊢
  exact hrun

end Receive

end NoGround
