/-
  Ws/Packet.lean --- server/ws.h, and the two functions of server/ws.c that turn
  received bytes into a packet: `wsReadPacket` and `wsDecodePacketData`.

  BUFFERS.  `wsReadPacket` is handed the address of the received bytes and their
  number, and reads some bytes behind them when they are fewer than the header
  needs.  So a buffer is a function from offsets to bytes, and the number is a
  separate argument.  `client->rbuffer` was cleared before the bytes were stored,
  so what is behind them in it are zeros; the decode loop can leave it only after
  it ran past every byte of the header, and what it then reads decides nothing
  that is proved here.

  ARITHMETIC.  `length` and `len` are `u32` in the source and natural numbers here;
  where the source's arithmetic can wrap, the conversion is written out.

  MEMORY.  `malloc` is assumed to succeed.  What its block holds is taken from the
  system.
-/
import NoGround.Conn.Poll
import NoGround.Lib.Block
import Mathlib.Data.Fintype.Pi

set_option autoImplicit false

namespace NoGround

open NoGround.Lib

/-! ## ws.h -/

def MAX_WS_PACKET_LENGTH : Nat := 50 * 1024 * 1024

def WS_OP_CONTINUATION : BitVec 4 := 0#4
def WS_OP_TEXT : BitVec 4 := 1#4
def WS_OP_BIN : BitVec 4 := 2#4
def WS_OP_CLOSE : BitVec 4 := 8#4
def WS_OP_PING : BitVec 4 := 9#4
def WS_OP_PONG : BitVec 4 := 10#4

/-- `WSFrameHeader`: sixteen bits, the first field in the lowest bits of the first
byte. -/
structure WSFrameHeader where
  opcode : BitVec 4
  RSV : BitVec 3
  FIN : BitVec 1
  length : BitVec 7
  mask : BitVec 1
  deriving DecidableEq

namespace WSFrameHeader

/-- `WSFrameHeader header = {0}`. -/
def zero : WSFrameHeader := ⟨0#4, 0#3, 0#1, 0#7, 0#1⟩

/-- The header stored in two bytes. -/
def ofBytes (b₀ b₁ : UInt8) : WSFrameHeader where
  opcode := BitVec.ofNat 4 b₀.toNat
  RSV := BitVec.ofNat 3 (b₀.toNat / 16)
  FIN := BitVec.ofNat 1 (b₀.toNat / 128)
  length := BitVec.ofNat 7 b₁.toNat
  mask := BitVec.ofNat 1 (b₁.toNat / 128)

/-- The two bytes a header is stored in. -/
def byte₀ (h : WSFrameHeader) : UInt8 :=
  UInt8.ofNat (h.opcode.toNat + 16 * h.RSV.toNat + 128 * h.FIN.toNat)

def byte₁ (h : WSFrameHeader) : UInt8 := UInt8.ofNat (h.length.toNat + 128 * h.mask.toNat)

def toBytes (h : WSFrameHeader) : List UInt8 := [h.byte₀, h.byte₁]

theorem ofBytes_toBytes (h : WSFrameHeader) : ofBytes h.byte₀ h.byte₁ = h := by
  obtain ⟨opcode, RSV, FIN, length, mask⟩ := h
  have h₁ := opcode.isLt
  have h₂ := RSV.isLt
  have h₃ := FIN.isLt
  have h₄ := length.isLt
  have h₅ := mask.isLt
  unfold ofBytes byte₀ byte₁
  simp only [UInt8.toNat_ofNat', WSFrameHeader.mk.injEq]
  refine ⟨?_, ?_, ?_, ?_, ?_⟩
  all_goals
    apply BitVec.eq_of_toNat_eq
    simp only [BitVec.toNat_ofNat]
    omega

end WSFrameHeader

/-- `sizeof(WSFrameHeader)` and `WS_MAX_HEADER_LEN`. -/
def sizeofWSFrameHeader : Nat := 2
def WS_MAX_HEADER_LEN : Nat := sizeofWSFrameHeader + 8 + 4

/-- `u8 mask_key[sizeof(u32)]`. -/
abbrev MaskKey := Fin 4 → UInt8

/-- `mask_key[i % sizeof(u32)]`. -/
def MaskKey.get (key : MaskKey) (i : Nat) : UInt8 := key (Fin.ofNat 4 i)

/-- The four bytes of a key. -/
def MaskKey.toBytes (key : MaskKey) : List UInt8 := [key 0, key 1, key 2, key 3]

theorem MaskKey.getElem?_toBytes (key : MaskKey) (i : Fin 4) :
    key.toBytes[(i : Nat)]? = some (key i) :=
  match i with
  | 0 => rfl
  | 1 => rfl
  | 2 => rfl
  | 3 => rfl

/-- `WSPacket`; a null `payload` is `none`. -/
structure WSPacket where
  header : WSFrameHeader
  mask_key : MaskKey
  length : Nat
  len : Nat
  payload : Option Block

/-- `WSPacket packet = {0}`. -/
def WSPacket.zero : WSPacket := ⟨.zero, fun _ => 0, 0, 0, none⟩

/-- The bytes a packet carries. -/
def WSPacket.data (packet : WSPacket) : List UInt8 :=
  match packet.payload with
  | none => []
  | some payload => payload.bytes packet.length

/-! ## wsReadPacket (ws.c:33-98) -/

/-- The buffer that starts with these bytes and goes on with zeros. -/
def bufferOf (bytes : List UInt8) : Nat → UInt8 := fun i => bytes.getD i 0

/-- What the header of a frame says: the fields, the declared length, the mask key, and
where the payload starts. -/
structure FrameHead where
  header : WSFrameHeader
  length : Nat
  mask_key : MaskKey
  offset : Nat

/-- The declared length, in one of three forms, and where it ends; `none` for a length
beyond `MAX_WS_PACKET_LENGTH` (ws.c:46-65). -/
def readLength (header : WSFrameHeader) (buffer : Nat → UInt8) : Option (Nat × Nat) :=
  if header.length.toNat < 126 then some (header.length.toNat, 2)
  else if header.length.toNat = 126 then some (natBE [buffer 2, buffer 3], 4)
  else
    let ulengthh := natBE [buffer 2, buffer 3, buffer 4, buffer 5]
    let ulengthl := natBE [buffer 6, buffer 7, buffer 8, buffer 9]
    if ulengthh ≠ 0 ∨ MAX_WS_PACKET_LENGTH < ulengthl then none
    else some (ulengthl, 10)

/-- The head of the frame at the start of `buffer` (ws.c:38-70). -/
def readHead (buffer : Nat → UInt8) : Option FrameHead :=
  let header := WSFrameHeader.ofBytes (buffer 0) (buffer 1)
  match readLength header buffer with
  | none => none
  | some (length, offset) =>
      if header.mask = 1#1 then
        some ⟨header, length, fun i => buffer (offset + i), offset + 4⟩
      else some ⟨header, length, fun _ => 0, offset⟩

/-- How many bytes of the payload are there, when `size` bytes of the frame are
(ws.c:73). -/
def FrameHead.len (head : FrameHead) (size : Nat) : Int := toI32 (size - head.offset)

/-- The fields of the packet (ws.c:88-95). -/
def FrameHead.packet (head : FrameHead) (size : Nat) (payload : Option Block) : WSPacket where
  header := head.header
  mask_key := head.mask_key
  length := head.length
  len := toU32 (head.len size)
  payload := payload

/-- The packet of a frame whose head was read (ws.c:72-97). -/
def readPayload {ω ε : Type} (sys : Sys ω) (buffer : Nat → UInt8) (size : Nat)
    (head : FrameHead) (packet : WSPacket) : Proc Halt ω ε WSPacket :=
  if head.length ≠ 0 then do
    let heap ← Proc.step sys.malloc
    let payload : Block := ⟨head.length, heap⟩
    if head.header.mask = 1#1 then
      -- The counter is a `size_t`, so a negative `len` is a huge bound.
      match payload.each 0 (fun i _ => buffer (head.offset + i) ^^^ head.mask_key.get i)
          (toSize (head.len size)) 0 with
      | none => Proc.halt .outOfBounds
      | some payload => return head.packet size (some payload)
    else return head.packet size (some payload)
  else return head.packet size packet.payload

/-- `wsReadPacket`; `none` is the return value `0`. -/
def wsReadPacket {ω ε : Type} (sys : Sys ω) (buffer : Nat → UInt8) (size : Nat)
    (packet : WSPacket) : Proc Halt ω ε (Option WSPacket) :=
  if size < sizeofWSFrameHeader then return none
  else
    match readHead buffer with
    | none => return none
    | some head => do
      let packet ← readPayload sys buffer size head packet
      return some packet

/-! ## wsDecodePacketData (ws.c:100-113) -/

/-- `wsDecodePacketData(&packet, packet.payload + packet.len, size)`: the return value,
and the packet afterwards.  Its only caller passes that buffer, so the loop works in
place. -/
def wsDecodePacketData (packet : WSPacket) (size : Nat) : Except Halt (Int × WSPacket) :=
  match packet.payload with
  | none => .ok (0, packet)
  | some payload =>
      if toU32 (packet.length - packet.len) < size then .ok (0, packet)
      else
        match payload.each packet.len
            (fun i b => b ^^^ packet.mask_key.get (packet.len + i)) size 0 with
        | none => .error .outOfBounds
        | some payload => .ok (1, { packet with payload := some payload })

/-! ## What `wsReadPacket` computes -/

section ReadHead

variable {buffer : Nat → UInt8} {head : FrameHead}

/-- The length field ends at most ten bytes from the start, and no accepted length is
beyond `MAX_WS_PACKET_LENGTH`. -/
theorem readLength_bounds {header : WSFrameHeader} {length offset : Nat}
    (h : readLength header buffer = some (length, offset)) :
    2 ≤ offset ∧ offset ≤ 10 ∧ length ≤ MAX_WS_PACKET_LENGTH := by
  have hmax : MAX_WS_PACKET_LENGTH = 52428800 := rfl
  unfold readLength at h
  split at h
  · cases h
    omega
  · split at h
    · cases h
      have hlt := natBE_lt [buffer 2, buffer 3]
      simp only [List.length_cons, List.length_nil] at hlt
      omega
    · simp only at h
      split at h
      · cases h
      · cases h
        omega

/-- A head that was read is the header, a length form, and then perhaps a mask key. -/
theorem readHead_eq_some (h : readHead buffer = some head) :
    head.header = WSFrameHeader.ofBytes (buffer 0) (buffer 1) ∧
      ∃ offset, readLength head.header buffer = some (head.length, offset) ∧
        (head.header.mask = 1#1 ∧ head.offset = offset + 4 ∧
            head.mask_key = (fun i : Fin 4 => buffer (offset + i)) ∨
          head.header.mask ≠ 1#1 ∧ head.offset = offset ∧ head.mask_key = fun _ => 0) := by
  unfold readHead at h
  simp only at h
  split at h
  · cases h
  · rename_i length offset hlength
    split at h
    · rename_i hmask
      cases h
      exact ⟨rfl, offset, hlength, .inl ⟨hmask, rfl, rfl⟩⟩
    · rename_i hmask
      cases h
      exact ⟨rfl, offset, hlength, .inr ⟨hmask, rfl, rfl⟩⟩

/-- The payload starts behind the two header bytes, and at most fourteen bytes from the
start. -/
theorem readHead_offset (h : readHead buffer = some head) :
    2 ≤ head.offset ∧ head.offset ≤ WS_MAX_HEADER_LEN := by
  obtain ⟨-, offset, hlength, ⟨-, hoffset, -⟩ | ⟨-, hoffset, -⟩⟩ := readHead_eq_some h
  all_goals
    obtain ⟨hlow, hhigh, -⟩ := readLength_bounds hlength
    have hmax : WS_MAX_HEADER_LEN = 14 := rfl
    omega

theorem readHead_length (h : readHead buffer = some head) :
    head.length ≤ MAX_WS_PACKET_LENGTH := by
  obtain ⟨-, offset, hlength, -⟩ := readHead_eq_some h
  exact (readLength_bounds hlength).2.2

end ReadHead

section ReadPayload

variable {ω ε : Type} (sys : Sys ω) (buffer : Nat → UInt8) (size : Nat) {head : FrameHead}
  (packet : WSPacket) (w : ω)

theorem readPayload_empty (hlength : head.length = 0) :
    (readPayload sys buffer size head packet : Proc Halt ω ε WSPacket) w =
      ⟨.ok (head.packet size packet.payload), w, []⟩ := by
  unfold readPayload
  rw [if_neg (not_not.mpr hlength)]
  rfl

/-- Nothing is copied into the payload of an unmasked frame. -/
theorem readPayload_unmasked (hlength : head.length ≠ 0) (hmask : head.header.mask ≠ 1#1) :
    (readPayload sys buffer size head packet : Proc Halt ω ε WSPacket) w =
      ⟨.ok (head.packet size (some ⟨head.length, (sys.malloc w).1⟩)), (sys.malloc w).2,
        []⟩ := by
  unfold readPayload
  rw [if_pos hlength, Proc.step_bind_run, if_neg hmask]
  rfl

theorem readPayload_ok_of_unmasked (hmask : head.header.mask ≠ 1#1) :
    ∃ payload w', (readPayload sys buffer size head packet : Proc Halt ω ε WSPacket) w =
      ⟨.ok (head.packet size payload), w', []⟩ := by
  by_cases hlength : head.length = 0
  · exact ⟨_, _, readPayload_empty sys buffer size packet w hlength⟩
  · exact ⟨_, _, readPayload_unmasked sys buffer size packet w hlength hmask⟩

/-- The bytes of a masked frame that are there are decoded, if they fit the payload. -/
theorem readPayload_masked (hlength : head.length ≠ 0) (hmask : head.header.mask = 1#1)
    (hfits : toSize (head.len size) ≤ head.length) :
    (readPayload sys buffer size head packet : Proc Halt ω ε WSPacket) w =
      ⟨.ok (head.packet size (some ⟨head.length, fun j =>
        if j < toSize (head.len size) then buffer (head.offset + j) ^^^ head.mask_key.get j
        else (sys.malloc w).1 j⟩)), (sys.malloc w).2, []⟩ := by
  have heach := Block.each_of_le 0
    (fun i _ => buffer (head.offset + i) ^^^ head.mask_key.get i)
    (toSize (head.len size)) 0 ⟨head.length, (sys.malloc w).1⟩ (by simpa using hfits)
  unfold readPayload
  rw [if_pos hlength, Proc.step_bind_run, if_pos hmask]
  simp only [heach, Nat.zero_add, Nat.zero_le, true_and, Nat.sub_zero]
  rfl

/-- The decode loop leaves the payload if more bytes are to be decoded than it has. -/
theorem readPayload_overrun (hlength : head.length ≠ 0) (hmask : head.header.mask = 1#1)
    (hfits : head.length < toSize (head.len size)) :
    (readPayload sys buffer size head packet : Proc Halt ω ε WSPacket) w =
      ⟨.error .outOfBounds, (sys.malloc w).2, []⟩ := by
  have heach := Block.each_eq_none 0
    (fun i _ => buffer (head.offset + i) ^^^ head.mask_key.get i)
    (toSize (head.len size)) 0 ⟨head.length, (sys.malloc w).1⟩ (by omega) (by simpa using hfits)
  unfold readPayload
  rw [if_pos hlength, Proc.step_bind_run, if_pos hmask]
  simp only [heach]
  rfl

end ReadPayload

end NoGround
