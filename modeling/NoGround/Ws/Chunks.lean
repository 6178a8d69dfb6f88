/-
  Ws/Chunks.lean --- a masked frame that arrives in pieces.

  `wsReadPacket` decodes what came with the header, and `wsDecodePacketData` decodes in
  place what is received behind it.  The first counts the bytes of the payload from its
  start; the second goes on from `len`, and takes the place in the key from there.  So it
  does not matter where the frame is cut: after every piece the first `len` bytes of the
  payload are decoded (`Received`).
-/
import NoGround.Ws.Framing
import Mathlib.Data.List.GetD

set_option autoImplicit false

namespace NoGround

open NoGround.Lib

variable {ω ε : Type}

/-! ## Pieces of a payload -/

/-- One more piece of the payload is received behind the first `len` bytes, decoded and
counted; `none` if it cannot be decoded (ws.c:293-311). -/
def pullChunk (packet : WSPacket) (chunk : List UInt8) : Except Halt (Option WSPacket) := do
  let packet ← packet.store chunk
  let (decode_ok, packet) ← wsDecodePacketData packet chunk.length
  if decode_ok = 0 then return none
  else return some { packet with len := toU32 (packet.len + chunk.length) }

/-- All pieces, one after the other. -/
def pullChunks : WSPacket → List (List UInt8) → Except Halt (Option WSPacket)
  | packet, [] => .ok (some packet)
  | packet, chunk :: chunks => do
    let pulled ← pullChunk packet chunk
    match pulled with
    | none => return none
    | some packet => pullChunks packet chunks

/-- `wsHandleMessages` pulls the whole rest of a payload as one piece. -/
theorem pullRemaining_eq_pullChunk (sys : Sys ω) (fd : Int) (packet : WSPacket) {n : Nat}
    {w w' : ω} {r : RecvResult} {chunk : List UInt8}
    (hr : sys.received fd n .waitAll w = (r, w')) (hbytes : r.bytes = some chunk)
    (hlength : chunk.length = n) :
    pullRemaining sys fd packet n w = (Proc.ofExcept (pullChunk packet chunk)) w' := by
  have hcount : r.count = n := RecvResult.count_eq_iff.mpr ⟨chunk, hbytes, hlength⟩
  unfold pullRemaining pullChunk
  rw [Proc.step_bind_run, hr]
  simp only [hbytes, Option.getD_some, hcount, hlength]
  cases packet.store chunk with
  | error e => rfl
  | ok stored =>
    show ((pure stored : Proc Halt ω WsEvent WSPacket) >>= _) w' = _
    rw [Proc.pure_bind_run, if_neg (by simp)]
    show _ = (Proc.ofExcept ((wsDecodePacketData stored n).bind _)) w'
    cases wsDecodePacketData stored n with
    | error e => rfl
    | ok decoded =>
      obtain ⟨decode_ok, decoded⟩ := decoded
      by_cases hok : decode_ok = 0
      · subst hok
        rfl
      · show ((pure (decode_ok, decoded) : Proc Halt ω WsEvent (Int × WSPacket)) >>= _) w' = _
        rw [Proc.pure_bind_run]
        simp only [if_neg hok, Except.bind]
        rfl

/-! ## After every piece -/

/-- The packet has the fields of the frame, and the first `n` bytes of its payload are
decoded. -/
structure Received (head : WireHead) (payload : List UInt8) (n : Nat) (packet : WSPacket) :
    Prop where
  header : packet.header = head.header
  mask_key : packet.mask_key = head.mask_key
  length : packet.length = head.length
  len : packet.len = n
  decoded : head.length ≠ 0 → ∃ block : Block, packet.payload = some block ∧
    block.size = head.length ∧
    ∀ j, j < n → block.byte j = payload.getD j 0 ^^^ head.mask_key.get j

section Pieces

variable {head : WireHead} {payload chunk rest : List UInt8} {n : Nat} {packet : WSPacket}

theorem getD_of_drop_eq_append (h : payload.drop n = chunk ++ rest) {j : Nat} (hn : n ≤ j)
    (hj : j < n + chunk.length) : chunk.getD (j - n) 0 = payload.getD j 0 := by
  have hdrop : (payload.drop n)[j - n]? = payload[j]? := by
    rw [List.getElem?_drop]
    congr 1
    omega
  rw [h, List.getElem?_append_left (by omega)] at hdrop
  rw [List.getD_eq_getElem?_getD, List.getD_eq_getElem?_getD, hdrop]

/-- One piece. -/
theorem Received.pullChunk (h : Received head payload n packet)
    (hpayload : payload.length = head.length) (hmax : head.length ≤ MAX_WS_PACKET_LENGTH)
    (hne : chunk ≠ []) (hdrop : payload.drop n = chunk ++ rest) :
    ∃ packet', NoGround.pullChunk packet chunk = .ok (some packet') ∧
      Received head payload (n + chunk.length) packet' ∧
      payload.drop (n + chunk.length) = rest := by
  have hmaxlen : MAX_WS_PACKET_LENGTH = 52428800 := rfl
  have hpos : 0 < chunk.length := List.length_pos_iff.mpr hne
  have hend : n + chunk.length ≤ head.length := by
    have hlength := congrArg List.length hdrop
    rw [List.length_drop, List.length_append] at hlength
    omega
  obtain ⟨block, hblock, hsize, hbytes⟩ := h.decoded (by omega)
  have hfits : packet.len + chunk.length ≤ packet.length := by
    rw [h.len, h.length]
    exact hend
  have hstore := WSPacket.store_eq chunk hblock (hsize.trans h.length.symm) hfits
  have hdecode := wsDecodePacketData_stored packet block chunk hfits
    (by rw [h.length]; omega)
  have hcount : toU32 ((packet.len : Int) + chunk.length) = n + chunk.length := by
    rw [h.len, show (n : Int) + chunk.length = ((n + chunk.length : Nat) : Int) by omega,
      toU32_of_lt (by omega)]
  refine ⟨{ packet with
      len := toU32 ((packet.len : Int) + chunk.length)
      payload := some (decodedPayload packet block chunk) },
    ?_, ⟨h.header, h.mask_key, h.length, hcount, ?_⟩, ?_⟩
  · unfold NoGround.pullChunk
    rw [hstore]
    show (wsDecodePacketData _ chunk.length >>= _) = _
    rw [hdecode]
    rfl
  · intro _
    refine ⟨_, rfl, h.length, ?_⟩
    intro j hj
    show (if _ then _ else _) = _
    rw [h.len, h.mask_key]
    by_cases hn : n ≤ j
    · rw [if_pos ⟨hn, hj⟩, getD_of_drop_eq_append hdrop hn hj]
    · rw [if_neg fun hrange => hn hrange.1]
      exact hbytes j (by omega)
  · rw [← List.drop_drop, hdrop, List.drop_left]

/-- All pieces. -/
theorem Received.pullChunks (h : Received head payload n packet)
    (hpayload : payload.length = head.length) (hmax : head.length ≤ MAX_WS_PACKET_LENGTH)
    (hn : n ≤ head.length) {chunks : List (List UInt8)} (hne : ∀ chunk ∈ chunks, chunk ≠ [])
    (hdrop : payload.drop n = chunks.flatten) :
    ∃ packet', NoGround.pullChunks packet chunks = .ok (some packet') ∧
      Received head payload head.length packet' := by
  induction chunks generalizing n packet with
  | nil =>
    have hlength := congrArg List.length hdrop
    rw [List.length_drop, List.flatten_nil, List.length_nil] at hlength
    have hend : n = head.length := by omega
    exact ⟨packet, rfl, hend ▸ h⟩
  | cons chunk chunks ih =>
    obtain ⟨hchunk, hchunks⟩ := List.forall_mem_cons.mp hne
    rw [List.flatten_cons] at hdrop
    obtain ⟨packet₁, hrun, hreceived, hrest⟩ := h.pullChunk hpayload hmax hchunk hdrop
    have hn' : n + chunk.length ≤ head.length := by
      have hlength := congrArg List.length hdrop
      have hpos : 0 < chunk.length := List.length_pos_iff.mpr hchunk
      rw [List.length_drop, List.length_append] at hlength
      omega
    obtain ⟨packet₂, hrun', hall⟩ := ih hreceived hn' hchunks hrest
    refine ⟨packet₂, ?_, hall⟩
    unfold NoGround.pullChunks
    rw [hrun]
    exact hrun'

/-- The payload of a packet of which everything was received. -/
theorem Received.data (h : Received head payload head.length packet)
    (hpayload : payload.length = head.length) :
    packet.data = head.mask_key.mask payload := by
  apply List.ext_getElem?
  intro i
  unfold MaskKey.mask WSPacket.data
  rw [List.getElem?_mapIdx]
  by_cases hi : i < head.length
  · obtain ⟨block, hblock, -, hbytes⟩ := h.decoded (by omega)
    have hpi : i < payload.length := by omega
    rw [hblock, h.length]
    simp only
    rw [Block.getElem?_bytes block hi, hbytes i hi]
    simp [List.getD_eq_getElem?_getD, hpi]
  · rw [List.getElem?_eq_none (by omega : payload.length ≤ i)]
    cases packet.payload with
    | none => rfl
    | some block =>
      simp only [h.length, Option.map_none]
      rw [List.getElem?_eq_none (by rw [Block.length_bytes]; omega)]

end Pieces

/-! ## The first piece -/

section First

variable (sys : Sys ω) {head : WireHead} {payload : List UInt8} {k : Nat}
  {buffer : Nat → UInt8}

/-- `wsReadPacket`, on a frame that is cut behind its header. -/
theorem wsReadPacket_received (hmasked : head.key.isSome)
    (hmax : head.length ≤ MAX_WS_PACKET_LENGTH) (hpayload : payload.length = head.length)
    (hhead : head.wire.length ≤ k) (hend : k ≤ (head.wire ++ payload).length)
    (hbuffer : ∀ i, i < k → buffer i = (head.wire ++ payload).getD i 0)
    (packet : WSPacket) (w : ω) :
    ∃ packet' w', (wsReadPacket sys buffer k packet : Proc Halt ω ε (Option WSPacket)) w =
        ⟨.ok (some packet'), w', []⟩ ∧
      Received head payload (k - head.wire.length) packet' := by
  have hmaxlen : MAX_WS_PACKET_LENGTH = 52428800 := rfl
  have hwire := head.length_wire
  have hmask : head.frameHead.header.mask = 1#1 := by
    simp [WireHead.frameHead, WireHead.header, hmasked]
  have hread : readHead buffer = some head.frameHead := by
    refine (head.readHead_eq buffer ?_).trans (if_pos hmax)
    intro i hi
    rw [hbuffer i (by omega), List.getD_append _ _ _ _ hi]
  have hoffset := (readHead_offset hread).2
  have hheader : WS_MAX_HEADER_LEN = 14 := rfl
  have hoffset' : head.frameHead.offset = head.wire.length := rfl
  rw [List.length_append, hpayload] at hend
  have hlen : ∀ block, (head.frameHead.packet k block).len = k - head.wire.length :=
    FrameHead.packet_len_of_le hhead (by omega)
  have hsize : ¬ k < sizeofWSFrameHeader := by
    show ¬ k < 2
    omega
  unfold wsReadPacket
  rw [if_neg hsize, hread]
  simp only
  by_cases hlength : head.length = 0
  · rw [Proc.bind_run_ok (readPayload_empty sys buffer k packet w hlength)]
    exact ⟨_, w, rfl, rfl, rfl, rfl, hlen _, fun hne => absurd hlength hne⟩
  · have hloop : toSize (head.frameHead.len k) = k - head.wire.length :=
      FrameHead.toSize_len_of_le hhead (by omega)
    have hfits : toSize (head.frameHead.len k) ≤ head.frameHead.length := by
      rw [hloop]
      show _ ≤ head.length
      omega
    rw [Proc.bind_run_ok (readPayload_masked sys buffer k packet w hlength hmask hfits)]
    refine ⟨_, _, rfl, rfl, rfl, rfl, hlen _, ?_⟩
    intro _
    refine ⟨_, rfl, rfl, ?_⟩
    intro j hj
    show (if _ then _ else _) = _
    rw [hloop, if_pos hj, hbuffer _ (by rw [hoffset']; omega), hoffset',
      List.getD_append_right _ _ _ _ (by omega), Nat.add_sub_cancel_left]
    rfl

/-- **Where a masked frame is cut does not matter.**  `wsReadPacket` on the first `k` bytes,
and `wsDecodePacketData` on the rest in any pieces, give the fields of the frame and its
payload without the mask. -/
theorem wsReadPacket_pullChunks {key : MaskKey} (hkey : head.key = some key)
    (hmax : head.length ≤ MAX_WS_PACKET_LENGTH) (hpayload : payload.length = head.length)
    (hhead : head.wire.length ≤ k) (hend : k ≤ (head.wire ++ payload).length)
    (hbuffer : ∀ i, i < k → buffer i = (head.wire ++ payload).getD i 0)
    {chunks : List (List UInt8)} (hne : ∀ chunk ∈ chunks, chunk ≠ [])
    (hchunks : chunks.flatten = (head.wire ++ payload).drop k)
    (packet : WSPacket) (w : ω) :
    ∃ first w', (wsReadPacket sys buffer k packet : Proc Halt ω ε (Option WSPacket)) w =
        ⟨.ok (some first), w', []⟩ ∧
      first.header = head.header ∧ first.mask_key = key ∧ first.length = head.length ∧
      first.len = k - head.wire.length ∧
      ∃ last, pullChunks first chunks = .ok (some last) ∧
        last.header = head.header ∧ last.mask_key = key ∧ last.length = head.length ∧
        last.len = head.length ∧ last.data = key.mask payload := by
  have hmask_key : head.mask_key = key := by
    unfold WireHead.mask_key
    rw [hkey]
    rfl
  obtain ⟨first, w', hrun, hfirst⟩ := wsReadPacket_received (ε := ε) sys (by rw [hkey]; rfl)
    hmax hpayload hhead hend hbuffer packet w
  have hdrop : payload.drop (k - head.wire.length) = chunks.flatten := by
    rw [hchunks, List.drop_append, List.drop_of_length_le hhead, List.nil_append]
  rw [List.length_append, hpayload] at hend
  obtain ⟨last, hpulled, hlast⟩ := hfirst.pullChunks hpayload hmax (by omega) hne hdrop
  refine ⟨first, w', hrun, hfirst.header, hfirst.mask_key.trans hmask_key, hfirst.length,
    hfirst.len, last, hpulled, hlast.header, hlast.mask_key.trans hmask_key, hlast.length,
    hlast.len, ?_⟩
  rw [hlast.data hpayload, hmask_key]

end First

/-- The head of a masked text of five bytes. -/
def fiveBytes : WireHead where
  opcode := WS_OP_TEXT
  RSV := 0#3
  FIN := 1#1
  form := .short
  length := 5
  key := some fun i => UInt8.ofNat (i.val + 1)
  fits := by decide

/-- Two bytes of its payload come with the header, then one, and then the rest. -/
theorem wsReadPacket_pullChunks_five_bytes :
    ∃ first last : WSPacket,
      first.len = 2 ∧ pullChunks first [[30], [40, 50]] = .ok (some last) ∧
        last.data = [11, 22, 29, 44, 51] := by
  have hbuffer : ∀ i, i < 8 → bufferOf (fiveBytes.wire ++ [10, 20, 30, 40, 50]) i =
      (fiveBytes.wire ++ [10, 20, 30, 40, 50]).getD i 0 := fun _ _ => rfl
  have hpieces : [[30], [40, 50]].flatten =
      (fiveBytes.wire ++ [10, 20, 30, 40, 50]).drop 8 := by decide
  obtain ⟨first, -, -, -, -, -, hlen, last, hpulled, -, -, -, -, hdata⟩ :=
    wsReadPacket_pullChunks (ε := Unit) Script.sys rfl (by decide) rfl (by decide) (by decide)
      hbuffer (by decide) hpieces .zero {}
  exact ⟨first, last, hlen, hpulled, hdata⟩

end NoGround
