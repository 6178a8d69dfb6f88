/-
  Ws/Truncated.lean --- what `wsReadPacket` makes of a header that is not complete.

  The first two bytes of a frame say how long its header is.  `wsReadPacket` checks that it
  has these two, and reads the rest of the header wherever it is; behind the bytes that were
  received stand zeros.  So a header that is cut off is completed with zeros, and the frame
  is taken as one that was never sent.

  Not every such header is accepted.  A masked payload that should have been there makes
  the decode loop run out of the payload, so the call does not return; and a length above
  the limit stays above it, whatever is missing.
-/
import NoGround.Ws.Receive

set_option autoImplicit false

namespace NoGround

open NoGround.Lib

variable {ω ε : Type}

/-! ## What the first bytes say -/

/-- Where the length ends. -/
def WSFrameHeader.lengthEnd (header : WSFrameHeader) : Nat :=
  if header.length.toNat < 126 then 2 else if header.length.toNat = 126 then 4 else 10

/-- The length of the header: two bytes, the extended length, and the key. -/
def WSFrameHeader.headerLength (header : WSFrameHeader) : Nat :=
  header.lengthEnd + if header.mask = 1#1 then 4 else 0

/-- The header in the first two bytes. -/
def firstTwo (buffer : Nat → UInt8) : WSFrameHeader :=
  WSFrameHeader.ofBytes (buffer 0) (buffer 1)

/-- The length a buffer declares, without a limit. -/
def declaredLength (buffer : Nat → UInt8) : Nat :=
  if (firstTwo buffer).length.toNat < 126 then (firstTwo buffer).length.toNat
  else if (firstTwo buffer).length.toNat = 126 then
    natBE ((List.range 2).map fun i => buffer (2 + i))
  else natBE ((List.range 8).map fun i => buffer (2 + i))

section Declared

variable (buffer : Nat → UInt8)

theorem readLength_eq_declared :
    readLength (firstTwo buffer) buffer =
      if declaredLength buffer ≤ MAX_WS_PACKET_LENGTH then
        some (declaredLength buffer, (firstTwo buffer).lengthEnd)
      else none := by
  have hmax : MAX_WS_PACKET_LENGTH = 52428800 := rfl
  unfold readLength declaredLength WSFrameHeader.lengthEnd
  by_cases hshort : (firstTwo buffer).length.toNat < 126
  · have hle : (firstTwo buffer).length.toNat ≤ MAX_WS_PACKET_LENGTH := by omega
    simp only [if_pos hshort, if_pos hle]
  · by_cases hword : (firstTwo buffer).length.toNat = 126
    · have hlist : ((List.range 2).map fun i => buffer (2 + i)) = [buffer 2, buffer 3] := rfl
      have hlt := natBE_lt [buffer 2, buffer 3]
      simp only [List.length_cons, List.length_nil] at hlt
      have hle : natBE [buffer 2, buffer 3] ≤ MAX_WS_PACKET_LENGTH := by omega
      simp only [if_neg hshort, if_pos hword, hlist, if_pos hle]
    · have hlist : ((List.range 8).map fun i => buffer (2 + i)) =
          [buffer 2, buffer 3, buffer 4, buffer 5] ++
            [buffer 6, buffer 7, buffer 8, buffer 9] := rfl
      have happend := natBE_append [buffer 2, buffer 3, buffer 4, buffer 5]
        [buffer 6, buffer 7, buffer 8, buffer 9]
      simp only [List.length_cons, List.length_nil] at happend
      simp only [if_neg hshort, if_neg hword, hlist, happend]
      generalize natBE [buffer 2, buffer 3, buffer 4, buffer 5] = high
      generalize natBE [buffer 6, buffer 7, buffer 8, buffer 9] = low
      by_cases hlimit : high ≠ 0 ∨ MAX_WS_PACKET_LENGTH < low
      · rw [if_pos hlimit, if_neg (by omega)]
      · have hhigh : high = 0 := by omega
        subst hhigh
        rw [if_neg hlimit, if_pos (by omega)]
        simp

/-- A head is read unless the declared length is above the limit. -/
theorem readHead_eq_declared :
    readHead buffer =
      if declaredLength buffer ≤ MAX_WS_PACKET_LENGTH then
        some ⟨firstTwo buffer, declaredLength buffer,
          if (firstTwo buffer).mask = 1#1 then
            fun i : Fin 4 => buffer ((firstTwo buffer).lengthEnd + i)
          else fun _ => 0, (firstTwo buffer).headerLength⟩
      else none := by
  have hlength := readLength_eq_declared buffer
  unfold readHead WSFrameHeader.headerLength
  unfold firstTwo at hlength ⊢
  simp only [hlength]
  by_cases hle : declaredLength buffer ≤ MAX_WS_PACKET_LENGTH
  · simp only [if_pos hle]
    split <;> rfl
  · simp only [if_neg hle]

end Declared

/-! ## Buffers that start with the received bytes -/

/-- The buffer starts with these bytes. -/
def StartsWith (buffer : Nat → UInt8) (bytes : List UInt8) : Prop :=
  ∀ i, i < bytes.length → buffer i = bufferOf bytes i

theorem startsWith_bufferOf (bytes : List UInt8) : StartsWith (bufferOf bytes) bytes :=
  fun _ _ => rfl

namespace StartsWith

variable {buffer : Nat → UInt8} {bytes : List UInt8}

/-- Zeros are the least that can stand behind the bytes. -/
theorem byte_le (h : StartsWith buffer bytes) (i : Nat) :
    (bufferOf bytes i).toNat ≤ (buffer i).toNat := by
  rcases Nat.lt_or_ge i bytes.length with hi | hi
  · rw [h i hi]
  · have hzero : bufferOf bytes i = 0 := by
      unfold bufferOf
      rw [List.getD_eq_getElem?_getD, List.getElem?_eq_none hi]
      rfl
    rw [hzero]
    exact Nat.zero_le _

theorem firstTwo_eq (h : StartsWith buffer bytes) (htwo : 2 ≤ bytes.length) :
    firstTwo buffer = firstTwo (bufferOf bytes) := by
  unfold firstTwo
  rw [h 0 (by omega), h 1 (by omega)]

theorem declaredLength_le (h : StartsWith buffer bytes) (htwo : 2 ≤ bytes.length) :
    declaredLength (bufferOf bytes) ≤ declaredLength buffer := by
  unfold declaredLength
  rw [h.firstTwo_eq htwo]
  split
  · exact Nat.le_refl _
  · split
    · exact natBE_map_le _ fun i _ => h.byte_le (2 + i)
    · exact natBE_map_le _ fun i _ => h.byte_le (2 + i)

/-- A complete header is read from the received bytes. -/
theorem readHead_eq (h : StartsWith buffer bytes)
    (hcomplete : (firstTwo (bufferOf bytes)).headerLength ≤ bytes.length) :
    readHead buffer = readHead (bufferOf bytes) := by
  have hend : (firstTwo (bufferOf bytes)).lengthEnd ≤ bytes.length :=
    Nat.le_trans (Nat.le_add_right _ _) hcomplete
  have htwo : 2 ≤ bytes.length := by
    unfold WSFrameHeader.lengthEnd at hend
    split at hend
    · exact hend
    · split at hend <;> omega
  have hfirst := h.firstTwo_eq htwo
  have hdeclared : declaredLength buffer = declaredLength (bufferOf bytes) := by
    unfold WSFrameHeader.lengthEnd at hend
    unfold declaredLength
    rw [hfirst]
    split
    · rfl
    · rename_i hshort
      rw [if_neg hshort] at hend
      split
      · rename_i hword
        rw [if_pos hword] at hend
        congr 1
        refine List.map_congr_left fun i hi => h _ ?_
        have hlt := List.mem_range.mp hi
        omega
      · rename_i hword
        rw [if_neg hword] at hend
        congr 1
        refine List.map_congr_left fun i hi => h _ ?_
        have hlt := List.mem_range.mp hi
        omega
  rw [readHead_eq_declared, readHead_eq_declared, hfirst, hdeclared]
  by_cases hmask : (firstTwo (bufferOf bytes)).mask = 1#1
  · have hkey : (fun i : Fin 4 => buffer ((firstTwo (bufferOf bytes)).lengthEnd + i)) =
        fun i : Fin 4 => bufferOf bytes ((firstTwo (bufferOf bytes)).lengthEnd + i) := by
      funext i
      refine h _ ?_
      unfold WSFrameHeader.headerLength at hcomplete
      rw [if_pos hmask] at hcomplete
      omega
    rw [hkey]
  · simp only [if_neg hmask]

end StartsWith

/-! ## What is returned -/

/-- What `wsReadPacket` sets but the payload. -/
def WSPacket.fields (packet : WSPacket) : WSFrameHeader × Nat × Nat × MaskKey :=
  (packet.header, packet.length, packet.len, packet.mask_key)

section Returned

variable (sys : Sys ω) {buffer : Nat → UInt8} {size : Nat} {packet : WSPacket} {w : ω}

theorem readPayload_packet {head : FrameHead} {p : WSPacket}
    (h : ((readPayload sys buffer size head packet : Proc Halt ω ε WSPacket) w).outcome =
      .ok p) :
    ∃ payload, p = head.packet size payload := by
  by_cases hlength : head.length = 0
  · rw [readPayload_empty sys buffer size packet w hlength] at h
    cases h
    exact ⟨_, rfl⟩
  · by_cases hmask : head.header.mask = 1#1
    · rcases Nat.lt_or_ge head.length (toSize (head.len size)) with hover | hfits
      · rw [readPayload_overrun sys buffer size packet w hlength hmask hover] at h
        cases h
      · rw [readPayload_masked sys buffer size packet w hlength hmask hfits] at h
        cases h
        exact ⟨_, rfl⟩
    · rw [readPayload_unmasked sys buffer size packet w hlength hmask] at h
      cases h
      exact ⟨_, rfl⟩

/-- A call that returns gives the fields of the head it read, or has read none. -/
theorem wsReadPacket_fields {r : Option WSPacket}
    (h : ((wsReadPacket sys buffer size packet : Proc Halt ω ε (Option WSPacket)) w).outcome =
      .ok r) :
    r.map WSPacket.fields =
      if size < sizeofWSFrameHeader then none
      else (readHead buffer).map fun head => (head.packet size none).fields := by
  unfold wsReadPacket at h
  by_cases hsize : size < sizeofWSFrameHeader
  · rw [if_pos hsize] at h ⊢
    cases h
    rfl
  · rw [if_neg hsize] at h ⊢
    cases hread : readHead buffer with
    | none =>
      rw [hread] at h
      cases h
      rfl
    | some head =>
      rw [hread] at h
      simp only at h
      rcases hrun : (readPayload sys buffer size head packet : Proc Halt ω ε WSPacket) w with
        ⟨outcome, w', out⟩
      cases outcome with
      | error e =>
        rw [Proc.bind_run_error hrun] at h
        cases h
      | ok p =>
        rw [Proc.bind_run_ok hrun] at h
        cases h
        obtain ⟨payload, rfl⟩ := readPayload_packet sys (by rw [hrun])
        rfl

/-- A masked payload that is missing makes the call leave the block it decodes into. -/
theorem wsReadPacket_not_returned {head : FrameHead} {r : Option WSPacket}
    (hread : readHead buffer = some head) (hsize : sizeofWSFrameHeader ≤ size)
    (hshort : size < head.offset) (hmask : head.header.mask = 1#1) (hlength : head.length ≠ 0) :
    ((wsReadPacket sys buffer size packet : Proc Halt ω ε (Option WSPacket)) w).outcome ≠
      .ok r := by
  have hover := FrameHead.toSize_len_of_lt hshort (readHead_offset hread).2
    (readHead_length hread)
  unfold wsReadPacket
  rw [if_neg (by omega), hread]
  simp only
  rw [Proc.bind_run_error (readPayload_overrun sys buffer size packet w hlength hmask hover)]
  exact fun h => by cases h

end Returned

/-! ## When the received bytes decide -/

/-- **The received bytes decide.**  In every buffer that starts with them, a packet is read
only behind a complete header; and any two such buffers are read alike, if both calls
return. -/
structure ReadsHeader (sys : Sys ω) (packet : WSPacket) (w : ω) (bytes : List UInt8) :
    Prop where
  complete : ∀ buffer, StartsWith buffer bytes → ∀ p,
    ((wsReadPacket sys buffer bytes.length packet :
      Proc Halt ω WsEvent (Option WSPacket)) w).outcome = .ok (some p) →
    (firstTwo buffer).headerLength ≤ bytes.length
  determined : ∀ buffer buffer', StartsWith buffer bytes → StartsWith buffer' bytes →
    ∀ packet' w' r r',
    ((wsReadPacket sys buffer bytes.length packet :
      Proc Halt ω WsEvent (Option WSPacket)) w).outcome = .ok r →
    ((wsReadPacket sys buffer' bytes.length packet' :
      Proc Halt ω WsEvent (Option WSPacket)) w').outcome = .ok r' →
    r.map WSPacket.fields = r'.map WSPacket.fields

/-- Nothing is read from fewer than two bytes; the header is there; its length is above the
limit whatever is missing; or a masked payload is missing. -/
def HeaderSuffices (bytes : List UInt8) : Prop :=
  bytes.length < sizeofWSFrameHeader ∨
    (firstTwo (bufferOf bytes)).headerLength ≤ bytes.length ∨
    MAX_WS_PACKET_LENGTH < declaredLength (bufferOf bytes) ∨
    ((firstTwo (bufferOf bytes)).mask = 1#1 ∧ declaredLength (bufferOf bytes) ≠ 0)

instance (bytes : List UInt8) : Decidable (HeaderSuffices bytes) :=
  inferInstanceAs (Decidable (_ ∨ _ ∨ _ ∨ _))

section Decide

variable (sys : Sys ω) {buffer : Nat → UInt8} {bytes : List UInt8} {packet : WSPacket} {w : ω}

/-- A header that is cut off, but not so that it is accepted, gives no packet. -/
theorem HeaderSuffices.refused (h : HeaderSuffices bytes) (hbuffer : StartsWith buffer bytes)
    (hshort : bytes.length < (firstTwo (bufferOf bytes)).headerLength) {r : Option WSPacket}
    (hr : ((wsReadPacket sys buffer bytes.length packet :
      Proc Halt ω ε (Option WSPacket)) w).outcome = .ok r) : r = none := by
  have hfields := wsReadPacket_fields sys hr
  rcases Nat.lt_or_ge bytes.length sizeofWSFrameHeader with hsize | hsize
  · rw [if_pos hsize] at hfields
    exact Option.map_eq_none_iff.mp hfields
  · have hle := hbuffer.declaredLength_le hsize
    have hfirst := hbuffer.firstTwo_eq hsize
    rw [if_neg (by omega)] at hfields
    cases hread : readHead buffer with
    | none =>
      rw [hread] at hfields
      exact Option.map_eq_none_iff.mp hfields
    | some head =>
      have hhead := hread
      rw [readHead_eq_declared, hfirst] at hhead
      split at hhead
      · rename_i hlimit
        rcases h with h | h | h | ⟨hmask, hlength⟩
        · omega
        · omega
        · omega
        · obtain rfl := Option.some.inj hhead
          exact absurd hr (wsReadPacket_not_returned sys hread hsize hshort hmask (by
            show declaredLength buffer ≠ 0
            omega))
      · cases hhead

/-- A head that is accepted, and need not be decoded, gives a packet. -/
theorem wsReadPacket_returned {head : FrameHead} (hread : readHead buffer = some head)
    {size : Nat} (hsize : sizeofWSFrameHeader ≤ size)
    (hdecode : ¬ (head.header.mask = 1#1 ∧ head.length ≠ 0)) :
    ∃ p, ((wsReadPacket sys buffer size packet :
      Proc Halt ω ε (Option WSPacket)) w).outcome = .ok (some p) := by
  have hpayload : ∃ payload w', (readPayload sys buffer size head packet :
      Proc Halt ω ε WSPacket) w = ⟨.ok (head.packet size payload), w', []⟩ := by
    by_cases hmask : head.header.mask = 1#1
    · have hlength : head.length = 0 := by
        by_contra hne
        exact hdecode ⟨hmask, hne⟩
      exact ⟨_, _, readPayload_empty sys buffer size packet w hlength⟩
    · exact readPayload_ok_of_unmasked sys buffer size packet w hmask
  obtain ⟨payload, w', hrun⟩ := hpayload
  unfold wsReadPacket
  rw [if_neg (by omega), hread]
  simp only
  rw [Proc.bind_run_ok hrun]
  exact ⟨_, rfl⟩

theorem readsHeader_iff : ReadsHeader sys packet w bytes ↔ HeaderSuffices bytes := by
  constructor
  · intro h
    by_contra hno
    unfold HeaderSuffices at hno
    rw [not_or, not_or, not_or] at hno
    obtain ⟨hsize, hshort, hlimit, hdecode⟩ := hno
    have hread := (readHead_eq_declared (bufferOf bytes)).trans (if_pos (Nat.not_lt.mp hlimit))
    have hreturned : ∃ p, ((wsReadPacket sys (bufferOf bytes) bytes.length packet :
        Proc Halt ω WsEvent (Option WSPacket)) w).outcome = .ok (some p) :=
      wsReadPacket_returned sys hread (Nat.not_lt.mp hsize) hdecode
    obtain ⟨p, hp⟩ := hreturned
    exact hshort (h.complete _ (startsWith_bufferOf bytes) p hp)
  · intro h
    rcases Nat.lt_or_ge bytes.length (firstTwo (bufferOf bytes)).headerLength with
      hshort | hcomplete
    · refine ⟨?_, ?_⟩
      · intro buffer hbuffer p hp
        cases h.refused sys hbuffer hshort hp
      · intro buffer buffer' hbuffer hbuffer' packet' w' r r' hr hr'
        rw [h.refused sys hbuffer hshort hr, h.refused sys hbuffer' hshort hr']
    · refine ⟨?_, ?_⟩
      · intro buffer hbuffer p hp
        have htwo : sizeofWSFrameHeader ≤ bytes.length := by
          by_contra hlt
          have hfields := wsReadPacket_fields sys hp
          rw [if_pos (Nat.not_le.mp hlt)] at hfields
          cases hfields
        rw [hbuffer.firstTwo_eq htwo]
        exact hcomplete
      · intro buffer buffer' hbuffer hbuffer' packet' w' r r' hr hr'
        rw [wsReadPacket_fields sys hr, wsReadPacket_fields sys hr', hbuffer.readHead_eq hcomplete,
          hbuffer'.readHead_eq hcomplete]

end Decide

/-- **Header completeness, exactly.**  The received bytes decide what `wsReadPacket` reads if
and only if `HeaderSuffices`: an unmasked frame, or one without a payload, must not be cut
off in its header. -/
theorem wsReadPacket_readsHeader_iff (sys : Sys ω) (packet : WSPacket) (w : ω)
    (bytes : List UInt8) : ReadsHeader sys packet w bytes ↔ HeaderSuffices bytes :=
  readsHeader_iff sys

/-- Two bytes announce a length of two more, and a key.  They are read as the header of an
empty text. -/
theorem two_bytes_read_as_header : ¬ ReadsHeader Script.sys .zero {} [0x81, 0xFE] := by
  rw [readsHeader_iff]
  decide

end NoGround
