/-
  Ws/Minimal.lean --- which length form a frame is written in.

  RFC 6455 asks for the minimal number of bytes (section 5.2).  That is a property of a
  form and a length, `LengthForm.Minimal`, and there is one minimal form for every length.
  `wsSendPacket` changes to the eight byte form at `SHRT_MAX`, the limit of a signed
  sixteen bit number, where the two byte form still has room for as many lengths again.
-/
import NoGround.Ws.RoundTrip

set_option autoImplicit false

namespace NoGround

open NoGround.Lib

variable {ω : Type}

/-! ## Minimal forms -/

namespace LengthForm

/-- No form that can hold the length has fewer bytes. -/
def Minimal (form : LengthForm) (n : Nat) : Prop :=
  form.Fits n ∧
    ∀ form' : LengthForm, form'.Fits n →
      (form.extension n).length ≤ (form'.extension n).length

/-- The number of bytes behind the header. -/
def width : LengthForm → Nat
  | .short => 0
  | .word => 2
  | .long => 8

theorem length_extension (form : LengthForm) (n : Nat) :
    (form.extension n).length = form.width := by
  cases form <;> simp [extension, width]

theorem minimal_short (n : Nat) : Minimal .short n ↔ n ≤ 125 := by
  constructor
  · intro h
    have hfits : n < 126 := h.1
    omega
  · intro h
    refine ⟨?_, ?_⟩
    · show n < 126
      omega
    · intro form' _
      exact Nat.zero_le _

theorem minimal_word (n : Nat) : Minimal .word n ↔ 126 ≤ n ∧ n ≤ 65535 := by
  constructor
  · intro h
    have hfits : n < 2 ^ 16 := h.1
    refine ⟨?_, by omega⟩
    by_contra hlt
    have hshort : Fits .short n := by
      show n < 126
      omega
    have hle := h.2 .short hshort
    rw [length_extension, length_extension] at hle
    exact absurd hle (by decide)
  · intro h
    refine ⟨?_, ?_⟩
    · show n < 2 ^ 16
      omega
    · intro form' hfits
      rw [length_extension, length_extension]
      cases form' with
      | short =>
        have hlt : n < 126 := hfits
        omega
      | word => exact Nat.le_refl 2
      | long => exact Nat.le_add_right 2 6

theorem minimal_long (n : Nat) : Minimal .long n ↔ 65536 ≤ n ∧ n < 2 ^ 32 := by
  constructor
  · intro h
    refine ⟨?_, h.1⟩
    by_contra hlt
    have hword : Fits .word n := by
      show n < 2 ^ 16
      omega
    have hle := h.2 .word hword
    rw [length_extension, length_extension] at hle
    exact absurd hle (by decide)
  · intro h
    refine ⟨h.2, ?_⟩
    intro form' hfits
    rw [length_extension, length_extension]
    cases form' with
    | short =>
      have hlt : n < 126 := hfits
      omega
    | word =>
      have hlt : n < 2 ^ 16 := hfits
      omega
    | long => exact Nat.le_refl 8

/-- The code in the header tells the form. -/
theorem eq_of_code_eq {form form' : LengthForm} {n : Nat} (hfits : form.Fits n)
    (hfits' : form'.Fits n) (h : form.code n = form'.code n) : form = form' := by
  have hnat := congrArg BitVec.toNat h
  have hshort : Fits .short n → (code .short n).toNat = n := toNat_code_short
  have hlt : Fits .short n → n < 126 := fun h => h
  have hword : (code .word n).toNat = 126 := rfl
  have hlong : (code .long n).toNat = 127 := rfl
  cases form with
  | short =>
    have hn := hshort hfits
    have hn' := hlt hfits
    cases form' with
    | short => rfl
    | word => omega
    | long => omega
  | word =>
    cases form' with
    | short =>
      have hn := hshort hfits'
      have hn' := hlt hfits'
      omega
    | word => rfl
    | long => omega
  | long =>
    cases form' with
    | short =>
      have hn := hshort hfits'
      have hn' := hlt hfits'
      omega
    | word => omega
    | long => rfl

end LengthForm

/-! ## The header RFC 6455 allows -/

/-- The head of an unmasked, final frame with the fields and the length of a packet. -/
structure WireHead.IsFinal (head : WireHead) (packet : WSPacket) : Prop where
  opcode : head.opcode = packet.header.opcode
  RSV : head.RSV = packet.header.RSV
  FIN : head.FIN = 1#1
  unmasked : head.key = none
  length : head.length = packet.length

/-- The bytes are the header of such a frame, with its length in the given form. -/
def HeaderIn (form : LengthForm) (packet : WSPacket) (header : List UInt8) : Prop :=
  ∃ head : WireHead, head.IsFinal packet ∧ head.form = form ∧ header = head.wire

/-- Each form exactly for the lengths the standard has it for. -/
structure MinimalHeader (packet : WSPacket) (header : List UInt8) : Prop where
  short : HeaderIn .short packet header ↔ packet.length ≤ 125
  word : HeaderIn .word packet header ↔ 126 ≤ packet.length ∧ packet.length ≤ 65535
  long : HeaderIn .long packet header ↔ 65536 ≤ packet.length

section Headers

variable {packet : WSPacket} {header : List UInt8}

/-- Heads of the same packet with the same bytes have the same form. -/
theorem WireHead.IsFinal.form_eq {head head' : WireHead} (h : head.IsFinal packet)
    (h' : head'.IsFinal packet) (hwire : head.wire = head'.wire) : head.form = head'.form := by
  have hbyte : head.header.byte₁ = head'.header.byte₁ := by
    have hsecond := congrArg (fun l => l[1]?) hwire
    exact Option.some.inj hsecond
  have hmask : ∀ {x : WireHead}, x.IsFinal packet → x.header.mask = 0#1 := by
    intro x hx
    simp [WireHead.header, hx.unmasked]
  have hcode : head.header.length = head'.header.length := by
    have hfields := WSFrameHeader.ofBytes_toBytes head.header
    have hfields' := WSFrameHeader.ofBytes_toBytes head'.header
    rw [← hfields, ← hfields', hbyte]
    rfl
  have hfits := head.fits
  have hfits' := head'.fits
  have hcodes : head.form.code head.length = head'.form.code head'.length := hcode
  rw [h.length] at hfits hcodes
  rw [h'.length] at hfits' hcodes
  exact LengthForm.eq_of_code_eq hfits hfits' hcodes

/-- The fields and the form determine the bytes. -/
theorem WireHead.IsFinal.wire_eq {head head' : WireHead} (h : head.IsFinal packet)
    (h' : head'.IsFinal packet) (hform : head.form = head'.form) : head.wire = head'.wire := by
  unfold WireHead.wire WireHead.header
  rw [h.opcode, h'.opcode, h.RSV, h'.RSV, h.FIN, h'.FIN, h.unmasked, h'.unmasked, h.length,
    h'.length, hform]

/-- A header is in one form only. -/
theorem headerIn_iff {head : WireHead} (h : head.IsFinal packet) (form : LengthForm) :
    HeaderIn form packet head.wire ↔ head.form = form := by
  constructor
  · rintro ⟨head', h', rfl, hwire⟩
    exact h.form_eq h' hwire
  · intro hform
    exact ⟨head, h, hform, rfl⟩

/-- For a length below 2^32 there is a form the standard has it for. -/
theorem MinimalHeader.minimal (h : MinimalHeader packet header) (hu32 : packet.length < 2 ^ 32) :
    ∃ form : LengthForm, form.Minimal packet.length ∧ HeaderIn form packet header := by
  rcases Nat.lt_or_ge packet.length 126 with hshort | hshort
  · have hle : packet.length ≤ 125 := by omega
    exact ⟨.short, (LengthForm.minimal_short _).mpr hle, h.short.mpr hle⟩
  · rcases Nat.lt_or_ge packet.length 65536 with hword | hword
    · have hrange : 126 ≤ packet.length ∧ packet.length ≤ 65535 := ⟨hshort, by omega⟩
      exact ⟨.word, (LengthForm.minimal_word _).mpr hrange, h.word.mpr hrange⟩
    · exact ⟨.long, (LengthForm.minimal_long _).mpr ⟨hword, hu32⟩, h.long.mpr hword⟩

/-- Two minimal forms of one length are the same. -/
theorem LengthForm.Minimal.eq {form form' : LengthForm} {n : Nat} (h : form.Minimal n)
    (h' : form'.Minimal n) : form = form' := by
  have hle := h.2 form' h'.1
  have hge := h'.2 form h.1
  rw [length_extension, length_extension] at hle hge
  have hwidth := Nat.le_antisymm hle hge
  cases form <;> cases form' <;> first | rfl | exact absurd hwidth (by decide)

/-- The standard allows one header. -/
theorem MinimalHeader.unique {header' : List UInt8} (h : MinimalHeader packet header)
    (h' : MinimalHeader packet header') (hu32 : packet.length < 2 ^ 32) : header = header' := by
  obtain ⟨form, hmin, head, hfinal, rfl, rfl⟩ := h.minimal hu32
  obtain ⟨form', hmin', head', hfinal', rfl, rfl⟩ := h'.minimal hu32
  exact hfinal.wire_eq hfinal' (hmin.eq hmin')

end Headers

/-! ## The header that is written -/

theorem WSPacket.sentHead_isFinal (packet : WSPacket) (h : packet.length < 2 ^ 32) :
    (packet.sentHead h).IsFinal packet :=
  ⟨rfl, rfl, rfl, rfl, rfl⟩

/-- The header is the one the standard allows, except for the lengths that two bytes can
hold and a signed sixteen bit number cannot. -/
theorem headerBytes_minimal_iff {packet : WSPacket} (hu32 : packet.length < 2 ^ 32) :
    MinimalHeader packet packet.headerBytes ↔
      packet.length < SHRT_MAX ∨ 65536 ≤ packet.length := by
  have hshrt : SHRT_MAX = 32767 := rfl
  have hin := headerIn_iff (packet.sentHead_isFinal hu32)
  have hform : (packet.sentHead hu32).form = sentForm packet.length := rfl
  rw [packet.headerBytes_eq hu32]
  constructor
  · intro h
    by_contra hgap
    have hword := (hin .word).mp (h.word.mpr (by omega))
    have hlong : sentForm packet.length = .long := by
      unfold sentForm
      rw [if_neg (by omega), if_neg (by omega)]
    rw [hform, hlong] at hword
    cases hword
  · intro h
    refine ⟨?_, ?_, ?_⟩
    all_goals
      rw [hin, hform]
      unfold sentForm
      split
      · simp only [reduceCtorEq, true_iff, false_iff]
        omega
      · split
        · simp only [reduceCtorEq, true_iff, false_iff]
          omega
        · simp only [reduceCtorEq, true_iff, false_iff]
          omega

/-- What `wsSendPacket` hands to the socket first is the header the standard allows. -/
def SendsMinimalHeader (sys : Sys ω) (client : Client) (packet : WSPacket) (w : ω) : Prop :=
  ∃ header n rest, (wsSendPacket sys client packet w).out =
      .frame client.fd packet.frame :: .sent client.fd header n :: rest ∧
    MinimalHeader packet header

theorem sendsMinimalHeader_iff (sys : Sys ω) (client : Client) (packet : WSPacket) (w : ω) :
    SendsMinimalHeader sys client packet w ↔ MinimalHeader packet packet.headerBytes := by
  obtain ⟨r, w', n, rest, hrun, -⟩ := wsSendPacket_run sys client packet w
  unfold SendsMinimalHeader
  rw [hrun]
  constructor
  · rintro ⟨header, n', rest', hout, hminimal⟩
    simp only [List.cons.injEq, NetEvent.sent.injEq, true_and] at hout
    rw [hout.1.1]
    exact hminimal
  · intro hminimal
    exact ⟨_, _, _, rfl, hminimal⟩

/-- **Minimal length encoding, exactly.** -/
theorem wsSendPacket_minimal_iff (sys : Sys ω) (client : Client) (packet : WSPacket) (w : ω)
    (hu32 : packet.length < 2 ^ 32) :
    SendsMinimalHeader sys client packet w ↔
      packet.length < SHRT_MAX ∨ 65536 ≤ packet.length := by
  rw [sendsMinimalHeader_iff]
  exact headerBytes_minimal_iff hu32

/-- A text of `n` letters. -/
def textPacket (n : Nat) : WSPacket where
  header := { WSFrameHeader.zero with opcode := WS_OP_TEXT }
  mask_key := WSPacket.zero.mask_key
  length := n
  len := 0
  payload := some (Block.ofBytes (List.replicate n 65))

/-- A text of 32766 bytes is written in the two byte form. -/
theorem wsSendPacket_minimal_below_limit :
    SendsMinimalHeader Script.sys Client.blank (textPacket 32766) {} :=
  (wsSendPacket_minimal_iff Script.sys Client.blank (textPacket 32766) {} (by decide)).mpr
    (.inl (by decide))

/-- A text of 32767 bytes is written in the eight byte form. -/
theorem wsSendPacket_not_minimal :
    ¬ SendsMinimalHeader Script.sys Client.blank (textPacket 32767) {} := by
  rw [sendsMinimalHeader_iff, headerBytes_minimal_iff (by decide)]
  decide

end NoGround
