/-
  Ws/Frame.lean --- frames on the wire, and that `readHead` reads them.

  This is the format of RFC 6455 as the peer of a connection sees it: two bytes of
  fields, a length in one of three forms, four bytes of key if the payload is masked,
  and the payload.  Nothing here is taken from the server; `readHead_wire` connects
  the two, and everything that is proved about well-formed input goes through it.
-/
import NoGround.Ws.Packet

set_option autoImplicit false

namespace NoGround

open NoGround.Lib

/-! ## Length forms -/

/-- The three ways to write a length. -/
inductive LengthForm where
  /-- in the seven bits of the header -/
  | short
  /-- code 126, and two bytes -/
  | word
  /-- code 127, and eight bytes -/
  | long
  deriving DecidableEq, Repr

namespace LengthForm

/-- The code in the header. -/
def code : LengthForm → Nat → BitVec 7
  | .short, n => BitVec.ofNat 7 n
  | .word, _ => 126#7
  | .long, _ => 127#7

/-- The bytes behind the header. -/
def extension : LengthForm → Nat → List UInt8
  | .short, _ => []
  | .word, n => bytesBE 2 n
  | .long, n => bytesBE 4 0 ++ bytesBE 4 n

/-- The length can be written in this form; of the eight bytes of the long form the
first four are zero. -/
def Fits : LengthForm → Nat → Prop
  | .short, n => n < 126
  | .word, n => n < 2 ^ 16
  | .long, n => n < 2 ^ 32

instance : (form : LengthForm) → (n : Nat) → Decidable (form.Fits n)
  | .short, n => inferInstanceAs (Decidable (n < 126))
  | .word, n => inferInstanceAs (Decidable (n < 2 ^ 16))
  | .long, n => inferInstanceAs (Decidable (n < 2 ^ 32))

theorem toNat_code_short {n : Nat} (h : n < 126) : (code .short n).toNat = n := by
  rw [code, BitVec.toNat_ofNat]
  omega

/-- A length in any form is read back, up to the limit. -/
theorem readLength_eq {form : LengthForm} {n : Nat} (header : WSFrameHeader)
    (buffer : Nat → UInt8) (hfits : form.Fits n) (hcode : header.length = form.code n)
    (hbuffer : ∀ i, i < (form.extension n).length →
      buffer (2 + i) = (form.extension n).getD i 0) :
    readLength header buffer =
      if n ≤ MAX_WS_PACKET_LENGTH then some (n, 2 + (form.extension n).length) else none := by
  have hmax : MAX_WS_PACKET_LENGTH = 52428800 := rfl
  unfold readLength
  rw [hcode]
  cases form with
  | short =>
    have hlt : n < 126 := hfits
    have hn := toNat_code_short hlt
    have hle : n ≤ MAX_WS_PACKET_LENGTH := by omega
    simp [hn, hlt, hle, extension]
  | word =>
    have hlt : n < 256 ^ 2 := by
      have : n < 2 ^ 16 := hfits
      omega
    have hle : n ≤ MAX_WS_PACKET_LENGTH := by omega
    have hword : [buffer 2, buffer 3] = bytesBE 2 n := by
      have hb₀ : buffer 2 = _ := hbuffer 0 (by simp [extension])
      have hb₁ : buffer 3 = _ := hbuffer 1 (by simp [extension])
      rw [hb₀, hb₁]
      rfl
    rw [hword, natBE_bytesBE hlt]
    simp [code, hle, extension]
  | long =>
    have hlt : n < 256 ^ 4 := by
      have : n < 2 ^ 32 := hfits
      omega
    have hhigh : [buffer 2, buffer 3, buffer 4, buffer 5] = bytesBE 4 0 := by
      have hb₀ : buffer 2 = _ := hbuffer 0 (by simp [extension])
      have hb₁ : buffer 3 = _ := hbuffer 1 (by simp [extension])
      have hb₂ : buffer 4 = _ := hbuffer 2 (by simp [extension])
      have hb₃ : buffer 5 = _ := hbuffer 3 (by simp [extension])
      rw [hb₀, hb₁, hb₂, hb₃]
      rfl
    have hlow : [buffer 6, buffer 7, buffer 8, buffer 9] = bytesBE 4 n := by
      have hb₀ : buffer 6 = _ := hbuffer 4 (by simp [extension])
      have hb₁ : buffer 7 = _ := hbuffer 5 (by simp [extension])
      have hb₂ : buffer 8 = _ := hbuffer 6 (by simp [extension])
      have hb₃ : buffer 9 = _ := hbuffer 7 (by simp [extension])
      rw [hb₀, hb₁, hb₂, hb₃]
      rfl
    rw [hhigh, hlow, natBE_bytesBE hlt, natBE_bytesBE (by decide)]
    by_cases hle : n ≤ MAX_WS_PACKET_LENGTH
    · simp [code, hle, extension]
    · simp [code, hle]

end LengthForm

/-! ## Heads -/

/-- What stands in front of a payload. -/
structure WireHead where
  opcode : BitVec 4
  RSV : BitVec 3
  FIN : BitVec 1
  form : LengthForm
  length : Nat
  /-- the key of a masked payload -/
  key : Option MaskKey
  fits : form.Fits length

namespace WireHead

variable (head : WireHead)

def header : WSFrameHeader where
  opcode := head.opcode
  RSV := head.RSV
  FIN := head.FIN
  length := head.form.code head.length
  mask := if head.key.isSome then 1#1 else 0#1

/-- The bytes in front of the payload. -/
def wire : List UInt8 :=
  head.header.toBytes ++
    (head.form.extension head.length ++ (head.key.elim [] MaskKey.toBytes))

/-- The key, where no mask is one that changes nothing. -/
def mask_key : MaskKey := head.key.getD fun _ => 0

/-- What the server should read. -/
def frameHead : FrameHead := ⟨head.header, head.length, head.mask_key, head.wire.length⟩

theorem length_wire :
    head.wire.length = 2 + (head.form.extension head.length).length +
      (if head.key.isSome then 4 else 0) := by
  unfold wire WSFrameHeader.toBytes
  cases head.key with
  | none => simp; omega
  | some key => simp [MaskKey.toBytes]; omega

/-- A buffer that starts with the wire form of a head is read as that head; too long a
payload is rejected. -/
theorem readHead_eq (buffer : Nat → UInt8)
    (hbuffer : ∀ i, i < head.wire.length → buffer i = head.wire.getD i 0) :
    readHead buffer =
      if head.length ≤ MAX_WS_PACKET_LENGTH then some head.frameHead else none := by
  have hlen := head.length_wire
  have hwire : head.wire = head.header.byte₀ :: head.header.byte₁ ::
      (head.form.extension head.length ++ (head.key.elim [] MaskKey.toBytes)) := rfl
  have hheader : WSFrameHeader.ofBytes (buffer 0) (buffer 1) = head.header := by
    have hb₀ := hbuffer 0 (by omega)
    have hb₁ := hbuffer 1 (by omega)
    rw [hwire] at hb₀ hb₁
    rw [hb₀, hb₁]
    exact WSFrameHeader.ofBytes_toBytes _
  have hlength := LengthForm.readLength_eq head.header buffer head.fits rfl (by
      intro i hi
      have hb := hbuffer (2 + i) (by omega)
      rw [hwire, show 2 + i = i + 1 + 1 by omega] at hb
      rw [show 2 + i = i + 1 + 1 by omega, hb]
      simp [List.getD_eq_getElem?_getD, List.getElem?_append_left hi])
  unfold readHead
  simp only [hheader, hlength]
  by_cases hle : head.length ≤ MAX_WS_PACKET_LENGTH
  · simp only [if_pos hle]
    cases hkey : head.key with
    | none =>
      have hmask : head.header.mask ≠ 1#1 := by
        simp [header, hkey]
      simp [hmask, frameHead, mask_key, hkey, hlen]
    | some key =>
      have hmask : head.header.mask = 1#1 := by
        simp [header, hkey]
      have hbytes : (fun i : Fin 4 =>
          buffer (2 + (head.form.extension head.length).length + i)) = key := by
        funext i
        have hb := hbuffer (2 + (head.form.extension head.length).length + i)
          (by rw [hlen, hkey]; simp)
        rw [hb, hwire, hkey,
          show 2 + (head.form.extension head.length).length + (i : Nat) =
            (head.form.extension head.length).length + i + 1 + 1 by omega]
        simp only [List.getD_eq_getElem?_getD, List.getElem?_cons_succ, Option.elim_some]
        rw [List.getElem?_append_right (by omega), Nat.add_sub_cancel_left,
          MaskKey.getElem?_toBytes]
        rfl
      simp [hmask, frameHead, mask_key, hkey, hlen, hbytes]
  · simp only [if_neg hle]

end WireHead

end NoGround
