/-
  Key/Sha1Digest.lean --- sha1.c computes the digest of the standard.

  THE BLOCK.  `SHA1ProcessMessageBlock` is `compress`: the loop that fills `W` computes the
  schedule, and the four loops over the word buffers are the rounds of the standard, twenty of
  them each.

  THE MESSAGE.  `Absorbs ctx m` says what a context is after the message `m`: the whole blocks of
  it are worked in, the rest is in the block, and the two length words count its bits.
-/
import NoGround.Key.Sha1
import Mathlib.Data.List.GetD

set_option autoImplicit false

namespace NoGround

open NoGround.Lib

namespace SHA1

/-! ## The schedule -/

/-- A loop that appends one element a round, each made of those before it. -/
theorem getD_foldl_append {α : Type} {d : α} {f : List α → Nat → α} {g : Nat → α} {W : List α}
    {s : Nat} (hlen : W.length = s) (hW : ∀ j < s, W.getD j d = g j) {n : Nat}
    (hf : ∀ (W : List α) (t : Nat), s ≤ t → t < s + n → (∀ j < t, W.getD j d = g j) →
      f W t = g t) :
    ((List.range' s n).foldl (fun W t => W ++ [f W t]) W).length = s + n ∧
      ∀ j < s + n, ((List.range' s n).foldl (fun W t => W ++ [f W t]) W).getD j d = g j := by
  induction n with
  | zero => exact ⟨hlen, hW⟩
  | succ n ih =>
    obtain ⟨hlen', hW'⟩ := ih fun W t hle hlt => hf W t hle (by omega)
    rw [List.range'_concat, List.foldl_append, Nat.one_mul]
    generalize (List.range' s n).foldl (fun W t => W ++ [f W t]) W = W' at hlen' hW'
    rw [List.foldl_cons, List.foldl_nil]
    constructor
    · rw [List.length_append, hlen', List.length_singleton, Nat.add_assoc]
    · intro j hj
      rcases Nat.lt_or_ge j (s + n) with hlt | hge
      · rw [List.getD_append _ _ _ _ (by omega)]
        exact hW' j hlt
      · have heq : j = s + n := by omega
        subst heq
        rw [List.getD_append_right _ _ _ _ (by omega), hlen', Nat.sub_self]
        exact hf W' (s + n) (by omega) (by omega) hW'

theorem circularShift_eq (word : BitVec 32) {n : Nat} (hn : n < 32) :
    SHA1CircularShift n word = word.rotateLeft n := by
  rw [SHA1CircularShift, BitVec.rotateLeft_def, Nat.mod_eq_of_lt hn]

/-- Four bytes side by side. -/
theorem shift_or_eq (b₀ b₁ b₂ b₃ : UInt8) :
    b₀.toBitVec.setWidth 32 <<< 24 ||| b₁.toBitVec.setWidth 32 <<< 16 |||
      b₂.toBitVec.setWidth 32 <<< 8 ||| b₃.toBitVec.setWidth 32 = wordBE [b₀, b₁, b₂, b₃] := by
  have h₀ : b₀.toNat < 256 := b₀.toNat_lt
  have h₁ : b₁.toNat < 256 := b₁.toNat_lt
  have h₂ : b₂.toNat < 256 := b₂.toNat_lt
  have h₃ : b₃.toNat < 256 := b₃.toNat_lt
  have hshift (b : UInt8) (k : Nat) (hk : k ≤ 24) :
      (b.toBitVec.setWidth 32 <<< k).toNat = 2 ^ k * b.toNat := by
    have hb : b.toNat < 2 ^ 8 := b.toNat_lt
    have hlt : b.toNat * 2 ^ k < 2 ^ 32 := by
      calc b.toNat * 2 ^ k < 2 ^ 8 * 2 ^ k := Nat.mul_lt_mul_of_pos_right hb (Nat.two_pow_pos k)
        _ = 2 ^ (8 + k) := (Nat.pow_add 2 8 k).symm
        _ ≤ 2 ^ 32 := Nat.pow_le_pow_right (by decide) (by omega)
    have hwide : (b.toBitVec.setWidth 32).toNat = b.toNat := by
      rw [BitVec.toNat_setWidth]
      exact Nat.mod_eq_of_lt (by omega)
    rw [BitVec.toNat_shiftLeft, hwide, Nat.shiftLeft_eq, Nat.mod_eq_of_lt hlt, Nat.mul_comm]
  have hlast : (b₃.toBitVec.setWidth 32).toNat = b₃.toNat := by
    rw [BitVec.toNat_setWidth]
    exact Nat.mod_eq_of_lt (by omega)
  apply BitVec.eq_of_toNat_eq
  rw [BitVec.toNat_or, BitVec.toNat_or, BitVec.toNat_or, hshift b₀ 24 (by decide),
    hshift b₁ 16 (by decide), hshift b₂ 8 (by decide), hlast, Nat.or_assoc, Nat.or_assoc,
    ← Nat.two_pow_add_eq_or_of_lt (by omega : b₃.toNat < 2 ^ 8),
    ← Nat.two_pow_add_eq_or_of_lt (by omega : 2 ^ 8 * b₂.toNat + b₃.toNat < 2 ^ 16),
    ← Nat.two_pow_add_eq_or_of_lt
      (by omega : 2 ^ 16 * b₁.toNat + (2 ^ 8 * b₂.toNat + b₃.toNat) < 2 ^ 24)]
  simp only [wordBE, natBE, List.foldl_cons, List.foldl_nil, BitVec.toNat_ofNat]
  omega

/-- A word of the block. -/
theorem messageWord_eq {block : List UInt8} (hlen : block.length = 64) {t : Nat} (ht : t < 16) :
    messageWord block t = wordBE ((block.drop (4 * t)).take 4) := by
  have hfour : (block.drop (4 * t)).take 4 = [block.getD (t * 4) 0, block.getD (t * 4 + 1) 0,
      block.getD (t * 4 + 2) 0, block.getD (t * 4 + 3) 0] := by
    apply List.ext_getElem
    · simp only [List.length_take, List.length_drop, List.length_cons, List.length_nil]
      omega
    · intro i h₁ h₂
      simp only [List.length_cons, List.length_nil] at h₂
      rw [List.getElem_take, List.getElem_drop]
      have hi : i = 0 ∨ i = 1 ∨ i = 2 ∨ i = 3 := by omega
      rcases hi with rfl | rfl | rfl | rfl
      · simp [List.getD_eq_getElem?_getD, Nat.mul_comm t 4, show 4 * t < block.length by omega]
      · simp [List.getD_eq_getElem?_getD, Nat.mul_comm t 4, show 4 * t + 1 < block.length by omega]
      · simp [List.getD_eq_getElem?_getD, Nat.mul_comm t 4, show 4 * t + 2 < block.length by omega]
      · simp [List.getD_eq_getElem?_getD, Nat.mul_comm t 4, show 4 * t + 3 < block.length by omega]
  rw [hfour]
  exact shift_or_eq _ _ _ _

theorem schedule_of_lt (block : List UInt8) {t : Nat} (ht : t < 16) :
    schedule block t = wordBE ((block.drop (4 * t)).take 4) := by
  rw [schedule, if_pos ht]

theorem schedule_of_ge (block : List UInt8) {t : Nat} (ht : 16 ≤ t) :
    schedule block t = (schedule block (t - 3) ^^^ schedule block (t - 8) ^^^
      schedule block (t - 14) ^^^ schedule block (t - 16)).rotateLeft 1 := by
  rw [schedule, if_neg (by omega)]

/-- **The schedule.**  `W` is filled with it. -/
theorem getD_wordSequence {block : List UInt8} (hlen : block.length = 64) :
    ∀ t < 80, (wordSequence block).getD t 0#32 = schedule block t := by
  have hfirst := getD_foldl_append (d := 0#32) (f := fun _ t => messageWord block t)
    (g := schedule block) (W := []) (s := 0) (n := 16) rfl
    (fun j hj => absurd hj (Nat.not_lt_zero j))
    (fun W t _ hlt _ => by
      rw [schedule_of_lt block (by omega), messageWord_eq hlen (by omega)])
  have hsecond := getD_foldl_append (d := 0#32) (g := schedule block) (s := 16) (n := 64)
    (f := fun W t => SHA1CircularShift 1 (W.getD (t - 3) 0#32 ^^^ W.getD (t - 8) 0#32 ^^^
      W.getD (t - 14) 0#32 ^^^ W.getD (t - 16) 0#32)) hfirst.1 hfirst.2
    (fun W t hle _ hW => by
      rw [hW _ (by omega), hW _ (by omega), hW _ (by omega), hW _ (by omega),
        circularShift_eq _ (by decide), ← schedule_of_ge block hle])
  intro t ht
  rw [← hsecond.2 t ht, wordSequence, List.range_eq_range']

/-! ## The rounds -/

theorem choose_eq (x y z : BitVec 32) : x &&& y ||| ~~~x &&& z = (x &&& y) ^^^ (~~~x &&& z) := by
  ext i hi
  simp only [BitVec.getElem_or, BitVec.getElem_and, BitVec.getElem_not, BitVec.getElem_xor]
  cases x[i] <;> cases y[i] <;> cases z[i] <;> rfl

theorem majority_eq (x y z : BitVec 32) :
    x &&& y ||| x &&& z ||| y &&& z = (x &&& y) ^^^ (x &&& z) ^^^ (y &&& z) := by
  ext i hi
  simp only [BitVec.getElem_or, BitVec.getElem_and, BitVec.getElem_xor]
  cases x[i] <;> cases y[i] <;> cases z[i] <;> rfl

/-- A round of the code is one of the standard. -/
theorem round_eq {block : List UInt8} (hlen : block.length = 64) {t : Nat} (ht : t < 80)
    {f : BitVec 32 → BitVec 32 → BitVec 32 → BitVec 32} {k : BitVec 32}
    (hf : ∀ x y z, f x y z = roundFunction t x y z) (hk : k = roundConstant t) (w : Words) :
    round (wordSequence block) f k w t = standardRound block w t := by
  have hsum (a : BitVec 32) : a + schedule block t + k = a + k + schedule block t := by
    rw [BitVec.add_assoc, BitVec.add_comm (schedule block t), ← BitVec.add_assoc]
  unfold round standardRound
  rw [getD_wordSequence hlen t ht, circularShift_eq _ (by decide), circularShift_eq _ (by decide),
    hf, hsum, hk]

/-- Twenty rounds. -/
theorem foldl_round_eq {block : List UInt8} (hlen : block.length = 64) {s n : Nat}
    (hn : s + n ≤ 80) {f : BitVec 32 → BitVec 32 → BitVec 32 → BitVec 32} {k : BitVec 32}
    (hf : ∀ t, s ≤ t → t < s + n → ∀ x y z, f x y z = roundFunction t x y z)
    (hk : ∀ t, s ≤ t → t < s + n → k = roundConstant t) (w : Words) :
    (List.range' s n).foldl (round (wordSequence block) f k) w =
      (List.range' s n).foldl (standardRound block) w := by
  apply List.foldl_ext
  intro w t ht
  obtain ⟨hle, hlt⟩ := List.mem_range'_1.mp ht
  exact round_eq hlen (by omega) (hf t hle hlt) (hk t hle hlt) w

theorem rounds_eq {block : List UInt8} (hlen : block.length = 64) (w : Words) :
    rounds (wordSequence block) w = (List.range 80).foldl (standardRound block) w := by
  have hrange : List.range 80 = List.range' 0 20 ++ (List.range' 20 20 ++
      (List.range' 40 20 ++ List.range' 60 20)) := by
    decide
  unfold rounds
  dsimp only
  rw [hrange, List.foldl_append, List.foldl_append, List.foldl_append,
    foldl_round_eq hlen (s := 0) (by decide), foldl_round_eq hlen (s := 20) (by decide),
    foldl_round_eq hlen (s := 40) (by decide), foldl_round_eq hlen (s := 60) (by decide)]
  all_goals intro t hle hlt
  · intro x y z
    rw [roundFunction, if_neg (by omega), if_neg (by omega), if_neg (by omega)]
  · rw [roundConstant, if_neg (by omega), if_neg (by omega), if_neg (by omega)]
    rfl
  · intro x y z
    rw [roundFunction, if_neg (by omega), if_neg (by omega), if_pos (by omega), majority_eq]
  · rw [roundConstant, if_neg (by omega), if_neg (by omega), if_pos (by omega)]
    rfl
  · intro x y z
    rw [roundFunction, if_neg (by omega), if_pos (by omega)]
  · rw [roundConstant, if_neg (by omega), if_pos (by omega)]
    rfl
  · intro x y z
    rw [roundFunction, if_pos (by omega), choose_eq]
  · rw [roundConstant, if_pos (by omega)]
    rfl

end SHA1

/-! ## The buffer -/

/-- The bytes of the block that are filled. -/
def SHA1Context.filled (context : SHA1Context) : List UInt8 :=
  context.Message_Block.toList.take context.Message_Block_Index

/-- A context with the words `hash` and the bytes `buffer`. -/
structure Holds (context : SHA1Context) (hash : Words) (buffer : List UInt8) : Prop where
  hash : context.Intermediate_Hash = hash
  index : context.Message_Block_Index = buffer.length
  filled : context.filled = buffer

/-- Two contexts differ at most in the words, the block and its index. -/
structure SameCounts (context context' : SHA1Context) : Prop where
  low : context'.Length_Low = context.Length_Low
  high : context'.Length_High = context.Length_High
  computed : context'.Computed = context.Computed
  corrupted : context'.Corrupted = context.Corrupted

namespace SameCounts

variable {a b c : SHA1Context}

theorem trans (hab : SameCounts a b) (hbc : SameCounts b c) : SameCounts a c :=
  ⟨hbc.low.trans hab.low, hbc.high.trans hab.high, hbc.computed.trans hab.computed,
    hbc.corrupted.trans hab.corrupted⟩

end SameCounts

theorem take_set_succ {l : List UInt8} {i : Nat} (hi : i < l.length) (b : UInt8) :
    (l.set i b).take (i + 1) = l.take i ++ [b] := by
  rw [List.take_add_one, List.getElem?_set_self hi, List.take_set_of_le (Nat.le_refl i)]
  rfl

/-- `SHA1ProcessMessageBlock` touches only the words and the index. -/
theorem process_sameCounts (context : SHA1Context) :
    SameCounts context (SHA1ProcessMessageBlock context) := by
  -- Unfolded first: `rfl` alone would compare the words.
  unfold SHA1ProcessMessageBlock
  dsimp only
  exact ⟨rfl, rfl, rfl, rfl⟩

section Buffer

variable {context : SHA1Context} {hash : Words} {buffer : List UInt8}

/-- One more byte. -/
theorem store_holds (h : Holds context hash buffer) (hlen : buffer.length < 64) (b : UInt8) :
    ∃ context', context.store b = some context' ∧ Holds context' hash (buffer ++ [b]) ∧
      SameCounts context context' := by
  have hindex : context.Message_Block_Index < 64 := h.index ▸ hlen
  refine ⟨_, dif_pos hindex, ⟨h.hash, ?_, ?_⟩, ⟨rfl, rfl, rfl, rfl⟩⟩
  · rw [List.length_append, List.length_singleton, ← h.index]
  · unfold SHA1Context.filled
    rw [Vector.toList_set, take_set_succ (by simpa using hindex), ← h.filled]
    rfl

/-- Zeros behind it. -/
theorem zeros_holds (h : Holds context hash buffer) {n : Nat} (hlen : buffer.length + n ≤ 64) :
    ∃ context', context.zeros n = some context' ∧
      Holds context' hash (buffer ++ List.replicate n 0) ∧ SameCounts context context' := by
  induction n generalizing context buffer with
  | zero =>
    refine ⟨context, rfl, ?_, ⟨rfl, rfl, rfl, rfl⟩⟩
    rw [List.replicate_zero, List.append_nil]
    exact h
  | succ n ih =>
    obtain ⟨context₁, hstore, hholds, hsame⟩ := store_holds h (by omega) 0
    obtain ⟨context₂, hzeros, hholds₂, hsame₂⟩ := ih hholds (by
      rw [List.length_append, List.length_singleton]
      omega)
    refine ⟨context₂, ?_, ?_, hsame.trans hsame₂⟩
    · rw [SHA1Context.zeros, hstore]
      exact hzeros
    · rw [List.append_assoc] at hholds₂
      exact hholds₂

theorem zerosTo_holds (h : Holds context hash buffer) (limit : Nat)
    (hlen : buffer.length ≤ limit) (hlimit : limit ≤ 64) :
    ∃ context', context.zerosTo limit = some context' ∧
      Holds context' hash (buffer ++ List.replicate (limit - buffer.length) 0) ∧
      SameCounts context context' := by
  rw [SHA1Context.zerosTo, h.index]
  exact zeros_holds h (by omega)

/-- A full block is worked in. -/
theorem process_holds (h : Holds context hash buffer) (hlen : buffer.length = 64) :
    Holds (SHA1ProcessMessageBlock context) (SHA1.compress hash buffer) [] ∧
      SameCounts context (SHA1ProcessMessageBlock context) := by
  have hblock : context.Message_Block.toList = buffer := by
    have hfilled := h.filled
    rw [SHA1Context.filled, h.index, hlen, List.take_of_length_le (by simp)] at hfilled
    exact hfilled
  refine ⟨⟨?_, rfl, List.take_zero⟩, ?_⟩
  swap
  · exact process_sameCounts context
  show context.Intermediate_Hash.add (SHA1.rounds (SHA1.wordSequence context.Message_Block.toList)
    context.Intermediate_Hash) = _
  rw [hblock, h.hash, SHA1.rounds_eq hlen]
  rfl

/-- A byte of a length word. -/
theorem lengthByte_eq (word : BitVec 32) (n : Nat) :
    UInt8.ofBitVec ((word >>> n).setWidth 8) = UInt8.ofNat (word.toNat / 2 ^ n) := by
  apply UInt8.toNat_inj.mp
  rw [UInt8.toNat_ofBitVec, BitVec.toNat_setWidth, BitVec.toNat_ushiftRight,
    Nat.shiftRight_eq_div_pow, UInt8.toNat_ofNat']

/-- The bytes of two words are those of the number they make. -/
theorem bytesBE_eight (high low : BitVec 32) :
    bytesBE 8 (2 ^ 32 * high.toNat + low.toNat) =
      [UInt8.ofNat (high.toNat / 2 ^ 24), UInt8.ofNat (high.toNat / 2 ^ 16),
        UInt8.ofNat (high.toNat / 2 ^ 8), UInt8.ofNat (high.toNat / 2 ^ 0),
        UInt8.ofNat (low.toNat / 2 ^ 24), UInt8.ofNat (low.toNat / 2 ^ 16),
        UInt8.ofNat (low.toNat / 2 ^ 8), UInt8.ofNat (low.toNat / 2 ^ 0)] := by
  have hlow : low.toNat < 2 ^ 32 := low.isLt
  have hbyte {n m : Nat} (h : n % 256 = m % 256) : UInt8.ofNat n = UInt8.ofNat m := by
    apply UInt8.toNat_inj.mp
    rw [UInt8.toNat_ofNat', UInt8.toNat_ofNat']
    exact h
  simp only [bytesBE, List.nil_append, List.cons_append]
  repeat' apply congrArg₂ List.cons
  all_goals first | rfl | (apply hbyte; omega)

/-- The eight bytes of the length. -/
theorem storeLength_holds (h : Holds context hash buffer) (hlen : buffer.length = 56) {bits : Nat}
    (hbits : 2 ^ 32 * context.Length_High.toNat + context.Length_Low.toNat = bits) :
    context.storeLength.Message_Block.toList = buffer ++ bytesBE 8 bits ∧
      context.storeLength.Intermediate_Hash = hash := by
  have hbuffer : context.Message_Block.toList.take 56 = buffer := by
    have hfilled := h.filled
    rw [SHA1Context.filled, h.index, hlen] at hfilled
    exact hfilled
  refine ⟨?_, h.hash⟩
  have hall : context.storeLength.Message_Block.toList =
      context.storeLength.Message_Block.toList.take 64 :=
    (List.take_of_length_le (by simp)).symm
  rw [hall, ← hbits, bytesBE_eight, ← hbuffer]
  unfold SHA1Context.storeLength
  simp only [Vector.toList_set, lengthByte_eq]
  rw [take_set_succ (by simp), take_set_succ (by simp), take_set_succ (by simp),
    take_set_succ (by simp), take_set_succ (by simp), take_set_succ (by simp),
    take_set_succ (by simp), take_set_succ (by simp)]
  simp only [List.append_assoc, List.cons_append, List.nil_append]

/-- The last block. -/
theorem lastBlock_holds (h : Holds context hash buffer) (hlen : buffer.length = 56) {bits : Nat}
    (hbits : 2 ^ 32 * context.Length_High.toNat + context.Length_Low.toNat = bits) :
    (SHA1ProcessMessageBlock context.storeLength).Intermediate_Hash =
      SHA1.compress hash (buffer ++ bytesBE 8 bits) := by
  obtain ⟨hblock, hwords⟩ := storeLength_holds h hlen hbits
  show context.storeLength.Intermediate_Hash.add
    (SHA1.rounds (SHA1.wordSequence context.storeLength.Message_Block.toList)
      context.storeLength.Intermediate_Hash) = _
  rw [hblock, hwords, SHA1.rounds_eq (by rw [List.length_append, hlen, length_bytesBE])]
  rfl

end Buffer

/-! ## The message -/

/-- The words after the whole blocks of a message. -/
def absorbedWords (message : List UInt8) : Words :=
  (groups 64 (whole 64 message)).foldl SHA1.compress initialHash

/-- What a context is after a message. -/
structure Absorbs (context : SHA1Context) (message : List UInt8) : Prop where
  holds : Holds context (absorbedWords message) (rest 64 message)
  bits : 2 ^ 32 * context.Length_High.toNat + context.Length_Low.toNat = 8 * message.length
  computed : context.Computed = false
  corrupted : context.Corrupted = 0

/-- The words of a digest, from the blocks behind the whole ones. -/
theorem sha1Words_eq (message : List UInt8) :
    sha1Words message =
      (groups 64 (rest 64 message ++ SHA1.padding message.length)).foldl SHA1.compress
        (absorbedWords message) := by
  have hsplit : message ++ SHA1.padding message.length =
      whole 64 message ++ (rest 64 message ++ SHA1.padding message.length) := by
    rw [← List.append_assoc, whole_append_rest]
  rw [sha1Words, hsplit, groups_append_of_dvd (by decide) (dvd_length_whole 64 message),
    List.foldl_append]
  rfl

/-- The padding, if the length still fits into the block. -/
theorem sha1Words_of_le {message : List UInt8} (h : (rest 64 message).length ≤ 55) :
    sha1Words message = SHA1.compress (absorbedWords message)
      (rest 64 message ++ [0x80] ++ List.replicate (55 - (rest 64 message).length) 0 ++
        bytesBE 8 (8 * message.length)) := by
  have hrest := length_rest 64 message
  have hzeros : (119 - message.length % 64) % 64 = 55 - (rest 64 message).length := by omega
  have hlast : rest 64 message ++ SHA1.padding message.length =
      rest 64 message ++ [0x80] ++ List.replicate (55 - (rest 64 message).length) 0 ++
        bytesBE 8 (8 * message.length) := by
    rw [SHA1.padding, hzeros, List.append_assoc, List.append_assoc]
    rfl
  rw [sha1Words_eq, hlast, groups_short]
  · rfl
  · intro hnil
    have hlen := congrArg List.length hnil
    simp at hlen
  · simp only [List.length_append, List.length_singleton, List.length_replicate, length_bytesBE]
    omega

/-- The padding, if it needs one more block. -/
theorem sha1Words_of_gt {message : List UInt8} (h : 55 < (rest 64 message).length) :
    sha1Words message = SHA1.compress (SHA1.compress (absorbedWords message)
      (rest 64 message ++ [0x80] ++ List.replicate (63 - (rest 64 message).length) 0))
      (List.replicate 56 0 ++ bytesBE 8 (8 * message.length)) := by
  have hrest := length_rest 64 message
  have hlt : message.length % 64 < 64 := Nat.mod_lt _ (by decide)
  have hzeros : (119 - message.length % 64) % 64 = 63 - (rest 64 message).length + 56 := by omega
  have htwo : rest 64 message ++ SHA1.padding message.length =
      (rest 64 message ++ [0x80] ++ List.replicate (63 - (rest 64 message).length) 0) ++
        (List.replicate 56 0 ++ bytesBE 8 (8 * message.length)) := by
    rw [SHA1.padding, hzeros, List.replicate_add]
    simp only [List.append_assoc, List.cons_append, List.nil_append]
  rw [sha1Words_eq, htwo, groups_append (by decide), groups_short]
  · rfl
  · intro hnil
    have hlen := congrArg List.length hnil
    simp at hlen
  · simp only [List.length_append, List.length_replicate, length_bytesBE]
    omega
  · simp only [List.length_append, List.length_singleton, List.length_replicate]
    omega

/-- **The padding.**  What `SHA1PadMessage` leaves in the words is the digest. -/
theorem SHA1PadMessage_eq {context : SHA1Context} {message : List UInt8}
    (h : Absorbs context message) :
    ∃ context', SHA1PadMessage context = some context' ∧
      context'.Intermediate_Hash = sha1Words message ∧ context'.Corrupted = 0 := by
  have hrest := length_rest 64 message
  have hlt : message.length % 64 < 64 := Nat.mod_lt _ (by decide)
  have hindex := h.holds.index
  obtain ⟨context₁, hstore, hholds₁, hsame₁⟩ := store_holds h.holds (by omega) 0x80
  have hlen₁ : (rest 64 message ++ [0x80]).length = (rest 64 message).length + 1 := by
    rw [List.length_append, List.length_singleton]
  by_cases hfits : (rest 64 message).length ≤ 55
  · -- One block.
    obtain ⟨context₂, hzeros, hholds₂, hsame₂⟩ := zerosTo_holds hholds₁ 56 (by omega)
      (by decide)
    have hsame := hsame₁.trans hsame₂
    have hbits : 2 ^ 32 * context₂.Length_High.toNat + context₂.Length_Low.toNat =
        8 * message.length := by
      rw [hsame.high, hsame.low, h.bits]
    have hcount : 56 - (rest 64 message ++ [0x80]).length = 55 - (rest 64 message).length := by
      omega
    rw [hcount] at hholds₂
    refine ⟨SHA1ProcessMessageBlock context₂.storeLength, ?_, ?_, ?_⟩
    · unfold SHA1PadMessage
      rw [if_neg (by omega), hstore, Option.bind_eq_bind, Option.bind_some, hzeros,
        Option.bind_some]
      rfl
    · rw [lastBlock_holds hholds₂ ?_ hbits, sha1Words_of_le hfits]
      rw [List.length_append, hlen₁, List.length_replicate]
      omega
    · rw [(process_sameCounts _).corrupted]
      exact hsame.corrupted.trans h.corrupted
  · -- The length goes into a block of its own.
    obtain ⟨context₂, hzeros₂, hholds₂, hsame₂⟩ := zerosTo_holds hholds₁ 64 (by omega)
      (by decide)
    have hcount : 64 - (rest 64 message ++ [0x80]).length = 63 - (rest 64 message).length := by
      omega
    rw [hcount] at hholds₂
    obtain ⟨hholds₃, hsame₃⟩ := process_holds hholds₂ (by
      rw [List.length_append, hlen₁, List.length_replicate]
      omega)
    obtain ⟨context₄, hzeros₄, hholds₄, hsame₄⟩ := zerosTo_holds hholds₃ 56
      (Nat.zero_le _) (by decide)
    have hsame := ((hsame₁.trans hsame₂).trans hsame₃).trans hsame₄
    have hbits : 2 ^ 32 * context₄.Length_High.toNat + context₄.Length_Low.toNat =
        8 * message.length := by
      rw [hsame.high, hsame.low, h.bits]
    refine ⟨SHA1ProcessMessageBlock context₄.storeLength, ?_, ?_, ?_⟩
    · unfold SHA1PadMessage
      rw [if_pos (by omega), hstore, Option.bind_eq_bind, Option.bind_some, hzeros₂,
        Option.bind_some, hzeros₄, Option.bind_some]
      rfl
    · rw [lastBlock_holds hholds₄ (by simp) hbits, sha1Words_of_gt (by omega), List.nil_append,
        List.length_nil, Nat.sub_zero]
    · rw [(process_sameCounts _).corrupted]
      exact hsame.corrupted.trans h.corrupted

end NoGround
