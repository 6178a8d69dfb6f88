/-
  Key/Sha1Calls.lean --- a context under any sequence of calls.

  WHAT A CONTEXT IS.  Between two calls a context is reading a message, or it has computed a
  digest, or it is corrupted.  `HashCall.Answers` says what each call is to answer in each of the
  three cases.  It speaks of messages and digests only; that the code keeps to it is
  `code_implements`.

  TWO CASES ARE NOT WHAT ONE EXPECTS.  A call that makes the message too long answers
  `shaSuccess`: only the next call learns of it, and what it is told is `shaNull`, because the
  code writes the number 1.  And a call with nothing to read is a success in any case.
-/
import NoGround.Key.Sha1Digest
import NoGround.Lib.Calls

set_option autoImplicit false

namespace NoGround

open NoGround.Lib

/-! ## What a context is for -/

/-- What a context is between two calls. -/
inductive Hashing where
  | reading (message : List UInt8)
  | computed (message : List UInt8)
  | corrupted (code : Int)

/-- The calls of sha1.h. -/
inductive HashCall where
  | reset
  | input (message_array : Option (List UInt8)) (length : Nat)
  | result (Message_Digest : Option (List UInt8))

/-- An array has the length it is passed with, and there is room for a digest. -/
def HashCall.Valid : HashCall → Prop
  | .input (some message_array) length => length ≤ message_array.length
  | .result (some digest) => SHA1HashSize ≤ digest.length
  | _ => True

/-- What is returned, and what is in `Message_Digest`. -/
structure HashAnswer where
  code : Int
  digest : Option (List UInt8)

/-- What some bytes do. -/
def Hashing.input (bytes : List UInt8) : Hashing → HashAnswer × Hashing
  | .reading message =>
      (⟨shaSuccess, none⟩,
        if message.length + bytes.length < 2 ^ 61 then .reading (message ++ bytes)
        else .corrupted 1)
  | .computed _ => (⟨shaStateError, none⟩, .corrupted shaStateError)
  | .corrupted code => (⟨code, none⟩, .corrupted code)

/-- What is answered when the digest is asked for; `digest` is what was in the array. -/
def Hashing.result (digest : List UInt8) : Hashing → HashAnswer × Hashing
  | .reading message =>
      (⟨shaSuccess, some (sha1 message ++ digest.drop SHA1HashSize)⟩, .computed message)
  | .computed message =>
      (⟨shaSuccess, some (sha1 message ++ digest.drop SHA1HashSize)⟩, .computed message)
  | .corrupted code => (⟨code, some digest⟩, .corrupted code)

/-- The answer to a call, and what the context is behind it. -/
def HashCall.answer : HashCall → Hashing → HashAnswer × Hashing
  | .reset, _ => (⟨shaSuccess, none⟩, .reading [])
  | .input message_array length, h =>
      if length = 0 then (⟨shaSuccess, none⟩, h)
      else
        match message_array with
        | none => (⟨shaNull, none⟩, h)
        | some bytes => h.input (bytes.take length)
  | .result none, h => (⟨shaNull, none⟩, h)
  | .result (some digest), h => h.result digest

/-- The calls as a specification. -/
def HashCall.Answers (call : HashCall) (h : Hashing) (a : HashAnswer) (h' : Hashing) : Prop :=
  call.answer h = (a, h')

/-- The code of a call. -/
def HashCall.code : HashCall → SHA1Context → Option (HashAnswer × SHA1Context)
  | .reset, context => some (⟨(SHA1Reset context).1, none⟩, (SHA1Reset context).2)
  | .input message_array length, context => do
    let (code, context) ← SHA1Input context message_array length
    return (⟨code, none⟩, context)
  | .result digest, context => do
    let (code, context, digest) ← SHA1Result context digest
    return (⟨code, digest⟩, context)

/-- What a context is, read off its fields. -/
def IsHashing (context : SHA1Context) : Hashing → Prop
  | .reading message => Absorbs context message
  | .computed message => context.Intermediate_Hash = sha1Words message ∧
      context.Computed = true ∧ context.Corrupted = 0
  | .corrupted code => context.Corrupted = code ∧ code ≠ 0 ∧
      (context.Computed = true → code = shaStateError)

/-! ## SHA1Input -/

section Input

variable {context : SHA1Context} {message : List UInt8}

theorem Absorbs.length_lt (h : Absorbs context message) : message.length < 2 ^ 61 := by
  have hhigh : context.Length_High.toNat < 2 ^ 32 := context.Length_High.isLt
  have hlow : context.Length_Low.toNat < 2 ^ 32 := context.Length_Low.isLt
  have hbits := h.bits
  omega

/-- Eight more bits, as long as two words can count them. -/
theorem count_bits {n : Nat}
    (hbits : 2 ^ 32 * context.Length_High.toNat + context.Length_Low.toNat = 8 * n) :
    if n + 1 < 2 ^ 61 then
      2 ^ 32 * context.count.Length_High.toNat + context.count.Length_Low.toNat = 8 * (n + 1) ∧
        context.count.Corrupted = context.Corrupted
    else context.count.Corrupted = 1 := by
  have hhigh : context.Length_High.toNat < 2 ^ 32 := context.Length_High.isLt
  have hlow : context.Length_Low.toNat < 2 ^ 32 := context.Length_Low.isLt
  have hlow' : (context.Length_Low + 8#32).toNat = (context.Length_Low.toNat + 8) % 2 ^ 32 :=
    BitVec.toNat_add _ _
  have hhigh' : (context.Length_High + 1#32).toNat = (context.Length_High.toNat + 1) % 2 ^ 32 :=
    BitVec.toNat_add _ _
  have hzero (w : BitVec 32) : w = 0#32 ↔ w.toNat = 0 := BitVec.toNat_eq
  unfold SHA1Context.count
  by_cases hcarry : context.Length_Low + 8#32 = 0#32
  · have hlowZero := (hzero _).mp hcarry
    rw [hlow'] at hlowZero
    rw [if_pos hcarry]
    by_cases hover : context.Length_High + 1#32 = 0#32
    · have hhighZero := (hzero _).mp hover
      rw [hhigh'] at hhighZero
      have hlong : ¬ n + 1 < 2 ^ 61 := by omega
      rw [if_neg hlong]
      exact if_pos hover
    · have hhighPos : (context.Length_High + 1#32).toNat ≠ 0 := fun h => hover ((hzero _).mpr h)
      rw [hhigh'] at hhighPos
      have hshort : n + 1 < 2 ^ 61 := by omega
      rw [if_pos hshort]
      refine ⟨?_, if_neg hover⟩
      show 2 ^ 32 * (context.Length_High + 1#32).toNat + (context.Length_Low + 8#32).toNat = _
      rw [hhigh', hlow']
      omega
  · have hlowPos : (context.Length_Low + 8#32).toNat ≠ 0 := fun h => hcarry ((hzero _).mpr h)
    rw [hlow'] at hlowPos
    -- The count is a multiple of eight, so a word that wraps around is zero.
    have hshort : n + 1 < 2 ^ 61 := by omega
    rw [if_neg hcarry, if_pos hshort]
    refine ⟨?_, rfl⟩
    show 2 ^ 32 * context.Length_High.toNat + (context.Length_Low + 8#32).toNat = _
    rw [hlow']
    omega

theorem count_frame (context : SHA1Context) :
    context.count.Intermediate_Hash = context.Intermediate_Hash ∧
      context.count.Message_Block_Index = context.Message_Block_Index ∧
      context.count.Message_Block = context.Message_Block ∧
      context.count.Computed = context.Computed := by
  unfold SHA1Context.count
  dsimp only
  split
  · exact ⟨rfl, rfl, rfl, rfl⟩
  · exact ⟨rfl, rfl, rfl, rfl⟩

theorem count_holds {hash : Words} {buffer : List UInt8} (h : Holds context hash buffer) :
    Holds context.count hash buffer := by
  obtain ⟨hhash, hindex, hblock, -⟩ := count_frame context
  refine ⟨hhash.trans h.hash, hindex.trans h.index, ?_⟩
  rw [← h.filled]
  unfold SHA1Context.filled
  rw [hindex, hblock]

/-- The words and the block after one more byte. -/
theorem concat_holds {b : UInt8}
    (h : Holds context (absorbedWords message) (rest 64 message ++ [b])) :
    ∃ context', (if context.Message_Block_Index = 64 then SHA1ProcessMessageBlock context
        else context) = context' ∧
      Holds context' (absorbedWords (message ++ [b])) (rest 64 (message ++ [b])) ∧
      SameCounts context context' := by
  have hrest := length_rest 64 message
  have hlt : message.length % 64 < 64 := Nat.mod_lt _ (by decide)
  have hindex := h.index
  rw [List.length_append, List.length_singleton] at hindex
  by_cases hfull : (rest 64 message).length + 1 = 64
  · obtain ⟨hwhole, hnil⟩ := concat_of_eq (a := b) hfull
    have hlen : (rest 64 message ++ [b]).length = 64 := by
      rw [List.length_append, List.length_singleton, hfull]
    obtain ⟨hholds, hsame⟩ := process_holds h hlen
    refine ⟨SHA1ProcessMessageBlock context, if_pos (hindex.trans hfull), ?_, hsame⟩
    have hwords : absorbedWords (message ++ [b]) =
        SHA1.compress (absorbedWords message) (rest 64 message ++ [b]) := by
      have hne : rest 64 message ++ [b] ≠ [] := by simp
      rw [absorbedWords, hwhole, groups_append_of_dvd (by decide) (dvd_length_whole 64 message),
        groups_short hne (Nat.le_of_eq hlen), List.foldl_append]
      rfl
    rw [hwords, hnil]
    exact hholds
  · obtain ⟨hwhole, hmore⟩ := concat_of_lt (a := b) (n := 64) (l := message) (by omega)
    refine ⟨context, if_neg (by omega), ?_, ⟨rfl, rfl, rfl, rfl⟩⟩
    rw [absorbedWords, hwhole, hmore]
    exact h

/-- **The loop.**  It reads all its bytes, or it stops at the one the length words cannot
count. -/
theorem inputLoop_eq (h : Absorbs context message) {n : Nat} {bytes : List UInt8}
    (hn : n ≤ bytes.length) :
    ∃ context', inputLoop n bytes context = some context' ∧
      IsHashing context' (if message.length + n < 2 ^ 61 then
        .reading (message ++ bytes.take n) else .corrupted 1) := by
  induction n generalizing context message bytes with
  | zero =>
    have hlen := h.length_lt
    refine ⟨context, rfl, ?_⟩
    rw [Nat.add_zero, if_pos hlen, List.take_zero, List.append_nil]
    exact h
  | succ n ih =>
    match bytes with
    | [] => exact absurd hn (Nat.not_succ_le_zero n)
    | b :: bytes =>
      have hrest := length_rest 64 message
      have hlt : message.length % 64 < 64 := Nat.mod_lt _ (by decide)
      obtain ⟨context₁, hstore, hholds₁, hsame₁⟩ := store_holds h.holds (by omega) b
      obtain ⟨context₂, hround, hholds₂, hsame₂⟩ := concat_holds (count_holds hholds₁)
      have hbits₁ : 2 ^ 32 * context₁.Length_High.toNat + context₁.Length_Low.toNat =
          8 * message.length := by
        rw [hsame₁.high, hsame₁.low]
        exact h.bits
      have hbits := count_bits hbits₁
      have hcomputed : context₂.Computed = false := by
        rw [hsame₂.computed, (count_frame context₁).2.2.2, hsame₁.computed, h.computed]
      have hloop : inputLoop (n + 1) (b :: bytes) context = inputLoop n bytes context₂ := by
        rw [inputLoop, if_neg (not_not_intro h.corrupted)]
        show (context.store b).bind _ = _
        rw [hstore, Option.bind_some, ← hround]
      rw [hloop]
      by_cases hshort : message.length + 1 < 2 ^ 61
      · rw [if_pos hshort] at hbits
        have habsorbs : Absorbs context₂ (message ++ [b]) := by
          refine ⟨hholds₂, ?_, hcomputed, ?_⟩
          · rw [hsame₂.high, hsame₂.low, hbits.1, List.length_append, List.length_singleton]
          · rw [hsame₂.corrupted, hbits.2, hsame₁.corrupted, h.corrupted]
        obtain ⟨context', hrun, hpost⟩ := ih habsorbs (Nat.le_of_succ_le_succ hn)
        refine ⟨context', hrun, ?_⟩
        have hlen : (message ++ [b]).length + n = message.length + (n + 1) := by
          rw [List.length_append, List.length_singleton]
          omega
        rw [hlen, List.append_assoc] at hpost
        exact hpost
      · rw [if_neg hshort] at hbits
        have hcorrupted : context₂.Corrupted = 1 := hsame₂.corrupted.trans hbits
        refine ⟨context₂, ?_, ?_⟩
        · -- The loop is left.
          cases n with
          | zero => rfl
          | succ n =>
            unfold inputLoop
            exact if_pos (by rw [hcorrupted]; decide)
        · rw [if_neg (by omega)]
          refine ⟨hcorrupted, by decide, ?_⟩
          rw [hcomputed]
          intro hfalse
          cases hfalse

end Input

/-! ## SHA1Result -/

/-- The bytes of the words, the most significant first. -/
theorem digestBytes_eq (message : List UInt8) : digestBytes (sha1Words message) = sha1 message := by
  have hword (w : BitVec 32) : bytesBE 4 w.toNat =
      [UInt8.ofBitVec ((w >>> 24).setWidth 8), UInt8.ofBitVec ((w >>> 16).setWidth 8),
        UInt8.ofBitVec ((w >>> 8).setWidth 8), UInt8.ofBitVec ((w >>> 0).setWidth 8)] := by
    simp only [lengthByte_eq, bytesBE, List.nil_append, List.cons_append, Nat.div_div_eq_div_mul,
      Nat.reduceMul, Nat.reducePow, Nat.div_one]
  unfold sha1 digestBytes
  rw [Words.toList]
  simp only [List.flatMap_cons, List.flatMap_nil, hword]
  rfl

/-- A result, whatever the context is. -/
theorem result_code {context : SHA1Context} {h : Hashing} (hcontext : IsHashing context h)
    {digest : List UInt8} (hroom : SHA1HashSize ≤ digest.length) :
    ∃ context', (HashCall.result (some digest)).code context =
        some ((h.result digest).1, context') ∧ IsHashing context' (h.result digest).2 := by
  have hlong : ¬ digest.length < SHA1HashSize := Nat.not_lt.mpr hroom
  unfold HashCall.code SHA1Result
  dsimp only
  simp only [if_neg hlong]
  cases h with
  | reading message =>
    obtain ⟨padded, hpad, hwords, hcorrupted⟩ := SHA1PadMessage_eq hcontext
    have hdigest : digestBytes padded.Intermediate_Hash = sha1 message := by
      rw [hwords, digestBytes_eq]
    have hcomputed : ¬ context.Computed = true := by
      rw [hcontext.computed]
      decide
    rw [if_neg (not_not_intro hcontext.corrupted), if_neg hcomputed, hpad]
    refine ⟨{ padded with
        Message_Block := Vector.replicate 64 0
        Length_Low := 0#32
        Length_High := 0#32
        Computed := true }, ?_, hwords, rfl, hcorrupted⟩
    show some (HashAnswer.mk shaSuccess
      (some (digestBytes padded.Intermediate_Hash ++ digest.drop SHA1HashSize)), _) = _
    rw [hdigest]
    rfl
  | computed message =>
    obtain ⟨hwords, hcomputed, hcorrupted⟩ := hcontext
    have hdigest : digestBytes context.Intermediate_Hash = sha1 message := by
      rw [hwords, digestBytes_eq]
    rw [if_neg (not_not_intro hcorrupted), if_pos hcomputed]
    refine ⟨context, ?_, hwords, hcomputed, hcorrupted⟩
    show some (HashAnswer.mk shaSuccess
      (some (digestBytes context.Intermediate_Hash ++ digest.drop SHA1HashSize)), _) = _
    rw [hdigest]
    rfl
  | corrupted code =>
    obtain ⟨rfl, hne, hcomputed⟩ := hcontext
    rw [if_pos hne]
    exact ⟨context, rfl, rfl, hne, hcomputed⟩

/-- An input that is not empty, whatever the context is. -/
theorem input_code {context : SHA1Context} {h : Hashing} (hcontext : IsHashing context h)
    {bytes : List UInt8} {length : Nat} (hne : length ≠ 0) (hlen : length ≤ bytes.length) :
    ∃ context', (HashCall.input (some bytes) length).code context =
        some ((h.input (bytes.take length)).1, context') ∧
      IsHashing context' (h.input (bytes.take length)).2 := by
  unfold HashCall.code SHA1Input
  dsimp only
  rw [if_neg hne]
  cases h with
  | reading message =>
    have hcomputed : ¬ context.Computed = true := by
      rw [hcontext.computed]
      decide
    obtain ⟨context', hrun, hpost⟩ := inputLoop_eq hcontext hlen
    rw [if_neg hcomputed, if_neg (not_not_intro hcontext.corrupted), hrun]
    refine ⟨context', rfl, ?_⟩
    unfold Hashing.input
    rw [List.length_take, Nat.min_eq_left hlen]
    exact hpost
  | computed message =>
    obtain ⟨-, hcomputed, -⟩ := hcontext
    rw [if_pos hcomputed]
    exact ⟨_, rfl, rfl, by decide, fun _ => rfl⟩
  | corrupted code =>
    obtain ⟨rfl, hcorrupted, hcode⟩ := hcontext
    by_cases hcomputed : context.Computed = true
    · -- The code is written again; it was this one before.
      have hstate := hcode hcomputed
      rw [if_pos hcomputed]
      refine ⟨{ context with Corrupted := shaStateError }, ?_, hstate.symm, hcorrupted, hcode⟩
      show some (HashAnswer.mk shaStateError none, _) = _
      rw [← hstate]
      rfl
    · rw [if_neg hcomputed, if_pos hcorrupted]
      exact ⟨context, rfl, rfl, hcorrupted, hcode⟩

theorem reset_isHashing (context : SHA1Context) :
    IsHashing (SHA1Reset context).2 (.reading []) := by
  have hwords : absorbedWords [] = initialHash := by
    rw [absorbedWords, whole, List.take_nil, groups_nil]
    rfl
  exact ⟨⟨hwords.symm, rfl, List.take_zero⟩, rfl, rfl, rfl⟩

/-- **A call is answered as it is to be.** -/
theorem code_implements :
    Implements HashCall.code HashCall.Answers (fun call _ => call.Valid) IsHashing := by
  intro call context h hcontext hvalid
  cases call with
  | reset =>
    exact ⟨_, _, .reading [], rfl, rfl, reset_isHashing context⟩
  | input message_array length =>
    unfold HashCall.Answers HashCall.answer
    by_cases hzero : length = 0
    · subst hzero
      exact ⟨_, context, h, rfl, rfl, hcontext⟩
    · cases message_array with
      | none =>
        refine ⟨⟨shaNull, none⟩, context, h, ?_, if_neg hzero, hcontext⟩
        unfold HashCall.code SHA1Input
        dsimp only
        rw [if_neg hzero]
        rfl
      | some bytes =>
        obtain ⟨context', hrun, hpost⟩ := input_code hcontext hzero hvalid
        exact ⟨_, context', _, hrun, if_neg hzero, hpost⟩
  | result digest =>
    cases digest with
    | none => exact ⟨_, context, h, rfl, rfl, hcontext⟩
    | some digest =>
      obtain ⟨context', hrun, hpost⟩ := result_code hcontext hvalid
      exact ⟨_, context', _, hrun, rfl, hpost⟩

/-! ## Runs -/

/-- The answers to a sequence of calls. -/
def hashAnswers : List HashCall → Hashing → List HashAnswer
  | [], _ => []
  | call :: calls, h => (call.answer h).1 :: hashAnswers calls (call.answer h).2

theorem allowed_hashAnswers {h h' : Hashing} {calls : List HashCall} {as : List HashAnswer}
    (hallowed : Allowed HashCall.Answers h calls as h') : as = hashAnswers calls h := by
  induction hallowed with
  | nil => rfl
  | cons first _ ih =>
    have hfirst : HashCall.answer _ _ = _ := first
    rw [hashAnswers, hfirst, ih]

/-- **Any sequence of calls.**  A context that was reset, whatever it held before, stays inside
its block and inside the arrays it is handed, and answers every sequence of calls as a context
is to. -/
theorem sha1_calls (context : SHA1Context) {calls : List HashCall}
    (hvalid : ∀ call ∈ calls, call.Valid) :
    ∃ context', answers HashCall.code calls (SHA1Reset context).2 =
      some (hashAnswers calls (.reading []), context') := by
  obtain ⟨as, context', h', hrun, hallowed, -⟩ :=
    code_implements.runs (reset_isHashing context) (Promised.of_forall hvalid (Hashing.reading []))
  rw [allowed_hashAnswers hallowed] at hrun
  exact ⟨context', hrun⟩

/-- A digest, a byte after it, and another digest, into an array with a byte to spare. -/
theorem sha1_calls_late :
    ∃ context', answers HashCall.code
      [.input (some [97, 98, 99]) 3, .result (some (List.replicate 20 0)),
        .input (some [0]) 1, .result (some (List.replicate 21 9))]
      (SHA1Reset ⟨initialHash, 0#32, 0#32, 0, Vector.replicate 64 7, true, 9⟩).2 =
        some (hashAnswers [.input (some [97, 98, 99]) 3, .result (some (List.replicate 20 0)),
          .input (some [0]) 1, .result (some (List.replicate 21 9))] (.reading []), context') :=
  sha1_calls _ (by
    simp only [List.mem_cons, List.not_mem_nil, or_false]
    rintro call (rfl | rfl | rfl | rfl)
    · exact Nat.le_refl 3
    · exact Nat.le_refl 20
    · exact Nat.le_refl 1
    · exact Nat.le_succ 20)

end NoGround
