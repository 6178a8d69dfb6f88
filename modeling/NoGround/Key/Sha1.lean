/-
  Key/Sha1.lean --- server/sha1.c, and the digest it is to compute.

  THE CODE.  A context collects a block of 64 bytes; a full block is worked into the five words
  of `Intermediate_Hash`.  An access behind the block, or behind the array a caller hands in, is
  `none`.  A null pointer is the absent value of an argument; the context itself is never null
  here.

  THE STANDARD.  `sha1` is the digest as the standard defines it: the message padded to whole
  blocks, and the compression of one block after the other.  It has no buffer, no counter of bits
  and no order of calls; those are the business of the code.
-/
import NoGround.Lib.Block
import NoGround.Lib.Groups

set_option autoImplicit false

namespace NoGround

open NoGround.Lib

/-! ## sha1.h -/

def shaSuccess : Int := 0
def shaNull : Int := 1
def shaStateError : Int := 3

def SHA1HashSize : Nat := 20

/-- Five words, in the order of `Intermediate_Hash`. -/
structure Words where
  A : BitVec 32
  B : BitVec 32
  C : BitVec 32
  D : BitVec 32
  E : BitVec 32
  deriving DecidableEq

namespace Words

def toList (w : Words) : List (BitVec 32) := [w.A, w.B, w.C, w.D, w.E]

/-- Word by word. -/
def add (v w : Words) : Words := ⟨v.A + w.A, v.B + w.B, v.C + w.C, v.D + w.D, v.E + w.E⟩

end Words

/-- `SHA1Context`. -/
structure SHA1Context where
  Intermediate_Hash : Words
  Length_Low : BitVec 32
  Length_High : BitVec 32
  Message_Block_Index : Nat
  Message_Block : Vector UInt8 64
  Computed : Bool
  Corrupted : Int

/-! ## SHA1Reset (sha1.c:58-80) -/

/-- The words a digest starts from. -/
def initialHash : Words where
  A := 0x67452301#32
  B := 0xEFCDAB89#32
  C := 0x98BADCFE#32
  D := 0x10325476#32
  E := 0xC3D2E1F0#32

/-- `SHA1Reset`.  The block keeps what was in it. -/
def SHA1Reset (context : SHA1Context) : Int × SHA1Context :=
  (shaSuccess, { context with
    Length_Low := 0#32
    Length_High := 0#32
    Message_Block_Index := 0
    Intermediate_Hash := initialHash
    Computed := false
    Corrupted := 0 })

/-! ## SHA1ProcessMessageBlock (sha1.c:237-318) -/

/-- `SHA1CircularShift`. -/
def SHA1CircularShift (bits : Nat) (word : BitVec 32) : BitVec 32 :=
  word <<< bits ||| word >>> (32 - bits)

namespace SHA1

/-- `K`. -/
def K : List (BitVec 32) := [0x5A827999#32, 0x6ED9EBA1#32, 0x8F1BBCDC#32, 0xCA62C1D6#32]

/-- Word `t` of the block. -/
def messageWord (block : List UInt8) (t : Nat) : BitVec 32 :=
  (block.getD (t * 4) 0).toBitVec.setWidth 32 <<< 24 |||
    (block.getD (t * 4 + 1) 0).toBitVec.setWidth 32 <<< 16 |||
    (block.getD (t * 4 + 2) 0).toBitVec.setWidth 32 <<< 8 |||
    (block.getD (t * 4 + 3) 0).toBitVec.setWidth 32

/-- The first two loops: `W` grows by one word a round. -/
def wordSequence (block : List UInt8) : List (BitVec 32) :=
  let W := (List.range 16).foldl (fun W t => W ++ [messageWord block t]) []
  (List.range' 16 64).foldl (fun W t =>
    W ++ [SHA1CircularShift 1 (W.getD (t - 3) 0#32 ^^^ W.getD (t - 8) 0#32 ^^^
      W.getD (t - 14) 0#32 ^^^ W.getD (t - 16) 0#32)]) W

/-- One round of the loops over the word buffers, which differ in `f` and in the constant. -/
def round (W : List (BitVec 32)) (f : BitVec 32 → BitVec 32 → BitVec 32 → BitVec 32)
    (k : BitVec 32) (w : Words) (t : Nat) : Words :=
  let temp := SHA1CircularShift 5 w.A + f w.B w.C w.D + w.E + W.getD t 0#32 + k
  { E := w.D, D := w.C, C := SHA1CircularShift 30 w.B, B := w.A, A := temp }

/-- The four loops. -/
def rounds (W : List (BitVec 32)) (w : Words) : Words :=
  let w := (List.range' 0 20).foldl
    (round W (fun B C D => B &&& C ||| ~~~B &&& D) (K.getD 0 0#32)) w
  let w := (List.range' 20 20).foldl (round W (fun B C D => B ^^^ C ^^^ D) (K.getD 1 0#32)) w
  let w := (List.range' 40 20).foldl
    (round W (fun B C D => B &&& C ||| B &&& D ||| C &&& D) (K.getD 2 0#32)) w
  (List.range' 60 20).foldl (round W (fun B C D => B ^^^ C ^^^ D) (K.getD 3 0#32)) w

end SHA1

/-- `SHA1ProcessMessageBlock`. -/
def SHA1ProcessMessageBlock (context : SHA1Context) : SHA1Context :=
  let W := SHA1.wordSequence context.Message_Block.toList
  { context with
    Intermediate_Hash := context.Intermediate_Hash.add (SHA1.rounds W context.Intermediate_Hash)
    Message_Block_Index := 0 }

/-! ## SHA1Input (sha1.c:170-217) -/

/-- `context->Message_Block[context->Message_Block_Index++] = b`. -/
def SHA1Context.store (context : SHA1Context) (b : UInt8) : Option SHA1Context :=
  if h : context.Message_Block_Index < 64 then
    some { context with
      Message_Block := context.Message_Block.set context.Message_Block_Index b h
      Message_Block_Index := context.Message_Block_Index + 1 }
  else none

/-- Count eight bits. -/
def SHA1Context.count (context : SHA1Context) : SHA1Context :=
  let low := context.Length_Low + 8#32
  if low = 0#32 then
    let high := context.Length_High + 1#32
    { context with
      Length_Low := low
      Length_High := high
      -- the message is too long
      Corrupted := if high = 0#32 then 1 else context.Corrupted }
  else { context with Length_Low := low }

/-- The loop. -/
def inputLoop : Nat → List UInt8 → SHA1Context → Option SHA1Context
  | 0, _, context => some context
  | length + 1, message_array, context =>
      if context.Corrupted ≠ 0 then some context
      else
        match message_array with
        | [] => none
        | b :: message_array => do
          let context ← context.store b
          let context := context.count
          inputLoop length message_array
            (if context.Message_Block_Index = 64 then SHA1ProcessMessageBlock context else context)

/-- `SHA1Input`. -/
def SHA1Input (context : SHA1Context) (message_array : Option (List UInt8)) (length : Nat) :
    Option (Int × SHA1Context) :=
  if length = 0 then some (shaSuccess, context)
  else
    match message_array with
    | none => some (shaNull, context)
    | some message_array =>
        if context.Computed then some (shaStateError, { context with Corrupted := shaStateError })
        else if context.Corrupted ≠ 0 then some (context.Corrupted, context)
        else (inputLoop length message_array context).map fun context => (shaSuccess, context)

/-! ## SHA1PadMessage (sha1.c:342-391) -/

/-- Write some zeros. -/
def SHA1Context.zeros : Nat → SHA1Context → Option SHA1Context
  | 0, context => some context
  | n + 1, context => do
    let context ← context.store 0
    context.zeros n

/-- `while (context->Message_Block_Index < limit)`: each round moves the index on. -/
def SHA1Context.zerosTo (context : SHA1Context) (limit : Nat) : Option SHA1Context :=
  context.zeros (limit - context.Message_Block_Index)

/-- The last eight bytes of the block. -/
def SHA1Context.storeLength (context : SHA1Context) : SHA1Context :=
  let byte (word : BitVec 32) (n : Nat) : UInt8 := UInt8.ofBitVec ((word >>> n).setWidth 8)
  { context with
    Message_Block :=
      ((((((((context.Message_Block.set 56 (byte context.Length_High 24)).set 57
        (byte context.Length_High 16)).set 58 (byte context.Length_High 8)).set 59
        (byte context.Length_High 0)).set 60 (byte context.Length_Low 24)).set 61
        (byte context.Length_Low 16)).set 62 (byte context.Length_Low 8)).set 63
        (byte context.Length_Low 0)) }

/-- `SHA1PadMessage`. -/
def SHA1PadMessage (context : SHA1Context) : Option SHA1Context := do
  let context ←
    if context.Message_Block_Index > 55 then do
      let context ← context.store 0x80
      let context ← context.zerosTo 64
      (SHA1ProcessMessageBlock context).zerosTo 56
    else do
      let context ← context.store 0x80
      context.zerosTo 56
  return SHA1ProcessMessageBlock context.storeLength

/-! ## SHA1Result (sha1.c:103-137) -/

/-- The loop over `Message_Digest`. -/
def digestBytes (hash : Words) : List UInt8 :=
  (List.range SHA1HashSize).map fun i =>
    UInt8.ofBitVec ((hash.toList.getD (i / 4) 0#32 >>> (8 * (3 - i % 4))).setWidth 8)

/-- `SHA1Result`: the code, the context, and what is in `Message_Digest`.  Its first 20 bytes are
written, and an array that has fewer is overrun. -/
def SHA1Result (context : SHA1Context) (Message_Digest : Option (List UInt8)) :
    Option (Int × SHA1Context × Option (List UInt8)) :=
  match Message_Digest with
  | none => some (shaNull, context, none)
  | some digest =>
      if context.Corrupted ≠ 0 then some (context.Corrupted, context, some digest)
      else do
        let context ←
          if context.Computed then some context
          else do
            let context ← SHA1PadMessage context
            -- message may be sensitive, clear it out
            some ({ context with
              Message_Block := Vector.replicate 64 0
              Length_Low := 0#32
              Length_High := 0#32
              Computed := true } : SHA1Context)
        if digest.length < SHA1HashSize then none
        else
          return (shaSuccess, context,
            some (digestBytes context.Intermediate_Hash ++ digest.drop SHA1HashSize))

/-- The digest of "abc". -/
example : (do
    let context : SHA1Context := ⟨initialHash, 0#32, 0#32, 0, Vector.replicate 64 0, false, 0⟩
    let (_, context) ← SHA1Input context (some [97, 98, 99]) 3
    let (_, _, digest) ← SHA1Result context (some (List.replicate SHA1HashSize 0))
    digest) = some [0xa9, 0x99, 0x3e, 0x36, 0x47, 0x06, 0x81, 0x6a, 0xba, 0x3e, 0x25, 0x71, 0x78,
      0x50, 0xc2, 0x6c, 0x9c, 0xd0, 0xd8, 0x9d] := by
  decide +kernel

/-! ## The standard -/

namespace SHA1

/-- A word has its most significant byte first. -/
def wordBE (bytes : List UInt8) : BitVec 32 := BitVec.ofNat 32 (natBE bytes)

/-- The message schedule of a block. -/
def schedule (block : List UInt8) (t : Nat) : BitVec 32 :=
  if t < 16 then wordBE ((block.drop (4 * t)).take 4)
  else
    (schedule block (t - 3) ^^^ schedule block (t - 8) ^^^ schedule block (t - 14) ^^^
      schedule block (t - 16)).rotateLeft 1

/-- The function of round `t`. -/
def roundFunction (t : Nat) (x y z : BitVec 32) : BitVec 32 :=
  if t < 20 then (x &&& y) ^^^ (~~~x &&& z)
  else if t < 40 then x ^^^ y ^^^ z
  else if t < 60 then (x &&& y) ^^^ (x &&& z) ^^^ (y &&& z)
  else x ^^^ y ^^^ z

/-- The constant of round `t`. -/
def roundConstant (t : Nat) : BitVec 32 :=
  if t < 20 then 0x5A827999#32
  else if t < 40 then 0x6ED9EBA1#32
  else if t < 60 then 0x8F1BBCDC#32
  else 0xCA62C1D6#32

/-- Round `t`. -/
def standardRound (block : List UInt8) (w : Words) (t : Nat) : Words where
  A := w.A.rotateLeft 5 + roundFunction t w.B w.C w.D + w.E + roundConstant t + schedule block t
  B := w.A
  C := w.B.rotateLeft 30
  D := w.C
  E := w.D

/-- The compression of one block. -/
def compress (hash : Words) (block : List UInt8) : Words :=
  hash.add ((List.range 80).foldl (standardRound block) hash)

/-- The padding behind a message of `len` bytes. -/
def padding (len : Nat) : List UInt8 :=
  0x80 :: List.replicate ((119 - len % 64) % 64) 0 ++ bytesBE 8 (8 * len)

end SHA1

/-- The words of the digest. -/
def sha1Words (message : List UInt8) : Words :=
  (groups 64 (message ++ SHA1.padding message.length)).foldl SHA1.compress initialHash

/-- **The digest of a message.** -/
def sha1 (message : List UInt8) : List UInt8 :=
  (sha1Words message).toList.flatMap fun word => bytesBE 4 word.toNat

end NoGround
