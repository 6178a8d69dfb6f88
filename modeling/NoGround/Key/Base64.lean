/-
  Key/Base64.lean --- server/base64.c: the encoder and the decoder, on the blocks they allocate.

  OUTPUT.  Both functions write through `pos` into a block whose size they compute first.  A
  write behind the block is `none`; that there is none is a theorem, for every input.  What
  `malloc` answers is a parameter: null, or what the new block holds.

  THE CODE.  Three bytes are one number, and so are four characters; `quad` and `triple` are
  the two readings of that number.  `=` stands where the number has no byte.  The encoder ends
  a line after 72 characters.  The decoder passes over everything that is not in its table, so
  line breaks need no case of their own.
-/
import NoGround.Ws.Handshake
import NoGround.Lib.Cursor
import NoGround.Lib.Groups

set_option autoImplicit false

namespace NoGround

open NoGround.Lib

/-- `malloc(n)`: null, or what the block holds. -/
abbrev Malloc : Type := Nat → Option (Nat → UInt8)

/-- `base64_table`, without its terminator. -/
def base64_table : List UInt8 :=
  ascii "ABCDEFGHIJKLMNOPQRSTUVWXYZabcdefghijklmnopqrstuvwxyz0123456789+/"

/-- `base64_table[i]`. -/
def base64Char (i : UInt8) : UInt8 := base64_table.getD i.toNat 0

/-! ## base64_encode (base64.c:30-86) -/

/-- The loop over blocks of three bytes: what is left of the input, and `line_len`. -/
def encodeBlocks : List UInt8 → Nat → Cursor → Option (List UInt8 × Nat × Cursor)
  | b₀ :: b₁ :: b₂ :: src, line_len, pos => do
    let pos ← pos.put (base64Char (b₀ >>> 2))
    let pos ← pos.put (base64Char ((b₀ &&& 0x03) <<< 4 ||| b₁ >>> 4))
    let pos ← pos.put (base64Char ((b₁ &&& 0x0f) <<< 2 ||| b₂ >>> 6))
    let pos ← pos.put (base64Char (b₂ &&& 0x3f))
    if line_len + 4 ≥ 72 then do
      let pos ← pos.put 10
      encodeBlocks src 0 pos
    else encodeBlocks src (line_len + 4) pos
  | src, line_len, pos => some (src, line_len, pos)

/-- The one or two bytes behind the loop. -/
def encodeRest : List UInt8 → Nat → Cursor → Option (Nat × Cursor)
  | [], line_len, pos => some (line_len, pos)
  | [b₀], line_len, pos => do
    let pos ← pos.put (base64Char (b₀ >>> 2))
    let pos ← pos.put (base64Char ((b₀ &&& 0x03) <<< 4))
    let pos ← pos.put 61
    let pos ← pos.put 61
    return (line_len + 4, pos)
  | b₀ :: b₁ :: _, line_len, pos => do
    let pos ← pos.put (base64Char (b₀ >>> 2))
    let pos ← pos.put (base64Char ((b₀ &&& 0x03) <<< 4 ||| b₁ >>> 4))
    let pos ← pos.put (base64Char ((b₁ &&& 0x0f) <<< 2))
    let pos ← pos.put 61
    return (line_len + 4, pos)

/-- `olen`. -/
def encodedSize (len : Nat) : Nat :=
  let olen := toSize (toSize (len * 4) / 3 + 4)
  let olen := toSize (olen + olen / 72)
  toSize (olen + 1)

/-- `base64_encode`: the block and `*out_len`, or null. -/
def base64_encode (malloc : Malloc) (src : List UInt8) : Option (Option (Block × Nat)) :=
  let olen := encodedSize src.length
  if olen < src.length then some none
  else
    match malloc olen with
    | none => some none
    | some heap => do
      let (inp, line_len, pos) ← encodeBlocks src 0 ⟨⟨olen, heap⟩, 0⟩
      let (line_len, pos) ← encodeRest inp line_len pos
      let pos ← if line_len ≠ 0 then pos.put 10 else some pos
      -- the terminator is not counted
      let last ← pos.put 0
      return some (last.out, pos.pos)

/-! ## base64_decode (base64.c:100-153) -/

/-- `dtable`. -/
def dtable : UInt8 → UInt8 :=
  let memset : UInt8 → UInt8 := fun _ => 0x80
  let table := (List.range 64).foldl
    (fun t i => Function.update t (base64_table.getD i 0) (UInt8.ofNat i)) memset
  Function.update table 61 0

/-- The first loop. -/
def countChars (src : List UInt8) : Nat :=
  src.foldl (fun count b => if dtable b ≠ 0x80 then count + 1 else count) 0

/-- The second loop.  `block` holds what was read of four characters; the result is null if
there is too much padding in them. -/
def decodeLoop : List UInt8 → List UInt8 → Nat → Cursor → Option (Option Cursor)
  | [], _, _, pos => some (some pos)
  | b :: src, block, pad, pos =>
    let tmp := dtable b
    if tmp = 0x80 then decodeLoop src block pad pos
    else
      let pad := if b = 61 then pad + 1 else pad
      match block ++ [tmp] with
      | [b₀, b₁, b₂, b₃] => do
        let pos ← pos.put (b₀ <<< 2 ||| b₁ >>> 4)
        let pos ← pos.put (b₁ <<< 4 ||| b₂ >>> 2)
        let pos ← pos.put (b₂ <<< 6 ||| b₃)
        if pad = 0 then decodeLoop src [] pad pos
        else if pad = 1 then return some { pos with pos := pos.pos - 1 }
        else if pad = 2 then return some { pos with pos := pos.pos - 2 }
        else return none
      | block => decodeLoop src block pad pos

/-- `base64_decode`: the block and `*out_len`, or null. -/
def base64_decode (malloc : Malloc) (src : List UInt8) : Option (Option (Block × Nat)) :=
  let count := countChars src
  if count = 0 ∨ count % 4 ≠ 0 then some none
  else
    let olen := count / 4 * 3
    match malloc olen with
    | none => some none
    | some heap => do
      let pos ← decodeLoop src [] 0 ⟨⟨olen, heap⟩, 0⟩
      return pos.map fun pos => (pos.out, pos.pos)

/-! ## The code -/

/-- The number of three bytes, of which those that are missing are zero. -/
def tripleValue (g : List UInt8) : Nat := natBE (g ++ List.replicate (3 - g.length) 0)

/-- The digits of a number below `2 ^ 24`, six bits each. -/
def sextets (n : Nat) : List Nat := [n / 2 ^ 18, n / 2 ^ 12 % 64, n / 2 ^ 6 % 64, n % 64]

/-- The four characters of one to three bytes. -/
def quad (g : List UInt8) : List UInt8 :=
  ((sextets (tripleValue g)).take (g.length + 1)).map (fun i => base64_table.getD i 0) ++
    List.replicate (3 - g.length) 61

/-- The characters of a list of bytes. -/
def base64Chars (src : List UInt8) : List UInt8 := (groups 3 src).flatMap quad

/-- The text: lines of 72 characters. -/
def base64Text (src : List UInt8) : List UInt8 :=
  (groups 72 (base64Chars src)).flatMap fun line => line ++ [10]

/-- A character of the table, or `=`. -/
def isBase64Char (b : UInt8) : Bool := dtable b ≠ 0x80

/-- The number of four characters. -/
def quadValue (q : List UInt8) : Nat := q.foldl (fun n b => 64 * n + (dtable b).toNat) 0

/-- The bytes of four characters, two of which at most are `=`. -/
def triple (q : List UInt8) : Option (List UInt8) :=
  if q.count 61 ≤ 2 then some ((bytesBE 3 (quadValue q)).take (3 - q.count 61)) else none

/-- The bytes of some groups of four characters: a group with `=` in it is the last one
looked at. -/
def quadsBytes : List (List UInt8) → Option (List UInt8)
  | [] => some []
  | q :: qs => do
    let bytes ← triple q
    if q.count 61 = 0 then return bytes ++ (← quadsBytes qs)
    else return bytes

/-- What a text stands for. -/
def base64Bytes (text : List UInt8) : Option (List UInt8) :=
  let chars := text.filter isBase64Char
  if chars = [] ∨ chars.length % 4 ≠ 0 then none else quadsBytes (groups 4 chars)

example : base64Text (ascii "Hello") = ascii "SGVsbG8=\n" := by decide +kernel

/-! ## Bits and digits -/

/-- A byte shifted in front of one that fits below. -/
theorem toNat_shiftLeft_or {x y : UInt8} {i : Nat} (hi : i < 8) (hy : y.toNat < 2 ^ i) :
    (x <<< UInt8.ofNat i ||| y).toNat = 2 ^ i * (x.toNat % 2 ^ (8 - i)) + y.toNat := by
  have hshift : (UInt8.ofNat i).toNat % 8 = i := by
    rw [UInt8.toNat_ofNat']
    omega
  have hpow : 2 ^ 8 = 2 ^ i * 2 ^ (8 - i) := by
    rw [← Nat.pow_add]
    congr 1
    omega
  rw [UInt8.toNat_or, UInt8.toNat_shiftLeft, hshift, Nat.shiftLeft_eq, Nat.mul_comm x.toNat, hpow,
    Nat.mul_mod_mul_left, ← Nat.two_pow_add_eq_or_of_lt hy]

theorem toNat_shiftRight (x : UInt8) {i : Nat} (hi : i < 8) :
    (x >>> UInt8.ofNat i).toNat = x.toNat / 2 ^ i := by
  have hshift : (UInt8.ofNat i).toNat % 8 = i := by
    rw [UInt8.toNat_ofNat']
    omega
  rw [UInt8.toNat_shiftRight, hshift, Nat.shiftRight_eq_div_pow]

theorem toNat_and_mask (x : UInt8) {i : Nat} (hi : i < 8) :
    (x &&& UInt8.ofNat (2 ^ i - 1)).toNat = x.toNat % 2 ^ i := by
  have hmask : (UInt8.ofNat (2 ^ i - 1)).toNat = 2 ^ i - 1 := by
    have hlt : 2 ^ i < 2 ^ 8 := Nat.pow_lt_pow_right (by decide) hi
    rw [UInt8.toNat_ofNat']
    omega
  rw [UInt8.toNat_and, hmask, Nat.and_two_pow_sub_one_eq_mod]

section Digits

variable (b₀ b₁ b₂ : UInt8)

theorem tripleValue_three :
    tripleValue [b₀, b₁, b₂] = 65536 * b₀.toNat + 256 * b₁.toNat + b₂.toNat := by
  simp only [tripleValue, natBE, List.length_cons, List.length_nil, List.replicate, Nat.sub_self,
    List.append_nil, List.foldl_cons, List.foldl_nil, Nat.zero_add]
  omega

theorem tripleValue_two : tripleValue [b₀, b₁] = tripleValue [b₀, b₁, 0] := rfl

theorem tripleValue_one : tripleValue [b₀] = tripleValue [b₀, 0, 0] := rfl

/-- The indices the encoder computes are the digits of the number. -/
theorem sextets_three :
    sextets (tripleValue [b₀, b₁, b₂]) =
      [(b₀ >>> 2).toNat, ((b₀ &&& 0x03) <<< 4 ||| b₁ >>> 4).toNat,
        ((b₁ &&& 0x0f) <<< 2 ||| b₂ >>> 6).toNat, (b₂ &&& 0x3f).toNat] := by
  have h₀ : b₀.toNat < 256 := b₀.toNat_lt
  have h₁ : b₁.toNat < 256 := b₁.toNat_lt
  have h₂ : b₂.toNat < 256 := b₂.toNat_lt
  have hdigit₀ : (b₀ >>> 2).toNat = b₀.toNat / 4 := toNat_shiftRight b₀ (i := 2) (by decide)
  have hhigh₁ : (b₁ >>> 4).toNat = b₁.toNat / 16 := toNat_shiftRight b₁ (i := 4) (by decide)
  have hhigh₂ : (b₂ >>> 6).toNat = b₂.toNat / 64 := toNat_shiftRight b₂ (i := 6) (by decide)
  have hlow₀ : (b₀ &&& 0x03).toNat = b₀.toNat % 4 := toNat_and_mask b₀ (i := 2) (by decide)
  have hlow₁ : (b₁ &&& 0x0f).toNat = b₁.toNat % 16 := toNat_and_mask b₁ (i := 4) (by decide)
  have hdigit₃ : (b₂ &&& 0x3f).toNat = b₂.toNat % 64 := toNat_and_mask b₂ (i := 6) (by decide)
  have hdigit₁ : ((b₀ &&& 0x03) <<< 4 ||| b₁ >>> 4).toNat =
      2 ^ 4 * ((b₀ &&& 0x03).toNat % 2 ^ 4) + (b₁ >>> 4).toNat :=
    toNat_shiftLeft_or (i := 4) (by decide) (by omega)
  have hdigit₂ : ((b₁ &&& 0x0f) <<< 2 ||| b₂ >>> 6).toNat =
      2 ^ 2 * ((b₁ &&& 0x0f).toNat % 2 ^ 6) + (b₂ >>> 6).toNat :=
    toNat_shiftLeft_or (i := 2) (by decide) (by omega)
  rw [tripleValue_three, hdigit₀, hdigit₁, hdigit₂, hdigit₃, hlow₀, hlow₁, hhigh₁, hhigh₂]
  unfold sextets
  congr 1
  · omega
  · congr 1
    · omega
    · congr 1
      · omega
      · congr 1
        omega

/-- What the loop writes for three bytes. -/
theorem quad_three :
    quad [b₀, b₁, b₂] = [base64Char (b₀ >>> 2), base64Char ((b₀ &&& 0x03) <<< 4 ||| b₁ >>> 4),
      base64Char ((b₁ &&& 0x0f) <<< 2 ||| b₂ >>> 6), base64Char (b₂ &&& 0x3f)] := by
  unfold quad
  rw [sextets_three]
  rfl

/-- What is written for two. -/
theorem quad_two :
    quad [b₀, b₁] = [base64Char (b₀ >>> 2), base64Char ((b₀ &&& 0x03) <<< 4 ||| b₁ >>> 4),
      base64Char ((b₁ &&& 0x0f) <<< 2), 61] := by
  have hlast : (b₁ &&& 0x0f) <<< 2 ||| (0 : UInt8) >>> 6 = (b₁ &&& 0x0f) <<< 2 := by simp
  unfold quad
  rw [tripleValue_two, sextets_three, hlast]
  rfl

/-- What is written for one. -/
theorem quad_one :
    quad [b₀] = [base64Char (b₀ >>> 2), base64Char ((b₀ &&& 0x03) <<< 4), 61, 61] := by
  have hlast : (b₀ &&& 0x03) <<< 4 ||| (0 : UInt8) >>> 4 = (b₀ &&& 0x03) <<< 4 := by simp
  unfold quad
  rw [tripleValue_one, sextets_three, hlast]
  rfl

end Digits

theorem length_quad {g : List UInt8} (hne : 0 < g.length) (hlen : g.length ≤ 3) :
    (quad g).length = 4 := by
  unfold quad
  rw [List.length_append, List.length_map, List.length_take, List.length_replicate]
  show min (g.length + 1) 4 + (3 - g.length) = 4
  omega

theorem length_quad_of_mem {src g : List UInt8} (h : g ∈ groups 3 src) : (quad g).length = 4 :=
  have hlen := length_of_mem_groups h
  length_quad hlen.1 hlen.2

/-! ## What the encoder writes -/

/-- Groups of characters, with `\n` where the line has 72 of them; `line_len` were written of
the first line. -/
def wrapped : Nat → List (List UInt8) → List UInt8
  | line_len, [] => if line_len = 0 then [] else [10]
  | line_len, q :: qs =>
      if line_len + 4 ≥ 72 then q ++ 10 :: wrapped 0 qs else q ++ wrapped (line_len + 4) qs

/-- Breaking a line when it is full is the same as cutting the text into lines. -/
theorem wrapped_eq {qs : List (List UInt8)} (hqs : ∀ q ∈ qs, q.length = 4) {cur : List UInt8}
    (hdvd : 4 ∣ cur.length) (hlt : cur.length < 72) :
    cur ++ wrapped cur.length qs =
      (groups 72 (cur ++ qs.flatten)).flatMap fun line => line ++ [10] := by
  induction qs generalizing cur with
  | nil =>
    rw [List.flatten_nil, List.append_nil, wrapped]
    by_cases hnil : cur = []
    · subst hnil
      rw [groups_nil]
      rfl
    · have hne : cur.length ≠ 0 := fun hzero => hnil (List.length_eq_zero_iff.mp hzero)
      rw [groups_short hnil (Nat.le_of_lt hlt), if_neg hne, List.flatMap_singleton]
  | cons q qs ih =>
    have hq := hqs q List.mem_cons_self
    have hrest : ∀ q' ∈ qs, q'.length = 4 := fun q' hq' => hqs q' (List.mem_cons_of_mem q hq')
    have hline : (cur ++ q).length = cur.length + 4 := by rw [List.length_append, hq]
    rw [wrapped, List.flatten_cons, ← List.append_assoc]
    by_cases hfull : cur.length + 4 ≥ 72
    · -- The line is full: its length is a multiple of four.
      have hlen : (cur ++ q).length = 72 := by omega
      have hstart : 4 ∣ ([] : List UInt8).length := Nat.dvd_zero 4
      have hnext := ih hrest hstart (by decide)
      rw [List.nil_append, List.nil_append, List.length_nil] at hnext
      rw [if_pos hfull, flatMap_groups_append (by decide) _ hlen, ← hnext, ← List.append_assoc,
        List.append_cons]
    · have hdvd' : 4 ∣ (cur ++ q).length := by omega
      have hnext := ih hrest hdvd' (by omega)
      rw [hline] at hnext
      rw [if_neg hfull, ← hnext, List.append_assoc]

theorem base64Text_eq (src : List UInt8) :
    base64Text src = wrapped 0 ((groups 3 src).map quad) := by
  have hquads : ∀ q ∈ (groups 3 src).map quad, q.length = 4 := by
    intro q hq
    obtain ⟨g, hg, rfl⟩ := List.mem_map.mp hq
    exact length_quad_of_mem hg
  have hstart : 4 ∣ ([] : List UInt8).length := Nat.dvd_zero 4
  have h := wrapped_eq hquads hstart (by decide)
  rw [List.nil_append, List.nil_append, List.length_nil] at h
  rw [base64Text, base64Chars, List.flatMap_def (l := groups 3 src), h]

/-- What is written from a round of the loop on, up to the terminator. -/
def encodeFrom (src : List UInt8) (line_len : Nat) (pos : Cursor) : Option Cursor := do
  let (inp, line_len, pos) ← encodeBlocks src line_len pos
  let (line_len, pos) ← encodeRest inp line_len pos
  if line_len ≠ 0 then pos.put 10 else some pos

theorem encodeFrom_nil (line_len : Nat) (pos : Cursor) :
    encodeFrom [] line_len pos = pos.putAll (wrapped line_len []) := by
  show (if line_len ≠ 0 then pos.put 10 else some pos) = _
  unfold wrapped
  by_cases hzero : line_len = 0
  · rw [if_neg (not_not_intro hzero), if_pos hzero]
    rfl
  · rw [if_pos hzero, if_neg hzero]
    exact (Option.bind_fun_some _).symm

/-- One group, and what follows. -/
theorem putAll_wrapped_cons (line_len : Nat) (q : List UInt8) (qs : List (List UInt8))
    (pos : Cursor) :
    pos.putAll (wrapped line_len (q :: qs)) =
      (pos.putAll q).bind fun pos =>
        if line_len + 4 ≥ 72 then (pos.put 10).bind fun pos => pos.putAll (wrapped 0 qs)
        else pos.putAll (wrapped (line_len + 4) qs) := by
  rw [wrapped]
  split
  · exact Cursor.putAll_append q (10 :: wrapped 0 qs) pos
  · exact Cursor.putAll_append q (wrapped (line_len + 4) qs) pos

/-- A line with something in it is ended. -/
theorem putAll_wrapped_last (line_len : Nat) (q : List UInt8) (pos : Cursor) :
    pos.putAll (wrapped line_len [q]) = (pos.putAll q).bind fun pos => pos.put 10 := by
  rw [putAll_wrapped_cons]
  congr 1
  funext pos
  split
  · exact Option.bind_fun_some _
  · exact Option.bind_fun_some _

/-- A round of the loop. -/
theorem encodeFrom_cons (b₀ b₁ b₂ : UInt8) (src : List UInt8) (line_len : Nat) (pos : Cursor) :
    encodeFrom (b₀ :: b₁ :: b₂ :: src) line_len pos =
      (pos.putAll (quad [b₀, b₁, b₂])).bind fun pos =>
        if line_len + 4 ≥ 72 then (pos.put 10).bind (encodeFrom src 0)
        else encodeFrom src (line_len + 4) pos := by
  rw [quad_three]
  simp only [encodeFrom, encodeBlocks, Cursor.putAll, Option.bind_eq_bind, Option.bind_assoc,
    Option.bind_some]
  split
  · simp only [Option.bind_assoc]
    rfl
  · rfl

theorem encodeFrom_eq : ∀ (src : List UInt8) (line_len : Nat) (pos : Cursor),
    encodeFrom src line_len pos = pos.putAll (wrapped line_len ((groups 3 src).map quad))
  | [], line_len, pos => by
    rw [groups_nil]
    exact encodeFrom_nil line_len pos
  | [b₀], line_len, pos => by
    have hgroup : groups 3 [b₀] = [[b₀]] := groups_short (List.cons_ne_nil _ _) (by simp)
    rw [hgroup, List.map_singleton, putAll_wrapped_last, quad_one]
    simp [encodeFrom, encodeBlocks, encodeRest, Cursor.putAll, Option.bind_assoc]
  | [b₀, b₁], line_len, pos => by
    have hgroup : groups 3 [b₀, b₁] = [[b₀, b₁]] := groups_short (List.cons_ne_nil _ _) (by simp)
    rw [hgroup, List.map_singleton, putAll_wrapped_last, quad_two]
    simp [encodeFrom, encodeBlocks, encodeRest, Cursor.putAll, Option.bind_assoc]
  | b₀ :: b₁ :: b₂ :: src, line_len, pos => by
    have hgroup : groups 3 (b₀ :: b₁ :: b₂ :: src) = [b₀, b₁, b₂] :: groups 3 src :=
      groups_append (n := 3) (g := [b₀, b₁, b₂]) (by decide) rfl src
    rw [hgroup, List.map_cons, putAll_wrapped_cons, encodeFrom_cons]
    congr 1
    funext pos
    rw [encodeFrom_eq src (line_len + 4)]
    congr 2
    funext pos
    exact encodeFrom_eq src 0 pos

/-! ## The size of the text -/

theorem length_base64Chars (src : List UInt8) :
    (base64Chars src).length = 4 * ((src.length + 2) / 3) := by
  have hquads : (groups 3 src).map (fun g => (quad g).length) =
      (groups 3 src).map fun _ => 4 :=
    List.map_congr_left fun g hg => length_quad_of_mem hg
  rw [base64Chars, List.length_flatMap, hquads, List.map_const', List.sum_replicate_nat,
    length_groups (by decide), Nat.mul_comm]
  rfl

theorem length_base64Text (src : List UInt8) :
    (base64Text src).length =
      (base64Chars src).length + ((base64Chars src).length + 71) / 72 := by
  have hlines :
      ((groups 72 (base64Chars src)).map fun line => (line ++ [(10 : UInt8)]).length).sum =
      (groups 72 (base64Chars src)).flatten.length + (groups 72 (base64Chars src)).length := by
    induction groups 72 (base64Chars src) with
    | nil => rfl
    | cons line lines ih =>
      rw [List.map_cons, List.sum_cons, ih, List.flatten_cons, List.length_append,
        List.length_append, List.length_singleton, List.length_cons]
      omega
  rw [base64Text, List.length_flatMap, hlines, flatten_groups (by decide),
    length_groups (by decide)]
  rfl

/-- Only the product wraps around. -/
theorem encodedSize_eq (len : Nat) :
    encodedSize len =
      len * 4 % 2 ^ 64 / 3 + 4 + (len * 4 % 2 ^ 64 / 3 + 4) / 72 + 1 := by
  have hmod (n : Nat) : toSize (n : Int) = n % 2 ^ 64 := by
    unfold toSize
    omega
  have hproduct : toSize (len * 4) = len * 4 % 2 ^ 64 := hmod (len * 4)
  have hlt : len * 4 % 2 ^ 64 < 2 ^ 64 := Nat.mod_lt _ (by decide)
  unfold encodedSize
  rw [hproduct]
  generalize len * 4 % 2 ^ 64 = product at hlt
  have hblocks : toSize ((product : Int) / 3 + 4) = product / 3 + 4 := by
    refine (hmod (product / 3 + 4)).trans (Nat.mod_eq_of_lt ?_)
    omega
  dsimp only
  rw [hblocks]
  generalize hm : product / 3 + 4 = m
  have hlines : toSize ((m : Int) + m / 72) = m + m / 72 := by
    refine (hmod (m + m / 72)).trans (Nat.mod_eq_of_lt ?_)
    omega
  rw [hlines]
  refine (hmod (m + m / 72 + 1)).trans (Nat.mod_eq_of_lt ?_)
  omega

/-- Below `2 ^ 62` bytes it does not either. -/
theorem encodedSize_of_lt {len : Nat} (hlen : len < 2 ^ 62) :
    encodedSize len = len * 4 / 3 + 4 + (len * 4 / 3 + 4) / 72 + 1 := by
  have hsmall : len * 4 % 2 ^ 64 = len * 4 := Nat.mod_eq_of_lt (by omega)
  rw [encodedSize_eq, hsmall]

/-- From there on it does, and the size is less than the length. -/
theorem encodedSize_lt {len : Nat} (hlen : 2 ^ 62 ≤ len) (hsize : len < 2 ^ 64) :
    encodedSize len < len := by
  have hwrap : len * 4 % 2 ^ 64 + 2 ^ 64 ≤ len * 4 := by
    have hdiv := Nat.div_add_mod (len * 4) (2 ^ 64)
    have hpos : 1 ≤ len * 4 / 2 ^ 64 := by omega
    omega
  have hmod : len * 4 % 2 ^ 64 < 2 ^ 64 := Nat.mod_lt _ (by decide)
  rw [encodedSize_eq]
  generalize len * 4 % 2 ^ 64 = product at hwrap hmod
  omega

/-- The text and its terminator fit into the block. -/
theorem text_fits {src : List UInt8} (hlen : src.length < 2 ^ 62) :
    (base64Text src).length + 1 ≤ encodedSize src.length := by
  have hchars := length_base64Chars src
  rw [encodedSize_of_lt hlen, length_base64Text, hchars]
  omega

/-! ## The encoder -/

/-- What the encoder answers, for every input and every allocator. -/
theorem base64_encode_eq (malloc : Malloc) {src : List UInt8} (hsize : src.length < 2 ^ 64) :
    base64_encode malloc src =
      some (if src.length < 2 ^ 62 then
        (malloc (encodedSize src.length)).map fun heap =>
          ((⟨encodedSize src.length, heap⟩ : Block).write 0 (base64Text src ++ [0]),
            (base64Text src).length)
      else none) := by
  unfold base64_encode
  by_cases hlen : src.length < 2 ^ 62
  · have hfits := text_fits hlen
    have hbound : ¬ encodedSize src.length < src.length := by
      have hchars := length_base64Chars src
      have htext := length_base64Text src
      omega
    rw [if_pos hlen, if_neg hbound]
    cases malloc (encodedSize src.length) with
    | none => rfl
    | some heap =>
      have htext : encodeFrom src 0 ⟨⟨encodedSize src.length, heap⟩, 0⟩ =
          some ⟨(⟨encodedSize src.length, heap⟩ : Block).write 0 (base64Text src),
            (base64Text src).length⟩ := by
        rw [encodeFrom_eq, ← base64Text_eq, Cursor.putAll_eq _ _ (Nat.zero_le _), if_pos]
        · rw [Nat.zero_add]
        · show 0 + (base64Text src).length ≤ encodedSize src.length
          omega
      have hlast : Cursor.put 0 ⟨(⟨encodedSize src.length, heap⟩ : Block).write 0 (base64Text src),
          (base64Text src).length⟩ =
          some ⟨(⟨encodedSize src.length, heap⟩ : Block).write 0 (base64Text src ++ [0]),
            (base64Text src).length + 1⟩ := by
        have hbehind := @Block.write_append ⟨encodedSize src.length, heap⟩ 0 (base64Text src) [0]
        rw [Nat.zero_add] at hbehind
        rw [Cursor.put_eq, if_pos, hbehind]
        exact hfits
      have hsplit : (do
          let (inp, line_len, pos) ← encodeBlocks src 0 ⟨⟨encodedSize src.length, heap⟩, 0⟩
          let (line_len, pos) ← encodeRest inp line_len pos
          let pos ← if line_len ≠ 0 then pos.put 10 else some pos
          let last ← pos.put 0
          return some (last.out, pos.pos)) =
          (encodeFrom src 0 ⟨⟨encodedSize src.length, heap⟩, 0⟩).bind fun pos =>
            (pos.put 0).bind fun last => some (some (last.out, pos.pos)) := by
        simp only [encodeFrom, Option.bind_eq_bind, Option.bind_assoc]
        congr 1
        funext inp
        congr 1
        funext last
        split
        · rfl
        · rfl
      refine hsplit.trans ?_
      rw [htext, Option.bind_some, hlast, Option.bind_some, Option.map_some]
  · rw [if_neg hlen, if_pos (encodedSize_lt (by omega) hsize)]

/-- **The encoder, exactly.**  It stays inside the block it allocates, for every input a `size_t`
can count.  It answers null from `2 ^ 62` bytes on, where the size of the block would wrap
around, or if there is no memory; and else the text in lines, with a terminator behind it. -/
theorem base64_encode_exact (malloc : Malloc) {src : List UInt8} (hsize : src.length < 2 ^ 64) :
    ∃ r, base64_encode malloc src = some r ∧
      (r = none ↔ 2 ^ 62 ≤ src.length ∨ malloc (encodedSize src.length) = none) ∧
      ∀ out n, r = some (out, n) → n + 1 ≤ out.size ∧ out.slice 0 n = base64Text src ∧
        out.byte n = 0 := by
  refine ⟨_, base64_encode_eq malloc hsize, ?_, ?_⟩
  · by_cases hlen : src.length < 2 ^ 62
    · rw [if_pos hlen, Option.map_eq_none_iff]
      exact ⟨Or.inr, fun h => h.resolve_left (by omega)⟩
    · rw [if_neg hlen]
      exact ⟨fun _ => Or.inl (by omega), fun _ => rfl⟩
  · intro out n h
    by_cases hlen : src.length < 2 ^ 62
    · rw [if_pos hlen] at h
      obtain ⟨heap, -, heq⟩ := Option.map_eq_some_iff.mp h
      obtain ⟨rfl, rfl⟩ := Prod.mk.inj heq
      have hslice := @Block.slice_write ⟨encodedSize src.length, heap⟩ 0 (base64Text src ++ [0])
      rw [List.length_append, Block.slice_add] at hslice
      obtain ⟨hfirst, hlast⟩ := List.append_inj hslice Block.length_slice
      refine ⟨text_fits hlen, hfirst, ?_⟩
      rw [Nat.zero_add] at hlast
      exact List.head_eq_of_cons_eq hlast
    · rw [if_neg hlen] at h
      cases h

theorem base64_encode_exact_five :
    ∃ r, base64_encode (fun _ => some fun _ => 255) (ascii "Hello") = some r ∧
      (r = none ↔ 2 ^ 62 ≤ (ascii "Hello").length ∨
        (fun _ => some fun _ => 255 : Malloc) (encodedSize (ascii "Hello").length) = none) ∧
      ∀ out n, r = some (out, n) → n + 1 ≤ out.size ∧
        out.slice 0 n = base64Text (ascii "Hello") ∧ out.byte n = 0 :=
  base64_encode_exact _ (by decide)

/-! ## The table of the decoder -/

theorem dtable_base64_table : ∀ i < 64, dtable (base64_table.getD i 0) = UInt8.ofNat i := by
  decide +kernel

theorem base64_table_ne_pad : ∀ i < 64, base64_table.getD i 0 ≠ 61 := by
  decide +kernel

theorem dtable_pad : dtable 61 = 0 := by
  decide +kernel

theorem dtable_newline : dtable 10 = 0x80 := by
  decide +kernel

/-- Updates keep what holds of every entry. -/
theorem foldl_update {P : UInt8 → Prop} (key value : Nat → UInt8) {is : List Nat}
    (his : ∀ i ∈ is, P (value i)) {t : UInt8 → UInt8} (ht : ∀ b, P (t b)) (b : UInt8) :
    P (is.foldl (fun t i => Function.update t (key i) (value i)) t b) := by
  induction is generalizing t with
  | nil => exact ht b
  | cons i is ih =>
    apply ih fun j hj => his j (List.mem_cons_of_mem i hj)
    intro b'
    dsimp only
    rcases eq_or_ne b' (key i) with rfl | hne
    · rw [Function.update_self]
      exact his i List.mem_cons_self
    · rw [Function.update_of_ne hne]
      exact ht b'

/-- What is in the table has six bits. -/
theorem toNat_dtable_lt {b : UInt8} (h : isBase64Char b = true) : (dtable b).toNat < 64 := by
  have hentry : dtable b = 0x80 ∨ (dtable b).toNat < 64 := by
    unfold dtable
    rcases eq_or_ne b 61 with rfl | hne
    · right
      rw [Function.update_self]
      decide
    · rw [Function.update_of_ne hne]
      apply foldl_update (P := fun x => x = 0x80 ∨ x.toNat < 64)
      · intro i hi
        right
        rw [UInt8.toNat_ofNat']
        have := List.mem_range.mp hi
        omega
      · exact fun _ => Or.inl rfl
  exact hentry.resolve_left (of_decide_eq_true h)

theorem countChars_eq (src : List UInt8) : countChars src = (src.filter isBase64Char).length := by
  have hcount (count : Nat) :
      src.foldl (fun count b => if dtable b ≠ 0x80 then count + 1 else count)
      count = count + (src.filter isBase64Char).length := by
    induction src generalizing count with
    | nil => rfl
    | cons b src ih =>
      rw [List.foldl_cons, ih, List.filter_cons]
      by_cases hb : dtable b = 0x80
      · have hchar : isBase64Char b = false := decide_eq_false (not_not_intro hb)
        rw [if_neg (not_not_intro hb), hchar]
        rfl
      · have hchar : isBase64Char b = true := decide_eq_true hb
        rw [if_pos hb, if_pos hchar, List.length_cons]
        omega
  exact (hcount 0).trans (Nat.zero_add _)

/-! ## The decoder -/

theorem quadValue_four (b₀ b₁ b₂ b₃ : UInt8) :
    quadValue [b₀, b₁, b₂, b₃] = 262144 * (dtable b₀).toNat + 4096 * (dtable b₁).toNat +
      64 * (dtable b₂).toNat + (dtable b₃).toNat := by
  simp only [quadValue, List.foldl_cons, List.foldl_nil]
  omega

/-- What is written for four characters. -/
theorem bytesBE_quadValue {b₀ b₁ b₂ b₃ : UInt8}
    (h : ∀ b ∈ [b₀, b₁, b₂, b₃], isBase64Char b = true) :
    bytesBE 3 (quadValue [b₀, b₁, b₂, b₃]) =
      [dtable b₀ <<< 2 ||| dtable b₁ >>> 4, dtable b₁ <<< 4 ||| dtable b₂ >>> 2,
        dtable b₂ <<< 6 ||| dtable b₃] := by
  have h₀ := toNat_dtable_lt (h b₀ (by simp))
  have h₁ := toNat_dtable_lt (h b₁ (by simp))
  have h₂ := toNat_dtable_lt (h b₂ (by simp))
  have h₃ := toNat_dtable_lt (h b₃ (by simp))
  rw [quadValue_four]
  generalize dtable b₀ = x₀ at *
  generalize dtable b₁ = x₁ at *
  generalize dtable b₂ = x₂ at *
  generalize dtable b₃ = x₃ at *
  have hhigh₁ : (x₁ >>> 4).toNat = x₁.toNat / 16 := toNat_shiftRight x₁ (i := 4) (by decide)
  have hhigh₂ : (x₂ >>> 2).toNat = x₂.toNat / 4 := toNat_shiftRight x₂ (i := 2) (by decide)
  have hbyte₀ : (x₀ <<< 2 ||| x₁ >>> 4).toNat =
      2 ^ 2 * (x₀.toNat % 2 ^ 6) + (x₁ >>> 4).toNat :=
    toNat_shiftLeft_or (i := 2) (by decide) (by omega)
  have hbyte₁ : (x₁ <<< 4 ||| x₂ >>> 2).toNat =
      2 ^ 4 * (x₁.toNat % 2 ^ 4) + (x₂ >>> 2).toNat :=
    toNat_shiftLeft_or (i := 4) (by decide) (by omega)
  have hbyte₂ : (x₂ <<< 6 ||| x₃).toNat = 2 ^ 6 * (x₂.toNat % 2 ^ 2) + x₃.toNat :=
    toNat_shiftLeft_or (i := 6) (by decide) (by omega)
  have heq (x : UInt8) (n : Nat) (hx : x.toNat = n % 256) : UInt8.ofNat n = x := by
    apply UInt8.toNat_inj.mp
    rw [UInt8.toNat_ofNat']
    exact hx.symm
  simp only [bytesBE, List.nil_append, List.cons_append, List.cons.injEq, and_true]
  refine ⟨heq _ _ ?_, heq _ _ ?_, heq _ _ ?_⟩
  · rw [hbyte₀, hhigh₁]
    omega
  · rw [hbyte₁, hhigh₂]
    omega
  · rw [hbyte₂]
    omega

/-- What a run of the second loop leaves: null if the text is padded too much, and else its
bytes behind what was there. -/
def DecodesTo (pos : Cursor) : Option (List UInt8) → Option (Option Cursor) → Prop
  | none, r => r = some none
  | some bytes, r => ∃ more, pos.pos + bytes.length + more.length ≤ pos.out.size ∧
      r = some (some ⟨pos.out.write pos.pos (bytes ++ more), pos.pos + bytes.length⟩)

/-- Three bytes, and then what the rest of the loop leaves. -/
theorem DecodesTo.cons {pos : Cursor} {bytes : List UInt8} {rest : Option (List UInt8)}
    {r : Option (Option Cursor)}
    (h : DecodesTo ⟨pos.out.write pos.pos bytes, pos.pos + bytes.length⟩ rest r) :
    DecodesTo pos (rest.map fun more => bytes ++ more) r := by
  cases rest with
  | none => exact h
  | some bytes' =>
    obtain ⟨more, hfits, hr⟩ := h
    refine ⟨more, ?_, ?_⟩
    · rw [List.length_append, ← Nat.add_assoc]
      exact hfits
    · rw [hr, Block.write_append, List.append_assoc, List.length_append, ← Nat.add_assoc]

/-- `pad`, after one more character. -/
theorem count_concat_pad (q : List UInt8) (b : UInt8) :
    (if b = 61 then q.count 61 + 1 else q.count 61) = (q ++ [b]).count 61 := by
  rw [List.count_append, List.count_singleton]
  by_cases hb : b = 61
  · rw [if_pos hb, if_pos (beq_iff_eq.mpr hb)]
  · rw [if_neg hb, if_neg (fun h => hb (beq_iff_eq.mp h)), Nat.add_zero]

/-- The round that completes four characters. -/
theorem decodeLoop_four {b₀ b₁ b₂ b₃ : UInt8}
    (hchars : ∀ b ∈ [b₀, b₁, b₂, b₃], isBase64Char b = true) (src : List UInt8) {pos : Cursor}
    (hfits : pos.pos + 3 ≤ pos.out.size) {rest : List (List UInt8)}
    (hnext : DecodesTo
        ⟨pos.out.write pos.pos (bytesBE 3 (quadValue [b₀, b₁, b₂, b₃])), pos.pos + 3⟩
        (quadsBytes rest)
        (decodeLoop src [] 0
          ⟨pos.out.write pos.pos (bytesBE 3 (quadValue [b₀, b₁, b₂, b₃])), pos.pos + 3⟩)) :
    DecodesTo pos (quadsBytes ([b₀, b₁, b₂, b₃] :: rest))
      (decodeLoop (b₃ :: src) ([b₀, b₁, b₂].map dtable) ([b₀, b₁, b₂].count 61) pos) := by
  have htmp : dtable b₃ ≠ 0x80 := of_decide_eq_true (hchars b₃ (by simp))
  have hput : pos.putAll (bytesBE 3 (quadValue [b₀, b₁, b₂, b₃])) =
      some ⟨pos.out.write pos.pos (bytesBE 3 (quadValue [b₀, b₁, b₂, b₃])), pos.pos + 3⟩ := by
    rw [Cursor.putAll_eq _ _ (by omega), length_bytesBE, if_pos hfits]
  have hround : decodeLoop (b₃ :: src) ([b₀, b₁, b₂].map dtable) ([b₀, b₁, b₂].count 61) pos =
      (pos.putAll (bytesBE 3 (quadValue [b₀, b₁, b₂, b₃]))).bind fun pos =>
        if [b₀, b₁, b₂, b₃].count 61 = 0 then decodeLoop src [] ([b₀, b₁, b₂, b₃].count 61) pos
        else if [b₀, b₁, b₂, b₃].count 61 = 1 then some (some ⟨pos.out, pos.pos - 1⟩)
        else if [b₀, b₁, b₂, b₃].count 61 = 2 then some (some ⟨pos.out, pos.pos - 2⟩)
        else some none := by
    have hpad := count_concat_pad [b₀, b₁, b₂] b₃
    rw [List.cons_append, List.cons_append, List.cons_append, List.nil_append] at hpad
    rw [bytesBE_quadValue hchars, decodeLoop, if_neg htmp, hpad]
    simp only [List.map_cons, List.map_nil, List.cons_append, List.nil_append, Cursor.putAll,
      Option.bind_eq_bind, Option.bind_assoc, Option.bind_some]
    rfl
  rw [hround, hput, Option.bind_some, quadsBytes, triple]
  generalize hcount : [b₀, b₁, b₂, b₃].count 61 = pad
  have hlen : (bytesBE 3 (quadValue [b₀, b₁, b₂, b₃])).length = 3 := length_bytesBE _ _
  generalize bytesBE 3 (quadValue [b₀, b₁, b₂, b₃]) = bytes at *
  -- Some of the three bytes are taken back.
  have htaken (n : Nat) (hn : n ≤ 3) :
      DecodesTo pos (some (bytes.take (3 - n)))
        (some (some ⟨pos.out.write pos.pos bytes, pos.pos + 3 - n⟩)) := by
    refine ⟨bytes.drop (3 - n), ?_, ?_⟩
    · rw [List.length_take, List.length_drop]
      omega
    · rw [List.take_append_drop, List.length_take]
      congr 3
      omega
  rcases pad with _ | _ | _ | pad
  · have h : DecodesTo pos ((quadsBytes rest).map fun more => bytes ++ more)
        (decodeLoop src [] 0 ⟨pos.out.write pos.pos bytes, pos.pos + 3⟩) := by
      apply DecodesTo.cons
      rwa [hlen]
    have hfull : bytes.take (3 - 0) = bytes := List.take_of_length_le (by omega)
    rw [if_pos rfl, if_pos (Nat.zero_le 2), hfull]
    cases hrest : quadsBytes rest with
    | none =>
      rw [hrest] at h
      exact h
    | some more =>
      rw [hrest] at h
      exact h
  · exact htaken 1 (by decide)
  · exact htaken 2 (by decide)
  · rw [if_neg (by omega), if_neg (by omega), if_neg (by omega), if_neg (by omega)]
    rfl

/-- **The second loop.**  `q` is what was read of four characters. -/
theorem decodeLoop_decodesTo (src : List UInt8) {q : List UInt8} {pos : Cursor}
    (hq : q.length < 4) (hchars : ∀ b ∈ q, isBase64Char b = true)
    (hdvd : 4 ∣ (q ++ src.filter isBase64Char).length)
    (hfits : pos.pos + (q ++ src.filter isBase64Char).length / 4 * 3 ≤ pos.out.size) :
    DecodesTo pos (quadsBytes (groups 4 (q ++ src.filter isBase64Char)))
      (decodeLoop src (q.map dtable) (q.count 61) pos) := by
  induction src generalizing q pos with
  | nil =>
    rw [List.filter_nil, List.append_nil] at hdvd ⊢
    have hnil : q = [] := by
      apply List.length_eq_zero_iff.mp
      omega
    subst hnil
    rw [groups_nil]
    refine ⟨[], ?_, ?_⟩
    · rw [List.length_nil]
      omega
    · rw [List.append_nil, Block.write_nil]
      rfl
  | cons b src ih =>
    rw [List.filter_cons] at hdvd hfits ⊢
    by_cases hb : isBase64Char b = true
    · rw [if_pos hb] at hdvd hfits ⊢
      rw [List.append_cons] at hdvd hfits ⊢
      have hchars' : ∀ b' ∈ q ++ [b], isBase64Char b' = true := by
        intro b' hb'
        rcases List.mem_append.mp hb' with hmem | hmem
        · exact hchars b' hmem
        · rw [List.mem_singleton.mp hmem]
          exact hb
      have htmp : dtable b ≠ 0x80 := of_decide_eq_true hb
      by_cases hfull : q.length = 3
      · obtain ⟨b₀, b₁, b₂, rfl⟩ := List.length_eq_three.mp hfull
        have hgroup : groups 4 ([b₀, b₁, b₂] ++ [b] ++ src.filter isBase64Char) =
            [b₀, b₁, b₂, b] :: groups 4 (src.filter isBase64Char) :=
          groups_append (n := 4) (by decide) rfl (src.filter isBase64Char)
        have hlen : ([b₀, b₁, b₂] ++ [b] ++ src.filter isBase64Char).length =
            (src.filter isBase64Char).length + 4 := by
          rw [List.length_append, Nat.add_comm]
          rfl
        rw [hlen] at hdvd hfits
        rw [hgroup]
        apply decodeLoop_four hchars' src (by omega)
        apply ih (q := []) (by decide) (fun _ h => absurd h List.not_mem_nil)
        · rw [List.nil_append]
          omega
        · rw [List.nil_append]
          show pos.pos + 3 + (src.filter isBase64Char).length / 4 * 3 ≤ pos.out.size
          omega
      · have hnext := ih (q := q ++ [b]) (by rw [List.length_append, List.length_singleton]; omega)
          hchars' hdvd hfits
        rw [List.map_append, List.map_singleton, ← count_concat_pad] at hnext
        rw [decodeLoop, if_neg htmp]
        match q with
        | [] => exact hnext
        | [_] => exact hnext
        | [_, _] => exact hnext
        | _ :: _ :: _ :: _ =>
          simp only [List.length_cons] at hq hfull
          omega
    · rw [if_neg hb] at hdvd hfits ⊢
      have htmp : dtable b = 0x80 := of_not_not fun h => hb (decide_eq_true h)
      rw [decodeLoop, if_pos htmp]
      exact ih hq hchars hdvd hfits

/-- **The decoder, exactly.**  It stays inside both blocks.  It answers null if the text stands
for nothing, or there is no memory; and else the bytes the text stands for. -/
theorem base64_decode_exact (malloc : Malloc) (text : List UInt8) :
    ∃ r, base64_decode malloc text = some r ∧
      (r = none ↔ base64Bytes text = none ∨
        malloc ((text.filter isBase64Char).length / 4 * 3) = none) ∧
      ∀ out n, r = some (out, n) → n ≤ out.size ∧ base64Bytes text = some (out.slice 0 n) := by
  unfold base64_decode base64Bytes
  dsimp only
  rw [countChars_eq]
  generalize hchars : text.filter isBase64Char = chars
  have hempty : chars.length = 0 ↔ chars = [] := List.length_eq_zero_iff
  by_cases hbad : chars = [] ∨ chars.length % 4 ≠ 0
  · rw [if_pos (hbad.imp hempty.mpr id), if_pos hbad]
    refine ⟨none, rfl, by simp, ?_⟩
    intro out n h
    cases h
  · have hcount : ¬ (chars.length = 0 ∨ chars.length % 4 ≠ 0) := fun h =>
      hbad (h.imp hempty.mp id)
    rw [if_neg hcount, if_neg hbad]
    cases malloc (chars.length / 4 * 3) with
    | none =>
      refine ⟨none, rfl, by simp, ?_⟩
      intro out n h
      cases h
    | some heap =>
      have hrun := @decodeLoop_decodesTo text [] ⟨⟨chars.length / 4 * 3, heap⟩, 0⟩ (by decide)
        (fun _ h => absurd h List.not_mem_nil)
        (by rw [List.nil_append, hchars]; omega)
        (by rw [List.nil_append, hchars, Nat.zero_add])
      rw [List.nil_append, hchars, List.map_nil, List.count_nil] at hrun
      cases hbytes : quadsBytes (groups 4 chars) with
      | none =>
        rw [hbytes] at hrun
        have hnull : decodeLoop text [] 0 ⟨⟨chars.length / 4 * 3, heap⟩, 0⟩ = some none := hrun
        refine ⟨none, ?_, by simp, ?_⟩
        · dsimp only
          rw [hnull]
          rfl
        · intro out n h
          cases h
      | some bytes =>
        rw [hbytes] at hrun
        obtain ⟨more, hfits, hr⟩ := hrun
        refine ⟨some ((⟨chars.length / 4 * 3, heap⟩ : Block).write 0 (bytes ++ more),
          0 + bytes.length), ?_, by simp, ?_⟩
        · dsimp only
          rw [hr]
          rfl
        · intro out n h
          obtain ⟨rfl, rfl⟩ := Prod.mk.inj (Option.some.inj h)
          have hslice := @Block.slice_write ⟨chars.length / 4 * 3, heap⟩ 0 (bytes ++ more)
          rw [List.length_append, Block.slice_add] at hslice
          have hfirst := (List.append_inj hslice Block.length_slice).1
          refine ⟨?_, ?_⟩
          · show 0 + bytes.length ≤ chars.length / 4 * 3
            have hsize : 0 + bytes.length + more.length ≤ chars.length / 4 * 3 := hfits
            omega
          · rw [Nat.zero_add, hfirst]

/-! ## The round trip -/

theorem tripleValue_lt {g : List UInt8} (hlen : g.length ≤ 3) : tripleValue g < 2 ^ 24 := by
  have h := natBE_lt (g ++ List.replicate (3 - g.length) 0)
  have htotal : g.length + (3 - g.length) = 3 := by omega
  rw [List.length_append, List.length_replicate, htotal] at h
  exact h

/-- The bytes of the number of a group. -/
theorem bytesBE_tripleValue {g : List UInt8} (hlen : g.length ≤ 3) :
    bytesBE 3 (tripleValue g) = g ++ List.replicate (3 - g.length) 0 := by
  have h := bytesBE_natBE (g ++ List.replicate (3 - g.length) 0)
  have htotal : g.length + (3 - g.length) = 3 := by omega
  rw [List.length_append, List.length_replicate, htotal] at h
  exact h

/-- A character of the table is read as its index. -/
theorem toNat_dtable_char {i : Nat} (hi : i < 64) :
    (dtable (base64_table.getD i 0)).toNat = i := by
  rw [dtable_base64_table i hi, UInt8.toNat_ofNat']
  omega

theorem isBase64Char_char {i : Nat} (hi : i < 64) :
    isBase64Char (base64_table.getD i 0) = true := by
  have h := toNat_dtable_char hi
  apply decide_eq_true
  intro hout
  rw [hout] at h
  have hbig : (0x80 : UInt8).toNat = 128 := rfl
  omega

theorem isBase64Char_pad : isBase64Char 61 = true := by
  apply decide_eq_true
  rw [dtable_pad]
  decide

section Quad

variable {g : List UInt8}

theorem sextets_lt (hlen : g.length ≤ 3) : ∀ i ∈ sextets (tripleValue g), i < 64 := by
  have hlt := tripleValue_lt hlen
  intro i hi
  simp only [sextets, List.mem_cons, List.not_mem_nil, or_false] at hi
  omega

/-- How much of it is padding. -/
theorem count_pad_quad (hlen : g.length ≤ 3) : (quad g).count 61 = 3 - g.length := by
  have hchars : (((sextets (tripleValue g)).take (g.length + 1)).map fun i =>
      base64_table.getD i 0).count 61 = 0 := by
    apply List.count_eq_zero_of_not_mem
    intro hmem
    obtain ⟨i, hi, heq⟩ := List.mem_map.mp hmem
    exact base64_table_ne_pad i (sextets_lt hlen i (List.mem_of_mem_take hi)) heq
  rw [quad, List.count_append, hchars, List.count_replicate_self, Nat.zero_add]

theorem isBase64Char_of_mem_quad (hlen : g.length ≤ 3) {b : UInt8} (hb : b ∈ quad g) :
    isBase64Char b = true := by
  rcases List.mem_append.mp hb with hmem | hmem
  · obtain ⟨i, hi, rfl⟩ := List.mem_map.mp hmem
    exact isBase64Char_char (sextets_lt hlen i (List.mem_of_mem_take hi))
  · rw [List.eq_of_mem_replicate hmem]
    exact isBase64Char_pad

/-- The characters have the number of the bytes: what is replaced by `=` is zero. -/
theorem quadValue_quad (hne : 0 < g.length) (hlen : g.length ≤ 3) :
    quadValue (quad g) = tripleValue g := by
  have hlt := sextets_lt hlen
  have hvalue := tripleValue_lt hlen
  have hpad : (dtable 61).toNat = 0 := by
    rw [dtable_pad]
    rfl
  match g with
  | [b₀] =>
    have hone : tripleValue [b₀] = 65536 * b₀.toNat := by
      rw [tripleValue_one, tripleValue_three]
      show 65536 * b₀.toNat + 256 * 0 + 0 = _
      omega
    rw [hone] at hlt hvalue ⊢
    unfold quad
    rw [hone]
    show quadValue [base64_table.getD _ 0, base64_table.getD _ 0, 61, 61] = _
    rw [quadValue_four, hpad, toNat_dtable_char (hlt _ (by simp [sextets])),
      toNat_dtable_char (hlt _ (by simp [sextets]))]
    omega
  | [b₀, b₁] =>
    have htwo : tripleValue [b₀, b₁] = 65536 * b₀.toNat + 256 * b₁.toNat := by
      rw [tripleValue_two, tripleValue_three]
      rfl
    rw [htwo] at hlt hvalue ⊢
    unfold quad
    rw [htwo]
    show quadValue [base64_table.getD _ 0, base64_table.getD _ 0, base64_table.getD _ 0, 61] = _
    rw [quadValue_four, hpad, toNat_dtable_char (hlt _ (by simp [sextets])),
      toNat_dtable_char (hlt _ (by simp [sextets])), toNat_dtable_char (hlt _ (by simp [sextets]))]
    omega
  | [b₀, b₁, b₂] =>
    unfold quad
    generalize tripleValue [b₀, b₁, b₂] = n at *
    show quadValue [base64_table.getD _ 0, base64_table.getD _ 0, base64_table.getD _ 0,
      base64_table.getD _ 0] = _
    rw [quadValue_four, toNat_dtable_char (hlt _ (by simp [sextets])),
      toNat_dtable_char (hlt _ (by simp [sextets])), toNat_dtable_char (hlt _ (by simp [sextets])),
      toNat_dtable_char (hlt _ (by simp [sextets]))]
    omega

/-- Four characters of the encoder are read as the bytes they were made of. -/
theorem triple_quad (hne : 0 < g.length) (hlen : g.length ≤ 3) : triple (quad g) = some g := by
  have htake : 3 - (3 - g.length) = g.length := by omega
  unfold triple
  rw [count_pad_quad hlen, if_pos (by omega), quadValue_quad hne hlen, bytesBE_tripleValue hlen,
    htake, List.take_left]

end Quad

/-- Only the last group of the encoder is padded. -/
theorem quadsBytes_quads : ∀ src : List UInt8,
    quadsBytes ((groups 3 src).map quad) = some src
  | [] => by
    rw [groups_nil]
    rfl
  | [b₀] => by
    have hgroup : groups 3 [b₀] = [[b₀]] := groups_short (List.cons_ne_nil _ _) (by simp)
    rw [hgroup, List.map_singleton, quadsBytes, triple_quad (by simp) (by simp),
      count_pad_quad (by simp)]
    rfl
  | [b₀, b₁] => by
    have hgroup : groups 3 [b₀, b₁] = [[b₀, b₁]] := groups_short (List.cons_ne_nil _ _) (by simp)
    rw [hgroup, List.map_singleton, quadsBytes, triple_quad (by simp) (by simp),
      count_pad_quad (by simp)]
    rfl
  | b₀ :: b₁ :: b₂ :: src => by
    have hgroup : groups 3 (b₀ :: b₁ :: b₂ :: src) = [b₀, b₁, b₂] :: groups 3 src :=
      groups_append (n := 3) (g := [b₀, b₁, b₂]) (by decide) rfl src
    rw [hgroup, List.map_cons, quadsBytes, triple_quad (by simp) (by simp),
      count_pad_quad (by simp), quadsBytes_quads src]
    rfl

theorem groups_base64Chars (src : List UInt8) :
    groups 4 (base64Chars src) = (groups 3 src).map quad := by
  rw [base64Chars, List.flatMap_def]
  apply groups_flatten (by decide)
  intro q hq
  obtain ⟨g, hg, rfl⟩ := List.mem_map.mp hq
  exact length_quad_of_mem hg

/-- A text that has the characters of `src`, whatever else is in it, stands for `src`. -/
theorem base64Bytes_of_chars {text src : List UInt8} (hne : src ≠ [])
    (hchars : text.filter isBase64Char = base64Chars src) : base64Bytes text = some src := by
  have hlen := length_base64Chars src
  have hpos := List.length_pos_iff.mpr hne
  unfold base64Bytes
  dsimp only
  rw [hchars, if_neg, groups_base64Chars, quadsBytes_quads]
  rintro (hnil | hmod)
  · rw [hnil, List.length_nil] at hlen
    omega
  · omega

theorem isBase64Char_of_mem_chars {src : List UInt8} {b : UInt8} (hb : b ∈ base64Chars src) :
    isBase64Char b = true := by
  obtain ⟨g, hg, hmem⟩ := List.mem_flatMap.mp hb
  exact isBase64Char_of_mem_quad (length_of_mem_groups hg).2 hmem

/-- The line breaks are the only thing in the text that is not of the code. -/
theorem filter_base64Text (src : List UInt8) :
    (base64Text src).filter isBase64Char = base64Chars src := by
  have hnewline : isBase64Char 10 = false := by
    apply decide_eq_false
    rw [dtable_newline]
    exact not_not_intro rfl
  have hlines (ls : List (List UInt8)) : (ls.flatMap fun line => line ++ [10]).filter isBase64Char =
      ls.flatten.filter isBase64Char := by
    induction ls with
    | nil => rfl
    | cons line ls ih =>
      rw [List.flatMap_cons, List.flatten_cons, List.filter_append, List.filter_append,
        List.filter_append, ih]
      simp [hnewline]
  rw [base64Text, hlines, flatten_groups (by decide)]
  apply List.filter_eq_self.mpr
  intro b hb
  exact isBase64Char_of_mem_chars hb

/-- **The round trip.**  What the encoder made is decoded to its input, also if anything that is
not of the code is put between the characters, or the lines are broken elsewhere.  Only the text
of nothing is refused. -/
theorem base64_roundTrip {malloc malloc' : Malloc} (hmem : ∀ n, malloc' n ≠ none)
    {src : List UInt8} (hsize : src.length < 2 ^ 64) {out : Block} {n : Nat}
    (henc : base64_encode malloc src = some (some (out, n))) {text : List UInt8}
    (htext : text.filter isBase64Char = (out.slice 0 n).filter isBase64Char) :
    ∃ r, base64_decode malloc' text = some r ∧ (r = none ↔ src = []) ∧
      ∀ out' n', r = some (out', n') → out'.slice 0 n' = src := by
  obtain ⟨r, hr, -, hout⟩ := base64_encode_exact malloc hsize
  rw [henc, Option.some.injEq] at hr
  obtain ⟨-, hslice, -⟩ := hout out n hr.symm
  rw [hslice, filter_base64Text] at htext
  obtain ⟨r', hr', hnone, hout'⟩ := base64_decode_exact malloc' text
  have hbytes : base64Bytes text = if src = [] then none else some src := by
    split
    · rename_i hnil
      subst hnil
      rw [base64Chars, groups_nil, List.flatMap_nil] at htext
      unfold base64Bytes
      dsimp only
      rw [htext, if_pos (Or.inl rfl)]
    · rename_i hne
      exact base64Bytes_of_chars hne htext
  rw [hbytes] at hnone hout'
  refine ⟨r', hr', ?_, ?_⟩
  · rw [hnone]
    constructor
    · rintro (h | h)
      · by_contra hne
        rw [if_neg hne] at h
        cases h
      · exact absurd h (hmem _)
    · exact fun h => Or.inl (if_pos h)
  · intro out' n' h
    have hsome := (hout' out' n' h).2
    split at hsome
    · cases hsome
    · exact (Option.some.inj hsome).symm

theorem base64_roundTrip_five :
    ∃ (out : Block) (n : Nat),
      base64_encode (fun _ => some fun _ => 255) (ascii "Hello") = some (some (out, n)) ∧
      ∃ r, base64_decode (fun _ => some fun _ => 7) (out.slice 0 n) = some r ∧
        (r = none ↔ ascii "Hello" = []) ∧
        ∀ out' n', r = some (out', n') → out'.slice 0 n' = ascii "Hello" := by
  have hsize : (ascii "Hello").length < 2 ^ 64 := by decide
  have henc := base64_encode_eq (fun _ => some fun _ => 255) hsize
  rw [if_pos (by decide)] at henc
  have hmem : ∀ n, (fun _ => some fun _ => 7 : Malloc) n ≠ none := fun _ => Option.some_ne_none _
  exact ⟨_, _, henc, base64_roundTrip hmem hsize henc rfl⟩

end NoGround
