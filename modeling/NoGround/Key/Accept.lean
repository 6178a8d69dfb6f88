/-
  Key/Accept.lean --- `_wsCalculateAcceptKey` of server/ws.c, and the handshake with it.

  Ws/Handshake.lean leaves open how the answer to a key is computed.  Here it is what the code
  computes: the digest of the key and `magicString`, in base 64.  `wsHandshakeCode_eq` says that
  with it the handshake of the code, with its arrays of 256, 128 and 512 bytes, is the one of
  Ws/Handshake.lean.  The arrays are large enough for every key that leaves the array of the key
  terminated; a longer one has stopped the handshake before.
-/
import NoGround.Key.Base64
import NoGround.Key.Sha1Calls
import NoGround.Ws.Request

set_option autoImplicit false

namespace NoGround

open NoGround.Lib

variable {ω : Type}

/-! ## _wsCalculateAcceptKey (ws.c:161-183) -/

def magicString : List UInt8 := ascii "258EAFA5-E914-47DA-95CA-C5AB0DC85B11"

/-- What `snprintf` leaves in an array of `size` zeros. -/
def snprintf (size : Nat) (text : List UInt8) : List UInt8 :=
  text.take (size - 1) ++ List.replicate (size - (text.take (size - 1)).length) 0

/-- `SHA1Context shactx = {0}`. -/
def shactxZero : SHA1Context where
  Intermediate_Hash := ⟨0#32, 0#32, 0#32, 0#32, 0#32⟩
  Length_Low := 0#32
  Length_High := 0#32
  Message_Block_Index := 0
  Message_Block := Vector.replicate 64 0
  Computed := false
  Corrupted := 0

/-- The last lines: the line break at the end of the string goes, and the rest is copied.  What is
copied has a terminator in the place of the line break. -/
def copyEncoded (encoded_64 acceptBuffer : List UInt8) : Except Halt (List UInt8) := do
  let len ← inBounds (strlen 0 encoded_64 0)
  if len = 0 then .error .outOfBounds
  else
    -- copy into acceptBuffer
    inBounds (memcpy acceptBuffer ((encoded_64.set (len - 1) 0).take len))

/-- `_wsCalculateAcceptKey`: what is in `acceptBuffer` behind it. -/
def _wsCalculateAcceptKey (malloc : Malloc) (key acceptBuffer : List UInt8) :
    Except Halt (List UInt8) := do
  let concatenated := snprintf 256 (key ++ magicString)
  let cat_len := (key ++ magicString).length
  -- Encode SHA1
  let (_, shactx) := SHA1Reset shactxZero
  let (_, shactx) ← inBounds (SHA1Input shactx (some concatenated) cat_len)
  let (_, _, digest) ← inBounds (SHA1Result shactx (some (List.replicate SHA1HashSize 0)))
  -- Base 64 encode
  let encoded_64 ← inBounds (base64_encode malloc (digest.getD []))
  -- `strlen` of null is an access like any other
  let (encoded_64, _) ← inBounds encoded_64
  copyEncoded (encoded_64.bytes encoded_64.size) acceptBuffer

example : (_wsCalculateAcceptKey (fun _ => some fun _ => 255)
    (ascii "dGhlIHNhbXBsZSBub25jZQ==") (List.replicate 128 0)).toOption.map (·.take 29) =
      some (ascii "s3pPLMBiTxaQ9kYGzzhZRbK+xOo=" ++ [0]) := by
  decide +kernel

/-! ## wsHandshake (ws.c:205-215) -/

/-- The response is printed into `buffer`, and `acceptLen` bytes of it are sent. -/
def printResponse (acceptBuffer : List UInt8) : Except Halt (List UInt8) := do
  -- `%s` reads `acceptBuffer` up to its terminator
  let len ← inBounds (strlen 0 acceptBuffer 0)
  let text := handshakeResponse (acceptBuffer.take len)
  let buffer := snprintf 512 text
  let acceptLen := text.length
  if acceptLen ≤ buffer.length then .ok (buffer.take acceptLen) else .error .outOfBounds

/-- What `wsHandshake` sends if there is a key. -/
def wsHandshakeAnswer (malloc : Malloc) (key : List UInt8) : Except Halt (List UInt8) := do
  let acceptBuffer ← _wsCalculateAcceptKey malloc key (List.replicate 128 0)
  printResponse acceptBuffer

/-- What is done with what the lookup found. -/
def answerRequest (sys : Sys ω) (malloc : Malloc) (client : Client) :
    Bool × List UInt8 × List UInt8 → Proc Halt ω WsEvent (ConnStatus × Client)
  | (key_ok, rbuffer, ws_key) => do
    let client := { client with rbuffer := rbuffer }
    if key_ok then do
      let len ← Proc.ofExcept (inBounds (strlen 0 ws_key 0))
      let response ← Proc.ofExcept (wsHandshakeAnswer malloc (ws_key.take len))
      let sent ← Proc.step (sys.sent client.fd response)
      Proc.emit (.handshake client.fd response (sent.getD 0))
      return (.keepAlive, client)
    else return (.kill, client)

/-- `wsHandshake`, with the answer it computes. -/
def wsHandshakeCode (sys : Sys ω) (malloc : Malloc) (client : Client) :
    Proc Halt ω WsEvent (ConnStatus × Client) := do
  let r ← Proc.step (sys.received client.fd rbufferSize .waitForOne)
  let client := client.fillBuffer (r.bytes.getD [])
  if r.count < 0 then return (.retry, client)
  else if r.count = 0 then return (.kill, client)
  else
    Proc.ofExcept (wsCheckHttpHeaderForSecKey client.rbuffer wsKeyZero) >>=
      answerRequest sys malloc client

/-! ## The answer to a key -/

/-- **The answer to a key**: the digest of the key and the constant, in base 64. -/
def wsAcceptKey (key : List UInt8) : List UInt8 := base64Chars (sha1 (key ++ magicString))

theorem length_sha1 (message : List UInt8) : (sha1 message).length = 20 := by
  simp [sha1, Words.toList, length_bytesBE]

theorem length_wsAcceptKey (key : List UInt8) : (wsAcceptKey key).length = 28 := by
  rw [wsAcceptKey, length_base64Chars, length_sha1]

/-- A digest is one line. -/
theorem base64Text_sha1 (message : List UInt8) :
    base64Text (sha1 message) = base64Chars (sha1 message) ++ [10] := by
  have hlen : (base64Chars (sha1 message)).length = 28 := by
    rw [length_base64Chars, length_sha1]
  have hne : base64Chars (sha1 message) ≠ [] := by
    intro hnil
    rw [hnil] at hlen
    cases hlen
  rw [base64Text, groups_short hne (by omega), List.flatMap_singleton]

/-- Neither a terminator nor anything a header is cut at. -/
theorem isBase64Char_delimiter : ∀ b ∈ [0, 10, 13, 32, 58], isBase64Char b = false := by
  decide +kernel

theorem not_mem_wsAcceptKey (key : List UInt8) {b : UInt8} (hb : b ∈ [0, 10, 13, 32, 58]) :
    b ∉ wsAcceptKey key := by
  intro hmem
  have hchar := isBase64Char_of_mem_chars hmem
  rw [isBase64Char_delimiter b hb] at hchar
  cases hchar

/-- `snprintf` of a text that fits. -/
theorem snprintf_of_lt {size : Nat} {text : List UInt8} (h : text.length < size) :
    snprintf size text = text ++ List.replicate (size - text.length) 0 := by
  rw [snprintf, List.take_of_length_le (by omega)]

/-- The digest the code computes of the first bytes of an array. -/
theorem digest_eq {message array : List UInt8} (hne : message ≠ [])
    (hlen : message.length < 2 ^ 61) (harray : array.take message.length = message)
    (context : SHA1Context) {digest : List UInt8} (hroom : digest.length = SHA1HashSize) :
    ∃ code context' code' context'',
      SHA1Input (SHA1Reset context).2 (some array) message.length = some (code, context') ∧
        SHA1Result context' (some digest) = some (code', context'', some (sha1 message)) := by
  have hfits : message.length ≤ array.length := by
    rw [← harray, List.length_take]
    omega
  have hpos : message.length ≠ 0 := fun hzero => hne (List.length_eq_zero_iff.mp hzero)
  obtain ⟨context', hinput, hpost⟩ := input_code (reset_isHashing context) hpos hfits
  rw [harray, Hashing.input, List.length_nil, Nat.zero_add, if_pos hlen, List.nil_append] at *
  obtain ⟨context'', hresult, -⟩ := result_code hpost (le_of_eq hroom.symm)
  unfold HashCall.code at hinput hresult
  obtain ⟨⟨code, read⟩, hread, hr⟩ := Option.bind_eq_some_iff.mp hinput
  obtain ⟨⟨code', asked, answer⟩, hasked, hr'⟩ := Option.bind_eq_some_iff.mp hresult
  have hread' : read = context' := (Prod.mk.inj (Option.some.inj hr)).2
  have hwritten : answer = some (sha1 message ++ digest.drop SHA1HashSize) :=
    congrArg HashAnswer.digest (Prod.mk.inj (Option.some.inj hr')).1
  have hanswer : answer = some (sha1 message) := by
    rw [hwritten, List.drop_of_length_le (le_of_eq hroom), List.append_nil]
  rw [hread'] at hread
  rw [hanswer] at hasked
  exact ⟨code, context', code', asked, hread, hasked⟩

theorem inBounds_bind {α β : Type} (a : α) (f : α → Except Halt β) :
    (inBounds (some a) >>= f) = f a := rfl

/-- What is written at the start of a block is what it starts with. -/
theorem bytes_write (b : Block) {bs : List UInt8} {n : Nat} (hn : bs.length ≤ n) :
    ∃ after, (b.write 0 bs).bytes n = bs ++ after := by
  have hslice : (b.write 0 bs).bytes n = (b.write 0 bs).slice 0 n := by
    unfold Block.bytes Block.slice
    exact List.map_congr_left fun i _ => by rw [Nat.zero_add]
  have hcut : n = bs.length + (n - bs.length) := by omega
  rw [hslice, hcut, Block.slice_add, Block.slice_write]
  exact ⟨_, rfl⟩

theorem copyEncoded_eq {chars : List UInt8} (hchars : 0 ∉ chars) (after : List UInt8)
    {acceptBuffer : List UInt8} (hsize : chars.length + 1 ≤ acceptBuffer.length) :
    copyEncoded (chars ++ [10] ++ 0 :: after) acceptBuffer =
      .ok (chars ++ [0] ++ acceptBuffer.drop (chars.length + 1)) := by
  have hline : (0 : UInt8) ∉ chars ++ [10] := by
    intro hmem
    rcases List.mem_append.mp hmem with h | h
    · exact hchars h
    · exact absurd (List.mem_singleton.mp h) (by decide)
  have hstrlen : strlen 0 (chars ++ [10] ++ 0 :: after) 0 = some (chars ++ [10]).length :=
    strlen_eq hline List.drop_zero
  have hlt : chars.length < (chars ++ [10] ++ 0 :: after).length := by
    simp only [List.length_append, List.length_cons]
    omega
  have hcut : ((chars ++ [10] ++ 0 :: after).set chars.length 0).take (chars.length + 1) =
      chars ++ [0] := by
    rw [take_set_succ hlt, List.append_assoc, List.take_left]
  have hcopied : (chars ++ [0]).length = chars.length + 1 := by
    rw [List.length_append, List.length_singleton]
  rw [List.length_append, List.length_singleton] at hstrlen
  unfold copyEncoded
  rw [hstrlen]
  show (if chars.length + 1 = 0 then Except.error Halt.outOfBounds
    else inBounds (memcpy acceptBuffer (((chars ++ [10] ++ 0 :: after).set chars.length 0).take
      (chars.length + 1)))) = _
  rw [if_neg (Nat.succ_ne_zero _), hcut, memcpy, hcopied, if_pos hsize]
  rfl

section Accept

variable {malloc : Malloc} {key : List UInt8}

/-- **The computation.**  For every key that leaves its array terminated, what is copied into
`acceptBuffer` is the answer to the key and a terminator. -/
theorem _wsCalculateAcceptKey_eq (hmem : ∀ n, malloc n ≠ none) (hkey : key.length < wsKeySize)
    {acceptBuffer : List UInt8} (hsize : 29 ≤ acceptBuffer.length) :
    _wsCalculateAcceptKey malloc key acceptBuffer =
      .ok (wsAcceptKey key ++ [0] ++ acceptBuffer.drop 29) := by
  have hmagic : magicString.length = 36 := by decide
  have hwsKeySize : wsKeySize = 128 := rfl
  have hlen : (key ++ magicString).length < 256 := by
    rw [List.length_append, hmagic]
    omega
  have hne : key ++ magicString ≠ [] := by
    intro hnil
    have hzero := congrArg List.length hnil
    rw [List.length_append, hmagic, List.length_nil] at hzero
    omega
  have harray : (snprintf 256 (key ++ magicString)).take (key ++ magicString).length =
      key ++ magicString := by
    rw [snprintf_of_lt hlen, List.take_left]
  obtain ⟨code, shactx, code', shactx', hinput, hresult⟩ :=
    digest_eq hne (by omega) harray shactxZero
      (List.length_replicate (n := SHA1HashSize) (a := (0 : UInt8)))
  have hdigest := length_sha1 (key ++ magicString)
  have htext := base64Text_sha1 (key ++ magicString)
  have haccept := length_wsAcceptKey key
  obtain ⟨heap, hheap⟩ := Option.ne_none_iff_exists'.mp (hmem (encodedSize 20))
  have hsize : (sha1 (key ++ magicString)).length < 2 ^ 64 := by omega
  have hencode := base64_encode_eq malloc hsize
  rw [if_pos (by omega), hdigest, hheap, Option.map_some, htext] at hencode
  -- The text and its terminator are at the start of the block.
  have hroom : (wsAcceptKey key ++ [10] ++ [0]).length ≤ encodedSize 20 := by
    have hencoded : encodedSize 20 = 31 := by decide
    simp only [List.length_append, List.length_singleton, haccept, hencoded]
    decide
  obtain ⟨after, hbytes⟩ := bytes_write ⟨encodedSize 20, heap⟩ hroom
  rw [List.append_assoc _ [0]] at hbytes
  have hfits : (wsAcceptKey key).length + 1 ≤ acceptBuffer.length := by omega
  have hcopy := copyEncoded_eq (not_mem_wsAcceptKey key (b := 0) (by decide)) after hfits
  rw [haccept] at hcopy
  unfold _wsCalculateAcceptKey
  dsimp only
  rw [hinput]
  show (inBounds (SHA1Result shactx (some (List.replicate SHA1HashSize 0))) >>= _) = _
  rw [hresult]
  show (inBounds (base64_encode malloc (sha1 (key ++ magicString))) >>= _) = _
  rw [hencode]
  show copyEncoded (((⟨encodedSize 20, heap⟩ : Block).write 0
    (wsAcceptKey key ++ [10] ++ [0])).bytes (encodedSize 20)) acceptBuffer = _
  rw [hbytes]
  exact hcopy

/-- The response fits into its buffer. -/
theorem length_handshakeResponse {accept : List UInt8} (h : accept.length = 28) :
    (handshakeResponse accept).length = 129 := by
  have hhead : (ascii "HTTP/1.1 101 Switching Protocols\r\n" ++ ascii "Upgrade: websocket\r\n" ++
      ascii "Connection: Upgrade\r\n" ++ ascii "Sec-WebSocket-Accept: ").length = 97 := by
    decide
  have hend : (ascii "\r\n").length = 2 := by decide
  rw [handshakeResponse, List.length_append, List.length_append, List.length_append, hhead, h, hend]

theorem printResponse_eq {accept : List UInt8} (hlen : accept.length = 28) (hnul : 0 ∉ accept)
    (after : List UInt8) :
    printResponse (accept ++ [0] ++ after) = .ok (handshakeResponse accept) := by
  have hresponse := length_handshakeResponse hlen
  have hstrlen : strlen 0 (accept ++ [0] ++ after) 0 = some accept.length := by
    apply strlen_eq hnul
    rw [List.drop_zero, List.append_assoc]
    rfl
  have htext : (accept ++ [0] ++ after).take accept.length = accept := by
    rw [List.append_assoc, List.take_left]
  unfold printResponse
  rw [hstrlen]
  rw [inBounds_bind]
  dsimp only
  rw [htext]
  generalize handshakeResponse accept = response at *
  rw [snprintf_of_lt (by omega), List.take_left, if_pos]
  rw [List.length_append]
  omega

/-- What is sent to a key. -/
theorem wsHandshakeAnswer_eq (hmem : ∀ n, malloc n ≠ none) (hkey : key.length < wsKeySize) :
    wsHandshakeAnswer malloc key = .ok (handshakeResponse (wsAcceptKey key)) := by
  have hzeros : 29 ≤ (List.replicate 128 (0 : UInt8)).length := by
    rw [List.length_replicate]
    decide
  unfold wsHandshakeAnswer
  rw [_wsCalculateAcceptKey_eq hmem hkey hzeros]
  exact printResponse_eq (length_wsAcceptKey key) (not_mem_wsAcceptKey key (b := 0) (by decide)) _

end Accept

/-! ## The handshake -/

/-- A key that was copied into `ws_key` is found again if there is a terminator behind it. -/
theorem strlen_wsKeyOf {key : List UInt8} (hkey : 0 ∉ key) (hlen : key.length ≤ wsKeySize) :
    strlen 0 (wsKeyOf key) 0 = if key.length < wsKeySize then some key.length else none := by
  by_cases hlt : key.length < wsKeySize
  · have hzeros : wsKeySize - key.length = (wsKeySize - key.length - 1) + 1 := by omega
    have hdrop : (wsKeyOf key).drop 0 =
        key ++ 0 :: List.replicate (wsKeySize - key.length - 1) 0 := by
      rw [List.drop_zero, wsKeyOf, hzeros, List.replicate_succ, Nat.add_sub_cancel]
    rw [if_pos hlt, strlen_eq hkey hdrop]
  · have hfull : wsKeySize - key.length = 0 := by omega
    have hne : ∀ b ∈ key, decide (b ≠ 0) = true := by
      intro b hb
      exact decide_eq_true fun h => hkey (h ▸ hb)
    rw [if_neg hlt, strlen, wsKeyOf, hfull, List.replicate_zero, List.append_nil, List.drop_zero,
      span_eq_none hne]
    rfl

theorem take_wsKeyOf (key : List UInt8) : (wsKeyOf key).take key.length = key := by
  rw [wsKeyOf, List.take_left]

section Handshake

variable (sys : Sys ω) {malloc : Malloc}

/-- What the handshake does with a request, and what it sends. -/
def handshakeResult (fd : Int) (buffer : List UInt8) (sent : List UInt8 → Option Nat) :
    Except Halt ConnStatus × List WsEvent :=
  match requestKey buffer with
  | some key =>
      if key.length < wsKeySize then
        (.ok .keepAlive, [.handshake fd (handshakeResponse (wsAcceptKey key))
          ((sent (handshakeResponse (wsAcceptKey key))).getD 0)])
      else (.error .outOfBounds, [])
  | none => if 0 ∈ buffer then (.ok .kill, []) else (.error .outOfBounds, [])

theorem ofExcept_error_bind {α β : Type} (e : Halt) (f : α → Proc Halt ω WsEvent β) (w : ω) :
    (Proc.ofExcept (.error e) >>= f) w = ⟨.error e, w, []⟩ :=
  Proc.bind_run_error (m := Proc.ofExcept (.error e)) (s := w) rfl f

theorem ofExcept_ok_bind {α β : Type} (a : α) (f : α → Proc Halt ω WsEvent β) :
    (Proc.ofExcept (.ok a) >>= f) = f a := by
  rw [Proc.ofExcept_ok, Proc.pure_bind_eq]

/-- A run that stops leaves nothing but the world. -/
theorem handshake_stops {α : Type} (f : α → Proc Halt ω WsEvent (ConnStatus × Client))
    (client : Client) (w : ω) :
    ∃ client' w', (Proc.ofExcept (.error .outOfBounds) >>= f) w =
      ⟨((.error .outOfBounds : Except Halt ConnStatus)).map fun status => (status, client'), w',
        []⟩ :=
  ⟨client, w, ofExcept_error_bind _ f w⟩

/-- Behind the lookup. -/
theorem answerRequest_run (hmem : ∀ n, malloc n ≠ none) (client : Client) (w : ω) :
    ∃ client' w', (Proc.ofExcept (wsCheckHttpHeaderForSecKey client.rbuffer wsKeyZero) >>=
      answerRequest sys malloc client) w =
      ⟨(handshakeResult client.fd client.rbuffer
          fun response => (sys.sent client.fd response w).1).1.map fun status => (status, client'),
        w', (handshakeResult client.fd client.rbuffer
          fun response => (sys.sent client.fd response w).1).2⟩ := by
  obtain ⟨buffer', hcheck⟩ := wsCheckHttpHeaderForSecKey_eq wsKeyZero client.rbuffer
  unfold handshakeResult
  rw [hcheck]
  cases hkey : requestKey client.rbuffer with
  | some key =>
    have hnul := zero_not_mem_of_requestKey hkey
    dsimp only
    rw [memcpy_wsKeyZero]
    by_cases hlen : key.length ≤ wsKeySize
    · have hcopied : (inBounds (some (wsKeyOf key))).map (fun key => (true, buffer', key)) =
          .ok (true, buffer', wsKeyOf key) := rfl
      rw [if_pos hlen, hcopied, ofExcept_ok_bind]
      unfold answerRequest
      dsimp only
      rw [if_pos rfl, strlen_wsKeyOf hnul hlen]
      by_cases hlt : key.length < wsKeySize
      · have hlenOk : inBounds (some key.length) = .ok key.length := rfl
        rw [if_pos hlt, if_pos hlt, hlenOk, ofExcept_ok_bind, take_wsKeyOf,
          wsHandshakeAnswer_eq hmem hlt, ofExcept_ok_bind]
        exact ⟨_, _, rfl⟩
      · rw [if_neg hlt, if_neg hlt]
        exact handshake_stops _ client w
    · rw [if_neg hlen, if_neg (by omega)]
      exact handshake_stops _ client w
  | none =>
    dsimp only
    by_cases hzero : 0 ∈ client.rbuffer
    · rw [if_pos hzero, if_pos hzero, ofExcept_ok_bind]
      exact ⟨_, w, rfl⟩
    · rw [if_neg hzero, if_neg hzero]
      exact handshake_stops _ client w

/-- **The handshake, exactly.**  For every client, every system and every world: a failed `recv`
is to be retried, an empty one is the end, and so is a request without a key.  A key that
leaves its array terminated is answered with its own answer, and nothing else is sent; and the
answer is the digest of the key and the constant, for whoever decodes it. -/
theorem wsHandshakeCode_exact (hmem : ∀ n, malloc n ≠ none) (client : Client) (w : ω) :
    let r := (sys.received client.fd rbufferSize .waitForOne w).1
    let w₁ := (sys.received client.fd rbufferSize .waitForOne w).2
    let buffer := (client.fillBuffer (r.bytes.getD [])).rbuffer
    let run := wsHandshakeCode sys malloc client w
    (run.outcome.map Prod.fst, run.out) =
      (if r.count < 0 then (.ok .retry, [])
      else if r.count = 0 then (.ok .kill, [])
      else handshakeResult client.fd buffer fun response => (sys.sent client.fd response w₁).1) ∧
    ∀ key, base64Bytes (wsAcceptKey key) = some (sha1 (key ++ magicString)) := by
  dsimp only
  refine ⟨?_, ?_⟩
  · unfold wsHandshakeCode
    rw [Proc.bind_run_ok (Proc.step_run _ w)]
    generalize (sys.received client.fd rbufferSize .waitForOne w).1 = r
    generalize (sys.received client.fd rbufferSize .waitForOne w).2 = w₁
    have hfd : (client.fillBuffer (r.bytes.getD [])).fd = client.fd := rfl
    rw [List.nil_append]
    dsimp only
    by_cases hfailed : r.count < 0
    · rw [if_pos hfailed, if_pos hfailed]
      rfl
    · by_cases hclosed : r.count = 0
      · rw [if_neg hfailed, if_pos hclosed, if_neg hfailed, if_pos hclosed]
        rfl
      · obtain ⟨client', w', hrun⟩ :=
          answerRequest_run sys hmem (client.fillBuffer (r.bytes.getD [])) w₁
        rw [if_neg hfailed, if_neg hclosed, if_neg hfailed, if_neg hclosed, hrun, hfd]
        generalize handshakeResult client.fd _ _ = result
        obtain ⟨outcome, out⟩ := result
        cases outcome with
        | error e => rfl
        | ok status => rfl
  · intro key
    have hne : sha1 (key ++ magicString) ≠ [] := by
      intro hnil
      have hlen := length_sha1 (key ++ magicString)
      rw [hnil] at hlen
      cases hlen
    apply base64Bytes_of_chars hne
    apply List.filter_eq_self.mpr
    intro b hb
    exact isBase64Char_of_mem_chars hb

/-- A client that sends a request with a key. -/
def keyRequest : Script where
  recvs := [some (ascii
    "GET / HTTP/1.1\r\nSec-WebSocket-Key: dGhlIHNhbXBsZSBub25jZQ==\r\n\r\n")]

/-- What is in the buffer of such a client. -/
def keyBuffer : List UInt8 :=
  (Client.blank.fillBuffer ((Script.sys.received Client.blank.fd rbufferSize .waitForOne
    keyRequest).1.bytes.getD [])).rbuffer

theorem keyBuffer_key : requestKey keyBuffer = some (ascii "dGhlIHNhbXBsZSBub25jZQ==") := by
  decide +kernel

theorem wsHandshakeCode_exact_key :
    let run := wsHandshakeCode Script.sys (fun _ => some fun _ => 255) Client.blank keyRequest
    (run.outcome.map Prod.fst, run.out) =
      (.ok .keepAlive, [.handshake 0
        (handshakeResponse (wsAcceptKey (ascii "dGhlIHNhbXBsZSBub25jZQ=="))) 129]) ∧
    ∀ key, base64Bytes (wsAcceptKey key) = some (sha1 (key ++ magicString)) := by
  obtain ⟨hrun, hdecoded⟩ :=
    wsHandshakeCode_exact Script.sys (fun _ => Option.some_ne_none _) Client.blank keyRequest
  refine ⟨hrun.trans ?_, hdecoded⟩
  have hsent : ∀ response, (Script.sys.sent Client.blank.fd response (Script.sys.received
      Client.blank.fd rbufferSize .waitForOne keyRequest).2).1 =
        some (min response.length response.length) := fun _ => rfl
  have hresult : ∀ sent, handshakeResult Client.blank.fd keyBuffer sent =
      (.ok .keepAlive, [.handshake 0
        (handshakeResponse (wsAcceptKey (ascii "dGhlIHNhbXBsZSBub25jZQ==")))
        ((sent (handshakeResponse (wsAcceptKey (ascii "dGhlIHNhbXBsZSBub25jZQ==")))).getD 0)]) := by
    intro sent
    rw [handshakeResult, keyBuffer_key]
    exact if_pos (by decide)
  rw [if_neg (by decide), if_neg (by decide)]
  refine (hresult _).trans ?_
  have hlen := length_handshakeResponse
    (length_wsAcceptKey (ascii "dGhlIHNhbXBsZSBub25jZQ=="))
  rw [hsent, hlen]
  rfl

/-- **The parameter of Ws/Handshake.lean.**  The handshake of the code is the one with the answer
`wsAcceptKey`, so that everything proved for every way of answering a key holds of it. -/
theorem wsHandshakeCode_eq (hmem : ∀ n, malloc n ≠ none) (client : Client) :
    wsHandshakeCode sys malloc client = wsHandshake sys wsAcceptKey client := by
  unfold wsHandshakeCode wsHandshake
  congr 1
  funext r
  dsimp only
  generalize client.fillBuffer (r.bytes.getD []) = client
  congr 2
  -- Behind the lookup.
  obtain ⟨buffer', hcheck⟩ := wsCheckHttpHeaderForSecKey_eq wsKeyZero client.rbuffer
  rw [hcheck]
  cases hkey : requestKey client.rbuffer with
  | some key =>
    have hnul := zero_not_mem_of_requestKey hkey
    dsimp only
    rw [memcpy_wsKeyZero]
    by_cases hlen : key.length ≤ wsKeySize
    · have hcopied : (inBounds (some (wsKeyOf key))).map (fun key => (true, buffer', key)) =
          .ok (true, buffer', wsKeyOf key) := rfl
      rw [if_pos hlen, hcopied, ofExcept_ok_bind, ofExcept_ok_bind]
      unfold answerRequest
      dsimp only
      rw [if_pos rfl, if_pos rfl, strlen_wsKeyOf hnul hlen]
      by_cases hlt : key.length < wsKeySize
      · have hlenOk : inBounds (some key.length) = .ok key.length := rfl
        rw [if_pos hlt, hlenOk, ofExcept_ok_bind, ofExcept_ok_bind, take_wsKeyOf,
          wsHandshakeAnswer_eq hmem hlt, ofExcept_ok_bind]
      · rw [if_neg hlt]
        rfl
    · rw [if_neg hlen]
      rfl
  | none =>
    dsimp only
    by_cases hzero : 0 ∈ client.rbuffer
    · rw [if_pos hzero, ofExcept_ok_bind, ofExcept_ok_bind]
      rfl
    · rw [if_neg hzero]
      rfl

end Handshake

end NoGround
