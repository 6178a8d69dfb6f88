/-
  Ws/Handshake.lean --- `wsHandshake` and `wsHandleConnection` of server/ws.c.

  THE KEY.  `_wsCheckHttpHeaderForSecKey` scans the request with `strtok`, which ends at a
  terminator, and the buffer has none if the request fills it.  The token behind the name of
  the key is copied into an array of 128 bytes.  Both functions are modelled on the arrays
  they are handed, and stop with `outOfBounds` where the source leaves one.

  THE ANSWER.  `_wsCalculateAcceptKey` is the base 64 form of the SHA1 digest of the key and
  a constant.  What is in it decides nothing here, so `accept_key` is a parameter.
-/
import NoGround.Ws.Messages
import NoGround.Lib.CString

set_option autoImplicit false

namespace NoGround

open NoGround.Lib

variable {ω : Type}

/-- The characters of an ASCII string. -/
def ascii (s : String) : List UInt8 := s.toList.map fun c => UInt8.ofNat c.toNat

/-- An access that has to stay inside its array. -/
def inBounds {α : Type} : Option α → Except Halt α
  | some a => .ok a
  | none => .error .outOfBounds

/-! ## _wsCheckHttpHeaderForSecKey (ws.c:137-159) -/

/-- `" :\r\n"`. -/
def delimiter (b : UInt8) : Bool := b = 32 || b = 58 || b = 13 || b = 10

/-- `"Sec-WebSocket-Key"`, of which 17 characters are compared. -/
def secWebSocketKey : List UInt8 := ascii "Sec-WebSocket-Key"

/-- The loop: `has_ws_key` says whether the token before was the name of the key.  The
result says whether there was one; behind it are the two arrays. -/
def scanTokens (socket_key : List UInt8) :
    Nat → Bool → List UInt8 → Nat → Except Halt (Bool × List UInt8 × List UInt8)
  | 0, _, _, _ => .error .outOfFuel
  | fuel + 1, has_ws_key, buffer, s => do
    let (tk, buffer, s) ← inBounds (strtok 0 delimiter buffer s)
    match tk with
    | none => return (false, buffer, socket_key)
    | some tk => do
      let len ← inBounds (strlen 0 buffer tk)
      if has_ws_key then do
        -- copy key into output
        let socket_key ← inBounds (memcpy socket_key ((buffer.drop tk).take len))
        return (true, buffer, socket_key)
      else do
        let is_name ← inBounds (strncmpEq secWebSocketKey (buffer.drop tk))
        scanTokens socket_key fuel is_name buffer s

/-- `_wsCheckHttpHeaderForSecKey`.  Every round of the loop takes a token, and there are
fewer tokens than characters. -/
def wsCheckHttpHeaderForSecKey (buffer socket_key : List UInt8) :
    Except Halt (Bool × List UInt8 × List UInt8) := do
  let (tk, buffer, s) ← inBounds (strtok 0 delimiter buffer 0)
  match tk with
  | none => return (false, buffer, socket_key)
  | some _ => scanTokens socket_key (buffer.length + 1) false buffer s

/-! ## wsHandshake (ws.c:185-223) -/

/-- `sizeof(ws_key)`. -/
def wsKeySize : Nat := 128

/-- `char ws_key[128] = {0}`. -/
def wsKeyZero : List UInt8 := List.replicate wsKeySize 0

/-- What is printed into `buffer`. -/
def handshakeResponse (acceptBuffer : List UInt8) : List UInt8 :=
  ascii "HTTP/1.1 101 Switching Protocols\r\n" ++
    ascii "Upgrade: websocket\r\n" ++
    ascii "Connection: Upgrade\r\n" ++
    ascii "Sec-WebSocket-Accept: " ++ acceptBuffer ++ ascii "\r\n" ++
    ascii "\r\n"

section Handshake

variable (sys : Sys ω) (accept_key : List UInt8 → List UInt8)

/-- `wsHandshake`. -/
def wsHandshake (client : Client) : Proc Halt ω WsEvent (ConnStatus × Client) := do
  let r ← Proc.step (sys.received client.fd rbufferSize .waitForOne)
  let client := client.fillBuffer (r.bytes.getD [])
  if r.count < 0 then return (.retry, client)
  else if r.count = 0 then return (.kill, client)
  else do
    let (key_ok, rbuffer, ws_key) ←
      Proc.ofExcept (wsCheckHttpHeaderForSecKey client.rbuffer wsKeyZero)
    let client := { client with rbuffer := rbuffer }
    if key_ok then do
      -- `%s` reads `ws_key` up to its terminator
      let len ← Proc.ofExcept (inBounds (strlen 0 ws_key 0))
      let response := handshakeResponse (accept_key (ws_key.take len))
      let sent ← Proc.step (sys.sent client.fd response)
      Proc.emit (.handshake client.fd response (sent.getD 0))
      return (.keepAlive, client)
    else return (.kill, client)

/-! ## wsHandleConnection (ws.c:225-244) -/

/-- `wsHandleConnection`. -/
def wsHandleConnection (ws : WSServer ω) : Callback ω WsEvent := fun server client => do
  let (handshake_ok, client) ← wsHandshake sys accept_key client
  if handshake_ok = .keepAlive then
    match ws.onconnect with
    | some onconnect => Proc.mapOut .net (onconnect server client)
    | none => return (.keepAlive, client)
  else return (.kill, client)

end Handshake

/-! ## The key of a request -/

/-- The token behind one that starts with the name of the key; `is_name` says that the one
before `tokens` did. -/
def keyAfter : Bool → List (List UInt8) → Option (List UInt8)
  | _, [] => none
  | is_name, tok :: toks =>
      if is_name then some tok else keyAfter (secWebSocketKey <+: tok) toks

/-- The key in a buffer: the first token of a request is not looked at, and of the others
only those that end inside the buffer. -/
def requestKey (buffer : List UInt8) : Option (List UInt8) :=
  keyAfter false (tokens 0 delimiter buffer).tail

/-- **The lookup is safe.**  It stays inside both arrays, and does not write the last byte of
`ws_key`, which is its terminator. -/
def LookupSafe (rbuffer : List UInt8) : Prop :=
  ∃ found rbuffer' ws_key,
    wsCheckHttpHeaderForSecKey rbuffer wsKeyZero = .ok (found, rbuffer', ws_key) ∧
      ws_key.drop (wsKeySize - 1) = [0]

/-- The key of the request is not too long; and a request without one does not fill the
buffer. -/
def KeyFits (rbuffer : List UInt8) : Prop :=
  match requestKey rbuffer with
  | some key => key.length < wsKeySize
  | none => 0 ∈ rbuffer

/-! ## The scan, token by token -/

section Scan

variable (socket_key : List UInt8)

theorem zero_not_mem_secWebSocketKey : 0 ∉ secWebSocketKey := by decide

theorem delimiter_zero : delimiter 0 = false := rfl

/-- A round that finds no token. -/
theorem scanTokens_nil {buffer : List UInt8} {s : Nat} (fuel : Nat) (is_name : Bool)
    (h : tokens 0 delimiter (buffer.drop s) = []) :
    scanTokens socket_key (fuel + 1) is_name buffer s =
      if 0 ∈ buffer.drop s then .ok (false, buffer, socket_key) else .error .outOfBounds := by
  unfold scanTokens
  rcases strtok_spec delimiter_zero buffer s with ⟨-, hnul, hrun⟩ | ⟨-, hnul, p, hrun⟩ |
    ⟨tok, more, p, buffer', s', after, htokens, -⟩
  · rw [hrun, if_neg hnul]
    rfl
  · rw [hrun, if_pos hnul]
    rfl
  · rw [h] at htokens
    cases htokens

/-- A round that finds one: it is copied, or compared with the name. -/
theorem scanTokens_cons {buffer : List UInt8} {s : Nat} {tok : List UInt8}
    {more : List (List UInt8)} (fuel : Nat) (is_name : Bool)
    (h : tokens 0 delimiter (buffer.drop s) = tok :: more) :
    ∃ buffer' s', tokens 0 delimiter (buffer'.drop s') = more ∧
      (0 ∈ buffer'.drop s' ↔ 0 ∈ buffer.drop s) ∧
      scanTokens socket_key (fuel + 1) is_name buffer s =
        if is_name then (inBounds (memcpy socket_key tok)).map fun key => (true, buffer', key)
        else scanTokens socket_key fuel (secWebSocketKey <+: tok) buffer' s' := by
  rcases strtok_spec delimiter_zero buffer s with ⟨hnil, -⟩ | ⟨hnil, -⟩ |
    ⟨tok', more', p, buffer', s', after, htokens, hrun, hdrop, hnul, hmore, hmem⟩
  · rw [h] at hnil
    cases hnil
  · rw [h] at hnil
    cases hnil
  · rw [h] at htokens
    obtain ⟨rfl, rfl⟩ := List.cons.inj htokens
    refine ⟨buffer', s', hmore, hmem, ?_⟩
    have hlen := strlen_eq hnul hdrop
    have hname : strncmpEq secWebSocketKey (buffer'.drop p) =
        some (decide (secWebSocketKey <+: tok)) := by
      rw [hdrop, strncmpEq_eq zero_not_mem_secWebSocketKey]
    have htake : (buffer'.drop p).take tok.length = tok := by
      rw [hdrop, List.take_left]
    rw [scanTokens, hrun]
    show (inBounds (strlen 0 buffer' p) >>= _) = _
    rw [hlen]
    cases is_name with
    | true =>
      show (inBounds (memcpy socket_key ((buffer'.drop p).take tok.length)) >>= _) = _
      rw [htake]
      cases memcpy socket_key tok <;> rfl
    | false =>
      show (inBounds (strncmpEq secWebSocketKey (buffer'.drop p)) >>= _) = _
      rw [hname]
      rfl

/-- What the scan finds, if it is given a round for each token, and one more. -/
theorem scanTokens_eq (is_name : Bool) {toks : List (List UInt8)} {fuel : Nat}
    {buffer : List UInt8} {s : Nat} (h : tokens 0 delimiter (buffer.drop s) = toks)
    (hfuel : toks.length < fuel) :
    ∃ buffer', scanTokens socket_key fuel is_name buffer s =
      match keyAfter is_name toks with
      | some key => (inBounds (memcpy socket_key key)).map fun key => (true, buffer', key)
      | none => if 0 ∈ buffer.drop s then .ok (false, buffer', socket_key)
          else .error .outOfBounds := by
  obtain ⟨fuel, rfl⟩ := Nat.exists_eq_add_of_lt (Nat.zero_lt_of_lt hfuel)
  rw [Nat.zero_add] at hfuel ⊢
  induction toks generalizing fuel is_name buffer s with
  | nil => exact ⟨buffer, scanTokens_nil socket_key fuel is_name h⟩
  | cons tok more ih =>
    obtain ⟨buffer', s', hmore, hmem, hrun⟩ := scanTokens_cons socket_key fuel is_name h
    rw [hrun]
    cases is_name with
    | true => exact ⟨buffer', rfl⟩
    | false =>
      cases fuel with
      | zero => simp at hfuel
      | succ fuel =>
        obtain ⟨buffer'', hrest⟩ := ih (decide (secWebSocketKey <+: tok)) hmore fuel
          (by simpa using hfuel)
        refine ⟨buffer'', ?_⟩
        simp only [hmem] at hrest
        exact hrest

/-- What the lookup finds. -/
theorem wsCheckHttpHeaderForSecKey_eq (buffer : List UInt8) :
    ∃ buffer', wsCheckHttpHeaderForSecKey buffer socket_key =
      match requestKey buffer with
      | some key => (inBounds (memcpy socket_key key)).map fun key => (true, buffer', key)
      | none => if 0 ∈ buffer then .ok (false, buffer', socket_key)
          else .error .outOfBounds := by
  unfold wsCheckHttpHeaderForSecKey requestKey
  rcases strtok_spec delimiter_zero buffer 0 with ⟨htokens, hnul, hrun⟩ |
    ⟨htokens, hnul, p, hrun⟩ | ⟨tok, more, p, buffer', s', -, htokens, hrun, -, -, hmore, hmem⟩
  · rw [List.drop_zero] at htokens hnul
    refine ⟨buffer, ?_⟩
    rw [hrun, htokens]
    exact (if_neg hnul).symm
  · rw [List.drop_zero] at htokens hnul
    refine ⟨buffer, ?_⟩
    rw [hrun, htokens]
    exact (if_pos hnul).symm
  · rw [List.drop_zero] at htokens hmem
    have hfuel : more.length < buffer'.length + 1 := by
      have hle := length_tokens_le 0 delimiter (buffer'.drop s')
      rw [hmore, List.length_drop] at hle
      omega
    obtain ⟨buffer'', hscan⟩ := scanTokens_eq socket_key false hmore hfuel
    refine ⟨buffer'', ?_⟩
    simp only [hmem] at hscan
    rw [hrun, htokens]
    exact hscan

end Scan

/-! ## When the lookup is safe -/

theorem keyAfter_mem {is_name : Bool} {toks : List (List UInt8)} {key : List UInt8}
    (h : keyAfter is_name toks = some key) : key ∈ toks := by
  induction toks generalizing is_name with
  | nil => cases h
  | cons tok toks ih =>
    unfold keyAfter at h
    split at h
    · cases h
      exact List.mem_cons_self
    · exact List.mem_cons_of_mem _ (ih h)

theorem zero_not_mem_of_requestKey {buffer key : List UInt8} (h : requestKey buffer = some key) :
    0 ∉ key :=
  nul_not_mem_of_mem_tokens 0 delimiter (List.mem_of_mem_tail (keyAfter_mem h))

/-- The key leaves the last byte of the array alone exactly if it is shorter than the
array. -/
theorem memcpy_key_iff {key : List UInt8} (hkey : 0 ∉ key) :
    (∃ ws_key, memcpy wsKeyZero key = some ws_key ∧ ws_key.drop (wsKeySize - 1) = [0]) ↔
      key.length < wsKeySize := by
  have hzero : wsKeyZero.length = wsKeySize := List.length_replicate
  have hsize : wsKeySize = 128 := rfl
  unfold memcpy
  rw [hzero]
  constructor
  · rintro ⟨ws_key, hcopy, hlast⟩
    by_contra hlong
    split at hcopy
    · -- The last byte is one of the key.
      have hfull : key.length = wsKeySize := by omega
      rw [Option.some.injEq, List.drop_of_length_le (by omega), List.append_nil] at hcopy
      subst hcopy
      exact hkey (List.mem_of_mem_drop (hlast ▸ List.mem_singleton_self 0))
    · cases hcopy
  · intro hlt
    refine ⟨_, if_pos (Nat.le_of_lt hlt), ?_⟩
    have hrest : wsKeySize - (key.length + (wsKeySize - 1 - key.length)) = 1 := by omega
    unfold wsKeyZero
    rw [List.drop_append, List.drop_of_length_le (by omega), List.drop_drop,
      List.drop_replicate, hrest]
    rfl

/-- **Handshake parser bounds, exactly.**  The lookup stays inside the received buffer and
leaves `ws_key` terminated if and only if the request has a key of at most 127 bytes, or it
has none and leaves a terminator in the buffer. -/
theorem lookupSafe_iff (rbuffer : List UInt8) : LookupSafe rbuffer ↔ KeyFits rbuffer := by
  obtain ⟨buffer', hrun⟩ := wsCheckHttpHeaderForSecKey_eq wsKeyZero rbuffer
  unfold LookupSafe KeyFits
  rw [hrun]
  cases hkey : requestKey rbuffer with
  | some key =>
    refine Iff.trans ?_ (memcpy_key_iff (zero_not_mem_of_requestKey hkey))
    simp only
    generalize memcpy wsKeyZero key = copied
    cases copied with
    | none => simp [inBounds, Except.map]
    | some ws_key => simp [inBounds, Except.map]
  | none =>
    by_cases hzero : 0 ∈ rbuffer
    · simp only [hzero, iff_true]
      exact ⟨false, buffer', wsKeyZero, rfl, by decide⟩
    · simp only [hzero, iff_false]
      rintro ⟨_, _, _, h, -⟩
      cases h

/-- The lookup in the cleared buffer, after `bytes` were received into it. -/
theorem wsHandshake_lookupSafe_iff (client : Client) (bytes : List UInt8) :
    LookupSafe (client.fillBuffer bytes).rbuffer ↔ KeyFits (client.fillBuffer bytes).rbuffer :=
  lookupSafe_iff (client.fillBuffer bytes).rbuffer

instance (rbuffer : List UInt8) : Decidable (KeyFits rbuffer) := by
  unfold KeyFits
  split <;> infer_instance

/-- A key of 200 characters is copied behind the end of `ws_key`. -/
theorem long_key_overflows :
    ¬ LookupSafe (Client.blank.fillBuffer
      (ascii "GET / HTTP/1.1\r\nSec-WebSocket-Key: " ++ List.replicate 200 65 ++
        ascii "\r\n\r\n")).rbuffer := by
  rw [lookupSafe_iff]
  decide +kernel

end NoGround
