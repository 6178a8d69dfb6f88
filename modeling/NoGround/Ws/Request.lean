/-
  Ws/Request.lean --- which key `wsHandshake` takes from a well-formed request.

  A request is given here as HTTP has it: a request line, and headers with a name and a
  value.  `_wsCheckHttpHeaderForSecKey` sees none of this.  `strtok` cuts the request into
  words at blanks, colons and line ends; the first word that starts with
  `Sec-WebSocket-Key`, in this spelling, is taken for the name of the header, and the next
  word for its value, wherever they stand.

  So the key is found if no word in front of the header starts with its name and the client
  spells the name like the server (`usual_keyLocated`).  `KeyLocated` is the exact condition.
-/
import NoGround.Ws.Handshake

set_option autoImplicit false

namespace NoGround

open NoGround.Lib

/-! ## Requests -/

/-- One word of a header or of the request line. -/
def IsToken (word : List UInt8) : Prop :=
  word ≠ [] ∧ ∀ b ∈ word, delimiter b = false ∧ b ≠ 0

/-- What may stand in a line. -/
def InLine (text : List UInt8) : Prop := ∀ b ∈ text, b ≠ 13 ∧ b ≠ 10 ∧ b ≠ 0

instance (word : List UInt8) : Decidable (IsToken word) :=
  have := List.decidableBAll (fun b => delimiter b = false ∧ b ≠ 0) word
  inferInstanceAs (Decidable (_ ∧ _))

instance (text : List UInt8) : Decidable (InLine text) :=
  List.decidableBAll (fun b => b ≠ 13 ∧ b ≠ 10 ∧ b ≠ 0) text

/-- A header, `name: value`. -/
structure HttpHeader where
  name : List UInt8
  value : List UInt8
  name_token : IsToken name
  value_inLine : InLine value

/-- A request: the method and the target of the request line, and the headers. -/
structure HttpRequest where
  method : List UInt8
  target : List UInt8
  headers : List HttpHeader
  method_token : IsToken method
  target_inLine : InLine target

def httpVersion : List UInt8 := ascii "HTTP/1.1"

def crlf : List UInt8 := [13, 10]

namespace HttpHeader

def text (header : HttpHeader) : List UInt8 :=
  header.name ++ [58, 32] ++ header.value ++ crlf

/-- The words of the line. -/
def words (header : HttpHeader) : List (List UInt8) :=
  header.name :: Lib.words delimiter header.value

end HttpHeader

/-- `A` to `Z` become `a` to `z`. -/
def toLower (b : UInt8) : UInt8 := if 65 ≤ b ∧ b ≤ 90 then b + 32 else b

/-- The name is that of the key, ignoring case. -/
def IsKeyName (name : List UInt8) : Prop := name.map toLower = secWebSocketKey.map toLower

instance (name : List UInt8) : Decidable (IsKeyName name) :=
  inferInstanceAs (Decidable (_ = _))

/-- The characters of the base 64 form. -/
def isBase64 (b : UInt8) : Bool :=
  (65 ≤ b && b ≤ 90) || (97 ≤ b && b ≤ 122) || (48 ≤ b && b ≤ 57) || b = 43 || b = 47 || b = 61

/-- A value for the key: 1 to 127 characters of the base 64 form. -/
def IsKeyValue (value : List UInt8) : Prop :=
  value ≠ [] ∧ value.length < wsKeySize ∧ ∀ b ∈ value, isBase64 b = true

instance (value : List UInt8) : Decidable (IsKeyValue value) :=
  have := List.decidableBAll (fun b => isBase64 b = true) value
  inferInstanceAs (Decidable (_ ∧ _ ∧ _))

namespace HttpRequest

variable (request : HttpRequest)

/-- The request line. -/
def line : List UInt8 := request.method ++ [32] ++ (request.target ++ [32] ++ httpVersion)

def text : List UInt8 :=
  request.line ++ crlf ++ (request.headers.flatMap HttpHeader.text ++ crlf)

/-- The words behind the method. -/
def words : List (List UInt8) :=
  Lib.words delimiter request.target ++ httpVersion ::
    request.headers.flatMap HttpHeader.words

/-- The headers with the name of the key. -/
def keyHeaders : List HttpHeader := request.headers.filter fun header => IsKeyName header.name

/-- `client->rbuffer`, after the request was received into it. -/
def rbuffer : List UInt8 :=
  request.text ++ List.replicate (rbufferSize - request.text.length) 0

end HttpRequest

/-! ## The words of a request -/

theorem delimiter_crlf : delimiter 13 = true ∧ delimiter 10 = true := ⟨rfl, rfl⟩

theorem IsToken.words_eq {word : List UInt8} (h : IsToken word) :
    Lib.words delimiter word = [word] :=
  words_of_no_delim delimiter (fun b hb => (h.2 b hb).1) h.1

theorem IsToken.zero_not_mem {word : List UInt8} (h : IsToken word) : 0 ∉ word :=
  fun hmem => (h.2 0 hmem).2 rfl

theorem InLine.zero_not_mem {text : List UInt8} (h : InLine text) : 0 ∉ text :=
  fun hmem => (h 0 hmem).2.2 rfl

/-- A line end that closes a line is skipped. -/
theorem tokens_crlf {l : List UInt8} (hl : 0 ∉ l) (rest : List UInt8) :
    tokens 0 delimiter (l ++ crlf ++ rest) =
      Lib.words delimiter l ++ tokens 0 delimiter rest := by
  have hgap : tokens 0 delimiter ([10] ++ rest) = tokens 0 delimiter rest :=
    tokens_gap delimiter_zero (by simp [delimiter_crlf.2]) rest
  have hline := tokens_line delimiter_zero hl delimiter_crlf.1 ([10] ++ rest)
  rw [hgap] at hline
  rw [List.append_assoc]
  exact hline

theorem tokens_header (header : HttpHeader) (rest : List UInt8) :
    tokens 0 delimiter (header.text ++ rest) = header.words ++ tokens 0 delimiter rest := by
  have hzero : 0 ∉ header.name ++ [58, 32] ++ header.value := by
    simp [header.name_token.zero_not_mem, header.value_inLine.zero_not_mem]
  have hwords : Lib.words delimiter (header.name ++ [58, 32] ++ header.value) = header.words := by
    rw [List.append_assoc]
    show Lib.words delimiter (header.name ++ 58 :: ([] ++ 32 :: header.value)) = _
    rw [words_append_cons delimiter header.name rfl, words_append_cons delimiter [] rfl,
      header.name_token.words_eq]
    rfl
  unfold HttpHeader.text
  rw [tokens_crlf hzero, hwords]

theorem tokens_headers (headers : List HttpHeader) (rest : List UInt8) :
    tokens 0 delimiter (headers.flatMap HttpHeader.text ++ rest) =
      headers.flatMap HttpHeader.words ++ tokens 0 delimiter rest := by
  induction headers with
  | nil => rfl
  | cons header headers ih =>
    rw [List.flatMap_cons, List.flatMap_cons, List.append_assoc, List.append_assoc,
      tokens_header, ih]

theorem httpVersion_token : IsToken httpVersion := by decide

theorem zero_not_mem_line (request : HttpRequest) : 0 ∉ request.line := by
  unfold HttpRequest.line
  simp [request.method_token.zero_not_mem, request.target_inLine.zero_not_mem,
    httpVersion_token.zero_not_mem]

theorem words_line (request : HttpRequest) :
    Lib.words delimiter request.line =
      request.method :: (Lib.words delimiter request.target ++ [httpVersion]) := by
  unfold HttpRequest.line
  rw [List.append_assoc, List.append_assoc]
  show Lib.words delimiter (request.method ++ 32 :: (request.target ++ 32 :: httpVersion)) = _
  rw [words_append_cons delimiter request.method rfl,
    words_append_cons delimiter request.target rfl, request.method_token.words_eq,
    httpVersion_token.words_eq, List.singleton_append]

/-- The tokens of the buffer are the words of the request. -/
theorem tokens_rbuffer {request : HttpRequest} (hsize : request.text.length < rbufferSize) :
    tokens 0 delimiter request.rbuffer = request.method :: request.words := by
  obtain ⟨n, hn⟩ := Nat.exists_eq_add_of_lt hsize
  have hzeros : rbufferSize - request.text.length = n + 1 := by omega
  have hend : tokens 0 delimiter (crlf ++ List.replicate (n + 1) 0) = [] := by
    rw [tokens_gap delimiter_zero (by simp [crlf, delimiter_crlf]), List.replicate_succ]
    exact tokens_nul _
  unfold HttpRequest.rbuffer
  rw [hzeros]
  unfold HttpRequest.text HttpRequest.words
  rw [List.append_assoc, tokens_crlf (zero_not_mem_line request), words_line, List.append_assoc,
    tokens_headers, hend]
  simp

theorem requestKey_rbuffer {request : HttpRequest} (hsize : request.text.length < rbufferSize) :
    requestKey request.rbuffer = keyAfter false request.words := by
  unfold requestKey
  rw [tokens_rbuffer hsize]
  rfl

/-! ## Which word is taken -/

/-- The first of the words that starts with the name of the key is followed by `value`. -/
def NameThen (value : List UInt8) (toks : List (List UInt8)) : Prop :=
  ∃ before tok after, toks = before ++ tok :: value :: after ∧ secWebSocketKey <+: tok ∧
    ∀ tok' ∈ before, ¬ secWebSocketKey <+: tok'

/-- No word starts with the name of the key, but perhaps the last one. -/
def NoName (toks : List (List UInt8)) : Prop :=
  ∀ tok ∈ toks.dropLast, ¬ secWebSocketKey <+: tok

instance (toks : List (List UInt8)) : Decidable (NoName toks) :=
  inferInstanceAs (Decidable (∀ tok ∈ toks.dropLast, _))

theorem keyAfter_cons_of_name {tok : List UInt8} (h : secWebSocketKey <+: tok)
    (toks : List (List UInt8)) : keyAfter false (tok :: toks) = toks.head? := by
  have hname : decide (secWebSocketKey <+: tok) = true := decide_eq_true h
  cases toks with
  | nil => rfl
  | cons tok' toks =>
    unfold keyAfter
    rw [if_neg (by simp), hname]
    rfl

theorem keyAfter_cons_of_not_name {tok : List UInt8} (h : ¬ secWebSocketKey <+: tok)
    (toks : List (List UInt8)) : keyAfter false (tok :: toks) = keyAfter false toks := by
  have hname : decide (secWebSocketKey <+: tok) = false := decide_eq_false h
  rw [keyAfter, if_neg (by simp), hname]

theorem keyAfter_eq_some_iff {value : List UInt8} {toks : List (List UInt8)} :
    keyAfter false toks = some value ↔ NameThen value toks := by
  induction toks with
  | nil =>
    constructor
    · intro h
      cases h
    · rintro ⟨before, tok, after, heq, -⟩
      simp at heq
  | cons tok toks ih =>
    by_cases hname : secWebSocketKey <+: tok
    · rw [keyAfter_cons_of_name hname]
      constructor
      · intro h
        obtain ⟨after, rfl⟩ := List.head?_eq_some_iff.mp h
        exact ⟨[], tok, after, rfl, hname, by simp⟩
      · rintro ⟨before, tok', after, heq, -, hbefore⟩
        cases before with
        | nil =>
          obtain ⟨rfl, rfl⟩ := List.cons.inj heq
          rfl
        | cons tok'' before =>
          obtain ⟨rfl, -⟩ := List.cons.inj heq
          exact absurd hname (hbefore _ List.mem_cons_self)
    · rw [keyAfter_cons_of_not_name hname, ih]
      constructor
      · rintro ⟨before, tok', after, rfl, htok, hbefore⟩
        exact ⟨tok :: before, tok', after, rfl, htok,
          List.forall_mem_cons.mpr ⟨hname, hbefore⟩⟩
      · rintro ⟨before, tok', after, heq, htok, hbefore⟩
        cases before with
        | nil =>
          obtain ⟨rfl, -⟩ := List.cons.inj heq
          exact absurd htok hname
        | cons tok'' before =>
          obtain ⟨rfl, rfl⟩ := List.cons.inj heq
          exact ⟨before, tok', after, rfl, htok, (List.forall_mem_cons.mp hbefore).2⟩

theorem keyAfter_eq_none_iff {toks : List (List UInt8)} :
    keyAfter false toks = none ↔ NoName toks := by
  induction toks with
  | nil =>
    exact iff_of_true rfl (by simp [NoName])
  | cons tok toks ih =>
    cases toks with
    | nil =>
      refine iff_of_true ?_ (by simp [NoName])
      by_cases hname : secWebSocketKey <+: tok
      · exact keyAfter_cons_of_name hname []
      · exact keyAfter_cons_of_not_name hname []
    | cons tok' toks =>
      have hlast : NoName (tok :: tok' :: toks) ↔
          ¬ secWebSocketKey <+: tok ∧ NoName (tok' :: toks) := by
        unfold NoName
        rw [List.dropLast_cons_of_ne_nil (by simp), List.forall_mem_cons]
      rw [hlast, ← ih]
      by_cases hname : secWebSocketKey <+: tok
      · rw [keyAfter_cons_of_name hname]
        simp [hname]
      · rw [keyAfter_cons_of_not_name hname]
        simp [hname]

instance (value : List UInt8) (toks : List (List UInt8)) : Decidable (NameThen value toks) :=
  decidable_of_iff _ keyAfter_eq_some_iff

/-! ## What the lookup finds in a request -/

/-- `ws_key` after a key was copied into it. -/
def wsKeyOf (key : List UInt8) : List UInt8 := key ++ List.replicate (wsKeySize - key.length) 0

/-- **The key of the request.**  If one header has the name of the key, and a value for it,
the lookup returns 1 and this value; if none has the name, it returns 0. -/
structure FindsKey (request : HttpRequest) : Prop where
  found : ∀ header, request.keyHeaders = [header] → IsKeyValue header.value →
    ∃ rbuffer, wsCheckHttpHeaderForSecKey request.rbuffer wsKeyZero =
      .ok (true, rbuffer, wsKeyOf header.value)
  absent : request.keyHeaders = [] →
    ∃ rbuffer, wsCheckHttpHeaderForSecKey request.rbuffer wsKeyZero =
      .ok (false, rbuffer, wsKeyZero)

/-- The first word behind the method that starts with the name of the key is followed by the
value of the header with that name; and if there is no such header, no word but the last
starts with the name. -/
structure KeyLocated (request : HttpRequest) : Prop where
  present : ∀ header, request.keyHeaders = [header] → IsKeyValue header.value →
    NameThen header.value request.words
  missing : request.keyHeaders = [] → NoName request.words

theorem memcpy_wsKeyZero (key : List UInt8) :
    memcpy wsKeyZero key = if key.length ≤ wsKeySize then some (wsKeyOf key) else none := by
  have hzero : wsKeyZero.length = wsKeySize := List.length_replicate
  unfold memcpy
  rw [hzero]
  unfold wsKeyOf wsKeyZero
  rw [List.drop_replicate]

theorem zero_mem_rbuffer {request : HttpRequest} (hsize : request.text.length < rbufferSize) :
    0 ∈ request.rbuffer := by
  refine List.mem_append_right _ (List.mem_replicate.mpr ⟨?_, rfl⟩)
  omega

/-- The array tells which key was copied into it. -/
theorem wsKeyOf_inj {key key' : List UInt8} (hkey : 0 ∉ key) (hkey' : 0 ∉ key')
    (h : wsKeyOf key = wsKeyOf key') : key = key' := by
  have hfilter : ∀ {k : List UInt8}, 0 ∉ k → (wsKeyOf k).filter (· ≠ 0) = k := by
    intro k hk
    have hself : k.filter (· ≠ 0) = k := by
      refine List.filter_eq_self.mpr ?_
      intro b hb
      exact decide_eq_true fun hzero => hk (hzero ▸ hb)
    have hzeros : (List.replicate (wsKeySize - k.length) (0 : UInt8)).filter (· ≠ 0) = [] := by
      simp
    unfold wsKeyOf
    rw [List.filter_append, hself, hzeros, List.append_nil]
  rw [← hfilter hkey, ← hfilter hkey', h]

section Lookup

variable {request : HttpRequest} (hsize : request.text.length < rbufferSize)

include hsize

/-- A key in the words of the request is returned, if it fits the array. -/
theorem lookup_found_iff {value : List UInt8} (hvalue : value.length < wsKeySize)
    (hzero : 0 ∉ value) :
    (∃ rbuffer, wsCheckHttpHeaderForSecKey request.rbuffer wsKeyZero =
      .ok (true, rbuffer, wsKeyOf value)) ↔ NameThen value request.words := by
  obtain ⟨buffer', hrun⟩ := wsCheckHttpHeaderForSecKey_eq wsKeyZero request.rbuffer
  have hkeyzero : ∀ {key}, requestKey request.rbuffer = some key → 0 ∉ key :=
    fun h => zero_not_mem_of_requestKey h
  rw [← keyAfter_eq_some_iff, ← requestKey_rbuffer hsize, hrun]
  cases hkey : requestKey request.rbuffer with
  | none =>
    rw [if_pos (zero_mem_rbuffer hsize)]
    simp
  | some key =>
    simp only [Option.some.injEq, memcpy_wsKeyZero]
    constructor
    · rintro ⟨rbuffer, h⟩
      split at h
      · simp only [inBounds, Except.map, Except.ok.injEq, Prod.mk.injEq, true_and] at h
        exact wsKeyOf_inj (hkeyzero hkey) hzero h.2
      · cases h
    · rintro rfl
      rw [if_pos (Nat.le_of_lt hvalue)]
      exact ⟨buffer', rfl⟩

theorem lookup_absent_iff :
    (∃ rbuffer, wsCheckHttpHeaderForSecKey request.rbuffer wsKeyZero =
      .ok (false, rbuffer, wsKeyZero)) ↔ NoName request.words := by
  obtain ⟨buffer', hrun⟩ := wsCheckHttpHeaderForSecKey_eq wsKeyZero request.rbuffer
  rw [← keyAfter_eq_none_iff, ← requestKey_rbuffer hsize, hrun]
  cases hkey : requestKey request.rbuffer with
  | none =>
    rw [if_pos (zero_mem_rbuffer hsize)]
    exact iff_of_true ⟨buffer', rfl⟩ rfl
  | some key =>
    simp only [reduceCtorEq, iff_false]
    rintro ⟨rbuffer, h⟩
    cases hcopy : memcpy wsKeyZero key with
    | none =>
      rw [hcopy] at h
      cases h
    | some ws_key =>
      rw [hcopy] at h
      cases h

/-- The lookup finds the key exactly where it is located. -/
theorem findsKey_iff : FindsKey request ↔ KeyLocated request := by
  have hzero : ∀ {value : List UInt8}, IsKeyValue value → 0 ∉ value := by
    intro value h hmem
    exact absurd (h.2.2 0 hmem) (by decide)
  constructor
  · intro h
    refine ⟨?_, ?_⟩
    · intro header hone hvalue
      exact (lookup_found_iff hsize hvalue.2.1 (hzero hvalue)).mp (h.found header hone hvalue)
    · intro hnone
      exact (lookup_absent_iff hsize).mp (h.absent hnone)
  · intro h
    refine ⟨?_, ?_⟩
    · intro header hone hvalue
      exact (lookup_found_iff hsize hvalue.2.1 (hzero hvalue)).mpr (h.present header hone hvalue)
    · intro hnone
      exact (lookup_absent_iff hsize).mpr (h.missing hnone)

end Lookup

/-! ## When the key is located -/

theorem IsKeyValue.token {value : List UInt8} (h : IsKeyValue value) : IsToken value := by
  have hbase64 : ∀ b : UInt8, isBase64 b = true → delimiter b = false ∧ b ≠ 0 := by
    intro b hb
    refine ⟨?_, ?_⟩
    · by_contra hdelim
      rw [Bool.not_eq_false] at hdelim
      have hcases : b = 32 ∨ b = 58 ∨ b = 13 ∨ b = 10 := by
        simpa [delimiter, or_assoc] using hdelim
      rcases hcases with rfl | rfl | rfl | rfl
      all_goals exact absurd hb (by decide)
    · rintro rfl
      exact absurd hb (by decide)
  exact ⟨h.1, fun b hb => hbase64 b (h.2.2 b hb)⟩

/-- The usual request: the client spells the name like the server, and no word in front of the
header starts with it. -/
theorem usual_keyLocated {request : HttpRequest} {before after : List HttpHeader}
    {header : HttpHeader} (hheaders : request.headers = before ++ header :: after)
    (hname : header.name = secWebSocketKey) (hvalue : IsKeyValue header.value)
    (hone : request.keyHeaders = [header])
    (hbefore : ∀ tok ∈ Lib.words delimiter request.target ++ before.flatMap HttpHeader.words,
      ¬ secWebSocketKey <+: tok) : KeyLocated request := by
  refine ⟨?_, ?_⟩
  · intro header' hone' _
    rw [hone] at hone'
    obtain rfl := (List.cons.inj hone').1
    refine ⟨Lib.words delimiter request.target ++ httpVersion :: before.flatMap HttpHeader.words,
      secWebSocketKey, after.flatMap HttpHeader.words, ?_, List.prefix_rfl, ?_⟩
    · have hwords : header.words = [secWebSocketKey, header.value] := by
        unfold HttpHeader.words
        rw [hname, hvalue.token.words_eq]
      unfold HttpRequest.words
      rw [hheaders, List.flatMap_append, List.flatMap_cons, hwords]
      simp
    · intro tok htok
      rcases List.mem_append.mp htok with htok | htok
      · exact hbefore tok (List.mem_append_left _ htok)
      · rcases List.mem_cons.mp htok with rfl | htok
        · decide
        · exact hbefore tok (List.mem_append_right _ htok)
  · intro hnone
    rw [hone] at hnone
    cases hnone

/-- **Key extraction, exactly.**  For every request that is shorter than the buffer, the lookup
finds the key that HTTP gives it if and only if that key is located by the words of the
request. -/
theorem wsCheckHttpHeaderForSecKey_findsKey_iff (request : HttpRequest)
    (hsize : request.text.length < rbufferSize) : FindsKey request ↔ KeyLocated request :=
  findsKey_iff hsize

/-- The request of a client that spells the name of the key as `name`. -/
def requestWith (name : List UInt8) (hname : IsToken name) : HttpRequest where
  method := ascii "GET"
  target := ascii "/"
  headers :=
    [⟨ascii "Host", ascii "localhost:8090", by decide, by decide⟩,
      ⟨name, ascii "dGhlIHNhbXBsZSBub25jZQ==", hname, by decide⟩]
  method_token := by decide
  target_inLine := by decide

/-- The spelling of the standard. -/
theorem findsKey_usual_spelling : FindsKey (requestWith secWebSocketKey (by decide)) := by
  have hheaders : (requestWith secWebSocketKey (by decide)).headers = [_] ++ _ :: [] := rfl
  refine (wsCheckHttpHeaderForSecKey_findsKey_iff _ (by decide +kernel)).mpr ?_
  exact usual_keyLocated hheaders rfl (by decide) rfl (by decide +kernel)

/-- A client that spells the name in small letters has no key. -/
theorem small_letters_not_found :
    ¬ FindsKey (requestWith (ascii "sec-websocket-key") (by decide)) := by
  rw [findsKey_iff (by decide +kernel)]
  intro h
  have hthen := h.present ⟨ascii "sec-websocket-key", ascii "dGhlIHNhbXBsZSBub25jZQ==",
    by decide, by decide⟩ rfl (by decide)
  revert hthen
  decide +kernel

end NoGround
