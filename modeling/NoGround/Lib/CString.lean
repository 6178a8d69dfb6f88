/-
  Lib/CString.lean --- terminated strings in an array, and what the C functions on them
  read.

  A string ends at its terminator, not with its array, and `strlen`, `strncmp` and
  `strtok` go on until they find it.  Each is `none` here if it reads behind the end of
  the array.

  TOKENS.  `tokens` says what `strtok` finds, called again and again: the maximal runs of
  characters that are neither delimiters nor the terminator, as far as they end inside the
  array.  `strtok_nil` and `strtok_cons` are the rules by which a scan is followed.
-/
import Mathlib.Data.List.Basic

set_option autoImplicit false

namespace NoGround.Lib

section CString

variable {α : Type} [DecidableEq α] (nul : α) (delim : α → Bool)

/-! ## The functions -/

/-- Walk on while `p` holds, from the index `i`: the index of the first character where it
does not. -/
def span (p : α → Bool) : List α → Nat → Option Nat
  | [], _ => none
  | b :: bs, i => if p b then span p bs (i + 1) else some i

/-- A character of a token. -/
def tokenChar (b : α) : Bool := b ≠ nul && !delim b

/-- `strlen(buffer + s)`. -/
def strlen (buffer : List α) (s : Nat) : Option Nat :=
  (span (· ≠ nul) (buffer.drop s) s).map (· - s)

/-- `strncmp(name, string, strlen(name)) == 0`. -/
def strncmpEq : List α → List α → Option Bool
  | [], _ => some true
  | _ :: _, [] => none
  | c :: cs, b :: bs => if b = c then strncmpEq cs bs else some false

/-- `strtok(buffer + s, delim)`: where the token starts, the array with the terminator
behind it, and where the next scan starts. -/
def strtok (buffer : List α) (s : Nat) : Option (Option Nat × List α × Nat) :=
  match span delim (buffer.drop s) s with
  | none => none
  | some p =>
      if buffer[p]? = some nul then some (none, buffer, p)
      else
        match span (tokenChar nul delim) (buffer.drop p) p with
        | none => none
        | some e =>
            if buffer[e]? = some nul then some (some p, buffer, e)
            else some (some p, buffer.set e nul, e + 1)

/-- `memcpy(dest, source, length of source)`. -/
def memcpy (dest source : List α) : Option (List α) :=
  if source.length ≤ dest.length then some (source ++ dest.drop source.length) else none

/-! ## Tokens -/

/-- The tokens that end inside the array, up to the terminator; `cur` is what was read of
the first. -/
def tokensFrom : List α → List α → List (List α)
  | _, [] => []
  | cur, b :: bs =>
      if tokenChar nul delim b then tokensFrom (cur ++ [b]) bs
      else if b = nul then (if cur = [] then [] else [cur])
      else if cur = [] then tokensFrom [] bs
      else cur :: tokensFrom [] bs

def tokens (l : List α) : List (List α) := tokensFrom nul delim [] l

theorem length_tokensFrom_le (l : List α) (cur : List α) :
    (tokensFrom nul delim cur l).length ≤ l.length := by
  induction l generalizing cur with
  | nil => simp [tokensFrom]
  | cons b bs ih =>
    have h₁ := ih (cur ++ [b])
    have h₂ := ih []
    unfold tokensFrom
    simp only [List.length_cons]
    split
    · omega
    · split
      · split <;> simp
      · split
        · omega
        · rw [List.length_cons]
          omega

theorem length_tokens_le (l : List α) : (tokens nul delim l).length ≤ l.length :=
  length_tokensFrom_le nul delim l []

/-- Characters of a token extend it. -/
theorem tokensFrom_append {tok : List α} (htok : ∀ b ∈ tok, tokenChar nul delim b = true)
    (cur rest : List α) :
    tokensFrom nul delim cur (tok ++ rest) = tokensFrom nul delim (cur ++ tok) rest := by
  induction tok generalizing cur with
  | nil => simp
  | cons b tok ih =>
    obtain ⟨hb, htok⟩ := List.forall_mem_cons.mp htok
    rw [List.cons_append, tokensFrom, if_pos hb, ih htok]
    simp

/-- No token has a terminator in it. -/
theorem nul_not_mem_of_mem_tokensFrom {l cur tok : List α} (hcur : nul ∉ cur)
    (h : tok ∈ tokensFrom nul delim cur l) : nul ∉ tok := by
  induction l generalizing cur with
  | nil => cases h
  | cons b bs ih =>
    have hnil : nul ∉ ([] : List α) := List.not_mem_nil
    unfold tokensFrom at h
    split at h
    · rename_i hchar
      refine ih ?_ h
      simp only [tokenChar, Bool.and_eq_true, decide_eq_true_eq] at hchar
      rw [List.mem_append, List.mem_singleton, not_or]
      exact ⟨hcur, Ne.symm hchar.1⟩
    · split at h
      · split at h
        · cases h
        · rw [List.mem_singleton.mp h]
          exact hcur
      · split at h
        · exact ih hnil h
        · rcases List.mem_cons.mp h with rfl | h
          · exact hcur
          · exact ih hnil h

theorem nul_not_mem_of_mem_tokens {l tok : List α} (h : tok ∈ tokens nul delim l) : nul ∉ tok :=
  nul_not_mem_of_mem_tokensFrom nul delim List.not_mem_nil h

/-- The words of a text without a terminator: what stands between its delimiters. -/
def words (l : List α) : List (List α) := (l.splitOnP delim).filter fun w => !w.isEmpty

omit [DecidableEq α] in
theorem words_of_no_delim {w : List α} (hw : ∀ b ∈ w, delim b = false) (hne : w ≠ []) :
    words delim w = [w] := by
  unfold words
  rw [List.splitOnP_eq_singleton hw]
  simp [hne]

omit [DecidableEq α] in
theorem words_append_cons (l : List α) {b : α} (hb : delim b = true) (l' : List α) :
    words delim (l ++ b :: l') = words delim l ++ words delim l' := by
  unfold words
  rw [List.splitOnP_append_cons l l' hb, List.filter_append]

section Delimiters

variable {nul delim} (hnul : delim nul = false)

include hnul

omit [DecidableEq α] in
theorem ne_nul_of_delim {b : α} (h : delim b = true) : b ≠ nul := by
  rintro rfl
  rw [hnul] at h
  cases h

/-- Delimiters in front of a token are skipped. -/
theorem tokens_gap {gap : List α} (hgap : ∀ b ∈ gap, delim b = true) (rest : List α) :
    tokens nul delim (gap ++ rest) = tokens nul delim rest := by
  induction gap with
  | nil => rfl
  | cons b gap ih =>
    obtain ⟨hb, hgap⟩ := List.forall_mem_cons.mp hgap
    have hchar : tokenChar nul delim b ≠ true := by simp [tokenChar, hb]
    unfold tokens at ih ⊢
    rw [List.cons_append, tokensFrom, if_neg hchar, if_neg (ne_nul_of_delim hnul hb), if_pos rfl,
      ih hgap]

theorem tokensFrom_line {l : List α} (hl : nul ∉ l) {b : α} (hb : delim b = true)
    (cur rest : List α) :
    tokensFrom nul delim cur (l ++ b :: rest) =
      ((l.splitOnP delim).modifyHead (cur ++ ·)).filter (fun w => !w.isEmpty) ++
        tokens nul delim rest := by
  have hend : ∀ c : α, delim c = true → ∀ (cur rest : List α),
      tokensFrom nul delim cur (c :: rest) =
        [cur].filter (fun w => !w.isEmpty) ++ tokens nul delim rest := by
    intro c hc cur rest
    have hchar : tokenChar nul delim c ≠ true := by simp [tokenChar, hc]
    rw [tokensFrom, if_neg hchar, if_neg (ne_nul_of_delim hnul hc)]
    cases cur with
    | nil => rfl
    | cons d cur => rfl
  induction l generalizing cur with
  | nil =>
    rw [List.splitOnP_nil, List.modifyHead_cons, List.append_nil, List.nil_append]
    exact hend b hb cur rest
  | cons c l ih =>
    obtain ⟨hc, hl⟩ := not_or.mp (mt List.mem_cons.mpr hl)
    rw [List.splitOnP_cons_eq_if_modifyHead, List.cons_append]
    cases hdelim : delim c with
    | true =>
      have hsame : (l.splitOnP delim).modifyHead ([] ++ ·) = l.splitOnP delim := by
        cases l.splitOnP delim <;> rfl
      have hrest := ih hl []
      rw [hsame] at hrest
      rw [hend c hdelim, if_pos rfl, List.modifyHead_cons, List.append_nil, tokens, hrest,
        ← List.append_assoc, ← List.filter_append, List.singleton_append]
    | false =>
      have hchar : tokenChar nul delim c = true := by simp [tokenChar, hdelim, Ne.symm hc]
      rw [tokensFrom, if_pos hchar, ih hl, if_neg (by simp), List.modifyHead_modifyHead]
      congr 3
      funext w
      simp

/-- The tokens of a text that ends with a delimiter are its words. -/
theorem tokens_line {l : List α} (hl : nul ∉ l) {b : α} (hb : delim b = true) (rest : List α) :
    tokens nul delim (l ++ b :: rest) = words delim l ++ tokens nul delim rest := by
  have hsame : (l.splitOnP delim).modifyHead ([] ++ ·) = l.splitOnP delim := by
    cases l.splitOnP delim <;> rfl
  unfold tokens words
  rw [tokensFrom_line hnul hl hb, hsame]
  rfl

end Delimiters

/-! ## Walking -/

omit [DecidableEq α] in
/-- The character at an index, and what is behind it. -/
theorem of_drop_eq_cons {l rest : List α} {i : Nat} {b : α} (h : l.drop i = b :: rest) :
    l[i]? = some b ∧ l.drop (i + 1) = rest := by
  refine ⟨?_, ?_⟩
  · rw [← List.head?_drop, h]
    rfl
  · rw [← List.drop_drop, h]
    rfl

omit [DecidableEq α] in
/-- A predicate holds all along a list, or up to some place in it. -/
theorem forall_or_split (p : α → Bool) (l : List α) :
    (∀ b ∈ l, p b = true) ∨
      ∃ pre b post, l = pre ++ b :: post ∧ (∀ a ∈ pre, p a = true) ∧ p b = false := by
  induction l with
  | nil => exact .inl (by simp)
  | cons b l ih =>
    by_cases hb : p b = true
    · rcases ih with hall | ⟨pre, c, post, rfl, hpre, hc⟩
      · exact .inl (List.forall_mem_cons.mpr ⟨hb, hall⟩)
      · exact .inr ⟨b :: pre, c, post, rfl, List.forall_mem_cons.mpr ⟨hb, hpre⟩, hc⟩
    · exact .inr ⟨[], b, l, rfl, by simp, by simpa using hb⟩

omit [DecidableEq α] in
theorem span_append {p : α → Bool} {pre : List α} {b : α} {post : List α}
    (hpre : ∀ a ∈ pre, p a = true) (hb : p b = false) (i : Nat) :
    span p (pre ++ b :: post) i = some (i + pre.length) := by
  induction pre generalizing i with
  | nil => simp [span, hb]
  | cons a pre ih =>
    obtain ⟨ha, hpre⟩ := List.forall_mem_cons.mp hpre
    rw [List.cons_append, span, if_pos ha, ih hpre, List.length_cons]
    congr 1
    omega

omit [DecidableEq α] in
theorem span_eq_none {p : α → Bool} {l : List α} (h : ∀ b ∈ l, p b = true) (i : Nat) :
    span p l i = none := by
  induction l generalizing i with
  | nil => rfl
  | cons b l ih =>
    obtain ⟨hb, hl⟩ := List.forall_mem_cons.mp h
    rw [span, if_pos hb, ih hl]

/-! ## What `strlen` and `strncmp` find -/

section Strings

variable {nul} {tok after : List α}

theorem strlen_eq {buffer : List α} {s : Nat} (htok : nul ∉ tok)
    (hdrop : buffer.drop s = tok ++ nul :: after) : strlen nul buffer s = some tok.length := by
  have hne : ∀ b ∈ tok, (decide (b ≠ nul)) = true := by
    intro b hb
    exact decide_eq_true fun h => htok (h ▸ hb)
  unfold strlen
  rw [hdrop, span_append hne (by simp), Option.map_some, Nat.add_sub_cancel_left]

/-- A name without the terminator is looked for inside the string. -/
theorem strncmpEq_eq {name : List α} (hname : nul ∉ name) :
    strncmpEq name (tok ++ nul :: after) = some (decide (name <+: tok)) := by
  induction name generalizing tok with
  | nil => simp [strncmpEq]
  | cons c cs ih =>
    obtain ⟨hc, hcs⟩ := not_or.mp (mt List.mem_cons.mpr hname)
    cases tok with
    | nil => simp [strncmpEq, hc]
    | cons b tok =>
      rw [List.cons_append, strncmpEq]
      by_cases hb : b = c
      · rw [if_pos hb, ih hcs]
        simp [hb]
      · rw [if_neg hb]
        simp [Ne.symm hb]

end Strings

/-! ## What `strtok` finds -/

section Strtok

variable {nul delim} (hnul : delim nul = false)

theorem tokens_nul (l : List α) : tokens nul delim (nul :: l) = [] := by
  unfold tokens
  rw [tokensFrom, if_neg (by simp [tokenChar]), if_pos rfl, if_pos rfl]

/-- A token, and what ends it. -/
theorem tokens_token {tok : List α} (htok : ∀ b ∈ tok, tokenChar nul delim b = true)
    (hne : tok ≠ []) {e : α} (he : tokenChar nul delim e = false) (after : List α) :
    tokens nul delim (tok ++ e :: after) =
      tok :: if e = nul then [] else tokens nul delim after := by
  unfold tokens
  rw [tokensFrom_append nul delim htok, List.nil_append, tokensFrom,
    if_neg (by simp [he]), if_neg hne, if_neg hne]
  split <;> rfl

theorem nul_not_mem_of_tokenChar {l : List α} (h : ∀ b ∈ l, tokenChar nul delim b = true) :
    nul ∉ l := by
  intro hmem
  have hchar := h nul hmem
  simp [tokenChar] at hchar

section Scan

variable {buffer : List α} {s : Nat} {gap : List α} {b : α} {post : List α}

include hnul

omit [DecidableEq α] in
theorem nul_not_mem_of_delim {l : List α} (h : ∀ b ∈ l, delim b = true) : nul ∉ l := by
  intro hmem
  exact ne_nul_of_delim hnul (h nul hmem) rfl

/-- A scan that meets the terminator before a token. -/
theorem strtok_end (hrest : buffer.drop s = gap ++ nul :: post)
    (hgap : ∀ a ∈ gap, delim a = true) :
    strtok nul delim buffer s = some (none, buffer, s + gap.length) := by
  have hdrop : buffer.drop (s + gap.length) = nul :: post := by
    rw [← List.drop_drop, hrest, List.drop_left]
  have hb? := (of_drop_eq_cons hdrop).1
  unfold strtok
  rw [hrest, span_append hgap hnul]
  simp only [hb?, if_true]

omit hnul

/-- A scan that found the start of a token looks for its end. -/
theorem strtok_start {l : List α} (hrest : buffer.drop s = gap ++ l) (hl : l = b :: post)
    (hgap : ∀ a ∈ gap, delim a = true) (hb : tokenChar nul delim b = true) :
    strtok nul delim buffer s =
      match span (tokenChar nul delim) l (s + gap.length) with
      | none => none
      | some e =>
          if buffer[e]? = some nul then some (some (s + gap.length), buffer, e)
          else some (some (s + gap.length), buffer.set e nul, e + 1) := by
  simp only [tokenChar, Bool.and_eq_true, decide_eq_true_eq, Bool.not_eq_true'] at hb
  have hdrop : buffer.drop (s + gap.length) = l := by
    rw [← List.drop_drop, hrest, List.drop_left]
  have hb? := (of_drop_eq_cons (hdrop.trans hl)).1
  have hbne : ¬ some b = some nul := fun h => hb.1 (Option.some.inj h)
  unfold strtok
  rw [hrest, hl, span_append hgap hb.2, ← hl]
  simp only [hb?, if_neg hbne, hdrop]

/-- The token that was found ends with a terminator, which was there or was written. -/
theorem strtok_token {tok : List α} {e : α} {after : List α}
    (hrest : buffer.drop s = gap ++ (tok ++ e :: after)) (hgap : ∀ a ∈ gap, delim a = true)
    (htok : ∀ a ∈ tok, tokenChar nul delim a = true) (hne : tok ≠ [])
    (he : tokenChar nul delim e = false) :
    ∃ p buffer' s', strtok nul delim buffer s = some (some p, buffer', s') ∧
      buffer'.drop p = tok ++ nul :: after ∧
      buffer'.drop s' = if e = nul then nul :: after else after := by
  obtain ⟨b, tok', htok'⟩ := List.exists_cons_of_ne_nil hne
  have hdrop : buffer.drop (s + gap.length) = tok ++ e :: after := by
    rw [← List.drop_drop, hrest, List.drop_left]
  have hend : buffer.drop (s + gap.length + tok.length) = e :: after := by
    rw [← List.drop_drop, hdrop, List.drop_left]
  obtain ⟨he?, hnext⟩ := of_drop_eq_cons hend
  have hstart := strtok_start hrest (by rw [htok']; rfl) hgap
    (htok b (by rw [htok']; exact List.mem_cons_self))
  rw [span_append htok he] at hstart
  simp only [he?] at hstart
  by_cases henul : e = nul
  · rw [if_pos (congrArg some henul)] at hstart
    exact ⟨_, _, _, hstart, by rw [hdrop, henul], by rw [hend, if_pos henul, henul]⟩
  · rw [if_neg fun h => henul (Option.some.inj h)] at hstart
    refine ⟨_, _, _, hstart, ?_, ?_⟩
    · rw [List.drop_set, if_neg (by omega), hdrop, Nat.add_sub_cancel_left]
      simp
    · rw [if_neg henul, List.drop_set_of_lt (Nat.lt_succ_self _)]
      exact hnext

end Scan

include hnul

/-- One call of `strtok`.  Either there is no token any more, and it reads behind the
array unless it meets the terminator; or it returns the next token, ended by a
terminator, and goes on where the other tokens are. -/
theorem strtok_spec (buffer : List α) (s : Nat) :
    (tokens nul delim (buffer.drop s) = [] ∧ nul ∉ buffer.drop s ∧
      strtok nul delim buffer s = none) ∨
    (tokens nul delim (buffer.drop s) = [] ∧ nul ∈ buffer.drop s ∧
      ∃ p, strtok nul delim buffer s = some (none, buffer, p)) ∨
    (∃ tok more p buffer' s' after, tokens nul delim (buffer.drop s) = tok :: more ∧
      strtok nul delim buffer s = some (some p, buffer', s') ∧
      buffer'.drop p = tok ++ nul :: after ∧ nul ∉ tok ∧
      tokens nul delim (buffer'.drop s') = more ∧
      (nul ∈ buffer'.drop s' ↔ nul ∈ buffer.drop s)) := by
  rcases forall_or_split delim (buffer.drop s) with hall | ⟨gap, b, post, hrest, hgap, hb⟩
  · -- Nothing but delimiters.
    refine .inl ⟨?_, nul_not_mem_of_delim hnul hall, ?_⟩
    · rw [← List.append_nil (buffer.drop s), tokens_gap hnul hall]
      rfl
    · unfold strtok
      rw [span_eq_none hall]
  · have hgapNul := nul_not_mem_of_delim hnul hgap
    by_cases hbnul : b = nul
    · -- Delimiters, and then the terminator.
      subst hbnul
      refine .inr (.inl ⟨?_, ?_, _, strtok_end hnul hrest hgap⟩)
      · rw [hrest, tokens_gap hnul hgap, tokens_nul]
      · rw [hrest]
        exact List.mem_append_right _ List.mem_cons_self
    · have hchar : tokenChar nul delim b = true := by simp [tokenChar, hb, hbnul]
      rcases forall_or_split (tokenChar nul delim) (b :: post) with
        hall | ⟨tok, e, after, htail, htok, he⟩
      · -- A token that does not end inside the array.
        refine .inl ⟨?_, ?_, ?_⟩
        · rw [hrest, tokens_gap hnul hgap, ← List.append_nil (b :: post)]
          unfold tokens
          rw [tokensFrom_append nul delim hall]
          rfl
        · rw [hrest, List.mem_append, not_or]
          exact ⟨hgapNul, nul_not_mem_of_tokenChar hall⟩
        · rw [strtok_start hrest rfl hgap hchar, span_eq_none hall]
      · -- A token.
        have hne : tok ≠ [] := by
          rintro rfl
          rw [List.nil_append] at htail
          rw [(List.cons.inj htail).1, he] at hchar
          cases hchar
        rw [htail] at hrest
        obtain ⟨p, buffer', s', hrun, hdrop, hnext⟩ := strtok_token hrest hgap htok hne he
        have htokNul := nul_not_mem_of_tokenChar htok
        refine .inr (.inr ⟨tok, if e = nul then [] else tokens nul delim after, p, buffer', s',
          after, ?_, hrun, hdrop, htokNul, ?_, ?_⟩)
        · rw [hrest, tokens_gap hnul hgap, tokens_token htok hne he]
        · rw [hnext]
          split
          · rw [tokens_nul]
          · rfl
        · rw [hnext, hrest]
          by_cases henul : e = nul
          · simp [henul]
          · simp [henul, Ne.symm henul, hgapNul, htokNul]

end Strtok

end CString

end NoGround.Lib
