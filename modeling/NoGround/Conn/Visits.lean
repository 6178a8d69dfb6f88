/-
  Conn/Visits.lean --- what the two loops make of the entries, with steady callbacks.

  Steady callbacks return, ask for no retry, and leave a client its address and its status.
  Then a round writes to its own entry only: it keeps the entry's descriptors and address,
  and the entry is dead afterwards exactly if the round says that the client must go
  (`Visited`).  A loop over all entries does this to each of them.
-/
import NoGround.Conn.Rounds
import NoGround.Conn.Sweep

set_option autoImplicit false

namespace NoGround

open NoGround.Lib

variable {ω ε : Type}

/-! ## Steady callbacks -/

/-- The callback returns, asks for no retry, and changes nothing in the record but
`last_updated` and `rbuffer`. -/
def Callback.Steady (f : Callback ω ε) : Prop :=
  ∀ s c w, ∃ status c' w' out, f s c w = ⟨.ok (status, c'), w', out⟩ ∧ status ≠ .retry ∧
    c'.addr = c.addr ∧ c'.status = c.status

structure Callbacks.Steady (cb : Callbacks ω ε) : Prop where
  handler : ∀ kind {f}, cb.handler kind = some f → Callback.Steady f
  ondisconnect : ∀ {f}, cb.ondisconnect = some f → ∀ s c w, ∃ w' out, f s c w = ⟨.ok (), w', out⟩

section Steady

variable {f : Callback ω ε} {s : Server} {c c' : Client} {w w' : ω} {out : List ε}

theorem Callback.Steady.not_error (h : Callback.Steady f) {e : Halt}
    (hrun : f s c w = ⟨.error e, w', out⟩) : False := by
  obtain ⟨_, _, _, _, hok, -⟩ := h s c w
  rw [hrun] at hok
  cases hok

theorem Callback.Steady.keeps (h : Callback.Steady f) {status : ConnStatus}
    (hrun : f s c w = ⟨.ok (status, c'), w', out⟩) :
    status ≠ .retry ∧ c'.addr = c.addr ∧ c'.status = c.status := by
  obtain ⟨_, _, _, _, hok, hkeeps⟩ := h s c w
  rw [hrun] at hok
  cases hok
  exact hkeeps

theorem Callbacks.Steady.not_reportHalts {cb : Callbacks ω ε} (h : cb.Steady) {e : Halt} :
    ¬ cb.ReportHalts e := by
  rintro ⟨f, s, c, w, w', out, hf, hrun⟩
  obtain ⟨_, _, hok⟩ := h.ondisconnect hf s c w
  rw [hrun] at hok
  cases hok

end Steady

/-! ## Writing to an entry -/

/-- What stays of an entry: both descriptors, and the address. -/
def entryKey (entry : PollFd × Client) : Int × Int × SockAddr :=
  (entry.1.fd, entry.2.fd, entry.2.addr)

section Writes

variable {s : Server} {k : Nat} {pfd : PollFd} {c : Client}

/-- An entry is an index into both tables. -/
theorem getElem?_of_entries (h : s.entries[k]? = some (pfd, c)) :
    s.poll.items[k + 1]? = some pfd ∧ s.clients.items[k]? = some c := by
  rw [Server.entries, List.getElem?_zip_eq_some, List.getElem?_tail] at h
  exact h

theorem entries_setClient (hs : InSync s) (h : s.entries[k]? = some (pfd, c)) (c' : Client) :
    (s.setClient k c').entries = s.entries.set k (pfd, c') := by
  have htail : s.poll.items.tail[k]? = some pfd := by
    rw [List.getElem?_tail]
    exact (getElem?_of_entries h).1
  obtain ⟨hlt, hget⟩ := List.getElem?_eq_some_iff.mp htail
  refine entries_of_maps ?_ ?_
  · rw [List.map_set, hs.map_fst_entries]
    show s.poll.items.tail = s.poll.items.tail.set k pfd
    rw [← hget, List.set_getElem_self]
  · rw [List.map_set, hs.map_snd_entries]
    rfl

theorem entries_markDeleted (hs : InSync s) (h : s.entries[k]? = some (pfd, c)) :
    (s.markDeleted (k + 1)).entries = s.entries.set k ({ pfd with events := 0#16 }, c) := by
  obtain ⟨hpfd, hc⟩ := getElem?_of_entries h
  obtain ⟨hlt, hget⟩ := List.getElem?_eq_some_iff.mp hc
  refine entries_of_maps ?_ ?_
  · rw [List.map_set, hs.map_fst_entries]
    refine List.ext_getElem? fun i => ?_
    show (s.poll.items.mapIdx _).tail[i]? = _
    rw [List.getElem?_tail, List.getElem?_mapIdx, List.getElem?_set, List.length_tail,
      List.getElem?_tail]
    obtain ⟨hroom, -⟩ := List.getElem?_eq_some_iff.mp hpfd
    rcases Nat.lt_trichotomy i k with hi | rfl | hi
    · rw [if_neg (by omega)]
      cases s.poll.items[i + 1]? with
      | none => rfl
      | some p => rw [Option.map_some, if_neg (by omega)]
    · rw [if_pos rfl, if_pos (by omega), hpfd, Option.map_some, if_pos rfl]
    · rw [if_neg (by omega)]
      cases s.poll.items[i + 1]? with
      | none => rfl
      | some p => rw [Option.map_some, if_neg (by omega)]
  · rw [List.map_set, hs.map_snd_entries]
    show s.clients.items = s.clients.items.set k c
    rw [← hget, List.set_getElem_self]

theorem InSync.markDeleted (hs : InSync s) (index : Nat) : InSync (s.markDeleted index) where
  fds := by
    refine (map_fd_mapIdx ?_).trans hs.fds
    intro i p
    split
    · rfl
    · rfl
  cap := hs.cap

/-- A registration adds an entry. -/
theorem entries_register (hs : InSync s) (c : Client) (hroom : s.hasRoom = true) :
    (s.register c).entries = s.entries ++ [(⟨c.fd, POLLIN, 0#16⟩, c)] := by
  obtain ⟨-, hpoll⟩ : s.clients.len < s.clients.cap ∧ s.poll.len < s.poll.cap := by
    simpa [Server.hasRoom] using hroom
  obtain ⟨poll', hpush, hitems, -⟩ :=
    Table.push_of_lt (a := (⟨c.fd, POLLIN, 0#16⟩ : PollFd)) hpoll
  have hlen : s.poll.items ≠ [] := by
    intro hnil
    have h := hs.poll_len
    unfold Table.len at h
    rw [hnil] at h
    cases h
  have hregister : (s.register c).poll.items = s.poll.items ++ [⟨c.fd, POLLIN, 0#16⟩] := by
    rw [← hitems]
    unfold Server.register connPushToPoll
    rw [hpush]
  unfold Server.entries
  rw [hregister, (hs.register_of_room c hroom).2, List.tail_append_of_ne_nil hlen,
    List.zip_append hs.length_tail]
  rfl

/-- Mark the entry of the poll table, if `gone`. -/
def PollFd.markIf (pfd : PollFd) (gone : Prop) [Decidable gone] : PollFd :=
  if gone then { pfd with events := 0#16 } else pfd

theorem dead_markIf {gone : Prop} [Decidable gone] :
    Dead (pfd.markIf gone, c) ↔ gone ∨ Dead (pfd, c) := by
  unfold PollFd.markIf
  split
  · rename_i hgone
    exact ⟨fun _ => .inl hgone, fun _ => .inl rfl⟩
  · rename_i hstay
    exact ⟨.inr, fun h => h.resolve_left hstay⟩

/-- Writing the record of an entry, and perhaps marking it, writes the entry. -/
theorem entries_write (hs : InSync s) (h : s.entries[k]? = some (pfd, c)) {c' : Client}
    (hfd : c'.fd = c.fd) (gone : Prop) [Decidable gone] :
    InSync ((s.setClient k c').markIf (k + 1) gone) ∧
      ((s.setClient k c').markIf (k + 1) gone).entries =
        s.entries.set k (pfd.markIf gone, c') := by
  have hset := entries_setClient hs h c'
  have hs₁ := hs.setClient (getElem?_of_entries h).2 hfd
  obtain ⟨hlt, -⟩ := List.getElem?_eq_some_iff.mp h
  have h₁ : (s.setClient k c').entries[k]? = some (pfd, c') := by
    rw [hset, List.getElem?_set, if_pos rfl, if_pos hlt]
  unfold Server.markIf PollFd.markIf
  split
  · refine ⟨hs₁.markDeleted _, ?_⟩
    rw [entries_markDeleted hs₁ h₁, hset, List.set_set]
  · exact ⟨hs₁, hset⟩

end Writes

/-! ## Visits -/

/-- The entry before and after its round. -/
structure Visited (gone : Prop) (entry entry' : PollFd × Client) : Prop where
  key : entryKey entry' = entryKey entry
  dead : Dead entry' ↔ gone

/-- A round visits entry `k`, and no other. -/
structure Visits (gone : Prop) (k : Nat) (entry : PollFd × Client) (s s' : Server) : Prop where
  inSync : InSync s'
  entries : ∃ entry', s'.entries = s.entries.set k entry' ∧ Visited gone entry entry'

/-- The entry is not dead, and its client does not wait for a retry. -/
def Live (entry : PollFd × Client) : Prop := ¬ Dead entry ∧ entry.2.status ≠ .retry

theorem Live.status {pfd : PollFd} {c : Client} (h : Live (pfd, c)) : c.status = .keepAlive := by
  obtain ⟨hdead, hretry⟩ := h
  cases hstatus : c.status with
  | kill => exact absurd (.inr hstatus) hdead
  | keepAlive => rfl
  | retry => exact absurd hstatus hretry

/-- A callback of this kind answered `CONN_KILL`. -/
def AnswersKill (kind : CallbackKind) (t : List (ConnEvent ε)) : Prop :=
  ∃ s c out, .callback kind s c (some .kill) out ∈ t

theorem not_answersKill_nil (kind : CallbackKind) :
    ¬ AnswersKill kind ([] : List (ConnEvent ε)) := by
  rintro ⟨_, _, _, hmem⟩
  cases hmem

theorem answersKill_singleton {kind : CallbackKind} {s : Server} {c : Client}
    {status : ConnStatus} {out : List ε} :
    AnswersKill kind [.callback kind s c (some status) out] ↔ status = .kill := by
  simp [AnswersKill, eq_comm]

theorem Visits.of_iff {gone gone' : Prop} {k : Nat} {entry : PollFd × Client} {s s' : Server}
    (h : Visits gone k entry s s') (hiff : gone ↔ gone') : Visits gone' k entry s s' := by
  rwa [propext hiff] at h

section Visiting

variable {s : Server} {k : Nat} {pfd : PollFd} {c : Client}

/-- A round that writes the record and perhaps marks the entry. -/
theorem visits_write (hs : InSync s) (hentry : s.entries[k]? = some (pfd, c))
    (hlive : ¬ Dead (pfd, c)) (c' : Client) (hfd : c'.fd = c.fd) (haddr : c'.addr = c.addr)
    (gone : Prop) [Decidable gone] (hkill : c'.status = .kill → gone) :
    Visits gone k (pfd, c) s ((s.setClient k c').markIf (k + 1) gone) := by
  obtain ⟨hs', hentries⟩ := entries_write hs hentry hfd gone
  refine ⟨hs', _, hentries, ⟨?_, ?_⟩⟩
  · have hpfd : (pfd.markIf gone).fd = pfd.fd := by
      unfold PollFd.markIf
      split <;> rfl
    simp [entryKey, hfd, haddr, hpfd]
  · rw [dead_markIf]
    refine ⟨?_, .inl⟩
    rintro (hgone | hevents | hstatus)
    · exact hgone
    · exact absurd (.inl hevents) hlive
    · exact hkill hstatus

/-- A round that only marks the entry. -/
theorem visits_mark (hs : InSync s) (hentry : s.entries[k]? = some (pfd, c))
    (hlive : ¬ Dead (pfd, c)) : Visits True k (pfd, c) s (s.markDeleted (k + 1)) := by
  have h := visits_write hs hentry hlive c rfl rfl True fun _ => trivial
  rwa [setClient_self (getElem?_of_entries hentry).2, Server.markIf, if_pos trivial] at h

/-- A round that only writes the record. -/
theorem visits_touch (hs : InSync s) (hentry : s.entries[k]? = some (pfd, c))
    (hlive : ¬ Dead (pfd, c)) (c' : Client) (hfd : c'.fd = c.fd) (haddr : c'.addr = c.addr)
    (hstatus : c'.status ≠ .kill) : Visits False k (pfd, c) s (s.setClient k c') := by
  have h := visits_write hs hentry hlive c' hfd haddr False hstatus
  rwa [Server.markIf, if_neg not_false] at h

/-- A round that leaves the tables as they are. -/
theorem visits_none (hs : InSync s) (hentry : s.entries[k]? = some (pfd, c))
    (hlive : Live (pfd, c)) : Visits False k (pfd, c) s s := by
  have hstatus : c.status ≠ .kill := by
    rw [hlive.status]
    decide
  have h := visits_touch hs hentry hlive.1 c rfl rfl hstatus
  rwa [setClient_self (getElem?_of_entries hentry).2] at h

end Visiting

/-! ## Rounds with steady callbacks -/

section Rounds

variable (sys : Sys ω) {cb : Callbacks ω ε} {m : Machine ω} {k : Nat} {pfd : PollFd} {c : Client}

/-- A round of the event loop finds that its client must go. -/
def EventGone (cb : Callbacks ω ε) (k : Nat) (pfd : PollFd) (m : Machine ω) : Prop :=
  peekCount sys pfd.fd m = 0 ∨ pfd.failed = true ∨
    AnswersKill .onmessage (eventRound sys cb (k + 1) m).out

theorem Delivered.visits (hcb : cb.Steady) {s s' : Server} {r : Except Halt Unit}
    {u : List (ConnEvent ε)} (h : Delivered cb s (k + 1) c r s' u) (hs : InSync s)
    (hentry : s.entries[k]? = some (pfd, c)) (hlive : Live (pfd, c)) :
    r = .ok () ∧ Visits (AnswersKill .onmessage u) k (pfd, c) s s' := by
  cases h with
  | unheard _ =>
    exact ⟨rfl, (visits_none hs hentry hlive).of_iff
      (iff_of_false not_false (not_answersKill_nil _))⟩
  | halted now hf hrun =>
    have hsteady : Callback.Steady _ := hcb.handler .onmessage hf
    exact absurd hrun fun hrun => hsteady.not_error hrun
  | @heard f status c' w w' out now hf hrun =>
    have hsteady : Callback.Steady f := hcb.handler .onmessage hf
    obtain ⟨-, haddr, hstatus⟩ := hsteady.keeps hrun
    have hkill : ({ c' with fd := c.fd } : Client).status = .kill → status = .kill := by
      intro hk
      rw [show ({ c' with fd := c.fd } : Client).status = c'.status from rfl, hstatus] at hk
      exact absurd (.inr hk) hlive.1
    refine ⟨rfl, ?_⟩
    exact (visits_write hs hentry hlive.1 { c' with fd := c.fd } rfl haddr _ hkill).of_iff
      answersKill_singleton.symm

theorem eventRound_visits (hcb : cb.Steady) (hs : InSync m.server)
    (hentry : m.server.entries[k]? = some (pfd, c)) (hlive : Live (pfd, c)) :
    (eventRound sys cb (k + 1) m).outcome = .ok (k + 2) ∧
      Visits (EventGone sys cb k pfd m) k (pfd, c) m.server
        (eventRound sys cb (k + 1) m).state.server := by
  obtain ⟨hpfd, hc⟩ := getElem?_of_entries hentry
  obtain ⟨r, hhandled, hout⟩ := eventRound_handled sys cb hpfd hc
  unfold EventGone
  rw [hout]
  generalize (eventRound sys cb (k + 1) m).state.server = s' at hhandled ⊢
  generalize (eventRound sys cb (k + 1) m).out = u at hhandled ⊢
  cases hhandled with
  | removed hremoved =>
    have hgone := hremoved.imp_right
      (.inl : _ → _ ∨ AnswersKill .onmessage ([] : List (ConnEvent ε)))
    exact ⟨rfl, (visits_mark hs hentry hlive.1).of_iff (iff_of_true trivial hgone)⟩
  | idle now hpeek hokay hidle =>
    have hstay : ¬ (peekCount sys pfd.fd m = 0 ∨ pfd.failed = true ∨
        AnswersKill .onmessage ([] : List (ConnEvent ε))) := by
      rw [hokay]
      simp [hpeek, not_answersKill_nil]
    have hstatus : (c.stamped now).status ≠ .kill := by
      rw [show (c.stamped now).status = c.status from rfl, hlive.status]
      decide
    exact ⟨rfl, (visits_touch hs hentry hlive.1 (c.stamped now) rfl rfl hstatus).of_iff
      (iff_of_false not_false hstay)⟩
  | served hread _ hmessage =>
    obtain ⟨hpeek, hokay, -⟩ := hread
    obtain ⟨rfl, hvisits⟩ := hmessage.visits hcb hs hentry hlive
    refine ⟨rfl, hvisits.of_iff ?_⟩
    rw [hokay]
    simp [hpeek.ne']
  | stopped _ hretry _ => exact absurd hretry hlive.2
  | retried _ hretry _ _ => exact absurd hretry hlive.2

theorem pingRound_visits (hcb : cb.Steady) {f : Callback ω ε} (hf : cb.onping = some f)
    (hs : InSync m.server) (hentry : m.server.entries[k]? = some (pfd, c))
    (hlive : Live (pfd, c)) :
    (pingRound sys f (k + 1) m).outcome = .ok (k + 2) ∧
      Visits (AnswersKill .onping (pingRound sys f (k + 1) m).out) k (pfd, c) m.server
        (pingRound sys f (k + 1) m).state.server := by
  obtain ⟨hpfd, hc⟩ := getElem?_of_entries hentry
  obtain ⟨r, hhandled, hout⟩ := pingRound_handled sys f (k + 1) hc
  have hsteady : Callback.Steady f := hcb.handler .onping hf
  rw [hout]
  generalize (pingRound sys f (k + 1) m).state.server = s' at hhandled ⊢
  generalize (pingRound sys f (k + 1) m).out = u at hhandled ⊢
  cases hhandled with
  | fresh =>
    exact ⟨rfl, (visits_none hs hentry hlive).of_iff
      (iff_of_false not_false (not_answersKill_nil _))⟩
  | stopped hrun => exact absurd hrun fun hrun => hsteady.not_error hrun
  | @pinged status c' w w' out now hrun =>
    obtain ⟨-, haddr, -⟩ := hsteady.keeps hrun
    exact ⟨rfl, (visits_write hs hentry hlive.1
      { c' with fd := c.fd, status := status, last_updated := now } rfl haddr _
      id).of_iff answersKill_singleton.symm⟩

end Rounds

/-! ## Loops -/

/-- Every entry was visited. -/
structure AllVisited (gone : Nat → PollFd × Client → Prop) (s s' : Server) : Prop where
  inSync : InSync s'
  length : s'.entries.length = s.entries.length
  visited : ∀ {k entry}, s.entries[k]? = some entry →
    ∃ entry', s'.entries[k]? = some entry' ∧ Visited (gone k entry) entry entry'

section Loops

variable (round : Nat → Conn ω ε Nat) (gone : Nat → PollFd × Client → Prop) {m : Machine ω}

/-- The rounds before `n` have visited the entries before `n`. -/
theorem rounds_visit (hs : InSync m.server)
    (hround : ∀ {k entry}, InSync (Proc.rounds round 1 m k).server →
      (Proc.rounds round 1 m k).server.entries[k]? = some entry →
      m.server.entries[k]? = some entry →
      Visits (gone k entry) k entry (Proc.rounds round 1 m k).server
        (Proc.rounds round 1 m (k + 1)).server) :
    ∀ n ≤ m.server.entries.length, InSync (Proc.rounds round 1 m n).server ∧
      (Proc.rounds round 1 m n).server.entries.length = m.server.entries.length ∧
      (∀ {k entry}, k < n → m.server.entries[k]? = some entry →
        ∃ entry', (Proc.rounds round 1 m n).server.entries[k]? = some entry' ∧
          Visited (gone k entry) entry entry') ∧
      ∀ k ≥ n, (Proc.rounds round 1 m n).server.entries[k]? = m.server.entries[k]? := by
  intro n
  induction n with
  | zero =>
    intro _
    exact ⟨hs, rfl, fun hk => absurd hk (Nat.not_lt_zero _), fun _ _ => rfl⟩
  | succ n ih =>
    intro hn
    obtain ⟨hs', hlen, hbefore, hbehind⟩ := ih (by omega)
    have hentry : m.server.entries[n]? = some (m.server.entries[n]) := List.getElem?_eq_getElem hn
    obtain ⟨hs'', entry', hset, hvisited⟩ :=
      hround hs' ((hbehind n (Nat.le_refl n)).trans hentry) hentry
    have hget : ∀ k, (Proc.rounds round 1 m (n + 1)).server.entries[k]? =
        if n = k then some entry' else (Proc.rounds round 1 m n).server.entries[k]? := by
      intro k
      rw [hset, List.getElem?_set, if_pos (by omega : n < _)]
    refine ⟨hs'', by rw [hset, List.length_set, hlen], ?_, ?_⟩
    · intro k entry hk hmem
      rcases Nat.lt_succ_iff_lt_or_eq.mp hk with hlt | rfl
      · rw [hget, if_neg (by omega)]
        exact hbefore hlt hmem
      · rw [hget, if_pos rfl]
        obtain rfl := Option.some.inj (hentry.symm.trans hmem)
        exact ⟨entry', rfl, hvisited⟩
    · intro k hk
      rw [hget, if_neg (by omega)]
      exact hbehind k (by omega)

/-- A loop whose rounds visit their entries visits all of them. -/
theorem loop_visits (hs : InSync m.server) (hlive : ∀ entry ∈ m.server.entries, Live entry)
    (hround : ∀ {k entry}, InSync (Proc.rounds round 1 m k).server →
      (Proc.rounds round 1 m k).server.entries[k]? = some entry → Live entry →
      (round (k + 1) (Proc.rounds round 1 m k)).outcome = .ok (k + 2) ∧
      Visits (gone k entry) k entry (Proc.rounds round 1 m k).server
        (round (k + 1) (Proc.rounds round 1 m k)).state.server) :
    ∃ m' out, Proc.loop .outOfFuel indexInPoll round m.server.poll.cap 1 m = ⟨.ok (), m', out⟩ ∧
      AllVisited gone m.server m'.server := by
  have hstep : ∀ k, Proc.rounds round 1 m (k + 1) =
      (round (k + 1) (Proc.rounds round 1 m k)).state := by
    intro k
    rw [Proc.rounds, Nat.add_comm]
  have hvisits : ∀ {k entry}, InSync (Proc.rounds round 1 m k).server →
      (Proc.rounds round 1 m k).server.entries[k]? = some entry →
      m.server.entries[k]? = some entry →
      Visits (gone k entry) k entry (Proc.rounds round 1 m k).server
        (Proc.rounds round 1 m (k + 1)).server := by
    intro k entry hs' hentry hmem
    rw [hstep]
    exact (hround hs' hentry (hlive entry (List.mem_of_getElem? hmem))).2
  have hinv := rounds_visit round gone hs hvisits
  -- The length of the poll table in front of each round.
  have hlen : ∀ n ≤ m.server.entries.length,
      (Proc.rounds round 1 m n).server.poll.len = m.server.entries.length + 1 := by
    intro n hn
    obtain ⟨hs', hlength, -, -⟩ := hinv n hn
    rw [hs'.length_entries, hlength]
  have hfuel : m.server.entries.length ≤ m.server.poll.cap := by
    have hcap := m.server.poll.len_le_cap
    have hpoll := hs.length_entries
    unfold Table.len at hpoll
    omega
  have hrounds : ∀ k < m.server.entries.length,
      indexInPoll (1 + k) (Proc.rounds round 1 m k) = true ∧
        (round (1 + k) (Proc.rounds round 1 m k)).outcome = .ok (1 + k + 1) := by
    intro k hk
    have hentry : m.server.entries[k]? = some (m.server.entries[k]) := List.getElem?_eq_getElem hk
    obtain ⟨hs', -, -, hbehind⟩ := hinv k hk.le
    refine ⟨?_, ?_⟩
    · have hpoll := hlen k hk.le
      simp only [indexInPoll, decide_eq_true_eq]
      omega
    · rw [Nat.add_comm 1 k]
      exact (hround hs' ((hbehind k (Nat.le_refl k)).trans hentry)
        (hlive _ (List.getElem_mem hk))).1
  have hend : indexInPoll (1 + m.server.entries.length)
      (Proc.rounds round 1 m m.server.entries.length) = false := by
    have hpoll := hlen _ (Nat.le_refl _)
    simp only [indexInPoll, decide_eq_false_iff_not]
    omega
  obtain ⟨out, hloop⟩ := Proc.loop_rounds 1 m.server.poll.cap m hfuel hrounds hend
  obtain ⟨hs', hlength, hbefore, -⟩ := hinv _ (Nat.le_refl _)
  refine ⟨_, out, hloop, hs', hlength, ?_⟩
  intro k entry hmem
  obtain ⟨hlt, -⟩ := List.getElem?_eq_some_iff.mp hmem
  exact hbefore hlt hmem

end Loops

end NoGround
