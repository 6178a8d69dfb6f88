/-
  Conn/Keepalive.lean --- whether a client whose ping is due is pinged.

  Pings are sent in a call in which `poll` reports nothing, and in no other one.  When it
  reports something, a client with nothing to read is taken to be alive: its `last_updated` is
  set to the time, and its entry stays as it is.  So the events of the listener and of the
  other clients keep a client from being pinged.

  The ping loop is followed with the clock (`Pinging`), the event loop with the answers of
  `recv` (`Leaving`): both invariants are about the machine in front of a round.
-/
import NoGround.Conn.Retry

set_option autoImplicit false

namespace NoGround

open NoGround.Lib

variable {ω ε : Type}

/-! ## Time -/

/-- The processor time does not go back while `poll` waits, and while clients are pinged. -/
structure ClockAdvances (sys : Sys ω) (onping : Callback ω ε) : Prop where
  clock : ∀ w, (sys.clock w).1 ≤ (sys.clock (sys.clock w).2).1
  poll : ∀ fds w, (sys.clock w).1 ≤ (sys.clock (sys.poll fds w).2).1
  onping : ∀ s c w, (sys.clock w).1 ≤ (sys.clock (onping s c w).state).1

/-- The client has not been updated for the ping interval. -/
def PingDue (interval : Nat) (c : Client) (now : Int) : Prop :=
  (interval : Int) ≤ (now - c.last_updated).tdiv 1000

instance (interval : Nat) (c : Client) (now : Int) : Decidable (PingDue interval c now) :=
  inferInstanceAs (Decidable ((interval : Int) ≤ (now - c.last_updated).tdiv 1000))

theorem PingDue.later {interval : Nat} {c : Client} {now later : Int}
    (h : PingDue interval c now) (hle : now ≤ later) : PingDue interval c later :=
  Int.le_trans h (Int.tdiv_le_tdiv (by decide) (by omega))

/-- `onping` was invoked for the client. -/
def Pinged (c : Client) (t : List (ConnEvent ε)) : Prop :=
  ∃ s status out, .callback .onping s c status out ∈ t

theorem Pinged.append_left {c : Client} {t u : List (ConnEvent ε)} (h : Pinged c t) :
    Pinged c (t ++ u) := by
  obtain ⟨s, status, out, hmem⟩ := h
  exact ⟨s, status, out, List.mem_append_left _ hmem⟩

/-! ## A round of the ping loop -/

section PingRound

variable (sys : Sys ω) {f : Callback ω ε} {m : Machine ω} {k : Nat} {c : Client}

/-- `onping` is the first thing that happens. -/
theorem pinged_pingClient (index : Nat) (now : Int) :
    Pinged c (pingClient f index c now m).out := by
  unfold pingClient
  rcases hrun : f m.server c m.world with ⟨r, w', out⟩
  cases r with
  | error e =>
    rw [Proc.bind_run_error (invoke_run_error .onping hrun)]
    exact ⟨_, _, _, List.mem_singleton.mpr rfl⟩
  | ok a =>
    obtain ⟨status, c'⟩ := a
    rw [Proc.bind_run_ok (invoke_run_ok .onping hrun)]
    exact ⟨_, _, _, List.mem_append_left _ (List.mem_singleton.mpr rfl)⟩

theorem world_pingClient (index : Nat) (now : Int) :
    (pingClient f index c now m).state.world = (f m.server c m.world).state := by
  unfold pingClient
  rcases hrun : f m.server c m.world with ⟨r, w', out⟩
  cases r with
  | error e => rw [Proc.bind_run_error (invoke_run_error .onping hrun)]
  | ok a =>
    obtain ⟨status, c'⟩ := a
    rw [Proc.bind_run_ok (invoke_run_ok .onping hrun)]
    dsimp only
    rw [setClient_bind_run, markIf_run]

/-- What a round of the ping loop comes to. -/
theorem pingRound_eq {index : Nat} (hc : m.server.clients.items[index - 1]? = some c) :
    pingRound sys f index m =
      (Proc.when (PingDue m.server.ping_interval c (sys.clock m.world).1)
        (pingClient f index c (sys.clock m.world).1) >>= fun _ => pure (index + 1))
        ⟨m.server, (sys.clock m.world).2⟩ := by
  unfold pingRound Conn.server
  rw [Proc.bind_run_ok (clientItem_run hc), call_bind_run, Proc.step_bind_run]
  rfl

/-- A client whose ping is due is pinged. -/
theorem pinged_pingRound (hc : m.server.clients.items[k]? = some c)
    (hdue : PingDue m.server.ping_interval c (sys.clock m.world).1) :
    Pinged c (pingRound sys f (k + 1) m).out := by
  rw [pingRound_eq sys hc, Proc.when_pos hdue, Proc.bind_pure_run]
  exact pinged_pingClient _ _

theorem clock_pingRound (hclock : ClockAdvances sys f)
    (hc : m.server.clients.items[k]? = some c) :
    (sys.clock m.world).1 ≤ (sys.clock (pingRound sys f (k + 1) m).state.world).1 := by
  rw [pingRound_eq sys hc, Proc.bind_pure_run]
  unfold Proc.when
  split
  · show _ ≤ (sys.clock (pingClient f (k + 1) c _ _).state.world).1
    rw [world_pingClient]
    exact Int.le_trans (hclock.clock m.world) (hclock.onping _ _ _)
  · exact hclock.clock m.world

theorem PingHandled.ping_interval {index : Nat} {s s' : Server} {r : Except Halt Unit}
    {u : List (ConnEvent ε)} (h : PingHandled f s index c r s' u) :
    s'.ping_interval = s.ping_interval := by
  cases h with
  | fresh => rfl
  | stopped _ => rfl
  | pinged now _ =>
    unfold Server.markIf
    split <;> rfl

end PingRound

/-! ## The ping loop -/

section PingLoop

variable (sys : Sys ω) {f : Callback ω ε} {c : Client}

/-- The ping loop, started on `m₀`, is in front of entry `k`; entry `k₀` is that of `c`. -/
structure Pinging (m₀ : Machine ω) (k₀ : Nat) (c : Client) (k : Nat) (t : List (ConnEvent ε))
    (m : Machine ω) : Prop where
  inSync : InSync m.server
  interval : m.server.ping_interval = m₀.server.ping_interval
  clock : (sys.clock m₀.world).1 ≤ (sys.clock m.world).1
  room : k₀ < m.server.entries.length
  ahead : k ≤ k₀ → ∃ pfd, m.server.entries[k₀]? = some (pfd, c)
  pinged : k₀ < k → Pinged c t

theorem Pinging.round {m₀ m : Machine ω} {k₀ k : Nat} {t : List (ConnEvent ε)} {pfd : PollFd}
    {c₁ : Client} (hclock : ClockAdvances sys f)
    (hdue : PingDue m₀.server.ping_interval c (sys.clock m₀.world).1)
    (h : Pinging sys m₀ k₀ c k t m) (hentry : m.server.entries[k]? = some (pfd, c₁)) :
    Proc.Post (fun j t m' => j = k + 2 ∧ Pinging sys m₀ k₀ c (k + 1) t m') (fun _ _ _ => True) t
      (pingRound sys f (k + 1) m) := by
  obtain ⟨-, hc⟩ := getElem?_of_entries hentry
  obtain ⟨r, hhandled, hout⟩ := pingRound_handled sys f (k + 1) hc
  have hnow := clock_pingRound sys hclock hc
  have hinterval := hhandled.ping_interval
  unfold Proc.Post
  rw [hout]
  cases r with
  | error e => trivial
  | ok _ =>
    obtain ⟨entry', hwrites⟩ := hhandled.writes h.inSync hentry
    refine ⟨rfl, hwrites.inSync, hinterval.trans h.interval, Int.le_trans h.clock hnow, ?_, ?_, ?_⟩
    · rw [hwrites.entries, List.length_append, List.length_set]
      exact Nat.lt_of_lt_of_le h.room (Nat.le_add_right _ _)
    · intro hk
      obtain ⟨pfd₀, hentry₀⟩ := h.ahead (by omega)
      exact ⟨pfd₀, (hwrites.getElem?_old (by omega) h.room).trans hentry₀⟩
    · intro hk
      rcases Nat.lt_succ_iff_lt_or_eq.mp hk with hlt | rfl
      · exact (h.pinged hlt).append_left
      · -- The round of the client itself.
        obtain ⟨pfd₀, hentry₀⟩ := h.ahead (Nat.le_refl _)
        obtain ⟨-, rfl⟩ := Prod.mk.inj (Option.some.inj (hentry.symm.trans hentry₀))
        have hdue' : PingDue m.server.ping_interval c₁ (sys.clock m.world).1 := by
          rw [h.interval]
          exact hdue.later h.clock
        obtain ⟨s, status, out, hmem⟩ := pinged_pingRound sys (f := f) hc hdue'
        exact ⟨s, status, out, List.mem_append_right _ hmem⟩

/-- The ping loop pings every client whose ping is due. -/
theorem pingLoop_pings (hclock : ClockAdvances sys f) {m m' : Machine ω}
    {t : List (ConnEvent ε)} (hs : InSync m.server) {k : Nat} {pfd : PollFd}
    (hentry : m.server.entries[k]? = some (pfd, c))
    (hdue : PingDue m.server.ping_interval c (sys.clock m.world).1)
    (hrun : pingLoop sys f m = ⟨.ok (), m', t⟩) : Pinged c t := by
  obtain ⟨hlt, -⟩ := List.getElem?_eq_some_iff.mp hentry
  have hstart : Pinging sys m k c 0 ([] : List (ConnEvent ε)) m :=
    ⟨hs, rfl, Int.le_refl _, hlt, fun _ => ⟨pfd, hentry⟩, fun h => absurd h (Nat.not_lt_zero k)⟩
  have hloop := rounds_rule (I := Pinging sys m k c) (E := fun _ _ _ => True)
    (pingRound sys f) (fun h => h.inSync) (fun _ => trivial)
    (fun h hentry => h.round sys hclock hdue hentry) m.server.poll.cap
  unfold pingLoop Conn.server at hrun
  rw [Proc.step_bind_run] at hrun
  obtain ⟨j, hpinging, hend⟩ := hloop.ok hstart hrun
  exact hpinging.pinged (Nat.lt_of_lt_of_le hpinging.room hend)

end PingLoop

/-! ## The listener -/

section Listener

variable (sys : Sys ω) {cb : Callbacks ω ε} {m : Machine ω}

/-- The event is not a call of `onping`. -/
def NoPing : ConnEvent ε → Prop
  | .callback .onping _ _ _ _ => False
  | _ => True

instance : (e : ConnEvent ε) → Decidable (NoPing e)
  | .callback .onping _ _ _ _ => .isFalse id
  | .callback .onconnect _ _ _ _ | .callback .onmessage _ _ _ _
  | .callback .ondisconnect _ _ _ _ | .accepted _ | .registered _ | .closed _ | .deleted _ =>
      .isTrue trivial

theorem not_pinged_of_noPing {t : List (ConnEvent ε)} (h : ∀ e ∈ t, NoPing e) (c : Client) :
    ¬ Pinged c t := by
  rintro ⟨s, status, out, hmem⟩
  exact h _ hmem

/-- Accepting adds at most one entry, that of the accepted connection. -/
structure Appended (fd : Int) (s s' : Server) (u : List (ConnEvent ε)) : Prop where
  inSync : InSync s'
  entries : ∃ extra : Option (PollFd × Client), s'.entries = s.entries ++ extra.toList ∧
    ∀ x ∈ extra, x.2.fd = fd ∧ 0 ≤ fd
  noPing : ∀ e ∈ u, NoPing e

theorem appended_none {s : Server} (hs : InSync s) {u : List (ConnEvent ε)}
    (h : ∀ e ∈ u, NoPing e) (fd : Int) : Appended fd s s u :=
  ⟨hs, ⟨none, (List.append_nil _).symm, fun _ hx => by cases hx⟩, h⟩

theorem AcceptHandled.appended {s s' : Server} {c : Client} {r : Except Halt Int}
    {u : List (ConnEvent ε)} (h : AcceptHandled cb s c r s' u) (hs : InSync s)
    (hpos : 0 ≤ c.fd) : Appended c.fd s s' u := by
  cases h with
  | dropped _ => exact appended_none hs (by simp [NoPing]) _
  | halted _ _ => exact appended_none hs (by simp [NoPing]) _
  | refused _ _ => exact appended_none hs (by simp [NoPing]) _
  | @entered c' f status w w' out now hf hrun hstatus =>
    obtain ⟨extra, hentries, hnew⟩ := entries_enter hs (c.admitted c' status now) hstatus
    refine ⟨hs.register _, ⟨extra, hentries, fun x hx => ⟨(hnew x hx).1, hpos⟩⟩, ?_⟩
    refine List.forall_mem_cons.mpr ⟨trivial, List.forall_mem_cons.mpr ⟨trivial, ?_⟩⟩
    intro e he
    rw [mem_registerEvents he]
    trivial

variable (cb) in
theorem conAcceptConnections_appends (hs : InSync m.server) :
    Appended (acceptedFd sys m) (afterPoll sys m).server
      (conAcceptConnections sys cb (afterPoll sys m)).state.server
      (conAcceptConnections sys cb (afterPoll sys m)).out := by
  have hs' := hs.afterPoll sys
  have hlen := hs'.poll_len
  rcases conAcceptConnections_handled sys cb (m := afterPoll sys m) (by omega) with
    ⟨r, w, hrun⟩ | ⟨c, hfd, hpos, haccept⟩
  · rw [hrun]
    exact appended_none hs' (fun _ he => absurd he List.not_mem_nil) _
  · have happended := haccept.appended hs' hpos
    rwa [hfd] at happended

end Listener

/-! ## The event loop -/

section EventLoop

variable (sys : Sys ω) {cb : Callbacks ω ε}

/-- Writing an entry that stays dead or alive. -/
theorem allDead_set {s s' : Server} {k : Nat} {entry entry' : PollFd × Client} {fd : Int}
    (hentry : s.entries[k]? = some entry) (hset : s'.entries = s.entries.set k entry')
    (hfd : entry'.2.fd = entry.2.fd) (hdead : Dead entry' ↔ Dead entry) :
    AllDead s' fd ↔ AllDead s fd := by
  obtain ⟨hlt, hget⟩ := List.getElem?_eq_some_iff.mp hentry
  unfold AllDead
  rw [hset]
  constructor
  · intro h x hx hxfd
    obtain ⟨j, hj, rfl⟩ := List.getElem_of_mem hx
    by_cases hjk : j = k
    · subst hjk
      rw [hget] at hxfd ⊢
      exact hdead.mp (h entry' (List.mem_set hlt entry') (hfd.trans hxfd))
    · refine h _ ?_ hxfd
      have hsame : (s.entries.set k entry')[j]? = some s.entries[j] := by
        rw [List.getElem?_set_ne (Ne.symm hjk), List.getElem?_eq_getElem hj]
      exact List.mem_of_getElem? hsame
  · intro h x hx hxfd
    rcases List.mem_or_eq_of_mem_set hx with hold | rfl
    · exact h x hold hxfd
    · exact hdead.mpr (h entry (List.mem_of_getElem? hentry) (hfd.symm.trans hxfd))

/-- The event loop, started on `m₁`, is in front of entry `k`.  The entries of the descriptor
`fd` are among the first `n`, and are dead or alive as they were. -/
structure Leaving (cb : Callbacks ω ε) (m₁ : Machine ω) (fd : Int) (n k : Nat)
    (_ : List (ConnEvent ε)) (m : Machine ω) : Prop where
  inSync : InSync m.server
  machine : m = Proc.rounds (eventRound sys cb) 1 m₁ k
  room : n ≤ m.server.entries.length
  old : ∀ j ≥ k, j < n → m.server.entries[j]? = m₁.server.entries[j]?
  new : ∀ j ≥ n, ∀ x, m.server.entries[j]? = some x → x.2.fd ≠ fd
  dead : AllDead m.server fd ↔ AllDead m₁.server fd

/-- In the rounds of the descriptor there is nothing to read, and no error or hang-up. -/
def QuietFrom (cb : Callbacks ω ε) (m₁ : Machine ω) (fd : Int) (n : Nat) : Prop :=
  ∀ j < n, ∀ x, m₁.server.entries[j]? = some x → x.2.fd = fd →
    x.1.failed = false ∧ peekCount sys fd (Proc.rounds (eventRound sys cb) 1 m₁ j) < 0

/-- A round that finds nothing writes the time. -/
theorem EventHandled.quiet {s s' : Server} {k : Nat} {pfd : PollFd} {c : Client} {peek : Int}
    {u : List (ConnEvent ε)} (h : EventHandled cb s (k + 1) pfd c peek (.ok ()) s' u)
    (hokay : pfd.failed = false) (hpeek : peek < 0) (hs : InSync s)
    (hentry : s.entries[k]? = some (pfd, c)) :
    ∃ now, RoundWrites k (pfd, c) s s' (pfd, c.stamped now) none := by
  have hnotRead : ¬ Readable pfd peek := fun hread => by
    have := hread.1
    omega
  cases h with
  | removed hgone =>
    rcases hgone with hzero | hfailed
    · omega
    · rw [hokay] at hfailed
      cases hfailed
  | idle now _ _ _ =>
    have hwrites := roundWrites_write hs hentry (c.stamped now) rfl False
    rw [Server.markIf, if_neg not_false, PollFd.markIf, if_neg not_false] at hwrites
    exact ⟨now, hwrites⟩
  | served hread _ _ => exact absurd hread hnotRead
  | retried hread _ _ _ => exact absurd hread hnotRead

theorem Leaving.round {m₁ m : Machine ω} {fd : Int} {n k : Nat} {t : List (ConnEvent ε)}
    {pfd : PollFd} {c : Client} (hquiet : QuietFrom sys cb m₁ fd n)
    (h : Leaving sys cb m₁ fd n k t m) (hentry : m.server.entries[k]? = some (pfd, c)) :
    Proc.Post (fun j t m' => j = k + 2 ∧ Leaving sys cb m₁ fd n (k + 1) t m')
      (fun _ _ _ => True) t (eventRound sys cb (k + 1) m) := by
  obtain ⟨hpfd, hc⟩ := getElem?_of_entries hentry
  obtain ⟨r, hhandled, hout⟩ := eventRound_handled sys cb hpfd hc
  have hmachine : (eventRound sys cb (k + 1) m).state =
      Proc.rounds (eventRound sys cb) 1 m₁ (k + 1) := by
    rw [Proc.rounds, ← h.machine, Nat.add_comm 1 k]
  unfold Proc.Post
  rw [hout]
  cases r with
  | error e => trivial
  | ok _ =>
    -- The descriptor's own entry is written as it is, but for the time.
    obtain ⟨entry', extra, hwrites, hown⟩ : ∃ entry' extra, RoundWrites k (pfd, c) m.server
        (eventRound sys cb (k + 1) m).state.server entry' extra ∧
        (c.fd = fd → extra = none ∧ (Dead entry' ↔ Dead (pfd, c))) := by
      by_cases hfd : c.fd = fd
      · have hkn : k < n := by
          by_contra hge
          exact h.new k (by omega) _ hentry hfd
        have hstart := (h.old k (Nat.le_refl k) hkn).symm.trans hentry
        obtain ⟨hokay, hpeek⟩ := hquiet k hkn _ hstart hfd
        have hboth : pfd.fd = c.fd :=
          List.map_inj_left.mp h.inSync.fst_fd_entries _ (List.mem_of_getElem? hentry)
        rw [← hfd, ← hboth, ← h.machine] at hpeek
        obtain ⟨now, hwrites⟩ := hhandled.quiet hokay hpeek h.inSync hentry
        exact ⟨_, _, hwrites, fun _ => ⟨rfl, Iff.rfl⟩⟩
      · obtain ⟨entry', extra, hwrites⟩ := hhandled.writes h.inSync hentry
        exact ⟨entry', extra, hwrites, fun h => absurd h hfd⟩
    refine ⟨rfl, hwrites.inSync, hmachine, ?_, ?_, ?_, Iff.trans ?_ h.dead⟩
    · rw [hwrites.entries, List.length_append, List.length_set]
      exact Nat.le_trans h.room (Nat.le_add_right _ _)
    · intro j hj hjn
      have hlt : j < m.server.entries.length := Nat.lt_of_lt_of_le hjn h.room
      exact (hwrites.getElem?_old (by omega) hlt).trans (h.old j (by omega) hjn)
    · intro j hj x hx
      rcases hwrites.cases hx with ⟨rfl, rfl⟩ | ⟨-, hprev⟩ | ⟨-, hextra⟩
      · rw [hwrites.fd]
        exact h.new j hj _ hentry
      · exact h.new j hj x hprev
      · rw [(hwrites.entered x hextra).1]
        intro hfd
        rw [(hown hfd).1] at hextra
        cases hextra
    · by_cases hfd : c.fd = fd
      · obtain ⟨rfl, hdead⟩ := hown hfd
        exact allDead_set hentry (hwrites.entries.trans (List.append_nil _)) hwrites.fd hdead
      · exact allDead_congr fun x hxfd =>
          hwrites.mem_iff hentry (by rw [hxfd]; exact Ne.symm hfd)

/-- The event loop leaves the descriptor's entries dead or alive as they were. -/
theorem eventLoop_leaves {m₁ m₂ : Machine ω} {fd : Int} {n : Nat} {t : List (ConnEvent ε)}
    (hs : InSync m₁.server) (hroom : n ≤ m₁.server.entries.length)
    (hnew : ∀ j ≥ n, ∀ x, m₁.server.entries[j]? = some x → x.2.fd ≠ fd)
    (hquiet : QuietFrom sys cb m₁ fd n) (hrun : eventLoop sys cb m₁ = ⟨.ok (), m₂, t⟩) :
    InSync m₂.server ∧ (AllDead m₂.server fd ↔ AllDead m₁.server fd) := by
  have hstart : Leaving sys cb m₁ fd n 0 ([] : List (ConnEvent ε)) m₁ :=
    ⟨hs, rfl, hroom, fun _ _ _ => rfl, hnew, Iff.rfl⟩
  have hloop := rounds_rule (I := Leaving sys cb m₁ fd n) (E := fun _ _ _ => True)
    (eventRound sys cb) (fun h => h.inSync) (fun _ => trivial)
    (fun h hentry => h.round sys hquiet hentry) m₁.server.poll.cap
  unfold eventLoop Conn.server at hrun
  rw [Proc.step_bind_run] at hrun
  obtain ⟨k, hleaving, -⟩ := hloop.ok hstart hrun
  exact ⟨hleaving.inSync, hleaving.dead⟩

end EventLoop

/-! ## The call -/

section Call

variable (sys : Sys ω) (cb : Callbacks ω ε)

/-- In the call there is nothing to read for the descriptor, and no error or hang-up. -/
def NothingFor (m : Machine ω) (fd : Int) : Prop :=
  ∀ j x, (afterPoll sys m).server.entries[j]? = some x → x.2.fd = fd →
    x.1.failed = false ∧ peekCount sys fd (eventMachine sys cb m j) < 0

variable {sys cb} {m m' : Machine ω} {t : List (ConnEvent ε)}

/-- `poll` leaves the entries dead or alive. -/
theorem allDead_afterPoll (sys : Sys ω) (hs : InSync m.server) (fd : Int) :
    AllDead (afterPoll sys m).server fd ↔ AllDead m.server fd := by
  have hmap := map_entries_afterPoll sys (f := fun x => (x.2.fd = fd → Dead x)) hs
    fun _ _ _ => rfl
  have hall : ∀ s : Server, AllDead s fd ↔
      ∀ p ∈ s.entries.map fun x => (x.2.fd = fd → Dead x), p := by
    intro s
    rw [List.forall_mem_map]
    rfl
  rw [hall, hmap, ← hall]

/-- Something has happened: nobody is pinged, and the descriptor stays registered unless its
entries were dead before. -/
theorem handleEvents_leaves {fd : Int} (hs : InSync m.server)
    (hcount : 0 < (pollAnswer sys m).count) (hnothing : NothingFor sys cb m fd)
    (haccept : 0 ≤ acceptedFd sys m → acceptedFd sys m ≠ fd)
    (hrun : handleEvents sys cb (pollAnswer sys m).count (afterPoll sys m) = ⟨.ok (), m', t⟩) :
    InSync m'.server ∧ (AllDead m'.server fd ↔ AllDead m.server fd) ∧ ∀ e ∈ t, NoPing e := by
  have happended := conAcceptConnections_appends sys cb hs
  unfold handleEvents at hrun
  rw [if_pos hcount] at hrun
  rcases hr : conAcceptConnections sys cb (afterPoll sys m) with ⟨r, m₁, t₁⟩
  rw [hr] at happended
  obtain ⟨hs₁, ⟨extra, hentries, hnew⟩, hnoPing⟩ := happended
  cases r with
  | error e =>
    rw [Proc.bind_run_error hr] at hrun
    cases hrun
  | ok err =>
    rw [Proc.bind_run_ok hr] at hrun
    split at hrun
    · cases hrun
    rcases hloop : eventLoop sys cb m₁ with ⟨r, m₂, t₂⟩
    rw [hloop] at hrun
    cases hrun
    have hfirst : ∀ j < (afterPoll sys m).server.entries.length,
        m₁.server.entries[j]? = (afterPoll sys m).server.entries[j]? := by
      intro j hj
      rw [hentries, List.getElem?_append_left hj]
    have hextra : ∀ x ∈ extra, x.2.fd ≠ fd := by
      intro x hx
      obtain ⟨hfd, hpos⟩ := hnew x hx
      rw [hfd]
      exact haccept hpos
    have hquiet : QuietFrom sys cb m₁ fd (afterPoll sys m).server.entries.length := by
      intro j hj x hx hfd
      have h := hnothing j x ((hfirst j hj).symm.trans hx) hfd
      rwa [eventMachine, hr] at h
    obtain ⟨hs₂, hdead⟩ := eventLoop_leaves sys
      (n := (afterPoll sys m).server.entries.length) hs₁ (by rw [hentries]; simp) (by
        intro j hj x hx
        rw [hentries, List.getElem?_append_right hj] at hx
        exact hextra x (Option.mem_toList.mp (List.mem_of_getElem? hx))) hquiet hloop
    have hnoPing₂ : ∀ e ∈ t₂, NoPing e := by
      have h := emits_eventLoop sys cb (P := NoPing) (fun _ => trivial) (fun _ _ _ _ => trivial)
        (fun _ _ _ _ => trivial) m₁
      rwa [hloop] at h
    refine ⟨hs₂, hdead.trans ?_, List.forall_mem_append.mpr ⟨hnoPing, hnoPing₂⟩⟩
    refine (allDead_congr fun x hxfd => ?_).trans (allDead_afterPoll sys hs fd)
    rw [hentries, List.mem_append, Option.mem_toList]
    exact or_iff_left fun hx => hextra x hx hxfd

/-- Nothing has happened: a client whose ping is due is pinged. -/
theorem handleEvents_pinged {f : Callback ω ε} (hf : cb.onping = some f)
    (hclock : ClockAdvances sys f) (hs : InSync m.server)
    (hcount : ¬ 0 < (pollAnswer sys m).count) {k : Nat} {pfd : PollFd} {c : Client}
    (hentry : m.server.entries[k]? = some (pfd, c))
    (hdue : PingDue m.server.ping_interval c (sys.clock m.world).1)
    (hrun : handleEvents sys cb (pollAnswer sys m).count (afterPoll sys m) = ⟨.ok (), m', t⟩) :
    Pinged c t := by
  unfold handleEvents at hrun
  rw [if_neg hcount, hf] at hrun
  have hentry' : (afterPoll sys m).server.entries[k]? =
      some ({ pfd with revents := (pollAnswer sys m).revents (k + 1) }, c) := by
    rw [entries_afterPoll sys hs, List.getElem?_mapIdx, hentry]
    rfl
  exact pingLoop_pings sys hclock (hs.afterPoll sys) hentry'
    (hdue.later (hclock.poll _ _)) hrun

/-- **Pings wait until nothing happens.**  A registered client has nothing to read, there is no
error or hang-up on its connection, and its ping is due.  When the call returns it has been
pinged or is not registered any more, exactly if `poll` reported no event at all, or its entry
was marked or killed before the call. -/
theorem conPollEvents_pings_iff {f : Callback ω ε} (hf : cb.onping = some f)
    (hclock : ClockAdvances sys f) (hs : InSync m.server) {k : Nat} {pfd : PollFd} {c : Client}
    (hentry : m.server.entries[k]? = some (pfd, c))
    (hdue : PingDue m.server.ping_interval c (sys.clock m.world).1)
    (hnothing : NothingFor sys cb m c.fd)
    (haccept : 0 ≤ acceptedFd sys m → acceptedFd sys m ≠ c.fd)
    (hrun : conPollEvents sys cb m = ⟨.ok (), m', t⟩) :
    (Pinged c t ∨ c.fd ∉ m'.server.fds) ↔
      (pollAnswer sys m).count ≤ 0 ∨ AllDead m.server c.fd := by
  obtain ⟨m₁, t₁, t₂, rfl, hhandle, hdelete⟩ := conPollEvents_split sys hrun
  by_cases hcount : 0 < (pollAnswer sys m).count
  · obtain ⟨hs₁, hdead, hnoPing⟩ := handleEvents_leaves hs hcount hnothing haccept hhandle
    obtain ⟨hs', hkept, -⟩ := deleteLoop_run sys cb hs₁ hdelete
    have hnoPing₂ : ∀ e ∈ t₂, NoPing e := by
      have h := emits_deleteLoop sys cb (P := NoPing) (fun _ => trivial) (fun _ => trivial)
        (fun _ _ _ _ => trivial) m₁
      rwa [hdelete] at h
    have hnot : ¬ Pinged c (t₁ ++ t₂) :=
      not_pinged_of_noPing (List.forall_mem_append.mpr ⟨hnoPing, hnoPing₂⟩) c
    rw [or_iff_right hnot, or_iff_right (Int.not_le.mpr hcount), mem_fds_of_perm hs' hkept, hdead]
  · have hpinged := handleEvents_pinged hf hclock hs hcount hentry hdue hhandle
    exact iff_of_true (.inl hpinged.append_left) (.inl (Int.not_lt.mp hcount))

end Call

/-- The scripted system, at a time at which every ping is due. -/
def lateClock : Sys Script := { Script.sys with clock := fun w => (1000000, w) }

/-- Every client is pinged, and kept. -/
def pingAll : Callbacks Script Unit :=
  { constantCallbacks .keepAlive with onping := some fun _ client => pure (.keepAlive, client) }

/-- The client `4` of `twoRegistered`. -/
def firstClient : Client := { Client.blank with fd := 4, status := .keepAlive }

/-- The client has one entry, the first one. -/
theorem nothingFor_firstClient {w : Script} {entry : PollFd × Client}
    (hentry : (afterPoll lateClock (twoRegistered w)).server.entries[0]? = some entry)
    (hokay : entry.1.failed = false)
    (hpeek : peekCount lateClock 4 (eventMachine lateClock pingAll (twoRegistered w) 0) < 0) :
    NothingFor lateClock pingAll (twoRegistered w) firstClient.fd := by
  intro j x hx hfd
  match j with
  | 0 =>
    cases hentry.symm.trans hx
    exact ⟨hokay, hpeek⟩
  | 1 =>
    cases hx
    cases hfd
  | j + 2 => cases hx

/-- Nobody has anything to say. -/
theorem conPollEvents_pings_silence :
    Pinged firstClient (conPollEvents lateClock pingAll (twoRegistered {})).out ∨
      firstClient.fd ∉ (conPollEvents lateClock pingAll (twoRegistered {})).state.server.fds := by
  have hclock : ClockAdvances lateClock fun _ client => (pure (.keepAlive, client) :
      Proc Halt Script Unit (ConnStatus × Client)) :=
    ⟨fun _ => Int.le_refl _, fun _ _ => Int.le_refl _, fun _ _ _ => Int.le_refl _⟩
  have hnothing : NothingFor lateClock pingAll (twoRegistered {}) firstClient.fd :=
    nothingFor_firstClient rfl (by decide) (by decide)
  have hreturns : (conPollEvents lateClock pingAll (twoRegistered {})).outcome = .ok () := by
    decide +kernel
  exact (conPollEvents_pings_iff (k := 0) rfl hclock ⟨by decide, by decide⟩ rfl (by decide)
    hnothing (by decide) (Result.eq_ok hreturns)).mpr (.inl (by decide))

/-- The client `5` sends a byte, and `4` is silent. -/
def oneTalks : Script where
  polls := [(1, [0#16, 0#16, POLLIN])]
  recvs := [none, some [1]]

/-- The ping of the silent client is due, but it is not sent, and the client stays. -/
theorem silent_client_is_not_pinged :
    let r := conPollEvents lateClock pingAll (twoRegistered oneTalks)
    NothingFor lateClock pingAll (twoRegistered oneTalks) firstClient.fd ∧
      PingDue (twoRegistered oneTalks).server.ping_interval firstClient
        (lateClock.clock oneTalks).1 ∧
      r.outcome = .ok () ∧ ¬ Pinged firstClient r.out ∧
      firstClient.fd ∈ r.state.server.fds := by
  exact ⟨nothingFor_firstClient rfl (by decide) (by decide +kernel), by decide,
    by decide +kernel, not_pinged_of_noPing (by decide +kernel) _, by decide +kernel⟩

end NoGround
