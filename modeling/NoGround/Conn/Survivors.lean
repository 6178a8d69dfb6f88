/-
  Conn/Survivors.lean --- whom one call of `conPollEvents` removes.

  The candidates of a call are the registered clients and the newcomer, if one is admitted.
  A candidate must go if its round of the loop says so; then it is closed and reported once,
  and it is not registered any more.  Every other candidate is registered as it was.

  The call is followed phase by phase: accepting makes the entries those of the candidates,
  the loop visits each of them, and the deletion pass removes the dead ones.
-/
import NoGround.Conn.Emits
import NoGround.Conn.Registration
import NoGround.Conn.Visits
import Mathlib.Data.List.Forall2

set_option autoImplicit false

namespace NoGround

open NoGround.Lib

variable {ω ε : Type}

/-! ## The candidates -/

section Candidates

variable (sys : Sys ω) (cb : Callbacks ω ε) (m : Machine ω)

/-- What `poll` answers. -/
def pollAnswer : PollResult := (sys.poll m.server.poll.items m.world).1

/-- What `poll` leaves: the entries with what happened to them. -/
def afterPoll : Machine ω where
  server := { m.server with
    poll := m.server.poll.mapIdx fun i pfd => { pfd with revents := (pollAnswer sys m).revents i } }
  world := (sys.poll m.server.poll.items m.world).2

theorem conHasEvents_run : (conHasEvents sys m : Result _ _ (ConnEvent ε) _) =
    ⟨.ok (pollAnswer sys m).count, afterPoll sys m, []⟩ := rfl

/-- The entry of a connection that `accept` returned, if `onconnect` does not kill it and
there is room. -/
def admission (s : Server) (client : Client) (w : ω) : List (PollFd × Client) :=
  match cb.onconnect with
  | none => []
  | some onconnect =>
      match (onconnect s client w).outcome with
      | .error _ => []
      | .ok (status, _) =>
          if status ≠ .kill ∧ s.hasRoom = true then [(⟨client.fd, POLLIN, 0#16⟩, client)] else []

/-- The entry of the connection that the call admits, if there is one. -/
def newcomer : List (PollFd × Client) :=
  let polled := afterPoll sys m
  let accepted := sys.accept m.server.fd polled.world
  if (polled.server.poll.items.head?.any (·.has POLLIN)) = true ∧ 0 ≤ accepted.1.fd then
    admission cb polled.server { accepted.1.stack with fd := accepted.1.fd } accepted.2
  else []

/-- The descriptor that `accept` returns, if it is called. -/
def acceptedFd : Int := (sys.accept m.server.fd (afterPoll sys m).world).1.fd

/-- The clients that are registered, as `poll` left them, and the newcomer. -/
def candidates : List (PollFd × Client) :=
  (afterPoll sys m).server.entries ++
    if 0 < (pollAnswer sys m).count then newcomer sys cb m else []

/-- The machine in front of round `k + 1` of the event loop. -/
def eventMachine (k : Nat) : Machine ω :=
  Proc.rounds (eventRound sys cb) 1 (conAcceptConnections sys cb (afterPoll sys m)).state k

/-- The machine in front of round `k + 1` of the ping loop. -/
def pingMachine (onping : Callback ω ε) (k : Nat) : Machine ω :=
  Proc.rounds (pingRound sys onping) 1 (afterPoll sys m) k

/-- Candidate `k` must go.  When something has happened: nothing is left to read on its
connection, `poll` reports an error or a hang-up, or `onmessage` killed it.  When nothing
has: `onping` killed it. -/
def MustGo (k : Nat) (candidate : PollFd × Client) : Prop :=
  if 0 < (pollAnswer sys m).count then
    peekCount sys candidate.1.fd (eventMachine sys cb m k) = 0 ∨ candidate.1.failed = true ∨
      AnswersKill .onmessage (eventRound sys cb (k + 1) (eventMachine sys cb m k)).out
  else
    match cb.onping with
    | none => False
    | some onping =>
        AnswersKill .onping (pingRound sys onping (k + 1) (pingMachine sys m onping k)).out

end Candidates

/-! ## Quiet events -/

/-- The event closes nothing and reports nobody. -/
def Quiet : ConnEvent ε → Prop
  | .closed _ => False
  | .callback .ondisconnect _ _ _ _ => False
  | _ => True

theorem closedFds_of_quiet {t : List (ConnEvent ε)} (h : ∀ e ∈ t, Quiet e) : closedFds t = [] := by
  refine List.filterMap_eq_nil_iff.mpr fun e he => ?_
  cases e with
  | closed fd => exact (h _ he).elim
  | accepted fd => rfl
  | registered fd => rfl
  | deleted fd => rfl
  | callback kind s c status out => rfl

theorem reportedFds_of_quiet {t : List (ConnEvent ε)} (h : ∀ e ∈ t, Quiet e) :
    reportedFds t = [] := by
  refine List.filterMap_eq_nil_iff.mpr fun e he => ?_
  cases e with
  | closed fd => rfl
  | accepted fd => rfl
  | registered fd => rfl
  | deleted fd => rfl
  | callback kind s c status out =>
    cases kind with
    | ondisconnect => exact (h _ he).elim
    | onconnect => rfl
    | onmessage => rfl
    | onping => rfl

theorem quiet_registerEvents (s : Server) (fd : Int) :
    ∀ e ∈ s.registerEvents (ε := ε) fd, Quiet e := by
  intro e he
  rw [mem_registerEvents he]
  trivial

/-! ## Accepting -/

section Accepting

variable (sys : Sys ω) {cb : Callbacks ω ε} {s : Server} {c : Client} {w : ω}

/-- The entries after accepting: the same, with the entry `new` of the newcomer. -/
structure Entered (newcomer : List (PollFd × Client)) (s s' : Server) (t : List (ConnEvent ε)) :
    Prop where
  inSync : InSync s'
  entries : ∃ new, s'.entries = s.entries ++ new ∧
    List.Forall₂ (fun e e' => e'.1 = e.1 ∧ entryKey e' = entryKey e ∧ Live e') newcomer new
  closed : newcomer ≠ [] → closedFds t = []
  reported : reportedFds t = []

/-- Nobody is entered. -/
theorem entered_none (hs : InSync s) {t : List (ConnEvent ε)} (h : reportedFds t = []) :
    Entered [] s s t :=
  ⟨hs, ⟨[], by rw [List.append_nil], .nil⟩, fun hne => absurd rfl hne, h⟩

/-- Somebody is entered, if there is room. -/
theorem entered_register (hs : InSync s) {c' : Client} (hfd : c'.fd = c.fd)
    (haddr : c'.addr = c.addr) (hstatus : c'.status = .keepAlive) {t : List (ConnEvent ε)}
    (ht : ∀ e ∈ t, Quiet e) :
    Entered (if s.hasRoom = true then [(⟨c.fd, POLLIN, 0#16⟩, c)] else []) s (s.register c') t := by
  cases hroom : s.hasRoom with
  | true =>
    refine ⟨hs.register c', ⟨_, entries_register hs c' hroom, ?_⟩,
      fun _ => closedFds_of_quiet ht, reportedFds_of_quiet ht⟩
    have hlive : Live (⟨c'.fd, POLLIN, 0#16⟩, c') := by
      simp [Live, Dead, POLLIN, hstatus]
    refine .cons ⟨?_, ?_, hlive⟩ .nil
    · rw [hfd]
    · simp [entryKey, hfd, haddr]
  | false =>
    rw [hs.register_of_full c' hroom]
    exact entered_none hs (reportedFds_of_quiet ht)

theorem acceptClient_enters (hcb : cb.Steady) (hs : InSync s) :
    ∃ m' t, acceptClient sys cb c ⟨s, w⟩ = ⟨.ok 0, m', t⟩ ∧
      (∀ fd ∈ closedFds t, fd = c.fd) ∧ Entered (admission cb s c w) s m'.server t := by
  unfold acceptClient conHandleConnect admission
  rw [Proc.emit_bind_run]
  cases hf : cb.onconnect with
  | none =>
    rw [Proc.pure_bind_run]
    dsimp only
    rw [Proc.when_pos rfl, Proc.bind_run_ok (close_run sys _ _)]
    refine ⟨_, _, rfl, ?_, entered_none hs rfl⟩
    intro fd hfd
    exact List.mem_singleton.mp hfd
  | some onconnect =>
    obtain ⟨status, c', w', out, hrun, hretry, haddr, -⟩ := hcb.handler .onconnect hf s c w
    dsimp only
    rw [hrun, Proc.bind_assoc_run, Proc.bind_run_ok (invoke_run_ok .onconnect hrun)]
    dsimp only
    cases status with
    | retry => exact absurd rfl hretry
    | kill =>
      rw [if_neg (by simp), if_neg (by simp), Proc.pure_bind_run]
      dsimp only
      rw [Proc.when_pos rfl, Proc.bind_run_ok (close_run sys _ _)]
      refine ⟨_, _, rfl, ?_, entered_none hs rfl⟩
      intro fd hfd
      exact List.mem_singleton.mp hfd
    | keepAlive =>
      rw [if_pos (by simp), Proc.bind_assoc_run, call_bind_run, Proc.bind_assoc_run,
        Proc.bind_run_ok (registerClient_run _ _), Proc.pure_bind_run]
      dsimp only
      rw [Proc.when_neg (by simp), Proc.pure_bind_run]
      have hquiet : ∀ e ∈ .accepted c.fd :: .callback .onconnect s c (some .keepAlive) out ::
          s.registerEvents (ε := ε) c.fd, Quiet e := by
        simpa [Quiet] using quiet_registerEvents s c.fd
      simp only [Proc.pure_run, List.append_nil, List.singleton_append, ne_eq, reduceCtorEq,
        not_false_eq_true, true_and]
      have hfd : (c.admitted c' .keepAlive (sys.clock w').1).fd = c.fd := rfl
      refine ⟨_, _, rfl, ?_, entered_register hs hfd haddr rfl hquiet⟩
      intro fd hfd
      rw [closedFds_of_quiet hquiet] at hfd
      cases hfd

theorem InSync.afterPoll {m : Machine ω} (hs : InSync m.server) :
    InSync (afterPoll sys m).server := by
  refine ⟨?_, hs.cap⟩
  refine (map_fd_mapIdx ?_).trans hs.fds
  intro _ _
  rfl

/-- Accepting, when the listener is not in error. -/
theorem conAcceptConnections_enters (hcb : cb.Steady) {m : Machine ω} (hs : InSync m.server)
    (hlistener : ∀ pfd, (afterPoll sys m).server.poll.items.head? = some pfd →
      pfd.failed = false) :
    ∃ m' t, conAcceptConnections sys cb (afterPoll sys m) = ⟨.ok 0, m', t⟩ ∧
      (∀ fd ∈ closedFds t, fd = acceptedFd sys m ∧ 0 ≤ fd) ∧
      Entered (newcomer sys cb m) (afterPoll sys m).server m'.server t := by
  have hs' := hs.afterPoll sys
  have hquiet : ∀ fd ∈ closedFds ([] : List (ConnEvent ε)), fd = acceptedFd sys m ∧ 0 ≤ fd := by
    intro fd hmem
    cases hmem
  obtain ⟨listener, hhead⟩ : ∃ pfd, (afterPoll sys m).server.poll.items.head? = some pfd := by
    have h := hs'.fds
    cases hitems : (afterPoll sys m).server.poll.items with
    | nil =>
      rw [hitems] at h
      cases h
    | cons pfd _ => exact ⟨pfd, rfl⟩
  have hokay := hlistener listener hhead
  rw [PollFd.failed, Bool.or_eq_false_iff, Bool.or_eq_false_iff] at hokay
  obtain ⟨⟨herr, hnval⟩, hhup⟩ := hokay
  have hitem : (afterPoll sys m).server.poll.items[0]? = some listener := by
    rw [← List.head?_eq_getElem?, hhead]
  unfold conAcceptConnections newcomer
  rw [Proc.bind_run_ok (pollItem_run hitem), if_neg (by rw [herr]; simp),
    if_neg (by rw [hhup, hnval]; simp)]
  simp only [hhead, Option.any_some]
  cases hin : listener.has POLLIN with
  | false =>
    rw [if_neg (by simp), if_neg (by simp)]
    exact ⟨_, _, rfl, hquiet, entered_none hs' rfl⟩
  | true =>
    unfold Conn.server
    rw [if_pos rfl, Proc.step_bind_run, call_bind_run]
    dsimp only
    split
    · rename_i hneg
      rw [if_neg fun h => absurd h.2 (Int.not_le.mpr hneg)]
      exact ⟨_, _, rfl, hquiet, entered_none hs' rfl⟩
    · rename_i hpos
      rw [if_pos ⟨rfl, Int.not_lt.mp hpos⟩]
      obtain ⟨m', t, hrun, hclosed, hentered⟩ := acceptClient_enters sys hcb hs'
      refine ⟨m', t, hrun, ?_, hentered⟩
      intro fd hmem
      rw [hclosed fd hmem]
      exact ⟨rfl, Int.not_lt.mp hpos⟩

end Accepting

/-! ## The candidates are visited -/

section Handling

variable (sys : Sys ω) {cb : Callbacks ω ε} {m : Machine ω}

/-- `poll` changes the `revents` of the entries. -/
theorem entries_afterPoll (hs : InSync m.server) : (afterPoll sys m).server.entries =
    m.server.entries.mapIdx fun k entry =>
      ({ entry.1 with revents := (pollAnswer sys m).revents (k + 1) }, entry.2) := by
  refine entries_of_maps ?_ ?_
  · refine List.ext_getElem? fun i => ?_
    have htail : m.server.poll.items[i + 1]? = m.server.entries[i]?.map Prod.fst := by
      rw [← List.getElem?_tail, ← hs.map_fst_entries, List.getElem?_map]
    show (m.server.poll.items.mapIdx _).tail[i]? = _
    rw [List.getElem?_tail, List.getElem?_mapIdx, htail, List.getElem?_map, List.getElem?_mapIdx,
      Option.map_map, Option.map_map]
    rfl
  · refine List.ext_getElem? fun i => ?_
    show m.server.clients.items[i]? = _
    rw [← hs.map_snd_entries, List.getElem?_map, List.getElem?_map, List.getElem?_mapIdx,
      Option.map_map]
    rfl

/-- The clients and their descriptors stay as they were. -/
theorem map_entries_afterPoll {α : Type} (hs : InSync m.server) {f : PollFd × Client → α}
    (hf : ∀ pfd c revents, f ({ pfd with revents := revents }, c) = f (pfd, c)) :
    (afterPoll sys m).server.entries.map f = m.server.entries.map f := by
  rw [entries_afterPoll sys hs]
  refine List.ext_getElem? fun i => ?_
  rw [List.getElem?_map, List.getElem?_mapIdx, List.getElem?_map, Option.map_map]
  cases m.server.entries[i]? with
  | none => rfl
  | some entry => exact congrArg some (hf entry.1 entry.2 _)

theorem live_afterPoll (hs : InSync m.server) (hlive : ∀ entry ∈ m.server.entries, Live entry) :
    ∀ entry ∈ (afterPoll sys m).server.entries, Live entry := by
  have hmap := map_entries_afterPoll sys (f := fun entry => Live entry) hs fun _ _ _ => rfl
  intro entry hmem
  have hprop : Live entry ∈ m.server.entries.map fun entry => Live entry := by
    rw [← hmap]
    exact List.mem_map_of_mem hmem
  obtain ⟨entry', hmem', heq⟩ := List.mem_map.mp hprop
  exact heq ▸ hlive entry' hmem'

/-- The newcomer is the connection that `accept` returned. -/
theorem newcomer_cases (cb : Callbacks ω ε) (m : Machine ω) : newcomer sys cb m = [] ∨
    ∃ entry, newcomer sys cb m = [entry] ∧ entry.2.fd = acceptedFd sys m ∧
      0 ≤ acceptedFd sys m := by
  unfold newcomer
  dsimp only
  split
  · rename_i haccepted
    unfold admission
    split
    · exact .inl rfl
    · split
      · exact .inl rfl
      · split
        · exact .inr ⟨_, rfl, rfl, haccepted.2⟩
        · exact .inl rfl
  · exact .inl rfl

/-- What the loops leave for the deletion pass. -/
structure Handled (sys : Sys ω) (cb : Callbacks ω ε) (m : Machine ω) (s : Server)
    (t : List (ConnEvent ε)) : Prop where
  inSync : InSync s
  length : s.entries.length = (candidates sys cb m).length
  visited : ∀ {k entry}, (candidates sys cb m)[k]? = some entry →
    ∃ entry', s.entries[k]? = some entry' ∧ Visited (MustGo sys cb m k entry) entry entry'
  closed : ∀ entry ∈ candidates sys cb m, entry.2.fd ∉ closedFds t
  reported : reportedFds t = []

/-- The entry that stands for a candidate, in front of the loop. -/
def Stands (candidate entry : PollFd × Client) : Prop :=
  entry.1 = candidate.1 ∧ entryKey entry = entryKey candidate ∧ Live entry

theorem AllVisited.of_stands {gone : Nat → PollFd × Client → Prop} {s s' : Server}
    {candidates : List (PollFd × Client)} (h : AllVisited gone s s')
    (hstands : List.Forall₂ Stands candidates s.entries) :
    s'.entries.length = candidates.length ∧ ∀ {k candidate}, candidates[k]? = some candidate →
      ∃ entry entry', Stands candidate entry ∧ s'.entries[k]? = some entry' ∧
        Visited (gone k entry) candidate entry' := by
  refine ⟨h.length.trans hstands.length_eq.symm, ?_⟩
  intro k candidate hmem
  obtain ⟨hlt, hget⟩ := List.getElem?_eq_some_iff.mp hmem
  have hlt' : k < s.entries.length := hstands.length_eq ▸ hlt
  have hrel : Stands candidate s.entries[k] := by
    have h := hstands.get hlt hlt'
    rw [List.get_eq_getElem, List.get_eq_getElem, hget] at h
    exact h
  obtain ⟨entry', hentry', hvisited⟩ := h.visited (List.getElem?_eq_getElem hlt')
  exact ⟨_, entry', hrel, hentry', hvisited.key.trans hrel.2.1, hvisited.dead⟩

/-- Something has happened: the listener and the clients are served. -/
theorem handleEvents_events (hcb : cb.Steady) (hs : InSync m.server)
    (hlive : ∀ entry ∈ m.server.entries, Live entry)
    (hcount : 0 < (pollAnswer sys m).count)
    (hlistener : ∀ pfd, (afterPoll sys m).server.poll.items.head? = some pfd →
      pfd.failed = false)
    (hfresh : 0 ≤ acceptedFd sys m → acceptedFd sys m ∉ m.server.fds) :
    ∃ m' t, handleEvents sys cb (pollAnswer sys m).count (afterPoll sys m) = ⟨.ok (), m', t⟩ ∧
      Handled sys cb m m'.server t := by
  obtain ⟨m₁, t₁, haccept, hclosed, hentered⟩ :=
    conAcceptConnections_enters sys hcb hs hlistener
  obtain ⟨new, hentries, hnew⟩ := hentered.entries
  have hcandidates : candidates sys cb m =
      (afterPoll sys m).server.entries ++ newcomer sys cb m := by
    rw [candidates, if_pos hcount]
  have hstands : List.Forall₂ Stands (candidates sys cb m) m₁.server.entries := by
    rw [hcandidates, hentries]
    refine List.rel_append ?_ hnew
    exact List.forall₂_same.mpr fun entry hmem => ⟨rfl, rfl, live_afterPoll sys hs hlive entry hmem⟩
  have hmachine : ∀ k, eventMachine sys cb m k = Proc.rounds (eventRound sys cb) 1 m₁ k := by
    intro k
    rw [eventMachine, haccept]
  have hlive₁ : ∀ entry ∈ m₁.server.entries, Live entry := by
    intro entry hmem
    obtain ⟨k, hk, rfl⟩ := List.getElem_of_mem hmem
    exact (hstands.get (hstands.length_eq ▸ hk) hk).2.2
  obtain ⟨m₂, t₂, hloop, hall⟩ := loop_visits (eventRound sys cb)
    (fun k entry => EventGone sys cb k entry.1 (Proc.rounds (eventRound sys cb) 1 m₁ k))
    hentered.inSync hlive₁ fun hs' hentry hlive' => eventRound_visits sys hcb hs' hentry hlive'
  have hevents : eventLoop sys cb m₁ = ⟨.ok (), m₂, t₂⟩ := by
    unfold eventLoop Conn.server
    rw [Proc.step_bind_run]
    exact hloop
  have hquiet : ∀ e ∈ t₂, Quiet e := by
    have h := emits_eventLoop sys cb (P := Quiet) (fun _ => trivial) (fun _ _ _ _ => trivial)
      (fun _ _ _ _ => trivial) m₁
    rwa [hevents] at h
  obtain ⟨hlength, hvisited⟩ := hall.of_stands hstands
  refine ⟨m₂, t₁ ++ t₂, ?_, hall.inSync, hlength, ?_, ?_, ?_⟩
  · unfold handleEvents
    rw [if_pos hcount, Proc.bind_run_ok haccept, if_neg (by simp), hevents]
  · intro k candidate hmem
    obtain ⟨entry, entry', hstand, hentry', hkey, hdead⟩ := hvisited hmem
    refine ⟨entry', hentry', hkey, ?_⟩
    rw [hdead, MustGo, if_pos hcount, EventGone, hmachine, hstand.1]
  · intro entry hmem
    rw [closedFds_append, closedFds_of_quiet hquiet, List.append_nil]
    rw [hcandidates] at hmem
    rcases List.mem_append.mp hmem with hold | hnew
    · intro hfd
      have hregistered : entry.2.fd ∈ m.server.fds := by
        rw [hs.fds_eq_entries, ← map_entries_afterPoll sys (f := (·.2.fd)) hs fun _ _ _ => rfl]
        exact List.mem_map_of_mem hold
      obtain ⟨heq, hpos⟩ := hclosed _ hfd
      rw [heq] at hpos hregistered
      exact hfresh hpos hregistered
    · rw [hentered.closed (List.ne_nil_of_mem hnew)]
      exact List.not_mem_nil
  · rw [reportedFds_append, hentered.reported, reportedFds_of_quiet hquiet]
    rfl

/-- Nothing has happened: the clients are pinged, if there is an `onping`. -/
theorem handleEvents_pings (hcb : cb.Steady) (hs : InSync m.server)
    (hlive : ∀ entry ∈ m.server.entries, Live entry)
    (hcount : ¬ 0 < (pollAnswer sys m).count) :
    ∃ m' t, handleEvents sys cb (pollAnswer sys m).count (afterPoll sys m) = ⟨.ok (), m', t⟩ ∧
      Handled sys cb m m'.server t := by
  have hs' := hs.afterPoll sys
  have hlive' := live_afterPoll sys hs hlive
  have hcandidates : candidates sys cb m = (afterPoll sys m).server.entries := by
    rw [candidates, if_neg hcount, List.append_nil]
  unfold handleEvents
  rw [if_neg hcount]
  cases hf : cb.onping with
  | none =>
    refine ⟨_, _, rfl, hs', by rw [hcandidates], ?_, fun _ _ => List.not_mem_nil, rfl⟩
    intro k entry hmem
    rw [hcandidates] at hmem
    refine ⟨entry, hmem, rfl, ?_⟩
    rw [MustGo, if_neg hcount, hf]
    exact iff_of_false (hlive' _ (List.mem_of_getElem? hmem)).1 not_false
  | some f =>
    obtain ⟨m₂, t₂, hloop, hall⟩ := loop_visits (pingRound sys f)
      (fun k _ => AnswersKill .onping
        (pingRound sys f (k + 1) (Proc.rounds (pingRound sys f) 1 (afterPoll sys m) k)).out)
      hs' hlive' fun hs' hentry hlive' => pingRound_visits sys hcb hf hs' hentry hlive'
    have hpings : pingLoop sys f (afterPoll sys m) = ⟨.ok (), m₂, t₂⟩ := by
      unfold pingLoop Conn.server
      rw [Proc.step_bind_run]
      exact hloop
    have hquiet : ∀ e ∈ t₂, Quiet e := by
      have h := emits_pingLoop sys f (P := Quiet) (fun _ _ _ _ => trivial) (afterPoll sys m)
      rwa [hpings] at h
    refine ⟨m₂, t₂, hpings, hall.inSync, by rw [hcandidates, hall.length], ?_, ?_,
      reportedFds_of_quiet hquiet⟩
    · intro k entry hmem
      rw [hcandidates] at hmem
      obtain ⟨entry', hentry', hkey, hdead⟩ := hall.visited hmem
      refine ⟨entry', hentry', hkey, ?_⟩
      rw [hdead, MustGo, if_neg hcount, hf]
      rfl
    · intro _ _
      rw [closedFds_of_quiet hquiet]
      exact List.not_mem_nil

/-! ## The candidates that are removed -/

theorem fds_candidates (cb : Callbacks ω ε) (hs : InSync m.server) (hnodup : m.server.fds.Nodup)
    (hfresh : 0 ≤ acceptedFd sys m → acceptedFd sys m ∉ m.server.fds) :
    ((candidates sys cb m).map (·.2.fd)).Nodup := by
  have hold : (afterPoll sys m).server.entries.map (·.2.fd) = m.server.fds := by
    rw [hs.fds_eq_entries, map_entries_afterPoll sys (f := (·.2.fd)) hs fun _ _ _ => rfl]
  unfold candidates
  rw [List.map_append, hold]
  split
  · rcases newcomer_cases sys cb m with hnone | ⟨entry, hone, hfd, hpos⟩
    · rw [hnone]
      simpa using hnodup
    · rw [hone, List.map_singleton, hfd]
      refine List.nodup_append_comm.mp (List.nodup_cons.mpr ⟨?_, ?_⟩)
      · simpa using hfresh hpos
      · simpa using hnodup
  · simpa using hnodup

/-- Both halves of an entry have the same descriptor. -/
theorem InSync.fst_fd_entries {s : Server} (hs : InSync s) :
    s.entries.map (·.1.fd) = s.entries.map (·.2.fd) := by
  have hpoll : s.entries.map (·.1.fd) = s.poll.items.tail.map (·.fd) := by
    rw [← hs.map_fst_entries, List.map_map]
    rfl
  rw [hpoll, List.map_tail, hs.fds, ← hs.fds_eq_entries]
  rfl

section Removed

variable {sys} {s : Server} {t : List (ConnEvent ε)} (h : Handled sys cb m s t)

include h

theorem Handled.candidate {k : Nat} {entry' : PollFd × Client}
    (hentry : s.entries[k]? = some entry') :
    ∃ entry, (candidates sys cb m)[k]? = some entry ∧
      Visited (MustGo sys cb m k entry) entry entry' := by
  obtain ⟨hlt, -⟩ := List.getElem?_eq_some_iff.mp hentry
  rw [h.length] at hlt
  have hget := List.getElem?_eq_getElem hlt
  obtain ⟨entry'', hentry'', hvisited⟩ := h.visited hget
  rw [hentry] at hentry''
  obtain rfl := Option.some.inj hentry''
  exact ⟨_, hget, hvisited⟩

theorem Handled.fds : s.entries.map (·.2.fd) = (candidates sys cb m).map (·.2.fd) := by
  refine List.ext_getElem? fun k => ?_
  rw [List.getElem?_map, List.getElem?_map]
  cases hget : (candidates sys cb m)[k]? with
  | none =>
    rw [List.getElem?_eq_none_iff, ← h.length, ← List.getElem?_eq_none_iff] at hget
    rw [hget]
  | some entry =>
    obtain ⟨entry', hentry', hkey, -⟩ := h.visited hget
    have hfd : entry'.2.fd = entry.2.fd := congrArg (·.2.1) hkey
    rw [hentry', Option.map_some, Option.map_some, hfd]

/-- The dead entries are those of the candidates that must go. -/
theorem Handled.mem_dead (hnodup : ((candidates sys cb m).map (·.2.fd)).Nodup) {k : Nat}
    {entry : PollFd × Client} (hentry : (candidates sys cb m)[k]? = some entry) :
    entry.2.fd ∈ (s.entries.filter (Dead ·)).map (·.2.fd) ↔ MustGo sys cb m k entry := by
  obtain ⟨entry', hentry', hkey, hdead⟩ := h.visited hentry
  have hfd : entry'.2.fd = entry.2.fd := congrArg (·.2.1) hkey
  have hmem' : entry' ∈ s.entries := List.mem_of_getElem? hentry'
  rw [← h.fds] at hnodup
  rw [← hdead, List.mem_map]
  constructor
  · rintro ⟨entry'', hmem, hsame⟩
    obtain ⟨hmem'', hdead''⟩ := List.mem_filter.mp hmem
    have heq : entry'' = entry' :=
      List.inj_on_of_nodup_map hnodup hmem'' hmem' (hsame.trans hfd.symm)
    rw [← heq]
    simpa using hdead''
  · intro hdead'
    exact ⟨entry', List.mem_filter.mpr ⟨hmem', by simpa using hdead'⟩, hfd⟩

/-- The entries that are alive are those of the candidates that need not go. -/
theorem Handled.mem_alive {s' : Server} (hkept : s'.entries.Perm (s.entries.filter (¬ Dead ·)))
    (key : Int × Int × SockAddr) : key ∈ s'.entries.map entryKey ↔ ∃ k candidate,
      (candidates sys cb m)[k]? = some candidate ∧ entryKey candidate = key ∧
        ¬ MustGo sys cb m k candidate := by
  rw [(hkept.map entryKey).mem_iff, List.mem_map]
  constructor
  · rintro ⟨entry', hmem, rfl⟩
    obtain ⟨hmem', halive⟩ := List.mem_filter.mp hmem
    obtain ⟨k, hk⟩ := List.getElem?_of_mem hmem'
    obtain ⟨candidate, hcandidate, hkey, hiff⟩ := h.candidate hk
    refine ⟨k, candidate, hcandidate, hkey.symm, ?_⟩
    rw [← hiff]
    simpa using halive
  · rintro ⟨k, candidate, hcandidate, rfl, hstay⟩
    obtain ⟨entry', hentry', hkey, hiff⟩ := h.visited hcandidate
    refine ⟨entry', List.mem_filter.mpr ⟨List.mem_of_getElem? hentry', ?_⟩, hkey⟩
    rw [← hiff] at hstay
    simpa using hstay

/-- A list of the descriptors of the dead entries has each candidate that must go once, and no
other one. -/
theorem Handled.count_dead (hnodup : ((candidates sys cb m).map (·.2.fd)).Nodup) {k : Nat}
    {candidate : PollFd × Client} (hcandidate : (candidates sys cb m)[k]? = some candidate)
    {fds : List Int} (hfds : fds.Perm ((s.entries.filter (Dead ·)).map (·.2.fd))) :
    (MustGo sys cb m k candidate → fds.count candidate.2.fd = 1) ∧
      (¬ MustGo sys cb m k candidate → candidate.2.fd ∉ fds) := by
  have hiff := h.mem_dead hnodup hcandidate
  have hdead : ((s.entries.filter (Dead ·)).map (·.2.fd)).Nodup := by
    rw [← h.fds] at hnodup
    exact hnodup.sublist (List.filter_sublist.map _)
  refine ⟨fun hgo => ?_, fun hstay hmem => ?_⟩
  · rw [hfds.count_eq, List.count_eq_one_of_mem hdead (hiff.mpr hgo)]
  · rw [hfds.mem_iff, hiff] at hmem
    exact hstay hmem

end Removed

/-- With steady callbacks the deletion pass returns. -/
theorem deleteLoop_returns (hcb : cb.Steady) (hs : InSync m.server) :
    ∃ m' t, deleteLoop sys cb m = ⟨.ok (), m', t⟩ := by
  have hpost := deleteLoop_sweeps sys cb [] m ⟨rfl, hs, rfl⟩
  unfold Proc.Post at hpost
  split at hpost
  · rename_i u hok
    exact ⟨_, _, Result.eq_ok hok⟩
  · exact absurd hpost hcb.not_reportHalts

/-- **One call removes exactly the clients that must go.**  The callbacks are steady, the
registered clients are alive and their descriptors distinct, the listener is not in error, and
`accept` returns no registered descriptor.  Then the call returns; afterwards the candidates
that need not go are registered, each with its own entry of the poll table, and nobody else.
Each candidate that must go is closed once and reported once, and no other is. -/
theorem conPollEvents_removes (hcb : cb.Steady) (hs : InSync m.server)
    (hnodup : m.server.fds.Nodup) (hlive : ∀ entry ∈ m.server.entries, Live entry)
    (hlistener : 0 < (pollAnswer sys m).count →
      ∀ pfd, (afterPoll sys m).server.poll.items.head? = some pfd → pfd.failed = false)
    (hfresh : 0 ≤ acceptedFd sys m → acceptedFd sys m ∉ m.server.fds) :
    ∃ m' t, conPollEvents sys cb m = ⟨.ok (), m', t⟩ ∧ InSync m'.server ∧ m'.server.fds.Nodup ∧
      (∀ key, key ∈ m'.server.entries.map entryKey ↔ ∃ k candidate,
        (candidates sys cb m)[k]? = some candidate ∧ entryKey candidate = key ∧
          ¬ MustGo sys cb m k candidate) ∧
      ∀ k candidate, (candidates sys cb m)[k]? = some candidate →
        (MustGo sys cb m k candidate → (closedFds t).count candidate.2.fd = 1 ∧
          (cb.ondisconnect ≠ none → (reportedFds t).count candidate.2.fd = 1)) ∧
        (¬ MustGo sys cb m k candidate → candidate.2.fd ∉ closedFds t ∧
          candidate.2.fd ∉ reportedFds t) := by
  obtain ⟨m₁, t₁, hhandle, h⟩ : ∃ m' t,
      handleEvents sys cb (pollAnswer sys m).count (afterPoll sys m) = ⟨.ok (), m', t⟩ ∧
        Handled sys cb m m'.server t := by
    by_cases hcount : 0 < (pollAnswer sys m).count
    · exact handleEvents_events sys hcb hs hlive hcount (hlistener hcount) hfresh
    · exact handleEvents_pings sys hcb hs hlive hcount
  obtain ⟨m₂, t₂, hdelete⟩ := deleteLoop_returns sys hcb h.inSync
  obtain ⟨hs₂, hkept, removed, hremoved, hclosed, hreported⟩ :=
    deleteLoop_run sys cb h.inSync hdelete
  have hcandidates := fds_candidates sys cb hs hnodup hfresh
  have hsame : (m₁.server.entries.filter (Dead ·)).map (·.1.fd) =
      (m₁.server.entries.filter (Dead ·)).map (·.2.fd) := by
    refine List.map_congr_left fun entry hmem => ?_
    exact List.map_inj_left.mp h.inSync.fst_fd_entries entry (List.mem_filter.mp hmem).1
  have hclosed₂ : (closedFds t₂).Perm ((m₁.server.entries.filter (Dead ·)).map (·.2.fd)) := by
    rw [hclosed, ← hsame]
    exact hremoved.map _
  refine ⟨m₂, t₁ ++ t₂, ?_, hs₂, ?_, h.mem_alive hkept, ?_⟩
  · unfold conPollEvents
    rw [Proc.bind_run_ok (conHasEvents_run sys m), Proc.bind_run_ok hhandle, hdelete]
    rfl
  · rw [hs₂.fds_eq_entries, (hkept.map _).nodup_iff]
    rw [← h.fds] at hcandidates
    exact hcandidates.sublist (List.filter_sublist.map _)
  · intro k candidate hcandidate
    obtain ⟨hclosedOnce, hnotClosed⟩ := h.count_dead hcandidates hcandidate hclosed₂
    obtain ⟨hremovedOnce, hnotRemoved⟩ :=
      h.count_dead hcandidates hcandidate (hremoved.map (·.2.fd))
    have hbefore := h.closed candidate (List.mem_of_getElem? hcandidate)
    rw [closedFds_append, reportedFds_append, h.reported, List.nil_append]
    refine ⟨fun hgo => ⟨?_, fun hondisconnect => ?_⟩, fun hstay => ⟨?_, ?_⟩⟩
    · rw [List.count_append, List.count_eq_zero_of_not_mem hbefore, hclosedOnce hgo]
    · obtain ⟨f, hf⟩ := Option.ne_none_iff_exists'.mp hondisconnect
      rw [hreported, Callbacks.reports, hf]
      exact hremovedOnce hgo
    · rw [List.mem_append, not_or]
      exact ⟨hbefore, hnotClosed hstay⟩
    · rw [hreported]
      unfold Callbacks.reports
      split
      · exact List.not_mem_nil
      · exact hnotRemoved hstay

end Handling

theorem constantCallbacks_steady {status : ConnStatus} (h : status ≠ .retry) :
    (constantCallbacks (ε := ε) status).Steady where
  handler kind f hf := by
    intro s c w
    cases kind with
    | onconnect =>
      cases hf
      exact ⟨status, c, w, [], rfl, h, rfl, rfl⟩
    | onmessage =>
      cases hf
      exact ⟨.keepAlive, c, w, [], rfl, by decide, rfl, rfl⟩
    | ondisconnect => cases hf
    | onping => cases hf
  ondisconnect hf := by cases hf

/-- A server with the clients `4` and `5`. -/
def twoRegistered (script : Script) : Machine Script where
  server :=
    { Server.blank with
      fd := 3
      poll := ⟨[⟨3, POLLIN, 0#16⟩, ⟨4, POLLIN, 0#16⟩, ⟨5, POLLIN, 0#16⟩], 3, by decide⟩
      clients := ⟨[{ Client.blank with fd := 4, status := .keepAlive },
        { Client.blank with fd := 5, status := .keepAlive }], 2, by decide⟩ }
  world := script

/-- The client `4` has hung up, and `5` has not. -/
def oneHangsUp : Script where
  polls := [(1, [0#16, POLLIN])]
  recvs := [some [], some [1]]

theorem conPollEvents_removes_hang_up : ∃ m' t,
    conPollEvents Script.sys (constantCallbacks (ε := Unit) .keepAlive)
      (twoRegistered oneHangsUp) = ⟨.ok (), m', t⟩ ∧
    (closedFds t).count 4 = 1 ∧ (5, 5, Client.blank.addr) ∈ m'.server.entries.map entryKey := by
  have hcb : (constantCallbacks (ε := Unit) .keepAlive).Steady :=
    constantCallbacks_steady (by decide)
  have hlive : ∀ entry ∈ (twoRegistered oneHangsUp).server.entries, Live entry := by
    simp [twoRegistered, Server.entries, Live, Dead, POLLIN]
  obtain ⟨m', t, hrun, -, -, hkeys, hgo⟩ := conPollEvents_removes Script.sys hcb
    (m := twoRegistered oneHangsUp) ⟨by decide, by decide⟩ (by decide) hlive
    (fun _ pfd hpfd => by cases hpfd; decide) (fun h => absurd h (by decide))
  refine ⟨m', t, hrun, ?_, ?_⟩
  · exact ((hgo 0 _ rfl).1 (by rw [MustGo, if_pos (by decide)]; exact .inl rfl)).1
  · refine (hkeys _).mpr ⟨1, _, rfl, rfl, ?_⟩
    rw [MustGo, if_pos (by decide)]
    rintro (hpeek | hfailed | ⟨_, _, _, hmessage⟩)
    · cases hpeek
    · cases hfailed
    · cases hmessage

end NoGround
