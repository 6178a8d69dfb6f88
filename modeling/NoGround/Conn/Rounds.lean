/-
  Conn/Rounds.lean --- what one round of the event loop or of the ping loop does.

  Conn/Refine says that a round is a run of steps.  Here is which run: one constructor for
  each way through the body of the loop, with its outcome, the tables afterwards and the
  events.  `Delivered` is the message, `EventHandled` the round around it, `PingHandled` a
  round of the ping loop.  Whatever is proved about a round is proved by cases on these, and
  whatever is proved about accepting by cases on `AcceptHandled`.
-/
import NoGround.Conn.Refine

set_option autoImplicit false

namespace NoGround

open NoGround.Lib

variable {ω ε : Type}

/-! ## Running the primitives -/

section Primitives

variable {m : Machine ω}

theorem pollItem_run {index : Nat} {pfd : PollFd}
    (h : m.server.poll.items[index]? = some pfd) :
    (Conn.pollItem index : Conn ω ε PollFd) m = ⟨.ok pfd, m, []⟩ := by
  unfold Conn.pollItem
  rw [h]

theorem clientItem_run {slot : Nat} {c : Client} (h : m.server.clients.items[slot]? = some c) :
    (Conn.clientItem slot : Conn ω ε Client) m = ⟨.ok c, m, []⟩ := by
  unfold Conn.clientItem
  rw [h]

theorem setClient_bind_run {α : Type} (slot : Nat) (c : Client) (f : Unit → Conn ω ε α) :
    (Conn.setClient slot c >>= f) m = f () { m with server := m.server.setClient slot c } := by
  unfold Conn.setClient Conn.update
  rw [Proc.modify_bind_run]

theorem call_bind_run {α β : Type} (g : ω → α × ω) (f : α → Conn ω ε β) :
    (Conn.call g >>= f) m = f (g m.world).1 { m with world := (g m.world).2 } := by
  unfold Conn.call
  rw [Proc.step_bind_run]

theorem invoke_run_ok (kind : CallbackKind) {f : Callback ω ε} {c c' : Client} {s : Server}
    {status : ConnStatus} {w w' : ω} {out : List ε} (h : f s c w = ⟨.ok (status, c'), w', out⟩) :
    Conn.invoke kind f c ⟨s, w⟩ = ⟨.ok (status, { c' with fd := c.fd }), ⟨s, w'⟩,
      [.callback kind s c (some status) out]⟩ := by
  unfold Conn.invoke
  rw [h]

theorem invoke_run_error (kind : CallbackKind) {f : Callback ω ε} {c : Client} {s : Server}
    {e : Halt} {w w' : ω} {out : List ε} (h : f s c w = ⟨.error e, w', out⟩) :
    Conn.invoke kind f c ⟨s, w⟩ = ⟨.error e, ⟨s, w'⟩, [.callback kind s c none out]⟩ := by
  unfold Conn.invoke
  rw [h]

/-- Writing a record twice. -/
theorem setClient_setClient (s : Server) (slot : Nat) (c c' : Client) :
    (s.setClient slot c).setClient slot c' = s.setClient slot c' := by
  simp [Server.setClient, Table.set]

/-- Writing a record that is there. -/
theorem setClient_self {s : Server} {slot : Nat} {c : Client}
    (h : s.clients.items[slot]? = some c) : s.setClient slot c = s := by
  obtain ⟨hlt, hget⟩ := List.getElem?_eq_some_iff.mp h
  have hset : s.clients.items.set slot c = s.clients.items := by
    rw [← hget, List.set_getElem_self]
  simp [Server.setClient, Table.set, hset]

end Primitives

/-- Mark entry `index` as deleted, if `gone`. -/
def Server.markIf (s : Server) (index : Nat) (gone : Prop) [Decidable gone] : Server :=
  if gone then s.markDeleted index else s

theorem markIf_run (index : Nat) (gone : Prop) [Decidable gone] (m : Machine ω) :
    (Proc.when gone (Conn.markDeleted index) : Conn ω ε Unit) m =
      ⟨.ok (), { m with server := m.server.markIf index gone }, []⟩ := by
  unfold Proc.when Server.markIf
  split
  · rfl
  · rfl

/-! ## A message -/

/-- The record with a new time. -/
def Client.stamped (c : Client) (now : Int) : Client := { c with last_updated := now }

/-- The results of `deliverMessage` for the client `c` of entry `index`. -/
inductive Delivered (cb : Callbacks ω ε) (s : Server) (index : Nat) (c : Client) :
    Except Halt Unit → Server → List (ConnEvent ε) → Prop where
  | unheard (hf : cb.onmessage = none) : Delivered cb s index c (.ok ()) s []
  | halted {f : Callback ω ε} {e : Halt} {w w' : ω} {out : List ε} (now : Int)
      (hf : cb.onmessage = some f)
      (hrun : f (s.setClient (index - 1) (c.stamped now)) (c.stamped now) w =
        ⟨.error e, w', out⟩) :
      Delivered cb s index c (.error e) (s.setClient (index - 1) (c.stamped now))
        [.callback .onmessage (s.setClient (index - 1) (c.stamped now)) (c.stamped now) none out]
  | heard {f : Callback ω ε} {status : ConnStatus} {c' : Client} {w w' : ω} {out : List ε}
      (now : Int) (hf : cb.onmessage = some f)
      (hrun : f (s.setClient (index - 1) (c.stamped now)) (c.stamped now) w =
        ⟨.ok (status, c'), w', out⟩) :
      Delivered cb s index c (.ok ())
        ((s.setClient (index - 1) { c' with fd := c.fd }).markIf index (status = .kill))
        [.callback .onmessage (s.setClient (index - 1) (c.stamped now)) (c.stamped now)
          (some status) out]

/-- The message up to the call of `onmessage`: the two writes before it are one. -/
theorem deliverMessage_eq (sys : Sys ω) {cb : Callbacks ω ε} {f : Callback ω ε}
    (hf : cb.onmessage = some f) {index : Nat} {c : Client} {m : Machine ω}
    (hc : m.server.clients.items[index - 1]? = some c) :
    deliverMessage sys cb index m =
      (Conn.invoke .onmessage f (c.stamped (sys.clock m.world).1) >>= fun p =>
        Conn.setClient (index - 1) p.2 >>= fun _ =>
        Proc.when (p.1 = .kill) (Conn.markDeleted index))
      ⟨m.server.setClient (index - 1) (c.stamped (sys.clock m.world).1),
        (sys.clock m.world).2⟩ := by
  have hread := getElem?_setClient { c with last_updated := 0 } hc
  unfold deliverMessage Client.stamped
  rw [hf]
  dsimp only
  rw [Proc.bind_run_ok (clientItem_run hc), setClient_bind_run]
  unfold conHandleReceivData
  rw [Proc.bind_assoc_run, call_bind_run, Proc.bind_assoc_run,
    Proc.bind_run_ok (clientItem_run hread), Proc.bind_assoc_run, setClient_bind_run]
  dsimp only
  rw [setClient_setClient, Proc.bind_assoc_run]
  rfl

theorem deliverMessage_delivered (sys : Sys ω) (cb : Callbacks ω ε) {index : Nat} {c : Client}
    {m : Machine ω} (hc : m.server.clients.items[index - 1]? = some c) :
    Delivered cb m.server index c (deliverMessage sys cb index m).outcome
      (deliverMessage sys cb index m).state.server (deliverMessage sys cb index m).out := by
  cases hf : cb.onmessage with
  | none =>
    unfold deliverMessage
    rw [hf]
    exact .unheard hf
  | some f =>
    rw [deliverMessage_eq sys hf hc]
    rcases hrun : f (m.server.setClient (index - 1) (c.stamped (sys.clock m.world).1))
      (c.stamped (sys.clock m.world).1) (sys.clock m.world).2 with ⟨r, w', out⟩
    cases r with
    | error e =>
      rw [Proc.bind_run_error (invoke_run_error .onmessage hrun)]
      exact .halted _ hf hrun
    | ok a =>
      obtain ⟨status, c'⟩ := a
      rw [Proc.bind_run_ok (invoke_run_ok .onmessage hrun), setClient_bind_run, markIf_run,
        setClient_setClient]
      exact .heard _ hf hrun

/-! ## A round of the event loop -/

/-- `revents` reports an error or a hang-up. -/
def PollFd.failed (pfd : PollFd) : Bool := pfd.has POLLERR || pfd.has POLLNVAL || pfd.has POLLHUP

/-- There is something to read, and nothing else to report. -/
def Readable (pfd : PollFd) (peek : Int) : Prop :=
  0 < peek ∧ pfd.failed = false ∧ pfd.has POLLIN = true

/-- The results of `handleEvent` for the entry `index`. -/
inductive EventHandled (cb : Callbacks ω ε) (s : Server) (index : Nat) (pfd : PollFd)
    (c : Client) (peek : Int) : Except Halt Unit → Server → List (ConnEvent ε) → Prop where
  | removed (hgone : peek = 0 ∨ pfd.failed = true) :
      EventHandled cb s index pfd c peek (.ok ()) (s.markDeleted index) []
  | idle (now : Int) (hpeek : peek ≠ 0) (hokay : pfd.failed = false)
      (hidle : ¬ Readable pfd peek) :
      EventHandled cb s index pfd c peek (.ok ()) (s.setClient (index - 1) (c.stamped now)) []
  | served {r : Except Halt Unit} {s' : Server} {u : List (ConnEvent ε)}
      (hread : Readable pfd peek) (hstatus : c.status ≠ .retry)
      (hmessage : Delivered cb s index c r s' u) : EventHandled cb s index pfd c peek r s' u
  /-- a client in `CONN_RETRY`: `onconnect` halted -/
  | stopped {e : Halt} {s' : Server} {u : List (ConnEvent ε)} (hread : Readable pfd peek)
      (hstatus : c.status = .retry) (hconnect : Connected cb s c (.error e) s' u) :
      EventHandled cb s index pfd c peek (.error e) s' u
  /-- a client in `CONN_RETRY`: the message follows whatever `onconnect` answered -/
  | retried {status : ConnStatus} {c₁ : Client} {s₁ s' : Server} {r : Except Halt Unit}
      {u u' : List (ConnEvent ε)} (hread : Readable pfd peek) (hstatus : c.status = .retry)
      (hconnect : Connected cb s c (.ok (status, c₁)) s₁ u)
      (hmessage : Delivered cb ((s₁.setClient (index - 1) c₁).markIf index (status ≠ .kill))
        index c₁ r s' u') :
      EventHandled cb s index pfd c peek r s' (u ++ u')

section Events

variable (sys : Sys ω) (cb : Callbacks ω ε)

/-- Connecting a client again leaves the slots in use alone. -/
theorem Connected.getElem?_clients {cb : Callbacks ω ε} {s s' : Server} {c : Client}
    {r : Except Halt (ConnStatus × Client)} {u : List (ConnEvent ε)}
    (h : Connected cb s c r s' u) {slot : Nat} {c₀ : Client}
    (hslot : s.clients.items[slot]? = some c₀) : s'.clients.items[slot]? = some c₀ := by
  cases h with
  | absent _ => exact hslot
  | halted _ _ => exact hslot
  | killed _ _ => exact hslot
  | live now _ _ _ => exact getElem?_register _ hslot

theorem clients_markIf (s : Server) (index : Nat) (gone : Prop) [Decidable gone] :
    (s.markIf index gone).clients = s.clients := by
  unfold Server.markIf
  split
  · rfl
  · rfl

/-- A readable client in `CONN_RETRY`: `onconnect`, and then the message. -/
theorem retry_handled {index : Nat} {c : Client} {m : Machine ω}
    (hc : m.server.clients.items[index - 1]? = some c) (hstatus : c.status = .retry)
    {pfd : PollFd} {peek : Int} (hread : Readable pfd peek) {m' : Machine ω}
    {r : Except Halt Unit} {u : List (ConnEvent ε)}
    (hrun : (retryConnect sys cb index c >>= fun _ => deliverMessage sys cb index) m =
      ⟨r, m', u⟩) :
    EventHandled cb m.server index pfd c peek r m'.server u := by
  have hconnect := conHandleConnect_connected sys cb c m
  rcases hr : conHandleConnect sys cb c m with ⟨rc, m₁, u₁⟩
  rw [hr] at hconnect
  unfold retryConnect at hrun
  rw [if_pos hstatus] at hrun
  cases rc with
  | error e =>
    rw [Proc.bind_run_error (Proc.bind_run_error hr _)] at hrun
    cases hrun
    exact .stopped hread hstatus hconnect
  | ok a =>
    obtain ⟨status, c₁⟩ := a
    rw [Proc.bind_assoc_run, Proc.bind_run_ok hr] at hrun
    dsimp only at hrun
    rw [Proc.bind_assoc_run, setClient_bind_run, Proc.bind_run_ok (markIf_run _ _ _)] at hrun
    have hc₁ : ((m₁.server.setClient (index - 1) c₁).markIf index
        (status ≠ .kill)).clients.items[index - 1]? = some c₁ := by
      rw [clients_markIf]
      exact getElem?_setClient c₁ (hconnect.getElem?_clients hc)
    have hmessage := deliverMessage_delivered sys cb
      (m := ⟨(m₁.server.setClient (index - 1) c₁).markIf index (status ≠ .kill), m₁.world⟩) hc₁
    cases hrun
    exact .retried hread hstatus hconnect hmessage

/-- `handleEvent` has the results listed. -/
theorem handleEvent_handled {index : Nat} {c : Client} {s : Server}
    (hc : s.clients.items[index - 1]? = some c) (pfd : PollFd) (peek : Int) (w : ω) :
    EventHandled cb s index pfd c peek (handleEvent sys cb index pfd c peek ⟨s, w⟩).outcome
      (handleEvent sys cb index pfd c peek ⟨s, w⟩).state.server
      (handleEvent sys cb index pfd c peek ⟨s, w⟩).out := by
  unfold handleEvent
  split
  · rename_i hpeek
    exact .removed (.inl hpeek)
  rename_i hpeek
  split
  · rename_i herr
    exact .removed (.inr (by rw [PollFd.failed, herr, Bool.true_or]))
  rename_i herr
  split
  · rename_i hhup
    exact .removed (.inr (by rw [PollFd.failed, hhup, Bool.or_true]))
  rename_i hhup
  have hokay : pfd.failed = false := by
    rw [PollFd.failed, eq_false_of_ne_true herr, eq_false_of_ne_true hhup]
    rfl
  split
  · rename_i hin
    have hread : Readable pfd peek := ⟨hin.2, hokay, hin.1⟩
    by_cases hstatus : c.status = .retry
    · rcases hrun : (retryConnect sys cb index c >>= fun _ => deliverMessage sys cb index)
        ⟨s, w⟩ with ⟨r, m', u⟩
      exact retry_handled sys cb (m := ⟨s, w⟩) hc hstatus hread hrun
    · unfold retryConnect
      rw [if_neg hstatus, Proc.pure_bind_run]
      exact .served hread hstatus (deliverMessage_delivered sys cb (m := ⟨s, w⟩) hc)
  · rename_i hin
    have hidle : ¬ Readable pfd peek := fun hread => hin ⟨hread.2.2, hread.1⟩
    rw [call_bind_run]
    exact .idle _ hpeek hokay hidle

/-- What `peek` returned for the entry, before its round. -/
def peekCount (fd : Int) (m : Machine ω) : Int := (sys.received fd 1 .peek m.world).1.count

theorem eventRound_eq {index : Nat} {pfd : PollFd} {c : Client} {m : Machine ω}
    (hpfd : m.server.poll.items[index]? = some pfd)
    (hc : m.server.clients.items[index - 1]? = some c) :
    eventRound sys cb index m =
      (handleEvent sys cb index pfd c (peekCount sys pfd.fd m) >>= fun _ => pure (index + 1))
        ⟨m.server, (sys.received pfd.fd 1 .peek m.world).2⟩ := by
  unfold eventRound
  rw [Proc.bind_run_ok (pollItem_run hpfd), Proc.bind_run_ok (clientItem_run hc), call_bind_run]
  rfl

/-- A round of the event loop. -/
theorem eventRound_handled {index : Nat} {pfd : PollFd} {c : Client} {m : Machine ω}
    (hpfd : m.server.poll.items[index]? = some pfd)
    (hc : m.server.clients.items[index - 1]? = some c) :
    ∃ r, EventHandled cb m.server index pfd c (peekCount sys pfd.fd m) r
        (eventRound sys cb index m).state.server (eventRound sys cb index m).out ∧
      (eventRound sys cb index m).outcome = r.map fun _ => index + 1 := by
  rw [eventRound_eq sys cb hpfd hc, Proc.bind_pure_run]
  exact ⟨_, handleEvent_handled sys cb hc pfd _ _, rfl⟩

end Events

/-! ## A round of the ping loop -/

/-- The results of a round of the ping loop for the client `c` of entry `index`. -/
inductive PingHandled (f : Callback ω ε) (s : Server) (index : Nat) (c : Client) :
    Except Halt Unit → Server → List (ConnEvent ε) → Prop where
  | fresh : PingHandled f s index c (.ok ()) s []
  | stopped {e : Halt} {w w' : ω} {out : List ε} (hrun : f s c w = ⟨.error e, w', out⟩) :
      PingHandled f s index c (.error e) s [.callback .onping s c none out]
  | pinged {status : ConnStatus} {c' : Client} {w w' : ω} {out : List ε} (now : Int)
      (hrun : f s c w = ⟨.ok (status, c'), w', out⟩) :
      PingHandled f s index c (.ok ())
        ((s.setClient (index - 1)
          { c' with fd := c.fd, status := status, last_updated := now }).markIf index
            (status = .kill))
        [.callback .onping s c (some status) out]

theorem pingClient_handled (f : Callback ω ε) (index : Nat) (c : Client) (now : Int)
    (s : Server) (w : ω) :
    PingHandled f s index c (pingClient f index c now ⟨s, w⟩).outcome
      (pingClient f index c now ⟨s, w⟩).state.server (pingClient f index c now ⟨s, w⟩).out := by
  unfold pingClient
  rcases hrun : f s c w with ⟨r, w', out⟩
  cases r with
  | error e =>
    rw [Proc.bind_run_error (invoke_run_error .onping hrun)]
    exact .stopped hrun
  | ok a =>
    obtain ⟨status, c'⟩ := a
    rw [Proc.bind_run_ok (invoke_run_ok .onping hrun)]
    dsimp only
    rw [setClient_bind_run, markIf_run]
    exact .pinged now hrun

/-- A round of the ping loop. -/
theorem pingRound_handled (sys : Sys ω) (f : Callback ω ε) (index : Nat) {c : Client}
    {m : Machine ω} (hc : m.server.clients.items[index - 1]? = some c) :
    ∃ r, PingHandled f m.server index c r (pingRound sys f index m).state.server
        (pingRound sys f index m).out ∧
      (pingRound sys f index m).outcome = r.map fun _ => index + 1 := by
  unfold pingRound Conn.server
  rw [Proc.bind_run_ok (clientItem_run hc), call_bind_run, Proc.step_bind_run]
  dsimp only
  rw [Proc.bind_pure_run]
  unfold Proc.when
  split
  · exact ⟨_, pingClient_handled f index c _ _ _, rfl⟩
  · exact ⟨.ok (), .fresh, rfl⟩

/-! ## The listener -/

/-- The listener is in error, or nobody waits; or a connection is accepted. -/
theorem conAcceptConnections_handled (sys : Sys ω) (cb : Callbacks ω ε) {m : Machine ω}
    (hlen : 0 < m.server.poll.len) :
    (∃ r w, conAcceptConnections sys cb m = ⟨.ok r, ⟨m.server, w⟩, []⟩) ∨
      ∃ c, c.fd = (sys.accept m.server.fd m.world).1.fd ∧ 0 ≤ c.fd ∧
        AcceptHandled cb m.server c (conAcceptConnections sys cb m).outcome
          (conAcceptConnections sys cb m).state.server (conAcceptConnections sys cb m).out := by
  obtain ⟨listener, hitem⟩ : ∃ pfd, m.server.poll.items[0]? = some pfd :=
    ⟨_, List.getElem?_eq_getElem hlen⟩
  unfold conAcceptConnections Conn.server
  rw [Proc.bind_run_ok (pollItem_run hitem)]
  split
  · exact .inl ⟨_, _, rfl⟩
  split
  · exact .inl ⟨_, _, rfl⟩
  split
  · rw [Proc.step_bind_run, call_bind_run]
    dsimp only
    split
    · exact .inl ⟨_, _, rfl⟩
    · rename_i hpos
      refine .inr ⟨{ (sys.accept m.server.fd m.world).1.stack with
        fd := (sys.accept m.server.fd m.world).1.fd }, rfl, Int.not_lt.mp hpos, ?_⟩
      exact acceptClient_handled sys cb _ ⟨m.server, (sys.accept m.server.fd m.world).2⟩
  · exact .inl ⟨_, _, rfl⟩

end NoGround
