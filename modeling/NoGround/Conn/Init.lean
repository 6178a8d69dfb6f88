/-
  Conn/Init.lean --- `conInitServer`, and what holds of every run from an
  initialised server.

  A successful `conInitServer` leaves the listener alone in the poll table and
  room for one client less than that table has slots.  From there the tables stay
  in step in every run, and the only halts of the connection layer itself are the
  one it asks for, `exit(1)` on an error of the listener.
-/
import NoGround.Conn.Refine

set_option autoImplicit false

namespace NoGround

open NoGround.Lib

variable {ω ε : Type}

/-! ## Initialisation -/

section Init

variable (sys : Sys ω)

/-- The state of the initialisation: nothing is traced, and `I` holds of the server. -/
def Starting (I : Server → Prop) : List (ConnEvent ε) → Machine ω → Prop :=
  OnServer fun t s => t = [] ∧ I s

theorem connCreatePoll_triple (cap : Nat) {I : Server → Prop} :
    Proc.Triple (Starting I) (connCreatePoll sys cap : Conn ω ε Int)
      (fun r => Starting fun s => r = CONN_OK → s.poll = Table.empty cap)
      (fun _ _ _ => True) := by
  unfold connCreatePoll
  refine Proc.Triple.bind call_triple fun allocated => ?_
  refine Proc.Triple.ite (fun _ => ?_) fun _ => ?_
  · refine Proc.Triple.bind
      (Q := fun _ => Starting fun s => s.poll = Table.empty cap) ?_ fun _ => ?_
    · exact update_triple fun t s h => ⟨h.1, rfl⟩
    · exact Proc.Triple.pure fun t m h => ⟨h.1, fun _ => h.2⟩
  · exact Proc.Triple.pure fun t m h => ⟨h.1, fun hr => absurd hr (by decide)⟩

theorem connCreateClientPoll_triple (cap : Nat) {I : ServerPoll → Prop} :
    Proc.Triple (Starting fun s => I s.poll) (connCreateClientPoll sys cap : Conn ω ε Int)
      (fun r => Starting fun s => I s.poll ∧ (r = CONN_OK → s.clients = Table.empty cap))
      (fun _ _ _ => True) := by
  unfold connCreateClientPoll
  refine Proc.Triple.bind
    (Q := fun _ => Starting fun s => I s.poll ∧ s.clients = Table.empty cap) ?_ fun _ => ?_
  · exact update_triple fun t s h => ⟨h.1, h.2, rfl⟩
  · refine Proc.Triple.bind call_triple fun allocated => ?_
    refine Proc.Triple.ite (fun _ => ?_) fun _ => ?_
    · exact Proc.Triple.pure fun t m h => ⟨h.1, h.2.1, fun _ => h.2.2⟩
    · exact Proc.Triple.pure fun t m h => ⟨h.1, h.2.1, fun hr => absurd hr (by decide)⟩

/-- The listener's entry alone, in tables of the configured sizes. -/
def Initialised (config : ServerConfig) (s : Server) : Prop :=
  InSync s ∧ s.clients.items = [] ∧ (s.clients.cap : Int) = config.max_connections - 1

/-- The push of the listener succeeds when there is a slot for it. -/
theorem initialised_of_empty {config : ServerConfig} (hmax : 1 ≤ config.max_connections)
    {s : Server} (hpoll : s.poll = Table.empty (toSize config.max_connections))
    (hclients : s.clients = Table.empty (toSize (config.max_connections - 1))) :
    Initialised config { s with poll := (connPushToPoll s.poll s.fd POLLIN).2 } := by
  have hi32 := config.max_connections_i32
  have hsize : toSize config.max_connections =
      toSize (config.max_connections - 1) + 1 := by
    simp only [toSize]
    omega
  have hcap : (toSize (config.max_connections - 1) : Int) = config.max_connections - 1 := by
    simp only [toSize]
    omega
  have hlt : s.poll.len < s.poll.cap := by
    rw [hpoll]
    simp [Table.len, hsize]
  obtain ⟨poll', hpush, hitems, hpcap⟩ :=
    Table.push_of_lt (a := (⟨s.fd, POLLIN, 0#16⟩ : PollFd)) hlt
  have hres : (connPushToPoll s.poll s.fd POLLIN).2 = poll' := by
    simp [connPushToPoll, hpush]
  rw [hres]
  refine ⟨⟨?_, ?_⟩, ?_, ?_⟩
  · simp [hitems, hpoll, hclients, Server.fds]
  · simp [hpcap, hpoll, hclients, hsize]
  · simp [hclients]
  · simpa [hclients] using hcap

theorem conInitServer_triple {config : ServerConfig} (hmax : 1 ≤ config.max_connections) :
    Proc.Triple (Starting fun _ => True) (conInitServer sys config : Conn ω ε Int)
      (fun r => Starting fun s => r = 0 → Initialised config s) (fun _ _ _ => True) := by
  have hfail : ∀ (I : Server → Prop) (code : Int), code ≠ 0 →
      Proc.Triple (Starting I) (pure code : Conn ω ε Int)
        (fun r => Starting fun s => r = 0 → Initialised config s) (fun _ _ _ => True) :=
    fun I code hcode => Proc.Triple.pure fun t m h => ⟨h.1, fun hr => absurd hr hcode⟩
  unfold conInitServer
  refine Proc.Triple.bind call_triple fun fd => ?_
  refine Proc.Triple.bind (Q := fun _ => Starting fun _ => True)
    (update_triple fun t s h => ⟨h.1, trivial⟩) fun _ => ?_
  refine Proc.Triple.ite (fun _ => hfail _ _ (by decide)) fun _ => ?_
  refine Proc.Triple.bind (connCreatePoll_triple sys _) fun created => ?_
  refine Proc.Triple.ite (fun _ => hfail _ _ (by decide)) fun hpoll => ?_
  refine Proc.Triple.bind (connCreateClientPoll_triple sys _ (I := fun poll =>
    created = CONN_OK → poll = Table.empty (toSize config.max_connections))) fun created' => ?_
  refine Proc.Triple.ite (fun _ => hfail _ _ (by decide)) fun hclients => ?_
  refine Proc.Triple.bind call_triple fun reuse => ?_
  refine Proc.Triple.ite (fun _ => hfail _ _ (by decide)) fun _ => ?_
  refine Proc.Triple.bind call_triple fun _ => ?_
  refine Proc.Triple.bind call_triple fun bound => ?_
  refine Proc.Triple.ite (fun _ => hfail _ _ (by decide)) fun _ => ?_
  refine Proc.Triple.bind call_triple fun listening => ?_
  refine Proc.Triple.ite (fun _ => hfail _ _ (by decide)) fun _ => ?_
  refine Proc.Triple.bind (Q := fun _ => Starting (Initialised config)) (update_triple ?_)
    fun _ => ?_
  · rintro t s ⟨ht, hp, hc⟩
    exact ⟨ht, initialised_of_empty hmax (hp (by simpa using hpoll)) (hc (by simpa using hclients))⟩
  · exact Proc.Triple.pure fun t m h => ⟨h.1, fun _ => h.2⟩

/-- What a successful `conInitServer` leaves. -/
theorem conInitServer_ok {config : ServerConfig} (hmax : 1 ≤ config.max_connections)
    {m₀ m : Machine ω} {out : List (ConnEvent ε)}
    (hinit : conInitServer sys config m₀ = ⟨.ok 0, m, out⟩) :
    out = [] ∧ Initialised config m.server := by
  have h := (conInitServer_triple sys hmax).ok (t := []) ⟨rfl, trivial⟩ hinit
  exact ⟨h.1, h.2 rfl⟩

end Init

/-! ## Every run -/

section Runs

variable (sys : Sys ω) (cb : Callbacks ω ε)

/-- A run from tables in step ends, or halts, with tables in step, and its callbacks
were called on such tables. -/
theorem serve_inSync {m : Machine ω} (hs : InSync m.server) (n : Nat) :
    InSync (serve sys cb n m).state.server ∧
      ∀ e ∈ (serve sys cb n m).out, CallInSync cb e := by
  have h := serve_steps sys cb hs n [] m (.refl _)
  unfold Proc.Post at h
  split at h
  · exact Steps.inSync h hs
  · exact Halted.inSync h hs

/-- In every run, halted or not, `onmessage` is called for registered clients. -/
theorem serve_forRegistered {m : Machine ω} (hs : InSync m.server) (n : Nat) :
    ∀ e ∈ (serve sys cb n m).out, ForRegistered e := by
  have h := serve_steps sys cb hs n [] m (.refl _)
  unfold Proc.Post at h
  split at h
  · exact Steps.forRegistered h
  · exact Halted.forRegistered h

/-- Some call of a callback halts with `e`. -/
def Callbacks.HaltsWith (e : Halt) : Prop :=
  (∃ kind f s c w w' out, cb.handler kind = some f ∧ f s c w = ⟨.error e, w', out⟩) ∨
    ∃ f s c w w' out, cb.ondisconnect = some f ∧ f s c w = ⟨.error e, w', out⟩

theorem Halted.reason {s₀ s : Server} {e : Halt} {t : List (ConnEvent ε)}
    (h : Halted cb s₀ e t s) : e = .exit 1 ∨ cb.HaltsWith e := by
  cases h with
  | listener _ => exact .inl rfl
  | connecting _ hf hrun => exact .inr (.inl ⟨.onconnect, _, _, _, _, _, _, hf, hrun⟩)
  | serving _ _ hf hrun => exact .inr (.inl ⟨_, _, _, _, _, _, _, hf, hrun⟩)
  | notifying _ _ hf hrun => exact .inr (.inr ⟨_, _, _, _, _, _, hf, hrun⟩)

/-- The connection layer stays inside its tables and its loops end: what halts it is
the listener, or a callback. -/
theorem serve_error {m m' : Machine ω} (hs : InSync m.server) {n : Nat} {e : Halt}
    {out : List (ConnEvent ε)} (h : serve sys cb n m = ⟨.error e, m', out⟩) :
    e = .exit 1 ∨ cb.HaltsWith e :=
  Halted.reason cb ((serve_steps sys cb hs n).error (t := []) (.refl _) h)

end Runs

/-- After any number of calls of `conPollEvents` from an initialised server, and
whenever a callback is invoked on the way, the two tables are in step.  The run
may also have halted. -/
theorem serve_tablesInSync (sys : Sys ω) (cb : Callbacks ω ε) {config : ServerConfig}
    (hmax : 1 ≤ config.max_connections) {m₀ m : Machine ω} {out : List (ConnEvent ε)}
    (hinit : conInitServer sys config m₀ = ⟨.ok 0, m, out⟩) (n : Nat) :
    TablesInSync (serve sys cb n m).state.server ∧
      ∀ kind server client status events,
        .callback kind server client status events ∈ (serve sys cb n m).out →
        TablesInSync server := by
  obtain ⟨-, hs, -⟩ := conInitServer_ok sys hmax hinit
  obtain ⟨hend, hcallbacks⟩ := serve_inSync sys cb hs n
  refine ⟨hend.tablesInSync, ?_⟩
  intro kind server client status events hmem
  obtain ⟨s, hs, rfl, -⟩ := hcallbacks _ hmem
  exact hs.tablesInSync

/-- Callbacks for runs on a script: `onconnect` answers `status`, and every message
is well received. -/
def constantCallbacks (status : ConnStatus) : Callbacks Script ε where
  onconnect := some fun _ client => pure (status, client)
  ondisconnect := none
  onmessage := some fun _ client => pure (.keepAlive, client)
  onping := none

/-- A server for three descriptors: the listener and two clients. -/
def threeSlots : ServerConfig := ⟨8090, 3, by decide⟩

theorem one_le_threeSlots : 1 ≤ threeSlots.max_connections := by decide

/-- The server for `threeSlots`, with a script ahead of it. -/
def startServer (script : Script) : Machine Script where
  server :=
    { Server.blank with
      fd := 3
      poll := ⟨[⟨3, POLLIN, 0#16⟩], 3, by decide⟩
      clients := Table.empty 2 }
  world := script

theorem startServer_init (script : Script) :
    (conInitServer Script.sys threeSlots ⟨Server.blank, script⟩ : Result _ _ (ConnEvent ε) _) =
      ⟨.ok 0, startServer script, []⟩ := by
  have hcap : toSize threeSlots.max_connections = 3 ∧
      toSize (threeSlots.max_connections - 1) = 2 := by decide
  simp [conInitServer, connCreatePoll, connCreateClientPoll, Conn.call, Conn.update, hcap,
    Script.sys, CONN_OK, connPushToPoll, startServer, Table.push, Table.len, Table.empty,
    Proc.bind_assoc_run, Server.blank]

/-- `onconnect` asks for a retry first, and is content the second time. -/
def retryCallbacks : Callbacks Script Unit where
  onconnect := some fun _ client =>
    pure (if client.status = .retry then .keepAlive else .retry, client)
  ondisconnect := none
  onmessage := some fun _ client => pure (.keepAlive, client)
  onping := none

/-- Two clients connect, which fills the table.  The first is connected again and deleted, the
second closes its end, and a third connects. -/
def comeAndGo : Script where
  polls := [(1, [POLLIN]), (1, [POLLIN]), (1, [0#16, POLLIN]), (1, [0#16, POLLIN]), (1, [POLLIN])]
  accepts := [4, 5, 6]
  recvs := [some [71], some [71], some [71], some [71], some [71], some [], some [71]]

theorem serve_tablesInSync_comeAndGo :
    let r := serve Script.sys retryCallbacks 5 (startServer comeAndGo)
    TablesInSync r.state.server ∧
      ∀ kind server client status events,
        .callback kind server client status events ∈ r.out → TablesInSync server :=
  serve_tablesInSync Script.sys retryCallbacks one_le_threeSlots (startServer_init _) 5

end NoGround
