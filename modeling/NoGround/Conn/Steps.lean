/-
  Conn/Steps.lean --- the connection layer as a transition system on its tables.

  `Step cb` lists everything one call of `conPollEvents` can do to the server's
  tables, each with the events it shows: a descriptor is accepted and admitted,
  refused or dropped; a client is served, pinged or connected again; an entry is
  deleted.  Loops, indices and the order of the phases are gone.

  A run is a sequence of steps (`Steps`).  A run of the program may also halt:
  `Halted` lists the only places where it can, an error of the listener and the
  inside of a callback.  Every property of all runs is proved by cases on `Step`;
  that the source makes exactly such runs is proved once, in `Conn/Refine.lean`.
-/
import NoGround.Conn.Poll
import NoGround.Lib.Steps

set_option autoImplicit false

namespace NoGround

open NoGround.Lib

variable {ω ε : Type}

/-! ## Steps -/

/-- The event of a registration, if there was room for one. -/
def Server.registerEvents (s : Server) (fd : Int) : List (ConnEvent ε) :=
  if s.hasRoom then [.registered fd] else []

/-- What `onconnect` leaves of a client it did not kill. -/
def Client.admitted (client left : Client) (status : ConnStatus) (now : Int) : Client :=
  { left with fd := client.fd, status := status, last_updated := now }

/-- The events of a call of `ondisconnect`, which returned. -/
def Notified (cb : Callbacks ω ε) (s : Server) (client : Client)
    (events : List (ConnEvent ε)) : Prop :=
  match cb.ondisconnect with
  | none => events = []
  | some f => ∃ w w' out, f s client w = ⟨.ok (), w', out⟩ ∧
      events = [.callback .ondisconnect s client none out]

theorem mem_registerEvents {s : Server} {fd : Int} {e : ConnEvent ε}
    (he : e ∈ s.registerEvents fd) : e = .registered fd := by
  unfold Server.registerEvents at he
  split at he
  · exact List.mem_singleton.mp he
  · cases he

theorem Notified.mem {cb : Callbacks ω ε} {s : Server} {client : Client}
    {events : List (ConnEvent ε)} (h : Notified cb s client events) {e : ConnEvent ε}
    (he : e ∈ events) :
    ∃ f w w' out, cb.ondisconnect = some f ∧ f s client w = ⟨.ok (), w', out⟩ ∧
      e = .callback .ondisconnect s client none out := by
  unfold Notified at h
  split at h
  · subst h
    cases he
  · rename_i f hf
    obtain ⟨w, w', out, hrun, rfl⟩ := h
    exact ⟨f, w, w', out, hf, hrun, List.mem_singleton.mp he⟩

/-- One step of the connection layer. -/
inductive Step (cb : Callbacks ω ε) : Server → List (ConnEvent ε) → Server → Prop where
  /-- `events` or `revents` of some entries change -/
  | poll (s : Server) (poll : ServerPoll)
      (hfd : poll.items.map (·.fd) = s.poll.items.map (·.fd))
      (hcap : poll.cap = s.poll.cap) :
      Step cb s [] { s with poll := poll }
  /-- a record changes without a callback -/
  | touch (s : Server) {slot : Nat} {c c' : Client}
      (hslot : s.clients.items[slot]? = some c) (hfd : c'.fd = c.fd)
      (hstatus : c'.status = c.status) :
      Step cb s [] (s.setClient slot c')
  /-- `onmessage` for a registered client -/
  | serve (s : Server) {slot : Nat} {c c' : Client} {f : Callback ω ε}
      {status : ConnStatus} {w w' : ω} {out : List ε}
      (hslot : s.clients.items[slot]? = some c) (hf : cb.onmessage = some f)
      (hrun : f s c w = ⟨.ok (status, c'), w', out⟩) :
      Step cb s [.callback .onmessage s c (some status) out]
        (s.setClient slot { c' with fd := c.fd })
  /-- `onping` for a registered client -/
  | ping (s : Server) {slot : Nat} {c c' : Client} {f : Callback ω ε}
      {status : ConnStatus} {w w' : ω} {out : List ε} (now : Int)
      (hslot : s.clients.items[slot]? = some c) (hf : cb.onping = some f)
      (hrun : f s c w = ⟨.ok (status, c'), w', out⟩) :
      Step cb s [.callback .onping s c (some status) out]
        (s.setClient slot { c' with fd := c.fd, status := status, last_updated := now })
  /-- an accepted connection is admitted -/
  | enter (s : Server) {c c' : Client} {f : Callback ω ε}
      {status : ConnStatus} {w w' : ω} {out : List ε} (now : Int)
      (hf : cb.onconnect = some f) (hrun : f s c w = ⟨.ok (status, c'), w', out⟩)
      (hstatus : status ≠ .kill) :
      Step cb s
        ([.accepted c.fd, .callback .onconnect s c (some status) out] ++
          s.registerEvents c.fd)
        (s.register (c.admitted c' status now))
  /-- an accepted connection is refused by `onconnect` -/
  | refuse (s : Server) {c c' : Client} {f : Callback ω ε} {w w' : ω} {out : List ε}
      (hf : cb.onconnect = some f) (hrun : f s c w = ⟨.ok (.kill, c'), w', out⟩) :
      Step cb s
        [.accepted c.fd, .callback .onconnect s c (some .kill) out, .closed c.fd] s
  /-- without `onconnect` every connection is closed -/
  | drop (s : Server) (fd : Int) (hf : cb.onconnect = none) :
      Step cb s [.accepted fd, .closed fd] s
  /-- a client in `CONN_RETRY` is connected again and registered again -/
  | reenter (s : Server) {slot : Nat} {c c' : Client} {f : Callback ω ε}
      {status : ConnStatus} {w w' : ω} {out : List ε} (now : Int)
      (hslot : s.clients.items[slot]? = some c) (hretry : c.status = .retry)
      (hf : cb.onconnect = some f) (hrun : f s c w = ⟨.ok (status, c'), w', out⟩)
      (hstatus : status ≠ .kill) :
      Step cb s
        ([.callback .onconnect s c (some status) out] ++ s.registerEvents c.fd)
        ((s.register (c.admitted c' status now)).setClient slot (c.admitted c' status now))
  /-- a client in `CONN_RETRY` is killed by `onconnect` -/
  | rekill (s : Server) {slot : Nat} {c c' : Client} {f : Callback ω ε} {w w' : ω}
      {out : List ε}
      (hslot : s.clients.items[slot]? = some c) (hretry : c.status = .retry)
      (hf : cb.onconnect = some f) (hrun : f s c w = ⟨.ok (.kill, c'), w', out⟩) :
      Step cb s [.callback .onconnect s c (some .kill) out]
        (s.setClient slot { c' with fd := c.fd })
  /-- an entry is deleted -/
  | delete (s : Server) {index : Nat} {pfd : PollFd} {c : Client}
      {notice : List (ConnEvent ε)} (hindex : 1 ≤ index)
      (hpfd : s.poll.items[index]? = some pfd)
      (hclient : s.clients.items[index - 1]? = some c)
      (hnotice : Notified cb s c notice) :
      Step cb s (notice ++ [.closed pfd.fd, .deleted pfd.fd]) (s.delete index)

/-- The callbacks that return a status. -/
def Callbacks.handler (cb : Callbacks ω ε) : CallbackKind → Option (Callback ω ε)
  | .onconnect => cb.onconnect
  | .onmessage => cb.onmessage
  | .onping => cb.onping
  | .ondisconnect => none

/-- A halted run, with its reason: a run of steps that stops at the listener's
error, or inside a callback for an accepted or a registered client. -/
inductive Halted (cb : Callbacks ω ε) (s₀ : Server) :
    Halt → List (ConnEvent ε) → Server → Prop where
  | listener {t : List (ConnEvent ε)} {s : Server} (run : Steps (Step cb) s₀ t s) :
      Halted cb s₀ (.exit 1) t s
  | connecting {t : List (ConnEvent ε)} {s : Server} (run : Steps (Step cb) s₀ t s)
      {c : Client} {f : Callback ω ε} {e : Halt} {w w' : ω} {out : List ε}
      (hf : cb.onconnect = some f) (hrun : f s c w = ⟨.error e, w', out⟩) :
      Halted cb s₀ e (t ++ [.accepted c.fd, .callback .onconnect s c none out]) s
  | serving {t : List (ConnEvent ε)} {s : Server} (run : Steps (Step cb) s₀ t s)
      {kind : CallbackKind} {slot : Nat} {c : Client} {f : Callback ω ε} {e : Halt}
      {w w' : ω} {out : List ε} (hslot : s.clients.items[slot]? = some c)
      (hf : cb.handler kind = some f) (hrun : f s c w = ⟨.error e, w', out⟩) :
      Halted cb s₀ e (t ++ [.callback kind s c none out]) s
  | notifying {t : List (ConnEvent ε)} {s : Server} (run : Steps (Step cb) s₀ t s)
      {slot : Nat} {c : Client} {f : DisconnectCallback ω ε} {e : Halt}
      {w w' : ω} {out : List ε} (hslot : s.clients.items[slot]? = some c)
      (hf : cb.ondisconnect = some f) (hrun : f s c w = ⟨.error e, w', out⟩) :
      Halted cb s₀ e (t ++ [.callback .ondisconnect s c none out]) s

/-! ## Callback events are calls -/

/-- The status a call returned, if it did. -/
def answered : Except Halt (ConnStatus × Client) → Option ConnStatus
  | .ok (status, _) => some status
  | .error _ => none

/-- The callback, called for `client` on these tables, answered `status` and emitted
`out`. -/
def Callbacks.Calls (cb : Callbacks ω ε) (kind : CallbackKind) (s : Server) (client : Client)
    (status : Option ConnStatus) (out : List ε) : Prop :=
  (∃ f w r w', cb.handler kind = some f ∧ f s client w = ⟨r, w', out⟩ ∧ status = answered r) ∨
    (kind = .ondisconnect ∧ status = none ∧
      ∃ f w r w', cb.ondisconnect = some f ∧ f s client w = ⟨r, w', out⟩)

/-- If the event is a callback's, it was called on the tables `s`. -/
def CallOn (cb : Callbacks ω ε) (s : Server) : ConnEvent ε → Prop
  | .callback kind server client status out =>
      server = s ∧ cb.Calls kind server client status out
  | _ => True

section Calls

variable {cb : Callbacks ω ε} {s : Server} {c : Client}

theorem callOn_handler (kind : CallbackKind) {f : Callback ω ε} {w w' : ω}
    {r : Except Halt (ConnStatus × Client)} {out : List ε} (hf : cb.handler kind = some f)
    (hrun : f s c w = ⟨r, w', out⟩) :
    CallOn cb s (.callback kind s c (answered r) out) :=
  ⟨rfl, .inl ⟨f, w, r, w', hf, hrun, rfl⟩⟩

theorem callOn_registerEvents {fd : Int} {e : ConnEvent ε} (he : e ∈ s.registerEvents fd) :
    CallOn cb s e := by
  rw [mem_registerEvents he]
  trivial

theorem callOn_notified {notice : List (ConnEvent ε)} (h : Notified cb s c notice)
    {e : ConnEvent ε} (he : e ∈ notice) : CallOn cb s e := by
  obtain ⟨f, w, w', out, hf, hrun, rfl⟩ := h.mem he
  exact ⟨rfl, .inr ⟨rfl, rfl, f, w, _, w', hf, hrun⟩⟩

/-- Every callback event of a step is a call on the tables the step started from. -/
theorem Step.callOn {s' : Server} {u : List (ConnEvent ε)} (h : Step cb s u s') :
    ∀ e ∈ u, CallOn cb s e := by
  have hone : ∀ {e₀ : ConnEvent ε}, CallOn cb s e₀ → ∀ e ∈ [e₀], CallOn cb s e := by
    intro e₀ h₀ e he
    rw [List.mem_singleton] at he
    exact he ▸ h₀
  cases h with
  | poll _ _ _ => simp
  | touch _ _ _ => simp
  | serve _ hf hrun => exact hone (callOn_handler .onmessage hf hrun)
  | ping _ _ hf hrun => exact hone (callOn_handler .onping hf hrun)
  | enter _ hf hrun _ =>
    intro e he
    rcases List.mem_append.mp he with he | he
    · simp only [List.mem_cons, List.not_mem_nil, or_false] at he
      rcases he with rfl | rfl
      · trivial
      · exact callOn_handler .onconnect hf hrun
    · exact callOn_registerEvents he
  | refuse hf hrun =>
    intro e he
    simp only [List.mem_cons, List.not_mem_nil, or_false] at he
    rcases he with rfl | rfl | rfl
    · trivial
    · exact callOn_handler .onconnect hf hrun
    · trivial
  | drop _ _ => simp [CallOn]
  | reenter _ _ _ hf hrun _ =>
    intro e he
    rcases List.mem_append.mp he with he | he
    · exact hone (callOn_handler .onconnect hf hrun) e he
    · exact callOn_registerEvents he
  | rekill _ _ hf hrun => exact hone (callOn_handler .onconnect hf hrun)
  | delete _ _ _ hnotice =>
    intro e he
    rcases List.mem_append.mp he with he | he
    · exact callOn_notified hnotice he
    · simp only [List.mem_cons, List.not_mem_nil, or_false] at he
      rcases he with rfl | rfl <;> trivial

/-- An accepted connection, or a call of a callback on the tables `s`. -/
def CallAttempt (cb : Callbacks ω ε) (s : Server) (e : ConnEvent ε) : Prop :=
  (∃ fd, e = .accepted fd) ∨
    ∃ kind client out, e = .callback kind s client none out ∧ cb.Calls kind s client none out

theorem CallAttempt.callOn {e : ConnEvent ε} (h : CallAttempt cb s e) : CallOn cb s e := by
  rcases h with ⟨fd, rfl⟩ | ⟨kind, client, out, rfl, hcalls⟩
  · trivial
  · exact ⟨rfl, hcalls⟩

/-- A halted run is a run of steps, and the attempt it halted in. -/
theorem Halted.split {s₀ : Server} {e : Halt} {t : List (ConnEvent ε)}
    (h : Halted cb s₀ e t s) :
    ∃ t₀ u, t = t₀ ++ u ∧ Steps (Step cb) s₀ t₀ s ∧ ∀ e ∈ u, CallAttempt cb s e := by
  have hhandler : ∀ (kind : CallbackKind) {f : Callback ω ε} {c : Client} {w w' : ω}
      {out : List ε}, cb.handler kind = some f → f s c w = ⟨.error e, w', out⟩ →
      CallAttempt cb s (.callback kind s c none out) :=
    fun _ _ _ _ _ _ hf hrun => .inr ⟨_, _, _, rfl, .inl ⟨_, _, _, _, hf, hrun, rfl⟩⟩
  cases h with
  | listener run => exact ⟨t, [], by simp, run, by simp⟩
  | connecting run hf hrun =>
    refine ⟨_, _, rfl, run, ?_⟩
    intro e he
    simp only [List.mem_cons, List.not_mem_nil, or_false] at he
    rcases he with rfl | rfl
    · exact .inl ⟨_, rfl⟩
    · exact hhandler .onconnect hf hrun
  | serving run _ hf hrun =>
    refine ⟨_, _, rfl, run, ?_⟩
    intro e he
    rw [List.mem_singleton.mp he]
    exact hhandler _ hf hrun
  | notifying run _ hf hrun =>
    refine ⟨_, _, rfl, run, ?_⟩
    intro e he
    rw [List.mem_singleton.mp he]
    exact .inr ⟨_, _, _, rfl, .inr ⟨rfl, rfl, _, _, _, _, hf, hrun⟩⟩

end Calls

end NoGround
