/-
  Conn/Refine.lean --- the source makes only the runs of `Conn/Steps.lean`.

  Each function of `Conn/Poll.lean` gets one triple: from a run of steps it goes
  on to a longer run of steps, or halts in one of the ways `Halted` lists.  The
  triples are proved bottom up, in the order of the source, and a caller uses the
  triple of what it calls.

  The connection layer itself never leaves an array and never runs out of fuel.
  Both rest on `Conn/Tables.lean`: an index below the length of the poll table has
  a client, and a loop makes at most as many rounds as the table has slots.
-/
import NoGround.Conn.Tables

set_option autoImplicit false

namespace NoGround

open NoGround.Lib

variable {ω ε : Type}

/-! ## Triples about the tables

`OnServer I` is an assertion that does not look at the world. -/

/-- An assertion on the trace and the server. -/
def OnServer (I : List (ConnEvent ε) → Server → Prop) :
    List (ConnEvent ε) → Machine ω → Prop :=
  fun t m => I t m.server

section Primitives

variable {α : Type} {P : List (ConnEvent ε) → Server → Prop}
  {E : Halt → List (ConnEvent ε) → Machine ω → Prop}

theorem call_triple {f : ω → α × ω} :
    Proc.Triple (OnServer P) (Conn.call f : Conn ω ε α) (fun _ => OnServer P) E :=
  Proc.Triple.step fun _ _ h => h

theorem server_triple :
    Proc.Triple (OnServer P) (Conn.server : Conn ω ε Server)
      (fun s => OnServer fun t s' => P t s' ∧ s' = s) E :=
  Proc.Triple.step fun _ _ h => ⟨h, rfl⟩

theorem update_triple {f : Server → Server} {Q : List (ConnEvent ε) → Server → Prop}
    (h : ∀ t s, P t s → Q t (f s)) :
    Proc.Triple (OnServer P) (Conn.update f : Conn ω ε Unit) (fun _ => OnServer Q) E :=
  Proc.Triple.modify fun t m hp => h t m.server hp

theorem pollItem_triple {index : Nat} (hlt : ∀ t s, P t s → index < s.poll.len) :
    Proc.Triple (OnServer P) (Conn.pollItem index : Conn ω ε PollFd)
      (fun pfd => OnServer fun t s => P t s ∧ s.poll.items[index]? = some pfd) E := by
  intro t m hp
  have hget := List.getElem?_eq_getElem (hlt t m.server hp)
  unfold Conn.pollItem
  rw [hget]
  simpa [Proc.Post, OnServer] using ⟨hp, hget⟩

theorem clientItem_triple {slot : Nat} (hlt : ∀ t s, P t s → slot < s.clients.len) :
    Proc.Triple (OnServer P) (Conn.clientItem slot : Conn ω ε Client)
      (fun c => OnServer fun t s => P t s ∧ s.clients.items[slot]? = some c) E := by
  intro t m hp
  have hget := List.getElem?_eq_getElem (hlt t m.server hp)
  unfold Conn.clientItem
  rw [hget]
  simpa [Proc.Post, OnServer] using ⟨hp, hget⟩

end Primitives

theorem close_run (sys : Sys ω) (fd : Int) (m : Machine ω) :
    (Conn.close sys fd : Conn ω ε Unit) m =
      ⟨.ok (), { m with world := sys.close fd m.world }, [.closed fd]⟩ := by
  simp [Conn.close, Conn.call]

/-! ## What `conHandleConnect` does -/

/-- The results of `conHandleConnect` on the tables `s`: outcome, tables, events. -/
inductive Connected (cb : Callbacks ω ε) (s : Server) (c : Client) :
    Except Halt (ConnStatus × Client) → Server → List (ConnEvent ε) → Prop where
  | absent (hf : cb.onconnect = none) : Connected cb s c (.ok (.kill, c)) s []
  | halted {f : Callback ω ε} {e : Halt} {w w' : ω} {out : List ε}
      (hf : cb.onconnect = some f) (hrun : f s c w = ⟨.error e, w', out⟩) :
      Connected cb s c (.error e) s [.callback .onconnect s c none out]
  | killed {c' : Client} {f : Callback ω ε} {w w' : ω} {out : List ε}
      (hf : cb.onconnect = some f) (hrun : f s c w = ⟨.ok (.kill, c'), w', out⟩) :
      Connected cb s c (.ok (.kill, { c' with fd := c.fd })) s
        [.callback .onconnect s c (some .kill) out]
  | live {c' : Client} {f : Callback ω ε} {status : ConnStatus} {w w' : ω}
      {out : List ε} (now : Int)
      (hf : cb.onconnect = some f) (hrun : f s c w = ⟨.ok (status, c'), w', out⟩)
      (hstatus : status ≠ .kill) :
      Connected cb s c (.ok (status, c.admitted c' status now))
        (s.register (c.admitted c' status now))
        (.callback .onconnect s c (some status) out :: s.registerEvents c.fd)

theorem registerClient_run (c : Client) (m : Machine ω) :
    (registerClient c : Conn ω ε Unit) m =
      ⟨.ok (), { m with server := m.server.register c }, m.server.registerEvents c.fd⟩ := by
  unfold registerClient Conn.server Conn.update Proc.when Server.registerEvents
  cases hroom : m.server.hasRoom with
  | true => simp [hroom]
  | false =>
    simp [hroom]
    rfl

theorem conHandleConnect_connected (sys : Sys ω) (cb : Callbacks ω ε) (c : Client)
    (m : Machine ω) :
    Connected cb m.server c (conHandleConnect sys cb c m).outcome
      (conHandleConnect sys cb c m).state.server (conHandleConnect sys cb c m).out := by
  unfold conHandleConnect
  cases hf : cb.onconnect with
  | none => exact .absent hf
  | some f =>
    rcases hrun : f m.server c m.world with ⟨r, w', out⟩
    cases r with
    | error e =>
      have hinv : (Conn.invoke .onconnect f c) m =
          ⟨.error e, { m with world := w' }, [.callback .onconnect m.server c none out]⟩ := by
        simp [Conn.invoke, hrun]
      simp only [Proc.bind_run_error hinv]
      exact .halted hf hrun
    | ok a =>
      obtain ⟨status, c'⟩ := a
      have hinv : (Conn.invoke .onconnect f c) m =
          ⟨.ok (status, { c' with fd := c.fd }), { m with world := w' },
            [.callback .onconnect m.server c (some status) out]⟩ := by
        simp [Conn.invoke, hrun]
      simp only [Proc.bind_run_ok hinv]
      by_cases hkill : status = .kill
      · subst hkill
        simp only [ne_eq, not_true_eq_false, if_false, Proc.pure_run, List.append_nil]
        exact .killed hf hrun
      · simp only [ne_eq, hkill, not_false_eq_true, if_true, Conn.call, Proc.step_bind_run]
        rw [Proc.bind_run_ok (registerClient_run _ _)]
        simp only [Proc.pure_run, List.append_nil, List.singleton_append]
        exact .live _ hf hrun hkill

/-- The results of `acceptClient` on the tables `s`: outcome, tables, events. -/
inductive AcceptHandled (cb : Callbacks ω ε) (s : Server) (c : Client) :
    Except Halt Int → Server → List (ConnEvent ε) → Prop where
  | dropped (hf : cb.onconnect = none) :
      AcceptHandled cb s c (.ok 0) s [.accepted c.fd, .closed c.fd]
  | halted {f : Callback ω ε} {e : Halt} {w w' : ω} {out : List ε}
      (hf : cb.onconnect = some f) (hrun : f s c w = ⟨.error e, w', out⟩) :
      AcceptHandled cb s c (.error e) s [.accepted c.fd, .callback .onconnect s c none out]
  | refused {c' : Client} {f : Callback ω ε} {w w' : ω} {out : List ε}
      (hf : cb.onconnect = some f) (hrun : f s c w = ⟨.ok (.kill, c'), w', out⟩) :
      AcceptHandled cb s c (.ok 0) s
        [.accepted c.fd, .callback .onconnect s c (some .kill) out, .closed c.fd]
  | entered {c' : Client} {f : Callback ω ε} {status : ConnStatus} {w w' : ω} {out : List ε}
      (now : Int) (hf : cb.onconnect = some f) (hrun : f s c w = ⟨.ok (status, c'), w', out⟩)
      (hstatus : status ≠ .kill) :
      AcceptHandled cb s c (.ok 0) (s.register (c.admitted c' status now))
        (.accepted c.fd :: .callback .onconnect s c (some status) out ::
          s.registerEvents c.fd)

theorem acceptClient_handled (sys : Sys ω) (cb : Callbacks ω ε) (c : Client) (m : Machine ω) :
    AcceptHandled cb m.server c (acceptClient sys cb c m).outcome
      (acceptClient sys cb c m).state.server (acceptClient sys cb c m).out := by
  have hconnect := conHandleConnect_connected sys cb c m
  rcases hr : conHandleConnect sys cb c m with ⟨r, ⟨s', w⟩, out⟩
  rw [hr] at hconnect
  simp only at hconnect
  unfold acceptClient
  rw [Proc.emit_bind_run]
  cases hconnect with
  | absent hf =>
    rw [Proc.bind_run_ok hr]
    dsimp only
    rw [Proc.when_pos rfl, Proc.bind_run_ok (close_run sys _ _)]
    exact .dropped hf
  | halted hf hrun =>
    rw [Proc.bind_run_error hr]
    exact .halted hf hrun
  | killed hf hrun =>
    rw [Proc.bind_run_ok hr]
    dsimp only
    rw [Proc.when_pos rfl, Proc.bind_run_ok (close_run sys _ _)]
    exact .refused hf hrun
  | live now hf hrun hstatus =>
    rw [Proc.bind_run_ok hr]
    dsimp only
    rw [Proc.when_neg hstatus, Proc.pure_bind_run, Proc.pure_run, List.append_nil]
    exact .entered now hf hrun hstatus

/-! ## Sizes along a run -/

theorem getElem?_setClient {s : Server} {slot : Nat} {c : Client} (c' : Client)
    (h : s.clients.items[slot]? = some c) :
    (s.setClient slot c').clients.items[slot]? = some c' := by
  have hlt : slot < s.clients.items.length := by
    obtain ⟨hlt, -⟩ := List.getElem?_eq_some_iff.mp h
    exact hlt
  simp [Server.setClient, hlt]

theorem map_fd_mapIdx {l : List PollFd} {f : Nat → PollFd → PollFd}
    (h : ∀ i pfd, (f i pfd).fd = pfd.fd) : (l.mapIdx f).map (·.fd) = l.map (·.fd) := by
  apply List.ext_getElem
  · simp
  · intro i h₁ h₂
    simp [h]

theorem poll_cap_register (s : Server) (c : Client) :
    (s.register c).poll.cap = s.poll.cap := by
  unfold Server.register connPushToPoll
  cases hpush : s.poll.push (⟨c.fd, POLLIN, 0#16⟩ : PollFd) with
  | none => simp
  | some poll' =>
    obtain ⟨-, -, hcap⟩ := Table.push_eq_some hpush
    simp [hcap]

theorem Step.poll_cap {cb : Callbacks ω ε} {s s' : Server} {u : List (ConnEvent ε)}
    (h : Step cb s u s') : s'.poll.cap = s.poll.cap := by
  cases h with
  | poll poll _ hcap => exact hcap
  | touch _ _ _ => rfl
  | serve _ _ _ => rfl
  | ping _ _ _ _ => rfl
  | enter now _ _ _ => exact poll_cap_register s _
  | refuse _ _ => rfl
  | drop _ _ => rfl
  | reenter now _ _ _ _ _ => exact poll_cap_register s _
  | rekill _ _ _ _ => rfl
  | delete _ _ _ _ => rfl

theorem Steps.poll_cap {cb : Callbacks ω ε} {s₀ s : Server} {t : List (ConnEvent ε)}
    (run : Steps (Step cb) s₀ t s) : s.poll.cap = s₀.poll.cap := by
  refine run.invariant (fun _ s => s.poll.cap = s₀.poll.cap) rfl ?_
  intro t m u s' hm hstep
  exact hstep.poll_cap.trans hm

/-! ## Each function is a run of steps -/

section Refinement

variable (sys : Sys ω) (cb : Callbacks ω ε) {s₀ : Server} (hs₀ : InSync s₀)

/-- The run so far, from `s₀`. -/
def Running (s₀ : Server) : List (ConnEvent ε) → Machine ω → Prop :=
  OnServer (Steps (Step cb) s₀)

/-- The run so far, when the poll table has an entry `index`. -/
def RunningAt (s₀ : Server) (index : Nat) : List (ConnEvent ε) → Machine ω → Prop :=
  OnServer fun t s => Steps (Step cb) s₀ t s ∧ index < s.poll.len

/-- The run so far, with the client in `slot` known. -/
def Serving (s₀ : Server) (slot : Nat) (c : Client) :
    List (ConnEvent ε) → Machine ω → Prop :=
  OnServer fun t s => Steps (Step cb) s₀ t s ∧ s.clients.items[slot]? = some c

/-- The run so far, halted. -/
def Stopped (s₀ : Server) : Halt → List (ConnEvent ε) → Machine ω → Prop :=
  fun e => OnServer (Halted cb s₀ e)

/-- A callback that returned, with the tables still as it found them. -/
def Invoked (s₀ : Server) (kind : CallbackKind) (f : Callback ω ε) (slot : Nat) (c : Client)
    (status : ConnStatus) (c' : Client) (t' : List (ConnEvent ε)) (s : Server) : Prop :=
  ∃ t w w' out left, t' = t ++ [.callback kind s c (some status) out] ∧
    Steps (Step cb) s₀ t s ∧ s.clients.items[slot]? = some c ∧
    f s c w = ⟨.ok (status, left), w', out⟩ ∧ c' = { left with fd := c.fd }

theorem invoke_triple (kind : CallbackKind) {f : Callback ω ε} (hf : cb.handler kind = some f)
    (slot : Nat) (c : Client) :
    Proc.Triple (Serving cb s₀ slot c) (Conn.invoke kind f c)
      (fun r => OnServer (Invoked cb s₀ kind f slot c r.1 r.2)) (Stopped cb s₀) := by
  rintro t m ⟨hrun, hslot⟩
  unfold Conn.invoke
  rcases hcall : f m.server c m.world with ⟨r, w', out⟩
  cases r with
  | error e => exact Halted.serving hrun hslot hf hcall
  | ok a =>
    obtain ⟨status, left⟩ := a
    exact ⟨t, m.world, w', out, left, rfl, hrun, hslot, hcall, rfl⟩

theorem markDeleted_triple (index : Nat) :
    Proc.Triple (Running cb s₀) (Conn.markDeleted index) (fun _ => Running cb s₀)
      (Stopped cb s₀) := by
  refine update_triple fun t s h => h.silent (.poll s _ (map_fd_mapIdx ?_) rfl)
  intro i pfd
  split <;> rfl

theorem touch_triple {slot : Nat} {c c' : Client} (hfd : c'.fd = c.fd)
    (hstatus : c'.status = c.status) :
    Proc.Triple (Serving cb s₀ slot c) (Conn.setClient slot c')
      (fun _ => Serving cb s₀ slot c') (Stopped cb s₀) := by
  refine update_triple fun t s h => ⟨?_, getElem?_setClient c' h.2⟩
  exact h.1.silent (.touch s h.2 hfd hstatus)

theorem conHasEvents_triple :
    Proc.Triple (Running cb s₀) (conHasEvents sys) (fun _ => Running cb s₀)
      (Stopped cb s₀) := by
  unfold conHasEvents
  refine Proc.Triple.bind server_triple fun s => ?_
  refine Proc.Triple.bind call_triple fun polled => ?_
  refine Proc.Triple.bind (Q := fun _ => Running cb s₀) (update_triple ?_) fun _ => ?_
  · rintro t s' ⟨h, rfl⟩
    exact h.silent (.poll s' _ (map_fd_mapIdx fun _ _ => rfl) rfl)
  · exact Proc.Triple.pure fun _ _ h => h

/-- Accepting, and what follows from `onconnect`. -/
theorem acceptClient_triple (c : Client) :
    Proc.Triple (Running cb s₀) (acceptClient sys cb c) (fun _ => Running cb s₀)
      (Stopped cb s₀) := by
  intro t m hrun
  have haccept := acceptClient_handled sys cb c m
  rcases hr : acceptClient sys cb c m with ⟨r, ⟨s', w⟩, u⟩
  rw [hr] at haccept
  simp only at haccept
  cases haccept with
  | dropped hf => exact Steps.snoc hrun (.drop m.server c.fd hf)
  | halted hf hcb => exact Halted.connecting hrun hf hcb
  | refused hf hcb => exact Steps.snoc hrun (.refuse m.server hf hcb)
  | entered now hf hcb hstatus => exact Steps.snoc hrun (.enter m.server now hf hcb hstatus)

/-- What is written back after a client was connected again. -/
theorem writeBack_run (slot index : Nat) (c : Client) (marked : Prop) [Decidable marked]
    (m : Machine ω) :
    ((Conn.setClient slot c >>= fun _ => Proc.when marked (Conn.markDeleted index)) :
      Conn ω ε Unit) m =
      ⟨.ok (), { m with server :=
        if marked then (m.server.setClient slot c).markDeleted index
        else m.server.setClient slot c }, []⟩ := by
  unfold Conn.setClient Conn.update Proc.when
  rw [Proc.modify_bind_run]
  split
  · rfl
  · rfl

theorem pingClient_triple {f : Callback ω ε} (hf : cb.onping = some f) (index : Nat)
    (c : Client) (now : Int) :
    Proc.Triple (Serving cb s₀ (index - 1) c) (pingClient f index c now)
      (fun _ => Running cb s₀) (Stopped cb s₀) := by
  unfold pingClient
  refine Proc.Triple.bind (invoke_triple cb .onping hf _ c) ?_
  rintro ⟨status, c'⟩
  refine Proc.Triple.bind (Q := fun _ => Running cb s₀) (update_triple ?_) fun _ => ?_
  · rintro t' s ⟨t, w, w', out, left, rfl, hrun, hslot, hcb, hleft⟩
    have hstep := hrun.snoc (Step.ping s now hslot hf hcb)
    subst hleft
    exact hstep
  · exact Proc.Triple.when (fun _ => markDeleted_triple cb index) fun _ _ _ h => h

/-- What a notice leaves: the same tables, and its events. -/
theorem notifyDisconnect_run (c : Client) (m : Machine ω) :
    ∃ r w out, notifyDisconnect cb c m = ⟨r, { m with world := w }, out⟩ ∧
      (r = .ok () → Notified cb m.server c out) ∧
      ∀ e, r = .error e → ∃ f w' out', cb.ondisconnect = some f ∧
        f m.server c m.world = ⟨.error e, w', out'⟩ ∧
        out = [.callback .ondisconnect m.server c none out'] := by
  unfold notifyDisconnect Notified
  cases hf : cb.ondisconnect with
  | none =>
    exact ⟨.ok (), m.world, [], rfl, fun _ => rfl, fun e he => by cases he⟩
  | some f =>
    rcases hrun : f m.server c m.world with ⟨r, w, out⟩
    refine ⟨r, w, [.callback .ondisconnect m.server c none out], ?_, ?_, ?_⟩
    · simp [Conn.invokeDisconnect, hrun]
    · rintro rfl
      exact ⟨m.world, w, out, hrun, rfl⟩
    · rintro e rfl
      exact ⟨f, w, out, rfl, hrun, rfl⟩

/-- Deleting an entry: the notice, and then the removal. -/
theorem deleteConnection_triple {index : Nat} (hindex : 1 ≤ index) (pfd : PollFd)
    (c : Client) (len : Nat) :
    Proc.Triple
      (OnServer fun t s => (Steps (Step cb) s₀ t s ∧ s.poll.len = len) ∧
        s.poll.items[index]? = some pfd ∧ s.clients.items[index - 1]? = some c)
      (deleteConnection sys cb index pfd c)
      (fun _ => OnServer fun t s => Steps (Step cb) s₀ t s ∧ s.poll.len = len - 1)
      (Stopped cb s₀) := by
  rintro t m ⟨⟨hrun, hlen⟩, hpfd, hclient⟩
  obtain ⟨r, w, out, hr, hok, herror⟩ := notifyDisconnect_run cb c m
  unfold deleteConnection
  cases r with
  | error e =>
    rw [Proc.bind_run_error hr]
    obtain ⟨f, w', out', hf, hcall, rfl⟩ := herror e rfl
    exact Halted.notifying hrun hclient hf hcall
  | ok u =>
    rw [Proc.bind_run_ok hr, Proc.bind_run_ok (close_run sys _ _)]
    have hstep := hrun.snoc (Step.delete m.server hindex hpfd hclient (hok rfl))
    have hlen' : (m.server.delete index).poll.len = len - 1 := by
      rw [← hlen]
      simp [Server.delete, Table.len]
    simpa [Conn.update, Proc.Post, OnServer] using ⟨hstep, hlen'⟩

/-- A loop over the entries whose rounds are runs of steps is a run of steps.  The
fuel suffices: with the index it exceeds the capacity of the table. -/
theorem loop_triple {body : Nat → Conn ω ε Nat}
    (hbody : ∀ i, 1 ≤ i → Proc.Triple (RunningAt cb s₀ i) (body i)
      (fun j t m => Running cb s₀ t m ∧ j = i + 1) (Stopped cb s₀)) :
    Proc.Triple (Running cb s₀) (Proc.loop .outOfFuel indexInPoll body s₀.poll.cap 1)
      (fun _ => Running cb s₀) (Stopped cb s₀) := by
  refine Proc.Triple.conseq (Proc.Triple.loop (E := Stopped cb s₀)
    (fun fuel i t m => Running cb s₀ t m ∧ 1 ≤ i ∧ s₀.poll.cap < fuel + i)
    (fun fuel i => ?_) (fun i t m h hlt => ?_) s₀.poll.cap 1) ?_ ?_ (fun _ _ _ h => h)
  · by_cases hi : 1 ≤ i
    · refine (Proc.Triple.strengthen (P := fun t m =>
          RunningAt cb s₀ i t m ∧ s₀.poll.cap < fuel + 1 + i) ?_ ?_)
      · intro t m h
        have hpost := hbody i hi t m h.1
        unfold Proc.Post at hpost ⊢
        split at hpost
        · obtain ⟨hrun, rfl⟩ := hpost
          exact ⟨hrun, by omega, by omega⟩
        · exact hpost
      · rintro t m ⟨⟨hrun, -, hfuel⟩, hlt⟩
        exact ⟨⟨hrun, by simpa [indexInPoll] using hlt⟩, hfuel⟩
    · exact fun t m h => absurd h.1.2.1 hi
  · have hcap := Steps.poll_cap h.1
    have hlen := m.server.poll.len_le_cap
    have hlt' : i < m.server.poll.len := by simpa [indexInPoll] using hlt
    have hbound := h.2.2
    simp only [Table.len] at hlt'
    omega
  · intro t m h
    exact ⟨h, Nat.le_refl 1, by omega⟩
  · rintro _ t m ⟨_, _, h, _⟩
    exact h.1

include hs₀

theorem conAcceptConnections_triple :
    Proc.Triple (Running cb s₀) (conAcceptConnections sys cb) (fun _ => Running cb s₀)
      (Stopped cb s₀) := by
  have hdone : ∀ r : Int, Proc.Triple (Running cb s₀) (pure r : Conn ω ε Int)
      (fun _ => Running cb s₀) (Stopped cb s₀) :=
    fun r => Proc.Triple.pure fun _ _ h => h
  unfold conAcceptConnections
  refine Proc.Triple.bind (pollItem_triple fun t s h => ?_) fun listener => ?_
  · have hlen := (Steps.inSync h hs₀).1.poll_len
    omega
  refine Proc.Triple.strengthen (P := Running cb s₀) ?_ (fun _ _ h => h.1)
  refine Proc.Triple.ite (fun _ => hdone _) fun _ => ?_
  refine Proc.Triple.ite (fun _ => hdone _) fun _ => ?_
  refine Proc.Triple.ite (fun _ => ?_) (fun _ => hdone _)
  refine Proc.Triple.bind server_triple fun s => ?_
  refine Proc.Triple.bind call_triple fun accepted => ?_
  refine Proc.Triple.strengthen (P := Running cb s₀) ?_ (fun _ _ h => h.1)
  exact Proc.Triple.ite (fun _ => hdone _) fun _ => acceptClient_triple sys cb _

/-- An entry of the poll table after the listener's has a client. -/
theorem clientItem_serving {index : Nat} (hindex : 1 ≤ index) :
    Proc.Triple (RunningAt cb s₀ index) (Conn.clientItem (index - 1))
      (fun c => Serving cb s₀ (index - 1) c) (Stopped cb s₀) := by
  refine (clientItem_triple fun t s h => ?_).weaken fun c t m h => ⟨h.1.1, h.2⟩
  have hlen := (Steps.inSync h.1 hs₀).1.poll_len
  have hlt := h.2
  omega

/-- A client in use has its entry in the poll table. -/
theorem Serving.runningAt {index : Nat} (hindex : 1 ≤ index) {c : Client}
    {t : List (ConnEvent ε)} {m : Machine ω} (h : Serving cb s₀ (index - 1) c t m) :
    RunningAt cb s₀ index t m := by
  refine ⟨h.1, ?_⟩
  have hlen := (Steps.inSync h.1 hs₀).1.poll_len
  obtain ⟨hlt, -⟩ := List.getElem?_eq_some_iff.mp h.2
  have hlt' : index - 1 < m.server.clients.len := hlt
  omega

theorem conHandleReceivData_triple {f : Callback ω ε} (hf : cb.onmessage = some f)
    {index : Nat} (hindex : 1 ≤ index) :
    Proc.Triple (RunningAt cb s₀ index) (conHandleReceivData sys f (index - 1))
      (fun _ => Running cb s₀) (Stopped cb s₀) := by
  unfold conHandleReceivData
  refine Proc.Triple.bind call_triple fun now => ?_
  refine Proc.Triple.bind (clientItem_serving cb hs₀ hindex) fun c => ?_
  refine Proc.Triple.bind (touch_triple cb rfl rfl) fun _ => ?_
  refine Proc.Triple.bind (invoke_triple cb .onmessage hf _ _) ?_
  rintro ⟨status, c'⟩
  refine Proc.Triple.bind (Q := fun _ => Running cb s₀) (update_triple ?_) fun _ => ?_
  · rintro t' s ⟨t, w, w', out, left, rfl, hrun, hslot, hcb, rfl⟩
    exact hrun.snoc (.serve s hslot hf hcb)
  · exact Proc.Triple.pure fun _ _ h => h

theorem deliverMessage_triple {index : Nat} (hindex : 1 ≤ index) :
    Proc.Triple (RunningAt cb s₀ index) (deliverMessage sys cb index)
      (fun _ => Running cb s₀) (Stopped cb s₀) := by
  unfold deliverMessage
  cases hf : cb.onmessage with
  | none => exact Proc.Triple.pure fun _ _ h => h.1
  | some f =>
    refine Proc.Triple.bind (clientItem_serving cb hs₀ hindex) fun c => ?_
    refine Proc.Triple.bind (Q := fun _ => RunningAt cb s₀ index) ?_ fun _ => ?_
    · exact Proc.Triple.weaken
        (Q := fun _ => Serving cb s₀ (index - 1) { c with last_updated := 0 })
        (touch_triple cb rfl rfl) fun _ _ _ h => Serving.runningAt cb hs₀ hindex h
    refine Proc.Triple.bind (conHandleReceivData_triple sys cb hs₀ hf hindex) fun status => ?_
    exact Proc.Triple.when (fun _ => markDeleted_triple cb index) fun _ _ _ h => h

/-- Connecting a registered client again, when its status asks for it. -/
theorem retryConnect_triple {index : Nat} (hindex : 1 ≤ index) (c : Client) :
    Proc.Triple (Serving cb s₀ (index - 1) c) (retryConnect sys cb index c)
      (fun _ => RunningAt cb s₀ index) (Stopped cb s₀) := by
  unfold retryConnect
  refine Proc.Triple.ite (fun hretry => ?_) fun _ => ?_
  · rintro t m ⟨hrun, hslot⟩
    have hs := (Steps.inSync hrun hs₀).1
    have hc := conHandleConnect_connected sys cb c m
    rcases hr : conHandleConnect sys cb c m with ⟨r, m', out⟩
    rw [hr] at hc
    simp only at hc
    generalize hs' : m'.server = s' at hc
    cases hc with
    | absent hf =>
      rw [Proc.bind_run_ok hr]
      simp only [writeBack_run, hs']
      have := Serving.runningAt cb hs₀ hindex (m := ⟨m.server.setClient _ c, m'.world⟩)
        ⟨hrun.silent (Step.touch m.server hslot rfl rfl), getElem?_setClient c hslot⟩
      simpa [Proc.Post, RunningAt, OnServer] using this
    | halted hf hcb =>
      rw [Proc.bind_run_error hr]
      have hhandler : cb.handler .onconnect = some _ := hf
      have := Halted.serving hrun hslot hhandler hcb
      simpa [Proc.Post, Stopped, OnServer, hs'] using this
    | @killed c' f w w' out hf hcb =>
      rw [Proc.bind_run_ok hr]
      simp only [writeBack_run, hs']
      have := Serving.runningAt cb hs₀ hindex (m := ⟨m.server.setClient _ _, m'.world⟩)
        ⟨hrun.snoc (Step.rekill m.server hslot hretry hf hcb), getElem?_setClient _ hslot⟩
      simpa [Proc.Post, RunningAt, OnServer] using this
    | @live c' f status w w' out now hf hcb hstatus =>
      rw [Proc.bind_run_ok hr]
      simp only [writeBack_run, hs']
      obtain ⟨hsteps, hlt⟩ := Serving.runningAt cb hs₀ hindex
        (m := ⟨(m.server.register (c.admitted c' status now)).setClient _ _, m'.world⟩)
        ⟨hrun.snoc (Step.reenter m.server now hslot hretry hf hcb hstatus),
          getElem?_setClient _ (getElem?_register _ hslot)⟩
      have hmark := markDeleted_triple cb index _ _ hsteps
      refine ⟨?_, ?_⟩
      · simpa [hstatus, Proc.Post, Running, OnServer, Conn.markDeleted, Conn.update]
          using hmark
      · simpa [hstatus, Server.markDeleted, Table.len] using hlt
  · exact Proc.Triple.pure fun _ _ h => Serving.runningAt cb hs₀ hindex h

theorem handleEvent_triple {index : Nat} (hindex : 1 ≤ index) (pfd : PollFd) (c : Client)
    (peek : Int) :
    Proc.Triple (Serving cb s₀ (index - 1) c) (handleEvent sys cb index pfd c peek)
      (fun _ => Running cb s₀) (Stopped cb s₀) := by
  have hmark : Proc.Triple (Serving cb s₀ (index - 1) c) (Conn.markDeleted index)
      (fun _ => Running cb s₀) (Stopped cb s₀) :=
    (markDeleted_triple cb index).strengthen fun _ _ h => h.1
  unfold handleEvent
  refine Proc.Triple.ite (fun _ => hmark) fun _ => ?_
  refine Proc.Triple.ite (fun _ => hmark) fun _ => ?_
  refine Proc.Triple.ite (fun _ => hmark) fun _ => ?_
  refine Proc.Triple.ite (fun _ => ?_) fun _ => ?_
  · exact Proc.Triple.bind (retryConnect_triple sys cb hs₀ hindex c)
      fun _ => deliverMessage_triple sys cb hs₀ hindex
  · refine Proc.Triple.bind call_triple fun now => ?_
    exact Proc.Triple.weaken
      (Q := fun _ => Serving cb s₀ (index - 1) { c with last_updated := now })
      (touch_triple cb rfl rfl) fun _ _ _ h => h.1

theorem eventRound_triple {index : Nat} (hindex : 1 ≤ index) :
    Proc.Triple (RunningAt cb s₀ index) (eventRound sys cb index)
      (fun j t m => Running cb s₀ t m ∧ j = index + 1) (Stopped cb s₀) := by
  unfold eventRound
  refine Proc.Triple.bind (pollItem_triple fun t s h => h.2) fun pfd => ?_
  refine Proc.Triple.bind (Q := fun c => Serving cb s₀ (index - 1) c) ?_ fun c => ?_
  · exact (clientItem_serving cb hs₀ hindex).strengthen fun _ _ h => h.1
  refine Proc.Triple.bind call_triple fun peek => ?_
  refine Proc.Triple.bind (handleEvent_triple sys cb hs₀ hindex pfd c _) fun _ => ?_
  exact Proc.Triple.pure fun _ _ h => ⟨h, rfl⟩

theorem eventLoop_triple :
    Proc.Triple (Running cb s₀) (eventLoop sys cb) (fun _ => Running cb s₀)
      (Stopped cb s₀) := by
  unfold eventLoop
  refine Proc.Triple.bind server_triple fun s => ?_
  rintro t m ⟨hrun, hm⟩
  rw [← hm, Steps.poll_cap hrun]
  exact loop_triple cb (fun i hi => eventRound_triple sys cb hs₀ hi) t m hrun

theorem pingRound_triple {f : Callback ω ε} (hf : cb.onping = some f) {index : Nat}
    (hindex : 1 ≤ index) :
    Proc.Triple (RunningAt cb s₀ index) (pingRound sys f index)
      (fun j t m => Running cb s₀ t m ∧ j = index + 1) (Stopped cb s₀) := by
  unfold pingRound
  refine Proc.Triple.bind (clientItem_serving cb hs₀ hindex) fun c => ?_
  refine Proc.Triple.bind call_triple fun now => ?_
  refine Proc.Triple.bind server_triple fun s => ?_
  refine Proc.Triple.bind (Q := fun _ => Running cb s₀) ?_ fun _ => ?_
  · refine Proc.Triple.when (fun _ => ?_) fun _ _ _ h => h.1.1
    exact (pingClient_triple cb hf index c now).strengthen fun _ _ h => h.1
  · exact Proc.Triple.pure fun _ _ h => ⟨h, rfl⟩

theorem pingLoop_triple {f : Callback ω ε} (hf : cb.onping = some f) :
    Proc.Triple (Running cb s₀) (pingLoop sys f) (fun _ => Running cb s₀)
      (Stopped cb s₀) := by
  unfold pingLoop
  refine Proc.Triple.bind server_triple fun s => ?_
  rintro t m ⟨hrun, hm⟩
  rw [← hm, Steps.poll_cap hrun]
  exact loop_triple cb (fun i hi => pingRound_triple sys cb hs₀ hf hi) t m hrun

theorem deleteRound_triple {index : Nat} (hindex : 1 ≤ index) (len : Nat) :
    Proc.Triple
      (fun t m => RunningAt cb s₀ index t m ∧ m.server.poll.len = len)
      (deleteRound sys cb index)
      (fun j t m => Running cb s₀ t m ∧
        (j = index + 1 ∧ m.server.poll.len = len ∨ j = index ∧ m.server.poll.len = len - 1))
      (Stopped cb s₀) := by
  unfold deleteRound
  refine Proc.Triple.strengthen (P := OnServer fun t s =>
    (Steps (Step cb) s₀ t s ∧ s.poll.len = len) ∧ index < s.poll.len) ?_
    fun t m h => ⟨⟨h.1.1, h.2⟩, h.1.2⟩
  refine Proc.Triple.bind (pollItem_triple fun t s h => h.2) fun pfd => ?_
  refine Proc.Triple.bind (clientItem_triple fun t s h => ?_) fun c => ?_
  · have hlen := (Steps.inSync h.1.1.1 hs₀).1.poll_len
    have hlt := h.1.2
    omega
  refine Proc.Triple.ite (fun _ => ?_) fun _ => ?_
  · refine Proc.Triple.bind ((deleteConnection_triple sys cb hindex pfd c len).strengthen
      fun t m h => ⟨h.1.1.1, h.1.2, h.2⟩) fun _ => ?_
    exact Proc.Triple.pure fun _ _ h => ⟨h.1, .inr ⟨rfl, h.2⟩⟩
  · exact Proc.Triple.pure fun _ _ h => ⟨h.1.1.1.1, .inl ⟨rfl, h.1.1.1.2⟩⟩

/-- A deletion shortens the table and a kept entry moves the index on, so the
length the pass begins with is fuel enough. -/
theorem deleteLoop_triple :
    Proc.Triple (Running cb s₀) (deleteLoop sys cb) (fun _ => Running cb s₀)
      (Stopped cb s₀) := by
  unfold deleteLoop
  refine Proc.Triple.bind server_triple fun s => ?_
  refine Proc.Triple.conseq (Proc.Triple.loop (E := Stopped cb s₀)
    (fun fuel i t m => Running cb s₀ t m ∧ 1 ≤ i ∧ m.server.poll.len < fuel + i)
    (fun fuel i => ?_) (fun i t m h hlt => ?_) s.poll.len 1) ?_ ?_ (fun _ _ _ h => h)
  · rintro t m ⟨⟨hrun, hi, hfuel⟩, hlt⟩
    have hlt' : i < m.server.poll.len := by simpa [indexInPoll] using hlt
    have hround := deleteRound_triple sys cb hs₀ hi m.server.poll.len t m ⟨⟨hrun, hlt'⟩, rfl⟩
    unfold Proc.Post at hround ⊢
    split at hround
    · obtain ⟨hrun', ⟨rfl, hlen⟩ | ⟨rfl, hlen⟩⟩ := hround
      · exact ⟨hrun', by omega, by omega⟩
      · exact ⟨hrun', hi, by omega⟩
    · exact hround
  · have hlt' : i < m.server.poll.len := by simpa [indexInPoll] using hlt
    have hbound := h.2.2
    omega
  · rintro t m ⟨hrun, hm⟩
    refine ⟨hrun, Nat.le_refl 1, ?_⟩
    rw [hm]
    omega
  · rintro _ t m ⟨_, _, h, _⟩
    exact h.1

theorem handleEvents_triple (num_events : Int) :
    Proc.Triple (Running cb s₀) (handleEvents sys cb num_events) (fun _ => Running cb s₀)
      (Stopped cb s₀) := by
  unfold handleEvents
  refine Proc.Triple.ite (fun _ => ?_) fun _ => ?_
  · refine Proc.Triple.bind (conAcceptConnections_triple sys cb hs₀) fun err => ?_
    refine Proc.Triple.ite (fun _ => ?_) fun _ => eventLoop_triple sys cb hs₀
    exact Proc.Triple.halt fun _ _ h => .listener h
  · cases hf : cb.onping with
    | none => exact Proc.Triple.pure fun _ _ h => h
    | some f => exact pingLoop_triple sys cb hs₀ hf

/-- **The refinement.**  A call of `conPollEvents` is a run of steps. -/
theorem conPollEvents_steps :
    Proc.Triple (Running cb s₀) (conPollEvents sys cb) (fun _ => Running cb s₀)
      (Stopped cb s₀) := by
  unfold conPollEvents
  refine Proc.Triple.bind (conHasEvents_triple sys cb) fun num_events => ?_
  refine Proc.Triple.bind (handleEvents_triple sys cb hs₀ num_events) fun _ => ?_
  exact deleteLoop_triple sys cb hs₀

/-- Any number of calls is a run of steps. -/
theorem serve_steps (n : Nat) :
    Proc.Triple (Running cb s₀) (serve sys cb n) (fun _ => Running cb s₀)
      (Stopped cb s₀) := by
  unfold serve
  induction n with
  | zero => exact Proc.Triple.pure fun _ _ h => h
  | succ n ih => exact Proc.Triple.bind (conPollEvents_steps sys cb hs₀) fun _ => ih

end Refinement

end NoGround
