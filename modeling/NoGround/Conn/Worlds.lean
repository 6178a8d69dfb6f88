/-
  Conn/Worlds.lean --- what a run of the server keeps of the world.

  `Step` has forgotten the world.  A property that relates it to the trace, such as what is
  still to be read from a socket, is kept by every run if each system call and each callback
  keeps it; this is read off the functions here, one lemma for each.
-/
import NoGround.Conn.Steps

set_option autoImplicit false

namespace NoGround

open NoGround.Lib

variable {ω ε : Type}

/-- The event is not a callback's. -/
def NotCallback : ConnEvent ε → Prop
  | .callback _ _ _ _ _ => False
  | _ => True

/-- What the server does on its own, and each of its callbacks, keeps `I`. -/
structure KeepsWorld (sys : Sys ω) (cb : Callbacks ω ε) (I : List (ConnEvent ε) → ω → Prop) :
    Prop where
  emit : ∀ {t w e}, NotCallback e → I t w → I (t ++ [e]) w
  clock : ∀ {t w}, I t w → I t (sys.clock w).2
  poll : ∀ {t w} pfds, I t w → I t (sys.poll pfds w).2
  accept : ∀ {t w} fd, I t w → I t (sys.accept fd w).2
  close : ∀ {t w} fd, I t w → I t (sys.close fd w)
  peek : ∀ {t w} fd, I t w → I t (sys.received fd 1 .peek w).2
  call : ∀ {kind f}, cb.handler kind = some f → ∀ s c {t w}, I t w →
    I (t ++ [.callback kind s c (answered (f s c w).outcome) (f s c w).out]) (f s c w).state
  notify : ∀ {f}, cb.ondisconnect = some f → ∀ s c {t w}, I t w →
    I (t ++ [.callback .ondisconnect s c none (f s c w).out]) (f s c w).state

section Keeps

variable {sys : Sys ω} {cb : Callbacks ω ε} {I : List (ConnEvent ε) → ω → Prop}

/-- The program keeps `I` of the trace and the world. -/
abbrev KeepsI (I : List (ConnEvent ε) → ω → Prop) {α : Type} (m : Conn ω ε α) : Prop :=
  Proc.Keeps (fun t m => I t m.world) m

theorem keeps_call {α : Type} {f : ω → α × ω} (h : ∀ {t w}, I t w → I t (f w).2) :
    KeepsI I (Conn.call f : Conn ω ε α) :=
  Proc.Triple.step fun _ _ ht => h ht

theorem keeps_server : KeepsI I (Conn.server : Conn ω ε Server) :=
  Proc.Triple.step fun _ _ ht => ht

theorem keeps_update (f : Server → Server) : KeepsI I (Conn.update f : Conn ω ε Unit) :=
  Proc.Triple.modify fun _ _ ht => ht

theorem keeps_pollItem (index : Nat) : KeepsI I (Conn.pollItem index : Conn ω ε PollFd) := by
  intro t m ht
  unfold Conn.pollItem Proc.Post
  cases m.server.poll.items[index]? <;> simpa using ht

theorem keeps_clientItem (slot : Nat) : KeepsI I (Conn.clientItem slot : Conn ω ε Client) := by
  intro t m ht
  unfold Conn.clientItem Proc.Post
  cases m.server.clients.items[slot]? <;> simpa using ht

variable (h : KeepsWorld sys cb I)

include h

theorem keeps_emit {e : ConnEvent ε} (he : NotCallback e) :
    KeepsI I (Proc.emit e : Conn ω ε Unit) :=
  Proc.Triple.emit fun _ _ ht => h.emit he ht

theorem keeps_close (fd : Int) : KeepsI I (Conn.close sys fd : Conn ω ε Unit) :=
  Proc.Keeps.bind (keeps_call fun ht => h.close fd ht) fun _ => keeps_emit h trivial

theorem keeps_clock : KeepsI I (Conn.call sys.clock : Conn ω ε Int) :=
  keeps_call fun ht => h.clock ht

theorem keeps_invoke {kind : CallbackKind} {f : Callback ω ε} (hf : cb.handler kind = some f)
    (c : Client) : KeepsI I (Conn.invoke kind f c) := by
  intro t m ht
  have hcall := h.call hf m.server c ht
  unfold Conn.invoke Proc.Post
  rcases hrun : f m.server c m.world with ⟨r, w, out⟩
  rw [hrun] at hcall
  cases r with
  | error e => exact hcall
  | ok a => exact hcall

/-! ## Accepting -/

theorem keeps_conHandleConnect (c : Client) : KeepsI I (conHandleConnect sys cb c) := by
  unfold conHandleConnect
  cases hf : cb.onconnect with
  | none => exact Proc.Keeps.pure _
  | some f =>
    apply Proc.Keeps.bind (keeps_invoke h (show cb.handler .onconnect = some f from hf) c)
    intro a
    apply Proc.Keeps.ite (fun _ => ?_) fun _ => Proc.Keeps.pure _
    apply Proc.Keeps.bind (keeps_clock h)
    intro now
    apply Proc.Keeps.bind _ fun _ => Proc.Keeps.pure _
    apply Proc.Keeps.bind keeps_server
    intro s
    apply Proc.Keeps.bind (keeps_update _)
    exact fun _ => Proc.Keeps.when (keeps_emit h (e := .registered _) trivial)

theorem keeps_conAcceptConnections : KeepsI I (conAcceptConnections sys cb) := by
  unfold conAcceptConnections
  apply Proc.Keeps.bind (keeps_pollItem 0)
  intro listener
  apply Proc.Keeps.ite (fun _ => Proc.Keeps.pure _)
  intro _
  apply Proc.Keeps.ite (fun _ => Proc.Keeps.pure _)
  intro _
  apply Proc.Keeps.ite (fun _ => ?_) fun _ => Proc.Keeps.pure _
  apply Proc.Keeps.bind keeps_server
  intro s
  apply Proc.Keeps.bind (keeps_call fun ht => h.accept s.fd ht)
  intro accepted
  apply Proc.Keeps.ite (fun _ => Proc.Keeps.pure _)
  intro _
  apply Proc.Keeps.bind (keeps_emit h (e := .accepted _) trivial)
  intro _
  apply Proc.Keeps.bind (keeps_conHandleConnect h _)
  intro a
  exact Proc.Keeps.bind (Proc.Keeps.when (keeps_close h _)) fun _ => Proc.Keeps.pure _

/-! ## Serving -/

theorem keeps_deliverMessage (index : Nat) : KeepsI I (deliverMessage sys cb index) := by
  unfold deliverMessage
  cases hf : cb.onmessage with
  | none => exact Proc.Keeps.pure _
  | some f =>
    apply Proc.Keeps.bind (keeps_clientItem _)
    intro c
    apply Proc.Keeps.bind (keeps_update _)
    intro _
    apply Proc.Keeps.bind _ fun _ => Proc.Keeps.when (keeps_update _)
    apply Proc.Keeps.bind (keeps_clock h)
    intro now
    apply Proc.Keeps.bind (keeps_clientItem _)
    intro c
    apply Proc.Keeps.bind (keeps_update _)
    intro _
    apply Proc.Keeps.bind (keeps_invoke h (show cb.handler .onmessage = some f from hf) _)
    exact fun _ => Proc.Keeps.bind (keeps_update _) fun _ => Proc.Keeps.pure _

theorem keeps_eventRound (index : Nat) : KeepsI I (eventRound sys cb index) := by
  have hmark : KeepsI I (Conn.markDeleted index : Conn ω ε Unit) := keeps_update _
  have hretry (c : Client) : KeepsI I (retryConnect sys cb index c) := by
    unfold retryConnect
    apply Proc.Keeps.ite (fun _ => ?_) fun _ => Proc.Keeps.pure _
    apply Proc.Keeps.bind (keeps_conHandleConnect h c)
    exact fun _ => Proc.Keeps.bind (keeps_update _) fun _ => Proc.Keeps.when hmark
  unfold eventRound
  apply Proc.Keeps.bind (keeps_pollItem _)
  intro pfd
  apply Proc.Keeps.bind (keeps_clientItem _)
  intro c
  apply Proc.Keeps.bind (keeps_call fun ht => h.peek pfd.fd ht)
  intro peek
  apply Proc.Keeps.bind _ fun _ => Proc.Keeps.pure _
  unfold handleEvent
  apply Proc.Keeps.ite (fun _ => hmark)
  intro _
  apply Proc.Keeps.ite (fun _ => hmark)
  intro _
  apply Proc.Keeps.ite (fun _ => hmark)
  intro _
  apply Proc.Keeps.ite
  · exact fun _ => Proc.Keeps.bind (hretry c) fun _ => keeps_deliverMessage h index
  · exact fun _ => Proc.Keeps.bind (keeps_clock h) fun _ => keeps_update _

/-! ## Pinging -/

theorem keeps_pingLoop {f : Callback ω ε} (hf : cb.onping = some f) :
    KeepsI I (pingLoop sys f) := by
  apply Proc.Keeps.bind keeps_server
  intro s
  apply Proc.Keeps.loop
  intro index
  apply Proc.Keeps.bind (keeps_clientItem _)
  intro c
  apply Proc.Keeps.bind (keeps_clock h)
  intro now
  apply Proc.Keeps.bind keeps_server
  intro s
  apply Proc.Keeps.bind _ fun _ => Proc.Keeps.pure _
  apply Proc.Keeps.when
  apply Proc.Keeps.bind (keeps_invoke h (show cb.handler .onping = some f from hf) c)
  exact fun _ => Proc.Keeps.bind (keeps_update _) fun _ => Proc.Keeps.when (keeps_update _)

/-! ## Deleting -/

theorem keeps_invokeDisconnect {f : DisconnectCallback ω ε} (hf : cb.ondisconnect = some f)
    (c : Client) : KeepsI I (Conn.invokeDisconnect f c) := by
  intro t m ht
  have hcall := h.notify hf m.server c ht
  unfold Conn.invokeDisconnect Proc.Post
  rcases hrun : f m.server c m.world with ⟨r, w, out⟩
  rw [hrun] at hcall
  cases r with
  | error e => exact hcall
  | ok a => exact hcall

theorem keeps_notifyDisconnect (c : Client) : KeepsI I (notifyDisconnect cb c) := by
  unfold notifyDisconnect
  cases hf : cb.ondisconnect with
  | none => exact Proc.Keeps.pure _
  | some f => exact keeps_invokeDisconnect h hf c

theorem keeps_deleteLoop : KeepsI I (deleteLoop sys cb) := by
  apply Proc.Keeps.bind keeps_server
  intro s
  apply Proc.Keeps.loop
  intro index
  apply Proc.Keeps.bind (keeps_pollItem _)
  intro pfd
  apply Proc.Keeps.bind (keeps_clientItem _)
  intro c
  apply Proc.Keeps.ite (fun _ => ?_) fun _ => Proc.Keeps.pure _
  apply Proc.Keeps.bind _ fun _ => Proc.Keeps.pure _
  apply Proc.Keeps.bind (keeps_notifyDisconnect h c)
  intro _
  apply Proc.Keeps.bind (keeps_close h _)
  intro _
  exact Proc.Keeps.bind (keeps_update _) fun _ => keeps_emit h trivial

/-! ## Every run -/

theorem keeps_conPollEvents : KeepsI I (conPollEvents sys cb) := by
  have hhas : KeepsI I (conHasEvents sys : Conn ω ε Int) := by
    apply Proc.Keeps.bind keeps_server
    intro s
    apply Proc.Keeps.bind (keeps_call fun ht => h.poll s.poll.items ht)
    exact fun _ => Proc.Keeps.bind (keeps_update _) fun _ => Proc.Keeps.pure _
  have hevents (n : Int) : KeepsI I (handleEvents sys cb n) := by
    unfold handleEvents
    apply Proc.Keeps.ite
    · intro _
      apply Proc.Keeps.bind (keeps_conAcceptConnections h)
      intro err
      apply Proc.Keeps.ite (fun _ => Proc.Keeps.halt _)
      intro _
      exact Proc.Keeps.bind keeps_server fun _ => Proc.Keeps.loop (keeps_eventRound h) _ _
    · intro _
      cases hf : cb.onping with
      | none => exact Proc.Keeps.pure _
      | some f => exact keeps_pingLoop h hf
  apply Proc.Keeps.bind hhas
  intro n
  exact Proc.Keeps.bind (hevents n) fun _ => keeps_deleteLoop h

/-- **What every run keeps.** -/
theorem serve_keepsWorld (n : Nat) : KeepsI I (serve sys cb n) :=
  Proc.Keeps.times (keeps_conPollEvents h) n

end Keeps

end NoGround
