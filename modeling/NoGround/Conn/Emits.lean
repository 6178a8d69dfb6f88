/-
  Conn/Emits.lean --- which events each part of `conPollEvents` can emit.

  One call accepts at most one connection, and it either serves its clients or pings them.
  That cannot be seen in `Step`, which has forgotten the order of the source; it is read off
  the functions here, one lemma for each.
-/
import NoGround.Conn.Poll

set_option autoImplicit false

namespace NoGround

open NoGround.Lib

variable {ω ε : Type}

section Emits

variable {P : ConnEvent ε → Prop}

theorem emits_call {α : Type} (f : ω → α × ω) : Proc.Emits P (Conn.call f : Conn ω ε α) :=
  Proc.Emits.step _

theorem emits_server : Proc.Emits P (Conn.server : Conn ω ε Server) := Proc.Emits.step _

theorem emits_update (f : Server → Server) : Proc.Emits P (Conn.update f : Conn ω ε Unit) :=
  Proc.Emits.modify _

theorem emits_setClient (slot : Nat) (c : Client) :
    Proc.Emits P (Conn.setClient slot c : Conn ω ε Unit) :=
  emits_update _

theorem emits_markDeleted (index : Nat) :
    Proc.Emits P (Conn.markDeleted index : Conn ω ε Unit) :=
  emits_update _

theorem emits_pollItem (index : Nat) : Proc.Emits P (Conn.pollItem index : Conn ω ε PollFd) := by
  refine Proc.Emits.of_silent fun m => ?_
  unfold Conn.pollItem
  split <;> rfl

theorem emits_clientItem (slot : Nat) :
    Proc.Emits P (Conn.clientItem slot : Conn ω ε Client) := by
  refine Proc.Emits.of_silent fun m => ?_
  unfold Conn.clientItem
  split <;> rfl

theorem emits_close (sys : Sys ω) {fd : Int} (h : P (.closed fd)) :
    Proc.Emits P (Conn.close sys fd : Conn ω ε Unit) :=
  Proc.Emits.bind (emits_call _) fun _ => Proc.Emits.emit h

theorem emits_invoke {kind : CallbackKind} (f : Callback ω ε) (c : Client)
    (h : ∀ s status out, P (.callback kind s c status out)) :
    Proc.Emits P (Conn.invoke kind f c) := by
  intro m e he
  unfold Conn.invoke at he
  split at he
  · rw [List.mem_singleton.mp he]
    exact h _ _ _
  · rw [List.mem_singleton.mp he]
    exact h _ _ _

end Emits

/-! ## Accepting -/

section Functions

variable (sys : Sys ω) (cb : Callbacks ω ε) {P : ConnEvent ε → Prop}

theorem emits_conHandleConnect (c : Client) (hregistered : ∀ fd, P (.registered fd))
    (hcallback : ∀ s c status out, P (.callback .onconnect s c status out)) :
    Proc.Emits P (conHandleConnect sys cb c) := by
  unfold conHandleConnect
  cases cb.onconnect with
  | none => exact Proc.Emits.pure _
  | some f =>
    refine Proc.Emits.bind (emits_invoke f c fun s => hcallback s c) fun _ => ?_
    refine Proc.Emits.ite ?_ (Proc.Emits.pure _)
    refine Proc.Emits.bind (emits_call _) fun now => ?_
    refine Proc.Emits.bind ?_ fun _ => Proc.Emits.pure _
    refine Proc.Emits.bind emits_server fun s => ?_
    refine Proc.Emits.bind (emits_update _) fun _ => ?_
    exact Proc.Emits.when (Proc.Emits.emit (hregistered _))

/-! ## Serving -/

theorem emits_eventRound (hregistered : ∀ fd, P (.registered fd))
    (hconnect : ∀ s c status out, P (.callback .onconnect s c status out))
    (hmessage : ∀ s c status out, P (.callback .onmessage s c status out)) (index : Nat) :
    Proc.Emits P (eventRound sys cb index) := by
  have hmark : Proc.Emits P (Conn.markDeleted index : Conn ω ε Unit) := emits_markDeleted index
  have hretry : ∀ c, Proc.Emits P (retryConnect sys cb index c) := by
    intro c
    unfold retryConnect
    refine Proc.Emits.ite ?_ (Proc.Emits.pure _)
    refine Proc.Emits.bind (emits_conHandleConnect sys cb c hregistered hconnect) fun _ => ?_
    exact Proc.Emits.bind (emits_setClient _ _) fun _ => Proc.Emits.when hmark
  have hdeliver : Proc.Emits P (deliverMessage sys cb index) := by
    unfold deliverMessage
    cases cb.onmessage with
    | none => exact Proc.Emits.pure _
    | some f =>
      refine Proc.Emits.bind (emits_clientItem _) fun c => ?_
      refine Proc.Emits.bind (emits_setClient _ _) fun _ => ?_
      refine Proc.Emits.bind ?_ fun _ => Proc.Emits.when hmark
      refine Proc.Emits.bind (emits_call _) fun now => ?_
      refine Proc.Emits.bind (emits_clientItem _) fun c => ?_
      refine Proc.Emits.bind (emits_setClient _ _) fun _ => ?_
      refine Proc.Emits.bind (emits_invoke f _ fun s => hmessage s _) fun _ => ?_
      exact Proc.Emits.bind (emits_setClient _ _) fun _ => Proc.Emits.pure _
  unfold eventRound
  refine Proc.Emits.bind (emits_pollItem _) fun pfd => ?_
  refine Proc.Emits.bind (emits_clientItem _) fun c => ?_
  refine Proc.Emits.bind (emits_call _) fun peek => ?_
  refine Proc.Emits.bind ?_ fun _ => Proc.Emits.pure _
  unfold handleEvent
  refine Proc.Emits.ite hmark (Proc.Emits.ite hmark (Proc.Emits.ite hmark ?_))
  refine Proc.Emits.ite (Proc.Emits.bind (hretry c) fun _ => hdeliver) ?_
  exact Proc.Emits.bind (emits_call _) fun _ => emits_setClient _ _

theorem emits_eventLoop (hregistered : ∀ fd, P (.registered fd))
    (hconnect : ∀ s c status out, P (.callback .onconnect s c status out))
    (hmessage : ∀ s c status out, P (.callback .onmessage s c status out)) :
    Proc.Emits P (eventLoop sys cb) :=
  Proc.Emits.bind emits_server fun _ =>
    Proc.Emits.loop (emits_eventRound sys cb hregistered hconnect hmessage) _ _

/-! ## Pinging -/

theorem emits_pingLoop (f : Callback ω ε)
    (hping : ∀ s c status out, P (.callback .onping s c status out)) :
    Proc.Emits P (pingLoop sys f) := by
  refine Proc.Emits.bind emits_server fun _ => Proc.Emits.loop (fun index => ?_) _ _
  refine Proc.Emits.bind (emits_clientItem _) fun c => ?_
  refine Proc.Emits.bind (emits_call _) fun now => ?_
  refine Proc.Emits.bind emits_server fun s => ?_
  refine Proc.Emits.bind (Proc.Emits.when ?_) fun _ => Proc.Emits.pure _
  refine Proc.Emits.bind (emits_invoke f c fun s => hping s c) fun _ => ?_
  refine Proc.Emits.bind (emits_setClient _ _) fun _ => ?_
  exact Proc.Emits.when (emits_markDeleted index)

/-! ## Deleting -/

theorem emits_deleteLoop (hclosed : ∀ fd, P (.closed fd)) (hdeleted : ∀ fd, P (.deleted fd))
    (hnotice : ∀ s c status out, P (.callback .ondisconnect s c status out)) :
    Proc.Emits P (deleteLoop sys cb) := by
  have hnotify : ∀ c, Proc.Emits P (notifyDisconnect cb c) := by
    intro c
    unfold notifyDisconnect
    cases cb.ondisconnect with
    | none => exact Proc.Emits.pure _
    | some f =>
      intro m e he
      rw [List.mem_singleton.mp he]
      exact hnotice _ _ _ _
  refine Proc.Emits.bind emits_server fun _ => Proc.Emits.loop (fun index => ?_) _ _
  refine Proc.Emits.bind (emits_pollItem _) fun pfd => ?_
  refine Proc.Emits.bind (emits_clientItem _) fun c => ?_
  refine Proc.Emits.ite ?_ (Proc.Emits.pure _)
  refine Proc.Emits.bind ?_ fun _ => Proc.Emits.pure _
  refine Proc.Emits.bind (hnotify c) fun _ => ?_
  refine Proc.Emits.bind (emits_close sys (hclosed _)) fun _ => ?_
  exact Proc.Emits.bind (emits_update _) fun _ => Proc.Emits.emit (hdeleted _)

end Functions

/-! ## One connection a call -/

/-- The event is not an accepted connection. -/
def NotAccepted : ConnEvent ε → Prop
  | .accepted _ => False
  | _ => True

theorem not_notAccepted (fd : Int) : ¬ NotAccepted (.accepted fd : ConnEvent ε) := id

/-- No connection was accepted, or one, as the first event. -/
def AcceptsFirst (t : List (ConnEvent ε)) : Prop :=
  (∀ e ∈ t, NotAccepted e) ∨ ∃ fd u, t = .accepted fd :: u ∧ ∀ e ∈ u, NotAccepted e

theorem AcceptsFirst.append {t u : List (ConnEvent ε)} (ht : AcceptsFirst t)
    (hu : ∀ e ∈ u, NotAccepted e) : AcceptsFirst (t ++ u) := by
  rcases ht with ht | ⟨fd, v, rfl, hv⟩
  · exact .inl (List.forall_mem_append.mpr ⟨ht, hu⟩)
  · exact .inr ⟨fd, v ++ u, rfl, List.forall_mem_append.mpr ⟨hv, hu⟩⟩

theorem AcceptsFirst.bind {α β : Type} {m : Conn ω ε α} {f : α → Conn ω ε β}
    (hm : ∀ s, AcceptsFirst (m s).out) (hf : ∀ a, Proc.Emits NotAccepted (f a))
    (s : Machine ω) : AcceptsFirst ((m >>= f) s).out := by
  have hfirst := hm s
  rcases hrun : m s with ⟨r, s', out⟩
  rw [hrun] at hfirst
  cases r with
  | error e =>
    rw [Proc.bind_run_error hrun]
    exact hfirst
  | ok a =>
    rw [Proc.bind_run_ok hrun]
    exact hfirst.append (hf a s')

/-- What goes before without events does not matter. -/
theorem AcceptsFirst.silent_bind {α β : Type} {m : Conn ω ε α} {f : α → Conn ω ε β}
    (hm : ∀ s, (m s).out = []) (hf : ∀ a s, AcceptsFirst (f a s).out) (s : Machine ω) :
    AcceptsFirst ((m >>= f) s).out := by
  have hsilent := hm s
  rcases hrun : m s with ⟨r, s', out⟩
  rw [hrun] at hsilent
  simp only at hsilent
  subst hsilent
  cases r with
  | error e =>
    rw [Proc.bind_run_error hrun]
    exact .inl (by simp)
  | ok a =>
    rw [Proc.bind_run_ok hrun]
    exact hf a s'

section One

variable (sys : Sys ω) (cb : Callbacks ω ε)

theorem acceptClient_acceptsFirst (c : Client) (s : Machine ω) :
    AcceptsFirst (acceptClient sys cb c s).out := by
  have hrest : Proc.Emits NotAccepted (conHandleConnect sys cb c >>= fun p =>
      Proc.when (p.1 = .kill) (Conn.close sys p.2.fd) >>= fun _ => pure (0 : Int)) := by
    refine Proc.Emits.bind (emits_conHandleConnect sys cb c (fun _ => trivial)
      fun _ _ _ _ => trivial) fun p => ?_
    refine Proc.Emits.bind (Proc.Emits.when (emits_close sys trivial)) fun _ => ?_
    exact Proc.Emits.pure _
  unfold acceptClient
  rw [Proc.emit_bind_run]
  exact .inr ⟨c.fd, _, rfl, hrest s⟩

theorem conAcceptConnections_acceptsFirst (s : Machine ω) :
    AcceptsFirst (conAcceptConnections sys cb s).out := by
  have hpure : ∀ (r : Int) (s : Machine ω),
      AcceptsFirst ((pure r : Conn ω ε Int) s).out := fun _ _ => .inl (by simp)
  have hsilent : ∀ m : Machine ω, (Conn.pollItem 0 m : Result _ _ (ConnEvent ε) _).out = [] := by
    intro m
    unfold Conn.pollItem
    split <;> rfl
  unfold conAcceptConnections
  refine AcceptsFirst.silent_bind hsilent (fun listener s => ?_) s
  split
  · exact hpure _ s
  · split
    · exact hpure _ s
    · split
      · refine AcceptsFirst.silent_bind (fun _ => rfl) (fun server s => ?_) s
        refine AcceptsFirst.silent_bind (fun _ => rfl) (fun accepted s => ?_) s
        split
        · exact hpure _ s
        · exact acceptClient_acceptsFirst sys cb _ s
      · exact hpure _ s

/-- A call accepts at most one connection, before anything else. -/
theorem conPollEvents_acceptsFirst (s : Machine ω) :
    AcceptsFirst (conPollEvents sys cb s).out := by
  have hdelete : Proc.Emits NotAccepted (deleteLoop sys cb) :=
    emits_deleteLoop sys cb (fun _ => trivial) (fun _ => trivial) fun _ _ _ _ => trivial
  have hevents : ∀ n s, AcceptsFirst (handleEvents sys cb n s).out := by
    intro n s
    unfold handleEvents
    split
    · refine AcceptsFirst.bind (conAcceptConnections_acceptsFirst sys cb) (fun err => ?_) s
      refine Proc.Emits.ite (Proc.Emits.halt _) ?_
      exact emits_eventLoop sys cb (fun _ => trivial) (fun _ _ _ _ => trivial)
        fun _ _ _ _ => trivial
    · cases cb.onping with
      | none => exact .inl (by simp)
      | some f => exact .inl (emits_pingLoop sys f (fun _ _ _ _ => trivial) s)
  have hpoll : ∀ m : Machine ω, (conHasEvents sys m : Result _ _ (ConnEvent ε) _).out = [] :=
    fun _ => rfl
  unfold conPollEvents
  refine AcceptsFirst.silent_bind hpoll (fun n s => ?_) s
  exact AcceptsFirst.bind (hevents n) (fun _ => hdelete) s

end One

end NoGround
