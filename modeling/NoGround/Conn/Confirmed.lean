/-
  Conn/Confirmed.lean --- messages only for clients that `onconnect` has confirmed.

  A client is confirmed when `onconnect` answered `CONN_KEEP_ALIVE` for its descriptor, and the
  descriptor was not accepted again since.  The code delivers messages to the clients that are
  not in `CONN_RETRY`, and to one that it has just handed to `onconnect` again, whatever the
  answer was.  So the clients that receive messages are confirmed as long as the answers are
  those that `Admissible` lists.

  The invariant is that the record of an unconfirmed client does not say `CONN_KEEP_ALIVE`
  (`Vouched`); it is followed through the rounds of a call and from call to call.
-/
import NoGround.Conn.Retry
import NoGround.Conn.Tenure

set_option autoImplicit false

namespace NoGround

open NoGround.Lib

variable {ω ε : Type}

/-! ## Confirmed clients -/

/-- `onconnect` has answered `CONN_KEEP_ALIVE` for the descriptor since it was accepted. -/
def Confirmed (t : List (ConnEvent ε)) (fd : Int) : Prop :=
  ∃ before s c out after, t = before ++ .callback .onconnect s c (some .keepAlive) out :: after ∧
    c.fd = fd ∧ .accepted fd ∉ after

/-- The event confirms the client with the descriptor `fd`. -/
def Confirms (fd : Int) : ConnEvent ε → Prop
  | .callback .onconnect _ c (some .keepAlive) _ => c.fd = fd
  | _ => False

instance (fd : Int) (e : ConnEvent ε) : Decidable (Confirms fd e) :=
  match e with
  | .callback .onconnect _ c (some .keepAlive) _ => inferInstanceAs (Decidable (c.fd = fd))
  | .callback .onconnect _ _ (some .kill) _ | .callback .onconnect _ _ (some .retry) _
  | .callback .onconnect _ _ none _ | .callback .onmessage _ _ _ _ | .callback .onping _ _ _ _
  | .callback .ondisconnect _ _ _ _ | .accepted _ | .registered _ | .closed _ | .deleted _ =>
      .isFalse id

/-- If the event is a message, its client is confirmed. -/
def OnlyConfirmed (before : List (ConnEvent ε)) : ConnEvent ε → Prop
  | .callback .onmessage _ c _ _ => Confirmed before c.fd
  | _ => True

/-- `accept` returns no registered descriptor; `onconnect`, asked again about an unconfirmed
client, answers `CONN_KEEP_ALIVE`; and `onping` does not answer this about such a client. -/
def Admissible (before : List (ConnEvent ε)) : ConnEvent ε → Prop
  | .accepted fd => fd ∉ registeredFds before
  | .callback .onconnect s c (some status) _ =>
      c ∈ s.clients.items → status = .keepAlive ∨ Confirmed before c.fd
  | .callback .onping _ c (some .keepAlive) _ => Confirmed before c.fd
  | _ => True

section Events

variable {t u : List (ConnEvent ε)} {fd : Int}

theorem confirmed_cons {e : ConnEvent ε} :
    Confirmed (e :: t) fd ↔ Confirmed t fd ∨ Confirms fd e ∧ .accepted fd ∉ t := by
  constructor
  · rintro ⟨before, s, c, out, after, heq, hfd, hafter⟩
    cases before with
    | nil =>
      obtain ⟨rfl, rfl⟩ := List.cons.inj heq
      exact .inr ⟨hfd, hafter⟩
    | cons e' before =>
      obtain ⟨-, rfl⟩ := List.cons.inj heq
      exact .inl ⟨before, s, c, out, after, rfl, hfd, hafter⟩
  · rintro (⟨before, s, c, out, after, rfl, hfd, hafter⟩ | ⟨hconfirms, hafter⟩)
    · exact ⟨e :: before, s, c, out, after, rfl, hfd, hafter⟩
    · unfold Confirms at hconfirms
      split at hconfirms
      · exact ⟨[], _, _, _, t, rfl, hconfirms, hafter⟩
      · exact hconfirms.elim

instance (fd : Int) (t : List (ConnEvent ε)) : Decidable (.accepted fd ∈ t) :=
  decidable_of_iff (fd ∈ t.filterMap fun
    | .accepted fd' => some fd'
    | _ => none) (by
    rw [List.mem_filterMap]
    constructor
    · rintro ⟨e, he, heq⟩
      split at heq
      · rwa [← Option.some.inj heq]
      · cases heq
    · intro he
      exact ⟨_, he, rfl⟩)

instance decidableConfirmed (fd : Int) : (t : List (ConnEvent ε)) → Decidable (Confirmed t fd)
  | [] => .isFalse (by
      rintro ⟨before, s, c, out, after, heq, -⟩
      simp at heq)
  | e :: t =>
      have := decidableConfirmed fd t
      decidable_of_iff _ confirmed_cons.symm

instance (before : List (ConnEvent ε)) (e : ConnEvent ε) : Decidable (OnlyConfirmed before e) :=
  match e with
  | .callback .onmessage _ c _ _ => inferInstanceAs (Decidable (Confirmed before c.fd))
  | .callback .onconnect _ _ _ _ | .callback .onping _ _ _ _ | .callback .ondisconnect _ _ _ _
  | .accepted _ | .registered _ | .closed _ | .deleted _ => .isTrue trivial

instance (before : List (ConnEvent ε)) (e : ConnEvent ε) : Decidable (Admissible before e) :=
  match e with
  | .accepted fd => inferInstanceAs (Decidable (fd ∉ registeredFds before))
  | .callback .onconnect s c (some status) _ =>
      inferInstanceAs (Decidable (c ∈ s.clients.items →
        status = .keepAlive ∨ Confirmed before c.fd))
  | .callback .onping _ c (some .keepAlive) _ => inferInstanceAs (Decidable (Confirmed before c.fd))
  | .callback .onping _ _ (some .kill) _ | .callback .onping _ _ (some .retry) _
  | .callback .onping _ _ none _ | .callback .onconnect _ _ none _ | .callback .onmessage _ _ _ _
  | .callback .ondisconnect _ _ _ _ | .registered _ | .closed _ | .deleted _ => .isTrue trivial

theorem Confirmed.append (h : Confirmed t fd) (hu : .accepted fd ∉ u) : Confirmed (t ++ u) fd := by
  obtain ⟨before, s, c, out, after, rfl, hfd, hafter⟩ := h
  refine ⟨before, s, c, out, after ++ u, by simp, hfd, ?_⟩
  rw [List.mem_append, not_or]
  exact ⟨hafter, hu⟩

theorem confirmed_onconnect (t : List (ConnEvent ε)) (s : Server) (c : Client) (out : List ε)
    {u : List (ConnEvent ε)} (hu : .accepted c.fd ∉ u) :
    Confirmed (t ++ .callback .onconnect s c (some .keepAlive) out :: u) c.fd :=
  ⟨t, s, c, out, u, rfl, rfl, hu⟩

theorem not_accepted_of_notAccepted (hu : ∀ e ∈ u, NotAccepted e) (fd : Int) :
    .accepted fd ∉ u :=
  fun hmem => hu _ hmem

theorem notAccepted_registerEvents (s : Server) (fd : Int) :
    ∀ e ∈ s.registerEvents (ε := ε) fd, NotAccepted e := by
  intro e he
  rw [mem_registerEvents he]
  trivial

/-- The event is not a message. -/
def NotMessage : ConnEvent ε → Prop
  | .callback .onmessage _ _ _ _ => False
  | _ => True

theorem onlyConfirmed_of_notMessage {e : ConnEvent ε} (h : NotMessage e)
    (before : List (ConnEvent ε)) : OnlyConfirmed before e := by
  unfold OnlyConfirmed
  split
  · exact absurd h id
  · trivial

theorem eachEvent_of_notMessage (hu : ∀ e ∈ u, NotMessage e) (t : List (ConnEvent ε)) :
    EachEvent (fun before => OnlyConfirmed (t ++ before)) u := by
  intro before e after heq
  exact onlyConfirmed_of_notMessage (hu e (by simp [heq])) _

theorem notMessage_registerEvents (s : Server) (fd : Int) :
    ∀ e ∈ s.registerEvents (ε := ε) fd, NotMessage e := by
  intro e he
  rw [mem_registerEvents he]
  trivial

end Events

/-! ## The invariant -/

/-- Every message so far went to a confirmed client, and whoever is recorded as
`CONN_KEEP_ALIVE` is confirmed. -/
structure Vouched (cb : Callbacks ω ε) (t : List (ConnEvent ε)) (s : Server) : Prop where
  answers : s.clients.items ≠ [] → cb.onconnect ≠ none
  confirmed : ∀ c ∈ s.clients.items, c.status = .keepAlive → Confirmed t c.fd
  messages : EachEvent OnlyConfirmed t

section Vouched

variable {cb : Callbacks ω ε} {s s' : Server} {t u : List (ConnEvent ε)} {c : Client}

/-- Events that are neither messages nor accepted connections. -/
theorem Vouched.append (h : Vouched cb t s) (haccepted : ∀ e ∈ u, NotAccepted e)
    (hmessage : ∀ e ∈ u, NotMessage e) : Vouched cb (t ++ u) s where
  answers := h.answers
  confirmed := fun c hc hstatus =>
    (h.confirmed c hc hstatus).append (not_accepted_of_notAccepted haccepted c.fd)
  messages := eachEvent_append.mpr ⟨h.messages, eachEvent_of_notMessage hmessage t⟩

/-- A message to a confirmed client. -/
theorem Vouched.message (h : Vouched cb t s) (hc : Confirmed t c.fd) (s₁ : Server)
    (status : Option ConnStatus) (out : List ε) :
    Vouched cb (t ++ [.callback .onmessage s₁ c status out]) s where
  answers := h.answers
  confirmed := fun c' hc' hstatus => (h.confirmed c' hc' hstatus).append (by simp)
  messages := by
    refine eachEvent_append.mpr ⟨h.messages, eachEvent_singleton.mpr ?_⟩
    rw [List.append_nil]
    exact hc

/-- Other tables with no client that is not vouched for. -/
theorem Vouched.of_subset (h : Vouched cb t s) (hsub : s'.clients.items ⊆ s.clients.items) :
    Vouched cb t s' where
  answers := by
    intro hne
    obtain ⟨c, hc⟩ := List.exists_mem_of_ne_nil _ hne
    exact h.answers (List.ne_nil_of_mem (hsub hc))
  confirmed := fun c hc => h.confirmed c (hsub hc)
  messages := h.messages

theorem Vouched.markIf (h : Vouched cb t s) (index : Nat) (gone : Prop) [Decidable gone] :
    Vouched cb t (s.markIf index gone) := by
  refine h.of_subset ?_
  rw [clients_markIf]
  exact List.Subset.refl _

theorem Vouched.setClient (h : Vouched cb t s) (slot : Nat)
    (hc : c.status = .keepAlive → Confirmed t c.fd) : Vouched cb t (s.setClient slot c) where
  answers := by
    intro hne
    refine h.answers fun hnil => hne ?_
    show s.clients.items.set slot c = []
    rw [hnil, List.set_nil]
  confirmed := by
    intro c' hc' hstatus
    rcases List.mem_or_eq_of_mem_set hc' with hold | rfl
    · exact h.confirmed c' hold hstatus
    · exact hc hstatus
  messages := h.messages

theorem Vouched.register (h : Vouched cb t s) (hs : InSync s) (hf : cb.onconnect ≠ none)
    (hc : c.status = .keepAlive → Confirmed t c.fd) : Vouched cb t (s.register c) where
  answers := fun _ => hf
  confirmed := by
    cases hroom : s.hasRoom with
    | true =>
      rw [(hs.register_of_room c hroom).2]
      exact List.forall_mem_append.mpr ⟨h.confirmed, by simpa using hc⟩
    | false =>
      rw [hs.register_of_full c hroom]
      exact h.confirmed
  messages := h.messages

end Vouched

/-! ## The rounds -/

section Rounds

variable {cb : Callbacks ω ε} {s s' : Server} {t u : List (ConnEvent ε)} {k : Nat}
  {pfd : PollFd} {c : Client}

/-- A message to a confirmed client leaves a record that may say anything. -/
theorem Delivered.vouched {index : Nat} {r : Except Halt Unit}
    (h : Delivered cb s index c r s' u) (hv : Vouched cb t s) (hc : Confirmed t c.fd) :
    Vouched cb (t ++ u) s' := by
  cases h with
  | unheard _ =>
    rw [List.append_nil]
    exact hv
  | halted now _ _ =>
    have hwrite := hv.setClient (index - 1) (c := c.stamped now) fun _ => hc
    exact hwrite.message (c := c.stamped now) hc _ _ _
  | @heard f status c' w w' out now _ _ =>
    have hwrite := hv.setClient (index - 1) (c := { c' with fd := c.fd }) fun _ => hc
    have hmessage := hwrite.message (c := c.stamped now) hc
      (s.setClient (index - 1) (c.stamped now)) (some status) out
    exact hmessage.markIf index (status = .kill)

/-- Entering a client: the events that it shows are no message, and accept nothing. -/
theorem Vouched.enter (h : Vouched cb t s) {status : ConnStatus} {out : List ε} (fd : Int) :
    Vouched cb (t ++ .callback .onconnect s c (some status) out :: s.registerEvents fd) s :=
  h.append (List.forall_mem_cons.mpr ⟨trivial, notAccepted_registerEvents s fd⟩)
    (List.forall_mem_cons.mpr ⟨trivial, notMessage_registerEvents s fd⟩)

/-- A registered client is handed to `onconnect` again: it is confirmed then. -/
theorem Connected.vouched {status : ConnStatus} {c₁ : Client}
    (h : Connected cb s c (.ok (status, c₁)) s' u) (hs : InSync s) (hv : Vouched cb t s)
    (hc : c ∈ s.clients.items) (had : EachEvent Admissible (t ++ u)) :
    Vouched cb (t ++ u) s' ∧ Confirmed (t ++ u) c₁.fd := by
  obtain ⟨-, had⟩ := eachEvent_append.mp had
  cases h with
  | absent hf => exact absurd hf (hv.answers (List.ne_nil_of_mem hc))
  | @killed c' f w w' out _ _ =>
    have hanswer := had [] _ _ rfl hc
    rw [List.append_nil] at hanswer
    refine ⟨hv.append (by simp [NotAccepted]) (by simp [NotMessage]), ?_⟩
    exact (hanswer.resolve_left (by simp)).append (by simp)
  | @live c' f _ w w' out now hf _ _ =>
    have hanswer := had [] _ _ rfl hc
    rw [List.append_nil] at hanswer
    have hnone := not_accepted_of_notAccepted (notAccepted_registerEvents (ε := ε) s c.fd) c.fd
    have hconfirmed : Confirmed
        (t ++ .callback .onconnect s c (some status) out :: s.registerEvents c.fd) c.fd := by
      rcases hanswer with rfl | hbefore
      · exact confirmed_onconnect t s c out hnone
      · refine hbefore.append ?_
        simpa using hnone
    refine ⟨(hv.enter c.fd).register hs ?_ fun _ => hconfirmed, hconfirmed⟩
    rw [hf]
    exact Option.some_ne_none f

/-- A round of the event loop, for an entry that is alive. -/
theorem EventHandled.vouched {peek : Int} {r : Except Halt Unit}
    (h : EventHandled cb s (k + 1) pfd c peek r s' u) (hs : InSync s) (hv : Vouched cb t s)
    (hentry : s.entries[k]? = some (pfd, c)) (halive : ¬ Dead (pfd, c))
    (had : EachEvent Admissible (t ++ u)) : Vouched cb (t ++ u) s' := by
  have hc : c ∈ s.clients.items := List.mem_of_getElem? (getElem?_of_entries hentry).2
  cases h with
  | removed _ =>
    rw [List.append_nil]
    exact hv.markIf (k + 1) True
  | idle now _ _ _ =>
    rw [List.append_nil]
    exact hv.setClient k (hv.confirmed c hc)
  | served _ hretry hmessage =>
    -- Alive and not in `CONN_RETRY`, the client is recorded as `CONN_KEEP_ALIVE`.
    have hstatus : c.status = .keepAlive := Live.status ⟨halive, hretry⟩
    exact hmessage.vouched hv (hv.confirmed c hc hstatus)
  | stopped _ _ hconnect =>
    cases hconnect with
    | halted _ _ => exact hv.append (by simp [NotAccepted]) (by simp [NotMessage])
  | @retried status c₁ s₁ _ _ u u' _ _ hconnect hmessage =>
    rw [← List.append_assoc] at had ⊢
    obtain ⟨hv₁, hconfirmed⟩ := hconnect.vouched hs hv hc (eachEvent_append.mp had).1
    have hwrite := hv₁.setClient k fun _ => hconfirmed
    exact hmessage.vouched (hwrite.markIf (k + 1) (status ≠ .kill)) hconfirmed

/-- A round of the ping loop. -/
theorem PingHandled.vouched {f : Callback ω ε} {r : Except Halt Unit}
    (h : PingHandled f s (k + 1) c r s' u) (hv : Vouched cb t s)
    (had : EachEvent Admissible (t ++ u)) : Vouched cb (t ++ u) s' := by
  obtain ⟨-, had⟩ := eachEvent_append.mp had
  cases h with
  | fresh =>
    rw [List.append_nil]
    exact hv
  | stopped _ => exact hv.append (by simp [NotAccepted]) (by simp [NotMessage])
  | @pinged status c' w w' out now _ =>
    have hevents := hv.append (u := [.callback .onping s c (some status) out])
      (by simp [NotAccepted]) (by simp [NotMessage])
    refine (hevents.setClient k ?_).markIf (k + 1) (status = .kill)
    intro hstatus
    obtain rfl : status = .keepAlive := hstatus
    have hconfirmed : Confirmed (t ++ []) c.fd := had [] _ _ rfl
    rw [List.append_nil] at hconfirmed
    exact hconfirmed.append (by simp)

/-- A connection is accepted on a descriptor that is not registered. -/
theorem AcceptHandled.vouched {r : Except Halt Int} (h : AcceptHandled cb s c r s' u)
    (hs : InSync s) (hv : Vouched cb t s) (hperm : (registeredFds t).Perm s.fds)
    (had : EachEvent Admissible (t ++ u)) : Vouched cb (t ++ u) s' := by
  obtain ⟨-, had⟩ := eachEvent_append.mp had
  have hfresh : ∀ {v}, u = .accepted c.fd :: v → ∀ c' ∈ s.clients.items, c'.fd ≠ c.fd := by
    rintro v rfl c' hc' heq
    have hnot : c.fd ∉ registeredFds (t ++ []) := had [] _ _ rfl
    rw [List.append_nil, hperm.mem_iff] at hnot
    exact hnot (heq ▸ List.mem_map_of_mem hc')
  -- The first event: the registered clients have other descriptors.
  have haccepted : ∀ {v}, u = .accepted c.fd :: v → Vouched cb (t ++ [.accepted c.fd]) s := by
    intro v heq
    refine ⟨hv.answers, ?_, ?_⟩
    · intro c' hc' hstatus
      refine (hv.confirmed c' hc' hstatus).append ?_
      simpa using hfresh heq c' hc'
    · exact eachEvent_append.mpr ⟨hv.messages, eachEvent_singleton.mpr trivial⟩
  have hsplit : ∀ v : List (ConnEvent ε), t ++ .accepted c.fd :: v =
      t ++ [.accepted c.fd] ++ v := by
    intro v
    rw [List.append_assoc]
    rfl
  cases h with
  | dropped _ =>
    rw [hsplit]
    exact (haccepted rfl).append (by simp [NotAccepted]) (by simp [NotMessage])
  | halted _ _ =>
    rw [hsplit]
    exact (haccepted rfl).append (by simp [NotAccepted]) (by simp [NotMessage])
  | refused _ _ =>
    rw [hsplit]
    exact (haccepted rfl).append (by simp [NotAccepted]) (by simp [NotMessage])
  | @entered c' f status w w' out now hf _ _ =>
    have hnone := not_accepted_of_notAccepted (notAccepted_registerEvents (ε := ε) s c.fd) c.fd
    rw [hsplit]
    refine ((haccepted rfl).enter c.fd).register hs ?_ ?_
    · rw [hf]
      exact Option.some_ne_none f
    · intro hstatus
      obtain rfl : status = .keepAlive := hstatus
      exact confirmed_onconnect _ s c out hnone

end Rounds

/-! ## The phases of a call -/

/-- A call is in front of entry `k`, and the clients are vouched for. -/
structure Heeding (cb : Callbacks ω ε) (k : Nat) (t : List (ConnEvent ε)) (s : Server) : Prop where
  inSync : InSync s
  ahead : Ahead k s
  vouched : EachEvent Admissible t → Vouched cb t s

/-- The messages of the trace went to confirmed clients, if its answers are admissible. -/
def Spoken (t : List (ConnEvent ε)) : Prop :=
  EachEvent Admissible t → EachEvent OnlyConfirmed t

section Phases

variable (sys : Sys ω) {cb : Callbacks ω ε}

theorem Heeding.spoken {k : Nat} {t : List (ConnEvent ε)} {s : Server} (h : Heeding cb k t s) :
    Spoken t :=
  fun had => (h.vouched had).messages

theorem eventLoop_heeding :
    Proc.Triple (OnServer (Heeding cb 0)) (eventLoop sys cb)
      (fun _ => OnServer fun t s => ∃ k, Heeding cb k t s)
      (fun _ => OnServer fun t _ => Spoken t) := by
  have hround : ∀ {k t s pfd c peek r s' u}, Heeding cb k t s →
      s.entries[k]? = some (pfd, c) → EventHandled cb s (k + 1) pfd c peek r s' u →
      EachEvent Admissible (t ++ u) → Vouched cb (t ++ u) s' := by
    intro k t s pfd c peek r s' u h hentry hhandled had
    exact hhandled.vouched h.inSync (h.vouched (eachEvent_append.mp had).1) hentry
      (h.ahead k (Nat.le_refl k) _ hentry) had
  refine eventLoop_rule sys (fun h => h.inSync) (fun h => h.spoken) ?_ ?_
  · intro k t s pfd c peek s' u h hentry hhandled
    obtain ⟨entry', extra, hwrites⟩ := hhandled.writes h.inSync hentry
    exact ⟨hwrites.inSync, hwrites.ahead h.ahead, hround h hentry hhandled⟩
  · intro k t s pfd c peek e s' u h hentry hhandled had
    exact (hround h hentry hhandled had).messages

theorem pingLoop_heeding (f : Callback ω ε) :
    Proc.Triple (OnServer (Heeding cb 0)) (pingLoop sys f)
      (fun _ => OnServer fun t s => ∃ k, Heeding cb k t s)
      (fun _ => OnServer fun t _ => Spoken t) := by
  have hround : ∀ {k t s c r s' u}, Heeding cb k t s →
      PingHandled f s (k + 1) c r s' u →
      EachEvent Admissible (t ++ u) → Vouched cb (t ++ u) s' := by
    intro k t s c r s' u h hhandled had
    exact hhandled.vouched (h.vouched (eachEvent_append.mp had).1) had
  refine pingLoop_rule sys f (fun h => h.inSync) (fun h => h.spoken) ?_ ?_
  · intro k t s pfd c s' u h hentry hhandled
    obtain ⟨entry', hwrites⟩ := hhandled.writes h.inSync hentry
    exact ⟨hwrites.inSync, hwrites.ahead h.ahead, hround h hhandled⟩
  · intro k t s pfd c e s' u h _ hhandled had
    exact (hround h hhandled had).messages

theorem conHasEvents_heeding :
    Proc.Triple
      (OnServer fun t s => Heeding cb 0 t s ∧ (registeredFds t).Perm s.fds)
      (conHasEvents sys)
      (fun _ => OnServer fun t s => Heeding cb 0 t s ∧ (registeredFds t).Perm s.fds)
      (fun _ => OnServer fun t _ => Spoken t) := by
  rintro t m ⟨h, hperm⟩
  rw [conHasEvents_run]
  have halive := alive_afterPoll sys h.inSync (ahead_zero.mp h.ahead)
  have hheeding : Heeding cb 0 (t ++ []) (afterPoll sys m).server := by
    rw [List.append_nil]
    exact ⟨h.inSync.afterPoll sys, ahead_zero.mpr halive,
      fun had => (h.vouched had).of_subset (List.Subset.refl _)⟩
  refine ⟨hheeding, ?_⟩
  rw [List.append_nil]
  exact hperm

theorem conAcceptConnections_heeding :
    Proc.Triple
      (OnServer fun t s => Heeding cb 0 t s ∧ (registeredFds t).Perm s.fds)
      (conAcceptConnections sys cb) (fun _ => OnServer (Heeding cb 0))
      (fun _ => OnServer fun t _ => Spoken t) := by
  rintro t m ⟨h, hperm⟩
  have hlen := h.inSync.poll_len
  rcases conAcceptConnections_handled sys cb (m := m) (by omega) with
    ⟨r, w, hrun⟩ | ⟨c, -, -, haccept⟩
  · rw [hrun]
    show Heeding cb 0 (t ++ []) m.server
    rw [List.append_nil]
    exact h
  · rcases hrun : conAcceptConnections sys cb m with ⟨r, ⟨s', w⟩, u⟩
    rw [hrun] at haccept
    simp only at haccept
    have hvouched : EachEvent Admissible (t ++ u) → Vouched cb (t ++ u) s' := fun had =>
      haccept.vouched h.inSync (h.vouched (eachEvent_append.mp had).1) hperm had
    cases haccept with
    | dropped _ => exact ⟨h.inSync, h.ahead, hvouched⟩
    | halted _ _ => exact fun had => (hvouched had).messages
    | refused _ _ => exact ⟨h.inSync, h.ahead, hvouched⟩
    | @entered c' _ status _ _ _ now _ _ hstatus =>
      have halive := alive_register h.inSync (ahead_zero.mp h.ahead)
        (c := c.admitted c' status now) hstatus
      exact ⟨h.inSync.register _, ahead_zero.mpr halive, hvouched⟩

theorem handleEvents_heeding (num_events : Int) :
    Proc.Triple
      (OnServer fun t s => Heeding cb 0 t s ∧ (registeredFds t).Perm s.fds)
      (handleEvents sys cb num_events) (fun _ => OnServer fun t s => ∃ k, Heeding cb k t s)
      (fun _ => OnServer fun t _ => Spoken t) := by
  unfold handleEvents
  refine Proc.Triple.ite (fun _ => ?_) fun _ => ?_
  · refine Proc.Triple.bind (conAcceptConnections_heeding sys) fun err => ?_
    refine Proc.Triple.ite (fun _ => ?_) fun _ => eventLoop_heeding sys
    exact Proc.Triple.halt fun _ _ h => h.spoken
  · cases hf : cb.onping with
    | none => exact Proc.Triple.pure fun _ _ h => ⟨0, h.1⟩
    | some f => exact (pingLoop_heeding sys f).strengthen fun _ _ h => h.1

theorem deleteLoop_heeding :
    Proc.Triple (OnServer fun t s => ∃ k, Heeding cb k t s) (deleteLoop sys cb)
      (fun _ => OnServer (Heeding cb 0)) (fun _ => OnServer fun t _ => Spoken t) := by
  rintro t m ⟨k, h⟩
  have hemits := emits_deleteLoop sys cb (P := fun e => NotAccepted e ∧ NotMessage e)
    (fun _ => ⟨trivial, trivial⟩) (fun _ => ⟨trivial, trivial⟩)
    (fun _ _ _ _ => ⟨trivial, trivial⟩) m
  rcases hrun : deleteLoop sys cb m with ⟨r, m', u⟩
  rw [hrun] at hemits
  have hvouched : EachEvent Admissible (t ++ u) → Vouched cb (t ++ u) m.server := fun had =>
    (h.vouched (eachEvent_append.mp had).1).append (fun e he => (hemits e he).1)
      fun e he => (hemits e he).2
  cases r with
  | error e => exact fun had => (hvouched had).messages
  | ok _ =>
    obtain ⟨hs', hkept, -⟩ := deleteLoop_run sys cb h.inSync hrun
    have halive : ∀ entry ∈ m'.server.entries, ¬ Dead entry := by
      intro entry hmem
      simpa using (List.mem_filter.mp (hkept.mem_iff.mp hmem)).2
    have hsub : m'.server.clients.items ⊆ m.server.clients.items := by
      intro c hc
      rw [← hs'.map_snd_entries] at hc
      obtain ⟨entry, hmem, rfl⟩ := List.mem_map.mp hc
      rw [← h.inSync.map_snd_entries]
      exact List.mem_map_of_mem (List.mem_filter.mp (hkept.mem_iff.mp hmem)).1
    exact ⟨hs', ahead_zero.mpr halive, fun had => (hvouched had).of_subset hsub⟩

theorem conPollEvents_heeding :
    Proc.Triple
      (OnServer fun t s => Heeding cb 0 t s ∧ (registeredFds t).Perm s.fds)
      (conPollEvents sys cb) (fun _ => OnServer (Heeding cb 0))
      (fun _ => OnServer fun t _ => Spoken t) := by
  unfold conPollEvents
  refine Proc.Triple.bind (conHasEvents_heeding sys) fun num_events => ?_
  exact Proc.Triple.bind (handleEvents_heeding sys num_events) fun _ => deleteLoop_heeding sys

/-- **Messages go to confirmed clients only**, in every run whose answers are admissible. -/
theorem serve_onlyConfirmed {m : Machine ω} (hs : InSync m.server)
    (hempty : m.server.clients.items = []) (n : Nat)
    (had : EachEvent Admissible (serve sys cb n m).out) :
    EachEvent OnlyConfirmed (serve sys cb n m).out := by
  -- Each call is a run of steps as well, which tells who is registered.
  have hcalls : ∀ n, Proc.Triple
      (fun t m' => OnServer (Heeding cb 0) t m' ∧ Running cb m.server t m') (serve sys cb n)
      (fun _ t m' => OnServer (Heeding cb 0) t m' ∧ Running cb m.server t m')
      (fun e t m' => OnServer (fun t _ => Spoken t) t m' ∧ Stopped cb m.server e t m') := by
    intro n
    unfold serve
    induction n with
    | zero => exact Proc.Triple.pure fun _ _ h => h
    | succ n ih =>
      refine Proc.Triple.bind (Proc.Triple.strengthen
        ((conPollEvents_heeding sys).and (conPollEvents_steps sys cb hs)) ?_) fun _ => ih
      rintro t m' ⟨hheeding, hrun⟩
      have hperm := (Steps.tenure hrun hs hempty).2.1
      exact ⟨⟨hheeding, hperm⟩, hrun⟩
  have hnone : m.server.entries = [] := by
    unfold Server.entries
    rw [hempty, List.zip_nil_right]
  have hstart : Heeding cb 0 ([] : List (ConnEvent ε)) m.server := by
    refine ⟨hs, ahead_zero.mpr ?_, fun _ => ⟨fun hne => absurd hempty hne, ?_, eachEvent_nil⟩⟩
    · rw [hnone]
      exact fun _ h => absurd h List.not_mem_nil
    · rw [hempty]
      exact fun _ h => absurd h List.not_mem_nil
  have hpost := hcalls n [] m ⟨hstart, .refl m.server⟩
  unfold Proc.Post at hpost
  split at hpost
  · exact hpost.1.spoken had
  · exact hpost.1 had

end Phases

/-! ## Retries -/

/-- **What a retry comes to.**  In each call: the tables are settled before and after it; and a
client in `CONN_RETRY` that `onconnect` killed is removed if `onmessage` kills it next, and
only then, unless a callback writes `CONN_KILL` into the record.  In each run: messages go to
confirmed clients only, if the answers are admissible. -/
theorem retry_semantics (sys : Sys ω) (cb : Callbacks ω ε) :
    (∀ m m' t, Quiescent m.server →
      (0 ≤ acceptedFd sys m → acceptedFd sys m ∉ m.server.fds) →
      conPollEvents sys cb m = ⟨.ok (), m', t⟩ →
      Quiescent m'.server ∧ EachSince (fun e after => ∀ fd, RetryKilled e fd →
        (NextKills fd after → Removed m'.server fd after) ∧
        (cb.SparesStatus → Removed m'.server fd after → NextKills fd after)) t) ∧
    ∀ m n, InSync m.server → m.server.clients.items = [] →
      EachEvent Admissible (serve sys cb n m).out →
      EachEvent OnlyConfirmed (serve sys cb n m).out :=
  ⟨fun _ _ _ h hfresh hrun => conPollEvents_retries sys h hfresh hrun,
    fun _ n hs hempty had => serve_onlyConfirmed sys hs hempty n had⟩

/-- An `onconnect` that asks for a retry, and answers `again` to it. -/
def askAgain (again message : ConnStatus) : Callbacks Script Unit where
  onconnect := some fun _ client => pure (if client.status = .retry then again else .retry, client)
  ondisconnect := none
  onmessage := some fun _ client => pure (message, client)
  onping := none

/-- A server whose only client waits for a retry, and is readable. -/
def oneRetrying : Machine Script where
  server :=
    { Server.blank with
      fd := 3
      poll := ⟨[⟨3, POLLIN, 0#16⟩, ⟨4, POLLIN, 0#16⟩], 3, by decide⟩
      clients := ⟨[{ Client.blank with fd := 4, status := .retry }], 2, by decide⟩ }
  world := { polls := [(1, [0#16, POLLIN])], recvs := [some [1]] }

/-- A client comes, and is readable in the next call. -/
def comesAndSends : Script where
  polls := [(1, [POLLIN]), (1, [0#16, POLLIN])]
  accepts := [4]
  recvs := [some [1], some [1]]

/-- Killed by both callbacks, the client is removed; confirmed by the second `onconnect`, it
gets its message. -/
theorem retry_semantics_killed_twice :
    let r := conPollEvents Script.sys (askAgain .kill .kill) oneRetrying
    Removed r.state.server 4 r.out.tail ∧
      EachEvent OnlyConfirmed
        (serve Script.sys (askAgain .keepAlive .keepAlive) 2 (startServer comesAndSends)).out := by
  have hreturns : (conPollEvents Script.sys (askAgain .kill .kill) oneRetrying).outcome =
      .ok () := by decide +kernel
  have halive : Quiescent oneRetrying.server := by
    refine ⟨⟨by decide, by decide⟩, by decide, ?_⟩
    simp [oneRetrying, Server.entries, Dead, POLLIN]
  obtain ⟨-, hcalls⟩ := (retry_semantics Script.sys (askAgain .kill .kill)).1 _ _ _ halive
    (by decide) (Result.eq_ok hreturns)
  refine ⟨?_, (retry_semantics Script.sys (askAgain .keepAlive .keepAlive)).2 _ 2
    ⟨by decide, by decide⟩ rfl (by decide +kernel)⟩
  have hkilled : ∀ e ∈ (conPollEvents Script.sys (askAgain .kill .kill) oneRetrying).out.head?,
      RetryKilled e 4 := by decide +kernel
  have hnext : NextKills 4
      (conPollEvents Script.sys (askAgain .kill .kill) oneRetrying).out.tail := by decide +kernel
  generalize (conPollEvents Script.sys (askAgain .kill .kill) oneRetrying).out = out at *
  cases out with
  | nil => exact absurd hnext not_nextKills_nil
  | cons e after => exact (hcalls [] e after rfl 4 (hkilled e rfl)).1 hnext

/-- The client is killed by the second `onconnect`.  Its message is delivered all the same, and
it stays registered, with its connection open. -/
theorem killed_client_is_served :
    let first := serve Script.sys (askAgain .kill .keepAlive) 1 (startServer comesAndSends)
    let second := conPollEvents Script.sys (askAgain .kill .keepAlive) first.state
    first.outcome = .ok () ∧ second.outcome = .ok () ∧
      (∃ c ∈ first.state.server.clients.items, c.fd = 4 ∧ c.status = .retry) ∧
      (∃ e ∈ second.out, RetryKilled e 4) ∧
      4 ∈ second.state.server.fds ∧ 4 ∉ closedFds second.out ∧
      ¬ EachEvent OnlyConfirmed (first.out ++ second.out) := by
  decide +kernel

end NoGround
