/-
  Conn/Retry.lean --- what becomes of a client in `CONN_RETRY` that `onconnect` kills.

  A readable client in `CONN_RETRY` is handed to `onconnect` once more, and the answer is
  used as a truth value: the entry is marked for every answer but `CONN_KILL`, which is zero.
  Then the message is delivered, whatever the answer was.  So a client that was killed is
  removed only if `onmessage` kills it too.

  `Retrying` follows one call of `conPollEvents` up to the deletion pass.  A retry may enter
  a client a second time, but the entry it had is marked then: of two entries for one
  descriptor the first is dead.  The deletion pass removes the dead entries, so the
  descriptors are distinct again when the call returns.
-/
import NoGround.Conn.Writes

set_option autoImplicit false

namespace NoGround

open NoGround.Lib

variable {ω ε : Type}

/-! ## The calls in question -/

/-- `onconnect` killed a registered client. -/
def RetryKilled (e : ConnEvent ε) (fd : Int) : Prop :=
  match e with
  | .callback .onconnect s c (some .kill) _ => c ∈ s.clients.items ∧ c.fd = fd
  | _ => False

instance (e : ConnEvent ε) (fd : Int) : Decidable (RetryKilled e fd) :=
  match e with
  | .callback .onconnect s c (some .kill) _ =>
      inferInstanceAs (Decidable (c ∈ s.clients.items ∧ c.fd = fd))
  | .callback .onconnect _ _ (some .keepAlive) _ | .callback .onconnect _ _ (some .retry) _
  | .callback .onconnect _ _ none _ | .callback .onmessage _ _ _ _ | .callback .onping _ _ _ _
  | .callback .ondisconnect _ _ _ _ | .accepted _ | .registered _ | .closed _ | .deleted _ =>
      .isFalse id

/-- The client is not registered any more, and its connection was closed. -/
def Removed (s : Server) (fd : Int) (after : List (ConnEvent ε)) : Prop :=
  fd ∉ s.fds ∧ .closed fd ∈ after

theorem RetryKilled.event {e : ConnEvent ε} {fd : Int} (h : RetryKilled e fd) :
    ∃ s c out, e = .callback .onconnect s c (some .kill) out ∧ c ∈ s.clients.items ∧
      c.fd = fd := by
  unfold RetryKilled at h
  split at h
  · exact ⟨_, _, _, rfl, h⟩
  · exact h.elim

theorem not_retryKilled_registerEvents {s : Server} {fd : Int} {e : ConnEvent ε}
    (he : e ∈ s.registerEvents fd) (fd' : Int) : ¬ RetryKilled e fd' := by
  rw [mem_registerEvents he]
  exact id

/-! ## What the loops keep -/

/-- Every entry of the descriptor is dead. -/
def AllDead (s : Server) (fd : Int) : Prop := ∀ x ∈ s.entries, x.2.fd = fd → Dead x

theorem allDead_congr {s s' : Server} {fd : Int}
    (h : ∀ x : PollFd × Client, x.2.fd = fd → (x ∈ s'.entries ↔ x ∈ s.entries)) :
    AllDead s' fd ↔ AllDead s fd := by
  refine forall_congr' fun x => ?_
  constructor
  · intro hdead hx hfd
    exact hdead ((h x hfd).mpr hx) hfd
  · intro hdead hx hfd
    exact hdead ((h x hfd).mp hx) hfd

/-- `onconnect` killed the client, in a round before round `k`.  Its entries are dead if
`onmessage` killed it next; and otherwise one is alive, unless a callback wrote the record. -/
structure Dismissed (cb : Callbacks ω ε) (k : Nat) (s : Server) (fd : Int)
    (after : List (ConnEvent ε)) : Prop where
  there : ∃ x ∈ s.entries, x.2.fd = fd
  passed : ∀ j ≥ k, ∀ x, s.entries[j]? = some x → x.2.fd ≠ fd
  dead : NextKills fd after → AllDead s fd
  spared : cb.SparesStatus → AllDead s fd → NextKills fd after

/-- A loop is in front of entry `k`. -/
structure Retrying (cb : Callbacks ω ε) (k : Nat) (t : List (ConnEvent ε)) (s : Server) :
    Prop where
  inSync : InSync s
  ahead : Ahead k s
  superseded : ∀ (i j : Nat) (x y : PollFd × Client), i < j → s.entries[i]? = some x →
    s.entries[j]? = some y → x.2.fd = y.2.fd → Dead x
  dismissed : EachSince (fun e after => ∀ fd, RetryKilled e fd → Dismissed cb k s fd after) t

section Loops

variable {cb : Callbacks ω ε} {s s' : Server} {k : Nat} {entry entry' : PollFd × Client}
  {extra : Option (PollFd × Client)} {t u : List (ConnEvent ε)} {fd : Int}

/-- The loop starts on quiescent tables. -/
theorem Quiescent.retrying (h : Quiescent s) (ht : ∀ e ∈ t, ∀ fd, ¬ RetryKilled e fd) :
    Retrying cb 0 t s where
  inSync := h.inSync
  ahead := ahead_zero.mpr h.alive
  superseded := by
    intro i j x y hij hx hy hfd
    have hi := h.inSync.getElem?_fds hx
    have hj := h.inSync.getElem?_fds hy
    obtain ⟨hlt, -⟩ := List.getElem?_eq_some_iff.mp hi
    have hsame := (List.getElem?_inj hlt h.nodup).mp (hi.trans ((congrArg some hfd).trans hj.symm))
    omega
  dismissed := by
    intro before e after heq fd hkilled
    exact absurd hkilled (ht e (by simp [heq]) fd)

/-- Of the entries of its own descriptor, a round that enters nobody leaves alive at most its
own. -/
theorem Retrying.allDead (h : Retrying cb k t s) (hentry : s.entries[k]? = some entry)
    (hwrites : RoundWrites k entry s s' entry' none) :
    AllDead s' entry.2.fd ↔ Dead entry' := by
  obtain ⟨hlt, -⟩ := List.getElem?_eq_some_iff.mp hentry
  constructor
  · intro hall
    refine hall entry' ?_ hwrites.fd
    rw [hwrites.entries]
    exact List.mem_append_left _ (List.mem_set hlt entry')
  · intro hdead x hmem hfd
    obtain ⟨j, hj⟩ := List.getElem?_of_mem hmem
    rcases hwrites.cases hj with ⟨-, rfl⟩ | ⟨hne, hold⟩ | ⟨-, hnew⟩
    · exact hdead
    · rcases Nat.lt_or_gt_of_ne hne with hlt | hgt
      · exact h.superseded j k x entry hlt hold hentry hfd
      · exact absurd (h.superseded k j entry x hgt hentry hold hfd.symm)
          (h.ahead k (Nat.le_refl k) entry hentry)
    · cases hnew

/-- A dismissed client stays dismissed in the rounds of the others. -/
theorem Dismissed.round (h : Dismissed cb k s fd u) (hentry : s.entries[k]? = some entry)
    (hwrites : RoundWrites k entry s s' entry' extra) {v : List (ConnEvent ε)}
    (hown : NextKills fd v → fd = entry.2.fd) : Dismissed cb (k + 1) s' fd (u ++ v) := by
  have hne : entry.2.fd ≠ fd := h.passed k (Nat.le_refl k) entry hentry
  have hafter : NextKills fd (u ++ v) ↔ NextKills fd u :=
    nextKills_append fun hnext => hne (hown hnext).symm
  have hmem : ∀ x : PollFd × Client, x.2.fd = fd → (x ∈ s'.entries ↔ x ∈ s.entries) :=
    fun x hfd => hwrites.mem_iff hentry (by rw [hfd]; exact hne.symm)
  have hall : AllDead s' fd ↔ AllDead s fd := allDead_congr hmem
  refine ⟨?_, ?_, ?_, ?_⟩
  · obtain ⟨x, hx, hfd⟩ := h.there
    exact ⟨x, (hmem x hfd).mpr hx, hfd⟩
  · intro j hj x hx
    rcases hwrites.cases hx with ⟨rfl, -⟩ | ⟨-, hold⟩ | ⟨-, hnew⟩
    · omega
    · exact h.passed j (by omega) x hold
    · rw [(hwrites.entered x hnew).1]
      exact hne
  · rw [hafter, hall]
    exact h.dead
  · rw [hafter, hall]
    exact h.spared

/-- What a round says of the calls it makes. -/
def DismissedHere (cb : Callbacks ω ε) (entry entry' : PollFd × Client)
    (extra : Option (PollFd × Client)) (e : ConnEvent ε) (after : List (ConnEvent ε)) : Prop :=
  ∀ fd, RetryKilled e fd → fd = entry.2.fd ∧ extra = none ∧
    (NextKills fd after → Dead entry') ∧ (cb.SparesStatus → Dead entry' → NextKills fd after)

/-- A round of a loop. -/
theorem Retrying.round (h : Retrying cb k t s) (hentry : s.entries[k]? = some entry)
    (hwrites : RoundWrites k entry s s' entry' extra)
    (hown : ∀ fd, NextKills fd u → fd = entry.2.fd)
    (hhere : EachSince (DismissedHere cb entry entry' extra) u) :
    Retrying cb (k + 1) (t ++ u) s' := by
  obtain ⟨hlt, -⟩ := List.getElem?_eq_some_iff.mp hentry
  have halive := h.ahead k (Nat.le_refl k) entry hentry
  refine ⟨hwrites.inSync, hwrites.ahead h.ahead, ?_, eachSince_append.mpr ⟨?_, ?_⟩⟩
  · intro i j x y hij hx hy hfd
    rcases hwrites.cases hx with ⟨rfl, rfl⟩ | ⟨hik, hi⟩ | ⟨rfl, -⟩
    · -- The entry of this round: there is no other one behind it but a new one.
      rcases hwrites.cases hy with ⟨rfl, -⟩ | ⟨-, hj⟩ | ⟨-, hnew⟩
      · omega
      · exact absurd (h.superseded i j entry y hij hentry hj (hwrites.fd.symm.trans hfd)) halive
      · exact hwrites.again (Option.ne_none_iff_exists'.mpr ⟨y, hnew⟩)
    · rcases hwrites.cases hy with ⟨rfl, rfl⟩ | ⟨-, hj⟩ | ⟨-, hnew⟩
      · exact h.superseded i j x entry hij hi hentry (hfd.trans hwrites.fd)
      · exact h.superseded i j x y hij hi hj hfd
      · have hsame : x.2.fd = entry.2.fd := hfd.trans (hwrites.entered y hnew).1
        rcases Nat.lt_or_gt_of_ne hik with hbefore | hbehind
        · exact h.superseded i k x entry hbefore hi hentry hsame
        · exact absurd (h.superseded k i entry x hbehind hentry hi hsame.symm) halive
    · have hold := (hwrites.getElem?_new hij.le hy).1
      omega
  · refine h.dismissed.imp fun e _ after hdismissed fd hkilled => ?_
    exact (hdismissed fd hkilled).round hentry hwrites (hown fd)
  · refine hhere.imp fun e _ after hhere fd hkilled => ?_
    obtain ⟨rfl, rfl, hdead, hspared⟩ := hhere fd hkilled
    refine ⟨⟨entry', ?_, hwrites.fd⟩, ?_, ?_, ?_⟩
    · rw [hwrites.entries]
      exact List.mem_append_left _ (List.mem_set hlt entry')
    · intro j hj x hx
      rcases hwrites.cases hx with ⟨rfl, -⟩ | ⟨-, hold⟩ | ⟨-, hnew⟩
      · omega
      · intro hfd
        exact halive (h.superseded k j entry x (by omega) hentry hold hfd.symm)
      · cases hnew
    · rw [h.allDead hentry hwrites]
      exact hdead
    · rw [h.allDead hentry hwrites]
      exact hspared

/-- A round in which `onconnect` kills nobody. -/
theorem Retrying.quietly (h : Retrying cb k t s) (hentry : s.entries[k]? = some entry)
    (hwrites : RoundWrites k entry s s' entry' extra)
    (hown : ∀ fd, NextKills fd u → fd = entry.2.fd)
    (hnone : ∀ e ∈ u, ∀ fd, ¬ RetryKilled e fd) : Retrying cb (k + 1) (t ++ u) s' := by
  refine h.round hentry hwrites hown ?_
  intro before e after heq fd hkilled
  exact absurd hkilled (hnone e (by simp [heq]) fd)

end Loops

section Rounds

variable {cb : Callbacks ω ε} {s s' : Server} {k : Nat} {pfd : PollFd} {c : Client}
  {t u : List (ConnEvent ε)}

theorem MessageWrites.notKilled {entry entry' : PollFd × Client}
    (h : MessageWrites cb k entry s s' u entry') {e : ConnEvent ε} (he : e ∈ u) (fd : Int) :
    ¬ RetryKilled e fd := by
  obtain ⟨_, _, _, _, rfl⟩ := h.messages e he
  exact id

/-- A client was handed to `onconnect` again, and the message followed. -/
theorem Retrying.retried (ht : Retrying cb k t s) (hentry : s.entries[k]? = some (pfd, c))
    (hretry : c.status = .retry) {status : ConnStatus} {c₁ : Client} {s₁ : Server}
    (hconnect : Connected cb s c (.ok (status, c₁)) s₁ u) {u' : List (ConnEvent ε)}
    (hmessage : Delivered cb ((s₁.setClient k c₁).markIf (k + 1) (status ≠ .kill)) (k + 1) c₁
      (.ok ()) s' u') : Retrying cb (k + 1) (t ++ (u ++ u')) s' := by
  obtain ⟨entry', extra, hwrites, hnone, hmessage⟩ :=
    retried_writes ht.inSync hentry hconnect hmessage
  have hkind : ∀ {status : Option ConnStatus} {out : List ε} {v : List (ConnEvent ε)} (fd : Int),
      NextKills fd (.callback .onconnect s c status out :: v) → fd = c.fd := by
    intro status out v fd hnext
    obtain ⟨hkind, -⟩ := nextKills_cons.mp hnext
    cases hkind
  cases hconnect with
  | absent _ =>
    exact ht.quietly hentry hwrites hmessage.own fun e he fd => hmessage.notKilled he fd
  | @killed c' f w w' out hf hrun =>
    obtain rfl := hnone rfl
    refine ht.round hentry hwrites hkind (eachSince_cons.mpr ⟨?_, ?_⟩)
    · rintro fd ⟨-, rfl⟩
      refine ⟨rfl, rfl, hmessage.dead, fun hspares => hmessage.spared hspares ?_⟩
      have halive := ht.ahead k (Nat.le_refl k) _ hentry
      have hspared : c'.status = .kill → c.status = .kill := hspares .onconnect (.inl rfl) hf hrun
      intro hdead
      rcases dead_markIf.mp hdead with hmarked | hevents | hkill
      · exact hmarked rfl
      · exact halive (.inl hevents)
      · have hboth := hspared hkill
        rw [hretry] at hboth
        cases hboth
    · intro before e after heq fd hkilled
      have hmem : e ∈ u' := by
        rw [show u' = before ++ e :: after from heq]
        exact List.mem_append_right _ List.mem_cons_self
      exact absurd hkilled (hmessage.notKilled hmem fd)
  | live now _ _ hstatus =>
    refine ht.quietly hentry hwrites hkind ?_
    intro e hmem fd hkilled
    rcases List.mem_append.mp hmem with hmem | hmem
    · rcases List.mem_cons.mp hmem with rfl | hmem
      · obtain ⟨_, _, _, heq, -⟩ := hkilled.event
        cases heq
        exact hstatus rfl
      · exact not_retryKilled_registerEvents hmem fd hkilled
    · exact hmessage.notKilled hmem fd hkilled

/-- A round without an event. -/
theorem Retrying.silent {entry entry' : PollFd × Client} {extra : Option (PollFd × Client)}
    (h : Retrying cb k t s) (hentry : s.entries[k]? = some entry)
    (hwrites : RoundWrites k entry s s' entry' extra) : Retrying cb (k + 1) (t ++ []) s' :=
  h.quietly hentry hwrites (fun _ hnext => absurd hnext not_nextKills_nil)
    fun _ hmem => absurd hmem List.not_mem_nil

/-- A round of the event loop. -/
theorem EventHandled.retrying {peek : Int}
    (h : EventHandled cb s (k + 1) pfd c peek (.ok ()) s' u) (ht : Retrying cb k t s)
    (hentry : s.entries[k]? = some (pfd, c)) : Retrying cb (k + 1) (t ++ u) s' := by
  obtain ⟨entry', extra, hwrites⟩ := h.writes ht.inSync hentry
  cases h with
  | removed _ => exact ht.silent hentry hwrites
  | idle now _ _ _ => exact ht.silent hentry hwrites
  | served _ _ hmessage =>
    obtain ⟨entry', hmessage⟩ := hmessage.messageWrites ht.inSync hentry
    exact ht.quietly hentry hmessage.writes hmessage.own
      fun e he fd => hmessage.notKilled he fd
  | retried _ hretry hconnect hmessage => exact ht.retried hentry hretry hconnect hmessage

/-- A round of the ping loop. -/
theorem PingHandled.retrying {f : Callback ω ε} (h : PingHandled f s (k + 1) c (.ok ()) s' u)
    (ht : Retrying cb k t s) (hentry : s.entries[k]? = some (pfd, c)) :
    Retrying cb (k + 1) (t ++ u) s' := by
  obtain ⟨entry', hwrites⟩ := h.writes ht.inSync hentry
  cases h with
  | fresh => exact ht.silent hentry hwrites
  | pinged now hrun =>
    refine ht.quietly hentry hwrites ?_ ?_
    · intro fd hnext
      obtain ⟨hkind, -, -⟩ := nextKills_cons.mp hnext
      cases hkind
    · intro e he fd
      rw [List.mem_singleton.mp he]
      exact id

end Rounds

/-! ## The phases of a call -/

section Phases

variable (sys : Sys ω) {cb : Callbacks ω ε}

theorem eventLoop_retrying :
    Proc.Triple (OnServer (Retrying cb 0)) (eventLoop sys cb)
      (fun _ => OnServer fun t s => ∃ k, Retrying cb k t s) (fun _ => OnServer fun _ _ => True) :=
  eventLoop_rule sys (fun ht => ht.inSync) (fun _ => trivial)
    (fun ht hentry hhandled => hhandled.retrying ht hentry) fun _ _ _ => trivial

theorem pingLoop_retrying (f : Callback ω ε) :
    Proc.Triple (OnServer (Retrying cb 0)) (pingLoop sys f)
      (fun _ => OnServer fun t s => ∃ k, Retrying cb k t s) (fun _ => OnServer fun _ _ => True) :=
  pingLoop_rule sys f (fun ht => ht.inSync) (fun _ => trivial)
    (fun ht hentry hhandled => hhandled.retrying ht hentry) fun _ _ _ => trivial

/-- The tables are quiescent, and `onconnect` has killed no registered client. -/
structure Accepting (t : List (ConnEvent ε)) (s : Server) : Prop where
  quiescent : Quiescent s
  notKilled : ∀ e ∈ t, ∀ fd, ¬ RetryKilled e fd

/-- A new connection is accepted. -/
theorem AcceptHandled.accepting {s s' : Server} {c : Client} {r : Except Halt Int}
    {u : List (ConnEvent ε)} (haccept : AcceptHandled cb s c r s' u) (h : Quiescent s)
    (hfd : c.fd ∉ s.fds) : Accepting u s' := by
  have hnew : ∀ status out fd, ¬ RetryKilled (ε := ε) (.callback .onconnect s c status out) fd := by
    intro status out fd hkilled
    obtain ⟨_, _, _, heq, hmem, -⟩ := hkilled.event
    cases heq
    exact hfd (List.mem_map_of_mem hmem)
  have haccepted : ∀ fd', ¬ RetryKilled (ε := ε) (.accepted c.fd) fd' := fun _ => id
  have hclosed : ∀ fd', ¬ RetryKilled (ε := ε) (.closed c.fd) fd' := fun _ => id
  cases haccept with
  | dropped _ => exact ⟨h, by simpa using ⟨haccepted, hclosed⟩⟩
  | halted _ _ => exact ⟨h, by simpa using ⟨haccepted, hnew _ _⟩⟩
  | refused _ _ => exact ⟨h, by simpa using ⟨haccepted, hnew _ _, hclosed⟩⟩
  | @entered c' f status w w' out now hf hrun hstatus =>
    refine ⟨h.register (c := c.admitted c' status now) hfd hstatus, ?_⟩
    refine List.forall_mem_cons.mpr ⟨haccepted, List.forall_mem_cons.mpr ⟨hnew _ _, ?_⟩⟩
    exact fun e he => not_retryKilled_registerEvents he

theorem conAcceptConnections_accepting {m : Machine ω} (h : Quiescent m.server)
    (hfresh : 0 ≤ acceptedFd sys m → acceptedFd sys m ∉ m.server.fds) :
    Accepting (conAcceptConnections sys cb (afterPoll sys m)).out
      (conAcceptConnections sys cb (afterPoll sys m)).state.server := by
  have hquiescent := h.afterPoll sys
  have hlen := hquiescent.inSync.poll_len
  rcases conAcceptConnections_handled sys cb (m := afterPoll sys m) (by omega) with
    ⟨r, w, hrun⟩ | ⟨c, hfd, hpos, haccept⟩
  · rw [hrun]
    exact ⟨hquiescent, fun _ hmem => absurd hmem List.not_mem_nil⟩
  · refine haccept.accepting hquiescent ?_
    rw [hfd] at hpos ⊢
    exact hfresh hpos

/-- A call up to the deletion pass. -/
theorem handleEvents_retrying {m m' : Machine ω} {num_events : Int} {t : List (ConnEvent ε)}
    (h : Quiescent m.server)
    (hfresh : 0 ≤ acceptedFd sys m → acceptedFd sys m ∉ m.server.fds)
    (hrun : handleEvents sys cb num_events (afterPoll sys m) = ⟨.ok (), m', t⟩) :
    ∃ k, Retrying cb k t m'.server := by
  have hquiescent := h.afterPoll sys
  unfold handleEvents at hrun
  split at hrun
  · rcases hr : conAcceptConnections sys cb (afterPoll sys m) with ⟨r, m₁, t₁⟩
    cases r with
    | error e =>
      rw [Proc.bind_run_error hr] at hrun
      cases hrun
    | ok err =>
      have haccepting : Accepting t₁ m₁.server := by
        have haccept : Accepting (conAcceptConnections sys cb (afterPoll sys m)).out _ :=
          conAcceptConnections_accepting sys h hfresh
        rwa [hr] at haccept
      rw [Proc.bind_run_ok hr] at hrun
      split at hrun
      · cases hrun
      · rcases hloop : eventLoop sys cb m₁ with ⟨r, m₂, t₂⟩
        rw [hloop] at hrun
        cases hrun
        exact (eventLoop_retrying sys).ok
          (haccepting.quiescent.retrying haccepting.notKilled) hloop
  · have hstart : Retrying cb 0 ([] : List (ConnEvent ε)) (afterPoll sys m).server :=
      hquiescent.retrying fun _ hmem => absurd hmem List.not_mem_nil
    cases hf : cb.onping with
    | none =>
      rw [hf] at hrun
      cases hrun
      exact ⟨0, hstart⟩
    | some f =>
      rw [hf] at hrun
      exact (pingLoop_retrying sys f).ok hstart hrun

/-! ## The call as a whole -/

/-- The descriptors of the entries that are alive are distinct. -/
theorem Retrying.nodup {k : Nat} {s : Server} {t : List (ConnEvent ε)} (h : Retrying cb k t s) :
    ((s.entries.filter (¬ Dead ·)).map (·.2.fd)).Nodup := by
  have hpairs : s.entries.Pairwise fun x y => x.2.fd = y.2.fd → Dead x := by
    refine List.pairwise_iff_getElem.mpr fun i j hi hj hij hfd => ?_
    exact h.superseded i j _ _ hij (List.getElem?_eq_getElem hi) (List.getElem?_eq_getElem hj) hfd
  refine List.pairwise_map.mpr (List.Pairwise.imp_of_mem ?_ (hpairs.filter _))
  intro x y hx _ hdead hfd
  have halive := (List.mem_filter.mp hx).2
  simp only [decide_not, Bool.not_eq_eq_eq_not, Bool.not_true, decide_eq_false_iff_not] at halive
  exact halive (hdead hfd)

/-- The descriptor is not registered after the deletion pass exactly if its entries were dead. -/
theorem mem_fds_of_perm {s s' : Server} (hs' : InSync s')
    (hkept : s'.entries.Perm (s.entries.filter (¬ Dead ·))) {fd : Int} :
    fd ∉ s'.fds ↔ AllDead s fd := by
  have hmem : fd ∈ s'.fds ↔ ∃ x ∈ s.entries, ¬ Dead x ∧ x.2.fd = fd := by
    rw [hs'.fds_eq_entries, (hkept.map _).mem_iff, List.mem_map]
    simp [and_assoc]
  rw [hmem, not_exists]
  refine forall_congr' fun x => ?_
  rw [not_and, not_and]
  exact forall_congr' fun _ => ⟨fun h hfd => by_contra fun hdead => h hdead hfd,
    fun h hdead hfd => hdead (h hfd)⟩

/-- The deletion pass removes the descriptors whose entries are dead. -/
theorem removed_iff {m m' : Machine ω} {t : List (ConnEvent ε)} (hs : InSync m.server)
    (hrun : deleteLoop sys cb m = ⟨.ok (), m', t⟩) {fd : Int}
    (hthere : ∃ x ∈ m.server.entries, x.2.fd = fd) (after : List (ConnEvent ε)) :
    Removed m'.server fd (after ++ t) ↔ AllDead m.server fd := by
  obtain ⟨hs', hkept, removed, hremoved, hclosed, -⟩ := deleteLoop_run sys cb hs hrun
  rw [Removed, mem_fds_of_perm hs' hkept]
  refine ⟨fun h => h.1, fun hall => ⟨hall, ?_⟩⟩
  obtain ⟨x, hmem, hfd⟩ := hthere
  have hboth : x.1.fd = x.2.fd := List.map_inj_left.mp hs.fst_fd_entries x hmem
  have hdead : x ∈ removed := by
    rw [hremoved.mem_iff, List.mem_filter]
    exact ⟨hmem, by simpa using hall x hmem hfd⟩
  have hclosedFd : fd ∈ closedFds t := by
    rw [hclosed, ← hfd, ← hboth]
    exact List.mem_map_of_mem hdead
  obtain ⟨e, he, heq⟩ := List.mem_filterMap.mp hclosedFd
  refine List.mem_append_right _ ?_
  cases e with
  | closed fd' =>
    cases heq
    exact he
  | accepted _ => cases heq
  | registered _ => cases heq
  | deleted _ => cases heq
  | callback _ _ _ _ _ => cases heq

/-- A call that returns: what happened before the deletion pass, and the pass. -/
theorem conPollEvents_split {m m' : Machine ω} {t : List (ConnEvent ε)}
    (hrun : conPollEvents sys cb m = ⟨.ok (), m', t⟩) :
    ∃ m₁ t₁ t₂, t = t₁ ++ t₂ ∧
      handleEvents sys cb (pollAnswer sys m).count (afterPoll sys m) = ⟨.ok (), m₁, t₁⟩ ∧
      deleteLoop sys cb m₁ = ⟨.ok (), m', t₂⟩ := by
  unfold conPollEvents at hrun
  rw [Proc.bind_run_ok (conHasEvents_run sys m)] at hrun
  rcases hhandle : handleEvents sys cb (pollAnswer sys m).count (afterPoll sys m) with
    ⟨r, m₁, t₁⟩
  cases r with
  | error e =>
    rw [Proc.bind_run_error hhandle] at hrun
    cases hrun
  | ok u =>
    rw [Proc.bind_run_ok hhandle] at hrun
    rcases hdelete : deleteLoop sys cb m₁ with ⟨r₂, m₂, t₂⟩
    rw [hdelete] at hrun
    cases hrun
    exact ⟨m₁, t₁, t₂, rfl, rfl, hdelete⟩

/-- **A retry in one call.**  The tables are quiescent, and `accept` returns no registered
descriptor.  Then they are quiescent when the call returns; and a client in `CONN_RETRY` that
`onconnect` killed is removed if `onmessage` kills it next, and only then, unless a callback
writes `CONN_KILL` into the record. -/
theorem conPollEvents_retries {m m' : Machine ω} {t : List (ConnEvent ε)} (h : Quiescent m.server)
    (hfresh : 0 ≤ acceptedFd sys m → acceptedFd sys m ∉ m.server.fds)
    (hrun : conPollEvents sys cb m = ⟨.ok (), m', t⟩) :
    Quiescent m'.server ∧ EachSince (fun e after => ∀ fd, RetryKilled e fd →
      (NextKills fd after → Removed m'.server fd after) ∧
      (cb.SparesStatus → Removed m'.server fd after → NextKills fd after)) t := by
  obtain ⟨m₁, t₁, t₂, rfl, hhandle, hdelete⟩ := conPollEvents_split sys hrun
  obtain ⟨k, hretrying⟩ := handleEvents_retrying sys h hfresh hhandle
  obtain ⟨hs', hkept, -⟩ := deleteLoop_run sys cb hretrying.inSync hdelete
  -- The deletion pass calls neither `onconnect` nor `onmessage`.
  have hparting : ∀ e ∈ t₂, ∀ kind s c status out, e = .callback kind s c status out →
      kind = .ondisconnect := by
    have hemits := emits_deleteLoop sys cb (P := fun e => ∀ kind s c status out,
      e = .callback kind s c status out → kind = .ondisconnect) (fun _ _ _ _ _ _ h => by cases h)
      (fun _ _ _ _ _ _ h => by cases h) (fun _ _ _ _ _ _ _ _ _ h => by cases h; rfl) m₁
    rwa [hdelete] at hemits
  refine ⟨⟨hs', ?_, ?_⟩, eachSince_append.mpr ⟨?_, ?_⟩⟩
  · rw [hs'.fds_eq_entries, (hkept.map _).nodup_iff]
    exact hretrying.nodup
  · intro entry hmem
    simpa using (List.mem_filter.mp (hkept.mem_iff.mp hmem)).2
  · refine hretrying.dismissed.imp fun e _ after hdismissed fd hkilled => ?_
    have hdismissed := hdismissed fd hkilled
    have hnext : NextKills fd (after ++ t₂) ↔ NextKills fd after := by
      refine nextKills_append ?_
      intro hnext
      obtain ⟨s, c, out, rest, heq, -⟩ := hnext.event
      cases hparting _ (heq ▸ List.mem_cons_self) _ _ _ _ _ rfl
    rw [hnext, removed_iff sys hretrying.inSync hdelete hdismissed.there]
    exact ⟨hdismissed.dead, hdismissed.spared⟩
  · intro before e after heq fd hkilled
    obtain ⟨s, c, out, rfl, -⟩ := hkilled.event
    have hmem : .callback .onconnect s c (some .kill) out ∈ t₂ := by
      rw [heq]
      exact List.mem_append_right _ List.mem_cons_self
    cases hparting _ hmem _ _ _ _ _ rfl

end Phases

end NoGround
