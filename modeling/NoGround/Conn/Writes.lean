/-
  Conn/Writes.lean --- what a round writes, with any callbacks.

  A round of the event loop writes the entry it is at.  It may enter the client of this entry
  once more, and then the entry is marked (`RoundWrites`); a message writes the entry and
  nothing else (`MessageWrites`).  So the entries in front of the loop stay alive: between two
  calls every entry is (`Quiescent`), and no round kills one that it has not reached.
-/
import NoGround.Conn.Survivors

set_option autoImplicit false

namespace NoGround

open NoGround.Lib

variable {ω ε : Type}

/-! ## Between two calls -/

/-- The tables between two calls: every descriptor is registered once, and no entry is marked
or killed. -/
structure Quiescent (s : Server) : Prop where
  inSync : InSync s
  nodup : s.fds.Nodup
  alive : ∀ entry ∈ s.entries, ¬ Dead entry

section Quiescent

variable {s : Server}

/-- `poll` marks and kills nobody. -/
theorem alive_afterPoll (sys : Sys ω) {m : Machine ω} (hs : InSync m.server)
    (h : ∀ entry ∈ m.server.entries, ¬ Dead entry) :
    ∀ entry ∈ (afterPoll sys m).server.entries, ¬ Dead entry := by
  have hmap := map_entries_afterPoll sys (f := fun entry => Dead entry) hs fun _ _ _ => rfl
  intro entry hmem hdead
  have hprop : Dead entry ∈ m.server.entries.map fun entry => Dead entry := by
    rw [← hmap]
    exact List.mem_map_of_mem hmem
  obtain ⟨entry', hmem', heq⟩ := List.mem_map.mp hprop
  exact h entry' hmem' (heq ▸ hdead)

theorem Quiescent.afterPoll (sys : Sys ω) {m : Machine ω} (h : Quiescent m.server) :
    Quiescent (afterPoll sys m).server where
  inSync := h.inSync.afterPoll sys
  nodup := h.nodup
  alive := alive_afterPoll sys h.inSync h.alive

/-- A client is entered, if there is room. -/
theorem entries_enter (hs : InSync s) (c : Client) (hstatus : c.status ≠ .kill) :
    ∃ extra : Option (PollFd × Client), (s.register c).entries = s.entries ++ extra.toList ∧
      ∀ x ∈ extra, x.2.fd = c.fd ∧ ¬ Dead x := by
  cases hroom : s.hasRoom with
  | true =>
    refine ⟨some _, entries_register hs c hroom, ?_⟩
    rintro x ⟨rfl⟩
    exact ⟨rfl, by simp [Dead, POLLIN, hstatus]⟩
  | false =>
    rw [hs.register_of_full c hroom]
    exact ⟨none, (List.append_nil _).symm, fun _ h => by cases h⟩

theorem alive_register (hs : InSync s) (h : ∀ entry ∈ s.entries, ¬ Dead entry) {c : Client}
    (hstatus : c.status ≠ .kill) : ∀ entry ∈ (s.register c).entries, ¬ Dead entry := by
  obtain ⟨extra, hentries, hnew⟩ := entries_enter hs c hstatus
  rw [hentries]
  refine List.forall_mem_append.mpr ⟨h, ?_⟩
  intro x hx
  exact (hnew x (Option.mem_toList.mp hx)).2

theorem Quiescent.register (h : Quiescent s) {c : Client} (hfd : c.fd ∉ s.fds)
    (hstatus : c.status ≠ .kill) : Quiescent (s.register c) := by
  refine ⟨h.inSync.register c, ?_, alive_register h.inSync h.alive hstatus⟩
  cases hroom : s.hasRoom with
  | true =>
    rw [fds_register h.inSync hroom]
    exact List.nodup_append_comm.mp (List.nodup_cons.mpr ⟨hfd, h.nodup⟩)
  | false =>
    rw [h.inSync.register_of_full c hroom]
    exact h.nodup

theorem InSync.getElem?_fds (hs : InSync s) {j : Nat} {x : PollFd × Client}
    (h : s.entries[j]? = some x) : s.fds[j]? = some x.2.fd := by
  rw [hs.fds_eq_entries, List.getElem?_map, h]
  rfl

end Quiescent

/-! ## Messages that kill -/

/-- The next event is that `onmessage` killed the client. -/
def NextKills (fd : Int) : List (ConnEvent ε) → Prop
  | .callback .onmessage _ c (some .kill) _ :: _ => c.fd = fd
  | _ => False

instance (fd : Int) (after : List (ConnEvent ε)) : Decidable (NextKills fd after) := by
  unfold NextKills
  split <;> infer_instance

/-- `onconnect` and `onmessage` do not write `CONN_KILL` into the record themselves. -/
def Callbacks.SparesStatus (cb : Callbacks ω ε) : Prop :=
  ∀ kind, kind = .onconnect ∨ kind = .onmessage → ∀ {f}, cb.handler kind = some f →
    ∀ {s c w status c' w' out}, f s c w = ⟨.ok (status, c'), w', out⟩ →
      c'.status = .kill → c.status = .kill

section Calls

variable {fd : Int} {t u : List (ConnEvent ε)}

theorem NextKills.event (h : NextKills fd t) :
    ∃ s c out rest, t = .callback .onmessage s c (some .kill) out :: rest ∧ c.fd = fd := by
  unfold NextKills at h
  split at h
  · exact ⟨_, _, _, _, rfl, h⟩
  · exact h.elim

theorem not_nextKills_nil : ¬ NextKills fd ([] : List (ConnEvent ε)) := id

theorem nextKills_cons {kind : CallbackKind} {s : Server} {c : Client}
    {status : Option ConnStatus} {out : List ε} :
    NextKills fd (.callback kind s c status out :: t) ↔
      kind = .onmessage ∧ status = some .kill ∧ c.fd = fd := by
  constructor
  · intro h
    obtain ⟨_, _, _, _, heq, hfd⟩ := h.event
    cases heq
    exact ⟨rfl, rfl, hfd⟩
  · rintro ⟨rfl, rfl, hfd⟩
    exact hfd

/-- Only the first event counts. -/
theorem nextKills_append (hu : ¬ NextKills fd u) : NextKills fd (t ++ u) ↔ NextKills fd t := by
  cases t with
  | nil => exact iff_of_false hu not_nextKills_nil
  | cons e t =>
    constructor
    · intro h
      obtain ⟨s, c, out, rest, heq, hfd⟩ := h.event
      obtain ⟨rfl, -⟩ := List.cons.inj heq
      exact hfd
    · intro h
      obtain ⟨s, c, out, rest, heq, hfd⟩ := h.event
      obtain ⟨rfl, -⟩ := List.cons.inj heq
      exact hfd

end Calls

/-! ## Writing an entry -/

/-- A round writes its own entry.  It may enter the client once more, and then its own entry
is dead. -/
structure RoundWrites (k : Nat) (entry : PollFd × Client) (s s' : Server)
    (entry' : PollFd × Client) (extra : Option (PollFd × Client)) : Prop where
  inSync : InSync s'
  entries : s'.entries = s.entries.set k entry' ++ extra.toList
  fd : entry'.2.fd = entry.2.fd
  entered : ∀ x ∈ extra, x.2.fd = entry.2.fd ∧ ¬ Dead x
  again : extra ≠ none → Dead entry'

/-- The entries from `k` on are alive. -/
def Ahead (k : Nat) (s : Server) : Prop := ∀ j ≥ k, ∀ x, s.entries[j]? = some x → ¬ Dead x

theorem ahead_zero {s : Server} : Ahead 0 s ↔ ∀ entry ∈ s.entries, ¬ Dead entry := by
  constructor
  · intro h entry hmem
    obtain ⟨j, hj⟩ := List.getElem?_of_mem hmem
    exact h j (Nat.zero_le j) entry hj
  · intro h j _ x hx
    exact h x (List.mem_of_getElem? hx)

section Entries

variable {s s' : Server} {k : Nat} {entry entry' : PollFd × Client}
  {extra : Option (PollFd × Client)}

namespace RoundWrites

variable (h : RoundWrites k entry s s' entry' extra)

include h

theorem getElem?_old {j : Nat} (hj : j ≠ k) (hlt : j < s.entries.length) :
    s'.entries[j]? = s.entries[j]? := by
  have hlt' : j < (s.entries.set k entry').length := by
    rw [List.length_set]
    exact hlt
  rw [h.entries, List.getElem?_append_left hlt', List.getElem?_set_ne hj.symm]

theorem getElem?_new {j : Nat} {x : PollFd × Client} (hlen : s.entries.length ≤ j)
    (hx : s'.entries[j]? = some x) : j = s.entries.length ∧ x ∈ extra := by
  have hlen' : (s.entries.set k entry').length ≤ j := by
    rw [List.length_set]
    exact hlen
  rw [h.entries, List.getElem?_append_right hlen', List.length_set] at hx
  obtain ⟨hlt, -⟩ := List.getElem?_eq_some_iff.mp hx
  have hone : extra.toList.length ≤ 1 := by
    cases extra <;> simp
  exact ⟨by omega, Option.mem_toList.mp (List.mem_of_getElem? hx)⟩

/-- An entry afterwards is the one of the round, or it was there before, or it is new. -/
theorem cases {j : Nat} {x : PollFd × Client} (hx : s'.entries[j]? = some x) :
    (j = k ∧ x = entry') ∨ (j ≠ k ∧ s.entries[j]? = some x) ∨
      (j = s.entries.length ∧ x ∈ extra) := by
  rcases Nat.lt_or_ge j s.entries.length with hlt | hge
  · by_cases hj : j = k
    · subst hj
      have hlt' : j < (s.entries.set j entry').length := by
        rw [List.length_set]
        exact hlt
      rw [h.entries, List.getElem?_append_left hlt', List.getElem?_set_self hlt] at hx
      exact .inl ⟨rfl, (Option.some.inj hx).symm⟩
    · rw [h.getElem?_old hj hlt] at hx
      exact .inr (.inl ⟨hj, hx⟩)
  · exact .inr (.inr (h.getElem?_new hge hx))

/-- The entries of the other descriptors stay. -/
theorem mem_iff (hentry : s.entries[k]? = some entry) {x : PollFd × Client}
    (hfd : x.2.fd ≠ entry.2.fd) : x ∈ s'.entries ↔ x ∈ s.entries := by
  constructor
  · intro hmem
    obtain ⟨j, hj⟩ := List.getElem?_of_mem hmem
    rcases h.cases hj with ⟨-, rfl⟩ | ⟨-, hold⟩ | ⟨-, hnew⟩
    · exact absurd h.fd hfd
    · exact List.mem_of_getElem? hold
    · exact absurd (h.entered x hnew).1 hfd
  · intro hmem
    obtain ⟨j, hj⟩ := List.getElem?_of_mem hmem
    obtain ⟨hlt, -⟩ := List.getElem?_eq_some_iff.mp hj
    have hne : j ≠ k := by
      rintro rfl
      rw [hentry] at hj
      exact hfd (congrArg (·.2.fd) (Option.some.inj hj.symm))
    exact List.mem_of_getElem? ((h.getElem?_old hne hlt).trans hj)

/-- A round kills no entry that it has not reached. -/
theorem ahead (halive : Ahead k s) : Ahead (k + 1) s' := by
  intro j hj x hx
  rcases h.cases hx with ⟨rfl, -⟩ | ⟨-, hold⟩ | ⟨-, hnew⟩
  · omega
  · exact halive j (by omega) x hold
  · exact (h.entered x hnew).2

end RoundWrites

end Entries

/-! ## The rounds of the event loop -/

/-- The entry after a message is dead if `onmessage` killed the client or if it was marked
before, and it is dead only if it was so before or `onmessage` killed the client. -/
structure MessageWrites (cb : Callbacks ω ε) (k : Nat) (entry : PollFd × Client) (s s' : Server)
    (u : List (ConnEvent ε)) (entry' : PollFd × Client) : Prop where
  writes : RoundWrites k entry s s' entry' none
  dead : NextKills entry.2.fd u → Dead entry'
  spared : cb.SparesStatus → ¬ Dead entry → Dead entry' → NextKills entry.2.fd u
  marked : entry.1.events = 0#16 → Dead entry'
  own : ∀ fd, NextKills fd u → fd = entry.2.fd
  messages : ∀ e ∈ u, ∃ s c status out, e = .callback .onmessage s c status out

section Rounds

variable {cb : Callbacks ω ε} {s s' : Server} {k : Nat} {pfd : PollFd} {c : Client}
  {t u : List (ConnEvent ε)}

theorem roundWrites_write (hs : InSync s) (hentry : s.entries[k]? = some (pfd, c)) (c' : Client)
    (hfd : c'.fd = c.fd) (gone : Prop) [Decidable gone] :
    RoundWrites k (pfd, c) s ((s.setClient k c').markIf (k + 1) gone) (pfd.markIf gone, c')
      none := by
  obtain ⟨hs', hentries⟩ := entries_write hs hentry hfd gone
  refine ⟨hs', ?_, hfd, ?_, fun h => absurd rfl h⟩
  · rw [hentries]
    exact (List.append_nil _).symm
  · intro x hx
    cases hx

/-- A round that writes nothing. -/
theorem roundWrites_none (hs : InSync s) (hentry : s.entries[k]? = some (pfd, c)) :
    RoundWrites k (pfd, c) s s (pfd, c) none := by
  have hwrites := roundWrites_write hs hentry c rfl False
  rwa [setClient_self (getElem?_of_entries hentry).2, Server.markIf, PollFd.markIf,
    if_neg not_false, if_neg not_false] at hwrites

theorem Delivered.messageWrites (h : Delivered cb s (k + 1) c (.ok ()) s' u) (hs : InSync s)
    (hentry : s.entries[k]? = some (pfd, c)) :
    ∃ entry', MessageWrites cb k (pfd, c) s s' u entry' := by
  cases h with
  | unheard hf =>
    have hnone : ∀ fd, ¬ NextKills fd ([] : List (ConnEvent ε)) := fun _ => not_nextKills_nil
    refine ⟨_, roundWrites_none hs hentry, ?_, ?_, ?_, ?_, ?_⟩
    · exact fun hnext => absurd hnext (hnone _)
    · exact fun _ halive hdead => absurd hdead halive
    · exact fun hmarked => .inl hmarked
    · exact fun _ hnext => absurd hnext (hnone _)
    · exact fun _ hmem => absurd hmem List.not_mem_nil
  | @heard f status c' w w' out now hf hrun =>
    refine ⟨_, roundWrites_write hs hentry { c' with fd := c.fd } rfl (status = .kill),
      ?_, ?_, ?_, ?_, ?_⟩
    · intro hkills
      rw [nextKills_cons] at hkills
      exact dead_markIf.mpr (.inl (Option.some.inj hkills.2.1))
    · intro hspares halive hdead
      have hspared : c'.status = .kill → (c.stamped now).status = .kill :=
        hspares .onmessage (.inr rfl) hf hrun
      rw [nextKills_cons]
      rcases dead_markIf.mp hdead with hkill | hevents | hstatus
      · exact ⟨rfl, congrArg some hkill, rfl⟩
      · exact absurd (.inl hevents) halive
      · exact absurd (.inr (hspared hstatus)) halive
    · intro hmarked
      exact dead_markIf.mpr (.inr (.inl hmarked))
    · intro fd hkills
      rw [nextKills_cons] at hkills
      exact hkills.2.2.symm
    · intro e he
      exact ⟨_, _, _, _, List.mem_singleton.mp he⟩

/-- A message after the record was written and the entry perhaps marked. -/
theorem Delivered.after_write (hs : InSync s) (hentry : s.entries[k]? = some (pfd, c))
    {c₁ : Client} (hfd : c₁.fd = c.fd) {gone : Prop} [Decidable gone]
    (h : Delivered cb ((s.setClient k c₁).markIf (k + 1) gone) (k + 1) c₁ (.ok ()) s' u) :
    ∃ entry', s'.entries = s.entries.set k entry' ∧
      MessageWrites cb k (pfd.markIf gone, c₁) ((s.setClient k c₁).markIf (k + 1) gone) s' u
        entry' := by
  obtain ⟨hlt, -⟩ := List.getElem?_eq_some_iff.mp hentry
  obtain ⟨hs₁, hentries⟩ := entries_write hs hentry hfd gone
  have hentry₁ : ((s.setClient k c₁).markIf (k + 1) gone).entries[k]? =
      some (pfd.markIf gone, c₁) := by
    rw [hentries, List.getElem?_set, if_pos rfl, if_pos hlt]
  obtain ⟨entry', hwrites⟩ := h.messageWrites hs₁ hentry₁
  refine ⟨entry', ?_, hwrites⟩
  rw [hwrites.writes.entries, hentries, List.set_set]
  exact List.append_nil _

/-- A client that was handed to `onconnect` again: perhaps it is entered again, and its entry is
marked then; the message writes the entry after that. -/
theorem retried_writes (hs : InSync s) (hentry : s.entries[k]? = some (pfd, c))
    {status : ConnStatus} {c₁ : Client} {s₁ : Server}
    (hconnect : Connected cb s c (.ok (status, c₁)) s₁ u) {u' : List (ConnEvent ε)}
    (hmessage : Delivered cb ((s₁.setClient k c₁).markIf (k + 1) (status ≠ .kill)) (k + 1) c₁
      (.ok ()) s' u') :
    ∃ entry' extra, RoundWrites k (pfd, c) s s' entry' extra ∧ (status = .kill → extra = none) ∧
      MessageWrites cb k (pfd.markIf (status ≠ .kill), c₁)
        ((s₁.setClient k c₁).markIf (k + 1) (status ≠ .kill)) s' u' entry' := by
  -- Without `onconnect`, and if it kills the client, nobody is entered.
  have hkill : ∀ {c₁ : Client}, c₁.fd = c.fd →
      Delivered cb ((s.setClient k c₁).markIf (k + 1) (ConnStatus.kill ≠ .kill)) (k + 1) c₁
        (.ok ()) s' u' →
      ∃ entry' extra, RoundWrites k (pfd, c) s s' entry' extra ∧
        (ConnStatus.kill = .kill → extra = none) ∧
        MessageWrites cb k (pfd.markIf (ConnStatus.kill ≠ .kill), c₁)
          ((s.setClient k c₁).markIf (k + 1) (ConnStatus.kill ≠ .kill)) s' u' entry' := by
    intro c₁ hfd hmessage
    obtain ⟨entry', hentries, hwrites⟩ := hmessage.after_write hs hentry hfd
    refine ⟨entry', none, ⟨hwrites.writes.inSync, ?_, hwrites.writes.fd.trans hfd, ?_,
      fun h => absurd rfl h⟩, fun _ => rfl, hwrites⟩
    · rw [hentries]
      exact (List.append_nil _).symm
    · intro x hx
      cases hx
  cases hconnect with
  | absent _ => exact hkill rfl hmessage
  | killed _ _ => exact hkill rfl hmessage
  | @live c' _ _ _ _ _ now _ _ hstatus =>
    obtain ⟨hlt, -⟩ := List.getElem?_eq_some_iff.mp hentry
    obtain ⟨extra, hextra, hnew⟩ := entries_enter hs (c.admitted c' status now) hstatus
    have hentry₁ : (s.register (c.admitted c' status now)).entries[k]? = some (pfd, c) := by
      rw [hextra, List.getElem?_append_left hlt, hentry]
    obtain ⟨entry', hentries, hwrites⟩ := hmessage.after_write
      (hs.register (c.admitted c' status now)) hentry₁
      (show (c.admitted c' status now).fd = c.fd from rfl)
    refine ⟨entry', extra, ⟨hwrites.writes.inSync, ?_, hwrites.writes.fd, hnew, ?_⟩,
      fun hkilled => absurd hkilled hstatus, hwrites⟩
    · rw [hentries, hextra, List.set_append_left _ _ hlt]
    · intro _
      refine hwrites.marked ?_
      show (pfd.markIf (status ≠ .kill)).events = 0#16
      rw [PollFd.markIf, if_pos hstatus]

/-- What a round of the event loop writes. -/
theorem EventHandled.writes {peek : Int}
    (h : EventHandled cb s (k + 1) pfd c peek (.ok ()) s' u) (hs : InSync s)
    (hentry : s.entries[k]? = some (pfd, c)) :
    ∃ entry' extra, RoundWrites k (pfd, c) s s' entry' extra := by
  cases h with
  | removed _ =>
    have hwrites := roundWrites_write hs hentry c rfl True
    rw [setClient_self (getElem?_of_entries hentry).2, Server.markIf, if_pos trivial] at hwrites
    exact ⟨_, none, hwrites⟩
  | idle now _ _ _ =>
    have hwrites := roundWrites_write hs hentry (c.stamped now) rfl False
    rw [Server.markIf, if_neg not_false] at hwrites
    exact ⟨_, none, hwrites⟩
  | served _ _ hmessage =>
    obtain ⟨entry', hwrites⟩ := hmessage.messageWrites hs hentry
    exact ⟨entry', none, hwrites.writes⟩
  | retried _ _ hconnect hmessage =>
    obtain ⟨entry', extra, hwrites, -⟩ := retried_writes hs hentry hconnect hmessage
    exact ⟨entry', extra, hwrites⟩

/-- What a round of the ping loop writes. -/
theorem PingHandled.writes {f : Callback ω ε} (h : PingHandled f s (k + 1) c (.ok ()) s' u)
    (hs : InSync s) (hentry : s.entries[k]? = some (pfd, c)) :
    ∃ entry', RoundWrites k (pfd, c) s s' entry' none := by
  cases h with
  | fresh => exact ⟨_, roundWrites_none hs hentry⟩
  | @pinged status c' w w' out now hrun =>
    exact ⟨_, roundWrites_write hs hentry
      { c' with fd := c.fd, status := status, last_updated := now } rfl (status = .kill)⟩

end Rounds

/-! ## The rules of the two loops -/

/-- A loop over the entries: one round for each, until there is none left. -/
theorem rounds_rule {I : Nat → List (ConnEvent ε) → Machine ω → Prop}
    {E : Halt → List (ConnEvent ε) → Machine ω → Prop} (round : Nat → Conn ω ε Nat)
    (hs : ∀ {k t m}, I k t m → InSync m.server) (hstuck : ∀ {k t m}, I k t m → E .outOfFuel t m)
    (hround : ∀ {k m t pfd c}, I k t m → m.server.entries[k]? = some (pfd, c) →
      Proc.Post (fun j t m' => j = k + 2 ∧ I (k + 1) t m') E t (round (k + 1) m)) (fuel : Nat) :
    Proc.Triple (I 0) (Proc.loop .outOfFuel indexInPoll round fuel 1)
      (fun _ t m => ∃ k, I k t m ∧ m.server.entries.length ≤ k) E := by
  refine Proc.Triple.conseq (Proc.Triple.loop (E := E)
    (fun _ i t m => ∃ k, i = k + 1 ∧ I k t m) (fun _ i => ?_) ?_ fuel 1) ?_ ?_
    (fun _ _ _ h => h)
  · rintro t m ⟨⟨k, rfl, ht⟩, hlt⟩
    have hlen := (hs ht).length_entries
    have hlt' : k + 1 < m.server.poll.len := by simpa [indexInPoll] using hlt
    obtain ⟨⟨pfd, c⟩, hentry⟩ : ∃ entry, m.server.entries[k]? = some entry :=
      ⟨_, List.getElem?_eq_getElem (by omega)⟩
    have hpost := hround ht hentry
    unfold Proc.Post at hpost ⊢
    split at hpost
    · obtain ⟨rfl, ht'⟩ := hpost
      exact ⟨k + 1, rfl, ht'⟩
    · exact hpost
  · rintro i t m ⟨k, -, ht⟩ -
    exact hstuck ht
  · intro t m ht
    exact ⟨0, rfl, ht⟩
  · rintro _ t m ⟨_, _, ⟨k, rfl, ht⟩, hend⟩
    have hlen := (hs ht).length_entries
    have hend' : m.server.poll.len ≤ k + 1 := by simpa [indexInPoll] using hend
    exact ⟨k, ht, by omega⟩

section Rules

variable {I : Nat → List (ConnEvent ε) → Server → Prop}
  {E : Halt → List (ConnEvent ε) → Server → Prop}

/-- An invariant that does not look at the world. -/
theorem loop_rule {round : Nat → Conn ω ε Nat} (hs : ∀ {k t s}, I k t s → InSync s)
    (hstuck : ∀ {k t s}, I k t s → E .outOfFuel t s)
    (hround : ∀ {k m t pfd c}, I k t m.server → m.server.entries[k]? = some (pfd, c) →
      Proc.Post (fun j t m' => j = k + 2 ∧ I (k + 1) t m'.server) (fun e => OnServer (E e)) t
        (round (k + 1) m)) (fuel : Nat) :
    Proc.Triple (OnServer (I 0)) (Proc.loop .outOfFuel indexInPoll round fuel 1)
      (fun _ => OnServer fun t s => ∃ k, I k t s) (fun e => OnServer (E e)) := by
  refine Proc.Triple.weaken (rounds_rule (I := fun k => OnServer (I k))
    (E := fun e => OnServer (E e)) round hs hstuck hround fuel) ?_
  rintro _ t m ⟨k, ht, -⟩
  exact ⟨k, ht⟩

/-- What every round of the event loop keeps, and every round that halts leaves. -/
theorem eventLoop_rule (sys : Sys ω) {cb : Callbacks ω ε} (hs : ∀ {k t s}, I k t s → InSync s)
    (hstuck : ∀ {k t s}, I k t s → E .outOfFuel t s)
    (hok : ∀ {k t s pfd c peek s' u}, I k t s → s.entries[k]? = some (pfd, c) →
      EventHandled cb s (k + 1) pfd c peek (.ok ()) s' u → I (k + 1) (t ++ u) s')
    (herror : ∀ {k t s pfd c peek e s' u}, I k t s → s.entries[k]? = some (pfd, c) →
      EventHandled cb s (k + 1) pfd c peek (.error e) s' u → E e (t ++ u) s') :
    Proc.Triple (OnServer (I 0)) (eventLoop sys cb) (fun _ => OnServer fun t s => ∃ k, I k t s)
      (fun e => OnServer (E e)) := by
  unfold eventLoop
  refine Proc.Triple.bind server_triple fun s => ?_
  refine (loop_rule hs hstuck ?_ s.poll.cap).strengthen fun t m h => h.1
  intro k m t pfd c ht hentry
  obtain ⟨hpfd, hc⟩ := getElem?_of_entries hentry
  obtain ⟨r, hhandled, hout⟩ := eventRound_handled sys cb hpfd hc
  unfold Proc.Post
  rw [hout]
  cases r with
  | error e => exact herror ht hentry hhandled
  | ok _ => exact ⟨rfl, hok ht hentry hhandled⟩

/-- What every round of the ping loop keeps, and every round that halts leaves. -/
theorem pingLoop_rule (sys : Sys ω) (f : Callback ω ε) (hs : ∀ {k t s}, I k t s → InSync s)
    (hstuck : ∀ {k t s}, I k t s → E .outOfFuel t s)
    (hok : ∀ {k t s pfd c s' u}, I k t s → s.entries[k]? = some (pfd, c) →
      PingHandled f s (k + 1) c (.ok ()) s' u → I (k + 1) (t ++ u) s')
    (herror : ∀ {k t s pfd c e s' u}, I k t s → s.entries[k]? = some (pfd, c) →
      PingHandled f s (k + 1) c (.error e) s' u → E e (t ++ u) s') :
    Proc.Triple (OnServer (I 0)) (pingLoop sys f) (fun _ => OnServer fun t s => ∃ k, I k t s)
      (fun e => OnServer (E e)) := by
  unfold pingLoop
  refine Proc.Triple.bind server_triple fun s => ?_
  refine (loop_rule hs hstuck ?_ s.poll.cap).strengthen fun t m h => h.1
  intro k m t pfd c ht hentry
  obtain ⟨-, hc⟩ := getElem?_of_entries hentry
  obtain ⟨r, hhandled, hout⟩ := pingRound_handled sys f (k + 1) hc
  unfold Proc.Post
  rw [hout]
  cases r with
  | error e => exact herror ht hentry hhandled
  | ok _ => exact ⟨rfl, hok ht hentry hhandled⟩

end Rules

end NoGround
