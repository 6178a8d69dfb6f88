/-
  Conn/Tables.lean --- the poll table and the client table stay in step.

  The two arrays are capped and filled separately, and no result of a push is
  looked at.  What keeps them together is that the poll table has one slot more,
  for the listener, and that every operation treats both alike.  `InSync` says
  this in two equations; `TablesInSync` is what it means for indices.

  `Step.inSync` is the step lemma, `Steps.inSync` and `Halted.inSync` are the run
  lemmas.
-/
import NoGround.Conn.Steps

set_option autoImplicit false

namespace NoGround

open NoGround.Lib

variable {ω ε : Type}

/-- Entry `i` of the poll table belongs to client `i - 1`, and both tables have
the same room. -/
structure InSync (s : Server) : Prop where
  fds : s.poll.items.map (·.fd) = s.fd :: s.fds
  cap : s.poll.cap = s.clients.cap + 1

/-- The same, index by index. -/
structure TablesInSync (s : Server) : Prop where
  len : s.poll.len = s.clients.len + 1
  poll_len_le_cap : s.poll.len ≤ s.poll.cap
  clients_len_le_cap : s.clients.len ≤ s.clients.cap
  listener : (s.poll.items[0]?).map (·.fd) = some s.fd
  entries : ∀ i, 1 ≤ i → i < s.poll.len →
    ∃ pfd client, s.poll.items[i]? = some pfd ∧ s.clients.items[i - 1]? = some client ∧
      pfd.fd = client.fd

namespace InSync

variable {s : Server}

theorem poll_len (h : InSync s) : s.poll.len = s.clients.len + 1 := by
  have := congrArg List.length h.fds
  simpa [Table.len, Server.fds] using this

theorem tablesInSync (h : InSync s) : TablesInSync s where
  len := h.poll_len
  poll_len_le_cap := s.poll.len_le_cap
  clients_len_le_cap := s.clients.len_le_cap
  listener := by
    rw [← List.getElem?_map, h.fds]
    rfl
  entries := by
    intro i hi hlt
    have hlen := h.poll_len
    have hclient : i - 1 < s.clients.items.length := by
      simp only [Table.len] at hlen hlt
      omega
    refine ⟨s.poll.items[i], s.clients.items[i - 1], List.getElem?_eq_getElem hlt,
      List.getElem?_eq_getElem hclient, ?_⟩
    have hfds : (s.poll.items.map (·.fd))[i]? = (s.fd :: s.fds)[i]? := by rw [h.fds]
    obtain ⟨j, rfl⟩ : ∃ j, i = j + 1 := ⟨i - 1, by omega⟩
    have hpoll : j + 1 < s.poll.items.length := hlt
    have hclient' : j < s.clients.items.length := hclient
    simp only [Server.fds, List.getElem?_cons_succ, List.getElem?_map,
      List.getElem?_eq_getElem hpoll, List.getElem?_eq_getElem hclient', Option.map_some,
      Option.some.injEq] at hfds
    exact hfds

/-- The descriptor of an entry is that of its client. -/
theorem fd_eq (h : InSync s) {index : Nat} {pfd : PollFd} {c : Client} (hindex : 1 ≤ index)
    (hpfd : s.poll.items[index]? = some pfd) (hc : s.clients.items[index - 1]? = some c) :
    pfd.fd = c.fd := by
  have hlt : index < s.poll.len := by
    obtain ⟨hlt, -⟩ := List.getElem?_eq_some_iff.mp hpfd
    exact hlt
  obtain ⟨pfd', c', hpfd', hc', heq⟩ := h.tablesInSync.entries index hindex hlt
  rw [hpfd] at hpfd'
  rw [hc] at hc'
  obtain rfl := Option.some.inj hpfd'
  obtain rfl := Option.some.inj hc'
  exact heq

end InSync

/-! ## The operations on both tables -/

section Operations

variable {s : Server}

/-- A record that keeps its descriptor leaves the list of descriptors alone. -/
theorem fds_setClient {slot : Nat} {c c' : Client}
    (hslot : s.clients.items[slot]? = some c) (hfd : c'.fd = c.fd) :
    (s.setClient slot c').fds = s.fds := by
  have hfds : s.fds[slot]? = some c.fd := by
    simp [Server.fds, List.getElem?_map, hslot]
  obtain ⟨hlt, hget⟩ := List.getElem?_eq_some_iff.mp hfds
  have hset : (s.setClient slot c').fds = s.fds.set slot c.fd := by
    simp [Server.fds, Server.setClient, List.map_set, hfd]
  rw [hset, ← hget, List.set_getElem_self]

theorem InSync.setClient (h : InSync s) {slot : Nat} {c c' : Client}
    (hslot : s.clients.items[slot]? = some c) (hfd : c'.fd = c.fd) :
    InSync (s.setClient slot c') where
  fds := by
    rw [fds_setClient hslot hfd]
    exact h.fds
  cap := h.cap

/-- With room, both pushes succeed. -/
theorem InSync.register_of_room (h : InSync s) (c : Client) (hroom : s.hasRoom = true) :
    InSync (s.register c) ∧ (s.register c).clients.items = s.clients.items ++ [c] := by
  obtain ⟨hclients, hpoll⟩ : s.clients.len < s.clients.cap ∧ s.poll.len < s.poll.cap := by
    simpa [Server.hasRoom] using hroom
  obtain ⟨clients', hpc, hci, hcc⟩ := Table.push_of_lt (a := c) hclients
  obtain ⟨poll', hpp, hpi, hpcap⟩ :=
    Table.push_of_lt (a := (⟨c.fd, POLLIN, 0#16⟩ : PollFd)) hpoll
  have hreg : s.register c = { s with clients := clients', poll := poll' } := by
    simp [Server.register, connPushToClientPoll, connPushToPoll, hpc, hpp]
  rw [hreg]
  refine ⟨⟨?_, ?_⟩, hci⟩
  · simp [Server.fds, hpi, hci, h.fds]
  · simp [hpcap, hcc, h.cap]

/-- Without room, both pushes fail. -/
theorem InSync.register_of_full (h : InSync s) (c : Client) (hroom : s.hasRoom = false) :
    s.register c = s := by
  have hlen := h.poll_len
  have hcap := h.cap
  have hfull : s.clients.cap ≤ s.clients.len ∧ s.poll.cap ≤ s.poll.len := by
    simp only [Server.hasRoom, Bool.and_eq_false_iff, decide_eq_false_iff_not,
      Nat.not_lt] at hroom
    omega
  simp [Server.register, connPushToClientPoll, connPushToPoll, Table.push_of_full hfull.1,
    Table.push_of_full hfull.2]

theorem InSync.register (h : InSync s) (c : Client) : InSync (s.register c) := by
  cases hroom : s.hasRoom with
  | true => exact (h.register_of_room c hroom).1
  | false => rw [h.register_of_full c hroom]; exact h

/-- A slot in use is still in use, with the same record, after a registration. -/
theorem getElem?_register (c : Client) {slot : Nat} {c₀ : Client}
    (hslot : s.clients.items[slot]? = some c₀) :
    (s.register c).clients.items[slot]? = some c₀ := by
  unfold Server.register connPushToClientPoll
  cases hpush : s.clients.push c with
  | none => exact hslot
  | some clients' =>
    obtain ⟨-, hitems, -⟩ := Table.push_eq_some hpush
    obtain ⟨hlt, -⟩ := List.getElem?_eq_some_iff.mp hslot
    show clients'.items[slot]? = some c₀
    rw [hitems, List.getElem?_append_left hlt, hslot]

theorem fds_delete (index : Nat) :
    (s.delete index).fds = swapRemove s.fds (index - 1) := by
  simp [Server.fds, Server.delete, map_swapRemove]

theorem InSync.delete (h : InSync s) {index : Nat} {c : Client} (hindex : 1 ≤ index)
    (hc : s.clients.items[index - 1]? = some c) : InSync (s.delete index) where
  fds := by
    have hne : s.fds ≠ [] := by
      intro hnil
      have hitems : s.clients.items = [] := by simpa [Server.fds] using hnil
      rw [hitems] at hc
      simp at hc
    have hpoll : (s.delete index).poll.items.map (·.fd) =
        swapRemove (s.fd :: s.fds) ((index - 1) + 1) := by
      simp only [Server.delete, Table.items_swapRemove, map_swapRemove, h.fds]
      congr 1
      omega
    rw [hpoll, swapRemove_cons_succ s.fd hne, fds_delete]
    rfl
  cap := h.cap

end Operations

/-! ## Every run -/

/-- If the event is a callback's, it was called on tables in step. -/
def CallInSync (cb : Callbacks ω ε) (e : ConnEvent ε) : Prop :=
  ∃ s, InSync s ∧ CallOn cb s e

/-- A step keeps the tables in step. -/
theorem Step.inSync {cb : Callbacks ω ε} {s s' : Server} {u : List (ConnEvent ε)}
    (h : Step cb s u s') (hs : InSync s) : InSync s' := by
  cases h with
  | poll poll hfd hcap =>
    refine ⟨?_, ?_⟩
    · exact hfd.trans hs.fds
    · exact hcap.trans hs.cap
  | touch hslot hfd _ => exact hs.setClient hslot hfd
  | serve hslot _ _ => exact hs.setClient hslot rfl
  | ping now hslot _ _ => exact hs.setClient hslot rfl
  | enter now _ _ _ => exact hs.register _
  | refuse _ _ => exact hs
  | drop fd _ => exact hs
  | reenter now hslot _ _ _ _ =>
    exact (hs.register _).setClient (getElem?_register _ hslot) rfl
  | rekill hslot _ _ _ => exact hs.setClient hslot rfl
  | delete hindex _ hclient _ => exact hs.delete hindex hclient

theorem Steps.inSync {cb : Callbacks ω ε} {s₀ s : Server} {t : List (ConnEvent ε)}
    (run : Steps (Step cb) s₀ t s) (hs₀ : InSync s₀) :
    InSync s ∧ ∀ e ∈ t, CallInSync cb e := by
  refine run.invariant (fun t s => InSync s ∧ ∀ e ∈ t, CallInSync cb e) ⟨hs₀, by simp⟩ ?_
  rintro t m u s' ⟨hm, ht⟩ hstep
  refine ⟨hstep.inSync hm, ?_⟩
  intro e he
  rcases List.mem_append.mp he with he | he
  · exact ht e he
  · exact ⟨m, hm, hstep.callOn e he⟩

/-- A halted run leaves the tables in step, and the callback it halted in was called on
them. -/
theorem Halted.inSync {cb : Callbacks ω ε} {s₀ s : Server} {e : Halt}
    {t : List (ConnEvent ε)} (h : Halted cb s₀ e t s) (hs₀ : InSync s₀) :
    InSync s ∧ ∀ e ∈ t, CallInSync cb e := by
  obtain ⟨t₀, u, rfl, run, hu⟩ := h.split
  obtain ⟨hs, ht⟩ := Steps.inSync run hs₀
  refine ⟨hs, ?_⟩
  intro e he
  rcases List.mem_append.mp he with he | he
  · exact ht e he
  · exact ⟨s, hs, (hu e he).callOn⟩

/-! ## Whom the callbacks are called for -/

/-- `onmessage` is called for a client in the table it is handed. -/
def ForRegistered : ConnEvent ε → Prop
  | .callback .onmessage s c _ _ => c ∈ s.clients.items
  | _ => True

theorem forRegistered_registerEvents {s : Server} {fd : Int} {e : ConnEvent ε}
    (he : e ∈ s.registerEvents fd) : ForRegistered e := by
  rw [mem_registerEvents he]
  trivial

theorem Step.forRegistered {cb : Callbacks ω ε} {s s' : Server} {u : List (ConnEvent ε)}
    (h : Step cb s u s') : ∀ e ∈ u, ForRegistered e := by
  cases h with
  | poll _ _ _ => simp
  | touch _ _ _ => simp
  | serve hslot _ _ =>
    intro e he
    rw [List.mem_singleton.mp he]
    exact List.mem_of_getElem? hslot
  | ping _ _ _ _ => simp [ForRegistered]
  | enter _ _ _ _ =>
    exact List.forall_mem_append.mpr
      ⟨by simp [ForRegistered], fun _ => forRegistered_registerEvents⟩
  | refuse _ _ => simp [ForRegistered]
  | drop _ _ => simp [ForRegistered]
  | reenter _ _ _ _ _ _ =>
    exact List.forall_mem_append.mpr
      ⟨by simp [ForRegistered], fun _ => forRegistered_registerEvents⟩
  | rekill _ _ _ _ => simp [ForRegistered]
  | delete _ _ _ hnotice =>
    refine List.forall_mem_append.mpr ⟨?_, by simp [ForRegistered]⟩
    intro e he
    obtain ⟨_, _, _, _, _, _, rfl⟩ := hnotice.mem he
    trivial

theorem Steps.forRegistered {cb : Callbacks ω ε} {s₀ s : Server} {t : List (ConnEvent ε)}
    (run : Steps (Step cb) s₀ t s) : ∀ e ∈ t, ForRegistered e := by
  refine run.invariant (fun t _ => ∀ e ∈ t, ForRegistered e) (by simp) ?_
  intro t m u s' ht hstep
  exact List.forall_mem_append.mpr ⟨ht, hstep.forRegistered⟩

theorem Halted.forRegistered {cb : Callbacks ω ε} {s₀ s : Server} {e : Halt}
    {t : List (ConnEvent ε)} (h : Halted cb s₀ e t s) : ∀ e ∈ t, ForRegistered e := by
  cases h with
  | listener run => exact Steps.forRegistered run
  | connecting run _ _ =>
    exact List.forall_mem_append.mpr ⟨Steps.forRegistered run, by simp [ForRegistered]⟩
  | @serving _ _ run kind _ _ _ _ _ _ _ hslot _ _ =>
    refine List.forall_mem_append.mpr ⟨Steps.forRegistered run, ?_⟩
    intro e he
    rw [List.mem_singleton.mp he]
    cases kind with
    | onmessage => exact List.mem_of_getElem? hslot
    | onconnect => trivial
    | ondisconnect => trivial
    | onping => trivial
  | notifying run _ _ _ =>
    exact List.forall_mem_append.mpr ⟨Steps.forRegistered run, by simp [ForRegistered]⟩

end NoGround
