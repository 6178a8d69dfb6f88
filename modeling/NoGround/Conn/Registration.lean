/-
  Conn/Registration.lean --- which descriptors are registered, and which sockets
  are open.

  Two ledgers are kept of one run: the tables, and the sockets that `accept`
  returned and `close` has not been called on.  They agree as long as nothing is
  registered a second time.  The one place that does so is the retry path of
  `conPollEvents`: it hands a registered client to `conHandleConnect`, which
  pushes it again, and leaves the old entry to the deletion pass, which closes
  the descriptor that the new entry still names.

  `Step.registration` is the step lemma.  `serve_registration` is the result for
  runs in which no client is entered again, and `retry_leaves_closed_socket` is a
  run in which one is.
-/
import NoGround.Conn.Init
import NoGround.Lib.Ledger

set_option autoImplicit false

namespace NoGround

open NoGround.Lib

variable {ω ε : Type}

/-! ## Two ledgers -/

/-- The sockets: `accept` opens one, `close` closes it. -/
def socketMove : ConnEvent ε → Move Int
  | .accepted fd => .gain fd
  | .closed fd => .lose fd
  | _ => .idle

/-- The accepted sockets that are open after a trace. -/
def openSockets (t : List (ConnEvent ε)) : List Int := held socketMove t

/-- `accept` never returned a descriptor that was still open. -/
def AcceptsFresh (t : List (ConnEvent ε)) : Prop := Fresh socketMove t

instance (t : List (ConnEvent ε)) : Decidable (AcceptsFresh t) :=
  inferInstanceAs (Decidable (Fresh socketMove t))

/-- Every registered descriptor is an open socket, at one index only. -/
structure Registration (t : List (ConnEvent ε)) (s : Server) : Prop where
  isOpen : ∀ pfd ∈ s.poll.items.tail, pfd.fd ∈ openSockets t
  once : (s.poll.items.tail.map (·.fd)).Nodup

/-- `onconnect` was asked about a client that is registered already, did not kill
it, and there was room to enter it again. -/
def Reentered : ConnEvent ε → Prop
  | .callback .onconnect s c (some status) _ =>
      c.fd ∈ s.fds ∧ status ≠ .kill ∧ s.hasRoom = true
  | _ => False

instance (e : ConnEvent ε) : Decidable (Reentered e) := by
  unfold Reentered
  split <;> infer_instance

/-! ## Steps -/

/-- The ledger part of `Registration`, over the client table. -/
structure Registered (t : List (ConnEvent ε)) (s : Server) : Prop where
  isOpen : ∀ fd ∈ s.fds, fd ∈ openSockets t
  once : s.fds.Nodup

theorem Registered.registration {t : List (ConnEvent ε)} {s : Server} (h : Registered t s)
    (hs : InSync s) : Registration t s := by
  have hfds : s.poll.items.tail.map (·.fd) = s.fds := by
    rw [List.map_tail, hs.fds]
    rfl
  refine ⟨?_, ?_⟩
  · intro pfd hpfd
    apply h.isOpen
    rw [← hfds]
    exact List.mem_map_of_mem hpfd
  · rw [hfds]
    exact h.once

/-- No socket is closed. -/
def ClosesNothing (u : List (ConnEvent ε)) : Prop := ∀ fd, ∀ e ∈ u, socketMove e ≠ .lose fd

/-- A socket stays open over events that do not close it. -/
theorem mem_openSockets_append {t u : List (ConnEvent ε)} {fd : Int}
    (h : fd ∈ openSockets t) (hu : ∀ e ∈ u, socketMove e ≠ .lose fd) :
    fd ∈ openSockets (t ++ u) := by
  unfold openSockets at h ⊢
  rw [held_append]
  exact mem_heldFrom_of_mem socketMove h hu

theorem ClosesNothing.registerEvents {u : List (ConnEvent ε)} (hu : ClosesNothing u)
    (s : Server) (fd : Int) : ClosesNothing (u ++ s.registerEvents fd) := by
  intro fd' e he
  rcases List.mem_append.mp he with he | he
  · exact hu fd' e he
  · rw [mem_registerEvents he]
    exact fun h => by cases h

theorem socketMove_notified {cb : Callbacks ω ε} {s : Server} {c : Client}
    {notice : List (ConnEvent ε)} (h : Notified cb s c notice) {e : ConnEvent ε}
    (he : e ∈ notice) : socketMove e = .idle := by
  obtain ⟨_, _, _, _, _, _, rfl⟩ := h.mem he
  rfl

/-- A registration in room appends one descriptor. -/
theorem fds_register {s : Server} (hs : InSync s) {c : Client} (hroom : s.hasRoom = true) :
    (s.register c).fds = s.fds ++ [c.fd] := by
  unfold Server.fds
  rw [(hs.register_of_room c hroom).2, List.map_append]
  rfl

namespace Registered

variable {t u : List (ConnEvent ε)} {s s' : Server}

/-- The descriptors stay, and no socket is closed. -/
theorem quiet (hreg : Registered t s) (hfds : s'.fds = s.fds) (hu : ClosesNothing u) :
    Registered (t ++ u) s' := by
  refine ⟨?_, hfds ▸ hreg.once⟩
  intro fd hfd
  rw [hfds] at hfd
  exact mem_openSockets_append (hreg.isOpen fd hfd) (hu fd)

/-- A socket that was opened since is entered, if there is room. -/
theorem register (hreg : Registered t s) (hs : InSync s) {c : Client}
    (hnew : c.fd ∉ openSockets t) (hopen : c.fd ∈ openSockets (t ++ u)) (hu : ClosesNothing u) :
    Registered (t ++ u) (s.register c) := by
  cases hroom : s.hasRoom with
  | true =>
    have hfds := fds_register hs (c := c) hroom
    refine ⟨?_, ?_⟩
    · intro fd hfd
      rw [hfds, List.mem_append, List.mem_singleton] at hfd
      rcases hfd with hfd | rfl
      · exact mem_openSockets_append (hreg.isOpen fd hfd) (hu fd)
      · exact hopen
    · have hfresh : c.fd ∉ s.fds := fun hmem => hnew (hreg.isOpen _ hmem)
      rw [hfds]
      exact List.nodup_append_comm.mp (List.nodup_cons.mpr ⟨hfresh, hreg.once⟩)
  | false =>
    rw [hs.register_of_full c hroom]
    exact hreg.quiet rfl hu

/-- An entry is deleted, and no other socket closed. -/
theorem delete (hreg : Registered t s) {index : Nat} {c : Client}
    (hclient : s.clients.items[index - 1]? = some c)
    (hu : ∀ fd, fd ≠ c.fd → ∀ e ∈ u, socketMove e ≠ .lose fd) :
    Registered (t ++ u) (s.delete index) := by
  have hslot : s.fds[index - 1]? = some c.fd := by
    simp [Server.fds, List.getElem?_map, hclient]
  obtain ⟨hgone, hnodup⟩ := nodup_swapRemove hslot hreg.once
  refine ⟨?_, ?_⟩
  · intro fd hmem
    rw [fds_delete] at hmem
    have hne : fd ≠ c.fd := fun heq => hgone (heq ▸ hmem)
    have hfd : fd ∈ s.fds := mem_of_mem_swapRemove hslot hmem
    exact mem_openSockets_append (hreg.isOpen fd hfd) (hu fd hne)
  · rw [fds_delete]
    exact hnodup

end Registered

/-- A step that opens only fresh sockets and enters nobody again keeps the ledgers in
agreement. -/
theorem Step.registration {cb : Callbacks ω ε} {t u : List (ConnEvent ε)} {s s' : Server}
    (h : Step cb s u s') (hs : InSync s) (hreg : Registered t s)
    (hfresh : FreshFrom socketMove (openSockets t) u) (hre : ∀ e ∈ u, ¬ Reentered e) :
    Registered (t ++ u) s' := by
  have hone : ∀ {kind : CallbackKind} {s : Server} {c : Client} {status : Option ConnStatus}
      {out : List ε}, ClosesNothing [.callback kind s c status out] := by
    simp [ClosesNothing, socketMove]
  -- A socket that was opened and closed again is as if it had never been opened.
  have hundone : openSockets (t ++ u) = openSockets t → s'.fds = s.fds →
      Registered (t ++ u) s' := by
    intro hopen hfds
    refine ⟨?_, hfds ▸ hreg.once⟩
    rw [hopen, hfds]
    exact hreg.isOpen
  cases h with
  | poll poll _ _ => exact hreg.quiet rfl (by simp [ClosesNothing])
  | touch hslot hfd _ => exact hreg.quiet (fds_setClient hslot hfd) (by simp [ClosesNothing])
  | serve hslot _ _ => exact hreg.quiet (fds_setClient hslot rfl) hone
  | ping now hslot _ _ => exact hreg.quiet (fds_setClient hslot rfl) hone
  | rekill hslot _ _ _ => exact hreg.quiet (fds_setClient hslot rfl) hone
  | @enter c c' f status w w' out now hf hrun hstatus =>
    refine hreg.register hs (c := c.admitted c' status now) hfresh.1 ?_
      (ClosesNothing.registerEvents (by simp [ClosesNothing, socketMove]) s c.fd)
    have hregister : ∀ e ∈ s.registerEvents (ε := ε) c.fd, socketMove e ≠ .lose c.fd :=
      ClosesNothing.registerEvents (u := []) (by simp [ClosesNothing]) s c.fd c.fd
    rw [← List.append_assoc]
    refine mem_openSockets_append ?_ hregister
    unfold openSockets
    rw [held_append]
    exact List.mem_cons_self
  | refuse _ _ =>
    refine hundone ?_ rfl
    unfold openSockets
    rw [held_append]
    simp [heldFrom, Move.apply, socketMove]
  | drop _ _ =>
    refine hundone ?_ rfl
    unfold openSockets
    rw [held_append]
    simp [heldFrom, Move.apply, socketMove]
  | @reenter slot c c' f status w w' out now hslot hretry hf hrun hstatus =>
    have hmem : c.fd ∈ s.fds := List.mem_map_of_mem (List.mem_of_getElem? hslot)
    cases hroom : s.hasRoom with
    | true =>
      have hreentered : Reentered (.callback .onconnect s c (some status) out) :=
        ⟨hmem, hstatus, hroom⟩
      exact absurd hreentered (hre _ (by simp))
    | false =>
      refine hreg.quiet ?_ (ClosesNothing.registerEvents hone s c.fd)
      rw [hs.register_of_full (c.admitted c' status now) hroom]
      exact fds_setClient hslot rfl
  | @delete index pfd c notice hindex hpfd hclient hnotice =>
    have hfd : pfd.fd = c.fd := hs.fd_eq hindex hpfd hclient
    refine hreg.delete hclient ?_
    intro fd hne e he
    rcases List.mem_append.mp he with he | he
    · rw [socketMove_notified hnotice he]
      exact fun h => by cases h
    · simp only [List.mem_cons, List.not_mem_nil, or_false] at he
      rcases he with rfl | rfl
      · intro h
        cases h
        exact hne hfd
      · exact fun h => by cases h

/-! ## Runs -/

/-- The run lemma. -/
theorem Steps.registered {cb : Callbacks ω ε} {t : List (ConnEvent ε)} {s₀ s : Server}
    (run : Steps (Step cb) s₀ t s) (hs₀ : InSync s₀) (hempty : s₀.clients.items = [])
    (hfresh : AcceptsFresh t) (hre : ∀ e ∈ t, ¬ Reentered e) : Registered t s := by
  refine (run.invariant (fun t s => InSync s ∧
    (AcceptsFresh t → (∀ e ∈ t, ¬ Reentered e) → Registered t s)) ⟨hs₀, ?_⟩ ?_).2 hfresh hre
  · intro _ _
    have hfds : s₀.fds = [] := by simp [Server.fds, hempty]
    exact ⟨by simp [hfds], by simp [hfds]⟩
  · rintro t m u s' ⟨hm, ih⟩ hstep
    refine ⟨hstep.inSync hm, ?_⟩
    intro hfresh hre
    obtain ⟨hfresht, hfreshu⟩ := (fresh_append socketMove t u).mp hfresh
    have hreg := ih hfresht fun e he => hre e (List.mem_append_left u he)
    exact hstep.registration hm hreg hfreshu fun e he => hre e (List.mem_append_right t he)

/-- In every run of an initialised server in which `accept` is fresh and no client is
entered again, the registered descriptors are open sockets, each at one index. -/
theorem serve_registration (sys : Sys ω) (cb : Callbacks ω ε) {config : ServerConfig}
    (hmax : 1 ≤ config.max_connections) {m₀ m : Machine ω} {out : List (ConnEvent ε)}
    (hinit : conInitServer sys config m₀ = ⟨.ok 0, m, out⟩) {n : Nat}
    (hok : (serve sys cb n m).outcome = .ok ())
    (hfresh : AcceptsFresh (serve sys cb n m).out)
    (hre : ∀ e ∈ (serve sys cb n m).out, ¬ Reentered e) :
    Registration (serve sys cb n m).out (serve sys cb n m).state.server := by
  obtain ⟨-, hs, hempty, -⟩ := conInitServer_ok sys hmax hinit
  have hrun : serve sys cb n m =
      ⟨.ok (), (serve sys cb n m).state, (serve sys cb n m).out⟩ := by rw [← hok]
  have hsteps : Steps (Step cb) m.server _ (serve sys cb n m).state.server :=
    (serve_steps sys cb hs n).ok (t := []) (.refl _) hrun
  exact (Steps.registered hsteps hs hempty hfresh hre).registration (Steps.inSync hsteps hs).1

theorem serve_registration_comeAndGo :
    let r := serve Script.sys retryCallbacks 5 (startServer comeAndGo)
    Registration r.out r.state.server :=
  serve_registration Script.sys retryCallbacks one_le_threeSlots (startServer_init _)
    (by decide +kernel) (by decide +kernel) (by decide +kernel)

/-- Descriptor 4 is accepted, connected again when it becomes readable, and closed by the
deletion pass.  It stays registered. -/
theorem retry_leaves_closed_socket :
    let r := serve Script.sys retryCallbacks 2
      (startServer
        { polls := [(1, [POLLIN]), (1, [0#16, POLLIN])]
          accepts := [4]
          recvs := [some [71], some [71], some [71]] })
    r.outcome = .ok () ∧ AcceptsFresh r.out ∧ ¬ Registration r.out r.state.server := by
  refine ⟨by decide +kernel, by decide +kernel, ?_⟩
  intro h
  have hopen := h.isOpen ⟨4, POLLIN, 0#16⟩ (by decide +kernel)
  revert hopen
  decide +kernel

end NoGround
