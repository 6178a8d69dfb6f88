/-
  Conn/Tenure.lean --- who is registered at which moment of a run.

  The trace alone tells who is registered: the descriptors that were registered and not
  deleted (`registeredFds`).  In every run they are those of the client table, with their
  multiplicity.  So a callback, which is handed the table, sees exactly the clients that
  the trace up to it registers.

  Callbacks that never ask for a retry enter nobody a second time.  Then every descriptor
  is registered once, and nothing more than `AcceptsFresh` has to be assumed for it.
-/
import NoGround.Conn.Registration

set_option autoImplicit false

namespace NoGround

open NoGround.Lib

variable {ω ε : Type}

/-! ## The registry -/

/-- The registry: a registration enters a descriptor, a deletion removes it. -/
def registryMove : ConnEvent ε → Move Int
  | .registered fd => .gain fd
  | .deleted fd => .lose fd
  | _ => .idle

/-- The descriptors registered after a trace. -/
def registeredFds (t : List (ConnEvent ε)) : List Int := held registryMove t

/-- Events that do not concern the registry. -/
def Idle (u : List (ConnEvent ε)) : Prop := ∀ e ∈ u, registryMove e = .idle

theorem registeredFds_append_idle (t : List (ConnEvent ε)) {u : List (ConnEvent ε)}
    (hu : Idle u) : registeredFds (t ++ u) = registeredFds t := by
  unfold registeredFds
  rw [held_append, heldFrom_of_idle registryMove hu]

theorem registeredFds_registerEvents (t : List (ConnEvent ε)) (s : Server) (fd : Int) :
    registeredFds (t ++ s.registerEvents fd) =
      if s.hasRoom then fd :: registeredFds t else registeredFds t := by
  unfold registeredFds Server.registerEvents
  rw [held_append]
  split <;> rfl

theorem idle_notified {cb : Callbacks ω ε} {s : Server} {c : Client}
    {notice : List (ConnEvent ε)} (h : Notified cb s c notice) : Idle notice := by
  intro e he
  obtain ⟨_, _, _, _, _, _, rfl⟩ := h.mem he
  rfl

/-- **The registry is the client table.** -/
theorem Step.tenure {cb : Callbacks ω ε} {t u : List (ConnEvent ε)} {s s' : Server}
    (h : Step cb s u s') (hs : InSync s) (ht : (registeredFds t).Perm s.fds) :
    (registeredFds (t ++ u)).Perm s'.fds := by
  have hquiet : Idle u → s'.fds = s.fds → (registeredFds (t ++ u)).Perm s'.fds := by
    intro hu hfds
    rw [registeredFds_append_idle t hu, hfds]
    exact ht
  -- A registration, after events that do not concern the registry.
  have hregister : ∀ {v : List (ConnEvent ε)} (c : Client), Idle v →
      (registeredFds (t ++ (v ++ s.registerEvents c.fd))).Perm (s.register c).fds := by
    intro v c hv
    rw [← List.append_assoc, registeredFds_registerEvents, registeredFds_append_idle t hv]
    cases hroom : s.hasRoom with
    | true =>
      rw [if_pos rfl, fds_register hs hroom]
      exact (ht.cons c.fd).trans (List.perm_append_singleton c.fd s.fds).symm
    | false =>
      rw [if_neg (by simp), hs.register_of_full c hroom]
      exact ht
  cases h with
  | poll poll _ _ => exact hquiet (by simp [Idle]) rfl
  | touch hslot hfd _ => exact hquiet (by simp [Idle]) (fds_setClient hslot hfd)
  | serve hslot _ _ => exact hquiet (by simp [Idle, registryMove]) (fds_setClient hslot rfl)
  | ping now hslot _ _ =>
    exact hquiet (by simp [Idle, registryMove]) (fds_setClient hslot rfl)
  | rekill hslot _ _ _ =>
    exact hquiet (by simp [Idle, registryMove]) (fds_setClient hslot rfl)
  | refuse _ _ => exact hquiet (by simp [Idle, registryMove]) rfl
  | drop fd _ => exact hquiet (by simp [Idle, registryMove]) rfl
  | @enter c c' f status w w' out now hf hrun hstatus =>
    exact hregister (c.admitted c' status now) (by simp [Idle, registryMove])
  | @reenter slot c c' f status w w' out now hslot hretry hf hrun hstatus =>
    have hkept := getElem?_register (c.admitted c' status now) hslot
    rw [fds_setClient hkept (show (c.admitted c' status now).fd = c.fd from rfl)]
    exact hregister (c.admitted c' status now) (by simp [Idle, registryMove])
  | @delete index pfd c notice hindex hpfd hclient hnotice =>
    have hfd : pfd.fd = c.fd := hs.fd_eq hindex hpfd hclient
    have hslot : s.fds[index - 1]? = some c.fd := by
      simp [Server.fds, List.getElem?_map, hclient]
    have herase : registeredFds (t ++ (notice ++ [.closed pfd.fd, .deleted pfd.fd])) =
        (registeredFds t).erase c.fd := by
      rw [← List.append_assoc, ← registeredFds_append_idle t (idle_notified hnotice), ← hfd]
      unfold registeredFds
      rw [held_append registryMove (t ++ notice)]
      rfl
    rw [herase, fds_delete]
    have hperm := (swapRemove_perm hslot).symm.erase c.fd
    rw [List.erase_cons_head] at hperm
    exact (ht.erase c.fd).trans hperm

/-- In a step, only the last event can concern the registry. -/
theorem Step.idle_dropLast {cb : Callbacks ω ε} {u : List (ConnEvent ε)} {s s' : Server}
    (h : Step cb s u s') : Idle u.dropLast := by
  have hregister : ∀ {v : List (ConnEvent ε)} (fd : Int), Idle v →
      Idle (v ++ s.registerEvents fd).dropLast := by
    intro v fd hv e he
    unfold Server.registerEvents at he
    split at he
    · rw [List.dropLast_concat] at he
      exact hv e he
    · rw [List.append_nil] at he
      exact hv e ((List.dropLast_sublist v).subset he)
  cases h with
  | poll _ _ _ => simp [Idle]
  | touch _ _ _ => simp [Idle]
  | serve _ _ _ => simp [Idle]
  | ping _ _ _ _ => simp [Idle]
  | enter _ _ _ _ => exact hregister _ (by simp [Idle, registryMove])
  | refuse _ _ => simp [Idle, registryMove]
  | drop _ _ => simp [Idle, registryMove]
  | reenter _ _ _ _ _ _ => exact hregister _ (by simp [Idle, registryMove])
  | rekill _ _ _ _ => simp [Idle]
  | @delete index pfd c notice hindex hpfd hclient hnotice =>
    intro e he
    rw [List.dropLast_append_of_ne_nil (by simp)] at he
    rcases List.mem_append.mp he with he | he
    · exact idle_notified hnotice e he
    · rw [List.mem_singleton.mp he]
      rfl

/-- At every event of a step, the registry is what it was before the step. -/
theorem Step.registeredFds_before {cb : Callbacks ω ε} {s s' : Server}
    {u before after : List (ConnEvent ε)} {e : ConnEvent ε} (h : Step cb s u s')
    (heq : u = before ++ e :: after) (t : List (ConnEvent ε)) :
    registeredFds (t ++ before) = registeredFds t := by
  refine registeredFds_append_idle t fun e' he' => h.idle_dropLast e' ?_
  rw [heq, List.dropLast_append_of_ne_nil (by simp)]
  exact List.mem_append_left _ he'

/-! ## Every run -/

/-- A callback is called on a table that holds the clients registered then. -/
def CalledOn (cb : Callbacks ω ε) (before : List (ConnEvent ε)) (e : ConnEvent ε) : Prop :=
  ∃ s, CallOn cb s e ∧ (registeredFds before).Perm s.fds

theorem Steps.tenure {cb : Callbacks ω ε} {t : List (ConnEvent ε)} {s₀ s : Server}
    (run : Steps (Step cb) s₀ t s) (hs₀ : InSync s₀) (hempty : s₀.clients.items = []) :
    InSync s ∧ (registeredFds t).Perm s.fds ∧ EachEvent (CalledOn cb) t := by
  refine run.invariant (fun t s => InSync s ∧ (registeredFds t).Perm s.fds ∧
    EachEvent (CalledOn cb) t) ⟨hs₀, ?_, eachEvent_nil⟩ ?_
  · simp [Server.fds, hempty, registeredFds]
  · rintro t m u s' ⟨hm, hperm, hcalls⟩ hstep
    refine ⟨hstep.inSync hm, hstep.tenure hm hperm, eachEvent_append.mpr ⟨hcalls, ?_⟩⟩
    intro before e after heq
    refine ⟨m, hstep.callOn e (by simp [heq]), ?_⟩
    rw [hstep.registeredFds_before heq]
    exact hperm

/-- Every run of the server, halted or not, is a run of steps and perhaps one more
attempt. -/
theorem serve_split (sys : Sys ω) (cb : Callbacks ω ε) {m : Machine ω} (hs : InSync m.server)
    (n : Nat) :
    ∃ t u, (serve sys cb n m).out = t ++ u ∧
      Steps (Step cb) m.server t (serve sys cb n m).state.server ∧
      ∀ e ∈ u, CallAttempt cb (serve sys cb n m).state.server e := by
  have h := serve_steps sys cb hs n [] m (.refl _)
  unfold Proc.Post at h
  split at h
  · exact ⟨_, [], by simp, h, by simp⟩
  · exact Halted.split h

theorem CallAttempt.idle {cb : Callbacks ω ε} {s : Server} {e : ConnEvent ε}
    (h : CallAttempt cb s e) : registryMove e = .idle := by
  rcases h with ⟨fd, rfl⟩ | ⟨kind, client, out, rfl, -⟩ <;> rfl

/-- **The registry is the client table, in every run**: at its end, and whenever a
callback is called. -/
theorem serve_tenure (sys : Sys ω) (cb : Callbacks ω ε) {m : Machine ω}
    (hs : InSync m.server) (hempty : m.server.clients.items = []) (n : Nat) :
    (registeredFds (serve sys cb n m).out).Perm (serve sys cb n m).state.server.fds ∧
      EachEvent (CalledOn cb) (serve sys cb n m).out := by
  obtain ⟨t, u, hout, hsteps, hu⟩ := serve_split sys cb hs n
  obtain ⟨-, hperm, hcalls⟩ := Steps.tenure hsteps hs hempty
  have hidle : Idle u := fun e he => (hu e he).idle
  rw [hout, registeredFds_append_idle t hidle]
  refine ⟨hperm, eachEvent_append.mpr ⟨hcalls, ?_⟩⟩
  intro before e after heq
  have hbefore : Idle before := fun e' he' => hidle e' (by simp [heq, he'])
  refine ⟨_, (hu e (by simp [heq])).callOn, ?_⟩
  rw [registeredFds_append_idle t hbefore]
  exact hperm

/-! ## Nobody is entered again -/

/-- The callbacks leave no client in `CONN_RETRY`. -/
structure Callbacks.NeverRetries (cb : Callbacks ω ε) : Prop where
  onconnect : ∀ {f s c w status c' w' out}, cb.onconnect = some f →
    f s c w = ⟨.ok (status, c'), w', out⟩ → status ≠ .retry
  onping : ∀ {f s c w status c' w' out}, cb.onping = some f →
    f s c w = ⟨.ok (status, c'), w', out⟩ → status ≠ .retry
  onmessage : ∀ {f s c w status c' w' out}, cb.onmessage = some f →
    f s c w = ⟨.ok (status, c'), w', out⟩ → c.status ≠ .retry → c'.status ≠ .retry

/-- No registered client is in `CONN_RETRY`. -/
def NoRetry (s : Server) : Prop := ∀ c ∈ s.clients.items, c.status ≠ .retry

section NeverRetries

variable {cb : Callbacks ω ε} {s : Server}

theorem NoRetry.setClient (h : NoRetry s) (slot : Nat) {c : Client} (hc : c.status ≠ .retry) :
    NoRetry (s.setClient slot c) := by
  intro c' hmem
  rcases List.mem_or_eq_of_mem_set hmem with hmem | rfl
  · exact h c' hmem
  · exact hc

theorem NoRetry.register (h : NoRetry s) (hs : InSync s) {c : Client}
    (hc : c.status ≠ .retry) : NoRetry (s.register c) := by
  cases hroom : s.hasRoom with
  | true =>
    unfold NoRetry
    rw [(hs.register_of_room c hroom).2]
    exact List.forall_mem_append.mpr ⟨h, by simpa using hc⟩
  | false =>
    rw [hs.register_of_full c hroom]
    exact h

theorem Step.noRetry {s' : Server} {u : List (ConnEvent ε)} (h : Step cb s u s')
    (hcb : cb.NeverRetries) (hs : InSync s) (hno : NoRetry s) : NoRetry s' := by
  have hslot_no : ∀ {slot : Nat} {c : Client}, s.clients.items[slot]? = some c →
      c.status ≠ .retry := fun hslot => hno _ (List.mem_of_getElem? hslot)
  cases h with
  | poll _ _ _ => exact hno
  | touch hslot _ hstatus => exact hno.setClient _ (hstatus ▸ hslot_no hslot)
  | @serve slot c c' f status w w' out hslot hf hrun =>
    have hstatus : c'.status ≠ .retry := hcb.onmessage hf hrun (hslot_no hslot)
    exact hno.setClient _ hstatus
  | @ping slot c c' f status w w' out now hslot hf hrun =>
    have hstatus : status ≠ .retry := hcb.onping hf hrun
    exact hno.setClient _ hstatus
  | enter _ hf hrun _ => exact hno.register hs (hcb.onconnect hf hrun)
  | refuse _ _ => exact hno
  | drop _ _ => exact hno
  | reenter _ hslot hretry _ _ _ => exact absurd hretry (hslot_no hslot)
  | rekill hslot hretry _ _ => exact absurd hretry (hslot_no hslot)
  | delete _ _ hclient _ =>
    intro c' hmem
    exact hno c' (mem_of_mem_swapRemove hclient hmem)

/-- A fresh descriptor is not registered, so nobody is entered again. -/
theorem Step.not_reentered {s' : Server} {t u : List (ConnEvent ε)} (h : Step cb s u s')
    (hno : NoRetry s) (hreg : Registered t s) (hfresh : FreshFrom socketMove (openSockets t) u) :
    ∀ e ∈ u, ¬ Reentered e := by
  have hslot_no : ∀ {slot : Nat} {c : Client}, s.clients.items[slot]? = some c →
      c.status ≠ .retry := fun hslot => hno _ (List.mem_of_getElem? hslot)
  cases h with
  | poll _ _ _ => simp
  | touch _ _ _ => simp
  | serve _ _ _ => simp [Reentered]
  | ping _ _ _ _ => simp [Reentered]
  | @enter c c' f status w w' out now hf hrun hstatus =>
    have hnew : c.fd ∉ openSockets t := hfresh.1
    have hfd : c.fd ∉ s.fds := fun hmem => hnew (hreg.isOpen _ hmem)
    intro e he
    rcases List.mem_append.mp he with he | he
    · simp only [List.mem_cons, List.not_mem_nil, or_false] at he
      rcases he with rfl | rfl
      · exact not_false
      · exact fun hre => hfd hre.1
    · rw [mem_registerEvents he]
      exact not_false
  | refuse _ _ => simp [Reentered]
  | drop _ _ => simp [Reentered]
  | reenter _ hslot hretry _ _ _ => exact absurd hretry (hslot_no hslot)
  | rekill hslot hretry _ _ => exact absurd hretry (hslot_no hslot)
  | @delete index pfd c notice hindex hpfd hclient hnotice =>
    intro e he
    rcases List.mem_append.mp he with he | he
    · obtain ⟨_, _, _, _, _, _, rfl⟩ := hnotice.mem he
      exact not_false
    · simp only [List.mem_cons, List.not_mem_nil, or_false] at he
      rcases he with rfl | rfl <;> exact not_false

theorem Steps.once {t : List (ConnEvent ε)} {s₀ : Server} (run : Steps (Step cb) s₀ t s)
    (hcb : cb.NeverRetries) (hs₀ : InSync s₀) (hempty : s₀.clients.items = [])
    (hfresh : AcceptsFresh t) :
    Registered t s ∧ EachEvent (fun before _ => (registeredFds before).Nodup) t := by
  refine (run.invariant (fun t s => InSync s ∧ NoRetry s ∧ (registeredFds t).Perm s.fds ∧
    (AcceptsFresh t → Registered t s ∧
      EachEvent (fun before _ => (registeredFds before).Nodup) t))
    ⟨hs₀, ?_, ?_, ?_⟩ ?_).2.2.2 hfresh
  · simp [NoRetry, hempty]
  · simp [Server.fds, hempty, registeredFds]
  · intro _
    have hfds : s₀.fds = [] := by simp [Server.fds, hempty]
    exact ⟨⟨by simp [hfds], by simp [hfds]⟩, eachEvent_nil⟩
  · rintro t m u s' ⟨hm, hno, hperm, ih⟩ hstep
    refine ⟨hstep.inSync hm, hstep.noRetry hcb hm hno, hstep.tenure hm hperm, ?_⟩
    intro hfresh
    obtain ⟨hfresht, hfreshu⟩ := (fresh_append socketMove t u).mp hfresh
    obtain ⟨hreg, hnodup⟩ := ih hfresht
    refine ⟨hstep.registration hm hreg hfreshu (hstep.not_reentered hno hreg hfreshu),
      eachEvent_append.mpr ⟨hnodup, ?_⟩⟩
    intro before e after heq
    rw [hstep.registeredFds_before heq]
    exact hperm.nodup_iff.mpr hreg.once

/-- **Once each.**  With callbacks that never ask for a retry and a fresh `accept`, no
descriptor is registered twice at any moment of any run. -/
theorem serve_once (sys : Sys ω) (hcb : cb.NeverRetries) {m : Machine ω}
    (hs : InSync m.server) (hempty : m.server.clients.items = []) {n : Nat}
    (hfresh : AcceptsFresh (serve sys cb n m).out) :
    EachEvent (fun before _ => (registeredFds before).Nodup) (serve sys cb n m).out := by
  obtain ⟨t, u, hout, hsteps, hu⟩ := serve_split sys cb hs n
  rw [hout] at hfresh ⊢
  obtain ⟨hfresht, -⟩ := (fresh_append socketMove t u).mp hfresh
  obtain ⟨hreg, hnodup⟩ := Steps.once hsteps hcb hs hempty hfresht
  obtain ⟨-, hperm, -⟩ := Steps.tenure hsteps hs hempty
  refine eachEvent_append.mpr ⟨hnodup, ?_⟩
  intro before e after heq
  rw [registeredFds_append_idle t fun e' he' => (hu e' (by simp [heq, he'])).idle]
  exact hperm.nodup_iff.mpr hreg.once

end NeverRetries

end NoGround
