/-
  Conn/Leaks.lean --- what becomes of a connection that was accepted.

  A connection should be in both tables at the end of the call that accepted it, or closed.
  `conHandleConnect` enters it with two pushes and returns the answer of `onconnect`
  whether or not they found room; so a connection that is admitted when the tables are full
  is in neither table, and nothing closes it any more.

  `FoundRoom` is the exact condition: in one call, no connection is leaked if and only if
  every connection that was admitted found room.
-/
import NoGround.Conn.Emits
import NoGround.Conn.Registration

set_option autoImplicit false

namespace NoGround

open NoGround.Lib

variable {ω ε : Type}

/-! ## Leaks -/

/-- The connection is in both tables, or it was closed. -/
def Accounted (s : Server) (fd : Int) (after : List (ConnEvent ε)) : Prop :=
  (∃ pfd ∈ s.poll.items.tail, pfd.fd = fd) ∧ (∃ c ∈ s.clients.items, c.fd = fd) ∨
    .closed fd ∈ after

/-- **No leak**: every connection that was accepted in the trace is accounted for at its
end. -/
def NoLeak (t : List (ConnEvent ε)) (s : Server) : Prop :=
  ∀ before fd after, t = before ++ .accepted fd :: after → Accounted s fd after

/-- A client that is not registered, and that `onconnect` did not kill, finds room. -/
def FoundRoom : ConnEvent ε → Prop
  | .callback .onconnect s c (some status) _ =>
      c.fd ∉ s.fds → status ≠ .kill → s.hasRoom = true
  | _ => True

instance (e : ConnEvent ε) : Decidable (FoundRoom e) :=
  match e with
  | .callback .onconnect s c (some status) _ =>
      inferInstanceAs (Decidable (c.fd ∉ s.fds → status ≠ .kill → s.hasRoom = true))
  | .callback .onconnect _ _ none _ | .callback .onmessage _ _ _ _ | .callback .onping _ _ _ _
  | .callback .ondisconnect _ _ _ _ | .accepted _ | .registered _ | .closed _ | .deleted _ =>
      .isTrue trivial

/-- The same over the descriptors of the client table. -/
def Settled (s : Server) (e : ConnEvent ε) (after : List (ConnEvent ε)) : Prop :=
  ∀ fd, e = .accepted fd → fd ∈ s.fds ∨ .closed fd ∈ after

theorem noLeak_iff {s : Server} (hs : InSync s) {t : List (ConnEvent ε)} :
    NoLeak t s ↔ EachSince (Settled s) t := by
  have htables : ∀ fd : Int, (∃ pfd ∈ s.poll.items.tail, pfd.fd = fd) ∧
      (∃ c ∈ s.clients.items, c.fd = fd) ↔ fd ∈ s.fds := by
    intro fd
    have hpoll : s.poll.items.tail.map (·.fd) = s.fds := by
      rw [List.map_tail, hs.fds]
      rfl
    rw [← List.mem_map, ← List.mem_map, hpoll]
    exact and_self_iff
  unfold NoLeak Accounted EachSince Settled
  constructor
  · intro h before e after heq fd he
    subst he
    rw [← htables fd]
    exact h before fd after heq
  · intro h before fd after heq
    rw [htables fd]
    exact h before _ after heq fd rfl

/-! ## Steps -/

section Steps

variable {cb : Callbacks ω ε} {s s' : Server} {t u : List (ConnEvent ε)}

/-- A registered descriptor stays registered, or is closed. -/
theorem Step.kept (h : Step cb s u s') (hs : InSync s) {fd : Int} (hfd : fd ∈ s.fds) :
    fd ∈ s'.fds ∨ .closed fd ∈ u := by
  have hregister : ∀ c : Client, fd ∈ (s.register c).fds := by
    intro c
    cases hroom : s.hasRoom with
    | true =>
      rw [fds_register hs hroom]
      exact List.mem_append_left _ hfd
    | false =>
      rw [hs.register_of_full c hroom]
      exact hfd
  have hset : ∀ {slot : Nat} {c c' : Client}, s.clients.items[slot]? = some c → c'.fd = c.fd →
      fd ∈ (s.setClient slot c').fds := by
    intro slot c c' hslot heq
    rw [fds_setClient hslot heq]
    exact hfd
  cases h with
  | poll _ _ _ => exact .inl hfd
  | touch hslot heq _ => exact .inl (hset hslot heq)
  | serve hslot _ _ => exact .inl (hset hslot rfl)
  | ping now hslot _ _ => exact .inl (hset hslot rfl)
  | enter _ _ _ _ => exact .inl (hregister _)
  | refuse _ _ => exact .inl hfd
  | drop _ _ => exact .inl hfd
  | @reenter slot c c' f status w w' out now hslot hretry hf hrun hstatus =>
    have hkept := getElem?_register (c.admitted c' status now) hslot
    rw [fds_setClient hkept (show (c.admitted c' status now).fd = c.fd from rfl)]
    exact .inl (hregister _)
  | rekill hslot _ _ _ => exact .inl (hset hslot rfl)
  | @delete index pfd c notice hindex hpfd hclient hnotice =>
    have heq : pfd.fd = c.fd := hs.fd_eq hindex hpfd hclient
    have hslot : s.fds[index - 1]? = some c.fd := by
      simp [Server.fds, List.getElem?_map, hclient]
    rcases List.mem_cons.mp ((swapRemove_perm hslot).symm.subset hfd) with rfl | hmem
    · exact .inr (by simp [heq])
    · exact .inl (fds_delete index ▸ hmem)

theorem settled_of_notAccepted (hu : ∀ e ∈ u, NotAccepted e) : EachSince (Settled s') u := by
  intro before e after heq fd he
  have hmem : e ∈ u := by simp [heq]
  subst he
  exact absurd (hu _ hmem) (not_notAccepted fd)

/-- A connection that is accepted is entered or closed, if it finds room. -/
theorem Step.settled (h : Step cb s u s') (hs : InSync s) (hroom : ∀ e ∈ u, FoundRoom e) :
    EachSince (Settled s') u := by
  have hregister : ∀ fd, ∀ e ∈ s.registerEvents (ε := ε) fd, NotAccepted e := by
    intro fd e he
    rw [mem_registerEvents he]
    trivial
  cases h with
  | poll _ _ _ => exact eachSince_nil
  | touch _ _ _ => exact eachSince_nil
  | serve _ _ _ => exact settled_of_notAccepted (by simp [NotAccepted])
  | ping _ _ _ _ => exact settled_of_notAccepted (by simp [NotAccepted])
  | @enter c c' f status w w' out now hf hrun hstatus =>
    have hfound : FoundRoom (.callback .onconnect s c (some status) out) :=
      hroom _ (by simp)
    refine eachSince_cons.mpr ⟨?_, settled_of_notAccepted ?_⟩
    · intro fd heq
      cases heq
      refine .inl ?_
      cases hr : s.hasRoom with
      | true =>
        rw [fds_register hs hr]
        exact List.mem_append_right _ List.mem_cons_self
      | false =>
        rw [hs.register_of_full _ hr]
        by_contra hfd
        rw [hfound hfd hstatus] at hr
        cases hr
    · exact List.forall_mem_cons.mpr ⟨trivial, hregister c.fd⟩
  | refuse _ _ =>
    refine eachSince_cons.mpr ⟨?_, settled_of_notAccepted (by simp [NotAccepted])⟩
    intro fd heq
    cases heq
    exact .inr (by simp)
  | drop _ _ =>
    refine eachSince_cons.mpr ⟨?_, settled_of_notAccepted (by simp [NotAccepted])⟩
    intro fd heq
    cases heq
    exact .inr (by simp)
  | @reenter slot c c' f status w w' out now _ _ _ _ _ =>
    refine settled_of_notAccepted ?_
    exact List.forall_mem_append.mpr ⟨by simp [NotAccepted], hregister c.fd⟩
  | rekill _ _ _ _ => exact settled_of_notAccepted (by simp [NotAccepted])
  | delete _ _ _ hnotice =>
    refine settled_of_notAccepted (List.forall_mem_append.mpr ⟨?_, by simp [NotAccepted]⟩)
    intro e he
    obtain ⟨_, _, _, _, _, _, rfl⟩ := hnotice.mem he
    trivial

/-- The run lemma: if everybody finds room, every connection stays accounted for. -/
theorem Steps.settled {s₀ : Server} (run : Steps (Step cb) s₀ t s) (hs₀ : InSync s₀)
    (hroom : ∀ e ∈ t, FoundRoom e) : EachSince (Settled s) t := by
  refine (run.invariant (fun t s => InSync s ∧ ((∀ e ∈ t, FoundRoom e) →
    EachSince (Settled s) t)) ⟨hs₀, fun _ => eachSince_nil⟩ ?_).2 hroom
  rintro t m u s' ⟨hm, ih⟩ hstep
  refine ⟨hstep.inSync hm, ?_⟩
  intro hroom
  obtain ⟨hroomt, hroomu⟩ := List.forall_mem_append.mp hroom
  refine eachSince_append.mpr ⟨?_, hstep.settled hm hroomu⟩
  refine (ih hroomt).imp fun e _ after hsettled fd heq => ?_
  rcases hsettled fd heq with hfd | hclosed
  · exact (hstep.kept hm hfd).imp_right (List.mem_append_right after)
  · exact .inr (List.mem_append_left u hclosed)

/-! ## A leak lasts -/

/-- A connection was admitted that is not registered and found no room. -/
def Leaks (e : ConnEvent ε) (fd : Int) : Prop :=
  ∃ s c status out, e = .callback .onconnect s c (some status) out ∧ c.fd = fd ∧
    c.fd ∉ s.fds ∧ status ≠ .kill ∧ s.hasRoom = false

theorem leaks_of_not_foundRoom {e : ConnEvent ε} (h : ¬ FoundRoom e) : ∃ fd, Leaks e fd := by
  unfold FoundRoom at h
  split at h
  · rename_i s c status out
    simp only [not_forall, Bool.not_eq_true] at h
    obtain ⟨hfd, hstatus, hroom⟩ := h
    exact ⟨c.fd, s, c, status, out, rfl, rfl, hfd, hstatus, hroom⟩
  · exact absurd trivial h

/-- A descriptor that is in no table is entered only if it is accepted, and closed only
then. -/
theorem Step.unregistered (h : Step cb s u s') (hs : InSync s) {fd : Int} (hfd : fd ∉ s.fds)
    (hu : ∀ e ∈ u, NotAccepted e) : fd ∉ s'.fds ∧ .closed fd ∉ u := by
  have hset : ∀ {slot : Nat} {c c' : Client}, s.clients.items[slot]? = some c → c'.fd = c.fd →
      fd ∉ (s.setClient slot c').fds := by
    intro slot c c' hslot heq
    rw [fds_setClient hslot heq]
    exact hfd
  cases h with
  | poll _ _ _ => exact ⟨hfd, by simp⟩
  | touch hslot heq _ => exact ⟨hset hslot heq, by simp⟩
  | serve hslot _ _ => exact ⟨hset hslot rfl, by simp⟩
  | ping now hslot _ _ => exact ⟨hset hslot rfl, by simp⟩
  | @enter c c' f status w w' out now _ _ _ =>
    exact absurd (hu (.accepted c.fd) (by simp)) (not_notAccepted c.fd)
  | @refuse c c' f w w' out _ _ =>
    exact absurd (hu (.accepted c.fd) (by simp)) (not_notAccepted c.fd)
  | drop fd' _ => exact absurd (hu (.accepted fd') (by simp)) (not_notAccepted fd')
  | @reenter slot c c' f status w w' out now hslot hretry hf hrun hstatus =>
    have hkept := getElem?_register (c.admitted c' status now) hslot
    have hmem : c.fd ∈ s.fds := List.mem_map_of_mem (List.mem_of_getElem? hslot)
    refine ⟨?_, ?_⟩
    · rw [fds_setClient hkept (show (c.admitted c' status now).fd = c.fd from rfl)]
      cases hr : s.hasRoom with
      | true =>
        rw [fds_register hs hr, List.mem_append, List.mem_singleton]
        rintro (hold | hnew)
        · exact hfd hold
        · exact hfd (hnew ▸ hmem)
      | false =>
        rw [hs.register_of_full _ hr]
        exact hfd
    · intro hclosed
      rcases List.mem_append.mp hclosed with hclosed | hclosed
      · simp at hclosed
      · cases mem_registerEvents hclosed
  | rekill hslot _ _ _ => exact ⟨hset hslot rfl, by simp⟩
  | @delete index pfd c notice hindex hpfd hclient hnotice =>
    have heq : pfd.fd = c.fd := hs.fd_eq hindex hpfd hclient
    have hmem : c.fd ∈ s.fds := List.mem_map_of_mem (List.mem_of_getElem? hclient)
    have hslot : s.fds[index - 1]? = some c.fd := by
      simp [Server.fds, List.getElem?_map, hclient]
    refine ⟨?_, ?_⟩
    · rw [fds_delete]
      exact fun hfd' => hfd (mem_of_mem_swapRemove hslot hfd')
    · intro hclosed
      rcases List.mem_append.mp hclosed with hclosed | hclosed
      · obtain ⟨_, _, _, _, _, _, hnotified⟩ := hnotice.mem hclosed
        cases hnotified
      · simp only [List.mem_cons, ConnEvent.closed.injEq, reduceCtorEq, List.not_mem_nil,
          or_false] at hclosed
        rw [hclosed, heq] at hfd
        exact hfd hmem

/-- A connection that was leaked is registered nowhere, and not closed, until its descriptor
is accepted again. -/
def Lost (s : Server) (e : ConnEvent ε) (after : List (ConnEvent ε)) : Prop :=
  ∀ fd, Leaks e fd → (∀ e' ∈ after, NotAccepted e') → fd ∉ s.fds ∧ .closed fd ∉ after

/-- Only a connection that has just been accepted is leaked, and then the tables stay. -/
theorem Step.leaks (h : Step cb s u s') (hs : InSync s) {e : ConnEvent ε} (he : e ∈ u) {fd : Int}
    (hleak : Leaks e fd) : fd ∉ s.fds ∧ s' = s ∧ u = [.accepted fd, e] := by
  obtain ⟨s₁, c₁, status₁, out₁, rfl, rfl, hfd, hkill, hroom⟩ := hleak
  cases h with
  | poll _ _ _ => cases he
  | touch _ _ _ => cases he
  | serve _ _ _ => simp at he
  | ping _ _ _ _ => simp at he
  | @enter c c' f status w w' out now hf hrun hstatus =>
    have hevents : ∀ r : Bool, s.hasRoom = r → r = false →
        s.registerEvents (ε := ε) c.fd = [] := by
      intro r hr hfalse
      unfold Server.registerEvents
      rw [hr, hfalse]
      rfl
    rcases List.mem_append.mp he with he | he
    · simp only [List.mem_cons, reduceCtorEq, ConnEvent.callback.injEq, List.not_mem_nil, or_false,
        false_or, true_and] at he
      obtain ⟨rfl, rfl, -, rfl⟩ := he
      refine ⟨hfd, hs.register_of_full _ hroom, ?_⟩
      rw [hevents _ hroom rfl]
      simp_all
    · cases mem_registerEvents he
  | refuse _ _ => simp_all
  | drop _ _ => simp at he
  | @reenter slot c c' f status w w' out now hslot hretry hf hrun hstatus =>
    rcases List.mem_append.mp he with he | he
    · simp only [List.mem_singleton, ConnEvent.callback.injEq, true_and] at he
      obtain ⟨rfl, rfl, -, -⟩ := he
      exact absurd (List.mem_map_of_mem (List.mem_of_getElem? hslot)) hfd
    · cases mem_registerEvents he
  | rekill _ _ _ _ => simp_all
  | delete _ _ _ hnotice =>
    rcases List.mem_append.mp he with he | he
    · obtain ⟨_, _, _, _, _, _, hnotified⟩ := hnotice.mem he
      cases hnotified
    · simp at he

/-- A leak is preceded by the connection it concerns. -/
def LeakedAtOnce (before : List (ConnEvent ε)) (e : ConnEvent ε) : Prop :=
  ∀ fd, Leaks e fd → ∃ earlier, before = earlier ++ [.accepted fd]

theorem Step.leakedAtOnce (h : Step cb s u s') (hs : InSync s) :
    EachEvent LeakedAtOnce u := by
  intro before e after heq fd hleak
  obtain ⟨-, -, hu⟩ := h.leaks hs (show e ∈ u by simp [heq]) hleak
  rw [hu] at heq
  cases before with
  | nil =>
    obtain ⟨rfl, -⟩ := List.cons.inj heq
    obtain ⟨_, _, _, _, hcallback, -⟩ := hleak
    cases hcallback
  | cons e' before =>
    obtain ⟨rfl, hrest⟩ := List.cons.inj heq
    cases before with
    | nil => exact ⟨[], rfl⟩
    | cons e'' before => simp at hrest

theorem Step.lost (h : Step cb s u s') (hs : InSync s) : EachSince (Lost s') u := by
  intro before e after heq fd hleak hafter
  obtain ⟨hfd, rfl, hu⟩ := h.leaks hs (show e ∈ u by simp [heq]) hleak
  refine ⟨hfd, ?_⟩
  rw [hu] at heq
  intro hclosed
  have hmem : ConnEvent.closed fd ∈ [.accepted fd, e] := by
    rw [heq]
    exact List.mem_append_right _ (List.mem_cons_of_mem _ hclosed)
  obtain ⟨_, _, _, _, rfl, -⟩ := hleak
  simp at hmem

/-- The run lemma: a leak follows its connection, and lasts. -/
theorem Steps.lost {s₀ : Server} (run : Steps (Step cb) s₀ t s) (hs₀ : InSync s₀) :
    EachEvent LeakedAtOnce t ∧ EachSince (Lost s) t := by
  refine (run.invariant (fun t s => InSync s ∧ EachEvent LeakedAtOnce t ∧
    EachSince (Lost s) t) ⟨hs₀, eachEvent_nil, eachSince_nil⟩ ?_).2
  rintro t m u s' ⟨hm, honce, hlost⟩ hstep
  refine ⟨hstep.inSync hm, eachEvent_append.mpr ⟨honce, ?_⟩,
    eachSince_append.mpr ⟨?_, hstep.lost hm⟩⟩
  · intro before e after heq fd hleak
    obtain ⟨earlier, rfl⟩ := hstep.leakedAtOnce hm before e after heq fd hleak
    exact ⟨t ++ earlier, (List.append_assoc _ _ _).symm⟩
  · refine hlost.imp fun e _ after hsince fd hleak hafter => ?_
    obtain ⟨haftert, hafteru⟩ := List.forall_mem_append.mp hafter
    obtain ⟨hfd, hclosed⟩ := hsince fd hleak haftert
    obtain ⟨hfd', hclosed'⟩ := hstep.unregistered hm hfd hafteru
    refine ⟨hfd', ?_⟩
    intro hmem
    rcases List.mem_append.mp hmem with hmem | hmem
    · exact hclosed hmem
    · exact hclosed' hmem

end Steps

/-! ## Every call of every run -/

/-- Tables in step: a call leaks no connection exactly if every connection that was
admitted in it found room. -/
theorem conPollEvents_noLeak_iff (sys : Sys ω) (cb : Callbacks ω ε) {m m' : Machine ω}
    {t : List (ConnEvent ε)} (hs : InSync m.server)
    (hcall : conPollEvents sys cb m = ⟨.ok (), m', t⟩) :
    NoLeak t m'.server ↔ ∀ e ∈ t, FoundRoom e := by
  have hsteps : Steps (Step cb) m.server t m'.server :=
    (conPollEvents_steps sys cb hs).ok (t := []) (.refl _) hcall
  rw [noLeak_iff (Steps.inSync hsteps hs).1]
  refine ⟨?_, Steps.settled hsteps hs⟩
  intro hnoleak e he
  by_contra hroom
  obtain ⟨fd, hleak⟩ := leaks_of_not_foundRoom hroom
  obtain ⟨honce, hlost⟩ := Steps.lost hsteps hs
  obtain ⟨before, after, heq⟩ := List.append_of_mem he
  obtain ⟨earlier, rfl⟩ := honce before e after heq fd hleak
  -- This was the one connection of the call.
  have hafter : ∀ e' ∈ after, NotAccepted e' := by
    have hfirst := conPollEvents_acceptsFirst sys cb m
    rw [hcall, heq] at hfirst
    rcases hfirst with hnone | ⟨fd', u, hcons, hrest⟩
    · exact absurd (hnone (.accepted fd) (by simp)) (not_notAccepted fd)
    · cases earlier with
      | nil =>
        obtain ⟨-, rfl⟩ := List.cons.inj hcons
        intro e' he'
        exact hrest e' (by simp [he'])
      | cons e' earlier =>
        obtain ⟨-, rfl⟩ := List.cons.inj hcons
        exact absurd (hrest (.accepted fd) (by simp)) (not_notAccepted fd)
  obtain ⟨hfd, hclosed⟩ := hlost _ e after heq fd hleak hafter
  have hsettled := hnoleak earlier (.accepted fd) (e :: after) (by simpa using heq) fd rfl
  rcases hsettled with hmem | hmem
  · exact hfd hmem
  · rcases List.mem_cons.mp hmem with rfl | hmem
    · obtain ⟨_, _, _, _, hcallback, -⟩ := hleak
      cases hcallback
    · exact hclosed hmem

/-- **No leaked connection.**  After any number of calls of `conPollEvents` on an
initialised server, the next call leaks no connection exactly if every connection that was
admitted in it found room. -/
theorem serve_noLeak_iff (sys : Sys ω) (cb : Callbacks ω ε) {config : ServerConfig}
    (hmax : 1 ≤ config.max_connections) {m₀ m m₁ m₂ : Machine ω} {n : Nat}
    {t₀ t₁ t₂ : List (ConnEvent ε)} (hinit : conInitServer sys config m₀ = ⟨.ok 0, m, t₀⟩)
    (hserve : serve sys cb n m = ⟨.ok (), m₁, t₁⟩)
    (hcall : conPollEvents sys cb m₁ = ⟨.ok (), m₂, t₂⟩) :
    NoLeak t₂ m₂.server ↔ ∀ e ∈ t₂, FoundRoom e := by
  obtain ⟨-, hs, -⟩ := conInitServer_ok sys hmax hinit
  have hsteps := (serve_steps sys cb hs n).ok (t := []) (.refl _) hserve
  exact conPollEvents_noLeak_iff sys cb (Steps.inSync hsteps hs).1 hcall

/-- A server with room for two, after one call, or two or three, with a new client in
each. -/
def afterClients (n : Nat) : Result Halt (Machine Script) (ConnEvent Unit) Unit :=
  serve Script.sys (constantCallbacks .keepAlive) n
    (startServer
      { polls := List.replicate 3 (1, [POLLIN])
        accepts := [4, 5, 6] })

theorem afterClients_inSync (n : Nat) : InSync (afterClients n).state.server := by
  unfold afterClients
  refine (serve_inSync Script.sys (constantCallbacks .keepAlive) ?_ n).1
  exact (conInitServer_ok Script.sys one_le_threeSlots (startServer_init (ε := Unit) _)).2.1

theorem serve_noLeak_iff_second_client :
    let r := conPollEvents Script.sys (constantCallbacks (ε := Unit) .keepAlive)
      (afterClients 1).state
    NoLeak r.out r.state.server ↔ ∀ e ∈ r.out, FoundRoom e :=
  serve_noLeak_iff Script.sys (constantCallbacks .keepAlive) one_le_threeSlots
    (startServer_init _) (Result.eq_ok (r := afterClients 1) (by decide +kernel))
    (Result.eq_ok (by decide +kernel))

/-- The third client is admitted by `onconnect`; its descriptor 6 is in neither table, and
not closed. -/
theorem third_client_leaks :
    let r := conPollEvents Script.sys (constantCallbacks (ε := Unit) .keepAlive)
      (afterClients 2).state
    (afterClients 2).outcome = .ok () ∧ r.outcome = .ok () ∧ ¬ NoLeak r.out r.state.server := by
  have hreturns : (conPollEvents Script.sys (constantCallbacks (ε := Unit) .keepAlive)
      (afterClients 2).state).outcome = .ok () := by decide +kernel
  refine ⟨by decide +kernel, hreturns, ?_⟩
  rw [conPollEvents_noLeak_iff Script.sys _ (afterClients_inSync 2)
    (Result.eq_ok hreturns)]
  decide +kernel

end NoGround
