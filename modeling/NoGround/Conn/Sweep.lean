/-
  Conn/Sweep.lean --- the deletion pass.

  An entry is a client with its entry of the poll table.  The pass walks over the entries
  while it moves the last one into every gap, and looks again at an index it has filled.
  What it leaves are the entries that are not dead, in some order: `Swept` is the invariant,
  and says that the entries still there and those already removed are together the entries
  the pass began with, and that the ones before the index are alive.

  Each entry that is removed is closed once and, if there is an `ondisconnect`, reported once.
-/
import NoGround.Conn.Refine

set_option autoImplicit false

namespace NoGround

open NoGround.Lib

variable {ω ε : Type}

/-! ## Entries -/

/-- The clients, each with its entry of the poll table. -/
def Server.entries (s : Server) : List (PollFd × Client) :=
  s.poll.items.tail.zip s.clients.items

/-- The deletion pass removes the entry. -/
def Dead (entry : PollFd × Client) : Prop := entry.1.events = 0#16 ∨ entry.2.status = .kill

instance (entry : PollFd × Client) : Decidable (Dead entry) := by
  unfold Dead
  infer_instance

section Entries

variable {s : Server}

theorem InSync.length_tail (h : InSync s) :
    s.poll.items.tail.length = s.clients.items.length := by
  have hlen : s.poll.items.length = s.clients.items.length + 1 := h.poll_len
  rw [List.length_tail]
  omega

theorem InSync.map_fst_entries (h : InSync s) : s.entries.map Prod.fst = s.poll.items.tail :=
  List.map_fst_zip h.length_tail.le

theorem InSync.map_snd_entries (h : InSync s) : s.entries.map Prod.snd = s.clients.items :=
  List.map_snd_zip h.length_tail.ge

theorem InSync.length_entries (h : InSync s) : s.poll.len = s.entries.length + 1 := by
  have hlen := congrArg List.length h.map_snd_entries
  rw [List.length_map] at hlen
  have hpoll := h.poll_len
  unfold Table.len at hpoll ⊢
  omega

/-- The descriptors of the clients, entry by entry. -/
theorem InSync.fds_eq_entries (h : InSync s) : s.fds = s.entries.map (·.2.fd) := by
  unfold Server.fds
  rw [← h.map_snd_entries, List.map_map]
  rfl

/-- An index into both tables is an index into the entries. -/
theorem getElem?_entries {index : Nat} {pfd : PollFd} {c : Client} (hindex : 1 ≤ index)
    (hpfd : s.poll.items[index]? = some pfd) (hc : s.clients.items[index - 1]? = some c) :
    s.entries[index - 1]? = some (pfd, c) := by
  have htail : s.poll.items.tail[index - 1]? = some pfd := by
    rw [List.getElem?_tail, show index - 1 + 1 = index by omega]
    exact hpfd
  rw [Server.entries, List.getElem?_zip_eq_some]
  exact ⟨htail, hc⟩

/-- Entries with the same halves are the same. -/
theorem entries_of_maps {entries : List (PollFd × Client)}
    (hpoll : s.poll.items.tail = entries.map Prod.fst)
    (hclients : s.clients.items = entries.map Prod.snd) : s.entries = entries :=
  (List.zip_of_prod hpoll.symm hclients.symm).symm

theorem entries_delete (h : InSync s) {index : Nat} {pfd : PollFd} (hindex : 1 ≤ index)
    (hpfd : s.poll.items[index]? = some pfd) :
    (s.delete index).entries = swapRemove s.entries (index - 1) := by
  obtain ⟨hlt, -⟩ := List.getElem?_eq_some_iff.mp hpfd
  refine entries_of_maps ?_ ?_
  · show (swapRemove s.poll.items index).tail = _
    rw [tail_swapRemove hindex hlt, map_swapRemove, h.map_fst_entries]
  · show swapRemove s.clients.items (index - 1) = _
    rw [map_swapRemove, h.map_snd_entries]

end Entries

/-! ## What the trace says of a removal -/

/-- The descriptors that were closed. -/
def closedFds (t : List (ConnEvent ε)) : List Int :=
  t.filterMap fun
    | .closed fd => some fd
    | _ => none

/-- The descriptors of the clients that `ondisconnect` was called for. -/
def reportedFds (t : List (ConnEvent ε)) : List Int :=
  t.filterMap fun
    | .callback .ondisconnect _ c _ _ => some c.fd
    | _ => none

theorem closedFds_append (t u : List (ConnEvent ε)) :
    closedFds (t ++ u) = closedFds t ++ closedFds u :=
  List.filterMap_append

theorem reportedFds_append (t u : List (ConnEvent ε)) :
    reportedFds (t ++ u) = reportedFds t ++ reportedFds u :=
  List.filterMap_append

/-- One report for each of the entries, if there is an `ondisconnect`. -/
def Callbacks.reports (cb : Callbacks ω ε) (removed : List (PollFd × Client)) : List Int :=
  match cb.ondisconnect with
  | none => []
  | some _ => removed.map (·.2.fd)

theorem Callbacks.reports_append (cb : Callbacks ω ε) (l l' : List (PollFd × Client)) :
    cb.reports (l ++ l') = cb.reports l ++ cb.reports l' := by
  unfold reports
  split
  · rfl
  · exact List.map_append

section Removal

variable {cb : Callbacks ω ε} {s : Server} {c : Client} {notice : List (ConnEvent ε)}

theorem Notified.closedFds (h : Notified cb s c notice) : closedFds notice = [] := by
  unfold Notified at h
  split at h
  · rw [h]
    rfl
  · obtain ⟨_, _, _, _, rfl⟩ := h
    rfl

theorem Notified.reportedFds (h : Notified cb s c notice) (pfd : PollFd) :
    reportedFds notice = cb.reports [(pfd, c)] := by
  unfold Notified at h
  unfold Callbacks.reports
  cases hf : cb.ondisconnect with
  | none =>
    rw [hf] at h
    rw [h]
    rfl
  | some f =>
    rw [hf] at h
    obtain ⟨_, _, _, _, rfl⟩ := h
    rfl

/-- Some call of `ondisconnect` halts with `e`. -/
def Callbacks.ReportHalts (cb : Callbacks ω ε) (e : Halt) : Prop :=
  ∃ f s c w w' out, cb.ondisconnect = some f ∧ f s c w = ⟨.error e, w', out⟩

/-- Removing an entry: its events, and the tables without it. -/
theorem deleteConnection_run (sys : Sys ω) (cb : Callbacks ω ε) (index : Nat) (pfd : PollFd)
    (c : Client) (m : Machine ω) :
    (∃ w notice, deleteConnection sys cb index pfd c m =
        ⟨.ok (), ⟨m.server.delete index, w⟩, notice ++ [.closed pfd.fd, .deleted pfd.fd]⟩ ∧
      Notified cb m.server c notice) ∨
    ∃ e, (deleteConnection sys cb index pfd c m).outcome = .error e ∧ cb.ReportHalts e := by
  obtain ⟨r, w, out, hr, hok, herror⟩ := notifyDisconnect_run cb c m
  unfold deleteConnection
  cases r with
  | error e =>
    rw [Proc.bind_run_error hr]
    obtain ⟨f, w', out', hf, hcall, -⟩ := herror e rfl
    exact .inr ⟨e, rfl, f, _, _, _, _, _, hf, hcall⟩
  | ok u =>
    rw [Proc.bind_run_ok hr, Proc.bind_run_ok (close_run sys _ _)]
    exact .inl ⟨_, out, rfl, hok rfl⟩

end Removal

/-! ## The pass -/

/-- The pass has reached the entry `index`, and has removed the entries `removed`. -/
structure Swept (cb : Callbacks ω ε) (entries : List (PollFd × Client)) (index : Nat)
    (t : List (ConnEvent ε)) (s : Server) (removed : List (PollFd × Client)) : Prop where
  inSync : InSync s
  perm : (s.entries ++ removed).Perm entries
  dead : ∀ entry ∈ removed, Dead entry
  alive : ∀ entry ∈ s.entries.take (index - 1), ¬ Dead entry
  closed : closedFds t = removed.map (·.1.fd)
  reported : reportedFds t = cb.reports removed

section Pass

variable (sys : Sys ω) (cb : Callbacks ω ε) {entries : List (PollFd × Client)}

/-- The run so far, from the entries `entries`. -/
def Sweeping (entries : List (PollFd × Client)) (index : Nat) :
    List (ConnEvent ε) → Machine ω → Prop :=
  OnServer fun t s => ∃ removed, Swept cb entries index t s removed

variable {index : Nat} {t : List (ConnEvent ε)} {s : Server} {pfd : PollFd} {c : Client}
  {removed : List (PollFd × Client)}

/-- A live entry is passed over. -/
theorem Swept.pass (h : Swept cb entries index t s removed) (hindex : 1 ≤ index)
    (hpfd : s.poll.items[index]? = some pfd) (hc : s.clients.items[index - 1]? = some c)
    (halive : ¬ Dead (pfd, c)) : Swept cb entries (index + 1) t s removed := by
  refine { h with alive := ?_ }
  have hsucc : index + 1 - 1 = index - 1 + 1 := by omega
  rw [hsucc, List.take_add_one, getElem?_entries hindex hpfd hc]
  exact List.forall_mem_append.mpr ⟨h.alive, by simpa using halive⟩

/-- A dead entry is removed, and its place is looked at again. -/
theorem Swept.remove (h : Swept cb entries index t s removed) (hindex : 1 ≤ index)
    (hpfd : s.poll.items[index]? = some pfd) (hc : s.clients.items[index - 1]? = some c)
    (hdead : Dead (pfd, c)) {notice : List (ConnEvent ε)} (hnotice : Notified cb s c notice) :
    Swept cb entries index (t ++ (notice ++ [.closed pfd.fd, .deleted pfd.fd]))
      (s.delete index) (removed ++ [(pfd, c)]) := by
  have hentry := getElem?_entries hindex hpfd hc
  have hentries := entries_delete h.inSync hindex hpfd
  obtain ⟨hlt, -⟩ := List.getElem?_eq_some_iff.mp hentry
  refine ⟨h.inSync.delete hindex hc, ?_, ?_, ?_, ?_, ?_⟩
  · rw [hentries, ← List.append_assoc]
    calc (swapRemove s.entries (index - 1) ++ removed ++ [(pfd, c)]).Perm
          ((pfd, c) :: (swapRemove s.entries (index - 1) ++ removed)) :=
            List.perm_append_singleton _ _
      _ |>.Perm (s.entries ++ removed) := (swapRemove_perm hentry).append_right removed
      _ |>.Perm entries := h.perm
  · exact List.forall_mem_append.mpr ⟨h.dead, by simpa using hdead⟩
  · rw [hentries, take_swapRemove hlt]
    exact h.alive
  · rw [closedFds_append, closedFds_append, hnotice.closedFds, h.closed, List.map_append]
    rfl
  · rw [reportedFds_append, reportedFds_append, hnotice.reportedFds pfd, h.reported,
      cb.reports_append]
    exact congrArg _ (List.append_nil _)

theorem deleteRound_sweeps {len : Nat} (hindex : 1 ≤ index) :
    Proc.Triple
      (fun t m => Sweeping cb entries index t m ∧ index < m.server.poll.len ∧
        m.server.poll.len = len)
      (deleteRound sys cb index)
      (fun j t m => Sweeping cb entries j t m ∧
        (j = index + 1 ∧ m.server.poll.len = len ∨ j = index ∧ m.server.poll.len = len - 1))
      (fun e _ _ => cb.ReportHalts e) := by
  unfold deleteRound
  refine Proc.Triple.bind (pollItem_triple (P := fun t s =>
    (∃ removed, Swept cb entries index t s removed) ∧ index < s.poll.len ∧ s.poll.len = len)
    fun t s h => h.2.1) fun pfd => ?_
  refine Proc.Triple.bind (clientItem_triple fun t s h => ?_) fun c => ?_
  · obtain ⟨⟨⟨removed, hswept⟩, hlt, -⟩, -⟩ := h
    have hlen := hswept.inSync.poll_len
    omega
  refine Proc.Triple.ite (fun hdead => ?_) fun halive => ?_
  · rintro t m ⟨⟨⟨⟨removed, hswept⟩, hlt, hlen⟩, hpfd⟩, hc⟩
    rcases deleteConnection_run sys cb index pfd c m with
      ⟨w, notice, hrun, hnotice⟩ | ⟨e, herror, hhalts⟩
    · rw [Proc.bind_run_ok hrun]
      have hlen' : (m.server.delete index).poll.len = len - 1 := by
        rw [← hlen]
        simp [Server.delete, Table.len]
      refine ⟨⟨removed ++ [(pfd, c)], ?_⟩, .inr ⟨rfl, hlen'⟩⟩
      simpa using hswept.remove cb hindex hpfd hc hdead hnotice
    · rcases hrun : deleteConnection sys cb index pfd c m with ⟨r, m', out⟩
      rw [hrun] at herror
      simp only at herror
      subst herror
      rw [Proc.bind_run_error hrun]
      exact hhalts
  · refine Proc.Triple.pure ?_
    rintro t m ⟨⟨⟨⟨removed, hswept⟩, hlt, hlen⟩, hpfd⟩, hc⟩
    exact ⟨⟨removed, hswept.pass cb hindex hpfd hc halive⟩, .inl ⟨rfl, hlen⟩⟩

/-- The pass looks at every entry: a removal shortens the tables, and a live entry moves
the index on. -/
theorem deleteLoop_sweeps :
    Proc.Triple (fun t m => t = [] ∧ InSync m.server ∧ m.server.entries = entries)
      (deleteLoop sys cb)
      (fun _ t m => ∃ removed, Swept cb entries m.server.poll.len t m.server removed)
      (fun e _ _ => cb.ReportHalts e) := by
  unfold deleteLoop
  refine Proc.Triple.bind (server_triple (P := fun t s =>
    t = [] ∧ InSync s ∧ s.entries = entries)) fun s => ?_
  refine Proc.Triple.conseq (Proc.Triple.loop (E := fun e _ _ => cb.ReportHalts e)
    (fun fuel i t m => Sweeping cb entries i t m ∧ 1 ≤ i ∧ m.server.poll.len < fuel + i)
    (fun fuel i => ?_) (fun i t m h hlt => ?_) s.poll.len 1) ?_ ?_ (fun _ _ _ h => h)
  · rintro t m ⟨⟨hsweep, hi, hfuel⟩, hlt⟩
    have hlt' : i < m.server.poll.len := by simpa [indexInPoll] using hlt
    have hround := deleteRound_sweeps sys cb hi t m ⟨hsweep, hlt', rfl⟩
    unfold Proc.Post at hround ⊢
    split at hround
    · obtain ⟨hsweep', ⟨rfl, hlen⟩ | ⟨rfl, hlen⟩⟩ := hround
      · exact ⟨hsweep', by omega, by omega⟩
      · exact ⟨hsweep', hi, by omega⟩
    · exact hround
  · have hlt' : i < m.server.poll.len := by simpa [indexInPoll] using hlt
    have hbound := h.2.2
    omega
  · rintro t m ⟨⟨rfl, hs, hentries⟩, hm⟩
    refine ⟨⟨[], hs, ?_, by simp, by simp, rfl, ?_⟩, Nat.le_refl 1, ?_⟩
    · rw [List.append_nil, hentries]
    · unfold Callbacks.reports
      split <;> rfl
    · rw [hm]
      omega
  · rintro _ t m ⟨fuel, j, ⟨⟨removed, hswept⟩, hj, -⟩, hend⟩
    refine ⟨removed, { hswept with alive := ?_ }⟩
    have hle : m.server.poll.len ≤ j := by simpa [indexInPoll] using hend
    have hlen := hswept.inSync.length_entries
    rw [List.take_of_length_le (by omega)]
    have halive := hswept.alive
    rwa [List.take_of_length_le (by omega)] at halive

end Pass

/-- **The deletion pass.**  It leaves the entries that are not dead, and closes and reports
each dead one once. -/
theorem deleteLoop_run (sys : Sys ω) (cb : Callbacks ω ε) {m m' : Machine ω}
    {t : List (ConnEvent ε)} (hs : InSync m.server)
    (hrun : deleteLoop sys cb m = ⟨.ok (), m', t⟩) :
    InSync m'.server ∧ m'.server.entries.Perm (m.server.entries.filter (¬ Dead ·)) ∧
      ∃ removed, removed.Perm (m.server.entries.filter (Dead ·)) ∧
        closedFds t = removed.map (·.1.fd) ∧ reportedFds t = cb.reports removed := by
  obtain ⟨removed, hswept⟩ := (deleteLoop_sweeps sys cb).ok (t := []) ⟨rfl, hs, rfl⟩ hrun
  have hlen := hswept.inSync.length_entries
  have halive := hswept.alive
  rw [List.take_of_length_le (by omega)] at halive
  have hkept : ∀ p : PollFd × Client → Bool, ((m'.server.entries ++ removed).filter p).Perm
      (m.server.entries.filter p) := fun p => hswept.perm.filter p
  refine ⟨hswept.inSync, ?_, removed, ?_, hswept.closed, hswept.reported⟩
  · have h := hkept (¬ Dead ·)
    rw [List.filter_append, List.filter_eq_self.mpr (by simpa using halive),
      List.filter_eq_nil_iff.mpr (by simpa using hswept.dead), List.append_nil] at h
    exact h
  · have h := hkept (Dead ·)
    rw [List.filter_append, List.filter_eq_nil_iff.mpr (by simpa using halive),
      List.filter_eq_self.mpr (by simpa using hswept.dead), List.nil_append] at h
    exact h

end NoGround
