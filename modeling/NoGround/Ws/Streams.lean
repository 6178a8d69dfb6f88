/-
  Ws/Streams.lean --- what a client's socket takes, over all the frames it is sent.

  `wsSendPacket`, `wsSendToAll` and `wsHandlePing` write a frame in one or two sends.  A
  trace of theirs is a sequence of writes, each with the frame that was meant and the part
  of it that was taken.  The stream of a client is framed if the writes are complete up to
  one, and nothing is taken after that.

  Nothing in the source sees to it: `wsSendPacket` reports a short send to
  `wsSendToAll`, which adds the reports up, and there they end.  So the stream is framed
  exactly if the socket itself takes nothing more after its first short send.
-/
import NoGround.Ws.Send

set_option autoImplicit false

namespace NoGround

open NoGround.Lib

variable {ω : Type}

/-! ## Everything that is sent -/

/-- The calls that send. -/
inductive SendOp (ω : Type) where
  | sendPacket (client : Client) (packet : WSPacket)
  | sendToAll (bserver : Option Server) (packet : WSPacket)
  | ping (client : Client)
  /-- whatever the server does in between -/
  | other (f : ω → ω)

/-- One call; its callers drop what it returns. -/
def SendOp.run (sys : Sys ω) : SendOp ω → Proc Halt ω NetEvent Unit
  | .sendPacket client packet => do
      let _err ← wsSendPacket sys client packet
      return ()
  | .sendToAll bserver packet => do
      let _has_err ← wsSendToAll sys bserver packet
      return ()
  | .ping client => do
      let _status ← wsHandlePing sys client
      return ()
  | .other f => Proc.modify f

/-- One call after the other. -/
def runSends (sys : Sys ω) (ops : List (SendOp ω)) : Proc Halt ω NetEvent Unit :=
  Proc.forEach (SendOp.run sys) ops

/-! ## Writes -/

/-- A frame that was to be written, and the bytes of it that were taken. -/
structure Write where
  frame : List UInt8
  accepted : List UInt8
  deriving DecidableEq

section Trace

variable (fd : Int)

/-- What the socket `fd` takes before the next frame. -/
def takenFirst : List NetEvent → List UInt8
  | [] => []
  | .frame fd' _ :: t => if fd' = fd then [] else takenFirst t
  | .sent fd' message accepted :: t =>
      if fd' = fd then message.take accepted ++ takenFirst t else takenFirst t
  | .broadcast _ _ :: t => takenFirst t

/-- The frames written to the socket `fd`. -/
def writesTo : List NetEvent → List Write
  | [] => []
  | .frame fd' frame :: t =>
      if fd' = fd then ⟨frame, takenFirst fd t⟩ :: writesTo t else writesTo t
  | .sent _ _ _ :: t => writesTo t
  | .broadcast _ _ :: t => writesTo t

/-- The sends to the socket `fd`: how many bytes it was given, and how many it took. -/
def sendsTo : List NetEvent → List (Nat × Nat)
  | [] => []
  | .sent fd' message accepted :: t =>
      if fd' = fd then (message.length, accepted) :: sendsTo t else sendsTo t
  | .frame _ _ :: t => sendsTo t
  | .broadcast _ _ :: t => sendsTo t

/-- **The stream is framed.**  It is a concatenation of complete frames, followed by at
most one that was cut short; and of the frames written later, no byte was taken. -/
def StaysFramed (t : List NetEvent) : Prop :=
  ∃ complete cut later, writesTo fd t = complete ++ cut ++ later ∧
    (∀ w ∈ complete, w.accepted = w.frame) ∧
    (cut.length ≤ 1 ∧ ∀ w ∈ cut, w.accepted <+: w.frame) ∧
    (∀ w ∈ later, w.accepted = []) ∧
    streamTo fd t = complete.flatMap Write.frame ++ cut.flatMap Write.accepted

/-- Once the socket took less than it was given, it takes nothing more. -/
def SilentAfterShort (t : List NetEvent) : Prop :=
  (sendsTo fd t).Pairwise fun send later => send.2 < send.1 → later.2 = 0

instance (t : List NetEvent) : Decidable (SilentAfterShort fd t) := by
  unfold SilentAfterShort
  infer_instance

end Trace

/-! ## Framing, write by write -/

/-- Every write is complete, up to one of which a prefix was taken. -/
def FramedFrom : List Write → Prop
  | [] => True
  | w :: ws =>
      if w.accepted = w.frame then FramedFrom ws
      else w.accepted <+: w.frame ∧ ∀ w' ∈ ws, w'.accepted = []

theorem framedFrom_of_silent {ws : List Write} (h : ∀ w ∈ ws, w.accepted = []) :
    FramedFrom ws := by
  induction ws with
  | nil => trivial
  | cons w ws ih =>
    obtain ⟨hw, hws⟩ := List.forall_mem_cons.mp h
    unfold FramedFrom
    split
    · exact ih hws
    · rw [hw]
      exact ⟨List.nil_prefix, hws⟩

/-- The same, with the writes sorted into complete ones, one cut short, and later
ones. -/
theorem framedFrom_iff {ws : List Write} :
    FramedFrom ws ↔ ∃ complete cut later, ws = complete ++ cut ++ later ∧
      (∀ w ∈ complete, w.accepted = w.frame) ∧
      (cut.length ≤ 1 ∧ ∀ w ∈ cut, w.accepted <+: w.frame) ∧
      (∀ w ∈ later, w.accepted = []) := by
  constructor
  · intro h
    induction ws with
    | nil => exact ⟨[], [], [], rfl, by simp, by simp, by simp⟩
    | cons w ws ih =>
      unfold FramedFrom at h
      split at h
      · rename_i hw
        obtain ⟨complete, cut, later, rfl, hcomplete, hcut, hlater⟩ := ih h
        exact ⟨w :: complete, cut, later, rfl, List.forall_mem_cons.mpr ⟨hw, hcomplete⟩, hcut,
          hlater⟩
      · exact ⟨[], [w], ws, rfl, by simp, ⟨Nat.le_refl 1, by simpa using h.1⟩, h.2⟩
  · rintro ⟨complete, cut, later, rfl, hcomplete, ⟨hone, hcut⟩, hlater⟩
    induction complete with
    | nil =>
      match cut with
      | [] => exact framedFrom_of_silent hlater
      | [w] =>
        show FramedFrom (w :: later)
        unfold FramedFrom
        split
        · exact framedFrom_of_silent hlater
        · exact ⟨hcut w (List.mem_singleton_self w), hlater⟩
    | cons w complete ih =>
      obtain ⟨hw, hcomplete⟩ := List.forall_mem_cons.mp hcomplete
      show FramedFrom (w :: (complete ++ cut ++ later))
      unfold FramedFrom
      rw [if_pos hw]
      exact ih hcomplete

/-! ## The shape of a trace -/

/-- The events of some sends to one socket. -/
def sentEvents (fd : Int) (sends : List (List UInt8 × Nat)) : List NetEvent :=
  sends.map fun s => .sent fd s.1 s.2

/-- The bytes that were taken in them. -/
def takenOf (sends : List (List UInt8 × Nat)) : List UInt8 :=
  sends.flatMap fun s => s.1.take s.2

/-- The sends that write `frame`: they give it from its start, and none follows a short
one. -/
structure FrameSends (frame : List UInt8) (sends : List (List UInt8 × Nat)) : Prop where
  taken : takenOf sends <+: frame
  full : takenOf sends = frame ↔ ∀ s ∈ sends, s.2 = s.1.length
  le : ∀ s ∈ sends, s.2 ≤ s.1.length
  ordered : sends.Pairwise fun s later => s.2 < s.1.length → later.2 = 0

theorem take_eq_nil_iff_of_le {l : List UInt8} {n : Nat} (h : n ≤ l.length) :
    l.take n = [] ↔ n = 0 := by
  rw [← List.length_eq_zero_iff, List.length_take_of_le h]

theorem FrameSends.taken_eq_nil {frame : List UInt8} {sends : List (List UInt8 × Nat)}
    (h : FrameSends frame sends) : takenOf sends = [] ↔ ∀ s ∈ sends, s.2 = 0 := by
  unfold takenOf
  rw [List.flatMap_eq_nil_iff]
  exact forall₂_congr fun s hs => take_eq_nil_iff_of_le (h.le s hs)

/-- A header that was cut short, and no body. -/
theorem frameSends_header {header data : List UInt8} {n : Nat} (h : n < header.length) :
    FrameSends (header ++ data) [(header, n)] where
  taken := by
    simpa [takenOf] using (List.take_prefix n header).trans (List.prefix_append header data)
  full := by
    have hne : header.take n ≠ header ++ data := by
      intro heq
      have hlen := congrArg List.length heq
      rw [List.length_take, List.length_append] at hlen
      omega
    simp [takenOf, hne, Nat.ne_of_lt h]
  le := by simp [Nat.le_of_lt h]
  ordered := List.pairwise_singleton _ _

/-- A frame in one send. -/
theorem frameSends_single {frame : List UInt8} {n : Nat} (h : n ≤ frame.length) :
    FrameSends frame [(frame, n)] where
  taken := by simpa [takenOf] using List.take_prefix n frame
  full := by
    simp only [takenOf, List.flatMap_cons, List.flatMap_nil, List.append_nil,
      List.take_eq_self_iff, List.mem_singleton, forall_eq]
    omega
  le := by simpa using h
  ordered := List.pairwise_singleton _ _

/-- A header that was taken completely, and a body. -/
theorem frameSends_body {header data : List UInt8} {k : Nat} (h : k ≤ data.length) :
    FrameSends (header ++ data) [(header, header.length), (data, k)] where
  taken := by simpa [takenOf] using List.take_prefix k data
  full := by
    simp only [takenOf, List.flatMap_cons, List.flatMap_nil, List.append_nil, List.take_length,
      List.append_cancel_left_eq, List.take_eq_self_iff, List.forall_mem_cons]
    simp
    omega
  le := by simpa using h
  ordered := by simp

/-- A trace of writes and broadcasts. -/
inductive WellWritten : List NetEvent → Prop where
  | nil : WellWritten []
  | broadcast (frame : List UInt8) (fds : List Int) {t : List NetEvent} :
      WellWritten t → WellWritten (.broadcast frame fds :: t)
  | write (fd : Int) {frame : List UInt8} {sends : List (List UInt8 × Nat)} {t : List NetEvent} :
      FrameSends frame sends → WellWritten t →
      WellWritten (.frame fd frame :: (sentEvents fd sends ++ t))

namespace WellWritten

variable {t u : List NetEvent}

theorem append (ht : WellWritten t) (hu : WellWritten u) : WellWritten (t ++ u) := by
  induction ht with
  | nil => exact hu
  | broadcast frame fds _ ih => exact ih.broadcast frame fds
  | write fd hsends _ ih =>
    rw [List.cons_append, List.append_assoc]
    exact ih.write fd hsends

end WellWritten

/-! ## Reading a trace -/

section Events

variable {fd fd' : Int} (sends : List (List UInt8 × Nat)) (t : List NetEvent)

theorem sentEvents_cons (s : List UInt8 × Nat) :
    sentEvents fd (s :: sends) = .sent fd s.1 s.2 :: sentEvents fd sends := rfl

theorem writesTo_sentEvents : writesTo fd (sentEvents fd' sends ++ t) = writesTo fd t := by
  induction sends with
  | nil => rfl
  | cons s sends ih => exact ih

theorem takenFirst_sentEvents :
    takenFirst fd (sentEvents fd sends ++ t) = takenOf sends ++ takenFirst fd t := by
  induction sends with
  | nil => rfl
  | cons s sends ih =>
    rw [sentEvents_cons, List.cons_append, takenFirst, if_pos rfl, ih, ← List.append_assoc]
    rfl

theorem streamTo_sentEvents :
    streamTo fd (sentEvents fd sends ++ t) = takenOf sends ++ streamTo fd t := by
  induction sends with
  | nil => rfl
  | cons s sends ih =>
    rw [sentEvents_cons, List.cons_append, streamTo, if_pos rfl, ih, ← List.append_assoc]
    rfl

theorem sendsTo_sentEvents :
    sendsTo fd (sentEvents fd sends ++ t) =
      sends.map (fun s => (s.1.length, s.2)) ++ sendsTo fd t := by
  induction sends with
  | nil => rfl
  | cons s sends ih =>
    rw [sentEvents_cons, List.cons_append, sendsTo, if_pos rfl, ih]
    rfl

theorem takenFirst_sentEvents_of_ne (h : fd' ≠ fd) :
    takenFirst fd (sentEvents fd' sends ++ t) = takenFirst fd t := by
  induction sends with
  | nil => rfl
  | cons s sends ih => exact (if_neg h).trans ih

theorem streamTo_sentEvents_of_ne (h : fd' ≠ fd) :
    streamTo fd (sentEvents fd' sends ++ t) = streamTo fd t := by
  induction sends with
  | nil => rfl
  | cons s sends ih => exact (if_neg h).trans ih

theorem sendsTo_sentEvents_of_ne (h : fd' ≠ fd) :
    sendsTo fd (sentEvents fd' sends ++ t) = sendsTo fd t := by
  induction sends with
  | nil => rfl
  | cons s sends ih => exact (if_neg h).trans ih

end Events

namespace WellWritten

variable {t : List NetEvent}

/-- Nothing is sent outside a write. -/
theorem takenFirst_eq_nil (ht : WellWritten t) (fd : Int) : takenFirst fd t = [] := by
  induction ht with
  | nil => rfl
  | broadcast frame fds _ ih => exact ih
  | write fd' hsends _ ih =>
    by_cases hfd : fd' = fd
    · exact if_pos hfd
    · exact (if_neg hfd).trans ((takenFirst_sentEvents_of_ne _ _ hfd).trans ih)

/-- A write to the socket in question, in front of a trace. -/
theorem writesTo_write (ht : WellWritten t) (fd : Int) (frame : List UInt8)
    (sends : List (List UInt8 × Nat)) :
    writesTo fd (.frame fd frame :: (sentEvents fd sends ++ t)) =
      ⟨frame, takenOf sends⟩ :: writesTo fd t := by
  rw [writesTo, if_pos rfl, takenFirst_sentEvents, ht.takenFirst_eq_nil fd, List.append_nil,
    writesTo_sentEvents]

theorem writesTo_write_of_ne {fd fd' : Int} (h : fd' ≠ fd) (frame : List UInt8)
    (sends : List (List UInt8 × Nat)) (t : List NetEvent) :
    writesTo fd (.frame fd' frame :: (sentEvents fd' sends ++ t)) = writesTo fd t :=
  (if_neg h).trans (writesTo_sentEvents sends t)

/-- The stream is what was taken in the writes. -/
theorem streamTo_eq (ht : WellWritten t) (fd : Int) :
    streamTo fd t = (writesTo fd t).flatMap Write.accepted := by
  induction ht with
  | nil => rfl
  | broadcast frame fds _ ih => exact ih
  | @write fd' frame sends t hsends ht ih =>
    by_cases hfd : fd' = fd
    · subst hfd
      rw [ht.writesTo_write, List.flatMap_cons, ← ih]
      exact streamTo_sentEvents sends t
    · rw [writesTo_write_of_ne hfd, ← ih]
      exact streamTo_sentEvents_of_ne sends t hfd

/-- Nothing is taken in any write exactly if nothing is taken in any send. -/
theorem silent_iff (ht : WellWritten t) (fd : Int) :
    (∀ w ∈ writesTo fd t, w.accepted = []) ↔ ∀ send ∈ sendsTo fd t, send.2 = 0 := by
  induction ht with
  | nil => simp [writesTo, sendsTo]
  | broadcast frame fds _ ih => exact ih
  | @write fd' frame sends t hsends ht ih =>
    by_cases hfd : fd' = fd
    · subst hfd
      have hsendsTo : sendsTo fd' (.frame fd' frame :: (sentEvents fd' sends ++ t)) =
          sends.map (fun s => (s.1.length, s.2)) ++ sendsTo fd' t := sendsTo_sentEvents sends t
      rw [ht.writesTo_write, hsendsTo, List.forall_mem_cons, List.forall_mem_append, ih,
        hsends.taken_eq_nil, List.forall_mem_map]
    · have hsendsTo : sendsTo fd (.frame fd' frame :: (sentEvents fd' sends ++ t)) =
          sendsTo fd t := sendsTo_sentEvents_of_ne sends t hfd
      rw [writesTo_write_of_ne hfd, hsendsTo, ih]

/-- **Write by write, and send by send.** -/
theorem framedFrom_iff_silentAfterShort (ht : WellWritten t) (fd : Int) :
    FramedFrom (writesTo fd t) ↔ SilentAfterShort fd t := by
  unfold SilentAfterShort
  induction ht with
  | nil => exact ⟨fun _ => List.Pairwise.nil, fun _ => trivial⟩
  | broadcast frame fds _ ih => exact ih
  | @write fd' frame sends t hsends ht ih =>
    by_cases hfd : fd' = fd
    · subst hfd
      have hsendsTo : sendsTo fd' (.frame fd' frame :: (sentEvents fd' sends ++ t)) =
          sends.map (fun s => (s.1.length, s.2)) ++ sendsTo fd' t := sendsTo_sentEvents sends t
      rw [ht.writesTo_write, hsendsTo, List.pairwise_append, List.pairwise_map, FramedFrom, ← ih]
      by_cases hfull : takenOf sends = frame
      · -- A complete write has no short send.
        rw [if_pos hfull]
        have hnone : ∀ a ∈ sends, ¬ a.2 < a.1.length := by
          intro a ha hlt
          have heq := hsends.full.mp hfull a ha
          omega
        constructor
        · intro h
          refine ⟨hsends.ordered, h, ?_⟩
          intro a ha b hb hlt
          obtain ⟨s, hs, rfl⟩ := List.mem_map.mp ha
          exact absurd hlt (hnone s hs)
        · exact fun h => h.2.1
      · -- The others have one, and nothing may be taken after it.
        rw [if_neg hfull, ht.silent_iff fd']
        obtain ⟨a, ha, hlt⟩ : ∃ a ∈ sends, a.2 < a.1.length := by
          by_contra hnone
          refine hfull (hsends.full.mpr fun a ha => ?_)
          have hle := hsends.le a ha
          by_contra hne
          exact hnone ⟨a, ha, by omega⟩
        constructor
        · rintro ⟨-, hsilent⟩
          refine ⟨hsends.ordered, framedFrom_of_silent ((ht.silent_iff fd').mpr hsilent), ?_⟩
          exact fun _ _ b hb _ => hsilent b hb
        · rintro ⟨-, -, hcross⟩
          exact ⟨hsends.taken,
            fun b hb => hcross _ (List.mem_map_of_mem ha) b hb hlt⟩
    · have hsendsTo : sendsTo fd (.frame fd' frame :: (sentEvents fd' sends ++ t)) =
          sendsTo fd t := sendsTo_sentEvents_of_ne sends t hfd
      rw [writesTo_write_of_ne hfd, hsendsTo, ih]

/-- The stream of a trace is framed if its writes are. -/
theorem staysFramed_iff (ht : WellWritten t) (fd : Int) :
    StaysFramed fd t ↔ FramedFrom (writesTo fd t) := by
  rw [framedFrom_iff]
  constructor
  · rintro ⟨complete, cut, later, hwrites, hcomplete, hcut, hlater, -⟩
    exact ⟨complete, cut, later, hwrites, hcomplete, hcut, hlater⟩
  · rintro ⟨complete, cut, later, hwrites, hcomplete, hcut, hlater⟩
    refine ⟨complete, cut, later, hwrites, hcomplete, hcut, hlater, ?_⟩
    have hlast : later.flatMap Write.accepted = [] := List.flatMap_eq_nil_iff.mpr hlater
    have hfirst : complete.flatMap Write.accepted = complete.flatMap Write.frame :=
      List.flatMap_congr hcomplete
    rw [ht.streamTo_eq fd, hwrites, List.flatMap_append, List.flatMap_append, hlast, hfirst,
      List.append_nil]

end WellWritten

/-! ## Every sequence of calls -/

section Ops

variable (sys : Sys ω)

/-- A program of which every run shows writes keeps a well-written trace. -/
theorem keeps_wellWritten {α : Type} {m : Proc Halt ω NetEvent α}
    (h : ∀ w, WellWritten (m w).out) : Proc.Keeps (fun t _ => WellWritten t) m := by
  intro t w ht
  have hout := ht.append (h w)
  unfold Proc.Post
  split <;> exact hout

theorem wsSendPacket_wellWritten (client : Client) (packet : WSPacket) (w : ω) :
    WellWritten (wsSendPacket sys client packet w).out := by
  obtain ⟨r, w', n, rest, hrun, hout⟩ := wsSendPacket_run sys client packet w
  rw [hrun]
  rcases hout with ⟨hcut, rfl⟩ | ⟨rfl, k, hk, rfl⟩
  · exact .write client.fd (frameSends_header hcut) .nil
  · exact .write client.fd (frameSends_body hk) .nil

theorem sendToEach_wellWritten (packet : WSPacket) (clients : List Client) :
    Proc.Keeps (fun t _ => WellWritten t) (sendToEach sys packet clients) := by
  induction clients with
  | nil => exact Proc.Keeps.pure _
  | cons client clients ih =>
    unfold sendToEach
    refine Proc.Keeps.bind (keeps_wellWritten (wsSendPacket_wellWritten sys client packet)) ?_
    exact fun _ => Proc.Keeps.bind ih fun _ => Proc.Keeps.pure _

theorem wsSendToAll_wellWritten (bserver : Option Server) (packet : WSPacket) :
    Proc.Keeps (fun t _ => WellWritten t) (wsSendToAll sys bserver packet) := by
  unfold wsSendToAll
  cases bserver with
  | none => exact Proc.Keeps.pure _
  | some bserver =>
    refine Proc.Keeps.bind (Proc.Triple.emit fun t _ ht => ?_) fun _ =>
      sendToEach_wellWritten sys packet bserver.clients.items
    exact ht.append (.broadcast _ _ .nil)

/-- A ping is one send; its result decides between the two statuses it can answer. -/
theorem wsHandlePing_run (client : Client) (w : ω) :
    ∃ status client' w', wsHandlePing sys client w = ⟨.ok (status, client'), w',
        [.frame client.fd pingHeader.toBytes, .sent client.fd pingHeader.toBytes
          ((sys.sent client.fd pingHeader.toBytes w).1.getD 0)]⟩ ∧ status ≠ .retry := by
  unfold wsHandlePing sendTraced
  simp only [Proc.emit_bind_run, Proc.bind_assoc_run, Proc.step_bind_run, Proc.pure_bind_run]
  split
  · exact ⟨_, _, _, rfl, by decide⟩
  · exact ⟨_, _, _, rfl, by decide⟩

theorem wsHandlePing_wellWritten (client : Client) (w : ω) :
    WellWritten (wsHandlePing sys client w).out := by
  obtain ⟨status, client', w', hrun, -⟩ := wsHandlePing_run sys client w
  rw [hrun]
  exact .write client.fd (frameSends_single (sent_le sys client.fd pingHeader.toBytes w)) .nil

/-- The trace of every sequence of calls is well written. -/
theorem runSends_wellWritten (ops : List (SendOp ω)) (w : ω) :
    WellWritten (runSends sys ops w).out := by
  have hkeeps : Proc.Keeps (fun t _ => WellWritten t) (runSends sys ops) := by
    refine Proc.Keeps.forEach (fun op => ?_) ops
    cases op with
    | sendPacket client packet =>
      exact Proc.Keeps.bind (keeps_wellWritten (wsSendPacket_wellWritten sys client packet))
        fun _ => Proc.Keeps.pure _
    | sendToAll bserver packet =>
      exact Proc.Keeps.bind (wsSendToAll_wellWritten sys bserver packet) fun _ =>
        Proc.Keeps.pure _
    | ping client =>
      exact Proc.Keeps.bind (keeps_wellWritten (wsHandlePing_wellWritten sys client))
        fun _ => Proc.Keeps.pure _
    | other f => exact Proc.Triple.modify fun _ _ ht => ht
  exact hkeeps.run .nil

/-- **Framed streams, exactly.**  Whatever is sent, to whom, in which order, and whatever
the sockets take of it: the stream of a client is framed if and only if its socket takes
nothing more once it took less than it was given. -/
theorem runSends_staysFramed_iff (ops : List (SendOp ω)) (fd : Int) (w : ω) :
    StaysFramed fd (runSends sys ops w).out ↔ SilentAfterShort fd (runSends sys ops w).out := by
  have ht := runSends_wellWritten sys ops w
  rw [ht.staysFramed_iff, ht.framedFrom_iff_silentAfterShort]

end Ops

/-- A text of one byte. -/
def oneByteMessage (b : UInt8) : WSPacket where
  header := ⟨WS_OP_TEXT, 0#3, 1#1, 1#7, 0#1⟩
  mask_key := fun _ => 0
  length := 1
  len := 1
  payload := some (Block.ofBytes [b])

/-- A server with one client. -/
def oneClient : Server :=
  { Server.blank with clients := ⟨[Client.blank], 1, Nat.le_refl 1⟩ }

/-- Of the first broadcast, one byte is taken; of the second, everything. -/
theorem short_send_then_broadcast :
    ¬ StaysFramed Client.blank.fd
      (runSends Script.sys
        [.sendToAll (some oneClient) (oneByteMessage 0x68),
          .sendToAll (some oneClient) (oneByteMessage 0x69)]
        { sends := [some 1] }).out := by
  rw [(runSends_wellWritten _ _ _).staysFramed_iff,
    (runSends_wellWritten _ _ _).framedFrom_iff_silentAfterShort]
  decide +kernel

end NoGround
