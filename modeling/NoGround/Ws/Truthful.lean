/-
  Ws/Truthful.lean --- whether `wsSendPacket` knows what it has sent.

  `conSendMessage` answers `-1` when `send` took nothing, so it never answers zero for a
  client whose descriptor is valid, not even for an empty message that was sent.  Hence a
  packet without a payload is reported as an error, whatever the client got.  With a payload
  the answers of both sends tell a complete frame from one that was cut short.

  `turns` lists the clients of a broadcast, each with the world its turn begins with.
-/
import NoGround.Ws.Minimal

set_option autoImplicit false

namespace NoGround

open NoGround.Lib

variable {ω : Type} (sys : Sys ω)

/-! ## Sending to a valid descriptor -/

/-- The descriptor is open, and stays so. -/
def ValidFd (fd : Int) : Prop := ∀ w, 0 ≤ (sys.fcntl fd w).1

/-- How much of a message the socket takes. -/
def taken (fd : Int) (message : List UInt8) (w : ω) : Nat :=
  (sys.sent fd message (sys.fcntl fd w).2).1.getD 0

variable {sys}

/-- The answer is never zero, and it is the length of the message only if this is not zero
and the socket took all of it. -/
theorem conSendMessage_valid {fd : Int} (hvalid : ValidFd sys fd) {message : List UInt8}
    (hlt : message.length < 2 ^ 31) (w : ω) :
    ∃ r w', conSendMessage sys fd message w =
        ⟨.ok r, w', [.sent fd message (taken sys fd message w)]⟩ ∧
      -1 ≤ r ∧ r ≤ message.length ∧
      (r = message.length ↔ 0 < message.length ∧ taken sys fd message w = message.length) := by
  have hle := sent_le sys fd message (sys.fcntl fd w).2
  have hopen : ¬ (sys.fcntl fd w).1 < 0 := Int.not_lt.mpr (hvalid w)
  unfold conSendMessage sendTraced taken
  rw [Proc.step_bind_run, if_neg hopen]
  rcases hsent : sys.sent fd message (sys.fcntl fd w).2 with ⟨sent, w'⟩
  rw [hsent] at hle
  refine ⟨if sendValue sent = 0 then -1 else sendValue sent, w', ?_, ?_⟩
  · simp only [Proc.bind_assoc_run, Proc.step_bind_run, Proc.emit_bind_run, Proc.pure_bind_run,
      Proc.pure_run, hsent]
  · cases sent with
    | none =>
      have hvalue : sendValue none = -1 := rfl
      rw [hvalue, if_neg (by decide)]
      simp only [Option.getD_none]
      omega
    | some n =>
      have hn : n ≤ message.length := hle
      have hvalue : sendValue (some n) = n := toI32_of_lt (by omega)
      rw [hvalue, Option.getD_some]
      split <;> omega

/-! ## One client -/

section Packet

variable {packet : WSPacket}

variable (sys packet) in
/-- All bytes of the header and of the payload were accepted. -/
def GotFrame (turn : Client × ω) : Prop :=
  streamTo turn.1.fd (wsSendPacket sys turn.1 packet turn.2).out = packet.frame

variable (sys packet) in
/-- The first send takes the whole header. -/
def TakesHeader (turn : Client × ω) : Prop :=
  taken sys turn.1.fd packet.headerBytes turn.2 = packet.headerBytes.length

instance : DecidablePred (GotFrame sys packet) :=
  fun turn => inferInstanceAs (Decidable (streamTo turn.1.fd _ = _))

instance : DecidablePred (TakesHeader sys packet) :=
  fun turn => inferInstanceAs (Decidable (taken sys turn.1.fd _ _ = _))

/-- What is returned, and what the client's socket took. -/
theorem wsSendPacket_valid {client : Client} (hvalid : ValidFd sys client.fd)
    (hdata : packet.data.length = packet.length) (hmax : packet.length ≤ MAX_WS_PACKET_LENGTH)
    (w : ω) :
    ∃ status w' out, wsSendPacket sys client packet w = ⟨.ok status, w', out⟩ ∧
      (¬ TakesHeader sys packet (client, w) → status = 1 ∧
        ∃ n, n < packet.headerBytes.length ∧ streamTo client.fd out = packet.headerBytes.take n) ∧
      (TakesHeader sys packet (client, w) → ∃ k ≤ packet.data.length,
        streamTo client.fd out = packet.headerBytes ++ packet.data.take k ∧
        status = if 0 < packet.length ∧ k = packet.length then 0 else 1) := by
  have hlimit : MAX_WS_PACKET_LENGTH = 52428800 := rfl
  obtain ⟨hpos, hlt⟩ := length_headerBytes packet
  obtain ⟨r, w₁, hheader, -, -, hr⟩ := conSendMessage_valid hvalid hlt w
  have hle : taken sys client.fd packet.headerBytes w ≤ packet.headerBytes.length :=
    sent_le sys client.fd packet.headerBytes _
  unfold wsSendPacket sendFrame
  rw [Proc.emit_bind_run, Proc.bind_run_ok hheader]
  by_cases htakes : TakesHeader sys packet (client, w)
  · have hfull : taken sys client.fd packet.headerBytes w = packet.headerBytes.length := htakes
    have hdataLt : packet.data.length < 2 ^ 31 := by omega
    obtain ⟨r', w₂, hbody, hlow, hhigh, hr'⟩ := conSendMessage_valid hvalid hdataLt w₁
    have hanswer : toU32 r' = packet.length ↔ r' = packet.length := by
      unfold toU32
      omega
    rw [if_neg (not_not.mpr (hr.mpr ⟨hpos, hfull⟩)), Proc.bind_run_ok hbody]
    refine ⟨_, _, _, rfl, fun hnot => absurd htakes hnot, fun _ => ?_⟩
    refine ⟨taken sys client.fd packet.data w₁, sent_le sys client.fd packet.data _, ?_, ?_⟩
    · show streamTo client.fd (.sent client.fd packet.headerBytes _ :: _) = _
      rw [streamTo_sent, hfull, List.take_length]
      show _ ++ streamTo client.fd (.sent client.fd packet.data _ :: []) = _
      rw [streamTo_sent, streamTo, List.append_nil]
    · rw [← hdata] at hanswer ⊢
      simp only [ne_eq, hanswer, hr', ite_not]
  · have hcut : ¬ taken sys client.fd packet.headerBytes w = packet.headerBytes.length := htakes
    rw [if_pos fun h => hcut (hr.mp h).2]
    refine ⟨_, _, _, rfl, fun _ => ⟨rfl, taken sys client.fd packet.headerBytes w, ?_, ?_⟩,
      fun h => absurd h htakes⟩
    · omega
    · show streamTo client.fd (.sent client.fd packet.headerBytes _ :: []) = _
      rw [streamTo_sent, streamTo, List.append_nil]

/-- The returned value is zero for a frame with a payload that the client got; a frame without
a payload is its header. -/
theorem wsSendPacket_status {client : Client} (hvalid : ValidFd sys client.fd)
    (hdata : packet.data.length = packet.length) (hmax : packet.length ≤ MAX_WS_PACKET_LENGTH)
    (w : ω) :
    (wsSendPacket sys client packet w).outcome =
        .ok (if 0 < packet.length ∧ GotFrame sys packet (client, w) then 0 else 1) ∧
      (packet.length = 0 →
        (GotFrame sys packet (client, w) ↔ TakesHeader sys packet (client, w))) := by
  obtain ⟨status, w', out, hrun, hcut, htaken⟩ := wsSendPacket_valid hvalid hdata hmax w
  have hgot : GotFrame sys packet (client, w) ↔
      streamTo client.fd out = packet.headerBytes ++ packet.data := by
    unfold GotFrame WSPacket.frame
    rw [hrun]
  simp only [hgot, hrun]
  by_cases htakes : TakesHeader sys packet (client, w)
  · obtain ⟨k, hk, hstream, rfl⟩ := htaken htakes
    have hall : packet.data.take k = packet.data ↔ k = packet.length := by
      rw [List.take_eq_self_iff]
      omega
    simp only [hstream, List.append_cancel_left_eq, hall]
    exact ⟨trivial, fun hzero => iff_of_true (by omega) htakes⟩
  · obtain ⟨rfl, n, hn, hstream⟩ := hcut htakes
    have hshort : packet.headerBytes.take n ≠ packet.headerBytes ++ packet.data := by
      intro heq
      have hlen := congrArg List.length heq
      rw [List.length_take, List.length_append] at hlen
      omega
    rw [hstream, if_neg fun h => hshort h.2]
    exact ⟨rfl, fun _ => iff_of_false hshort htakes⟩

end Packet

/-! ## Everybody -/

section Everybody

variable (sys) (packet : WSPacket)

/-- The clients of a broadcast, in their turns. -/
def turns : List Client → ω → List (Client × ω)
  | [], _ => []
  | client :: clients, w =>
      (client, w) :: turns clients (wsSendPacket sys client packet w).state

theorem fst_mem_of_mem_turns {clients : List Client} {w : ω} {turn : Client × ω}
    (h : turn ∈ turns sys packet clients w) : turn.1 ∈ clients := by
  induction clients generalizing w with
  | nil => cases h
  | cons client clients ih =>
    rcases List.mem_cons.mp h with rfl | h
    · exact List.mem_cons_self
    · exact List.mem_cons_of_mem _ (ih h)

/-- The returned value counts the turns that are reported. -/
theorem sendToEach_counts {clients : List Client} {w : ω} (reported : Client × ω → Prop)
    [DecidablePred reported]
    (h : ∀ turn ∈ turns sys packet clients w, (wsSendPacket sys turn.1 packet turn.2).outcome =
      .ok (if reported turn then 1 else 0)) :
    (sendToEach sys packet clients w).outcome =
      .ok (((turns sys packet clients w).countP reported : Nat) : Int) := by
  induction clients generalizing w with
  | nil => rfl
  | cons client clients ih =>
    rw [turns] at h ⊢
    obtain ⟨hfirst, hrest⟩ := List.forall_mem_cons.mp h
    have hclients := ih hrest
    rw [sendToEach, Proc.bind_run_ok (Result.eq_ok hfirst),
      Proc.bind_run_ok (Result.eq_ok hclients), List.countP_cons]
    simp only [Proc.pure_run, decide_eq_true_eq]
    congr 1
    split <;> omega

end Everybody

/-- The clients that `wsSendToAll` sends to. -/
def clientsOf (bserver : Option Server) : List Client :=
  match bserver with
  | none => []
  | some bserver => bserver.clients.items

variable {packet : WSPacket}

theorem wsSendToAll_outcome (bserver : Option Server) (w : ω) :
    (wsSendToAll sys bserver packet w).outcome =
      (sendToEach sys packet (clientsOf bserver) w).outcome := by
  cases bserver with
  | none => rfl
  | some bserver =>
    show ((Proc.emit _ >>= fun _ => sendToEach sys packet bserver.clients.items) w).outcome = _
    rw [Proc.emit_bind_run]
    rfl

/-! ## The status and the count -/

/-- **The returned value tells what was sent, unless there is no payload.**  For a valid
descriptor `wsSendPacket` returns zero exactly if all bytes were accepted, and `wsSendToAll`
counts the clients that did not get the whole frame: if the packet has a payload, or if no
client takes the header. -/
theorem send_truthful_iff (hdata : packet.data.length = packet.length)
    (hmax : packet.length ≤ MAX_WS_PACKET_LENGTH) :
    (∀ client, ValidFd sys client.fd → ∀ w,
      (((wsSendPacket sys client packet w).outcome = .ok 0 ↔ GotFrame sys packet (client, w)) ↔
        0 < packet.length ∨ ¬ TakesHeader sys packet (client, w))) ∧
    ∀ bserver w, (∀ client ∈ clientsOf bserver, ValidFd sys client.fd) →
      ((wsSendToAll sys bserver packet w).outcome =
          .ok (((turns sys packet (clientsOf bserver) w).countP (¬ GotFrame sys packet ·) : Nat)
            : Int) ↔
        0 < packet.length ∨
          ∀ turn ∈ turns sys packet (clientsOf bserver) w, ¬ TakesHeader sys packet turn) := by
  refine ⟨fun client hvalid w => ?_, fun bserver w hvalid => ?_⟩
  · obtain ⟨hstatus, hempty⟩ := wsSendPacket_status hvalid hdata hmax w
    rw [hstatus]
    rcases Nat.eq_zero_or_pos packet.length with hzero | hpos
    · have hreported : (Except.ok 1 : Except Halt Int) ≠ .ok 0 := by simp
      rw [if_neg (by omega), iff_false_left hreported, hempty hzero,
        or_iff_right (by omega : ¬ 0 < packet.length)]
    · refine iff_of_true ?_ (.inl hpos)
      simp [hpos]
  · have hstatus : ∀ turn ∈ turns sys packet (clientsOf bserver) w,
        (wsSendPacket sys turn.1 packet turn.2).outcome =
            .ok (if 0 < packet.length ∧ GotFrame sys packet turn then 0 else 1) ∧
          (packet.length = 0 → (GotFrame sys packet turn ↔ TakesHeader sys packet turn)) :=
      fun turn hmem => wsSendPacket_status
        (hvalid turn.1 (fst_mem_of_mem_turns sys packet hmem)) hdata hmax turn.2
    have hvalue := sendToEach_counts sys packet
      (fun turn => ¬ (0 < packet.length ∧ GotFrame sys packet turn)) fun turn hmem => by
        rw [(hstatus turn hmem).1, ite_not]
    rw [wsSendToAll_outcome, hvalue]
    rcases Nat.eq_zero_or_pos packet.length with hzero | hpos
    · -- Every turn is reported; those in which the client takes the header got the frame.
      have hnot : ¬ 0 < packet.length := by omega
      have hgot : ∀ turn ∈ turns sys packet (clientsOf bserver) w,
          (¬ GotFrame sys packet turn ↔ ¬ TakesHeader sys packet turn) :=
        fun turn hmem => not_congr ((hstatus turn hmem).2 hzero)
      rw [or_iff_right hnot, ← forall₂_congr hgot, Except.ok.injEq, Nat.cast_inj]
      simp only [hnot, false_and, not_false_eq_true, decide_true, List.countP_true]
      rw [eq_comm, List.countP_eq_length]
      simp
    · simp [hpos]

/-- The scripted system with descriptors that are always valid. -/
def openFds : Sys Script := { Script.sys with fcntl := fun _ w => (0, w) }

theorem validFd_openFds (fd : Int) : ValidFd openFds fd := fun _ => Int.le_refl 0

/-- A server with the clients `4` and `5`. -/
def pairOfClients : Server where
  fd := 3
  ping_interval := 600
  poll := Table.empty 0
  clients := ⟨[{ Client.blank with fd := 4 }, { Client.blank with fd := 5 }], 2, by decide⟩

/-- The second client's socket takes one byte of the header: one client is missed. -/
theorem send_truthful_second_cut_short :
    (wsSendToAll openFds (some pairOfClients) (textPacket 1)
        { sends := [some 2, some 1, some 1] }).outcome =
      .ok (((turns openFds (textPacket 1) pairOfClients.clients.items
        { sends := [some 2, some 1, some 1] }).countP (¬ GotFrame openFds (textPacket 1) ·) : Nat)
          : Int) :=
  ((send_truthful_iff (by decide) (by decide)).2 (some pairOfClients) _
    fun client _ => validFd_openFds client.fd).mpr (.inl (by decide))

/-- An empty text that the client got is reported as an error, and counted. -/
theorem empty_text_is_reported :
    GotFrame openFds (textPacket 0) (Client.blank, {}) ∧
      (wsSendPacket openFds Client.blank (textPacket 0) {}).outcome = .ok 1 ∧
      (turns openFds (textPacket 0) pairOfClients.clients.items {}).countP
        (¬ GotFrame openFds (textPacket 0) ·) = 0 ∧
      (wsSendToAll openFds (some pairOfClients) (textPacket 0) {}).outcome = .ok 2 :=
  ⟨by decide, rfl, by decide, rfl⟩

end NoGround
