/-
  Ws/Safety.lean --- when `wsHandleMessages` stays inside the payload, and when it
  returns.

  Two kinds of first reads stop it.  A masked frame whose head did not arrive whole, or
  of which the read went past the end, makes the decode loop of `wsReadPacket` run out
  of the payload; and the first fragment of a message makes the assertion fail.  Every
  other read is survived, whatever the second read returns.

  Both results are equivalences: `receiveFrame_inBounds_iff` for one call, and
  `serve_handled_iff` for every run of the server.
-/
import NoGround.Ws.Receive
import NoGround.Conn.Init

set_option autoImplicit false

namespace NoGround

open NoGround.Lib

variable {ω : Type}

/-! ## One call -/

/-- The decode loop leaves the payload. -/
def PayloadOverrun (bytes : List UInt8) : Prop :=
  match headOf bytes with
  | none => False
  | some head => head.Overruns bytes.length

/-- The frame is one the assertion forbids. -/
def UnsupportedFrame (bytes : List UInt8) : Prop :=
  match headOf bytes with
  | none => False
  | some head => head.Unsupported

instance (bytes : List UInt8) : Decidable (PayloadOverrun bytes) := by
  unfold PayloadOverrun
  split <;> infer_instance

instance (bytes : List UInt8) : Decidable (UnsupportedFrame bytes) := by
  unfold UnsupportedFrame
  split <;> infer_instance

/-- Neither. -/
def Survives (bytes : List UInt8) : Prop := ¬ PayloadOverrun bytes ∧ ¬ UnsupportedFrame bytes

instance (bytes : List UInt8) : Decidable (Survives bytes) :=
  inferInstanceAs (Decidable (_ ∧ _))

/-- After a first read that does not stop it, `receivePacket` returns; it shows
nothing. -/
theorem receivePacket_ok (sys : Sys ω) (client : Client) {bytes : List UInt8}
    (hk : bytes.length ≤ WS_MAX_HEADER_LEN) (hsurvives : Survives bytes) (w : ω) :
    ∃ packet w', receivePacket sys (client.fillBuffer bytes) bytes.length w =
      ⟨.ok packet, w', []⟩ := by
  obtain ⟨hin, hun⟩ := hsurvives
  cases hhead : headOf bytes with
  | none => exact ⟨_, _, receivePacket_none sys client hhead w⟩
  | some head =>
    simp only [PayloadOverrun, UnsupportedFrame, hhead] at hin hun
    by_cases hmore : head.NeedsMore bytes.length
    · exact ⟨_, _, receivePacket_pulled sys client hhead hin hk hun hmore rfl⟩
    · exact ⟨_, _, receivePacket_complete sys client hhead hin hk hun hmore w⟩

/-- What stops it, and how. -/
theorem receivePacket_error (sys : Sys ω) (client : Client) {bytes : List UInt8}
    (hk : bytes.length ≤ WS_MAX_HEADER_LEN) (hstop : ¬ Survives bytes) (w : ω) :
    ∃ e w', receivePacket sys (client.fillBuffer bytes) bytes.length w = ⟨.error e, w', []⟩ ∧
      (e = .outOfBounds ↔ PayloadOverrun bytes) := by
  cases hhead : headOf bytes with
  | none => exact absurd ⟨by simp [PayloadOverrun, hhead], by simp [UnsupportedFrame, hhead]⟩ hstop
  | some head =>
    simp only [Survives, PayloadOverrun, UnsupportedFrame, hhead] at hstop ⊢
    by_cases hover : head.Overruns bytes.length
    · exact ⟨_, _, receivePacket_overrun sys client hhead hover hk w, by simp [hover]⟩
    · have hun : head.Unsupported := by
        by_contra hun
        exact hstop ⟨hover, hun⟩
      exact ⟨_, _, receivePacket_unsupported sys client hhead hover hk hun w, by simp [hover]⟩

/-- The bytes of the first read. -/
def firstBytes (sys : Sys ω) (client : Client) (w : ω) : List UInt8 :=
  (sys.received client.fd WS_MAX_HEADER_LEN .dontWait w).1.bytes.getD []

section Receive

variable (sys : Sys ω) (client : Client) (w : ω)

theorem length_firstBytes_le : (firstBytes sys client w).length ≤ WS_MAX_HEADER_LEN :=
  length_received_le sys client.fd WS_MAX_HEADER_LEN .dontWait w

theorem firstRead_run {fd : Int} {w' : ω} {r : RecvResult}
    (hr : sys.received fd WS_MAX_HEADER_LEN .dontWait w = (r, w')) :
    firstRead sys fd w =
      ⟨.ok r, w', if 0 < r.count then [.received (r.bytes.getD [])] else []⟩ := by
  unfold firstRead
  rw [Proc.step_bind_run, hr]
  by_cases hpos : 0 < r.count
  · rw [Proc.when_pos hpos, if_pos hpos]
    simp
  · rw [Proc.when_neg hpos, if_neg hpos]
    simp

/-- A first read that returned nothing ends the call. -/
theorem receiveFrame_idle (hnil : firstBytes sys client w = []) :
    ∃ status w', receiveFrame sys client w =
      ⟨.ok (.error status, client.fillBuffer (firstBytes sys client w)), w', []⟩ := by
  rw [hnil]
  unfold firstBytes at hnil
  rcases hr : sys.received client.fd WS_MAX_HEADER_LEN .dontWait w with ⟨r, w'⟩
  rw [hr] at hnil
  have hget : r.bytes.getD [] = [] := hnil
  have hcount : r.count ≤ 0 := by
    unfold RecvResult.count
    cases hb : r.bytes with
    | none => simp
    | some bytes =>
      rw [hb] at hget
      have : bytes = [] := hget
      simp [this]
  refine ⟨if r.errno = EAGAIN then .keepAlive else .kill, w', ?_⟩
  unfold receiveFrame
  rw [Proc.bind_run_ok (firstRead_run sys w hr), if_neg (Int.not_lt.mpr hcount),
    if_pos hcount, hget]
  rfl

/-- A first read that returned bytes: they are traced, and the rest is
`receivePacket`. -/
theorem receiveFrame_bytes (hne : firstBytes sys client w ≠ []) :
    receiveFrame sys client w =
      match receivePacket sys (client.fillBuffer (firstBytes sys client w))
        (firstBytes sys client w).length
        (sys.received client.fd WS_MAX_HEADER_LEN .dontWait w).2 with
      | ⟨.error e, w', out⟩ => ⟨.error e, w', .received (firstBytes sys client w) :: out⟩
      | ⟨.ok none, w', out⟩ =>
          ⟨.ok (.error .kill, client.fillBuffer (firstBytes sys client w)), w',
            .received (firstBytes sys client w) :: out⟩
      | ⟨.ok (some packet), w', out⟩ =>
          ⟨.ok (.ok packet, client.fillBuffer (firstBytes sys client w)), w',
            .received (firstBytes sys client w) :: out⟩ := by
  unfold firstBytes at hne ⊢
  rcases hr : sys.received client.fd WS_MAX_HEADER_LEN .dontWait w with ⟨r, w'⟩
  rw [hr] at hne
  obtain ⟨bytes, hb⟩ : ∃ bytes, r.bytes = some bytes := by
    cases hb : r.bytes with
    | none => rw [hb] at hne; exact absurd rfl hne
    | some bytes => exact ⟨bytes, rfl⟩
  have hget : r.bytes.getD [] = bytes := by rw [hb]; rfl
  have hcount : r.count = bytes.length := by rw [RecvResult.count, hb]
  simp only [hget] at hne ⊢
  have hpos : 0 < bytes.length := List.length_pos_iff.mpr hne
  have hread : 0 < r.count := by omega
  have hnat : r.count.toNat = bytes.length := by omega
  unfold receiveFrame
  rw [Proc.bind_run_ok (firstRead_run sys w hr), if_pos hread, if_neg (Int.not_le.mpr hread),
    hget, hnat]
  rcases hrun : receivePacket sys (client.fillBuffer bytes) bytes.length w' with ⟨o, w'', out⟩
  cases o with
  | error e =>
    rw [Proc.bind_run_error hrun]
    rfl
  | ok packet =>
    rw [Proc.bind_run_ok hrun]
    cases packet with
    | none => simp
    | some packet => simp

end Receive

section InBounds

variable (sys : Sys ω) (client : Client) (w : ω)

theorem survives_nil : Survives [] := by decide

/-- A frame is received without a halt exactly if its first read is survived. -/
theorem receiveFrame_ok_iff :
    (∃ a, (receiveFrame sys client w).outcome = .ok a) ↔ Survives (firstBytes sys client w) := by
  by_cases hnil : firstBytes sys client w = []
  · obtain ⟨status, w', hrun⟩ := receiveFrame_idle sys client w hnil
    rw [hrun, hnil]
    exact ⟨fun _ => survives_nil, fun _ => ⟨_, rfl⟩⟩
  · rw [receiveFrame_bytes sys client w hnil]
    have hk := length_firstBytes_le sys client w
    by_cases hsurvives : Survives (firstBytes sys client w)
    · obtain ⟨packet, w', hrun⟩ := receivePacket_ok sys client hk hsurvives
        (sys.received client.fd WS_MAX_HEADER_LEN .dontWait w).2
      rw [hrun]
      cases packet <;> simp [hsurvives]
    · obtain ⟨e, w', hrun, -⟩ := receivePacket_error sys client hk hsurvives
        (sys.received client.fd WS_MAX_HEADER_LEN .dontWait w).2
      rw [hrun]
      simp [hsurvives]

/-- **Payload bounds.**  The payload is an array of `packet.length` bytes, and a write
outside it halts with `outOfBounds`.  None of the three writers of the payload does so,
exactly if the first read does not spell a masked frame with a payload of which the head
is incomplete or the end was passed. -/
theorem receiveFrame_inBounds_iff :
    (receiveFrame sys client w).outcome ≠ .error .outOfBounds ↔
      ¬ PayloadOverrun (firstBytes sys client w) := by
  refine not_congr ?_
  by_cases hsurvives : Survives (firstBytes sys client w)
  · obtain ⟨a, ha⟩ := (receiveFrame_ok_iff sys client w).mpr hsurvives
    rw [ha]
    simp [hsurvives.1]
  · have hnil : firstBytes sys client w ≠ [] := by
      intro hnil
      exact hsurvives (hnil ▸ survives_nil)
    obtain ⟨e, w', hrun, he⟩ := receivePacket_error sys client
      (length_firstBytes_le sys client w) hsurvives
      (sys.received client.fd WS_MAX_HEADER_LEN .dontWait w).2
    rw [receiveFrame_bytes sys client w hnil, hrun]
    simp [he]

end InBounds

/-- A client sends two masked texts of one byte each, and the first read returns both:
the decode loop of the first runs over eight bytes, its payload has one. -/
theorem two_short_frames_overrun :
    (receiveFrame Script.sys Client.blank
      { recvs := [some [0x81, 0x81, 1, 2, 3, 4, 0x68, 0x81, 0x81, 1, 2, 3, 4, 0x69]] }).outcome =
      .error .outOfBounds := by
  have hk := length_firstBytes_le Script.sys Client.blank
    { recvs := [some [0x81, 0x81, 1, 2, 3, 4, 0x68, 0x81, 0x81, 1, 2, 3, 4, 0x69]] }
  have hover : PayloadOverrun (firstBytes Script.sys Client.blank
      { recvs := [some [0x81, 0x81, 1, 2, 3, 4, 0x68, 0x81, 0x81, 1, 2, 3, 4, 0x69]] }) := by
    decide +kernel
  obtain ⟨e, w', hrun, he⟩ := receivePacket_error Script.sys Client.blank hk
    (fun h => h.1 hover) { recvs := [] }
  rw [receiveFrame_bytes _ _ _ (by decide +kernel)]
  exact hrun ▸ congrArg Except.error (he.mpr hover)

/-! ## The callbacks of the web socket layer -/

/-- The callbacks return. -/
structure WSServer.Returns (ws : WSServer ω) : Prop where
  onpacket : ∀ f, ws.onpacket = some f → ∀ server client packet,
    Proc.Returns (f server client packet)
  onmessage : ∀ f, ws.onmessage = some f → ∀ server client packet,
    Proc.Returns (f server client packet)

/-- No first read is among the events. -/
def NoReceived (t : List WsEvent) : Prop := ∀ e ∈ t, ∀ bytes, e ≠ .received bytes

section Dispatch

variable (ws : WSServer ω)

theorem dispatchPacket_returns (hws : ws.Returns) (server : Server) (client : Client)
    (packet : WSPacket) : Proc.Returns (dispatchPacket ws server client packet) := by
  have hdeliver : ∀ client, Proc.Returns (deliverPacket ws server client packet) := by
    intro client
    unfold deliverPacket
    cases hf : ws.onmessage with
    | none => exact Proc.Returns.pure client
    | some f =>
      exact Proc.Returns.bind (Proc.Returns.emit _)
        fun _ => (hws.onmessage f hf server client packet).mapOut _
  unfold dispatchPacket
  cases hf : ws.onpacket with
  | none => exact Proc.Returns.pure _
  | some f =>
    refine Proc.Returns.bind ((hws.onpacket f hf server client packet).mapOut _) fun a => ?_
    refine Proc.Returns.ite ?_ (Proc.Returns.pure _)
    exact Proc.Returns.bind (hdeliver a.2) fun client => Proc.Returns.pure _

/-- The callbacks make no first reads. -/
theorem dispatchPacket_noReceived (server : Server) (client : Client) (packet : WSPacket) :
    Proc.Keeps (fun t _ => NoReceived t) (dispatchPacket ws server client packet) := by
  have happend : ∀ {t u : List WsEvent}, NoReceived t → NoReceived u → NoReceived (t ++ u) := by
    intro t u ht hu e he
    rcases List.mem_append.mp he with he | he
    · exact ht e he
    · exact hu e he
  have hnet : ∀ {α : Type} (m : Proc Halt ω NetEvent α),
      Proc.Keeps (fun t _ => NoReceived t) (Proc.mapOut .net m) := by
    intro α m t w ht
    have hout : NoReceived (t ++ (m w).out.map .net) := by
      refine happend ht ?_
      intro e he bytes
      obtain ⟨e', -, rfl⟩ := List.mem_map.mp he
      exact fun h => by cases h
    rw [Proc.mapOut_run]
    unfold Proc.Post
    split <;> exact hout
  have hdeliver : ∀ client,
      Proc.Keeps (fun t _ => NoReceived t) (deliverPacket ws server client packet) := by
    intro client
    unfold deliverPacket
    split
    · exact Proc.Keeps.pure _
    · refine Proc.Keeps.bind (Proc.Triple.emit fun t w ht => happend ht ?_) fun _ => hnet _
      intro e he bytes
      rw [List.mem_singleton] at he
      subst he
      exact fun h => by cases h
  unfold dispatchPacket
  split
  · exact Proc.Keeps.pure _
  · refine Proc.Keeps.bind (hnet _) fun a => ?_
    refine Proc.Keeps.ite (fun _ => ?_) fun _ => Proc.Keeps.pure _
    exact Proc.Keeps.bind (hdeliver a.2) fun _ => Proc.Keeps.pure _

end Dispatch

/-! ## wsHandleMessages -/

section HandleMessages

variable (sys : Sys ω) {ws : WSServer ω} (server : Server) (client : Client) (w : ω)

/-- The only event of receiving a frame is its first read. -/
theorem receiveFrame_out :
    (receiveFrame sys client w).out =
      if firstBytes sys client w = [] then [] else [.received (firstBytes sys client w)] := by
  by_cases hnil : firstBytes sys client w = []
  · obtain ⟨status, w', hrun⟩ := receiveFrame_idle sys client w hnil
    rw [hrun, if_pos hnil]
  · rw [receiveFrame_bytes sys client w hnil, if_neg hnil]
    have hk := length_firstBytes_le sys client w
    by_cases hsurvives : Survives (firstBytes sys client w)
    · obtain ⟨packet, w', hrun⟩ := receivePacket_ok sys client hk hsurvives
        (sys.received client.fd WS_MAX_HEADER_LEN .dontWait w).2
      rw [hrun]
      cases packet <;> rfl
    · obtain ⟨e, w', hrun, -⟩ := receivePacket_error sys client hk hsurvives
        (sys.received client.fd WS_MAX_HEADER_LEN .dontWait w).2
      rw [hrun]

/-- Receiving a frame changes nothing in the record but the buffer. -/
theorem receiveFrame_client {received : Except ConnStatus WSPacket} {client' : Client}
    (h : (receiveFrame sys client w).outcome = .ok (received, client')) :
    client' = client.fillBuffer (firstBytes sys client w) := by
  by_cases hnil : firstBytes sys client w = []
  · obtain ⟨status, w', hrun⟩ := receiveFrame_idle sys client w hnil
    rw [hrun] at h
    cases h
    rfl
  · rw [receiveFrame_bytes sys client w hnil] at h
    rcases hrun : receivePacket sys (client.fillBuffer (firstBytes sys client w))
      (firstBytes sys client w).length
      (sys.received client.fd WS_MAX_HEADER_LEN .dontWait w).2 with ⟨o, w', out⟩
    rw [hrun] at h
    cases o with
    | error e => cases h
    | ok packet =>
      cases packet with
      | none =>
        cases h
        rfl
      | some packet =>
        cases h
        rfl

/-- A call of `wsHandleMessages` makes one first read, and returns exactly if it is
survived. -/
theorem wsHandleMessages_ok_iff (hws : ws.Returns) :
    (∃ a, (wsHandleMessages sys ws server client w).outcome = .ok a) ↔
      ∀ bytes, .received bytes ∈ (wsHandleMessages sys ws server client w).out →
        Survives bytes := by
  have hout := receiveFrame_out sys client w
  have hok := receiveFrame_ok_iff sys client w
  -- The events of the whole call: the first read, and then none that is one.
  have hfirst : ∀ tail, NoReceived tail →
      ((∀ bytes, WsEvent.received bytes ∈ (receiveFrame sys client w).out ++ tail →
        Survives bytes) ↔ Survives (firstBytes sys client w)) := by
    intro tail htail
    rw [hout]
    constructor
    · intro h
      by_cases hnil : firstBytes sys client w = []
      · rw [hnil]
        exact survives_nil
      · exact h _ (by simp [hnil])
    · intro h bytes hmem
      rcases List.mem_append.mp hmem with hmem | hmem
      · split at hmem
        · cases hmem
        · rw [List.mem_singleton] at hmem
          cases hmem
          exact h
      · exact absurd rfl (htail _ hmem bytes)
  unfold wsHandleMessages
  rcases hrun : receiveFrame sys client w with ⟨r, w', out⟩
  rw [hrun] at hok hfirst
  cases r with
  | error e =>
    rw [Proc.bind_run_error hrun]
    have h := hfirst [] (by simp [NoReceived])
    rw [List.append_nil] at h
    rw [h, ← hok]
    constructor
    · rintro ⟨_, ha⟩
      cases ha
    · rintro ⟨_, ha⟩
      cases ha
  | ok a =>
    obtain ⟨received, client'⟩ := a
    rw [Proc.bind_run_ok hrun]
    cases received with
    | error status =>
      rw [hfirst _ (by simp [NoReceived]), ← hok]
      exact ⟨fun _ => ⟨_, rfl⟩, fun _ => ⟨_, rfl⟩⟩
    | ok packet =>
      have hno : NoReceived (dispatchPacket ws server client' packet w').out :=
        (dispatchPacket_noReceived ws server client' packet).run (by simp [NoReceived])
      rw [hfirst _ hno, ← hok]
      exact ⟨fun _ => ⟨_, rfl⟩, fun _ => dispatchPacket_returns ws hws server client' packet w'⟩

end HandleMessages

/-! ## Every run of the server -/

/-- **No remote abort, exactly.**  In every run of an initialised server, every call of
`wsHandleMessages` returns a status, if and only if every first read of the run is
survived. -/
theorem serve_handled_iff (sys : Sys ω) (cb : Callbacks ω WsEvent) {ws : WSServer ω}
    (hcb : cb.onmessage = some (wsHandleMessages sys ws)) (hws : ws.Returns)
    {config : ServerConfig} (hmax : 1 ≤ config.max_connections) {m₀ m : Machine ω}
    {out : List (ConnEvent WsEvent)}
    (hinit : conInitServer sys config m₀ = ⟨.ok 0, m, out⟩) (n : Nat) :
    (∀ server client status events,
      .callback .onmessage server client status events ∈ (serve sys cb n m).out →
        status ≠ none) ↔
    (∀ server client status events bytes,
      .callback .onmessage server client status events ∈ (serve sys cb n m).out →
        .received bytes ∈ events → Survives bytes) := by
  obtain ⟨-, hs, -⟩ := conInitServer_ok sys hmax hinit
  -- One event: it is a call of `wsHandleMessages`.
  have hcall : ∀ server client status events,
      .callback .onmessage server client status events ∈ (serve sys cb n m).out →
      (status ≠ none ↔ ∀ bytes, WsEvent.received bytes ∈ events → Survives bytes) := by
    intro server client status events hmem
    obtain ⟨s, -, rfl, ⟨f, w, r, w', hf, hrun, rfl⟩ | ⟨hkind, -⟩⟩ :=
      (serve_inSync sys cb hs n).2 _ hmem
    · have hf' : f = wsHandleMessages sys ws := by
        have : cb.onmessage = some f := hf
        rw [hcb] at this
        exact (Option.some.inj this).symm
      subst hf'
      have hiff := wsHandleMessages_ok_iff sys server client w hws
      rw [hrun] at hiff
      rw [← hiff]
      cases r with
      | error e => simp [answered]
      | ok a => simp [answered]
    · cases hkind
  constructor
  · intro h server client status events bytes hmem
    exact (hcall server client status events hmem).mp (h _ _ _ _ hmem) bytes
  · intro h server client status events hmem
    exact (hcall server client status events hmem).mpr fun bytes => h _ _ _ _ bytes hmem

/-- A server that takes every packet and does nothing with it. -/
def quietServer : WSServer Script where
  bare_server := true
  onconnect := none
  onmessage := some fun _ client _ => pure client
  onpacket := some fun _ client _ => pure (.keepAlive, client)

theorem quietServer_returns : quietServer.Returns := by
  refine ⟨?_, ?_⟩
  · intro f hf server client packet
    cases hf
    exact Proc.Returns.pure _
  · intro f hf server client packet
    cases hf
    exact Proc.Returns.pure _

/-- The connection layer with `wsHandleMessages`, and every connection accepted. -/
def quietCallbacks : Callbacks Script WsEvent :=
  { constantCallbacks .keepAlive with onmessage := some (wsHandleMessages Script.sys quietServer) }

/-- One client connects and sends a masked text of one byte. -/
theorem serve_handled_iff_one_text :
    let r := serve Script.sys quietCallbacks 2
      (startServer
        { polls := [(1, [POLLIN]), (1, [0#16, POLLIN])]
          accepts := [4]
          recvs := [none, some [0x81], some [0x81, 0x81, 1, 2, 3, 4, 0x68]] })
    (∀ server client status events,
      .callback .onmessage server client status events ∈ r.out → status ≠ none) ↔
    (∀ server client status events bytes,
      .callback .onmessage server client status events ∈ r.out →
        .received bytes ∈ events → Survives bytes) :=
  serve_handled_iff Script.sys quietCallbacks rfl quietServer_returns
    one_le_threeSlots (startServer_init _) 2

/-- One client connects and sends the first fragment of a text: the process ends. -/
theorem first_fragment_aborts :
    (serve Script.sys quietCallbacks 2
      (startServer
        { polls := [(1, [POLLIN]), (1, [0#16, POLLIN])]
          accepts := [4]
          recvs := [none, some [0x01], some [0x01, 0x81, 1, 2, 3, 4, 0x68]] })).outcome =
      .error .abort := by
  decide +kernel

end NoGround
