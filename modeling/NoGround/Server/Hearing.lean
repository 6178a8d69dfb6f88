/-
  Server/Hearing.lean --- a client that reads its stream finds the posts of the run.

  The streams are followed event by event (`hears_of_callOn`), and then over a whole run.  It
  does not matter what the sockets of the others take: of a client's own socket it is assumed
  that it takes what it is given.  The answer to a handshake is written before the client is
  registered, and is no part of its stream here.
-/
import NoGround.Server.Posts

set_option autoImplicit false

namespace NoGround

open NoGround.Lib

variable {ω : Type}

/-! ## Frames that arrive -/

/-- The socket takes all it is given. -/
def TakesAll (fd : Int) (t : List NetEvent) : Prop := ∀ send ∈ sendsTo fd t, send.2 = send.1

instance (fd : Int) (t : List NetEvent) : Decidable (TakesAll fd t) :=
  inferInstanceAs (Decidable (∀ send ∈ sendsTo fd t, send.2 = send.1))

/-- The frames that are to be written to a socket. -/
def framesTo (fd : Int) (t : List NetEvent) : List (List UInt8) :=
  (writesTo fd t).map Write.frame

/-- A socket that takes all it is given takes the frames. -/
theorem WellWritten.streamTo_full {t : List NetEvent} (ht : WellWritten t) {fd : Int}
    (hall : TakesAll fd t) : streamTo fd t = (framesTo fd t).flatten := by
  unfold framesTo
  induction ht with
  | nil => rfl
  | broadcast frame fds _ ih => exact ih hall
  | @write fd' frame sends t hsends ht ih =>
    by_cases hfd : fd' = fd
    · subst hfd
      have hsendsTo : sendsTo fd' (.frame fd' frame :: (sentEvents fd' sends ++ t)) =
          sends.map (fun s => (s.1.length, s.2)) ++ sendsTo fd' t := sendsTo_sentEvents sends t
      unfold TakesAll at hall
      rw [hsendsTo, List.forall_mem_append, List.forall_mem_map] at hall
      have htaken : takenOf sends = frame := hsends.full.mpr hall.1
      rw [ht.writesTo_write, List.map_cons, List.flatten_cons, ← ih hall.2, htaken]
      exact (streamTo_sentEvents sends t).trans (congrArg (· ++ streamTo fd' t) htaken)
    · have hsendsTo : sendsTo fd (.frame fd' frame :: (sentEvents fd' sends ++ t)) =
          sendsTo fd t := sendsTo_sentEvents_of_ne sends t hfd
      have hstream : streamTo fd (.frame fd' frame :: (sentEvents fd' sends ++ t)) =
          streamTo fd t := streamTo_sentEvents_of_ne sends t hfd
      unfold TakesAll at hall
      rw [hsendsTo] at hall
      rw [writesTo_write_of_ne hfd, hstream]
      exact ih hall

theorem WellWritten.framesTo_append {t u : List NetEvent} (ht : WellWritten t)
    (hu : WellWritten u) (fd : Int) : framesTo fd (t ++ u) = framesTo fd t ++ framesTo fd u := by
  unfold framesTo
  rw [ht.writesTo_append hu, List.map_append]

section Sends

variable (sys : Sys ω)

theorem wsSendPacket_framesTo (client : Client) (packet : WSPacket) (fd : Int) (w : ω) :
    framesTo fd (wsSendPacket sys client packet w).out =
      if client.fd = fd then [packet.frame] else [] := by
  obtain ⟨r, w', n, rest, hrun, hrest⟩ := wsSendPacket_run sys client packet w
  have hwrites : writesTo fd rest = [] := by
    rcases hrest with ⟨-, rfl⟩ | ⟨-, k, -, rfl⟩ <;> rfl
  rw [hrun]
  unfold framesTo
  by_cases hfd : client.fd = fd
  · rw [writesTo, if_pos hfd, writesTo, hwrites, if_pos hfd]
    rfl
  · rw [writesTo, if_neg hfd, writesTo, hwrites, if_neg hfd]
    rfl

theorem sendToEach_framesTo (packet : WSPacket) (clients : List Client) (fd : Int) (w : ω) :
    framesTo fd (sendToEach sys packet clients w).out =
      (clients.filter (·.fd = fd)).map fun _ => packet.frame := by
  induction clients generalizing w with
  | nil => rfl
  | cons client clients ih =>
    obtain ⟨r, w₁, n, tail, hrun, -⟩ := wsSendPacket_run sys client packet w
    have hone := wsSendPacket_framesTo sys client packet fd w
    have hfirst := wsSendPacket_wellWritten sys client packet w
    have hwell : WellWritten (sendToEach sys packet clients w₁).out :=
      (sendToEach_wellWritten sys packet clients).run .nil
    have hrest := ih w₁
    obtain ⟨r', w₂, out, hall, -⟩ := sendToEach_run sys packet clients w₁
    rw [hrun] at hone hfirst
    rw [hall] at hwell hrest
    have hout : (sendToEach sys packet (client :: clients) w).out =
        (.frame client.fd packet.frame :: .sent client.fd packet.headerBytes n :: tail) ++ out := by
      rw [sendToEach, Proc.bind_run_ok hrun, Proc.bind_run_ok hall]
      simp
    rw [hout, hfirst.framesTo_append hwell, hone, hrest, List.filter_cons]
    by_cases hfd : client.fd = fd
    · simp [hfd]
    · simp [hfd]

/-- A broadcast is written once to each client of the table. -/
theorem wsSendToAll_framesTo {server : Server} (hnodup : server.fds.Nodup) (packet : WSPacket)
    (fd : Int) (w : ω) :
    framesTo fd (wsSendToAll sys (some server) packet w).out =
      if fd ∈ server.fds then [packet.frame] else [] := by
  show framesTo fd ((Proc.emit (.broadcast packet.frame server.fds) >>= fun _ =>
    sendToEach sys packet server.clients.items) w).out = _
  rw [Proc.emit_bind_run]
  show framesTo fd (sendToEach sys packet server.clients.items w).out = _
  rw [sendToEach_framesTo, filter_fd_of_nodup hnodup]
  rfl

theorem wsHandlePing_framesTo (client : Client) (fd : Int) (w : ω) :
    framesTo fd (wsHandlePing sys client w).out =
      if client.fd = fd then [pingHeader.toBytes] else [] := by
  obtain ⟨status, client', w', hrun, -⟩ := wsHandlePing_run sys client w
  rw [hrun]
  unfold framesTo
  by_cases hfd : client.fd = fd
  · rw [writesTo, if_pos hfd, if_pos hfd]
    rfl
  · rw [writesTo, if_neg hfd, if_neg hfd]
    rfl

end Sends

/-! ## What is heard at an event -/

/-- What the callbacks send, pings among it. -/
def sentAt (e : ConnEvent WsEvent) : List NetEvent := netEvents (emitted e)

/-- What is sent in a run. -/
def sentIn (t : List (ConnEvent WsEvent)) : List NetEvent := t.flatMap sentAt

/-- The frame of a ping. -/
def pingFrame : ServerFrame := ⟨WS_OP_PING, 0#3, []⟩

theorem wire_pingFrame : pingFrame.wire = pingHeader.toBytes := by decide

/-- What a client in the room hears at an event: its own pings, and what is posted. -/
def heardAt (fd : Int) : ConnEvent WsEvent → List ServerFrame
  | .callback .onping _ client _ _ => if client.fd = fd then [pingFrame] else []
  | e => (postsAt e).map fun post => post.packet.sent

theorem heardAt_onping (fd : Int) (server : Server) (client : Client)
    (status : Option ConnStatus) (out : List WsEvent) :
    heardAt fd (.callback .onping server client status out) =
      if client.fd = fd then [pingFrame] else [] := rfl

/-- What it hears in a run. -/
def heardIn (fd : Int) (t : List (ConnEvent WsEvent)) : List ServerFrame :=
  t.flatMap (heardAt fd)

section Events

variable (sys : Sys ω) (accept_key : List UInt8 → List UInt8)

/-- What is announced to a room is heard in it. -/
theorem Announces.heard {server : Server} {ps : List Post} {t : List NetEvent}
    (h : Announces sys server ps t) (hnodup : server.fds.Nodup) {fd : Int}
    (hfd : fd ∈ server.fds) (hall : TakesAll fd t) :
    streamTo fd t = (ps.map fun post => post.packet.sent).flatMap ServerFrame.wire := by
  rcases h with ⟨rfl, rfl⟩ | ⟨post, w, rfl, hproper, rfl⟩
  · rfl
  · have hwell : WellWritten (wsSendToAll sys (some server) post.packet w).out :=
      (wsSendToAll_wellWritten sys (some server) post.packet).run .nil
    rw [hwell.streamTo_full hall, wsSendToAll_framesTo sys hnodup, if_pos hfd,
      WSPacket.frame_eq_wire hproper.whole.data]
    simp

/-- **One event.**  A client of the table takes what it is to hear. -/
theorem hears_of_callOn {s : Server} {e : ConnEvent WsEvent}
    (h : CallOn (skserver sys accept_key) s e) (hnodup : s.fds.Nodup) {fd : Int}
    (hfd : fd ∈ s.fds) (hall : TakesAll fd (sentAt e)) :
    streamTo fd (sentAt e) = (heardAt fd e).flatMap ServerFrame.wire := by
  have hannounces := announces_of_callOn sys accept_key h
  cases e with
  | accepted fd' => rfl
  | registered fd' => rfl
  | closed fd' => rfl
  | deleted fd' => rfl
  | callback kind server client status out =>
    cases kind with
    | onconnect => exact hannounces.heard sys hnodup hfd hall
    | ondisconnect => exact hannounces.heard sys hnodup hfd hall
    | onmessage => exact hannounces.heard sys hnodup hfd hall
    | onping =>
      obtain ⟨-, ⟨f, w, r, w', hf, hrun, -⟩ | ⟨hkind, -⟩⟩ := h
      · cases hf
        have hwell := wsHandlePing_wellWritten sys client w
        have hmapped : Proc.mapOut WsEvent.net (wsHandlePing sys client) w = ⟨r, w', out⟩ := hrun
        rw [Proc.mapOut_run] at hmapped
        cases hmapped
        have hsent : sentAt (.callback .onping server client status
            ((wsHandlePing sys client w).out.map .net)) = (wsHandlePing sys client w).out :=
          netEvents_map_net _
        rw [hsent] at hall ⊢
        rw [hwell.streamTo_full hall, wsHandlePing_framesTo, heardAt_onping]
        by_cases hclient : client.fd = fd
        · rw [if_pos hclient, if_pos hclient, List.flatten_singleton, List.flatMap_singleton,
            wire_pingFrame]
        · rw [if_neg hclient, if_neg hclient]
          rfl
      · cases hkind

/-- Every post of a callback is a whole message. -/
theorem proper_of_callOn {s : Server} {e : ConnEvent WsEvent}
    (h : CallOn (skserver sys accept_key) s e) : ∀ post ∈ postsAt e, post.Proper := by
  intro post hmem
  rcases announces_of_callOn sys accept_key h with ⟨hnil, -⟩ | ⟨post', w, hone, hproper, -⟩
  · rw [hnil] at hmem
    cases hmem
  · rw [hone, List.mem_singleton] at hmem
    exact hmem ▸ hproper

end Events

/-! ## What is heard in a run -/

theorem streamTo_append (fd : Int) (t u : List NetEvent) :
    streamTo fd (t ++ u) = streamTo fd t ++ streamTo fd u := by
  induction t with
  | nil => rfl
  | cons e t ih =>
    cases e with
    | broadcast frame fds => exact ih
    | frame fd' frame => exact ih
    | sent fd' message accepted =>
      by_cases hfd : fd' = fd
      · rw [List.cons_append, streamTo, if_pos hfd, streamTo, if_pos hfd, ih, List.append_assoc]
      · rw [List.cons_append, streamTo, if_neg hfd, streamTo, if_neg hfd, ih]

theorem sendsTo_append (fd : Int) (t u : List NetEvent) :
    sendsTo fd (t ++ u) = sendsTo fd t ++ sendsTo fd u := by
  induction t with
  | nil => rfl
  | cons e t ih =>
    cases e with
    | broadcast frame fds => exact ih
    | frame fd' frame => exact ih
    | sent fd' message accepted =>
      by_cases hfd : fd' = fd
      · rw [List.cons_append, sendsTo, if_pos hfd, sendsTo, if_pos hfd, ih, List.cons_append]
      · rw [List.cons_append, sendsTo, if_neg hfd, sendsTo, if_neg hfd, ih]

theorem TakesAll.of_append {fd : Int} {t u : List NetEvent} (h : TakesAll fd (t ++ u)) :
    TakesAll fd t ∧ TakesAll fd u := by
  unfold TakesAll at h
  rw [sendsTo_append] at h
  exact List.forall_mem_append.mp h

/-- What a client in the room takes is what it is to hear. -/
def Hears (before : List (ConnEvent WsEvent)) (e : ConnEvent WsEvent) : Prop :=
  ∀ fd ∈ registeredFds before, TakesAll fd (sentAt e) →
    streamTo fd (sentAt e) = (heardAt fd e).flatMap ServerFrame.wire

/-- A client that stays registered hears everything. -/
theorem streamTo_eq_heardIn {t u : List (ConnEvent WsEvent)} {fd : Int}
    (heach : EachEvent Hears (t ++ u)) (hend : fd ∈ registeredFds (t ++ u))
    (hno : .registered fd ∉ u) (hall : TakesAll fd (sentIn u)) :
    streamTo fd (sentIn u) = (heardIn fd u).flatMap ServerFrame.wire := by
  induction u generalizing t with
  | nil => rfl
  | cons e u ih =>
    have hgain : ∀ e' ∈ e :: u, registryMove e' ≠ .gain fd := by
      intro e' he' hmove
      cases e' with
      | registered fd' =>
        cases hmove
        exact hno he'
      | accepted fd' => cases hmove
      | closed fd' => cases hmove
      | deleted fd' => cases hmove
      | callback kind server client status out => cases hmove
    have hmem : fd ∈ registeredFds t := mem_held_of_append registryMove hend hgain
    have hsent : sentIn (e :: u) = sentAt e ++ sentIn u := List.flatMap_cons
    have hheard : heardIn fd (e :: u) = heardAt fd e ++ heardIn fd u := List.flatMap_cons
    rw [hsent] at hall ⊢
    obtain ⟨hall₁, hall₂⟩ := hall.of_append
    have hfirst := heach t e u rfl fd hmem hall₁
    have hsplit : t ++ e :: u = (t ++ [e]) ++ u := by simp
    rw [hsplit] at heach hend
    have hrest := ih heach hend (fun hmem => hno (List.mem_cons_of_mem e hmem)) hall₂
    rw [streamTo_append, hfirst, hrest, hheard, List.flatMap_append]

/-- Without the pings, it hears what is posted. -/
theorem heardIn_filter {t : List (ConnEvent WsEvent)}
    (hproper : ∀ e ∈ t, ∀ post ∈ postsAt e, post.Proper) (fd : Int) :
    (heardIn fd t).filter (·.opcode ≠ WS_OP_PING) =
      (posts t).map fun post => post.packet.sent := by
  have hposts {ps : List Post} (hps : ∀ post ∈ ps, post.Proper) :
      (ps.map fun post => post.packet.sent).filter (·.opcode ≠ WS_OP_PING) =
        ps.map fun post => post.packet.sent := by
    apply List.filter_eq_self.mpr
    intro frame hframe
    obtain ⟨post, hpost, rfl⟩ := List.mem_map.mp hframe
    apply decide_eq_true
    show post.packet.header.opcode ≠ WS_OP_PING
    rcases isMessage_iff.mp (hps post hpost).message with h | h
    · rw [h]
      decide
    · rw [h]
      decide
  induction t with
  | nil => rfl
  | cons e t ih =>
    have hheard : heardIn fd (e :: t) = heardAt fd e ++ heardIn fd t := List.flatMap_cons
    have hposted : posts (e :: t) = postsAt e ++ posts t := List.flatMap_cons
    have hfirst := hproper e List.mem_cons_self
    have hrest := ih fun e' he' => hproper e' (List.mem_cons_of_mem e he')
    have he : (heardAt fd e).filter (·.opcode ≠ WS_OP_PING) =
        (postsAt e).map fun post => post.packet.sent := by
      cases e with
      | accepted fd' => rfl
      | registered fd' => rfl
      | closed fd' => rfl
      | deleted fd' => rfl
      | callback kind server client status out =>
        cases kind with
        | onconnect => exact hposts hfirst
        | ondisconnect => exact hposts hfirst
        | onmessage => exact hposts hfirst
        | onping =>
          rw [heardAt_onping]
          split <;> rfl
    rw [hheard, hposted, List.filter_append, List.map_append, he, hrest]

theorem delimits_heardIn {t : List (ConnEvent WsEvent)}
    (hproper : ∀ e ∈ t, ∀ post ∈ postsAt e, post.Proper) (fd : Int) :
    ∀ frame ∈ heardIn fd t, Delimits readFrame ServerFrame.wire frame := by
  intro frame hframe
  obtain ⟨e, he, hmem⟩ := List.mem_flatMap.mp hframe
  apply ServerFrame.delimits
  have hposts (hmem : frame ∈ (postsAt e).map fun post => post.packet.sent) :
      frame.data.length ≤ MAX_WS_PACKET_LENGTH := by
    obtain ⟨post, hpost, rfl⟩ := List.mem_map.mp hmem
    obtain ⟨hdata, hle⟩ := (hproper e he post hpost).whole
    exact hdata.trans_le hle
  cases e with
  | accepted fd' => cases hmem
  | registered fd' => cases hmem
  | closed fd' => cases hmem
  | deleted fd' => cases hmem
  | callback kind server client status out =>
    cases kind with
    | onconnect => exact hposts hmem
    | ondisconnect => exact hposts hmem
    | onmessage => exact hposts hmem
    | onping =>
      rw [heardAt_onping] at hmem
      split at hmem
      · rw [List.mem_singleton.mp hmem]
        exact Nat.zero_le _
      · cases hmem

/-- **What everybody hears**, in a run with the trace `t` that ends in `s`.  A client that was
registered and stayed, and whose socket took what it was given, reads frame by frame what was
posted since: each post once, in the order of the run, with the opcode, the reserved bits and
the payload it was posted with; and besides nothing but pings. -/
def EverybodyHears (t : List (ConnEvent WsEvent)) (s : Server) : Prop :=
  ∀ before fd after, t = before ++ .registered fd :: after → .registered fd ∉ after →
    fd ∈ s.fds → TakesAll fd (sentIn after) →
    ∃ heard, records readFrame (streamTo fd (sentIn after)) = some heard ∧
      heard.filter (·.opcode ≠ WS_OP_PING) = (posts after).map fun post => post.packet.sent

/-- A client that is registered somewhere in a trace, and at its end, hears what comes behind. -/
theorem hears_of_registered {t u : List (ConnEvent WsEvent)} {fd : Int}
    (heach : EachEvent Hears (t ++ u)) (hproper : ∀ e ∈ u, ∀ post ∈ postsAt e, post.Proper)
    (hend : fd ∈ registeredFds (t ++ u)) (hno : .registered fd ∉ u)
    (hall : TakesAll fd (sentIn u)) :
    ∃ heard, records readFrame (streamTo fd (sentIn u)) = some heard ∧
      heard.filter (·.opcode ≠ WS_OP_PING) = (posts u).map fun post => post.packet.sent := by
  refine ⟨heardIn fd u, ?_, heardIn_filter hproper fd⟩
  rw [streamTo_eq_heardIn heach hend hno hall]
  exact records_flatMap (delimits_heardIn hproper fd)

section Runs

variable {sys : Sys ω} {accept_key : List UInt8 → List UInt8} {t : List (ConnEvent WsEvent)}

theorem each_hears (hcalls : EachEvent (CalledOn (skserver sys accept_key)) t)
    (honce : EachEvent (fun before _ => (registeredFds before).Nodup) t) :
    EachEvent Hears t := by
  intro before e after heq fd hfd hall
  obtain ⟨s, hcall, hperm⟩ := hcalls before e after heq
  have hnodup : s.fds.Nodup := hperm.nodup_iff.mp (honce before e after heq)
  exact hears_of_callOn sys accept_key hcall hnodup (hperm.mem_iff.mp hfd) hall

theorem each_proper (hcalls : EachEvent (CalledOn (skserver sys accept_key)) t) :
    ∀ e ∈ t, ∀ post ∈ postsAt e, post.Proper := by
  intro e he
  obtain ⟨before, after, heq⟩ := List.append_of_mem he
  obtain ⟨s, hcall, -⟩ := hcalls before e after heq
  exact proper_of_callOn sys accept_key hcall

end Runs

/-- Every run of the game server from `conInitServer` with a fresh `accept`. -/
theorem serve_everybodyHears (sys : Sys ω) (accept_key : List UInt8 → List UInt8)
    {config : ServerConfig} (hmax : 1 ≤ config.max_connections) {m₀ m : Machine ω}
    {out : List (ConnEvent WsEvent)} (hinit : conInitServer sys config m₀ = ⟨.ok 0, m, out⟩)
    {n : Nat} (hfresh : AcceptsFresh (serve sys (skserver sys accept_key) n m).out) :
    EverybodyHears (serve sys (skserver sys accept_key) n m).out
      (serve sys (skserver sys accept_key) n m).state.server := by
  obtain ⟨-, hs, hempty, -⟩ := conInitServer_ok sys hmax hinit
  obtain ⟨hend, hcalls⟩ := serve_tenure sys (skserver sys accept_key) hs hempty n
  have honce := serve_once sys (skserver_neverRetries sys accept_key) hs hempty hfresh
  have heach := each_hears hcalls honce
  have hproper := each_proper hcalls
  intro before fd after heq hno hstays hall
  have hsplit : before ++ .registered fd :: after = (before ++ [.registered fd]) ++ after := by
    simp
  rw [heq, hsplit] at heach hend hproper
  exact hears_of_registered heach (fun e he => hproper e (List.mem_append_right _ he))
    (hend.mem_iff.mpr hstays) hno hall

/-- Two clients connect and one says something: three posts. -/
theorem serve_everybodyHears_two_clients :
    let r := serve Script.sys (skserver Script.sys fun _ => handshakeAcceptKey) 3
      (startServer twoClients)
    EverybodyHears r.out r.state.server ∧ r.state.server.fds = [4, 5] ∧
      (posts r.out).length = 3 := by
  refine ⟨serve_everybodyHears Script.sys _ one_le_threeSlots (startServer_init _) ?_, ?_⟩
  · decide +kernel
  · decide +kernel

end NoGround
