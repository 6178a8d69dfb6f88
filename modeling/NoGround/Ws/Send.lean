/-
  Ws/Send.lean --- writing frames: `conSendMessage` of server/conn.c, and
  `wsSendPacket`, `wsSendToAll` and `wsHandlePing` of server/ws.c.

  EVENTS.  `sent` is what a client's socket took of a message it was handed; a call
  whose descriptor was found invalid hands it nothing.  `frame` and `broadcast` mark
  where the source begins to write a frame and to write one to everybody.  They say
  what was meant to be written, the `sent` events that follow say what was.

  SIZES.  `send` answers with an `int`, and `wsSendPacket` compares it with the `u32`
  it asked for, so the answer counts modulo 2^32.
-/
import NoGround.Ws.Packet

set_option autoImplicit false

namespace NoGround

open NoGround.Lib

/-! ## Events -/

/-- What the callbacks of the web socket layer do that a client can see. -/
inductive NetEvent where
  /-- `wsSendToAll` was called, with these clients registered -/
  | broadcast (frame : List UInt8) (fds : List Int)
  /-- a frame is about to be written -/
  | frame (fd : Int) (frame : List UInt8)
  /-- the socket took the first `accepted` bytes of a message -/
  | sent (fd : Int) (message : List UInt8) (accepted : Nat)
  deriving DecidableEq

section Send

variable {ω : Type} (sys : Sys ω)

/-! ## conSendMessage (conn.c:19-32) -/

/-- The return value of `send`, as an `int`. -/
def sendValue : Option Nat → Int
  | none => -1
  | some n => toI32 n

/-- `send`: what the socket took is recorded. -/
def sendTraced (fd : Int) (message : List UInt8) : Proc Halt ω NetEvent Int := do
  let sent ← Proc.step (sys.sent fd message)
  Proc.emit (.sent fd message (sent.getD 0))
  return sendValue sent

/-- `conSendMessage`. -/
def conSendMessage (fd : Int) (message : List UInt8) : Proc Halt ω NetEvent Int := do
  let fd_ok ← Proc.step (sys.fcntl fd)
  if fd_ok < 0 then do
    Proc.emit (.sent fd message 0)
    return 0
  else do
    let sent ← sendTraced sys fd message
    return if sent = 0 then -1 else sent

/-! ## wsSendPacket (ws.c:332-371) -/

def SHRT_MAX : Nat := 32767

/-- The length code of the header, and the extended length behind it. -/
def encodeLength (length : Nat) : BitVec 7 × List UInt8 :=
  if length < 126 then (BitVec.ofNat 7 length, [])
  else if length < SHRT_MAX then (126#7, bytesBE 2 length)
  else (127#7, bytesBE 4 0 ++ bytesBE 4 length)

/-- The bytes `wsSendPacket` puts in front of the payload. -/
def WSPacket.headerBytes (packet : WSPacket) : List UInt8 :=
  { packet.header with
    mask := 0#1
    FIN := 1#1
    length := (encodeLength packet.length).1 }.toBytes ++ (encodeLength packet.length).2

/-- The whole frame. -/
def WSPacket.frame (packet : WSPacket) : List UInt8 := packet.headerBytes ++ packet.data

/-- The body is written only after a complete header (ws.c:358-370). -/
def sendFrame (fd : Int) (packet : WSPacket) : Proc Halt ω NetEvent Int := do
  let r ← conSendMessage sys fd packet.headerBytes
  if r ≠ packet.headerBytes.length then return 1
  else do
    let r ← conSendMessage sys fd packet.data
    return if toU32 r ≠ packet.length then 1 else 0

/-- `wsSendPacket`. -/
def wsSendPacket (client : Client) (packet : WSPacket) : Proc Halt ω NetEvent Int := do
  Proc.emit (.frame client.fd packet.frame)
  sendFrame sys client.fd packet

/-! ## wsSendToAll (ws.c:373-385) -/

/-- The loop of `wsSendToAll`: one packet to every client. -/
def sendToEach (packet : WSPacket) : List Client → Proc Halt ω NetEvent Int
  | [] => pure 0
  | client :: clients => do
    let err ← wsSendPacket sys client packet
    let has_err ← sendToEach packet clients
    return err + has_err

/-- `wsSendToAll`; `bserver` is what `wsserver->bare_server` points to. -/
def wsSendToAll (bserver : Option Server) (packet : WSPacket) : Proc Halt ω NetEvent Int :=
  match bserver with
  | none => pure 0
  | some bserver => do
    Proc.emit (.broadcast packet.frame bserver.fds)
    sendToEach sys packet bserver.clients.items

/-! ## wsHandlePing (ws.c:246-261) -/

/-- The header of a ping. -/
def pingHeader : WSFrameHeader := ⟨WS_OP_PING, 0#3, 1#1, 0#7, 0#1⟩

/-- `wsHandlePing`. -/
def wsHandlePing (client : Client) : Proc Halt ω NetEvent (ConnStatus × Client) := do
  Proc.emit (.frame client.fd pingHeader.toBytes)
  let err ← sendTraced sys client.fd pingHeader.toBytes
  if err < 0 then return (.kill, client)
  else do
    let now ← Proc.step sys.clock
    return (.keepAlive, { client with last_updated := now })

end Send

/-! ## What was written -/

/-- The bytes the socket `fd` took. -/
def streamTo (fd : Int) : List NetEvent → List UInt8
  | [] => []
  | .sent fd' message accepted :: t =>
      if fd' = fd then message.take accepted ++ streamTo fd t else streamTo fd t
  | .frame _ _ :: t => streamTo fd t
  | .broadcast _ _ :: t => streamTo fd t

/-- A `send` was not refused or cut short. -/
def NetEvent.InFull : NetEvent → Prop
  | .sent _ message accepted => accepted = message.length
  | .frame _ _ => True
  | .broadcast _ _ => True

instance : (e : NetEvent) → Decidable e.InFull
  | .sent _ message accepted => inferInstanceAs (Decidable (accepted = message.length))
  | .frame _ _ => inferInstanceAs (Decidable True)
  | .broadcast _ _ => inferInstanceAs (Decidable True)

/-- No `send` of the trace was. -/
def SentInFull (t : List NetEvent) : Prop := ∀ e ∈ t, e.InFull

instance (t : List NetEvent) : Decidable (SentInFull t) :=
  inferInstanceAs (Decidable (∀ e ∈ t, e.InFull))

/-! ## What each function shows -/

section Spec

variable {ω : Type} (sys : Sys ω)

theorem sent_le (fd : Int) (message : List UInt8) (w : ω) :
    (sys.sent fd message w).1.getD 0 ≤ message.length := by
  unfold Sys.sent
  simp only
  cases (sys.send fd message w).1 with
  | none => simp
  | some n => exact Nat.min_le_right n message.length

/-- A send is one event.  The answer tells a complete write from one cut short. -/
theorem conSendMessage_run (fd : Int) (message : List UInt8) (w : ω) :
    ∃ r w' n, conSendMessage sys fd message w = ⟨.ok r, w', [.sent fd message n]⟩ ∧
      n ≤ message.length ∧
      (0 < message.length → message.length < 2 ^ 31 →
        (r = message.length ↔ n = message.length)) := by
  unfold conSendMessage sendTraced
  simp only [Proc.step_bind_run]
  split
  · refine ⟨0, _, 0, rfl, Nat.zero_le _, ?_⟩
    intro hpos _
    omega
  · rcases hsent : sys.sent fd message (sys.fcntl fd w).2 with ⟨sent, w'⟩
    have hle : sent.getD 0 ≤ message.length := by
      have := sent_le sys fd message (sys.fcntl fd w).2
      rwa [hsent] at this
    refine ⟨if sendValue sent = 0 then -1 else sendValue sent, w', sent.getD 0, ?_, hle, ?_⟩
    · simp only [Proc.bind_assoc_run, Proc.step_bind_run, Proc.emit_bind_run,
        Proc.pure_bind_run, Proc.pure_run, hsent]
    · intro hpos hlt
      cases sent with
      | none =>
        show (if (-1 : Int) = 0 then -1 else -1) = (message.length : Int) ↔ 0 = message.length
        omega
      | some n =>
        have hn : n ≤ message.length := hle
        have hint : sendValue (some n) = n := toI32_of_lt (by omega)
        rw [hint, Option.getD_some]
        split <;> omega

/-- The header is two to ten bytes long. -/
theorem length_headerBytes (packet : WSPacket) :
    0 < packet.headerBytes.length ∧ packet.headerBytes.length < 2 ^ 31 := by
  unfold WSPacket.headerBytes encodeLength WSFrameHeader.toBytes
  split
  · simp
  · split <;> simp

/-- The events of one `wsSendPacket`: the header, and the payload if the header was
written completely. -/
theorem wsSendPacket_run (client : Client) (packet : WSPacket) (w : ω) :
    ∃ r w' n rest,
      wsSendPacket sys client packet w = ⟨.ok r, w',
        .frame client.fd packet.frame :: .sent client.fd packet.headerBytes n :: rest⟩ ∧
      (n < packet.headerBytes.length ∧ rest = [] ∨
        n = packet.headerBytes.length ∧
          ∃ k, k ≤ packet.data.length ∧ rest = [.sent client.fd packet.data k]) := by
  obtain ⟨hpos, hlt⟩ := length_headerBytes packet
  obtain ⟨r, w₁, n, hheader, hn, hfull⟩ :=
    conSendMessage_run sys client.fd packet.headerBytes w
  unfold wsSendPacket sendFrame
  rw [Proc.emit_bind_run, Proc.bind_run_ok hheader]
  by_cases hr : r = packet.headerBytes.length
  · obtain ⟨r', w₂, k, hdata, hk, -⟩ := conSendMessage_run sys client.fd packet.data w₁
    refine ⟨if toU32 r' ≠ packet.length then 1 else 0, w₂, n, [.sent client.fd packet.data k],
      ?_, .inr ⟨(hfull hpos hlt).mp hr, k, hk, rfl⟩⟩
    rw [if_neg (not_not.mpr hr), Proc.bind_run_ok hdata]
    simp
  · refine ⟨1, w₁, n, [], ?_, .inl ⟨?_, rfl⟩⟩
    · rw [if_pos hr]
      simp
    · have hne := mt (hfull hpos hlt).mpr hr
      omega

end Spec

end NoGround
