/-
  Ws/Messages.lean --- `wsHandleMessages` of server/ws.c.

  The function is cut in two where the source has its comments: a frame is received
  (`receiveFrame`), and handed to the callbacks (`dispatchPacket`).  `onpacket`
  and `onmessage` are handed the packet and leave it as it is.

  EVENTS.  `received` holds the bytes of a first read, `delivered` the packet that is
  handed to `onmessage`.
-/
import NoGround.Ws.Send

set_option autoImplicit false

namespace NoGround

open NoGround.Lib

/-! ## WSServer (ws.h:72-81) -/

/-- What the web socket layer does that can be seen. -/
inductive WsEvent where
  /-- the bytes of the first read of `wsHandleMessages` -/
  | received (bytes : List UInt8)
  /-- `onmessage` is called with this packet -/
  | delivered (packet : WSPacket)
  /-- the socket took the first `accepted` bytes of the answer to a handshake -/
  | handshake (fd : Int) (response : List UInt8) (accepted : Nat)
  | net (e : NetEvent)

section WSServer

variable (ω : Type)

/-- `OnWSConnect`. -/
abbrev OnWSConnect : Type := Callback ω NetEvent

/-- `OnWSPacket`. -/
abbrev OnWSPacket : Type :=
  Server → Client → WSPacket → Proc Halt ω NetEvent (ConnStatus × Client)

/-- `OnWSMessage`. -/
abbrev OnWSMessage : Type := Server → Client → WSPacket → Proc Halt ω NetEvent Client

/-- `WSServer`; `bare_server` is null or points to the server. -/
structure WSServer where
  bare_server : Bool
  onconnect : Option (OnWSConnect ω)
  onmessage : Option (OnWSMessage ω)
  onpacket : Option (OnWSPacket ω)

end WSServer

/-- The contents of `rbuffer`: cleared, and then filled from the start. -/
def Client.fillBuffer (client : Client) (bytes : List UInt8) : Client :=
  { client with rbuffer := bytes ++ List.replicate (rbufferSize - bytes.length) 0 }

/-- `client->rbuffer`, as the start of a buffer. -/
def Client.buffer (client : Client) : Nat → UInt8 := fun i => client.rbuffer.getD i 0

section Messages

variable {ω : Type} (sys : Sys ω)

/-! ## Receiving (ws.c:266-312) -/

/-- The first read: at most as much as the longest header. -/
def firstRead (fd : Int) : Proc Halt ω WsEvent RecvResult := do
  let r ← Proc.step (sys.received fd WS_MAX_HEADER_LEN .dontWait)
  Proc.when (0 < r.count) (Proc.emit (.received (r.bytes.getD [])))
  return r

/-- `recv` into `packet.payload + packet.len`. -/
def WSPacket.store (packet : WSPacket) (bytes : List UInt8) : Except Halt WSPacket :=
  match packet.payload with
  | none => .error .outOfBounds
  | some payload =>
      match payload.each packet.len (fun i _ => bytes.getD i 0) bytes.length 0 with
      | none => .error .outOfBounds
      | some payload => .ok { packet with payload := some payload }

/-- Pull `remain_len` more bytes of the payload and decode them; `none` if it fails
(ws.c:293-311). -/
def pullRemaining (fd : Int) (packet : WSPacket) (remain_len : Nat) :
    Proc Halt ω WsEvent (Option WSPacket) := do
  let r ← Proc.step (sys.received fd remain_len .waitAll)
  let packet ← Proc.ofExcept (packet.store (r.bytes.getD []))
  if r.count ≠ remain_len then return none
  else do
    let (decode_ok, packet) ← Proc.ofExcept (wsDecodePacketData packet remain_len)
    if decode_ok = 0 then return none
    else return some { packet with len := toU32 (packet.len + r.count) }

/-- A packet that was read is checked for fragmentation, and completed
(ws.c:285-312). -/
def completePacket (fd : Int) (packet : WSPacket) :
    Proc Halt ω WsEvent (Option WSPacket) :=
  if packet.header.FIN = 0#1 ∧ packet.header.opcode ≠ WS_OP_CONTINUATION then
    Proc.halt .abort
  else if 0 < packet.length ∧ packet.len < packet.length then
    pullRemaining sys fd packet (packet.length - packet.len)
  else return some packet

/-- The packet that starts with the bytes in `rbuffer`; `none` if there is none, or not
all of it can be had. -/
def receivePacket (client : Client) (bytes_read : Nat) :
    Proc Halt ω WsEvent (Option WSPacket) := do
  let packet ← wsReadPacket sys client.buffer bytes_read .zero
  match packet with
  | none => return none
  | some packet => completePacket sys client.fd packet

/-- `wsHandleMessages` up to the callbacks: a packet, or the status that is returned. -/
def receiveFrame (client : Client) :
    Proc Halt ω WsEvent (Except ConnStatus WSPacket × Client) := do
  let r ← firstRead sys client.fd
  let client := client.fillBuffer (r.bytes.getD [])
  if r.count ≤ 0 then
    return (.error (if r.errno = EAGAIN then .keepAlive else .kill), client)
  else do
    let packet ← receivePacket sys client r.count.toNat
    match packet with
    | none => return (.error .kill, client)
    | some packet => return (.ok packet, client)

/-! ## Dispatching (ws.c:314-328) -/

/-- `server->onmessage(client, packet, wsserver)`. -/
def deliverPacket (ws : WSServer ω) (server : Server) (client : Client) (packet : WSPacket) :
    Proc Halt ω WsEvent Client :=
  match ws.onmessage with
  | none => pure client
  | some onmessage => do
    Proc.emit (.delivered packet)
    Proc.mapOut .net (onmessage server client packet)

/-- The packet is one for `onmessage`. -/
def WSPacket.isMessage (packet : WSPacket) : Bool :=
  packet.header.opcode = WS_OP_TEXT || packet.header.opcode = WS_OP_BIN

/-- `onpacket`, and `onmessage` if the client is kept and the packet is a message. -/
def dispatchPacket (ws : WSServer ω) (server : Server) (client : Client)
    (packet : WSPacket) : Proc Halt ω WsEvent (ConnStatus × Client) :=
  match ws.onpacket with
  | none => pure (.kill, client)
  | some onpacket => do
    let (status, client) ← Proc.mapOut .net (onpacket server client packet)
    if status = .keepAlive ∧ packet.isMessage = true then do
      let client ← deliverPacket ws server client packet
      return (status, client)
    else return (status, client)

/-- `wsHandleMessages`. -/
def wsHandleMessages (ws : WSServer ω) : Callback ω WsEvent := fun server client => do
  let (received, client) ← receiveFrame sys client
  match received with
  | .error status => return (status, client)
  | .ok packet => dispatchPacket ws server client packet

end Messages

end NoGround
