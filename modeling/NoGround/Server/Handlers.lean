/-
  Server/Handlers.lean --- server/server.c: the callbacks of the game server, and the
  server they are installed in.

  `_wsserver` is `wsserver`, whose `bare_server` is the server that called, so each handler
  sends to the clients of the server it is handed.

  The texts are printed into a buffer of 1024 bytes.  The longest of them, with an address
  and a port, has 45 characters, so nothing is cut off.
-/
import NoGround.Ws.Handshake

set_option autoImplicit false

namespace NoGround

open NoGround.Lib

variable {ω : Type}

/-! ## Texts -/

/-- `%d`, of a number that is not negative. -/
def decimal (n : Nat) : List UInt8 := ascii (toString n)

/-- `inet_ntoa`. -/
def inet_ntoa (sin_addr : UInt8 × UInt8 × UInt8 × UInt8) : List UInt8 :=
  decimal sin_addr.1.toNat ++ ascii "." ++ decimal sin_addr.2.1.toNat ++ ascii "." ++
    decimal sin_addr.2.2.1.toNat ++ ascii "." ++ decimal sin_addr.2.2.2.toNat

/-- `htons`, on a machine that stores the low byte first. -/
def htons (n : UInt16) : UInt16 := n <<< 8 ||| n >>> 8

/-- `snprintf` of a notice and the address it is about. -/
def noticeText (notice : String) (client : Client) : List UInt8 :=
  ascii notice ++ inet_ntoa client.addr.sin_addr ++ ascii ": " ++
    decimal (htons client.addr.sin_port).toNat ++ ascii "\n"

/-- The packet both notices are sent in. -/
def noticePacket (text : List UInt8) : WSPacket where
  header := { WSFrameHeader.zero with
    opcode := WS_OP_TEXT
    FIN := 1#1
    length := BitVec.ofNat 7 text.length }
  mask_key := WSPacket.zero.mask_key
  length := text.length
  len := 0
  payload := some (Block.ofBytes text)

/-! ## Handlers (server.c:28-91) -/

section Handlers

variable (sys : Sys ω)

/-- `handleMessages`. -/
def handleMessages : OnWSMessage ω := fun server client packet =>
  if packet.header.opcode = WS_OP_TEXT then do
    let _has_err ← wsSendToAll sys (some server) packet
    return client
  else do
    let _has_err ← wsSendToAll sys (some server) packet
    return client

/-- `handleNewConnection`. -/
def handleNewConnection : OnWSConnect ω := fun server client => do
  let response := noticePacket (noticeText "New client connected: " client)
  let _has_err ← wsSendToAll sys (some server) response
  return (.keepAlive, client)

/-- `handlePacket`. -/
def handlePacket : OnWSPacket ω := fun _ client packet =>
  if packet.header.opcode = WS_OP_CLOSE then return (.kill, client)
  else if packet.header.opcode = WS_OP_PONG then do
    let now ← Proc.step sys.clock
    return (.keepAlive, { client with last_updated := now })
  else return (.keepAlive, client)

/-- `handleDisconnect`. -/
def handleDisconnect (server : Server) (client : Client) : Proc Halt ω NetEvent Unit := do
  let response := noticePacket (noticeText "Client disconected: " client)
  let _has_err ← wsSendToAll sys (some server) response
  return ()

/-! ## main (server.c:95-126) -/

/-- `wsserver`. -/
def wsserver : WSServer ω where
  bare_server := true
  onconnect := some (handleNewConnection sys)
  onmessage := some (handleMessages sys)
  onpacket := some (handlePacket sys)

/-- The function pointers of `skserver`. -/
def skserver (accept_key : List UInt8 → List UInt8) : Callbacks ω WsEvent where
  onconnect := some (wsHandleConnection sys accept_key (wsserver sys))
  ondisconnect := some fun server client => Proc.mapOut .net (handleDisconnect sys server client)
  onmessage := some (wsHandleMessages sys (wsserver sys))
  onping := some fun _ client => Proc.mapOut .net (wsHandlePing sys client)

end Handlers

/-- A notice of a client at 127.0.0.1, port 80. -/
example :
    noticeText "Client disconected: " { Client.blank with addr := ⟨(127, 0, 0, 1), 0x5000⟩ } =
      ascii "Client disconected: 127.0.0.1: 80\n" := by
  decide

end NoGround
