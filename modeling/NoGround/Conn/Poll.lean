/-
  Conn/Poll.lean --- server/conn.c: initialisation, accepting, and one call of
  `conPollEvents`.

  The functions follow the source one by one and keep its order of reads, writes
  and calls.  A loop body of the source is a definition of its own; a pointer
  into a table is the index of the slot.  What is only printed is left out, and
  so is the branch of `conHandleReceivData` for a server without `onmessage`,
  which `conPollEvents` never takes.
-/
import NoGround.Conn.Types

set_option autoImplicit false

namespace NoGround

open NoGround.Lib

variable {ω ε : Type}

/-! ## Tables (conn.c:63-106) -/

/-- `sizeof(struct pollfd)` and `sizeof(Client)`. -/
def sizeofPollFd : Nat := 8
def sizeofClient : Nat := 1056

/-- `connCreatePoll`. -/
def connCreatePoll (sys : Sys ω) (cap : Nat) : Conn ω ε Int := do
  let allocated ← Conn.call (sys.calloc cap sizeofPollFd)
  if allocated then
    Conn.update fun s => { s with poll := Table.empty cap }
    return CONN_OK
  else return CONN_ERR_ALLOC_FAIL

/-- `connCreateClientPoll`, for a table that has no entry yet: `cap` is stored before the answer
of `calloc` is looked at. -/
def connCreateClientPoll (sys : Sys ω) (cap : Nat) : Conn ω ε Int := do
  Conn.update fun s => { s with clients := Table.empty cap }
  let allocated ← Conn.call (sys.calloc cap sizeofClient)
  if allocated then return CONN_OK
  else return CONN_ERR_ALLOC_FAIL

/-- `connPushToPoll`: the new index, or `-1` when the table is full. -/
def connPushToPoll (poll : ServerPoll) (fd : Int) (events : BitVec 16) :
    Int × ServerPoll :=
  match poll.push { fd := fd, events := events, revents := 0#16 } with
  | none => (-1, poll)
  | some poll' => (poll.len, poll')

/-- `connPushToClientPoll`. -/
def connPushToClientPoll (clients : ClientPoll) (client : Client) : Int × ClientPoll :=
  match clients.push client with
  | none => (-1, clients)
  | some clients' => (clients.len, clients')

/-! ## Initialisation (conn.c:109-149) -/

/-- `conInitServer`: `0` on success. -/
def conInitServer (sys : Sys ω) (config : ServerConfig) : Conn ω ε Int := do
  let fd ← Conn.call sys.socket
  Conn.update fun s => { s with fd := fd }
  if fd < 0 then return CONN_ERR_SOCKET_FAIL
  else
    let created ← connCreatePoll sys (toSize config.max_connections)
    if created ≠ CONN_OK then return CONN_ERR_ALLOC_FAIL
    else
      let created ← connCreateClientPoll sys (toSize (config.max_connections - 1))
      if created ≠ CONN_OK then return CONN_ERR_ALLOC_FAIL
      else
        let reuse ← Conn.call (sys.setsockopt fd)
        if reuse ≠ 0 then return CONN_ERR_SETUP_FAIL
        else
          let _ ← Conn.call (sys.ioctl fd)
          let bound ← Conn.call (sys.bind fd config.port)
          if bound < 0 then return CONN_ERR_SETUP_FAIL
          else
            let listening ← Conn.call (sys.listen fd config.max_connections)
            if listening < 0 then return CONN_ERR_SETUP_FAIL
            else
              Conn.update fun s => { s with poll := (connPushToPoll s.poll s.fd POLLIN).2 }
              return 0

/-! ## Connecting (conn.c:158-198) -/

/-- The two pushes that enter `client` into the tables; they are independent of
each other, and a full table drops its part. -/
def Server.register (s : Server) (client : Client) : Server :=
  { s with
    clients := (connPushToClientPoll s.clients client).2
    poll := (connPushToPoll s.poll client.fd POLLIN).2 }

/-- Both tables have room. -/
def Server.hasRoom (s : Server) : Bool :=
  s.clients.len < s.clients.cap && s.poll.len < s.poll.cap

/-- Enter `client` into both tables. -/
def registerClient (client : Client) : Conn ω ε Unit := do
  let s ← Conn.server
  Conn.update fun s => s.register client
  Proc.when (s.hasRoom = true) (Proc.emit (.registered client.fd))

/-- `conHandleConnect`: the status, and the client record afterwards. -/
def conHandleConnect (sys : Sys ω) (cb : Callbacks ω ε) (client : Client) :
    Conn ω ε (ConnStatus × Client) :=
  match cb.onconnect with
  | none => pure (.kill, client)
  | some onconnect => do
    let (status, client) ← Conn.invoke .onconnect onconnect client
    if status ≠ .kill then
      let now ← Conn.call sys.clock
      let client := { client with status := status, last_updated := now }
      registerClient client
      return (status, client)
    else return (.kill, client)

/-- A connection that `accept` returned is handed to `onconnect`, and closed if it
is not wanted (conn.c:190-193). -/
def acceptClient (sys : Sys ω) (cb : Callbacks ω ε) (client : Client) : Conn ω ε Int := do
  Proc.emit (.accepted client.fd)
  let (status, client) ← conHandleConnect sys cb client
  Proc.when (status = .kill) (Conn.close sys client.fd)
  return 0

/-- `conAcceptConnections`: nonzero when the listener is in error. -/
def conAcceptConnections (sys : Sys ω) (cb : Callbacks ω ε) : Conn ω ε Int := do
  let listener ← Conn.pollItem 0
  if listener.has POLLERR then return listener.revents.toInt
  else if listener.has POLLHUP || listener.has POLLNVAL then return listener.revents.toInt
  else if listener.has POLLIN then
    let s ← Conn.server
    let accepted ← Conn.call (sys.accept s.fd)
    if accepted.fd < 0 then return 0
    else acceptClient sys cb { accepted.stack with fd := accepted.fd }
  else return 0

/-! ## Events (conn.c:200-258) -/

/-- `conHandleReceivData`, for the client in `slot`. -/
def conHandleReceivData (sys : Sys ω) (onmessage : Callback ω ε) (slot : Nat) :
    Conn ω ε ConnStatus := do
  let now ← Conn.call sys.clock
  let client ← Conn.clientItem slot
  let client := { client with last_updated := now }
  Conn.setClient slot client
  let (status, client) ← Conn.invoke .onmessage onmessage client
  Conn.setClient slot client
  return status

/-- A readable client in `CONN_RETRY` is connected once more (conn.c:245-248). -/
def retryConnect (sys : Sys ω) (cb : Callbacks ω ε) (index : Nat) (client : Client) :
    Conn ω ε Unit :=
  if client.status = .retry then do
    let (status, client) ← conHandleConnect sys cb client
    Conn.setClient (index - 1) client
    Proc.when (status ≠ .kill) (Conn.markDeleted index)
  else pure ()

/-- A readable client is served (conn.c:249-253). -/
def deliverMessage (sys : Sys ω) (cb : Callbacks ω ε) (index : Nat) : Conn ω ε Unit :=
  match cb.onmessage with
  | none => pure ()
  | some onmessage => do
    let client ← Conn.clientItem (index - 1)
    Conn.setClient (index - 1) { client with last_updated := 0 }
    let status ← conHandleReceivData sys onmessage (index - 1)
    Proc.when (status = .kill) (Conn.markDeleted index)

/-- What the peeked count and `revents` of an entry lead to (conn.c:235-257). -/
def handleEvent (sys : Sys ω) (cb : Callbacks ω ε) (index : Nat) (pfd : PollFd)
    (client : Client) (peek : Int) : Conn ω ε Unit :=
  if peek = 0 then Conn.markDeleted index
  else if pfd.has POLLERR || pfd.has POLLNVAL then Conn.markDeleted index
  else if pfd.has POLLHUP then Conn.markDeleted index
  else if pfd.has POLLIN ∧ 0 < peek then do
    retryConnect sys cb index client
    deliverMessage sys cb index
  else do
    let now ← Conn.call sys.clock
    Conn.setClient (index - 1) { client with last_updated := now }

/-- One round of the event loop (conn.c:228-257). -/
def eventRound (sys : Sys ω) (cb : Callbacks ω ε) (index : Nat) : Conn ω ε Nat := do
  let pfd ← Conn.pollItem index
  let client ← Conn.clientItem (index - 1)
  let peek ← Conn.call (sys.received pfd.fd 1 .peek)
  handleEvent sys cb index pfd client peek.count
  return index + 1

/-- `index < server->poll.len`. -/
def indexInPoll (index : Nat) (m : Machine ω) : Bool := index < m.server.poll.len

/-- The event loop. -/
def eventLoop (sys : Sys ω) (cb : Callbacks ω ε) : Conn ω ε Unit := do
  let s ← Conn.server
  Proc.loop .outOfFuel indexInPoll (eventRound sys cb) s.poll.cap 1

/-! ## Pings (conn.c:259-279) -/

/-- Ping one client at the time `now`. -/
def pingClient (onping : Callback ω ε) (index : Nat) (client : Client) (now : Int) :
    Conn ω ε Unit := do
  let (status, client) ← Conn.invoke .onping onping client
  Conn.setClient (index - 1) { client with status := status, last_updated := now }
  Proc.when (status = .kill) (Conn.markDeleted index)

/-- One round of the ping loop. -/
def pingRound (sys : Sys ω) (onping : Callback ω ε) (index : Nat) : Conn ω ε Nat := do
  let client ← Conn.clientItem (index - 1)
  let now ← Conn.call sys.clock
  let s ← Conn.server
  Proc.when (s.ping_interval ≤ (now - client.last_updated).tdiv 1000)
    (pingClient onping index client now)
  return index + 1

/-- The ping loop. -/
def pingLoop (sys : Sys ω) (onping : Callback ω ε) : Conn ω ε Unit := do
  let s ← Conn.server
  Proc.loop .outOfFuel indexInPoll (pingRound sys onping) s.poll.cap 1

/-! ## Deletions (conn.c:282-309) -/

/-- Call `ondisconnect`, if there is one. -/
def notifyDisconnect (cb : Callbacks ω ε) (client : Client) : Conn ω ε Unit :=
  match cb.ondisconnect with
  | none => pure ()
  | some ondisconnect => Conn.invokeDisconnect ondisconnect client

/-- Move the last entries of both tables into the place of entry `index`
(conn.c:300-306). -/
def Server.delete (s : Server) (index : Nat) : Server :=
  { s with
    poll := s.poll.swapRemove index
    clients := s.clients.swapRemove (index - 1) }

/-- Close the connection of entry `index` and remove it from both tables. -/
def deleteConnection (sys : Sys ω) (cb : Callbacks ω ε) (index : Nat) (pfd : PollFd)
    (client : Client) : Conn ω ε Unit := do
  notifyDisconnect cb client
  Conn.close sys pfd.fd
  Conn.update fun s => s.delete index
  Proc.emit (.deleted pfd.fd)

/-- One round of the deletion pass: a removed entry is replaced by another one,
which is looked at next. -/
def deleteRound (sys : Sys ω) (cb : Callbacks ω ε) (index : Nat) : Conn ω ε Nat := do
  let pfd ← Conn.pollItem index
  let client ← Conn.clientItem (index - 1)
  if pfd.events = 0#16 ∨ client.status = .kill then do
    deleteConnection sys cb index pfd client
    return index
  else return index + 1

/-- The deletion pass. -/
def deleteLoop (sys : Sys ω) (cb : Callbacks ω ε) : Conn ω ε Unit := do
  let s ← Conn.server
  Proc.loop .outOfFuel indexInPoll (deleteRound sys cb) s.poll.len 1

/-! ## conPollEvents (conn.c:151-156, 215-316) -/

/-- `conHasEvents`. -/
def conHasEvents (sys : Sys ω) : Conn ω ε Int := do
  let s ← Conn.server
  let polled ← Conn.call (sys.poll s.poll.items)
  Conn.update fun s => { s with
    poll := s.poll.mapIdx fun i pfd => { pfd with revents := polled.revents i } }
  return polled.count

/-- What `conPollEvents` does before the deletion pass. -/
def handleEvents (sys : Sys ω) (cb : Callbacks ω ε) (num_events : Int) : Conn ω ε Unit :=
  if 0 < num_events then do
    let err ← conAcceptConnections sys cb
    if err ≠ 0 then Proc.halt (.exit 1) else eventLoop sys cb
  else
    match cb.onping with
    | none => pure ()
    | some onping => pingLoop sys onping

/-- `conPollEvents`. -/
def conPollEvents (sys : Sys ω) (cb : Callbacks ω ε) : Conn ω ε Unit := do
  let num_events ← conHasEvents sys
  handleEvents sys cb num_events
  deleteLoop sys cb

/-- The server's main loop, for `n` rounds. -/
def serve (sys : Sys ω) (cb : Callbacks ω ε) (n : Nat) : Conn ω ε Unit :=
  Proc.times (conPollEvents sys cb) n

end NoGround
