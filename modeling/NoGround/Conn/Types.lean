/-
  Conn/Types.lean --- the data of the connection layer: server/conn.h, and the
  system the server runs on.

  THE SYSTEM.  Everything the kernel and the C library answer is taken from one
  record `Sys ω` of functions over an arbitrary type `ω`, "the world".  A theorem
  about every `Sys` and every world is a theorem about every sequence of poll,
  accept, recv and send outcomes.

  HALTING.  `exit` and `assert` are halting reasons, and so is an access outside
  an array: C gives such an access no meaning, so the model gives the run no
  continuation.

  CALLBACKS.  The function pointers of `Server` and its `data` never change while
  the server runs, so they are a separate parameter `Callbacks`.  A callback sees
  the whole server and the client record it is handed.  It may leave anything in
  that record but its descriptor, and it does not touch the tables.
-/
import NoGround.Core.Types
import NoGround.Lib.Proc
import NoGround.Lib.Table
import Mathlib.Algebra.Order.Ring.Int

set_option autoImplicit false

namespace NoGround

open NoGround.Lib

/-! ## conn.h -/

/-- `ConnStatus`. -/
inductive ConnStatus where
  | kill
  | keepAlive
  | retry
  deriving DecidableEq, Repr

/-- The two fields of `struct sockaddr_in` the server reads: the address bytes in
network order, and the port as stored. -/
structure SockAddr where
  sin_addr : UInt8 × UInt8 × UInt8 × UInt8
  sin_port : UInt16
  deriving DecidableEq

/-- `Client`.  `rbuffer` is an array of `rbufferSize` bytes. -/
structure Client where
  addr : SockAddr
  fd : Int
  status : ConnStatus
  last_updated : Int
  rbuffer : List UInt8
  deriving DecidableEq

/-- `sizeof(client->rbuffer)`. -/
def rbufferSize : Nat := 1024

/-- `struct pollfd`. -/
structure PollFd where
  fd : Int
  events : BitVec 16
  revents : BitVec 16
  deriving DecidableEq

def POLLIN : BitVec 16 := 0x1#16
def POLLERR : BitVec 16 := 0x8#16
def POLLHUP : BitVec 16 := 0x10#16
def POLLNVAL : BitVec 16 := 0x20#16

/-- `revents & flag`, as a condition. -/
def PollFd.has (pfd : PollFd) (flag : BitVec 16) : Bool := pfd.revents &&& flag != 0#16

/-- `ServerPoll`. -/
abbrev ServerPoll := Table PollFd

/-- `ClientPoll`. -/
abbrev ClientPoll := Table Client

/-- `Server`, without the function pointers and their `data`. -/
structure Server where
  fd : Int
  ping_interval : Nat
  poll : ServerPoll
  clients : ClientPoll
  deriving DecidableEq

/-- The descriptors of the registered clients, in table order. -/
def Server.fds (s : Server) : List Int := s.clients.items.map (·.fd)

/-- Write the client record `slot`. -/
def Server.setClient (s : Server) (slot : Nat) (client : Client) : Server :=
  { s with clients := s.clients.set slot client }

/-- Write `0x0` to the `events` of entry `index`. -/
def Server.markDeleted (s : Server) (index : Nat) : Server :=
  { s with
    poll := s.poll.mapIdx fun i pfd => if i = index then { pfd with events := 0#16 } else pfd }

/-- `ServerConfig`; `max_connections` is an `i32`. -/
structure ServerConfig where
  port : UInt16
  max_connections : Int
  max_connections_i32 : -2 ^ 31 ≤ max_connections ∧ max_connections < 2 ^ 31

/-- `CONN_OK`, and what else `conInitServer` and the table constructors return. -/
def CONN_OK : Int := 1
def CONN_ERR_ALLOC_FAIL : Int := 2
def CONN_ERR_SOCKET_FAIL : Int := 3
def CONN_ERR_SETUP_FAIL : Int := 4

/-! ## The system -/

/-- `poll`: the returned count, and the `revents` of each entry. -/
structure PollResult where
  count : Int
  revents : Nat → BitVec 16

/-- `accept`: the descriptor or `-1`, and the client record on the stack, whose
address `accept` filled in and whose other fields hold what was there. -/
structure AcceptResult where
  fd : Int
  stack : Client

/-- `recv`: the bytes received, or an error; and `errno` after the call. -/
structure RecvResult where
  bytes : Option (List UInt8)
  errno : Int

/-- The return value of `recv`. -/
def RecvResult.count (r : RecvResult) : Int :=
  match r.bytes with
  | none => -1
  | some b => b.length

/-- How `recv` is called: the flags that decide what it may return. -/
inductive RecvFlag where
  | waitForOne
  | dontWait
  | waitAll
  | peek
  deriving DecidableEq, Repr

def EAGAIN : Int := 11

/-- The kernel and the C library, over a world `ω`. -/
structure Sys (ω : Type) where
  clock : ω → Int × ω
  poll : List PollFd → ω → PollResult × ω
  accept : Int → ω → AcceptResult × ω
  close : Int → ω → ω
  /-- `recv fd n flag` -/
  recv : Int → Nat → RecvFlag → ω → RecvResult × ω
  /-- `send`: how many bytes were taken, or an error -/
  send : Int → List UInt8 → ω → Option Nat × ω
  /-- `fcntl(fd, F_GETFD)` -/
  fcntl : Int → ω → Int × ω
  /-- what the next block `malloc` returns holds -/
  malloc : ω → (Nat → UInt8) × ω
  /-- whether `calloc(count, size)` succeeds -/
  calloc : Nat → Nat → ω → Bool × ω
  socket : ω → Int × ω
  setsockopt : Int → ω → Int × ω
  ioctl : Int → ω → Int × ω
  bind : Int → UInt16 → ω → Int × ω
  listen : Int → Int → ω → Int × ω

namespace Sys

variable {ω : Type}

/-- `recv` never stores more bytes than were asked for. -/
def received (sys : Sys ω) (fd : Int) (n : Nat) (flag : RecvFlag) (w : ω) :
    RecvResult × ω :=
  match sys.recv fd n flag w with
  | (r, w) => ({ r with bytes := r.bytes.map (·.take n) }, w)

/-- `send` never takes more bytes than it was given. -/
def sent (sys : Sys ω) (fd : Int) (message : List UInt8) (w : ω) : Option Nat × ω :=
  match sys.send fd message w with
  | (r, w) => (r.map (min · message.length), w)

end Sys

/-! ## Callbacks and events -/

section Callbacks

variable (ω ε : Type)

/-- `ConnectCallback`, `MessageCallback` and `OnPing`: the status, and what the
callback leaves in the client record. -/
abbrev Callback : Type := Server → Client → Proc Halt ω ε (ConnStatus × Client)

/-- `DisconnectCallback`. -/
abbrev DisconnectCallback : Type := Server → Client → Proc Halt ω ε Unit

/-- The function pointers of `Server`. -/
structure Callbacks where
  onconnect : Option (Callback ω ε)
  ondisconnect : Option (DisconnectCallback ω ε)
  onmessage : Option (Callback ω ε)
  onping : Option (Callback ω ε)

end Callbacks

/-- Which callback was invoked. -/
inductive CallbackKind where
  | onconnect
  | ondisconnect
  | onmessage
  | onping
  deriving DecidableEq, Repr

/-- What the connection layer does that its environment can see, and the moments
at which its tables change.  A callback is one event: the tables and the client
at the moment it was invoked, the status it returned (`none` if it returned none)
and the events it emitted. -/
inductive ConnEvent (ε : Type) where
  /-- `accept` returned this descriptor -/
  | accepted (fd : Int)
  /-- the descriptor was entered into both tables -/
  | registered (fd : Int)
  /-- `close` -/
  | closed (fd : Int)
  /-- an entry with this descriptor was removed from the tables -/
  | deleted (fd : Int)
  | callback (kind : CallbackKind) (server : Server) (client : Client)
      (status : Option ConnStatus) (out : List ε)

/-- What the connection layer runs over: the server and the world. -/
structure Machine (ω : Type) where
  server : Server
  world : ω

/-- A program of the connection layer. -/
abbrev Conn (ω ε α : Type) : Type := Proc Halt (Machine ω) (ConnEvent ε) α

namespace Conn

variable {ω ε α : Type}

/-- A system call. -/
def call (f : ω → α × ω) : Conn ω ε α :=
  Proc.step fun m => ((f m.world).1, { m with world := (f m.world).2 })

/-- Read the server. -/
def server : Conn ω ε Server := Proc.step fun m => (m.server, m)

/-- Change the server. -/
def update (f : Server → Server) : Conn ω ε Unit :=
  Proc.modify fun m => { m with server := f m.server }

/-- `close(fd)`. -/
def close (sys : Sys ω) (fd : Int) : Conn ω ε Unit := do
  call fun w => ((), sys.close fd w)
  Proc.emit (.closed fd)

/-- `&server->poll.items[index]`, read. -/
def pollItem (index : Nat) : Conn ω ε PollFd := fun m =>
  match m.server.poll.items[index]? with
  | some pfd => ⟨.ok pfd, m, []⟩
  | none => ⟨.error .outOfBounds, m, []⟩

/-- `&server->clients.items[slot]`, read. -/
def clientItem (slot : Nat) : Conn ω ε Client := fun m =>
  match m.server.clients.items[slot]? with
  | some client => ⟨.ok client, m, []⟩
  | none => ⟨.error .outOfBounds, m, []⟩

/-- Write the client record `slot`. -/
def setClient (slot : Nat) (client : Client) : Conn ω ε Unit :=
  update fun s => s.setClient slot client

/-- `pfd->events = 0x0`: mark entry `index` as deleted. -/
def markDeleted (index : Nat) : Conn ω ε Unit :=
  update fun s => s.markDeleted index

/-- Invoke a callback on `client`.  Whatever it leaves in the record, the
descriptor stays. -/
def invoke (kind : CallbackKind) (f : Callback ω ε) (client : Client) :
    Conn ω ε (ConnStatus × Client) := fun m =>
  match f m.server client m.world with
  | ⟨.ok (status, client'), w, out⟩ =>
      ⟨.ok (status, { client' with fd := client.fd }), { m with world := w },
        [.callback kind m.server client (some status) out]⟩
  | ⟨.error e, w, out⟩ =>
      ⟨.error e, { m with world := w }, [.callback kind m.server client none out]⟩

/-- Invoke `ondisconnect`. -/
def invokeDisconnect (f : DisconnectCallback ω ε) (client : Client) : Conn ω ε Unit :=
  fun m =>
  match f m.server client m.world with
  | ⟨r, w, out⟩ =>
      ⟨r, { m with world := w }, [.callback .ondisconnect m.server client none out]⟩

end Conn

/-! ## A scripted system

For runs on concrete answers: the world is a script, from which each call of
`poll`, `accept`, `recv`, `send` and `fcntl` takes the next answer. -/

/-- The answers still to be given. -/
structure Script where
  polls : List (Int × List (BitVec 16)) := []
  accepts : List Int := []
  recvs : List (Option (List UInt8)) := []
  sends : List (Option Nat) := []
  fcntls : List Int := []

/-- A record in which nothing has been stored yet. -/
def Client.blank : Client where
  addr := ⟨(127, 0, 0, 1), 0⟩
  fd := 0
  status := .kill
  last_updated := 0
  rbuffer := List.replicate rbufferSize 0

/-- The system that follows its script.  When it has run out, nothing is ready,
nobody connects, nothing arrives, and everything is sent. -/
def Script.sys : Sys Script where
  clock w := (0, w)
  poll _ w := (⟨(w.polls.headD (0, [])).1, fun i => (w.polls.headD (0, [])).2.getD i 0#16⟩,
    { w with polls := w.polls.tail })
  accept _ w := (⟨w.accepts.headD (-1), Client.blank⟩, { w with accepts := w.accepts.tail })
  close _ w := w
  recv _ _ _ w := (⟨w.recvs.headD none, EAGAIN⟩, { w with recvs := w.recvs.tail })
  send _ message w := (w.sends.headD (some message.length), { w with sends := w.sends.tail })
  fcntl _ w := (w.fcntls.headD 0, { w with fcntls := w.fcntls.tail })
  malloc w := (fun _ => 0, w)
  calloc _ _ w := (true, w)
  socket w := (3, w)
  setsockopt _ w := (0, w)
  ioctl _ w := (0, w)
  bind _ _ w := (0, w)
  listen _ _ w := (0, w)

/-- A server before `conInitServer`. -/
def Server.blank : Server where
  fd := 0
  ping_interval := 600
  poll := Table.empty 0
  clients := Table.empty 0

end NoGround
