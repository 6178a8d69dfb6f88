import NoGround.Lib.Proc
import NoGround.Lib.Table
import NoGround.Lib.Ledger
import NoGround.Lib.Steps
import NoGround.Lib.Block
import NoGround.Lib.CString
import NoGround.Lib.Cells
import NoGround.Lib.CopyOrder
import NoGround.Lib.Slices
import NoGround.Lib.Writes
import NoGround.Lib.Groups
import NoGround.Lib.Cursor
import NoGround.Lib.Stream
import NoGround.Lib.Calls
import NoGround.Core.Types
import NoGround.Core.Array
import NoGround.Core.ArrayOps
import NoGround.Core.ArraySpec
import NoGround.Core.ArrayList
import NoGround.Core.Overflow
import NoGround.Core.Room
import NoGround.Core.Memcpy
import NoGround.Js.DataView
import NoGround.Js.CTypes
import NoGround.Conn.Types
import NoGround.Conn.Poll
import NoGround.Conn.Steps
import NoGround.Conn.Tables
import NoGround.Conn.Refine
import NoGround.Conn.Init
import NoGround.Conn.Registration
import NoGround.Conn.Tenure
import NoGround.Conn.Emits
import NoGround.Ws.Packet
import NoGround.Ws.Frame
import NoGround.Ws.Send
import NoGround.Ws.RoundTrip
import NoGround.Ws.Messages
import NoGround.Ws.Receive
import NoGround.Ws.Safety
import NoGround.Ws.Disclosure
import NoGround.Ws.Framing
import NoGround.Ws.Streams
import NoGround.Ws.Handshake
import NoGround.Ws.Minimal
import NoGround.Ws.Chunks
import NoGround.Ws.Truncated
import NoGround.Ws.Request
import NoGround.Ws.Truthful
import NoGround.Server.Handlers
import NoGround.Server.Broadcast
import NoGround.Server.Reserved
import NoGround.Conn.Leaks
import NoGround.Js.Codec
import NoGround.Js.RoundTrip
import NoGround.Js.Arrays
import NoGround.Js.FastPath
import NoGround.Js.Layout
import NoGround.Js.Stores
import NoGround.Js.Partway
import NoGround.Conn.Sweep
import NoGround.Conn.Rounds
import NoGround.Conn.Visits
import NoGround.Conn.Survivors
import NoGround.Conn.Writes
import NoGround.Conn.Retry
import NoGround.Conn.Confirmed
import NoGround.Conn.Keepalive
import NoGround.Key.Base64
import NoGround.Key.Sha1
import NoGround.Key.Sha1Digest
import NoGround.Key.Sha1Calls
import NoGround.Key.Accept
import NoGround.Conn.Worlds
import NoGround.Server.Hearing
import NoGround.Server.Aside
import NoGround.Server.Relay
import NoGround.Server.Posts
import NoGround.Lib.Schedule
import NoGround.Lib.Crew
import NoGround.Lib.Chain
import NoGround.Pool.Types
import NoGround.Pool.Thpool
import NoGround.Pool.Moves
import NoGround.Pool.Counts
import NoGround.Pool.Phases
import NoGround.Pool.Queue
import NoGround.Pool.Jobs
import NoGround.Pool.Waiting
import NoGround.Pool.Drain
import NoGround.Pool.Waiters
import NoGround.Lib.RobinHood
import NoGround.Lib.Dictionary
import NoGround.Hash.Hashmap
import NoGround.Hash.Insert
import NoGround.Hash.Delete
import NoGround.Hash.Resize
import NoGround.Hash.Operations
import NoGround.Hash.Runs
import NoGround.Hash.Items
