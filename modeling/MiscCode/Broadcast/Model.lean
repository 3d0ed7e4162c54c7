import Mathlib.Algebra.Order.Ring.Int
import Mathlib.Data.Int.Notation
import Mathlib.Data.Nat.Notation
import MiscCode.Support.Duplex

/-!
# The broadcast file server and its client

A client broadcasts requests to a server and the server broadcasts its replies:
`DISCOVER` finds the server, `FILE_INFO` opens a file, `CHUNK_READ` asks for a
chunk of it and `TRANSFER_DONE` ends the transfer.  The server reads the file
from its current position, whatever chunk is asked for, and it waits for
datagrams in two places: in `process_pkt`, and in the loop of
`process_chunkrd`.

Both programs act on what they receive.  A party is a state and a reaction to
one datagram: what it sends before it waits for the next one.
-/

namespace MiscCode.Broadcast

/-! ## Packets -/

/-- `MAX_BR_PKT_LEN`. -/
def maxBrPktLen : ℕ := 1024

/-- `sizeof(struct br_hdr)`: four times an `int`. -/
def brHdrSize : ℕ := 16

/-- `MAX_BR_PAYLOAD_LEN`. -/
def maxBrPayloadLen : ℕ := maxBrPktLen - brHdrSize

theorem maxBrPayloadLen_eq : maxBrPayloadLen = 1008 := rfl

theorem maxBrPayloadLen_pos : 0 < maxBrPayloadLen := by decide

/-- `enum br_proto_ops`, and any other value of the `int`. -/
inductive Op where
  | discover
  | fileInfo
  | chunkRead
  | transferDone
  | invalid (code : ℤ)
  deriving DecidableEq, Repr

/-- A datagram: the four fields of `struct br_hdr`, of which `chunk` is the
union of `chunk_id` and `nr_chunks`, and the bytes after them. -/
structure Datagram where
  op : Op
  ack : ℤ
  chunk : ℤ
  len : ℤ
  payload : List UInt8
  deriving DecidableEq, Repr

/-- The bytes after the header in the buffer a datagram is received in, which
was zero before. -/
def Datagram.buffer (d : Datagram) : List UInt8 :=
  d.payload.take maxBrPayloadLen ++
    List.replicate (maxBrPayloadLen - d.payload.length) 0

/-- The first `len` bytes of the buffer after the header: none when `len` is
negative, and no more than the buffer holds.  What is behind the buffer is not
received; a client that writes more than the buffer holds is left to the
modules about its accesses and its file. -/
def Datagram.data (d : Datagram) (len : ℤ) : List UInt8 :=
  d.buffer.take len.toNat

/-- A file name that fits a packet: a C string, without its end. -/
structure FileName where
  bytes : List UInt8
  noNul : 0 ∉ bytes
  fits : bytes.length ≤ maxBrPayloadLen

/-! ## The server -/

/-- An open regular file and the position of its descriptor. -/
structure OpenFile where
  contents : List UInt8
  pos : ℕ
  deriving DecidableEq, Repr

/-- The bytes `read` returns: a full block up to the end of the file. -/
def OpenFile.block (file : OpenFile) : List UInt8 :=
  (file.contents.drop file.pos).take maxBrPayloadLen

/-- The file after that `read`. -/
def OpenFile.next (file : OpenFile) : OpenFile :=
  { file with pos := file.pos + file.block.length }

/-- Where the server waits for its next datagram. -/
inductive Control where
  | processPkt
  | processChunkrd
  deriving DecidableEq, Repr

/-- The server between two datagrams: the file behind `fd`, if it is open, the
place it waits in and the number of `FILE_INFO` packets it has answered. -/
structure Server where
  fd : Option OpenFile
  control : Control
  infos : ℕ
  deriving DecidableEq, Repr

/-- The server as `main` starts it. -/
def Server.start : Server where
  fd := none
  control := .processPkt
  infos := 0

/-- What the server does that others see: the files it opens and the datagrams
it sends. -/
inductive Event where
  | opened (contents : List UInt8)
  | sent (d : Datagram)
  deriving DecidableEq, Repr

/-- The datagram of an event, if it has one. -/
def Event.datagram? : Event → Option Datagram
  | .opened _ => none
  | .sent d => some d

/-- The names the server can open and what the files hold. -/
abbrev FileSystem := List UInt8 → Option (List UInt8)

/-- The conversion of an integer to `int`. -/
def toInt (x : ℤ) : ℤ := x.bmod (2 ^ 32)

/-- `nr_chunks` of a file of `size` bytes. -/
def nrChunks (size : ℕ) : ℤ :=
  let nrChunks := toInt (size / maxBrPayloadLen : ℕ)
  if size % maxBrPayloadLen = 0 then nrChunks else toInt (nrChunks + 1)

/-- `len` of the reply about a file of `size` bytes, where `junk` is what the
uninitialised field held before. -/
def lastChunkSize (size : ℕ) (junk : ℤ) : ℤ :=
  if size % maxBrPayloadLen = 0 then junk
  else (size % maxBrPayloadLen : ℕ)

/-- The name in a `FILE_INFO` packet: `strndup`, whose length is unsigned. -/
def Datagram.fname (d : Datagram) : List UInt8 :=
  let bound := if d.len < 0 then d.buffer else d.data d.len
  bound.takeWhile (· ≠ 0)

/-- The reply of `process_discover`. -/
def discoverReply : Datagram where
  op := .discover
  ack := 1
  chunk := 0
  len := brHdrSize
  payload := []

/-- The reply of `process_fileinfo` about a file, or about none. -/
def fileInfoReply (contents : Option (List UInt8)) (junk : ℤ) : Datagram where
  op := .fileInfo
  ack := 1
  chunk :=
    match contents with
    | some contents => nrChunks contents.length
    | none => -1
  len :=
    match contents with
    | some contents => lastChunkSize contents.length junk
    | none => junk
  payload := []

/-- The reply of `process_chunkrd` to a request: the chunk asked for, with the
bytes that were read. -/
def chunkReply (request : Datagram) (block : List UInt8) : Datagram where
  op := .chunkRead
  ack := 1
  chunk := request.chunk
  len := block.length
  payload := block

/-- `process_fileinfo`. -/
def processFileinfo (fs : FileSystem) (junk : ℕ → ℤ) (s : Server)
    (d : Datagram) : Server × List Event :=
  let contents := fs d.fname
  ({ s with
      fd := contents.map fun contents => ⟨contents, 0⟩
      infos := s.infos + 1 },
    (contents.map Event.opened).toList ++
      [.sent (fileInfoReply contents (junk s.infos))])

/-- The head of the loop of `process_chunkrd`, with the request `d` in hand: a
block is read and sent and the loop waits for the next datagram, or the read
returns no byte and the loop is left. -/
def chunkrdHead (s : Server) (d : Datagram) : Server × List Event :=
  match s.fd with
  | none => ({ s with control := .processPkt }, [])
  | some file =>
      if file.block = [] then ({ s with control := .processPkt }, [])
      else
        ({ s with fd := some file.next, control := .processChunkrd },
          [.sent (chunkReply d file.block)])

/-- `process_pkt`, from one `recvfrom` of it to the next; after an invalid
opcode `main` calls it again. -/
def processPkt (fs : FileSystem) (junk : ℕ → ℤ) (s : Server)
    (d : Datagram) : Server × List Event :=
  match d.op with
  | .discover => (s, [.sent discoverReply])
  | .fileInfo => processFileinfo fs junk s d
  | .chunkRead => chunkrdHead s d
  | _ => (s, [])

/-- The loop of `process_chunkrd`, from its `recvfrom` on: only
`TRANSFER_DONE` is told apart, every other packet is answered as a request. -/
def processChunkrd (s : Server) (d : Datagram) : Server × List Event :=
  if d.op = .transferDone then ({ s with control := .processPkt }, [])
  else chunkrdHead s d

/-- What the server does with one datagram; `junk` is what the field that
`process_fileinfo` may leave uninitialised holds, each time it is called. -/
def Server.receive (fs : FileSystem) (junk : ℕ → ℤ) (s : Server)
    (d : Datagram) : Server × List Event :=
  match s.control with
  | .processPkt => processPkt fs junk s d
  | .processChunkrd => processChunkrd s d

/-- The server as a party: its reaction, by the datagrams it sends. -/
def Server.react (fs : FileSystem) (junk : ℕ → ℤ) (s : Server)
    (d : Datagram) : Server × List Datagram :=
  ((s.receive fs junk d).1, (s.receive fs junk d).2.filterMap Event.datagram?)

/-! ## The client -/

/-- The reply a client waits for: in `send_discover`, in `fetch_file_info`, or
in round `i` of `fetch_file`. -/
inductive Stage where
  | discovering
  | asking
  | fetching (i : ℕ) (nrChunks lastChunkSz : ℤ)
  | finished
  deriving DecidableEq, Repr

/-- A client: the file it asks for, the stage it is in and the bytes it has
written. -/
structure Client where
  fname : FileName
  stage : Stage
  written : List UInt8

/-- The packet of `send_discover`. -/
def discover : Datagram where
  op := .discover
  ack := 0
  chunk := 0
  len := 0
  payload := []

/-- The packet of `fetch_file_info`. -/
def fileInfo (fname : FileName) : Datagram where
  op := .fileInfo
  ack := 0
  chunk := 0
  len := fname.bytes.length
  payload := fname.bytes

/-- The packet of round `i` of `fetch_file`. -/
def chunkRead (i : ℕ) : Datagram where
  op := .chunkRead
  ack := 0
  chunk := i
  len := 0
  payload := []

/-- The packet that ends a transfer: the reply it is sent after, with another
opcode. -/
def transferDone (reply : Datagram) : Datagram :=
  { reply with op := .transferDone }

/-- A client that has just sent its `DISCOVER`. -/
def Client.start (fname : FileName) : Client where
  fname := fname
  stage := .discovering
  written := []

/-- The head of the loop of `fetch_file`. -/
def fetchHead (c : Client) (nrChunks lastChunkSz : ℤ) (i : ℕ) :
    Client × List Datagram :=
  if i < nrChunks then
    ({ c with stage := .fetching i nrChunks lastChunkSz }, [chunkRead i])
  else ({ c with stage := .finished }, [])

/-- `d` is the acknowledged reply to request `i`. -/
def Answers (i : ℕ) (d : Datagram) : Prop :=
  d.op = .chunkRead ∧ d.ack ≠ 0 ∧ d.chunk = i

instance (i : ℕ) (d : Datagram) : Decidable (Answers i d) :=
  inferInstanceAs (Decidable (_ ∧ _ ∧ _))

/-- Round `i` of `fetch_file`, from its `recvfrom` on. -/
def fetchRound (c : Client) (nrChunks lastChunkSz : ℤ) (i : ℕ)
    (d : Datagram) : Client × List Datagram :=
  if Answers i d then
    let done := if d.len = lastChunkSz then [transferDone d] else []
    let c := { c with written := c.written ++ d.data d.len }
    ((fetchHead c nrChunks lastChunkSz (i + 1)).1,
      done ++ (fetchHead c nrChunks lastChunkSz (i + 1)).2)
  else fetchHead c nrChunks lastChunkSz (i + 1)

/-- What the client does with one datagram: `main`, with the three functions it
calls. -/
def Client.receive (c : Client) (d : Datagram) : Client × List Datagram :=
  match c.stage with
  | .discovering =>
      if d.op = .discover ∧ d.ack ≠ 0 then
        ({ c with stage := .asking }, [fileInfo c.fname])
      else ({ c with stage := .finished }, [])
  | .asking => fetchHead c d.chunk d.len 0
  | .fetching i nrChunks lastChunkSz =>
      fetchRound c nrChunks lastChunkSz i d
  | .finished => (c, [])

/-! ## Sessions -/

/-- Clients that run one after another: the present one, and the files that
later ones ask for. -/
structure Clients where
  current : Client
  later : List FileName

/-- When a client has finished, the next one starts. -/
def Clients.settle (c : Client) (later : List FileName) :
    Clients × List Datagram :=
  match c.stage, later with
  | .finished, fname :: later => (⟨.start fname, later⟩, [discover])
  | _, _ => (⟨c, later⟩, [])

/-- The clients as a party. -/
def Clients.react (cs : Clients) (d : Datagram) :
    Clients × List Datagram :=
  let next := cs.current.receive d
  ((settle next.1 cs.later).1, next.2 ++ (settle next.1 cs.later).2)

/-- Both sides and the datagrams in flight between them. -/
abbrev Network := Duplex.System Clients Server Datagram Datagram

/-- A delivery, on a network that neither loses, duplicates nor reorders. -/
def Step (fs : FileSystem) (junk : ℕ → ℤ) : Network → Network → Prop :=
  Duplex.Step Clients.react (Server.react fs junk)

/-- The first client has sent its `DISCOVER` to the server. -/
def begin (server : Server) (fname : FileName) (later : List FileName) :
    Network where
  left := ⟨.start fname, later⟩
  right := server
  toRight := [discover]
  toLeft := []

end MiscCode.Broadcast
