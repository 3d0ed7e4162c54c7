import MiscCode.Support.CString

/-!
# The server's announcements

The server answers a discovery with a packet that names its address, its model
and the version of its firmware.  The version is the first line of a file, which
`fgets` reads into a buffer of 32 bytes.

Writes to a buffer are checked.  The calls of the system answer what an
`Environment` says.
-/

namespace MiscCode
namespace FaServer

open ByteLayout CString

/-- Why the server stops: a write beside a buffer, with its index, or `error`
with its message. -/
inductive Fault where
  | outOfBuffer (i : ℤ)
  | exit (msg : String)
  deriving DecidableEq, Repr

/-- A write of bytes from an index on. -/
def store (buf : List UInt8) (i : ℤ) (xs : List UInt8) :
    Except Fault (List UInt8) :=
  if 0 ≤ i ∧ i + xs.length ≤ buf.length then .ok (put buf i.toNat xs)
  else .error (.outOfBuffer i)

/-! ## Texts -/

/-- The bytes of an ASCII text. -/
def ascii (text : List Char) : List UInt8 :=
  text.map fun c => UInt8.ofNat c.toNat

def newline : UInt8 := 10
def comma : UInt8 := 44
def dot : UInt8 := 46

/-- A number as `%d` prints it. -/
def decimal (n : ℕ) : List UInt8 :=
  ascii (Nat.toDigits 10 n)

/-- An address. -/
structure InAddr where
  a : UInt8
  b : UInt8
  c : UInt8
  d : UInt8
  deriving DecidableEq, Repr

/-- `inet_ntoa`. -/
def inetNtoa (addr : InAddr) : List UInt8 :=
  decimal addr.a.toNat ++ [dot] ++ decimal addr.b.toNat ++ [dot] ++
    decimal addr.c.toNat ++ [dot] ++ decimal addr.d.toNat

/-! ## The firmware version -/

/-- What the system answers while an announcement is made: whether there is a
socket, the address of the interface, the output of the command that prints the
version file, and whether the packet can be sent. -/
structure Environment where
  socket : Bool
  addr : Option InAddr
  version : Option (List UInt8)
  sendto : Bool

/-- `get_local_ip`. -/
def getLocalIp (env : Environment) : Except Fault (List UInt8) :=
  if env.socket then
    match env.addr with
    | none => .error (.exit "[-]: failed to get IP")
    | some addr => .ok (inetNtoa addr)
  else .error (.exit "[-]: opening socket to get IP")

/-- What `fgets` reads: at most `n` bytes and none behind a newline. -/
def readLine : ℕ → List UInt8 → List UInt8
  | 0, _ => []
  | _ + 1, [] => []
  | n + 1, c :: cs => if c = newline then [c] else c :: readLine n cs

/-- `fgets`.  When there is nothing to read the buffer stays as it is. -/
def fgets (buf : List UInt8) (size : ℕ) (stream : List UInt8) :
    Except Fault (List UInt8) :=
  match readLine (size - 1) stream with
  | [] => .ok buf
  | c :: cs => store buf 0 (c :: cs ++ [0])

/-- `get_fw_ver`. -/
def getFwVer (env : Environment) (fwVer : List UInt8) :
    Except Fault (List UInt8) :=
  match env.version with
  | none => .error (.exit "[-]: Failed to get fw version\n")
  | some content => fgets fwVer 32 content

/-! ## Packets -/

/-- The message types. -/
inductive MsgType where
  | discovery
  | announcement
  | cmdReq
  | cmdRep
  | exeReq
  | exeRep
  | terminate
  | invalid
  deriving DecidableEq, Repr

/-- The value of a message type. -/
def MsgType.toUInt8 : MsgType → UInt8
  | .discovery => 0
  | .announcement => 1
  | .cmdReq => 2
  | .cmdRep => 3
  | .exeReq => 4
  | .exeRep => 5
  | .terminate => 6
  | .invalid => 7

/-- `PROTO_MAGIC`. -/
def protoMagic : UInt8 := 0x13

/-- `MAX_PKT_LEN`. -/
def maxPktLen : ℕ := 4096

/-- A `struct packet` with its data. -/
structure Packet where
  magic : UInt8
  msgType : UInt8
  msgLen : UInt16
  tid : UInt8
  data : List UInt8
  deriving DecidableEq, Repr

/-- `snprintf`. -/
def snprintf (buf : List UInt8) (size : ℕ) (s : List UInt8) :
    Except Fault (List UInt8) :=
  store buf 0 (s.take (size - 1) ++ [0])

/-- The bytes of the payload that `make_announcement` fills. -/
def fillInfo (ip fwVer : List UInt8) : Except Fault (List UInt8) :=
  let modelId := 16
  let info := List.replicate 128 0
  snprintf info 128 (ip ++ [comma] ++ decimal modelId ++ [comma] ++ text 0 fwVer)

/-- `make_announcement`: the packet, and `glb_tid` behind it.  The length of an
empty string less one is the greatest `size_t`, which leads to the byte in front
of the buffer. -/
def makeAnnouncement (env : Environment) (glbTid : UInt8) :
    Except Fault (Packet × UInt8) := do
  let ip ← getLocalIp env
  let fwVer ← getFwVer env (List.replicate 32 0)
  let fwVer ← store fwVer ((text 0 fwVer).length - 1) [0]
  let info ← fillInfo ip fwVer
  let pkt : Packet :=
    { magic := protoMagic
      msgType := MsgType.announcement.toUInt8
      msgLen := 128
      tid := glbTid
      data := info }
  if env.sendto then .ok (pkt, glbTid + 1)
  else .error (.exit "ERROR while acking DISCOVER")

/-! ## The server -/

/-- A datagram with its sender, and the environment it is handled in. -/
structure Datagram where
  sender : InAddr
  bytes : List UInt8
  env : Environment

/-- The receive buffer, which is cleared for every datagram. -/
def Datagram.buf (d : Datagram) : List UInt8 :=
  put (List.replicate maxPktLen 0) 0 (d.bytes.take maxPktLen)

def Datagram.magic (d : Datagram) : UInt8 := d.buf.getD 0 0
def Datagram.msgType (d : Datagram) : UInt8 := d.buf.getD 1 0
def Datagram.tid (d : Datagram) : UInt8 := d.buf.getD 4 0

/-- The test of a discovery. -/
def Datagram.IsDiscovery (d : Datagram) : Prop :=
  d.magic = protoMagic ∧ d.msgType = MsgType.discovery.toUInt8

instance (d : Datagram) : Decidable d.IsDiscovery :=
  inferInstanceAs (Decidable (_ ∧ _))

/-- The server: `glb_tid`, and the packets it has sent with their targets. -/
structure Server where
  glbTid : UInt8
  sent : List (InAddr × Packet)
  deriving DecidableEq, Repr

/-- Where an announcement is sent.  `inet_ntoa` writes every text to one buffer,
so that `get_local_ip` puts the address of the interface where `target` points
to the text of the sender's. -/
def Datagram.target (d : Datagram) : InAddr := d.env.addr.getD d.sender

/-- A round of `process_pkt`.  Other messages than a discovery are only
reported; one of a type that it does not know makes `process_pkt` return, and
`main` calls it again. -/
def processPkt (s : Server) (d : Datagram) : Except Fault Server :=
  if d.IsDiscovery then do
    let (pkt, glbTid) ← makeAnnouncement d.env d.tid
    .ok ⟨glbTid, s.sent ++ [(d.target, pkt)]⟩
  else .ok s

/-- The server over the datagrams it receives. -/
def run (s : Server) (ds : List Datagram) : Except Fault Server :=
  ds.foldlM processPkt s

end FaServer
end MiscCode
