import Mathlib.Data.List.TakeWhile
import MiscCode.Broadcast.Server

/-!
# Sessions

Clients run one after another against one server, over a network that neither
loses, duplicates nor reorders.  One session is followed delivery by delivery,
from the first `DISCOVER` to the end of the client; since deliveries commute,
what this one run comes to is what every run comes to.
-/

namespace MiscCode.Broadcast

open Blocks Duplex

/-! ## The file in blocks -/

/-- A file of which the first `k` blocks have been read. -/
def fileAt (contents : List UInt8) (k : ℕ) : OpenFile where
  contents := contents
  pos := min (k * maxBrPayloadLen) contents.length

theorem fileAt_zero (contents : List UInt8) :
    fileAt contents 0 = ⟨contents, 0⟩ := by
  simp [fileAt]

theorem block_fileAt (contents : List UInt8) (k : ℕ) :
    (fileAt contents k).block = block maxBrPayloadLen contents k := by
  rw [OpenFile.block, fileAt, block]
  congr 1
  by_cases hle : k * maxBrPayloadLen ≤ contents.length
  · rw [min_eq_left hle]
  · have hle' : contents.length ≤ k * maxBrPayloadLen := (not_le.mp hle).le
    rw [min_eq_right hle', List.drop_length, List.drop_eq_nil_of_le hle']

theorem next_fileAt (contents : List UInt8) (k : ℕ) :
    (fileAt contents k).next = fileAt contents (k + 1) := by
  have hlength : (fileAt contents k).block.length =
      min maxBrPayloadLen (contents.length - k * maxBrPayloadLen) := by
    rw [block_fileAt, length_block]
  rw [OpenFile.next, hlength]
  simp only [fileAt, OpenFile.mk.injEq, true_and, maxBrPayloadLen_eq]
  omega

/-! ## Reactions of the two sides -/

section Reactions

variable {fs : FileSystem} {junk : ℕ → ℤ} {s : Server} {d : Datagram}
  {file : OpenFile}

/-- A payload that fits is received as it was sent. -/
theorem data_payload (hfits : d.payload.length ≤ maxBrPayloadLen) :
    d.data d.payload.length = d.payload := by
  rw [Datagram.data, Datagram.buffer, List.take_of_length_le hfits,
    Int.toNat_natCast, List.take_left]

theorem react_discover (h : s.control = .processPkt) :
    s.react fs junk discover = (s, [discoverReply]) := by
  simp [Server.react, Server.receive, h, processPkt, discover, Event.datagram?]

/-- The server finds the name the client asks for. -/
theorem fname_fileInfo (fname : FileName) :
    (fileInfo fname).fname = fname.bytes := by
  have hdata : (fileInfo fname).data (fileInfo fname).len = fname.bytes :=
    data_payload fname.fits
  have hlen : ¬ (fileInfo fname).len < 0 := by simp [fileInfo]
  have hchars : ∀ byte ∈ fname.bytes, decide (byte ≠ 0) = true := by
    intro byte hbyte
    exact decide_eq_true (ne_of_mem_of_not_mem hbyte fname.noNul)
  rw [Datagram.fname, if_neg hlen, hdata]
  exact List.takeWhile_eq_self_iff.mpr hchars

theorem react_fileInfo (h : s.control = .processPkt) (fname : FileName) :
    s.react fs junk (fileInfo fname) =
      ({ s with
          fd := (fs fname.bytes).map fun contents => ⟨contents, 0⟩
          infos := s.infos + 1 },
        [fileInfoReply (fs fname.bytes) (junk s.infos)]) := by
  have hreceive : s.receive fs junk (fileInfo fname) =
      processFileinfo fs junk s (fileInfo fname) := by
    simp only [Server.receive, h, processPkt, fileInfo]
  rw [Server.react, hreceive, processFileinfo, fname_fileInfo]
  cases fs fname.bytes with
  | none => rfl
  | some contents => rfl

theorem react_of_block (hserves : Serves s d) (hfd : s.fd = some file)
    (hblock : file.block ≠ []) :
    s.react fs junk d =
      ({ s with fd := some file.next, control := .processChunkrd },
        [chunkReply d file.block]) := by
  rw [Server.react, receive_of_serves hserves, chunkrdHead_of_block hfd hblock]
  rfl

theorem react_of_end (hserves : Serves s d) (hfd : s.fd = some file)
    (hblock : file.block = []) :
    s.react fs junk d = ({ s with control := .processPkt }, []) := by
  rw [Server.react, receive_of_serves hserves, chunkrdHead_of_end hfd hblock]
  rfl

theorem react_transferDone (h : s.control = .processChunkrd) :
    s.react fs junk (transferDone d) = ({ s with control := .processPkt }, []) := by
  simp [Server.react, Server.receive, h, processChunkrd, transferDone]

/-- A client that receives the block it asked for writes it. -/
theorem data_chunkReply {block : List UInt8}
    (hlength : block.length ≤ maxBrPayloadLen) :
    (chunkReply d block).data (chunkReply d block).len = block :=
  data_payload hlength

end Reactions

/-! ## One session -/

/-- The client after a step, and the next client if it has finished. -/
def resume (next : Client × List Datagram) (later : List FileName) :
    Clients × List Datagram :=
  ((Clients.settle next.1 later).1, next.2 ++ (Clients.settle next.1 later).2)

section Session

variable (fs : FileSystem) (junk : ℕ → ℤ) (fname : FileName)
  (contents : List UInt8) (nr last : ℤ) (later : List FileName)

/-- The loop of `fetch_file` is at the head of round `i`, and the blocks before
it are written. -/
def transferHead (i : ℕ) : Clients × List Datagram :=
  resume
    (fetchHead ⟨fname, .asking, contents.take (i * maxBrPayloadLen)⟩ nr last i)
    later

/-- The network at that point. -/
def transfer (i : ℕ) (s : Server) : Network where
  left := (transferHead fname contents nr last later i).1
  right := s
  toRight := (transferHead fname contents nr last later i).2
  toLeft := []

/-- Where the server waits after `i` rounds: `TRANSFER_DONE` takes it out of
the loop, the next request back into it. -/
def controlAfter : ℕ → Control
  | 0 => .processPkt
  | i + 1 =>
      if (block maxBrPayloadLen contents i).length = last then .processPkt
      else .processChunkrd

/-- The network when a client has finished. -/
def sessionEnd (written : List UInt8) (s : Server) : Network where
  left := (Clients.settle ⟨fname, .finished, written⟩ later).1
  right := s
  toRight := (Clients.settle ⟨fname, .finished, written⟩ later).2
  toLeft := []

variable {fs junk fname contents nr last later} {s : Server} {i : ℕ}

theorem serves_chunkRead : Serves s (chunkRead i) := by
  cases hcontrol : s.control with
  | processPkt => exact .inl ⟨hcontrol, rfl⟩
  | processChunkrd => exact .inr ⟨hcontrol, by simp [chunkRead]⟩

/-- In a round the loop goes through, request `i` is in flight. -/
theorem transfer_of_lt (hi : i < nr) :
    transfer fname contents nr last later i s =
      ⟨⟨⟨fname, .fetching i nr last, contents.take (i * maxBrPayloadLen)⟩, later⟩,
        s, [chunkRead i], []⟩ := by
  simp only [transfer, transferHead, resume, fetchHead, if_pos hi,
    Clients.settle, List.append_nil]

/-- After the last round the client has finished. -/
theorem transfer_of_le (hi : nr ≤ i) :
    transfer fname contents nr last later i s =
      sessionEnd fname later (contents.take (i * maxBrPayloadLen)) s := by
  simp only [transfer, transferHead, resume, fetchHead, if_neg (not_lt.mpr hi),
    sessionEnd, List.nil_append]

/-- The client writes the block it asked for and goes on. -/
theorem receive_block :
    Clients.react
        ⟨⟨fname, .fetching i nr last, contents.take (i * maxBrPayloadLen)⟩, later⟩
        (chunkReply (chunkRead i) (block maxBrPayloadLen contents i)) =
      ((transferHead fname contents nr last later (i + 1)).1,
        (if (block maxBrPayloadLen contents i).length = last then
            [transferDone
              (chunkReply (chunkRead i) (block maxBrPayloadLen contents i))]
          else []) ++
          (transferHead fname contents nr last later (i + 1)).2) := by
  have hanswers : Answers i
      (chunkReply (chunkRead i) (block maxBrPayloadLen contents i)) :=
    ⟨rfl, by simp [chunkReply], rfl⟩
  rw [transferHead, ← take_append_block]
  simp only [Clients.react, Client.receive, fetchRound, if_pos hanswers,
    data_chunkReply length_block_le, resume, List.append_assoc]
  rfl

/-- One round of the transfer. -/
theorem round_reaches (hi : i < nr)
    (hblock : i * maxBrPayloadLen < contents.length)
    (hfd : s.fd = some (fileAt contents i)) :
    Reaches (Step fs junk)
      (transfer fname contents nr last later i s)
      (transfer fname contents nr last later (i + 1)
        { s with
          fd := some (fileAt contents (i + 1))
          control := controlAfter contents last (i + 1) }) := by
  have hne : (fileAt contents i).block ≠ [] := by
    rw [block_fileAt, Ne, block_eq_nil_iff maxBrPayloadLen_pos, not_le]
    exact hblock
  rw [transfer_of_lt hi]
  apply Reaches.right (react_of_block serves_chunkRead hfd hne)
  rw [next_fileAt, block_fileAt, List.nil_append]
  apply Reaches.left receive_block
  by_cases hlast : (block maxBrPayloadLen contents i).length = last
  · rw [if_pos hlast, controlAfter, if_pos hlast]
    apply Reaches.right (react_transferDone rfl)
    exact Reaches.refl _
  · rw [if_neg hlast, controlAfter, if_neg hlast]
    exact Reaches.refl _

/-- The rounds of a transfer whose blocks are all in the file. -/
theorem rounds_reach (hnr : nr ≤ contents.length ⌈/⌉ maxBrPayloadLen)
    (hi : i ≤ nr.toNat) (hfd : s.fd = some (fileAt contents 0))
    (hcontrol : s.control = .processPkt) :
    ∃ s', s'.fd = some (fileAt contents i) ∧ s'.infos = s.infos ∧
      s'.control = controlAfter contents last i ∧
      Reaches (Step fs junk)
        (transfer fname contents nr last later 0 s)
        (transfer fname contents nr last later i s') := by
  induction i with
  | zero => exact ⟨s, hfd, rfl, hcontrol, .refl _⟩
  | succ i ih =>
      obtain ⟨s', hfd', hinfos, -, hreach⟩ := ih (Nat.le_of_succ_le hi)
      have hlt : (i : ℤ) < nr := by omega
      have hblock : i * maxBrPayloadLen < contents.length := by
        rw [← lt_ceilDiv_iff maxBrPayloadLen_pos]
        omega
      let next : Server :=
        { s' with
          fd := some (fileAt contents (i + 1))
          control := controlAfter contents last (i + 1) }
      have hround : Reaches (Step fs junk)
          (transfer fname contents nr last later i s')
          (transfer fname contents nr last later (i + 1) next) :=
        round_reaches hlt hblock hfd'
      exact ⟨next, rfl, hinfos, rfl, hreach.trans hround⟩

/-- `nr_chunks` is the number of blocks, as an `int`. -/
theorem nrChunks_eq (size : ℕ) :
    nrChunks size = toInt (size ⌈/⌉ maxBrPayloadLen : ℕ) := by
  rw [ceilDiv_eq maxBrPayloadLen_pos, nrChunks]
  by_cases hmod : size % maxBrPayloadLen = 0
  · rw [if_pos hmod, if_pos hmod]
  · rw [if_neg hmod, if_neg hmod, Nat.cast_succ, toInt, toInt, toInt,
      Int.bmod_add_bmod]

theorem nrChunks_le (size : ℕ) :
    nrChunks size ≤ (size ⌈/⌉ maxBrPayloadLen : ℕ) := by
  rw [nrChunks_eq, toInt, Int.bmod_eq_emod]
  split
  · omega
  · omega

/-- A chunk count that fits an `int` is reported as it is. -/
theorem nrChunks_of_fits {size : ℕ}
    (hfits : size ⌈/⌉ maxBrPayloadLen < 2 ^ 31) :
    nrChunks size = (size ⌈/⌉ maxBrPayloadLen : ℕ) := by
  rw [nrChunks_eq]
  exact Int.bmod_eq_of_le (by omega) (by omega)

/-- What a client has written when it finishes. -/
def fetched : Option (List UInt8) → List UInt8
  | none => []
  | some contents =>
      contents.take ((nrChunks contents.length).toNat * maxBrPayloadLen)

/-- How many bytes a session leaves unread in the loop of `process_chunkrd`;
`none` when the server is back in `process_pkt`, because no chunk was asked
for or because the last one had the length the client waited for. -/
def leftover (contents : Option (List UInt8)) (junk : ℤ) : Option ℕ :=
  match contents with
  | none => none
  | some contents =>
      match (nrChunks contents.length).toNat with
      | 0 => none
      | i + 1 =>
          if (block maxBrPayloadLen contents i).length =
              lastChunkSize contents.length junk then none
          else some (contents.length - (i + 1) * maxBrPayloadLen)

/-- The server has so many bytes left to send in the loop of
`process_chunkrd`, or it is in `process_pkt`. -/
def LeftIn : Option ℕ → Server → Prop
  | none, s => s.control = .processPkt
  | some r, s => s.control = .processChunkrd ∧
      ∃ file, s.fd = some file ∧ file.contents.length - file.pos = r

/-- The server at the end of a transfer. -/
theorem leftIn_leftover {k : ℤ} (hi : i = (nrChunks contents.length).toNat)
    (hfd : s.fd = some (fileAt contents i))
    (hcontrol : s.control =
      controlAfter contents (lastChunkSize contents.length k) i) :
    LeftIn (leftover (some contents) k) s := by
  rw [leftover, ← hi]
  cases i with
  | zero => exact hcontrol
  | succ i =>
      rw [controlAfter] at hcontrol
      by_cases hlast : (block maxBrPayloadLen contents i).length =
          lastChunkSize contents.length k
      · rw [if_pos hlast] at hcontrol
        simp only [if_pos hlast]
        exact hcontrol
      · rw [if_neg hlast] at hcontrol
        simp only [if_neg hlast]
        refine ⟨hcontrol, _, hfd, ?_⟩
        simp only [fileAt]
        omega

/-- The first two exchanges of a session: the server is found, and asked about
the file. -/
theorem opening_reaches (hcontrol : s.control = .processPkt)
    {reply : Datagram}
    (hreply : reply = fileInfoReply (fs fname.bytes) (junk s.infos))
    {next : Clients × List Datagram}
    (hnext : next =
      resume (fetchHead ⟨fname, .asking, []⟩ reply.chunk reply.len 0) later) :
    Reaches (Step fs junk) (begin s fname later)
      ⟨next.1,
        { s with
          fd := (fs fname.bytes).map fun contents => ⟨contents, 0⟩
          infos := s.infos + 1 },
        next.2, []⟩ := by
  have hfound : Clients.react ⟨.start fname, later⟩ discoverReply =
      (⟨⟨fname, .asking, []⟩, later⟩, [fileInfo fname]) := by
    simp [Clients.react, Client.receive, Client.start, discoverReply,
      Clients.settle]
  have hasked : Clients.react ⟨⟨fname, .asking, []⟩, later⟩ reply = next := by
    rw [hnext]
    rfl
  apply Reaches.right (react_discover hcontrol)
  apply Reaches.left hfound
  apply Reaches.right (react_fileInfo hcontrol fname)
  rw [← hreply]
  apply Reaches.left hasked
  exact Reaches.refl _

/-- One session, from the first packet of the client to its end. -/
theorem session_reaches (hcontrol : s.control = .processPkt) :
    ∃ s', LeftIn (leftover (fs fname.bytes) (junk s.infos)) s' ∧
      s'.infos = s.infos + 1 ∧
      Reaches (Step fs junk) (begin s fname later)
        (sessionEnd fname later (fetched (fs fname.bytes)) s') := by
  have hopening : Reaches (Step fs junk) (begin s fname later) _ :=
    opening_reaches hcontrol rfl rfl
  cases hfile : fs fname.bytes with
  | none =>
      rw [hfile] at hopening
      refine ⟨_, ?_, ?_, hopening⟩
      · exact hcontrol
      · rfl
  | some contents =>
      rw [hfile] at hopening
      let nr := nrChunks contents.length
      let last := lastChunkSize contents.length (junk s.infos)
      let opened : Server :=
        { s with fd := some ⟨contents, 0⟩, infos := s.infos + 1 }
      have hstart : Reaches (Step fs junk) (begin s fname later)
          (transfer fname contents nr last later 0 opened) := by
        rw [transfer, transferHead, Nat.zero_mul, List.take_zero]
        exact hopening
      have hrounds : ∃ s', s'.fd = some (fileAt contents nr.toNat) ∧
          s'.infos = opened.infos ∧
          s'.control = controlAfter contents last nr.toNat ∧
          Reaches (Step fs junk)
            (transfer fname contents nr last later 0 opened)
            (transfer fname contents nr last later nr.toNat s') :=
        rounds_reach (nrChunks_le contents.length) le_rfl
          (by rw [fileAt_zero]) hcontrol
      obtain ⟨s', hfd, hinfos, hcontrol', hreach⟩ := hrounds
      refine ⟨s', leftIn_leftover rfl hfd hcontrol', hinfos, ?_⟩
      rw [transfer_of_le (Int.self_le_toNat nr)] at hreach
      exact hstart.trans hreach

/-- A server left with `r` bytes answers the next `DISCOVER` with a chunk, for
which the client gives up; when none is left, nobody answers. -/
theorem disturbed_reaches {r : ℕ} (hleft : LeftIn (some r) s) (hr : 0 < r) :
    ∃ s', LeftIn (some (r - maxBrPayloadLen)) s' ∧
      Reaches (Step fs junk) (begin s fname later)
        (sessionEnd fname later [] s') := by
  obtain ⟨hcontrol, file, hfd, rfl⟩ := hleft
  have hlength : file.block.length =
      min maxBrPayloadLen (file.contents.length - file.pos) := by
    rw [OpenFile.block, List.length_take, List.length_drop]
  have hblock : file.block ≠ [] := by
    rw [← List.length_pos_iff, hlength]
    exact lt_min maxBrPayloadLen_pos hr
  have hserves : Serves s discover := .inr ⟨hcontrol, by decide⟩
  have hgivesUp : Clients.react ⟨.start fname, later⟩
      (chunkReply discover file.block) =
      ((Clients.settle ⟨fname, .finished, []⟩ later).1,
        (Clients.settle ⟨fname, .finished, []⟩ later).2) := by
    simp [Clients.react, Client.receive, Client.start, chunkReply]
  let s' : Server := { s with fd := some file.next, control := .processChunkrd }
  have hleft' : file.next.contents.length - file.next.pos =
      file.contents.length - file.pos - maxBrPayloadLen := by
    simp only [OpenFile.next, hlength]
    omega
  refine ⟨s', ⟨rfl, file.next, rfl, hleft'⟩, ?_⟩
  apply Reaches.right (react_of_block hserves hfd hblock)
  apply Reaches.left hgivesUp
  exact Reaches.refl _

/-- A server left with nothing more to read swallows the next `DISCOVER`. -/
theorem swallowed_reaches (hleft : LeftIn (some 0) s) :
    ∃ s', Reaches (Step fs junk) (begin s fname later)
      ⟨⟨.start fname, later⟩, s', [], []⟩ := by
  obtain ⟨hcontrol, file, hfd, hrest⟩ := hleft
  have hblock : file.block = [] := by
    rw [← List.length_eq_zero_iff, OpenFile.block, List.length_take,
      List.length_drop, hrest, Nat.min_zero]
  have hserves : Serves s discover := .inr ⟨hcontrol, by decide⟩
  exact ⟨_, Reaches.right (react_of_end hserves hfd hblock) (Reaches.refl _)⟩

end Session

/-! ## Sessions one after another -/

/-- A client waits for a reply while no datagram is in flight; the server waits
for a datagram whenever it is not about to receive one. -/
def Deadlock (n : Network) : Prop :=
  n.left.current.stage ≠ .finished ∧ n.toRight = [] ∧ n.toLeft = []

/-- No session but the last ones leaves the server in the loop of
`process_chunkrd`: the bytes left there answer one `DISCOVER` for each block of
them, and what comes after that is swallowed.  The sessions before have asked
about `n` files. -/
def AllAnswered (fs : FileSystem) (junk : ℕ → ℤ) : ℕ → List FileName → Prop
  | _, [] => True
  | n, fname :: later =>
      match leftover (fs fname.bytes) (junk n) with
      | none => AllAnswered fs junk (n + 1) later
      | some r => later.length ≤ r ⌈/⌉ maxBrPayloadLen

/-- The same for sessions that find a server with `left` bytes in that loop. -/
def AnsweredFrom (fs : FileSystem) (junk : ℕ → ℤ) :
    Option ℕ → ℕ → List FileName → Prop
  | none, n, fnames => AllAnswered fs junk n fnames
  | some r, _, fnames => fnames.length ≤ r ⌈/⌉ maxBrPayloadLen

section Sessions

variable {fs : FileSystem} {junk : ℕ → ℤ}

theorem answeredFrom_cons (n : ℕ) (fname : FileName) (later : List FileName) :
    AnsweredFrom fs junk none n (fname :: later) ↔
      AnsweredFrom fs junk (leftover (fs fname.bytes) (junk n)) (n + 1) later := by
  simp only [AnsweredFrom, AllAnswered]
  cases leftover (fs fname.bytes) (junk n) with
  | none => rfl
  | some r => rfl

/-- What the sessions that are still to come end in. -/
theorem sessions_end (fname : FileName) (written : List UInt8)
    (later : List FileName) {s : Server} {left : Option ℕ}
    (hleft : LeftIn left s) :
    ∃ t, Reaches (Step fs junk) (sessionEnd fname later written s) t ∧
      t.toRight = [] ∧ t.toLeft = [] ∧
      (t.left.current.stage = .finished ↔
        AnsweredFrom fs junk left s.infos later) := by
  induction later generalizing fname written s left with
  | nil =>
      refine ⟨_, .refl _, rfl, rfl, iff_of_true rfl ?_⟩
      cases left with
      | none => trivial
      | some r => exact Nat.zero_le _
  | cons next rest ih =>
      have hbegin : sessionEnd fname (next :: rest) written s =
          begin s next rest := rfl
      rw [hbegin]
      cases left with
      | none =>
          obtain ⟨s', hleft', hinfos, hreach⟩ := session_reaches hleft
          obtain ⟨t, ht, hright, hleft, hiff⟩ := ih next _ hleft'
          refine ⟨t, hreach.trans ht, hright, hleft, ?_⟩
          rw [hiff, hinfos, answeredFrom_cons]
      | some r =>
          by_cases hr : r = 0
          · subst hr
            obtain ⟨s', hreach⟩ := swallowed_reaches hleft
            refine ⟨_, hreach, rfl, rfl, iff_of_false ?_ ?_⟩
            · simp [Client.start]
            · simp [AnsweredFrom]
          · have hpos := Nat.pos_of_ne_zero hr
            obtain ⟨s', hleft', hreach⟩ := disturbed_reaches hleft hpos
            obtain ⟨t, ht, hright, hleft, hiff⟩ := ih next _ hleft'
            refine ⟨t, hreach.trans ht, hright, hleft, ?_⟩
            rw [hiff, AnsweredFrom, AnsweredFrom, List.length_cons,
              succ_le_ceilDiv_iff maxBrPayloadLen_pos hpos]

/-- A deadlock is the end of a run, and the run above is one that ends. -/
theorem reaches_deadlock_iff (fname : FileName) (later : List FileName) :
    (∃ n, Reaches (Step fs junk) (begin .start fname later) n ∧ Deadlock n) ↔
      ¬ AllAnswered fs junk 0 (fname :: later) := by
  have hleft : LeftIn none Server.start := rfl
  obtain ⟨t, ht, hright, hleft, hiff⟩ :
      ∃ t, Reaches (Step fs junk) (begin .start fname later) t ∧
        t.toRight = [] ∧ t.toLeft = [] ∧
        (t.left.current.stage = .finished ↔
          AnsweredFrom fs junk none 0 (fname :: later)) :=
    sessions_end fname [] (fname :: later) hleft
  have hend : EndsAt (Step fs junk) (begin .start fname later) t :=
    commutes_step.endsAt ht (stuck_iff.mpr ⟨hright, hleft⟩)
  constructor
  · rintro ⟨n, hn, hstage, hempty⟩ hall
    obtain rfl := hend.eq_of_stuck hn (stuck_iff.mpr hempty)
    exact hstage (hiff.mpr hall)
  · intro hall
    refine ⟨t, ht, ?_, hright, hleft⟩
    intro hstage
    exact hall (hiff.mp hstage)

/-- When the chunk count fits, only a file that is not empty and ends with a
full block is not recognised as read, unless the field left uninitialised holds
the length of a block. -/
theorem leftover_of_fits {contents : List UInt8} {k : ℤ}
    (hfits : contents.length ⌈/⌉ maxBrPayloadLen < 2 ^ 31) :
    leftover (some contents) k =
      if contents ≠ [] ∧ contents.length % maxBrPayloadLen = 0 ∧
          k ≠ maxBrPayloadLen
      then some 0 else none := by
  rw [leftover, nrChunks_of_fits hfits, Int.toNat_natCast]
  have hne : 0 < contents.length ⌈/⌉ maxBrPayloadLen ↔ contents ≠ [] := by
    rw [ceilDiv_pos_iff maxBrPayloadLen_pos, List.length_pos_iff]
  cases hn : contents.length ⌈/⌉ maxBrPayloadLen with
  | zero =>
      have hempty : ¬ contents ≠ [] := by
        rw [← hne, hn]
        exact Nat.lt_irrefl 0
      rw [if_neg fun h => hempty h.1]
  | succ i =>
      have hlength := length_last_block maxBrPayloadLen_pos hn
      have hrest : contents.length - (i + 1) * maxBrPayloadLen = 0 := by
        rw [← hn]
        exact Nat.sub_eq_zero_of_le (le_ceilDiv_mul maxBrPayloadLen_pos)
      by_cases hmod : contents.length % maxBrPayloadLen = 0
      · rw [if_pos hmod] at hlength
        have hlast : lastChunkSize contents.length k = k := if_pos hmod
        by_cases hk : k = maxBrPayloadLen
        · rw [if_neg fun h => h.2.2 hk]
          simp only [hlength, hlast, if_pos hk.symm]
        · have hpos : 0 < contents.length ⌈/⌉ maxBrPayloadLen := by omega
          rw [if_pos ⟨hne.mp hpos, hmod, hk⟩]
          simp only [hlength, hlast, hrest, if_neg (Ne.symm hk)]
      · rw [if_neg hmod] at hlength
        have hlast : lastChunkSize contents.length k =
            (contents.length % maxBrPayloadLen : ℕ) := if_neg hmod
        rw [if_neg fun h => hmod h.2.1]
        simp only [hlength, hlast, if_pos]

/-- A session leaves the server in `process_pkt` when it fetches no full last
block under another length. -/
def Recognised (fs : FileSystem) (junk : ℕ → ℤ) (n : ℕ) (fname : FileName) :
    Prop :=
  ∀ contents ∈ fs fname.bytes, contents ≠ [] →
    contents.length % maxBrPayloadLen = 0 → junk n = maxBrPayloadLen

theorem leftover_of_recognised (junk : ℕ → ℤ) (n : ℕ) {fname : FileName}
    (hfits : ∀ contents ∈ fs fname.bytes,
      contents.length ⌈/⌉ maxBrPayloadLen < 2 ^ 31) :
    (Recognised fs junk n fname →
      leftover (fs fname.bytes) (junk n) = none) ∧
    (¬ Recognised fs junk n fname →
      leftover (fs fname.bytes) (junk n) = some 0) := by
  rw [Recognised]
  cases hfile : fs fname.bytes with
  | none => exact ⟨fun _ => rfl, fun h => (h (by rintro _ ⟨⟩)).elim⟩
  | some contents =>
      rw [leftover_of_fits (hfits contents hfile)]
      constructor
      · intro h
        exact if_neg fun hleaves => hleaves.2.2 (h _ rfl hleaves.1 hleaves.2.1)
      · intro h
        apply if_pos
        by_contra hnot
        apply h
        rintro _ ⟨rfl⟩ hne hmod
        by_contra hk
        exact hnot ⟨hne, hmod, hk⟩

/-- When the chunk counts fit, every session but the last one has to be
recognised. -/
theorem allAnswered_iff_of_fits (n : ℕ) (fnames : List FileName)
    (hfits : ∀ fname ∈ fnames, ∀ contents ∈ fs fname.bytes,
      contents.length ⌈/⌉ maxBrPayloadLen < 2 ^ 31) :
    AllAnswered fs junk n fnames ↔
      ∀ i, i + 1 < fnames.length → ∀ fname ∈ fnames[i]?,
        Recognised fs junk (n + i) fname := by
  induction fnames generalizing n with
  | nil => exact iff_of_true trivial fun i hi => absurd hi (by simp)
  | cons fname later ih =>
      have hfits' := fun g hg => hfits g (List.mem_cons_of_mem fname hg)
      obtain ⟨hstays, hleaves⟩ :=
        leftover_of_recognised junk n (hfits fname List.mem_cons_self)
      by_cases hrec : Recognised fs junk n fname
      · have hcons : AllAnswered fs junk n (fname :: later) ↔
            AllAnswered fs junk (n + 1) later := by
          simp only [AllAnswered, hstays hrec]
        have hindex : ∀ i, n + 1 + i = n + (i + 1) := by omega
        rw [hcons, ih (n + 1) hfits']
        constructor
        · intro h i hi g hg
          cases i with
          | zero =>
              obtain rfl := Option.some.inj hg
              exact hrec
          | succ i =>
              rw [← hindex]
              exact h i (Nat.lt_of_succ_lt_succ hi) g hg
        · intro h i hi g hg
          rw [hindex]
          exact h (i + 1) (Nat.succ_lt_succ hi) g hg
      · have hcons : AllAnswered fs junk n (fname :: later) ↔
            later.length ≤ 0 := by
          simp only [AllAnswered, hleaves hrec, zero_ceilDiv]
        rw [hcons]
        constructor
        · intro hlater i hi
          rw [List.length_cons] at hi
          omega
        · intro h
          by_contra hlater
          refine hrec (h 0 ?_ fname rfl)
          rw [List.length_cons]
          omega

end Sessions

/-- A client alone with a server that waits in `process_pkt` writes the file it
asks for, and every run comes to that end. -/
theorem transfer_delivers (fs : FileSystem) (junk : ℕ → ℤ) (server : Server)
    (hserver : server.control = .processPkt) (fname : FileName)
    (contents : List UInt8) (hfile : fs fname.bytes = some contents)
    (hfits : contents.length ⌈/⌉ maxBrPayloadLen < 2 ^ 31) :
    ∃ t, EndsAt (Step fs junk) (begin server fname []) t ∧
      t.left.current.stage = .finished ∧
      t.left.current.written = contents := by
  obtain ⟨s', -, -, hreach⟩ := session_reaches hserver
  refine ⟨_, commutes_step.endsAt hreach (stuck_iff.mpr ⟨rfl, rfl⟩), rfl, ?_⟩
  change fetched (fs fname.bytes) = contents
  rw [hfile, fetched, nrChunks_of_fits hfits, Int.toNat_natCast]
  exact take_ceilDiv maxBrPayloadLen_pos

theorem length_twoChunks : twoChunks.length = 1009 := by
  rw [twoChunks, List.length_append, List.length_replicate]
  rfl

/-- The file of two chunks, whatever the field left uninitialised holds. -/
theorem transfer_delivers_two_chunks :
    ∃ t, EndsAt (Step twoChunksNamed fun _ => 1008) (begin .start nameF []) t ∧
      t.left.current.stage = .finished ∧
      t.left.current.written = twoChunks :=
  transfer_delivers twoChunksNamed (fun _ => 1008) .start rfl nameF twoChunks
    rfl (by rw [length_twoChunks]; decide)

/-- No run of any sequence of sessions comes to a deadlock exactly when no
session leaves the server in its inner loop with more sessions to come than
there are blocks left. -/
theorem no_deadlock_iff (fs : FileSystem) (junk : ℕ → ℤ) (fname : FileName)
    (later : List FileName) :
    (∀ n, Reaches (Step fs junk) (begin .start fname later) n → ¬ Deadlock n) ↔
      AllAnswered fs junk 0 (fname :: later) := by
  constructor
  · intro hno
    by_contra hall
    obtain ⟨n, hn, hdead⟩ := (reaches_deadlock_iff fname later).mpr hall
    exact hno n hn hdead
  · intro hall n hn hdead
    exact (reaches_deadlock_iff fname later).mp ⟨n, hn, hdead⟩ hall

/-- A file of one full block, under the name `f`. -/
def oneBlockNamed : FileSystem := fun name =>
  if name = [102] then some (List.replicate maxBrPayloadLen 0) else none

/-- After a session that fetches such a file, with 0 in the field left
uninitialised, the next session is not answered. -/
theorem second_session_not_answered :
    ¬ ∀ (fs : FileSystem) (junk : ℕ → ℤ) (fname : FileName)
      (later : List FileName) (n : Network),
      Reaches (Step fs junk) (begin .start fname later) n → ¬ Deadlock n := by
  intro hno
  have hfile : oneBlockNamed nameF.bytes =
      some (List.replicate maxBrPayloadLen 0) := rfl
  have hleft : leftover (oneBlockNamed nameF.bytes) 0 = some 0 := by
    rw [hfile, leftover_of_fits (by rw [List.length_replicate]; decide)]
    have hne : List.replicate maxBrPayloadLen (0 : UInt8) ≠ [] := by
      rw [Ne, List.replicate_eq_nil_iff]
      decide
    apply if_pos
    rw [List.length_replicate]
    exact ⟨hne, by decide, by decide⟩
  have hnot : ¬ AllAnswered oneBlockNamed (fun _ => 0) 0 [nameF, nameF] := by
    simp only [AllAnswered, hleft, zero_ceilDiv]
    decide
  obtain ⟨n, hn, hdead⟩ := (reaches_deadlock_iff nameF [nameF]).mpr hnot
  exact hno _ _ nameF [nameF] n hn hdead

end MiscCode.Broadcast
