import MiscCode.Broadcast.Model
import MiscCode.Support.Blocks

/-!
# What the server answers

The server's reactions, one lemma for each kind of packet, and the law its
chunk replies should obey: a reply with id `k` carries the bytes from offset
`k * 1008` on of the file opened last.  The server reads from the position of
its descriptor and copies the id from the request, so the law holds as long as
the two agree.
-/

namespace MiscCode.Broadcast

open Blocks

/-! ## Reactions -/

section Reactions

variable {fs : FileSystem} {junk : ℕ → ℤ} {s : Server} {d : Datagram}
  {file : OpenFile}

/-- The server answers `d` from the file: a `CHUNK_READ` in `process_pkt`, and
everything but `TRANSFER_DONE` in `process_chunkrd`. -/
def Serves (s : Server) (d : Datagram) : Prop :=
  (s.control = .processPkt ∧ d.op = .chunkRead) ∨
    (s.control = .processChunkrd ∧ d.op ≠ .transferDone)

instance (s : Server) (d : Datagram) : Decidable (Serves s d) :=
  inferInstanceAs (Decidable (_ ∨ _))

theorem receive_of_serves (h : Serves s d) :
    s.receive fs junk d = chunkrdHead s d := by
  rcases h with ⟨hcontrol, hop⟩ | ⟨hcontrol, hop⟩
  · simp only [Server.receive, hcontrol, processPkt, hop]
  · simp only [Server.receive, hcontrol, processChunkrd, if_neg hop]

/-- A packet that is not answered from the file: only `FILE_INFO` touches the
descriptor, and no reply is a chunk. -/
theorem receive_cases (fs : FileSystem) (junk : ℕ → ℤ) (h : ¬ Serves s d) :
    s.receive fs junk d = processFileinfo fs junk s d ∨
      ((s.receive fs junk d).1.fd = s.fd ∧
        ((s.receive fs junk d).2 = [] ∨
          (s.receive fs junk d).2 = [.sent discoverReply])) := by
  cases hcontrol : s.control with
  | processPkt =>
      cases hop : d.op with
      | discover =>
          right
          simp [Server.receive, hcontrol, processPkt, hop]
      | fileInfo =>
          left
          simp only [Server.receive, hcontrol, processPkt, hop]
      | chunkRead => exact absurd (.inl ⟨hcontrol, hop⟩) h
      | transferDone =>
          right
          simp [Server.receive, hcontrol, processPkt, hop]
      | invalid code =>
          right
          simp [Server.receive, hcontrol, processPkt, hop]
  | processChunkrd =>
      by_cases hop : d.op = .transferDone
      · right
        simp [Server.receive, hcontrol, processChunkrd, hop]
      · exact absurd (.inr ⟨hcontrol, hop⟩) h

/-- With bytes left, the block at the current position is sent. -/
theorem chunkrdHead_of_block (hfd : s.fd = some file) (hblock : file.block ≠ []) :
    chunkrdHead s d =
      ({ s with fd := some file.next, control := .processChunkrd },
        [.sent (chunkReply d file.block)]) := by
  simp only [chunkrdHead, hfd, if_neg hblock]

/-- At the end of the file the loop is left without a reply. -/
theorem chunkrdHead_of_end (hfd : s.fd = some file) (hblock : file.block = []) :
    chunkrdHead s d = ({ s with control := .processPkt }, []) := by
  simp only [chunkrdHead, hfd, if_pos hblock]

theorem chunkrdHead_of_closed (hfd : s.fd = none) :
    chunkrdHead s d = ({ s with control := .processPkt }, []) := by
  simp only [chunkrdHead, hfd]

end Reactions

/-! ## Runs of the server -/

/-- The events of a run, by the datagrams received in it. -/
def Server.events (fs : FileSystem) (junk : ℕ → ℤ) :
    Server → List Datagram → List Event
  | _, [] => []
  | s, d :: ds =>
      (s.receive fs junk d).2 ++ events fs junk (s.receive fs junk d).1 ds

/-- The file opened last, where `before` was opened before the events. -/
def lastOpened (before : Option (List UInt8)) : List Event → Option (List UInt8)
  | [] => before
  | .opened contents :: events => lastOpened (some contents) events
  | .sent _ :: events => lastOpened before events

/-- `d` carries the bytes of the file from `chunk * 1008` on, as many as `len`
says. -/
def CarriesChunk (contents : List UInt8) (d : Datagram) : Prop :=
  0 ≤ d.chunk ∧ d.payload.length = d.len ∧
    d.payload =
      (contents.drop (d.chunk.toNat * maxBrPayloadLen)).take d.len.toNat

instance (contents : List UInt8) (d : Datagram) :
    Decidable (CarriesChunk contents d) :=
  inferInstanceAs (Decidable (_ ∧ _ ∧ _))

/-- Every chunk reply carries its chunk of the file opened last. -/
def ChunkLaw (before : Option (List UInt8)) : List Event → Prop
  | [] => True
  | .opened contents :: events => ChunkLaw (some contents) events
  | .sent d :: events =>
      (d.op = .chunkRead → ∃ contents ∈ before, CarriesChunk contents d) ∧
      ChunkLaw before events

/-- The law can be checked on the events of a run. -/
def decidableChunkLaw (before : Option (List UInt8)) :
    (events : List Event) → Decidable (ChunkLaw before events)
  | [] => isTrue trivial
  | .opened contents :: events => decidableChunkLaw (some contents) events
  | .sent d :: events =>
      have := decidableChunkLaw before events
      inferInstanceAs (Decidable ((d.op = .chunkRead →
        ∃ contents ∈ before, CarriesChunk contents d) ∧ _))

instance (before : Option (List UInt8)) (events : List Event) :
    Decidable (ChunkLaw before events) :=
  decidableChunkLaw before events

theorem chunkLaw_append (before : Option (List UInt8)) (es fs : List Event) :
    ChunkLaw before (es ++ fs) ↔
      ChunkLaw before es ∧ ChunkLaw (lastOpened before es) fs := by
  induction es generalizing before with
  | nil => exact (and_iff_right trivial).symm
  | cons e es ih =>
      cases e with
      | opened contents => exact ih (some contents)
      | sent d =>
          simp only [List.cons_append, ChunkLaw, lastOpened, ih, and_assoc]

/-- The request asks for the chunk at the current position, if it is answered
from the file with bytes left. -/
def InStep (s : Server) (d : Datagram) : Prop :=
  Serves s d → ∀ file ∈ s.fd, file.block ≠ [] →
    d.chunk * maxBrPayloadLen = file.pos

instance (s : Server) (d : Datagram) : Decidable (InStep s d) :=
  inferInstanceAs (Decidable (_ → ∀ file ∈ s.fd, _ → _))

/-- Every step of a run is in step. -/
def AllInStep (fs : FileSystem) (junk : ℕ → ℤ) : Server → List Datagram → Prop
  | _, [] => True
  | s, d :: ds => InStep s d ∧ AllInStep fs junk (s.receive fs junk d).1 ds

/-- Whether a run is in step can be checked. -/
def decidableAllInStep (fs : FileSystem) (junk : ℕ → ℤ) :
    (s : Server) → (ds : List Datagram) → Decidable (AllInStep fs junk s ds)
  | _, [] => isTrue trivial
  | s, d :: ds =>
      have := decidableAllInStep fs junk (s.receive fs junk d).1 ds
      inferInstanceAs (Decidable (InStep s d ∧ _))

instance (fs : FileSystem) (junk : ℕ → ℤ) (s : Server) (ds : List Datagram) :
    Decidable (AllInStep fs junk s ds) :=
  decidableAllInStep fs junk s ds

/-- The descriptor refers to the file opened last. -/
def Knows (opened : Option (List UInt8)) (s : Server) : Prop :=
  ∀ file ∈ s.fd, opened = some file.contents

/-- A step that keeps the law and the connection with the file opened last. -/
def KeepsLaw (opened : Option (List UInt8)) (next : Server × List Event) :
    Prop :=
  ChunkLaw opened next.2 ∧ Knows (lastOpened opened next.2) next.1

section Law

variable {fs : FileSystem} {junk : ℕ → ℤ} {s : Server} {d : Datagram}
  {opened : Option (List UInt8)}

/-- A reply in step carries its chunk: the block read is as long as the reply
says, and starts where the chunk does. -/
theorem carriesChunk_chunkReply {file : OpenFile}
    (hpos : d.chunk * maxBrPayloadLen = file.pos) :
    CarriesChunk file.contents (chunkReply d file.block) := by
  rw [maxBrPayloadLen_eq] at hpos
  have hchunk : 0 ≤ d.chunk := by omega
  have hnat : d.chunk.toNat * maxBrPayloadLen = file.pos := by
    rw [maxBrPayloadLen_eq]
    omega
  refine ⟨hchunk, rfl, ?_⟩
  change file.block =
    (file.contents.drop (d.chunk.toNat * maxBrPayloadLen)).take file.block.length
  rw [hnat, OpenFile.block, List.length_take]
  exact List.take_eq_take_min

/-- Only chunk replies are bound by the law. -/
theorem chunkLaw_sent (hop : d.op ≠ .chunkRead) : ChunkLaw opened [.sent d] :=
  ⟨fun h => absurd h hop, trivial⟩

theorem op_fileInfoReply (contents : Option (List UInt8)) (junk : ℤ) :
    (fileInfoReply contents junk).op ≠ .chunkRead := by
  simp [fileInfoReply]

/-- A request in step is answered from the file with its chunk. -/
theorem chunkrdHead_keepsLaw (hknows : Knows opened s)
    (hpos : ∀ file ∈ s.fd, file.block ≠ [] →
      d.chunk * maxBrPayloadLen = file.pos) :
    KeepsLaw opened (chunkrdHead s d) := by
  cases hfd : s.fd with
  | none =>
      rw [chunkrdHead_of_closed hfd]
      exact ⟨trivial, hknows⟩
  | some file =>
      by_cases hblock : file.block = []
      · rw [chunkrdHead_of_end hfd hblock]
        exact ⟨trivial, hknows⟩
      · rw [chunkrdHead_of_block hfd hblock]
        have hcarries := carriesChunk_chunkReply (hpos file hfd hblock)
        refine ⟨⟨fun _ => ⟨_, hknows file hfd, hcarries⟩, trivial⟩, ?_⟩
        rintro _ ⟨rfl⟩
        exact hknows file hfd

/-- After `FILE_INFO` the descriptor refers to the file it opens, if any. -/
theorem processFileinfo_keepsLaw (fs : FileSystem) (junk : ℕ → ℤ) (s : Server)
    (d : Datagram) : KeepsLaw opened (processFileinfo fs junk s d) := by
  rw [processFileinfo]
  cases fs d.fname with
  | none =>
      refine ⟨chunkLaw_sent (op_fileInfoReply _ _), ?_⟩
      rintro file ⟨⟩
  | some contents =>
      refine ⟨chunkLaw_sent (op_fileInfoReply _ _), ?_⟩
      rintro file ⟨rfl⟩
      rfl

/-- One step: its replies obey the law, and the descriptor goes on referring to
the file opened last. -/
theorem receive_in_step (fs : FileSystem) (junk : ℕ → ℤ)
    (hknows : Knows opened s) (hstep : InStep s d) :
    KeepsLaw opened (s.receive fs junk d) := by
  by_cases hserves : Serves s d
  · rw [receive_of_serves hserves]
    exact chunkrdHead_keepsLaw hknows (hstep hserves)
  · rcases receive_cases fs junk hserves with hinfo | ⟨hfd, hout⟩
    · rw [hinfo]
      exact processFileinfo_keepsLaw fs junk s d
    · have hlaw : ChunkLaw opened (s.receive fs junk d).2 ∧
          lastOpened opened (s.receive fs junk d).2 = opened := by
        rcases hout with hout | hout
        · rw [hout]
          exact ⟨trivial, rfl⟩
        · rw [hout]
          exact ⟨chunkLaw_sent (by decide), rfl⟩
      refine ⟨hlaw.1, ?_⟩
      rw [hlaw.2, Knows, hfd]
      exact hknows

/-- In a run that stays in step the law holds. -/
theorem chunkLaw_of_knows {ds : List Datagram} (hknows : Knows opened s)
    (hsteps : AllInStep fs junk s ds) :
    ChunkLaw opened (s.events fs junk ds) := by
  induction ds generalizing s opened with
  | nil => trivial
  | cons d ds ih =>
      obtain ⟨hstep, hrest⟩ := hsteps
      obtain ⟨hlaw, hknows'⟩ :=
        receive_in_step fs junk hknows hstep
      rw [Server.events, chunkLaw_append]
      exact ⟨hlaw, ih hknows' hrest⟩

end Law

/-- Every run of the server whose chunk requests ask for the current position
obeys the chunk law. -/
theorem chunkLaw_of_allInStep (fs : FileSystem) (junk : ℕ → ℤ)
    (ds : List Datagram) (hsteps : AllInStep fs junk Server.start ds) :
    ChunkLaw none (Server.start.events fs junk ds) := by
  apply chunkLaw_of_knows _ hsteps
  rintro file ⟨⟩

/-- A file of two chunks: 1008 zeros and a one. -/
def twoChunks : List UInt8 := List.replicate maxBrPayloadLen 0 ++ [1]

/-- A file system with that file under the name `f`. -/
def twoChunksNamed : FileSystem := fun name =>
  if name = [102] then some twoChunks else none

/-- The name `f`. -/
def nameF : FileName where
  bytes := [102]
  noNul := by decide
  fits := by decide

/-- A client that asks for both chunks in turn. -/
theorem chunkLaw_of_allInStep_in_turn :
    ChunkLaw none (Server.start.events twoChunksNamed (fun _ => 0)
      [discover, fileInfo nameF, chunkRead 0, chunkRead 1]) :=
  chunkLaw_of_allInStep twoChunksNamed (fun _ => 0) _ (by decide +kernel)

/-- A request that arrives twice is answered twice, the second time with the
bytes of the next chunk. -/
theorem repeated_request_answered_with_next_chunk :
    ¬ ∀ (fs : FileSystem) (junk : ℕ → ℤ) (ds : List Datagram),
      ChunkLaw none (Server.start.events fs junk ds) := by
  intro h
  have hrun := h twoChunksNamed (fun _ => 0)
    [fileInfo nameF, chunkRead 0, chunkRead 0]
  revert hrun
  decide +kernel

/-! ## Packets during a transfer -/

/-- What the loop of `process_chunkrd` prints a complaint about. -/
inductive Complaint where
  | nonChunkRead
  | outOfOrder (expected requested : ℤ)
  deriving DecidableEq, Repr

/-- The tests after the `recvfrom` of that loop, where `lastChunkId` is the id
answered last. -/
def complaint (lastChunkId : ℤ) (d : Datagram) : Option Complaint :=
  if d.op = .transferDone then none
  else if d.op ≠ .chunkRead then some .nonChunkRead
  else if d.chunk ≠ lastChunkId + 1 then
    some (.outOfOrder (lastChunkId + 1) d.chunk)
  else none

/-- Neither `TRANSFER_DONE` nor the request for the next chunk. -/
def Unexpected (lastChunkId : ℤ) (d : Datagram) : Prop :=
  d.op ≠ .transferDone ∧ ¬ (d.op = .chunkRead ∧ d.chunk = lastChunkId + 1)

/-- The loop recognizes the packets it does not expect. -/
theorem complaint_isSome_iff {lastChunkId : ℤ} {d : Datagram} :
    (complaint lastChunkId d).isSome ↔ Unexpected lastChunkId d := by
  unfold complaint Unexpected
  by_cases hdone : d.op = .transferDone
  · simp [hdone]
  · by_cases hop : d.op = .chunkRead
    · simp [hop]
    · simp [hdone, hop]

/-- The packet moves no position and is not answered with a chunk. -/
def NotEntertained (s : Server) (next : Server × List Event) : Prop :=
  next.1.fd = s.fd ∧ ∀ reply, .sent reply ∈ next.2 → reply.op ≠ .chunkRead

/-- A block is read for every packet, so only the end of the file keeps the
position where it is. -/
theorem chunkrdHead_notEntertained_iff (s : Server) (d : Datagram) :
    NotEntertained s (chunkrdHead s d) ↔ ∀ file ∈ s.fd, file.block = [] := by
  cases hfd : s.fd with
  | none =>
      rw [chunkrdHead_of_closed hfd]
      exact iff_of_true ⟨rfl, nofun⟩ nofun
  | some file =>
      by_cases hblock : file.block = []
      · rw [chunkrdHead_of_end hfd hblock]
        refine iff_of_true ⟨rfl, nofun⟩ ?_
        rintro _ ⟨rfl⟩
        exact hblock
      · rw [chunkrdHead_of_block hfd hblock]
        refine iff_of_false (fun h => ?_) fun h => hblock (h file rfl)
        exact h.2 _ List.mem_cons_self rfl

/-- During a transfer an unexpected packet is ignored exactly when the file has
no more bytes to send. -/
theorem notEntertained_iff (fs : FileSystem) (junk : ℕ → ℤ) (s : Server)
    (lastChunkId : ℤ) (d : Datagram) (hcontrol : s.control = .processChunkrd)
    (hunexpected : Unexpected lastChunkId d) :
    NotEntertained s (s.receive fs junk d) ↔
      ∀ file ∈ s.fd, file.block = [] := by
  rw [receive_of_serves (.inr ⟨hcontrol, hunexpected.1⟩)]
  exact chunkrdHead_notEntertained_iff s d

/-- The server after the first chunk of two. -/
def afterFirstChunk : Server where
  fd := some ⟨twoChunks, maxBrPayloadLen⟩
  control := .processChunkrd
  infos := 1

theorem notEntertained_iff_discover :
    NotEntertained afterFirstChunk
        (afterFirstChunk.receive twoChunksNamed (fun _ => 0) discover) ↔
      ∀ file ∈ afterFirstChunk.fd, file.block = [] :=
  notEntertained_iff twoChunksNamed (fun _ => 0) afterFirstChunk 0 discover rfl
    ⟨by decide, by decide⟩

/-- `DISCOVER` in the middle of a transfer is answered with the second
chunk. -/
theorem discover_answered_with_chunk :
    ¬ ∀ (fs : FileSystem) (junk : ℕ → ℤ) (s : Server) (lastChunkId : ℤ)
      (d : Datagram), s.control = .processChunkrd →
      Unexpected lastChunkId d → NotEntertained s (s.receive fs junk d) := by
  intro h
  have hrun := h twoChunksNamed (fun _ => 0) afterFirstChunk 0 discover rfl
    ⟨by decide, by decide⟩
  rw [receive_of_serves (.inr ⟨rfl, by decide⟩),
    chunkrdHead_notEntertained_iff] at hrun
  have hblock : OpenFile.block ⟨twoChunks, maxBrPayloadLen⟩ = [] :=
    hrun _ rfl
  revert hblock
  decide +kernel

end MiscCode.Broadcast
