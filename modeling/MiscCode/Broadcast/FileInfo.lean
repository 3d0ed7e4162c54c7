import MiscCode.Broadcast.Sessions

/-!
# The size a file is reported with

`process_fileinfo` reports a file by the number of its chunks and the length of
the last one, from which the client computes the size it prints.  The length is
only set when the size leaves a remainder, and the size is printed as an `int`.
-/

namespace MiscCode.Broadcast

open Blocks

/-- The size printed by `fetch_file_info`: it is computed as a `size_t`, of
which `%d` shows the lower half. -/
def printedSize (reply : Datagram) : ℤ :=
  toInt (((reply.chunk - 1) * maxBrPayloadLen + reply.len) % 2 ^ 64)

/-- The chunk sent last. -/
def lastChunk (events : List Event) : Option Datagram :=
  ((events.filterMap Event.datagram?).filter (·.op = .chunkRead)).getLast?

/-- The reply about a file of `size` bytes tells its size and the length of the
last chunk that is sent when chunks are asked for up to the end of the file. -/
def ReportsSize (size : ℕ) : Prop :=
  ∀ (fs : FileSystem) (junk : ℕ → ℤ) (s : Server) (d : Datagram)
    (contents : List UInt8), s.control = .processPkt → d.op = .fileInfo →
    fs d.fname = some contents → contents.length = size →
    ∃ reply, (s.receive fs junk d).2 = [.opened contents, .sent reply] ∧
      (reply.chunk - 1) * maxBrPayloadLen + reply.len = size ∧
      printedSize reply = size ∧
      ∀ requests, (∀ r ∈ requests, r.op = .chunkRead) →
        size ≤ requests.length * maxBrPayloadLen →
        (lastChunk ((s.receive fs junk d).1.events fs junk requests)).map
          Datagram.len = some reply.len

section Report

variable {fs : FileSystem} {junk : ℕ → ℤ} {s : Server} {d : Datagram}
  {contents : List UInt8} {requests : List Datagram} {size i : ℕ}

/-! ## The last chunk -/

theorem lastChunk_append (es es' : List Event) :
    lastChunk (es ++ es') = (lastChunk es').or (lastChunk es) := by
  rw [lastChunk, List.filterMap_append, List.filter_append,
    List.getLast?_append]
  rfl

theorem serves_of_chunkRead (hop : d.op = .chunkRead) : Serves s d := by
  cases hcontrol : s.control with
  | processPkt => exact .inl ⟨hcontrol, hop⟩
  | processChunkrd =>
      right
      rw [hop]
      exact ⟨hcontrol, by decide⟩

/-- At the end of the file no chunk is sent any more. -/
theorem events_at_end (hfd : s.fd = some (fileAt contents i))
    (hend : contents.length ≤ i * maxBrPayloadLen)
    (hops : ∀ r ∈ requests, r.op = .chunkRead) :
    s.events fs junk requests = [] := by
  induction requests generalizing s with
  | nil => rfl
  | cons r requests ih =>
      have hblock : (fileAt contents i).block = [] := by
        rw [block_fileAt, block_eq_nil_iff maxBrPayloadLen_pos]
        exact hend
      have hserves : Serves s r :=
        serves_of_chunkRead (hops r List.mem_cons_self)
      have hreceive : s.receive fs junk r =
          ({ s with control := .processPkt }, []) := by
        rw [receive_of_serves hserves, chunkrdHead_of_end hfd hblock]
      rw [Server.events, hreceive]
      exact ih hfd fun r hr => hops r (List.mem_cons_of_mem _ hr)

/-- When chunks are asked for up to the end of the file, the last block is sent
last. -/
theorem lastChunk_events {k : ℕ} (hfd : s.fd = some (fileAt contents i))
    (hi : i * maxBrPayloadLen < contents.length)
    (hk : contents.length ⌈/⌉ maxBrPayloadLen = k + 1)
    (hops : ∀ r ∈ requests, r.op = .chunkRead)
    (hall : contents.length ≤ (i + requests.length) * maxBrPayloadLen) :
    (lastChunk (s.events fs junk requests)).map Datagram.len =
      some ((block maxBrPayloadLen contents k).length : ℤ) := by
  induction requests generalizing s i with
  | nil => exact absurd hall (not_le.mpr hi)
  | cons r requests ih =>
      have hblock : (fileAt contents i).block ≠ [] := by
        rw [block_fileAt, Ne, block_eq_nil_iff maxBrPayloadLen_pos, not_le]
        exact hi
      have hop : r.op = .chunkRead := hops r List.mem_cons_self
      have hrest : ∀ r ∈ requests, r.op = .chunkRead :=
        fun r hr => hops r (List.mem_cons_of_mem _ hr)
      have hreceive : s.receive fs junk r = chunkrdHead s r :=
        receive_of_serves (serves_of_chunkRead hop)
      rw [chunkrdHead_of_block hfd hblock, next_fileAt, block_fileAt]
        at hreceive
      rw [Server.events, hreceive, lastChunk_append]
      by_cases hnext : (i + 1) * maxBrPayloadLen < contents.length
      · have hlater : contents.length ≤
            (i + 1 + requests.length) * maxBrPayloadLen := by
          rw [List.length_cons, Nat.add_comm requests.length,
            ← Nat.add_assoc] at hall
          exact hall
        obtain ⟨e, hlast, hlen⟩ := Option.map_eq_some_iff.mp
          (ih (s := { s with
            fd := some (fileAt contents (i + 1))
            control := .processChunkrd }) rfl hnext hrest hlater)
        rw [hlast, Option.some_or, Option.map_some, hlen]
      · -- this block is the last one
        have hik : i = k := by
          rw [← lt_ceilDiv_iff maxBrPayloadLen_pos, hk] at hi hnext
          omega
        rw [events_at_end rfl (not_lt.mp hnext) hrest, hik]
        rfl

/-! ## The numbers of the reply -/

theorem toInt_emod (x : ℤ) : toInt (x % 2 ^ 64) = toInt x := by
  rw [toInt, toInt, Int.bmod_eq_emod, Int.bmod_eq_emod,
    Int.emod_emod_of_dvd x (by decide)]

theorem toInt_eq_self_iff {x : ℤ} (hx : 0 ≤ x) : toInt x = x ↔ x < 2 ^ 31 := by
  rw [toInt, Int.bmod_eq_emod]
  split
  · omega
  · omega

/-- With a remainder, chunks and remainder make up the size. -/
theorem size_of_reply (hfits : size ⌈/⌉ maxBrPayloadLen < 2 ^ 31)
    (hmod : size % maxBrPayloadLen ≠ 0) (junk : ℤ) :
    (nrChunks size - 1) * maxBrPayloadLen + lastChunkSize size junk = size := by
  have hsplit := Nat.mod_add_div' size maxBrPayloadLen
  rw [nrChunks_of_fits hfits, ceilDiv_eq maxBrPayloadLen_pos, if_neg hmod,
    lastChunkSize, if_neg hmod]
  rw [maxBrPayloadLen_eq] at hsplit ⊢
  omega

/-- Without one, the size told depends on what the field held. -/
theorem size_of_reply_junk (hfits : size ⌈/⌉ maxBrPayloadLen < 2 ^ 31)
    (hmod : size % maxBrPayloadLen = 0) (junk : ℤ) :
    (nrChunks size - 1) * maxBrPayloadLen + lastChunkSize size junk =
      size + junk - maxBrPayloadLen := by
  have hsplit := Nat.mod_add_div' size maxBrPayloadLen
  rw [nrChunks_of_fits hfits, ceilDiv_eq maxBrPayloadLen_pos, if_pos hmod,
    lastChunkSize, if_pos hmod]
  rw [maxBrPayloadLen_eq] at hsplit hmod ⊢
  omega

theorem receive_fileInfo (hcontrol : s.control = .processPkt)
    (hop : d.op = .fileInfo) (hname : fs d.fname = some contents) :
    s.receive fs junk d =
      ({ s with fd := some (fileAt contents 0), infos := s.infos + 1 },
        [.opened contents,
          .sent (fileInfoReply (some contents) (junk s.infos))]) := by
  simp only [Server.receive, hcontrol, processPkt, hop, processFileinfo, hname,
    fileAt_zero]
  rfl

/-- What the reply about some file of that size tells, whatever the field
held. -/
theorem ReportsSize.reply (h : ReportsSize size) (junk : ℤ) :
    (nrChunks size - 1) * maxBrPayloadLen + lastChunkSize size junk = size ∧
      toInt (((nrChunks size - 1) * maxBrPayloadLen +
        lastChunkSize size junk) % 2 ^ 64) = size := by
  let fs : FileSystem := fun _ => some (List.replicate size 0)
  have hname : fs (fileInfo nameF).fname = some (List.replicate size 0) := rfl
  obtain ⟨reply, hout, hsize, hprinted, -⟩ :=
    h fs (fun _ => junk) Server.start (fileInfo nameF)
      (List.replicate size 0) rfl rfl hname List.length_replicate
  rw [receive_fileInfo rfl rfl hname] at hout
  obtain rfl : fileInfoReply (some (List.replicate size 0)) junk = reply := by
    simpa using hout
  simp only [fileInfoReply, List.length_replicate] at hsize
  simp only [printedSize, fileInfoReply, List.length_replicate] at hprinted
  exact ⟨hsize, hprinted⟩

/-- A size without remainder is not reported. -/
theorem not_reportsSize (hfits : size ⌈/⌉ maxBrPayloadLen < 2 ^ 31)
    (hmod : size % maxBrPayloadLen = 0) : ¬ ReportsSize size := by
  intro h
  have hsize := (h.reply 0).1
  rw [size_of_reply_junk hfits hmod, maxBrPayloadLen_eq] at hsize
  omega

end Report

/-- A file size is reported exactly when it leaves a remainder and is printed
as an `int` that holds it. -/
theorem reportsSize_iff (size : ℕ)
    (hfits : size ⌈/⌉ maxBrPayloadLen < 2 ^ 31) :
    ReportsSize size ↔ size % maxBrPayloadLen ≠ 0 ∧ size < 2 ^ 31 := by
  constructor
  · intro h
    have hmod : size % maxBrPayloadLen ≠ 0 :=
      fun hmod => not_reportsSize hfits hmod h
    have hprinted := (h.reply 0).2
    rw [toInt_emod, size_of_reply hfits hmod,
      toInt_eq_self_iff (Int.natCast_nonneg size)] at hprinted
    exact ⟨hmod, by exact_mod_cast hprinted⟩
  · rintro ⟨hmod, hsmall⟩ fs junk s d contents hcontrol hop hname rfl
    have hpos : 0 < contents.length := by
      apply Nat.pos_of_ne_zero
      intro hzero
      rw [hzero] at hmod
      exact hmod rfl
    obtain ⟨k, hk⟩ : ∃ k, contents.length ⌈/⌉ maxBrPayloadLen = k + 1 :=
      Nat.exists_eq_add_one.mpr ((ceilDiv_pos_iff maxBrPayloadLen_pos).mpr hpos)
    have hsize := size_of_reply hfits hmod (junk s.infos)
    have hlen : ((block maxBrPayloadLen contents k).length : ℤ) =
        lastChunkSize contents.length (junk s.infos) := by
      rw [length_last_block maxBrPayloadLen_pos hk, if_neg hmod, lastChunkSize,
        if_neg hmod]
    rw [receive_fileInfo hcontrol hop hname]
    refine ⟨_, rfl, hsize, ?_, fun requests hops hall => ?_⟩
    · have hint : (contents.length : ℤ) < 2 ^ 31 := by exact_mod_cast hsmall
      change toInt (((nrChunks contents.length - 1) * maxBrPayloadLen +
        lastChunkSize contents.length (junk s.infos)) % 2 ^ 64) = _
      rw [toInt_emod, hsize]
      exact (toInt_eq_self_iff (Int.natCast_nonneg _)).mpr hint
    · rw [lastChunk_events rfl (by rw [Nat.zero_mul]; exact hpos) hk hops
        (by rw [Nat.zero_add]; exact hall), hlen]
      rfl

theorem reportsSize_iff_one :
    ReportsSize 1 ↔ 1 % maxBrPayloadLen ≠ 0 ∧ 1 < 2 ^ 31 :=
  reportsSize_iff 1 (by rw [ceilDiv_eq maxBrPayloadLen_pos]; decide)

/-- A file of exactly one chunk: the field `len` of the reply is not set. -/
theorem full_chunk_not_reported :
    ¬ ∀ size : ℕ, size ⌈/⌉ maxBrPayloadLen < 2 ^ 31 → ReportsSize size := by
  have hfits : 1008 ⌈/⌉ maxBrPayloadLen < 2 ^ 31 := by
    rw [ceilDiv_eq maxBrPayloadLen_pos]
    decide
  exact fun h => not_reportsSize hfits (by decide) (h 1008 hfits)

end MiscCode.Broadcast
