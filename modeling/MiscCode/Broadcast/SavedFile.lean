import MiscCode.Broadcast.Buffers
import MiscCode.Broadcast.Client

/-!
# The file the client saves

The client opens its output file without truncating it and writes the chunks
one after another from its beginning.  What is left behind them of an earlier
file stays, and with no chunk to fetch the file is not opened at all.  A reply
that claims more bytes than its buffer has is written with what is behind the
buffer in memory.
-/

namespace MiscCode.Broadcast

/-! ## Files -/

/-- A file that is open for writing, at a position not beyond its end. -/
@[ext] structure OutFile where
  contents : List UInt8
  pos : ℕ
  pos_le : pos ≤ contents.length

/-- `open` with `O_RDWR | O_CREAT`: an earlier file is kept. -/
def OutFile.opened (earlier : Option (List UInt8)) : OutFile where
  contents := earlier.getD []
  pos := 0
  pos_le := Nat.zero_le _

/-- `write`: the bytes replace those at the position, and are added at the
end. -/
def OutFile.write (file : OutFile) (bytes : List UInt8) : OutFile where
  contents := file.contents.take file.pos ++ bytes ++
    file.contents.drop (file.pos + bytes.length)
  pos := file.pos + bytes.length
  pos_le := by
    have hpos := file.pos_le
    rw [List.length_append, List.length_append, List.length_take]
    omega

/-- The bytes that `write` takes from a reply: behind the packet buffer they
are what follows it in memory.  A negative count is refused. -/
def Datagram.taken (d : Datagram) (beyond : ℕ → UInt8) : List UInt8 :=
  (List.range d.len.toNat).map (d.byteAt beyond)

/-- The rounds of `fetch_file` from round `i` on, with the file it writes;
`beyond i` follows the buffer in round `i`. -/
def fetchRounds (nrChunks : ℤ) (beyond : ℕ → ℕ → UInt8) :
    ℕ → List Datagram → OutFile → OutFile
  | _, [], file => file
  | i, d :: ds, file =>
      if i < nrChunks then
        fetchRounds nrChunks beyond (i + 1) ds
          (if Answers i d then file.write (d.taken (beyond i)) else file)
      else file

/-- The file behind the client's target path after `main` has received the
datagrams: `none` when there is none. -/
def savedFile (earlier : Option (List UInt8)) (nrChunks : ℤ)
    (beyond : ℕ → ℕ → UInt8) (received : List Datagram) :
    Option (List UInt8) :=
  if nrChunks > 0 then
    some (fetchRounds nrChunks beyond 0 received (.opened earlier)).contents
  else earlier

/-- The replies accepted from round `i` on, with their rounds. -/
def acceptedReplies (nrChunks : ℤ) :
    ℕ → List Datagram → List (ℕ × Datagram)
  | _, [] => []
  | i, d :: ds =>
      if i < nrChunks then
        (if Answers i d then [(i, d)] else []) ++
          acceptedReplies nrChunks (i + 1) ds
      else []

/-- The chunks that are accepted, as they are received. -/
def chunks (nrChunks : ℤ) (received : List Datagram) : List (List UInt8) :=
  (acceptedReplies nrChunks 0 received).map fun r => r.2.data r.2.len

section Saving

variable {nr last : ℤ} {i : ℕ} {ds received : List Datagram} {c : Client}
  {file : OutFile} {earlier : Option (List UInt8)} {beyond : ℕ → ℕ → UInt8}

theorem write_nil (file : OutFile) : file.write [] = file := by
  ext1
  · simp [OutFile.write]
  · rfl

/-- Two writes in a row are one. -/
theorem write_write (file : OutFile) (bytes bytes' : List UInt8) :
    (file.write bytes).write bytes' = file.write (bytes ++ bytes') := by
  have hfront : (file.contents.take file.pos ++ bytes).length =
      file.pos + bytes.length := by
    have hpos := file.pos_le
    rw [List.length_append, List.length_take]
    omega
  ext1
  · simp only [OutFile.write]
    rw [List.take_left' hfront, ← List.drop_drop, List.drop_left' hfront,
      List.drop_drop, List.length_append, Nat.add_assoc, List.append_assoc _ bytes]
  · simp only [OutFile.write, List.length_append, Nat.add_assoc]

/-- The bytes of accepted replies in a row. -/
def bytesOf (bytes : ℕ × Datagram → List UInt8) (nrChunks : ℤ) (i : ℕ)
    (ds : List Datagram) : List UInt8 :=
  (acceptedReplies nrChunks i ds).flatMap bytes

theorem bytesOf_cons {bytes : ℕ × Datagram → List UInt8} (hi : i < nr)
    (d : Datagram) (ds : List Datagram) :
    bytesOf bytes nr i (d :: ds) =
      (if Answers i d then bytes (i, d) else []) ++ bytesOf bytes nr (i + 1) ds := by
  unfold bytesOf
  rw [acceptedReplies, if_pos hi, List.flatMap_append]
  split
  · rw [List.flatMap_singleton]
  · rfl

theorem bytesOf_of_le {bytes : ℕ × Datagram → List UInt8} (hi : nr ≤ i)
    (ds : List Datagram) : bytesOf bytes nr i ds = [] := by
  cases ds with
  | nil => rfl
  | cons d ds =>
      unfold bytesOf
      rw [acceptedReplies, if_neg (not_lt.mpr hi)]
      rfl

/-- All rounds together write the bytes of the accepted replies in a row. -/
theorem fetchRounds_eq :
    fetchRounds nr beyond i ds file =
      file.write (bytesOf (fun r => r.2.taken (beyond r.1)) nr i ds) := by
  induction ds generalizing i file with
  | nil => exact (write_nil file).symm
  | cons d ds ih =>
      unfold fetchRounds
      by_cases hi : (i : ℤ) < nr
      · rw [if_pos hi, ih, bytesOf_cons hi]
        by_cases hanswers : Answers i d
        · rw [if_pos hanswers, if_pos hanswers, write_write]
        · rw [if_neg hanswers, if_neg hanswers, List.nil_append]
      · rw [if_neg hi, bytesOf_of_le (not_lt.mp hi)]
        exact (write_nil file).symm

/-- The chunks are what the client writes while the replies stay inside their
buffers. -/
theorem written_eq_chunks :
    (ds.foldl (fun c d => (c.receive d).1) (fetchHead c nr last i).1).written =
      c.written ++ bytesOf (fun r => r.2.data r.2.len) nr i ds := by
  induction ds generalizing i c with
  | nil =>
      rw [List.foldl_nil, written_fetchHead]
      exact (List.append_nil _).symm
  | cons d ds ih =>
      by_cases hi : (i : ℤ) < nr
      · rw [List.foldl_cons, receive_fetchHead hi, ih, bytesOf_cons hi,
          ← List.append_assoc, accepted]
      · rw [foldl_fetchHead_of_le (not_lt.mp hi), written_fetchHead,
          bytesOf_of_le (not_lt.mp hi), List.append_nil]

theorem chunks_flatten (nr : ℤ) (received : List Datagram) :
    (chunks nr received).flatten =
      bytesOf (fun r => r.2.data r.2.len) nr 0 received :=
  List.flatMap_def.symm

theorem written_fetchFile (fname : FileName) (nr last : ℤ)
    (received : List Datagram) :
    (fetchFile fname nr last received).written = (chunks nr received).flatten := by
  rw [chunks_flatten]
  exact written_eq_chunks

/-! ## Replies and their buffers -/

theorem length_taken (d : Datagram) (beyond : ℕ → UInt8) :
    (d.taken beyond).length = d.len.toNat := by
  rw [Datagram.taken, List.length_map, List.length_range]

theorem length_data (d : Datagram) :
    (d.data d.len).length = min d.len.toNat maxBrPayloadLen := by
  rw [Datagram.data, List.length_take, length_buffer]

/-- Inside its buffer a reply is written as it was received. -/
theorem taken_eq_data {d : Datagram} (h : d.len ≤ maxBrPayloadLen)
    (beyond : ℕ → UInt8) : d.taken beyond = d.data d.len := by
  have hle : d.len.toNat ≤ maxBrPayloadLen := by omega
  apply List.ext_getElem
  · rw [length_taken, length_data, Nat.min_eq_left hle]
  · intro k hk hk'
    rw [length_taken] at hk
    have hlt : k < maxBrPayloadLen := by omega
    have hbuffer : k < d.buffer.length := by rw [length_buffer]; exact hlt
    simp only [Datagram.taken, Datagram.data, List.getElem_map,
      List.getElem_range, List.getElem_take]
    rw [byteAt_of_lt hlt, List.getD_eq_getElem _ _ hbuffer]

/-- As many bytes are written as were received only where every reply stays
inside its buffer. -/
theorem length_flatMap_taken {rs : List (ℕ × Datagram)}
    (h : (rs.flatMap fun r => r.2.taken (beyond r.1)).length ≤
      (rs.flatMap fun r => r.2.data r.2.len).length) :
    ∀ r ∈ rs, r.2.len ≤ maxBrPayloadLen := by
  have hle (rs : List (ℕ × Datagram)) :
      (rs.flatMap fun r => r.2.data r.2.len).length ≤
        (rs.flatMap fun r => r.2.taken (beyond r.1)).length := by
    induction rs with
    | nil => exact le_rfl
    | cons r rs ih =>
        rw [List.flatMap_cons, List.flatMap_cons, List.length_append,
          List.length_append, length_data, length_taken]
        omega
  induction rs with
  | nil => exact nofun
  | cons r rs ih =>
      have hrest := hle rs
      rw [List.flatMap_cons, List.flatMap_cons, List.length_append,
        List.length_append, length_data, length_taken] at h
      exact List.forall_mem_cons.mpr ⟨by omega, ih (by omega)⟩

theorem flatMap_taken {rs : List (ℕ × Datagram)}
    (h : ∀ r ∈ rs, r.2.len ≤ maxBrPayloadLen) :
    (rs.flatMap fun r => r.2.taken (beyond r.1)) =
      rs.flatMap fun r => r.2.data r.2.len :=
  List.flatMap_congr fun r hr => taken_eq_data (h r hr) (beyond r.1)

/-! ## What is saved -/

/-- What is saved: the bytes that are taken, and behind them what is left of
the earlier file. -/
theorem savedFile_eq (hnr : 0 < nr) :
    savedFile earlier nr beyond received =
      some (bytesOf (fun r => r.2.taken (beyond r.1)) nr 0 received ++
        (earlier.getD []).drop
          (bytesOf (fun r => r.2.taken (beyond r.1)) nr 0 received).length) := by
  rw [savedFile, if_pos hnr, fetchRounds_eq]
  simp [OutFile.write, OutFile.opened]

/-- The earlier contents are covered by `n` bytes that are written from the
beginning of the file, if it is opened. -/
def Covered (nrChunks : ℤ) (n : ℕ) (earlier : Option (List UInt8)) : Prop :=
  (0 < nrChunks ∨ earlier ≠ none) ∧ (earlier.getD []).length ≤ n

/-- Every accepted reply stays inside its buffer. -/
def Fit (nrChunks : ℤ) (received : List Datagram) : Prop :=
  ∀ r ∈ acceptedReplies nrChunks 0 received, r.2.len ≤ maxBrPayloadLen

/-- Nothing but the chunks is saved exactly when they stay inside their buffers
and cover the earlier contents. -/
theorem savedFile_eq_chunks_iff :
    savedFile earlier nr beyond received = some (chunks nr received).flatten ↔
      Fit nr received ∧ Covered nr (chunks nr received).flatten.length earlier := by
  rw [chunks_flatten]
  by_cases hnr : 0 < nr
  · have hcovered (n : ℕ) : Covered nr n earlier ↔ (earlier.getD []).length ≤ n :=
      and_iff_right (.inl hnr)
    rw [savedFile_eq hnr, hcovered, Option.some_inj]
    constructor
    · intro h
      have hlength := congrArg List.length h
      rw [List.length_append] at hlength
      have hfit : Fit nr received :=
        length_flatMap_taken (by
          change (bytesOf (fun r => r.2.taken (beyond r.1)) nr 0 received).length ≤
            (bytesOf (fun r => r.2.data r.2.len) nr 0 received).length
          omega)
      refine ⟨hfit, ?_⟩
      rwa [bytesOf, flatMap_taken hfit, ← bytesOf, List.append_right_eq_self,
        List.drop_eq_nil_iff] at h
    · rintro ⟨hfit, hcovered⟩
      rw [bytesOf, flatMap_taken hfit, ← bytesOf,
        List.drop_eq_nil_of_le hcovered, List.append_nil]
  · have hnone : acceptedReplies nr 0 received = [] := by
      cases received with
      | nil => rfl
      | cons d ds => exact if_neg hnr
    rw [savedFile, if_neg hnr, bytesOf, Fit, hnone, Covered]
    cases earlier with
    | none => simp [hnr]
    | some contents => simp

end Saving

/-- Two runs that receive the same chunks save their concatenation exactly when
every reply stays inside its buffer and the chunks cover both earlier
contents. -/
theorem saves_alike_iff (nrChunks : ℤ) (received : List Datagram)
    (earlier earlier' : Option (List UInt8)) (beyond beyond' : ℕ → ℕ → UInt8) :
    (savedFile earlier nrChunks beyond received =
        savedFile earlier' nrChunks beyond' received ∧
      savedFile earlier nrChunks beyond received =
        some (chunks nrChunks received).flatten) ↔
      Fit nrChunks received ∧
        Covered nrChunks (chunks nrChunks received).flatten.length earlier ∧
        Covered nrChunks (chunks nrChunks received).flatten.length earlier' := by
  have hsaves (earlier : Option (List UInt8)) (beyond : ℕ → ℕ → UInt8) :
      savedFile earlier nrChunks beyond received =
          some (chunks nrChunks received).flatten ↔
        Fit nrChunks received ∧
          Covered nrChunks (chunks nrChunks received).flatten.length earlier :=
    savedFile_eq_chunks_iff
  constructor
  · rintro ⟨halike, hsaved⟩
    obtain ⟨hfit, hcovered⟩ := (hsaves earlier beyond).mp hsaved
    have hsaved' := halike.symm.trans hsaved
    exact ⟨hfit, hcovered, ((hsaves earlier' beyond').mp hsaved').2⟩
  · rintro ⟨hfit, hcovered, hcovered'⟩
    have hsaved := (hsaves earlier beyond).mpr ⟨hfit, hcovered⟩
    have hsaved' := (hsaves earlier' beyond').mpr ⟨hfit, hcovered'⟩
    exact ⟨hsaved.trans hsaved'.symm, hsaved⟩

/-- A file of one byte is fetched over an earlier one of two. -/
theorem longer_file_not_truncated :
    ¬ ∀ (nrChunks : ℤ) (received : List Datagram)
      (earlier earlier' : Option (List UInt8)) (beyond beyond' : ℕ → ℕ → UInt8),
      savedFile earlier nrChunks beyond received =
          savedFile earlier' nrChunks beyond' received ∧
        savedFile earlier nrChunks beyond received =
          some (chunks nrChunks received).flatten := by
  intro h
  have hsaved := (h 1 [chunkReply (chunkRead 0) [7]] (some [8, 9]) none
    (fun _ _ => 0) fun _ _ => 0).2
  revert hsaved
  decide +kernel

end MiscCode.Broadcast
