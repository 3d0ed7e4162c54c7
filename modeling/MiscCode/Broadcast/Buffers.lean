import MiscCode.Broadcast.Server
import Mathlib.Data.List.GetD
import Mathlib.Data.List.TakeWhile

/-!
# Accesses to the packet buffers

A packet is held in a buffer of 1024 bytes.  Three calls take the number of
bytes behind its header from elsewhere: `strndup` on the server and `write` in
the client from a datagram, and `strncpy` in the client from the length of the
name it is given.  Here are the bytes each of them touches, and when these lie
inside the buffer.
-/

namespace MiscCode.Broadcast

/-- A value of the type `int`. -/
def IsInt (x : ℤ) : Prop :=
  -2 ^ 31 ≤ x ∧ x < 2 ^ 31

instance (x : ℤ) : Decidable (IsInt x) :=
  inferInstanceAs (Decidable (_ ∧ _))

/-- The conversion of an integer to `size_t`. -/
def toSizeT (x : ℤ) : ℕ := (x % 2 ^ 64).toNat

/-- A byte behind the header lies inside the packet buffer. -/
def InPacket (k : ℕ) : Prop :=
  brHdrSize + k < maxBrPktLen

theorem inPacket_iff {k : ℕ} : InPacket k ↔ k < maxBrPayloadLen := by
  rw [InPacket, brHdrSize, maxBrPktLen, maxBrPayloadLen_eq]
  omega

/-! ## The accesses -/

/-- The byte `k` behind the header, where `beyond` follows the buffer. -/
def Datagram.byteAt (d : Datagram) (beyond : ℕ → UInt8) (k : ℕ) : UInt8 :=
  if k < maxBrPayloadLen then d.buffer.getD k 0
  else beyond (k - maxBrPayloadLen)

/-- `strndup` in `process_fileinfo` reads byte `k`: it stops at its bound,
which is unsigned, or after a terminator. -/
def ReadsName (d : Datagram) (beyond : ℕ → UInt8) (k : ℕ) : Prop :=
  d.op = .fileInfo ∧ k < toSizeT d.len ∧ ∀ j < k, d.byteAt beyond j ≠ 0

instance (d : Datagram) (beyond : ℕ → UInt8) (k : ℕ) :
    Decidable (ReadsName d beyond k) :=
  inferInstanceAs (Decidable (_ ∧ _ ∧ _))

/-- `write` in round `i` of `fetch_file` takes byte `k`; a negative count is
refused. -/
def WritesByte (i : ℕ) (d : Datagram) (k : ℕ) : Prop :=
  Answers i d ∧ k < d.len

instance (i : ℕ) (d : Datagram) (k : ℕ) : Decidable (WritesByte i d k) :=
  inferInstanceAs (Decidable (_ ∧ _))

/-- `strncpy` in `fetch_file_info` fills byte `k`: it fills as many as its
bound says, which is the length of the name as an `int`. -/
def CopiesName (fname : List UInt8) (k : ℕ) : Prop :=
  k < toSizeT (toInt fname.length)

instance (fname : List UInt8) (k : ℕ) : Decidable (CopiesName fname k) :=
  inferInstanceAs (Decidable (_ < _))

/-- All three accesses stay inside their packet: `asked` is the datagram the
server receives, `reply` the one the client receives in round `i`. -/
def AccessesInPacket (asked reply : Datagram) (beyond : ℕ → UInt8) (i : ℕ)
    (fname : List UInt8) : Prop :=
  (∀ k, ReadsName asked beyond k → InPacket k) ∧
    (∀ k, WritesByte i reply k → InPacket k) ∧
    ∀ k, CopiesName fname k → InPacket k

section Accesses

variable {d : Datagram} {beyond : ℕ → UInt8} {i k : ℕ} {fname : List UInt8}

theorem length_buffer : d.buffer.length = maxBrPayloadLen := by
  rw [Datagram.buffer, List.length_append, List.length_take,
    List.length_replicate]
  omega

theorem byteAt_of_lt (hk : k < maxBrPayloadLen) :
    d.byteAt beyond k = d.buffer.getD k 0 :=
  if_pos hk

/-! ## The bytes the model uses -/

/-- Inside the packet, `write` takes the bytes that the client writes. -/
theorem writesByte_iff (hk : k < maxBrPayloadLen) :
    WritesByte i d k ↔ Answers i d ∧ k < (d.data d.len).length := by
  rw [WritesByte, Datagram.data, List.length_take, length_buffer]
  apply and_congr_right
  intro _
  omega

theorem fname_prefix_buffer : d.fname <+: d.buffer := by
  rw [Datagram.fname]
  refine (List.takeWhile_prefix _).trans ?_
  split
  · exact List.prefix_rfl
  · exact List.take_prefix _ _

theorem length_fname_le (hint : IsInt d.len) :
    d.fname.length ≤ toSizeT d.len := by
  obtain ⟨hlo, hhi⟩ := hint
  rw [Datagram.fname]
  refine (List.takeWhile_prefix _).length_le.trans ?_
  split
  · rw [length_buffer, toSizeT, maxBrPayloadLen_eq]
    omega
  · rw [Datagram.data, List.length_take, toSizeT]
    omega

/-- The bytes of the name that the server opens are among those read. -/
theorem readsName_of_lt_fname (hint : IsInt d.len) (hop : d.op = .fileInfo)
    (hk : k < d.fname.length) : ReadsName d beyond k := by
  refine ⟨hop, hk.trans_le (length_fname_le hint), fun j hjk => ?_⟩
  have hj : j < d.fname.length := hjk.trans hk
  have hjb : j < d.buffer.length :=
    hj.trans_le fname_prefix_buffer.length_le
  have hjp : j < maxBrPayloadLen := by rw [← length_buffer (d := d)]; exact hjb
  have hmem : d.fname.get ⟨j, hj⟩ ∈ d.fname := List.get_mem _ _
  have hne := List.mem_takeWhile_imp hmem
  rw [byteAt_of_lt hjp, List.getD_eq_getElem _ _ hjb]
  rw [List.get_eq_getElem, fname_prefix_buffer.getElem] at hne
  exact of_decide_eq_true hne

/-! ## When they stay inside -/

/-- A bound below the end of the buffer, or a terminator in it. -/
theorem readsName_inPacket_iff (hint : IsInt d.len) :
    (∀ k, ReadsName d beyond k → InPacket k) ↔
      (d.op = .fileInfo →
        (0 ≤ d.len ∧ d.len ≤ maxBrPayloadLen) ∨ 0 ∈ d.buffer) := by
  obtain ⟨hlo, hhi⟩ := hint
  simp only [inPacket_iff]
  constructor
  · intro h hop
    by_contra hno
    obtain ⟨hlen, hnul⟩ := not_or.mp hno
    have hbound : maxBrPayloadLen < toSizeT d.len := by
      rw [toSizeT, maxBrPayloadLen_eq]
      rw [maxBrPayloadLen_eq] at hlen
      omega
    refine absurd (h maxBrPayloadLen ⟨hop, hbound, fun j hj hzero => ?_⟩)
      (lt_irrefl _)
    rw [byteAt_of_lt hj] at hzero
    have hlt : j < d.buffer.length := by rw [length_buffer]; exact hj
    rw [List.getD_eq_getElem _ _ hlt] at hzero
    exact hnul (hzero ▸ List.getElem_mem hlt)
  · rintro h k ⟨hop, hk, hbytes⟩
    rcases h hop with ⟨hlen0, hlen⟩ | hnul
    · rw [toSizeT] at hk
      rw [maxBrPayloadLen_eq] at hlen ⊢
      omega
    · obtain ⟨j, hj, hzero⟩ := List.mem_iff_getElem.mp hnul
      by_contra hout
      have hj' : j < maxBrPayloadLen := by rw [← length_buffer (d := d)]; exact hj
      refine hbytes j (by omega) ?_
      rw [byteAt_of_lt hj', List.getD_eq_getElem _ _ hj]
      exact hzero

/-- A count that is no more than the buffer holds. -/
theorem writesByte_inPacket_iff :
    (∀ k, WritesByte i d k → InPacket k) ↔
      (Answers i d → d.len ≤ maxBrPayloadLen) := by
  simp only [inPacket_iff]
  constructor
  · intro h hanswers
    by_contra hlen
    exact absurd (h maxBrPayloadLen ⟨hanswers, not_le.mp hlen⟩) (lt_irrefl _)
  · rintro h k ⟨hanswers, hk⟩
    have hlen := h hanswers
    omega

/-- A name whose length, as an `int`, is no more than the buffer holds. -/
theorem copiesName_inPacket_iff :
    (∀ k, CopiesName fname k → InPacket k) ↔
      fname.length % 2 ^ 32 ≤ maxBrPayloadLen := by
  have hbound : toSizeT (toInt fname.length) ≤ maxBrPayloadLen ↔
      fname.length % 2 ^ 32 ≤ maxBrPayloadLen := by
    rw [toSizeT, toInt, Int.bmod_eq_emod, maxBrPayloadLen_eq]
    split
    · omega
    · omega
  rw [← hbound]
  simp only [inPacket_iff]
  constructor
  · intro h
    by_contra hlen
    exact absurd (h maxBrPayloadLen (not_le.mp hlen)) (lt_irrefl _)
  · intro h k hk
    exact lt_of_lt_of_le hk h

end Accesses

/-- The accesses stay inside the packets exactly when the server is not given a
length outside the buffer without a terminator in it, the client is not given
one beyond the buffer, and the name is no longer than the buffer. -/
theorem accessesInPacket_iff (asked reply : Datagram) (beyond : ℕ → UInt8)
    (i : ℕ) (fname : List UInt8) (hint : IsInt asked.len) :
    AccessesInPacket asked reply beyond i fname ↔
      (asked.op = .fileInfo →
        (0 ≤ asked.len ∧ asked.len ≤ maxBrPayloadLen) ∨ 0 ∈ asked.buffer) ∧
      (Answers i reply → reply.len ≤ maxBrPayloadLen) ∧
      fname.length % 2 ^ 32 ≤ maxBrPayloadLen :=
  and_congr (readsName_inPacket_iff hint)
    (and_congr writesByte_inPacket_iff copiesName_inPacket_iff)

theorem accessesInPacket_iff_chunk :
    AccessesInPacket (fileInfo nameF) (chunkReply (chunkRead 0) [7])
        (fun _ => 1) 0 nameF.bytes ↔
      ((fileInfo nameF).op = .fileInfo →
        (0 ≤ (fileInfo nameF).len ∧ (fileInfo nameF).len ≤ maxBrPayloadLen) ∨
          0 ∈ (fileInfo nameF).buffer) ∧
      (Answers 0 (chunkReply (chunkRead 0) [7]) →
        (chunkReply (chunkRead 0) [7]).len ≤ maxBrPayloadLen) ∧
      nameF.bytes.length % 2 ^ 32 ≤ maxBrPayloadLen :=
  accessesInPacket_iff _ _ _ _ _ (by decide)

/-- A reply to the first request that claims one byte too many. -/
def oversizedReply : Datagram where
  op := .chunkRead
  ack := 1
  chunk := 0
  len := 1009
  payload := []

/-- The client writes a byte that lies behind its buffer. -/
theorem oversized_reply_written :
    ¬ ∀ (asked reply : Datagram) (beyond : ℕ → UInt8) (i : ℕ)
      (fname : List UInt8), IsInt asked.len → IsInt reply.len →
      AccessesInPacket asked reply beyond i fname := by
  intro h
  have haccesses := h discover oversizedReply (fun _ => 0) 0 [102] (by decide)
    (by decide)
  have hlen := writesByte_inPacket_iff.mp haccesses.2.1 (by decide)
  exact absurd hlen (by decide)

end MiscCode.Broadcast
