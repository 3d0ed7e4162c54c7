import MiscCode.Broadcast.Sessions

/-!
# What the client writes

`fetch_file` alone, against any sequence of datagrams: late ones, repeated ones
and ones from elsewhere.  In round `i` it accepts the acknowledged reply with id
`i`, and after any other datagram it goes on with the next round.
-/

namespace MiscCode.Broadcast

open Blocks

/-- The client after the datagrams received in `fetch_file`. -/
def fetchFile (fname : FileName) (nrChunks lastChunkSz : ℤ)
    (received : List Datagram) : Client :=
  received.foldl (fun c d => (c.receive d).1)
    (fetchHead ⟨fname, .asking, []⟩ nrChunks lastChunkSz 0).1

/-- An acknowledged reply with id `k` carries chunk `k` of the file. -/
def Truthful (contents : List UInt8) (d : Datagram) : Prop :=
  ∀ k, Answers k d →
    d.len = (block maxBrPayloadLen contents k).length ∧
      d.data d.len = block maxBrPayloadLen contents k

/-- Of the datagrams received from round `i` on, the one of round `i + k` is
accepted. -/
def Accepted (i : ℕ) (ds : List Datagram) (k : ℕ) : Prop :=
  ∃ d ∈ ds[k]?, Answers (i + k) d

/-- No chunk of the file is accepted after a datagram that was not. -/
def NoGap (contents : List UInt8) (nrChunks : ℤ) (i : ℕ)
    (ds : List Datagram) : Prop :=
  ∀ j k, j < k → (i + k : ℕ) < nrChunks →
    (i + k) * maxBrPayloadLen < contents.length →
    Accepted i ds k → Accepted i ds j

/-- Of the chunks from `i` on, none is accepted. -/
def Missed (contents : List UInt8) (nrChunks : ℤ) (i : ℕ)
    (ds : List Datagram) : Prop :=
  ∀ k, (i + k : ℕ) < nrChunks → (i + k) * maxBrPayloadLen < contents.length →
    ¬ Accepted i ds k

section Fetching

variable {contents : List UInt8} {nr last : ℤ} {c : Client} {i k : ℕ}
  {d : Datagram} {ds : List Datagram}

/-- The bytes written in round `i` for a datagram. -/
def accepted (i : ℕ) (d : Datagram) : List UInt8 :=
  if Answers i d then d.data d.len else []

theorem accepted_of_answers (htrue : Truthful contents d) (h : Answers i d) :
    accepted i d = block maxBrPayloadLen contents i := by
  rw [accepted, if_pos h]
  exact (htrue i h).2

theorem accepted_of_not_answers (h : ¬ Answers i d) : accepted i d = [] :=
  if_neg h

@[simp] theorem written_fetchHead :
    (fetchHead c nr last i).1.written = c.written := by
  by_cases hi : (i : ℤ) < nr
  · simp [fetchHead, hi]
  · simp [fetchHead, hi]

/-- One round: the datagram is written or not, and the next round begins. -/
theorem receive_fetchHead (hi : i < nr) :
    ((fetchHead c nr last i).1.receive d).1 =
      (fetchHead { c with written := c.written ++ accepted i d } nr last
        (i + 1)).1 := by
  simp only [fetchHead, if_pos hi, Client.receive, fetchRound]
  by_cases hanswers : Answers i d
  · simp [hanswers, accepted]
  · simp [hanswers, accepted]

/-- After the last round nothing more is received. -/
theorem foldl_fetchHead_of_le (hi : nr ≤ i) :
    ds.foldl (fun c d => (c.receive d).1) (fetchHead c nr last i).1 =
      (fetchHead c nr last i).1 := by
  induction ds with
  | nil => rfl
  | cons d ds ih =>
      have hreceive : ((fetchHead c nr last i).1.receive d).1 =
          (fetchHead c nr last i).1 := by
        simp only [fetchHead, if_neg (not_lt.mpr hi), Client.receive]
      rw [List.foldl_cons, hreceive, ih]

theorem accepted_cons : Accepted i (d :: ds) (k + 1) ↔ Accepted (i + 1) ds k := by
  rw [Accepted, Accepted, List.getElem?_cons_succ, Nat.add_right_comm,
    Nat.add_assoc]

/-- What is missed from the next round on, counted from this one. -/
theorem missed_succ_iff :
    Missed contents nr (i + 1) ds ↔
      ∀ k, (i + (k + 1) : ℕ) < nr →
        (i + (k + 1)) * maxBrPayloadLen < contents.length →
        ¬ Accepted i (d :: ds) (k + 1) := by
  apply forall_congr'
  intro k
  have hround : i + (k + 1) = i + 1 + k := by omega
  rw [accepted_cons, hround]

theorem Missed.tail (h : Missed contents nr i (d :: ds)) :
    Missed contents nr (i + 1) ds :=
  missed_succ_iff.mpr fun k => h (k + 1)

/-- After a datagram that is passed over, no chunk may be accepted. -/
theorem NoGap.missed (h : NoGap contents nr i (d :: ds))
    (hd : ¬ Answers i d) : Missed contents nr (i + 1) ds := by
  apply missed_succ_iff.mpr
  intro k hk hbytes haccepted
  obtain ⟨e, he, hanswers⟩ := h 0 (k + 1) (Nat.succ_pos k) hk hbytes haccepted
  obtain rfl := Option.some.inj he
  exact hd hanswers

theorem NoGap.tail (h : NoGap contents nr i (d :: ds)) :
    NoGap contents nr (i + 1) ds := by
  intro j k hjk hk hbytes haccepted
  have hround : i + (k + 1) = i + 1 + k := by omega
  rw [← accepted_cons] at haccepted ⊢
  rw [← hround] at hk hbytes
  exact h (j + 1) (k + 1) (Nat.succ_lt_succ hjk) hk hbytes haccepted

/-- A point of a run has no gap when the run has none. -/
theorem NoGap.take (h : NoGap contents nr i ds) (n : ℕ) :
    NoGap contents nr i (ds.take n) := by
  rintro j k hjk hk hbytes ⟨d, hd, hanswers⟩
  have hkn : k < n := by
    by_contra hnot
    rw [List.getElem?_take_eq_none (not_lt.mp hnot)] at hd
    cases hd
  rw [List.getElem?_take_of_lt hkn] at hd
  obtain ⟨e, he, hanswers'⟩ := h j k hjk hk hbytes ⟨d, hd, hanswers⟩
  refine ⟨e, ?_, hanswers'⟩
  rw [List.getElem?_take_of_lt (hjk.trans hkn)]
  exact he

/-- When no chunk is accepted any more, nothing more is written. -/
theorem written_of_missed (htrue : ∀ d ∈ ds, Truthful contents d)
    (hmissed : Missed contents nr i ds) :
    (ds.foldl (fun c d => (c.receive d).1)
      (fetchHead c nr last i).1).written = c.written := by
  induction ds generalizing i c with
  | nil => exact written_fetchHead
  | cons d ds ih =>
      by_cases hi : (i : ℤ) < nr
      · have hnothing : accepted i d = [] := by
          by_cases hanswers : Answers i d
          · rw [accepted_of_answers (htrue d List.mem_cons_self) hanswers,
              block_eq_nil_iff maxBrPayloadLen_pos]
            by_contra hbytes
            exact hmissed 0 hi (not_le.mp hbytes) ⟨d, rfl, hanswers⟩
          · exact accepted_of_not_answers hanswers
        have htrue' := fun e he => htrue e (List.mem_cons_of_mem d he)
        rw [List.foldl_cons, receive_fetchHead hi, ih htrue' hmissed.tail,
          hnothing]
        exact List.append_nil _
      · rw [foldl_fetchHead_of_le (not_lt.mp hi)]
        exact written_fetchHead

/-- From a round before which everything was accepted, what is written goes on
being the beginning of the file. -/
theorem written_prefix (htrue : ∀ d ∈ ds, Truthful contents d)
    (hgap : NoGap contents nr i ds)
    (hwritten : c.written = contents.take (i * maxBrPayloadLen)) :
    (ds.foldl (fun c d => (c.receive d).1)
      (fetchHead c nr last i).1).written <+: contents := by
  induction ds generalizing i c with
  | nil =>
      rw [List.foldl_nil, written_fetchHead, hwritten]
      exact List.take_prefix _ _
  | cons d ds ih =>
      have htrue' := fun e he => htrue e (List.mem_cons_of_mem d he)
      by_cases hi : (i : ℤ) < nr
      · rw [List.foldl_cons, receive_fetchHead hi]
        by_cases hanswers : Answers i d
        · refine ih htrue' hgap.tail ?_
          rw [accepted_of_answers (htrue d List.mem_cons_self) hanswers,
            hwritten]
          exact take_append_block
        · rw [written_of_missed htrue' (hgap.missed hanswers),
            accepted_of_not_answers hanswers, List.append_nil, hwritten]
          exact List.take_prefix _ _
      · rw [foldl_fetchHead_of_le (not_lt.mp hi), written_fetchHead, hwritten]
        exact List.take_prefix _ _

end Fetching

/-- At every point of a run in which no chunk is accepted after a datagram that
was not, what the client has written is the beginning of the file. -/
theorem fetchFile_prefix (fname : FileName) (contents : List UInt8)
    (nrChunks lastChunkSz : ℤ) (received : List Datagram)
    (htrue : ∀ d ∈ received, Truthful contents d)
    (hgap : NoGap contents nrChunks 0 received) (n : ℕ) :
    (fetchFile fname nrChunks lastChunkSz (received.take n)).written <+:
      contents := by
  have htrue' : ∀ d ∈ received.take n, Truthful contents d :=
    fun d hd => htrue d (List.mem_of_mem_take hd)
  refine written_prefix htrue' (hgap.take n) ?_
  rw [Nat.zero_mul, List.take_zero]

/-- The server's own replies are truthful. -/
theorem truthful_chunkReply (contents : List UInt8) (k : ℕ) :
    Truthful contents
      (chunkReply (chunkRead k) (block maxBrPayloadLen contents k)) := by
  rintro j ⟨-, -, hchunk⟩
  obtain rfl : k = j := Int.ofNat.inj hchunk
  exact ⟨rfl, data_chunkReply length_block_le⟩

/-- The reply to chunk `k` of the file of two chunks. -/
def twoChunksReply (k : ℕ) : Datagram :=
  chunkReply (chunkRead k) (block maxBrPayloadLen twoChunks k)

/-- Both chunks arrive in turn, and the second once more. -/
theorem fetchFile_prefix_in_turn :
    (fetchFile nameF 2 1 ([twoChunksReply 0, twoChunksReply 1,
      twoChunksReply 1].take 2)).written <+: twoChunks := by
  apply fetchFile_prefix
  · intro d hd
    simp only [List.mem_cons, List.not_mem_nil, or_false] at hd
    rcases hd with rfl | rfl | rfl
    · exact truthful_chunkReply _ _
    · exact truthful_chunkReply _ _
    · exact truthful_chunkReply _ _
  · intro j k hjk hk _ _
    have hj : j = 0 := by omega
    subst hj
    exact ⟨twoChunksReply 0, rfl, rfl, by decide, rfl⟩

/-- A reply that is not accepted leaves a gap: here the second chunk is written
where the first one belongs. -/
theorem lost_reply_leaves_gap :
    ¬ ∀ (fname : FileName) (contents : List UInt8)
      (nrChunks lastChunkSz : ℤ) (received : List Datagram),
      (∀ d ∈ received, Truthful contents d) → ∀ n,
        (fetchFile fname nrChunks lastChunkSz (received.take n)).written <+:
          contents := by
  intro h
  have htrue : ∀ d ∈ [discoverReply, twoChunksReply 1],
      Truthful twoChunks d := by
    intro d hd
    simp only [List.mem_cons, List.not_mem_nil, or_false] at hd
    rcases hd with rfl | rfl
    · rintro k ⟨hop, -⟩
      exact absurd hop (by decide)
    · exact truthful_chunkReply _ _
  have hprefix := h nameF twoChunks 2 1 _ htrue 2
  revert hprefix
  decide +kernel

end MiscCode.Broadcast
