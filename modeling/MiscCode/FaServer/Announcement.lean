import MiscCode.FaServer.Model
import MiscCode.Support.Fuel

/-!
# What the server announces

`make_announcement` cuts off the last character of the version without looking
at it.  That is the newline when the first line of the version file is short
enough and has one, and otherwise a character of the version; an empty version
has no last character, and the byte in front of the buffer is written.
-/

namespace MiscCode
namespace FaServer

open Fuel ByteLayout CString

/-! ## The first line -/

/-- The first line of a file, without its newline. -/
def firstLine (content : List UInt8) : List UInt8 :=
  content.takeWhile (· ≠ newline)

section Lines

variable {n : ℕ} {content : List UInt8}

theorem firstLine_cons_newline (cs : List UInt8) :
    firstLine (newline :: cs) = [] :=
  List.takeWhile_cons_of_neg (by decide)

theorem firstLine_cons {c : UInt8} (hc : c ≠ newline) (cs : List UInt8) :
    firstLine (c :: cs) = c :: firstLine cs :=
  List.takeWhile_cons_of_pos (decide_eq_true hc)

theorem length_readLine_le (n : ℕ) (content : List UInt8) :
    (readLine n content).length ≤ n := by
  induction n, content using readLine.induct with
  | case1 content => exact Nat.zero_le _
  | case2 n => exact Nat.zero_le _
  | case3 n cs =>
      rw [readLine, if_pos rfl]
      exact Nat.succ_le_succ (Nat.zero_le n)
  | case4 n c cs hc ih =>
      rw [readLine, if_neg hc]
      exact Nat.succ_le_succ ih

/-- A line that fits is read with its newline. -/
theorem readLine_of_fits (hmem : newline ∈ content)
    (hlen : (firstLine content).length < n) :
    readLine n content = firstLine content ++ [newline] := by
  induction n, content using readLine.induct with
  | case1 content => exact absurd hlen (Nat.not_lt_zero _)
  | case2 n => exact absurd hmem List.not_mem_nil
  | case3 n cs =>
      rw [readLine, if_pos rfl, firstLine_cons_newline]
      rfl
  | case4 n c cs hc ih =>
      have hmem' : newline ∈ cs :=
        (List.mem_cons.mp hmem).resolve_left (Ne.symm hc)
      rw [firstLine_cons hc] at hlen ⊢
      rw [readLine, if_neg hc, ih hmem' (Nat.lt_of_succ_lt_succ hlen)]
      rfl

/-- Any other line is read without a newline, and cut. -/
theorem readLine_of_not
    (h : newline ∈ content → n ≤ (firstLine content).length) :
    readLine n content = (firstLine content).take n := by
  induction n, content using readLine.induct with
  | case1 content => rw [readLine, List.take_zero]
  | case2 n => rfl
  | case3 n cs =>
      have hlen := h List.mem_cons_self
      rw [firstLine_cons_newline] at hlen
      exact absurd hlen (Nat.not_succ_le_zero n)
  | case4 n c cs hc ih =>
      rw [firstLine_cons hc] at h ⊢
      rw [readLine, if_neg hc, List.take_succ_cons, ih]
      exact fun hmem => Nat.le_of_succ_le_succ (h (List.mem_cons_of_mem c hmem))

end Lines

/-! ## The version -/

section Version

variable {env : Environment} {content : List UInt8}

theorem store_of_inside {buf xs : List UInt8} {i : ℕ}
    (h : i + xs.length ≤ buf.length) : store buf i xs = .ok (put buf i xs) := by
  rw [store, if_pos ⟨by omega, by omega⟩]
  rfl

theorem fgets_of_nil {buf stream : List UInt8} {size : ℕ}
    (h : readLine (size - 1) stream = []) : fgets buf size stream = .ok buf := by
  rw [fgets, h]

theorem fgets_of_cons {buf stream cs : List UInt8} {size : ℕ} {c : UInt8}
    (h : readLine (size - 1) stream = c :: cs) :
    fgets buf size stream = store buf 0 (c :: cs ++ [0]) := by
  rw [fgets, h]

/-- What `fgets` leaves in the buffer. -/
theorem getFwVer_eq (hversion : env.version = some content) :
    ∃ buf, getFwVer env (List.replicate 32 0) = .ok buf ∧ buf.length = 32 ∧
      text 0 buf = text 0 (readLine 31 content) := by
  have hget : getFwVer env (List.replicate 32 0) =
      fgets (List.replicate 32 0) 32 content := by
    rw [getFwVer, hversion]
  have hle := length_readLine_le 31 content
  rw [hget]
  cases hline : readLine 31 content with
  | nil => exact ⟨_, fgets_of_nil hline, rfl, rfl⟩
  | cons c cs =>
      rw [hline] at hle
      have hinside : 0 + (c :: cs ++ [0]).length ≤
          (List.replicate 32 (0 : UInt8)).length := by
        rw [List.length_append, List.length_replicate, Nat.zero_add]
        exact Nat.add_le_add_right hle 1
      refine ⟨_, (fgets_of_cons hline).trans (store_of_inside hinside), ?_, ?_⟩
      · rw [length_put hinside]
        rfl
      · exact text_put_zero _ _

/-- There is no version in front of a NUL at the start of the file. -/
theorem text_readLine_eq_nil_iff :
    text 0 (readLine 31 content) = [] ↔ content.headD 0 = 0 := by
  cases content with
  | nil => exact iff_of_true rfl rfl
  | cons c cs =>
      have hhead : ∃ t, readLine 31 (c :: cs) = c :: t := by
        rw [readLine]
        split
        · exact ⟨[], rfl⟩
        · exact ⟨_, rfl⟩
      obtain ⟨t, ht⟩ := hhead
      rw [ht, text, List.takeWhile_cons, List.headD_cons]
      by_cases hc : c = 0
      · simp [hc]
      · simp [hc]

/-- The announced version is the first line exactly when the cut takes off its
newline. -/
theorem dropLast_eq_firstLine_iff :
    (text 0 (readLine 31 content) ≠ [] ∧
      (text 0 (readLine 31 content)).dropLast = (firstLine content).take 31) ↔
      newline ∈ content ∧ (firstLine content).length ≤ 30 ∧
        0 ∉ firstLine content := by
  by_cases hfits : newline ∈ content ∧ (firstLine content).length ≤ 30
  · obtain ⟨hmem, hlen⟩ := hfits
    have htake : (firstLine content).take 31 = firstLine content :=
      List.take_of_length_le (by omega)
    rw [readLine_of_fits hmem (by omega), htake]
    constructor
    · rintro ⟨-, hcut⟩
      refine ⟨hmem, hlen, ?_⟩
      rw [← hcut]
      exact fun h => nul_notMem_text 0 _ (List.mem_of_mem_dropLast h)
    · rintro ⟨-, -, hnul⟩
      have hself : text 0 (firstLine content ++ [newline]) =
          firstLine content ++ [newline] := by
        rw [text_eq_self_iff, List.mem_append, List.mem_singleton]
        exact not_or_intro hnul (by decide)
      rw [hself]
      exact ⟨List.concat_ne_nil _ _, List.dropLast_concat⟩
  · have hread : readLine 31 content = (firstLine content).take 31 :=
      readLine_of_not fun hmem =>
        Nat.lt_of_not_le fun hlen => hfits ⟨hmem, hlen⟩
    constructor
    · rintro ⟨hne, hcut⟩
      rw [hread] at hne hcut
      have hpos := List.length_pos_iff.mpr hne
      have hle := (text_initial 0 ((firstLine content).take 31)).length_le
      have hlen := congrArg List.length hcut
      rw [List.length_dropLast] at hlen
      omega
    · rintro ⟨hmem, hlen, -⟩
      exact absurd ⟨hmem, hlen⟩ hfits

/-- The last character of the version is overwritten; an empty version has
none. -/
theorem store_last {buf : List UInt8} (hbuf : text 0 buf ≠ []) :
    ∃ buf', store buf ((text 0 buf).length - 1) [0] = .ok buf' ∧
      text 0 buf' = (text 0 buf).dropLast := by
  have hpos := List.length_pos_iff.mpr hbuf
  have hle := (text_initial 0 buf).length_le
  have hindex : ((text 0 buf).length : ℤ) - 1 = ((text 0 buf).length - 1 : ℕ) := by
    omega
  refine ⟨put buf ((text 0 buf).length - 1) [0], ?_, ?_⟩
  · rw [hindex]
    apply store_of_inside
    rw [List.length_singleton]
    omega
  · rw [text_put_nul (by omega), List.dropLast_eq_take]

theorem store_last_of_nil {buf : List UInt8} (hbuf : text 0 buf = []) :
    store buf ((text 0 buf).length - 1) [0] = .error (.outOfBuffer (-1)) := by
  rw [hbuf]
  rfl

end Version

/-! ## The text -/

section Text

variable {ip v : List UInt8}

/-- The text of an announcement before it is cut. -/
def announcementOf (ip v : List UInt8) : List UInt8 :=
  ip ++ [comma] ++ decimal 16 ++ [comma] ++ v

theorem nul_notMem_decimal (n : ℕ) : 0 ∉ decimal n := by
  intro hmem
  obtain ⟨c, hc, hzero⟩ := List.mem_map.mp hmem
  have hdigit := Nat.isDigit_of_mem_toDigits (by omega) (by omega) hc
  obtain ⟨hlow, hhigh⟩ := Char.isDigit_iff_toNat.mp hdigit
  have hmod : c.toNat % 256 = 0 := by
    rw [← UInt8.toNat_ofNat', hzero]
    rfl
  change 48 ≤ c.toNat at hlow
  change c.toNat ≤ 57 at hhigh
  omega

theorem length_decimal_le (b : UInt8) : (decimal b.toNat).length ≤ 3 := by
  have hlt := b.toNat_lt
  rw [decimal, ascii, List.length_map,
    Nat.length_toDigits_le_iff (by omega) (by omega)]
  omega

theorem nul_notMem_inetNtoa (addr : InAddr) : 0 ∉ inetNtoa addr := by
  have hdot : (0 : UInt8) ≠ dot := by decide
  simp only [inetNtoa, List.mem_append, List.mem_singleton, nul_notMem_decimal,
    hdot, or_self, not_false_eq_true]

theorem length_inetNtoa_le (addr : InAddr) : (inetNtoa addr).length ≤ 15 := by
  have ha := length_decimal_le addr.a
  have hb := length_decimal_le addr.b
  have hc := length_decimal_le addr.c
  have hd := length_decimal_le addr.d
  simp only [inetNtoa, List.length_append, List.length_singleton]
  omega

theorem nul_notMem_announcementOf (hip : 0 ∉ ip) (hv : 0 ∉ v) :
    0 ∉ announcementOf ip v := by
  have hcomma : (0 : UInt8) ≠ comma := by decide
  simp only [announcementOf, List.mem_append, List.mem_singleton,
    nul_notMem_decimal, hcomma, hip, hv, or_self, not_false_eq_true]

theorem length_announcementOf (ip v : List UInt8) :
    (announcementOf ip v).length = ip.length + v.length + 4 := by
  have hmodel : (decimal 16).length = 2 := by decide
  simp only [announcementOf, List.length_append, List.length_singleton, hmodel]
  omega

theorem announcementOf_inj {v' : List UInt8} :
    announcementOf ip v = announcementOf ip v' ↔ v = v' :=
  List.append_right_inj _

/-- What `snprintf` leaves in the payload. -/
theorem fillInfo_eq (ip fwVer : List UInt8) :
    ∃ info, fillInfo ip fwVer = .ok info ∧ info.length = 128 ∧
      text 0 info = text 0 ((announcementOf ip (text 0 fwVer)).take 127) := by
  have hinside : 0 + ((announcementOf ip (text 0 fwVer)).take 127 ++ [0]).length ≤
      (List.replicate 128 (0 : UInt8)).length := by
    rw [List.length_append, List.length_take, List.length_replicate,
      List.length_singleton]
    omega
  refine ⟨_, store_of_inside hinside, ?_, text_put_zero _ _⟩
  exact (length_put hinside).trans List.length_replicate

/-- No announcement is long enough to be cut. -/
theorem take_announcementOf (addr : InAddr) (hv : v.length ≤ 31) :
    (announcementOf (inetNtoa addr) v).take 127 =
      announcementOf (inetNtoa addr) v := by
  have hip := length_inetNtoa_le addr
  apply List.take_of_length_le
  rw [length_announcementOf]
  omega

end Text

/-! ## Announcements -/

section Announcement

variable {addr : InAddr} {content : List UInt8} {tid : UInt8}

/-- An environment in which all calls succeed. -/
def running (addr : InAddr) (content : List UInt8) : Environment where
  socket := true
  addr := some addr
  version := some content
  sendto := true

/-- The text that is to be announced. -/
def announcementText (addr : InAddr) (content : List UInt8) : List UInt8 :=
  (announcementOf (inetNtoa addr) ((firstLine content).take 31)).take 127

/-- An announcement is built with no write beside a buffer, and says what it is
to say. -/
def Announces (addr : InAddr) (content : List UInt8) (tid : UInt8) : Prop :=
  ∃ pkt glbTid, makeAnnouncement (running addr content) tid =
      .ok (pkt, glbTid) ∧ text 0 pkt.data = announcementText addr content

theorem makeAnnouncement_running (addr : InAddr) (content : List UInt8)
    (tid : UInt8) :
    makeAnnouncement (running addr content) tid =
      (getFwVer (running addr content) (List.replicate 32 0) >>= fun fwVer =>
        store fwVer ((text 0 fwVer).length - 1) [0] >>= fun fwVer =>
          fillInfo (inetNtoa addr) fwVer >>= fun info =>
            .ok (⟨protoMagic, MsgType.announcement.toUInt8, 128, tid, info⟩,
              tid + 1)) :=
  rfl

/-- A version with nothing in front of its first NUL is cut in front of its
buffer. -/
theorem makeAnnouncement_of_nil (hv : text 0 (readLine 31 content) = []) :
    makeAnnouncement (running addr content) tid =
      .error (.outOfBuffer (-1)) := by
  have hversion : (running addr content).version = some content := rfl
  obtain ⟨buf, hget, -, htext⟩ := getFwVer_eq hversion
  rw [hv] at htext
  rw [makeAnnouncement_running, hget]
  change (store buf ((text 0 buf).length - 1) [0] >>= _) = _
  rw [store_last_of_nil htext]
  rfl

/-- Any other version is announced without its last character. -/
theorem makeAnnouncement_of_ne_nil (addr : InAddr) (tid : UInt8)
    (hv : text 0 (readLine 31 content) ≠ []) :
    ∃ pkt, makeAnnouncement (running addr content) tid = .ok (pkt, tid + 1) ∧
      pkt.tid = tid ∧ pkt.data.length = 128 ∧ text 0 pkt.data =
        announcementOf (inetNtoa addr)
          (text 0 (readLine 31 content)).dropLast := by
  have hversion : (running addr content).version = some content := rfl
  obtain ⟨buf, hget, -, htext⟩ := getFwVer_eq hversion
  rw [← htext] at hv ⊢
  obtain ⟨buf', hstore, hcut⟩ := store_last hv
  obtain ⟨info, hinfo, hlen, hannounced⟩ := fillInfo_eq (inetNtoa addr) buf'
  refine ⟨⟨protoMagic, MsgType.announcement.toUInt8, 128, tid, info⟩, ?_, rfl,
    hlen, ?_⟩
  · rw [makeAnnouncement_running]
    exact bind_eq_ok.mpr ⟨buf, hget, bind_eq_ok.mpr ⟨buf', hstore,
      bind_eq_ok.mpr ⟨info, hinfo, rfl⟩⟩⟩
  · have hshort : (text 0 buf').length ≤ 31 := by
      have hle := (text_initial 0 (readLine 31 content)).length_le
      have hread := length_readLine_le 31 content
      rw [hcut, htext, List.length_dropLast]
      omega
    change text 0 info = _
    rw [hannounced, take_announcementOf addr hshort, hcut]
    rw [text_eq_self_iff]
    apply nul_notMem_announcementOf (nul_notMem_inetNtoa addr)
    rw [← hcut]
    exact nul_notMem_text 0 buf'

/-- The announcement is built with no write beside a buffer exactly when the
version file starts with a byte other than NUL. -/
theorem makeAnnouncement_ok_iff :
    (∃ r, makeAnnouncement (running addr content) tid = .ok r) ↔
      content.headD 0 ≠ 0 := by
  rw [← not_iff_not, not_not, ← text_readLine_eq_nil_iff]
  constructor
  · intro hfail
    by_contra hv
    obtain ⟨pkt, hmake, -⟩ := makeAnnouncement_of_ne_nil addr tid hv
    exact hfail ⟨_, hmake⟩
  · rintro hv ⟨r, hok⟩
    rw [makeAnnouncement_of_nil hv] at hok
    exact error_ne_ok hok

/-- The server announces the version without its last character. -/
theorem announces_iff_cut :
    Announces addr content tid ↔ text 0 (readLine 31 content) ≠ [] ∧
      (text 0 (readLine 31 content)).dropLast = (firstLine content).take 31 := by
  have htake : ((firstLine content).take 31).length ≤ 31 :=
    List.length_take_le _ _
  rw [Announces, announcementText, take_announcementOf addr htake]
  by_cases hv : text 0 (readLine 31 content) = []
  · rw [makeAnnouncement_of_nil hv]
    constructor
    · rintro ⟨pkt, glbTid, hok, -⟩
      exact absurd hok error_ne_ok
    · rintro ⟨hne, -⟩
      exact absurd hv hne
  · obtain ⟨pkt, hmake, -, -, htext⟩ := makeAnnouncement_of_ne_nil addr tid hv
    constructor
    · rintro ⟨pkt', glbTid, hok, hannounced⟩
      cases hmake.symm.trans hok
      rw [htext, announcementOf_inj] at hannounced
      exact ⟨hv, hannounced⟩
    · rintro ⟨-, hcut⟩
      refine ⟨pkt, _, hmake, ?_⟩
      rw [htext, hcut]

/-- The server announces the first line of the version file exactly when this
line ends with a newline, has at most 30 bytes and contains no NUL. -/
theorem announces_iff (addr : InAddr) (content : List UInt8) (tid : UInt8) :
    Announces addr content tid ↔
      newline ∈ content ∧ (firstLine content).length ≤ 30 ∧
        0 ∉ firstLine content :=
  announces_iff_cut.trans dropLast_eq_firstLine_iff

/-- With an empty version file a byte in front of the buffer is written, and a
version without a newline loses a character. -/
theorem empty_version_stored_beside :
    makeAnnouncement (running ⟨192, 168, 0, 2⟩ []) 0 =
        .error (.outOfBuffer (-1)) ∧
      ¬Announces ⟨192, 168, 0, 2⟩ [] 0 ∧
      ¬Announces ⟨192, 168, 0, 2⟩ (ascii ['1', '.', '0']) 0 := by
  refine ⟨makeAnnouncement_of_nil rfl, ?_, ?_⟩
  · rw [announces_iff_cut]
    decide
  · rw [announces_iff_cut]
    decide

end Announcement

/-! ## Runs -/

section Runs

variable {s s' : Server} {d : Datagram} {ds : List Datagram}
  {env : Environment} {tid : UInt8}

/-- An announcement is made only when all calls of the system succeed. -/
theorem exists_running {r : Packet × UInt8}
    (hok : makeAnnouncement env tid = .ok r) :
    ∃ addr content, env = running addr content := by
  obtain ⟨socket, addr, version, sendto⟩ := env
  obtain ⟨ip, hip, hrest⟩ := bind_eq_ok.mp hok
  obtain ⟨fwVer, hfwVer, hrest⟩ := bind_eq_ok.mp hrest
  obtain ⟨fwVer', -, hrest⟩ := bind_eq_ok.mp hrest
  obtain ⟨info, -, hsend⟩ := bind_eq_ok.mp hrest
  cases socket with
  | false => exact absurd hip error_ne_ok
  | true =>
      cases addr with
      | none => exact absurd hip error_ne_ok
      | some addr =>
          cases version with
          | none => exact absurd hfwVer error_ne_ok
          | some content =>
              cases sendto with
              | false => exact absurd hsend error_ne_ok
              | true => exact ⟨addr, content, rfl⟩

/-- What the server sends for a discovery, whoever made it: its own address is
the target. -/
structure Answers (d : Datagram) (answer : InAddr × Packet) : Prop where
  target : d.env.addr = some answer.1
  tid : answer.2.tid = d.tid
  text : ∀ addr content, d.env = running addr content →
    newline ∈ content → (firstLine content).length ≤ 30 →
      0 ∉ firstLine content →
        text 0 answer.2.data = announcementText addr content

/-- A discovery is answered, or the server stops. -/
theorem processPkt_ok_iff (hd : d.IsDiscovery) :
    processPkt s d = .ok s' ↔ ∃ r, makeAnnouncement d.env d.tid = .ok r ∧
      s' = ⟨r.2, s.sent ++ [(d.target, r.1)]⟩ := by
  rw [processPkt, if_pos hd]
  refine bind_eq_ok.trans ?_
  constructor
  · rintro ⟨r, hr, hs⟩
    exact ⟨r, hr, (Except.ok.inj hs).symm⟩
  · rintro ⟨r, hr, rfl⟩
    exact ⟨r, hr, rfl⟩

theorem answers_of_makeAnnouncement {r : Packet × UInt8}
    (hr : makeAnnouncement d.env d.tid = .ok r) :
    Answers d (d.target, r.1) := by
  obtain ⟨addr, content, henv⟩ := exists_running hr
  rw [henv] at hr
  have hv : CString.text 0 (readLine 31 content) ≠ [] := by
    intro hv
    rw [makeAnnouncement_of_nil hv] at hr
    exact error_ne_ok hr
  obtain ⟨pkt, hmake, htid, -, htext⟩ := makeAnnouncement_of_ne_nil
    addr d.tid hv
  cases hmake.symm.trans hr
  have htarget : d.env.addr = some d.target := by
    rw [Datagram.target, henv]
    rfl
  refine ⟨htarget, htid, ?_⟩
  intro addr' content' henv' hmem hlen hnul
  cases henv.symm.trans henv'
  have hcut := (dropLast_eq_firstLine_iff.mpr ⟨hmem, hlen, hnul⟩).2
  change CString.text 0 pkt.data = _
  rw [htext, hcut, announcementText,
    take_announcementOf addr (List.length_take_le _ _)]

theorem run_cons (s : Server) (d : Datagram) (ds : List Datagram) :
    run s (d :: ds) = processPkt s d >>= fun s => run s ds :=
  List.foldlM_cons ..

/-- A discovery from another machine, and a packet of another protocol. -/
def twoDatagrams : List Datagram :=
  let env := running ⟨192, 168, 0, 2⟩ (ascii "1.0\n".toList)
  [⟨⟨192, 168, 0, 7⟩, [protoMagic, 0, 0, 0, 5], env⟩,
    ⟨⟨192, 168, 0, 8⟩, [0], env⟩]

/-- The server goes on as long as no discovery finds a version file that is
empty or starts with a NUL, or a call of the system that fails. -/
theorem run_ok_iff :
    (∃ s', run s ds = .ok s') ↔ ∀ d ∈ ds, d.IsDiscovery →
      ∃ addr content, d.env = running addr content ∧ content.headD 0 ≠ 0 := by
  induction ds generalizing s with
  | nil => exact iff_of_true ⟨s, rfl⟩ fun d hd => absurd hd List.not_mem_nil
  | cons d ds ih =>
      rw [run_cons, List.forall_mem_cons]
      by_cases hd : d.IsDiscovery
      · constructor
        · rintro ⟨s', hok⟩
          obtain ⟨s₁, hstep, hrest⟩ := bind_eq_ok.mp hok
          obtain ⟨r, hr, rfl⟩ := (processPkt_ok_iff hd).mp hstep
          obtain ⟨addr, content, henv⟩ := exists_running hr
          rw [henv] at hr
          exact ⟨fun _ => ⟨addr, content, henv,
            makeAnnouncement_ok_iff.mp ⟨r, hr⟩⟩, ih.mp ⟨s', hrest⟩⟩
        · rintro ⟨hfirst, hrest⟩
          obtain ⟨addr, content, henv, hhead⟩ := hfirst hd
          obtain ⟨r, hr⟩ := makeAnnouncement_ok_iff.mpr hhead
          rw [← henv] at hr
          obtain ⟨s', hs'⟩ := ih.mpr hrest
          exact ⟨s', bind_eq_ok.mpr
            ⟨_, (processPkt_ok_iff hd).mpr ⟨r, hr, rfl⟩, hs'⟩⟩
      · rw [processPkt, if_neg hd]
        exact ih.trans (iff_and_self.mpr fun _ h => absurd h hd)

end Runs

end FaServer
end MiscCode
