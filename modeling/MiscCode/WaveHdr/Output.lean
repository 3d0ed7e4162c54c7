import MiscCode.WaveHdr.Model

/-!
# What the output file holds

The header is right since every member is assigned after the `strcpy` that
spills into it, and the copy loop adds the input file.  The output file is
opened without being truncated, so that the end of a longer earlier file stays
behind them, and the loop never ends when it copies a file into itself.
-/

namespace MiscCode
namespace WaveHdr

open Fuel ByteLayout WhileLoop

/-! ## Members -/

section Members

variable {f g : Member} {v : ℤ} {whdr : Wavehdr}

/-- Two members that do not overlap. -/
def Member.Apart (f g : Member) : Prop :=
  f.offset + f.size ≤ g.offset ∨ g.offset + g.size ≤ f.offset

instance (f g : Member) : Decidable (f.Apart g) :=
  inferInstanceAs (Decidable (_ ∨ _))

theorem Member.offset_le (f : Member) : f.offset ≤ whdr.bytes.length := by
  have hinside := f.inside
  have hlen := whdr.length_eq
  omega

theorem bytes_assign_self :
    f.bytes (f.assign v whdr).bytes = leBytes f.size v := by
  have hbound : f.offset + (leBytes f.size v).length ≤ whdr.bytes.length := by
    rw [length_leBytes, whdr.length_eq]
    exact f.inside
  have h := part_put_self hbound
  rwa [length_leBytes] at h

theorem bytes_assign_of_apart (h : f.Apart g) :
    g.bytes (f.assign v whdr).bytes = g.bytes whdr.bytes := by
  apply part_put_of_disjoint f.offset_le
  rw [length_leBytes]
  exact h

variable {text : String}
  {h : f.offset + (ascii text ++ [0]).length ≤ sizeofWavehdr}

/-- The NUL goes behind the member. -/
theorem bytes_strcpy_self (htext : (ascii text).length = f.size) :
    f.bytes (f.strcpy text whdr h).bytes = ascii text := by
  have hinside := f.inside
  have hlen := whdr.length_eq
  have htag : (put whdr.bytes f.offset (ascii text)).length =
      whdr.bytes.length := length_put (by omega)
  have hput : (f.strcpy text whdr h).bytes =
      put (put whdr.bytes f.offset (ascii text))
        (f.offset + (ascii text).length) [0] := (put_put f.offset_le).symm
  have hbound : f.offset + (ascii text).length ≤ whdr.bytes.length := by omega
  have hself := part_put_self hbound
  rw [Member.bytes, hput, part_put_of_disjoint (by omega) (by omega), ← htext]
  exact hself

theorem bytes_strcpy_of_apart
    (happart : f.offset + (ascii text ++ [0]).length ≤ g.offset ∨
      g.offset + g.size ≤ f.offset) :
    g.bytes (f.strcpy text whdr h).bytes = g.bytes whdr.bytes :=
  part_put_of_disjoint f.offset_le happart

end Members

/-! ## The header -/

section Header

variable (fsize : ℤ) (whdr : Wavehdr)

/-- No tag is left with the NUL of another one. -/
theorem copyTags_bytes :
    chunkId.bytes (copyTags whdr).bytes = ascii "RIFF" ∧
      format.bytes (copyTags whdr).bytes = ascii "WAVE" ∧
      subchunk1Id.bytes (copyTags whdr).bytes = ascii "fmt " ∧
      subchunk2Id.bytes (copyTags whdr).bytes = ascii "data" := by
  unfold copyTags
  simp (disch := decide) only [bytes_strcpy_self, bytes_strcpy_of_apart,
    and_self]

/-- The numbers do not touch the tags. -/
theorem fillHeader_tags {f : Member}
    (hf : f = chunkId ∨ f = format ∨ f = subchunk1Id ∨ f = subchunk2Id) :
    f.bytes (fillHeader fsize whdr).bytes = f.bytes (copyTags whdr).bytes := by
  unfold fillHeader assignRates assignFormat
  rcases hf with rfl | rfl | rfl | rfl
  · simp (disch := decide) only [bytes_assign_of_apart]
  · simp (disch := decide) only [bytes_assign_of_apart]
  · simp (disch := decide) only [bytes_assign_of_apart]
  · simp (disch := decide) only [bytes_assign_of_apart]

theorem assignFormat_get :
    sampleRate.get (assignFormat fsize whdr).bytes = 44100 ∧
      nrChannels.get (assignFormat fsize whdr).bytes = 2 ∧
      bitsPerSample.get (assignFormat fsize whdr).bytes = 16 := by
  unfold assignFormat Member.get
  simp (disch := decide) only [bytes_assign_self, bytes_assign_of_apart]
  decide

/-- The sizes are those of the output file and of the input file. -/
theorem fillHeader_sizes {fsize : ℤ} (hlow : 0 ≤ fsize)
    (hhigh : fsize < 2 ^ 31 - 36) :
    chunkSize.get (fillHeader fsize whdr).bytes = fsize + 36 ∧
      subchunk2Size.get (fillHeader fsize whdr).bytes = fsize := by
  have hcast : (sizeofWavehdr : ℤ) = 44 := rfl
  have hsum : fsize - 8 + sizeofWavehdr = fsize + 36 := by omega
  have hchunk : leInt (leBytes 4 (fsize + 36)) = fsize + 36 :=
    leInt_leBytes (by omega) (by omega)
  have hdata : leInt (leBytes 4 fsize) = fsize :=
    leInt_leBytes (by omega) (by omega)
  unfold fillHeader assignRates assignFormat Member.get
  simp (disch := decide) only [bytes_assign_self, bytes_assign_of_apart, hsum]
  exact ⟨hchunk, hdata⟩

/-- The rates are computed from members that are assigned already. -/
theorem fillHeader_rates :
    sampleRate.get (fillHeader fsize whdr).bytes = 44100 ∧
      nrChannels.get (fillHeader fsize whdr).bytes = 2 ∧
      bitsPerSample.get (fillHeader fsize whdr).bytes = 16 ∧
      byteRate.get (fillHeader fsize whdr).bytes = 176400 ∧
      blockAlign.get (fillHeader fsize whdr).bytes = 4 := by
  obtain ⟨hrate, hchannels, hbits⟩ := assignFormat_get fsize (copyTags whdr)
  unfold fillHeader assignRates
  unfold Member.get at hrate hchannels hbits ⊢
  simp (disch := decide) only [bytes_assign_self, bytes_assign_of_apart, hrate,
    hchannels, hbits]
  decide

end Header

/-! ## Waves -/

/-- The output is a header and the data, and the header says what they are. -/
structure IsWave (data out : List UInt8) : Prop where
  length : out.length = sizeofWavehdr + data.length
  drop : out.drop sizeofWavehdr = data
  riff : chunkId.bytes out = ascii "RIFF"
  wave : format.bytes out = ascii "WAVE"
  fmt : subchunk1Id.bytes out = ascii "fmt "
  dataTag : subchunk2Id.bytes out = ascii "data"
  riffSize : chunkSize.get out = out.length - 8
  dataSize : subchunk2Size.get out = data.length
  rate : byteRate.get out =
    sampleRate.get out * nrChannels.get out * bitsPerSample.get out / 8
  align : blockAlign.get out = nrChannels.get out * bitsPerSample.get out / 8

theorem bytes_append (f : Member) (whdr : Wavehdr) (data : List UInt8) :
    f.bytes (whdr.bytes ++ data) = f.bytes whdr.bytes :=
  part_append_of_le (whdr.length_eq ▸ f.inside) data

theorem get_append (f : Member) (whdr : Wavehdr) (data : List UInt8) :
    f.get (whdr.bytes ++ data) = f.get whdr.bytes := by
  unfold Member.get
  rw [bytes_append]

/-- The header that `main` makes for the length of the data. -/
theorem isWave_fillHeader (whdr : Wavehdr) {data : List UInt8}
    (hsize : data.length < 2 ^ 31 - 36) :
    IsWave data ((fillHeader data.length whdr).bytes ++ data) := by
  obtain ⟨hriff, hwave, hfmt, hdata⟩ := copyTags_bytes whdr
  obtain ⟨hrate, hchannels, hbits, hbyteRate, hblockAlign⟩ :=
    fillHeader_rates data.length whdr
  obtain ⟨hchunk, hdataSize⟩ := fillHeader_sizes whdr
    (Int.natCast_nonneg data.length) (by omega)
  have hlen := (fillHeader data.length whdr).length_eq
  have htotal : ((fillHeader data.length whdr).bytes ++ data).length =
      sizeofWavehdr + data.length := by
    rw [List.length_append, hlen]
  constructor
  · exact htotal
  · exact List.drop_left' hlen
  · rw [bytes_append, fillHeader_tags _ _ (.inl rfl), hriff]
  · rw [bytes_append, fillHeader_tags _ _ (.inr (.inl rfl)), hwave]
  · rw [bytes_append, fillHeader_tags _ _ (.inr (.inr (.inl rfl))), hfmt]
  · rw [bytes_append, fillHeader_tags _ _ (.inr (.inr (.inr rfl))), hdata]
  · have hcast : (sizeofWavehdr : ℤ) = 44 := rfl
    rw [get_append, hchunk, htotal, Nat.cast_add]
    omega
  · rw [get_append, hdataSize]
  · simp only [get_append, hrate, hchannels, hbits, hbyteRate]
    decide
  · simp only [get_append, hchannels, hbits, hblockAlign]
    decide

/-! ## The copy loop -/

section Loop

variable {ι : Type}

/-- The loop that was started in `s` still has the input file in front of it
and the same copy to make. -/
structure Copied (s s' : Copying ι) : Prop where
  fd : s'.fd.file = s.fd.file
  fdout : s'.fdout.file = s.fdout.file
  input : s'.files s.fd.file = s.files s.fd.file
  pos : s'.fdout.pos ≤ (s'.files s.fdout.file).length
  rest : put (s'.files s.fdout.file) s'.fdout.pos
      ((s.files s.fd.file).drop s'.fd.pos) =
    put (s.files s.fdout.file) s.fdout.pos ((s.files s.fd.file).drop s.fd.pos)

theorem Copied.buf_eq {s s' : Copying ι} (h : Copied s s') :
    s'.buf = part (s.files s.fd.file) s'.fd.pos 256 := by
  rw [Copying.buf, h.fd, h.input]

/-- With nothing left to read the copy is there. -/
theorem Copied.files_eq {s s' : Copying ι} (h : Copied s s')
    (hread : ¬0 < s'.buf.length) :
    s'.files s.fdout.file = put (s.files s.fdout.file) s.fdout.pos
      ((s.files s.fd.file).drop s.fd.pos) := by
  have hend : (s.files s.fd.file).drop s'.fd.pos = [] := by
    rw [h.buf_eq, part, List.length_take, List.length_drop] at hread
    exact List.drop_eq_nil_of_le (by omega)
  rw [← h.rest, hend, put_nil]

variable [DecidableEq ι]

/-- A turn moves bytes from the rest of the input to the output. -/
theorem Copied.turn {s s' : Copying ι} (h : Copied s s')
    (hne : s.fd.file ≠ s.fdout.file) :
    Copied s (s'.advance.write s'.buf) := by
  have hout : (s'.advance.write s'.buf).files s.fdout.file =
      put (s'.files s.fdout.file) s'.fdout.pos s'.buf := by
    change Function.update s'.files s'.fdout.file
      (put (s'.files s'.fdout.file) s'.fdout.pos s'.buf) s.fdout.file = _
    rw [h.fdout, Function.update_self]
  constructor
  · exact h.fd
  · exact h.fdout
  · change Function.update s'.files s'.fdout.file _ s.fd.file = _
    rw [h.fdout, Function.update_of_ne hne]
    exact h.input
  · rw [hout]
    exact le_length_put h.pos
  · rw [hout]
    change put _ (s'.fdout.pos + s'.buf.length)
      ((s.files s.fd.file).drop (s'.fd.pos + s'.buf.length)) = _
    rw [put_put h.pos, h.buf_eq, part_append_drop]
    exact h.rest

theorem steady_copyLoop (s : Copying ι) :
    Steady .outOfFuel fun fuel => copyLoop fuel s :=
  steady_loop (steady_const copyTurn) s

/-- With two files, the rest of the one is copied into the other. -/
theorem copyLoop_ends {s : Copying ι} (hne : s.fd.file ≠ s.fdout.file)
    (hpos : s.fdout.pos ≤ (s.files s.fdout.file).length) :
    ∃ s', EndsIn .outOfFuel (fun fuel => copyLoop fuel s) (.ok s') ∧
      s'.files s.fdout.file =
        put (s.files s.fdout.file) s.fdout.pos
          ((s.files s.fd.file).drop s.fd.pos) := by
  apply loop_ends (steady_const copyTurn) (fun v s' =>
    Copied s s' ∧ (s.files s.fd.file).length - s'.fd.pos = v)
  · rintro _ s' ⟨h, rfl⟩
    by_cases hread : 0 < s'.buf.length
    · refine ⟨.again _, .of_ok (n := 0) (if_pos hread), _, ?_,
        h.turn hne, rfl⟩
      have hlt : s'.fd.pos < (s.files s.fd.file).length := by
        rw [h.buf_eq, part, List.length_take, List.length_drop] at hread
        omega
      change _ - (s'.fd.pos + s'.buf.length) < _
      omega
    · exact ⟨.leave _, .of_ok (n := 0) (if_neg hread), h.files_eq hread⟩
  · exact ⟨⟨rfl, rfl, rfl, hpos, rfl⟩, rfl⟩

/-- Copied into itself, a file always has bytes left to copy. -/
theorem copyLoop_forever {s : Copying ι} (hfile : s.fd.file = s.fdout.file)
    (hahead : s.fd.pos < s.fdout.pos)
    (hpos : s.fdout.pos ≤ (s.files s.fdout.file).length) (fuel : ℕ) :
    copyLoop fuel s = .error .outOfFuel := by
  let Inv : Copying ι → Prop := fun s' =>
    s'.fd.file = s'.fdout.file ∧ s'.fd.pos < s'.fdout.pos ∧
      s'.fdout.pos ≤ (s'.files s'.fdout.file).length
  have hinv : Inv s := ⟨hfile, hahead, hpos⟩
  refine loop_forever ?_ fuel hinv
  · rintro - s' ⟨hfile, hahead, hpos⟩
    have hread : 0 < s'.buf.length := by
      rw [Copying.buf, part, List.length_take, List.length_drop, hfile]
      omega
    refine ⟨_, if_pos hread, hfile, Nat.add_lt_add_right hahead _, ?_⟩
    change _ ≤ (Function.update s'.files s'.fdout.file
      (put (s'.files s'.fdout.file) s'.fdout.pos s'.buf) s'.fdout.file).length
    rw [Function.update_self]
    exact le_length_put hpos

end Loop

/-! ## The program -/

section Main

variable {ι : Type} [DecidableEq ι] (whdr : Wavehdr)
  {files : ι → List UInt8} {input output : ι}

/-- The state of the loop before its first turn. -/
def started (files : ι → List UInt8) (input output : ι) (whdr : Wavehdr) :
    Copying ι :=
  Copying.write { files := files, fd := ⟨input, 0⟩, fdout := ⟨output, 0⟩ }
    (fillHeader ((files input).length : ℤ) whdr).bytes

theorem started_output :
    (started files input output whdr).files output =
      put (files output) 0 (fillHeader ((files input).length : ℤ) whdr).bytes :=
  Function.update_self ..

theorem started_pos :
    (started files input output whdr).fdout.pos ≤
      ((started files input output whdr).files output).length := by
  rw [started_output]
  exact le_length_put (Nat.zero_le _)

/-- What is left when the loop ends in `s`. -/
def ended (files : ι → List UInt8) (input : ι) (s : Copying ι) : Result ι where
  printed := ["File size :" ++ toString ((files input).length : ℤ) ++ "\n"]
  returned := 0
  files := s.files

/-- The size of a small file is an `int`. -/
theorem main_eq (hsize : (files input).length < 2 ^ 31 - 36) (fuel : ℕ) :
    main fuel (some input) true (some output) whdr files =
      copyLoop fuel (started files input output whdr) >>= fun s =>
        .ok (ended files input s) := by
  have hfsize : ((files input).length : ℤ).bmod (2 ^ 32) =
      (files input).length :=
    Int.bmod_eq_of_le_mul_two (by omega) (by omega)
  change copyLoop fuel (Copying.write _ (fillHeader (Int.bmod _ _) whdr).bytes)
    >>= _ = _
  rw [hfsize]
  rfl

/-- The program returns exactly when its loop ends. -/
theorem main_ends_iff (hsize : (files input).length < 2 ^ 31 - 36)
    {r : Result ι} :
    EndsIn .outOfFuel
        (fun fuel => main fuel (some input) true (some output) whdr files)
        (.ok r) ↔
      ∃ s, EndsIn .outOfFuel
          (fun fuel => copyLoop fuel (started files input output whdr))
          (.ok s) ∧
        r = ended files input s := by
  simp only [main_eq whdr hsize]
  have hrest : ∀ s, Steady Stop.outOfFuel fun _ =>
      .ok (ended files input s) := fun _ => steadyAt_const _
  apply (endsIn_bind_ok_iff (steady_copyLoop _) hrest).trans
  constructor
  · rintro ⟨s, hs, -, _, hr⟩
    exact ⟨s, hs, (Except.ok.inj hr).symm⟩
  · rintro ⟨s, hs, rfl⟩
    exact ⟨s, hs, .of_ok (n := 0) rfl⟩

/-- The header and the input are put over what the output file held before. -/
theorem main_output (hsize : (files input).length < 2 ^ 31 - 36)
    (hne : input ≠ output) :
    ∃ r, EndsIn .outOfFuel
        (fun fuel => main fuel (some input) true (some output) whdr files)
        (.ok r) ∧
      r.files output = (fillHeader (files input).length whdr).bytes ++
        files input ++
        (files output).drop (sizeofWavehdr + (files input).length) := by
  obtain ⟨s, hs, hfiles⟩ := copyLoop_ends (s := started files input output whdr)
    hne (started_pos whdr)
  refine ⟨_, (main_ends_iff whdr hsize).mpr ⟨s, hs, rfl⟩, ?_⟩
  have hlen := (fillHeader (files input).length whdr).length_eq
  have hinput : (started files input output whdr).files input = files input :=
    Function.update_of_ne hne ..
  change s.files output = _
  change s.files output =
    put ((started files input output whdr).files output)
      (0 + (fillHeader (files input).length whdr).bytes.length)
      ((started files input output whdr).files input) at hfiles
  rw [hfiles, started_output, hinput, put_put (Nat.zero_le _), put_zero,
    List.length_append, hlen]

/-- Given its own input file as the output file, the program never returns. -/
theorem main_forever (hsize : (files input).length < 2 ^ 31 - 36)
    (heq : input = output) (r : Result ι) :
    ¬EndsIn .outOfFuel
      (fun fuel => main fuel (some input) true (some output) whdr files)
      (.ok r) := by
  intro hends
  obtain ⟨s, ⟨-, fuel, hfuel⟩, -⟩ := (main_ends_iff whdr hsize).mp hends
  have hahead : (started files input output whdr).fd.pos <
      (started files input output whdr).fdout.pos := by
    change 0 < 0 + (fillHeader (files input).length whdr).bytes.length
    rw [(fillHeader (files input).length whdr).length_eq]
    decide
  have htime := copyLoop_forever heq hahead (started_pos whdr) fuel
  exact error_ne_ok (htime.symm.trans hfuel)

/-- Behind a wave nothing can be left of a longer file. -/
theorem le_of_isWave (hsize : (files input).length < 2 ^ 31 - 36)
    {r : Result ι}
    (hends : EndsIn .outOfFuel
      (fun fuel => main fuel (some input) true (some output) whdr files) (.ok r))
    (hwave : IsWave (files input) (r.files output)) :
    input ≠ output ∧
      (files output).length ≤ sizeofWavehdr + (files input).length := by
  have hne : input ≠ output :=
    fun heq => main_forever whdr hsize heq r hends
  obtain ⟨r', hends', hfiles⟩ := main_output whdr hsize hne
  obtain ⟨s, hs, rfl⟩ := (main_ends_iff whdr hsize).mp hends
  obtain ⟨s', hs', rfl⟩ := (main_ends_iff whdr hsize).mp hends'
  obtain rfl := Except.ok.inj ((steady_copyLoop _).unique hs hs')
  refine ⟨hne, ?_⟩
  have hlen := hwave.length
  rw [hfiles, List.length_append, List.length_append,
    (fillHeader (files input).length whdr).length_eq, List.length_drop] at hlen
  omega

/-- The program makes a wave of a file of less than `2 ^ 31 - 36` bytes exactly
when the output file is another one and was not longer before than the wave. -/
theorem main_isWave_iff (hsize : (files input).length < 2 ^ 31 - 36) :
    (∃ r, EndsIn .outOfFuel
        (fun fuel => main fuel (some input) true (some output) whdr files)
        (.ok r) ∧ IsWave (files input) (r.files output)) ↔
      input ≠ output ∧
        (files output).length ≤ sizeofWavehdr + (files input).length := by
  constructor
  · rintro ⟨r, hends, hwave⟩
    exact le_of_isWave whdr hsize hends hwave
  · rintro ⟨hne, hle⟩
    obtain ⟨r, hends, hfiles⟩ := main_output whdr hsize hne
    refine ⟨r, hends, ?_⟩
    rw [hfiles, List.drop_eq_nil_of_le hle, List.append_nil]
    exact isWave_fillHeader whdr hsize

/-- A header in memory that is zero. -/
def zeroed : Wavehdr := ⟨List.replicate sizeofWavehdr 0, rfl⟩

/-- Two files: three bytes of input and the output file of an earlier run. -/
def earlier (old : List UInt8) (name : String) : List UInt8 :=
  if name = "/tmp/testwave" then old else [1, 2, 3]

theorem main_isWave_three :
    ∃ r, EndsIn .outOfFuel (fun fuel =>
        main fuel (some "in") true (some "/tmp/testwave") zeroed (earlier []))
        (.ok r) ∧ IsWave [1, 2, 3] (r.files "/tmp/testwave") :=
  (main_isWave_iff zeroed
    (show (earlier [] "in").length < 2 ^ 31 - 36 by decide)).mpr
    ⟨by decide, by decide⟩

/-- Of an output file of 48 bytes, the last one stays behind the wave. -/
theorem earlier_byte_stays :
    (∃ r, EndsIn .outOfFuel (fun fuel =>
        main fuel (some "in") true (some "/tmp/testwave") zeroed
          (earlier (List.replicate 48 7))) (.ok r) ∧
      (r.files "/tmp/testwave").length = 48) ∧
    ¬∃ r, EndsIn .outOfFuel (fun fuel =>
        main fuel (some "in") true (some "/tmp/testwave") zeroed
          (earlier (List.replicate 48 7))) (.ok r) ∧
      IsWave [1, 2, 3] (r.files "/tmp/testwave") := by
  have hsize : (earlier (List.replicate 48 7) "in").length < 2 ^ 31 - 36 := by
    decide
  constructor
  · obtain ⟨r, hends, hfiles⟩ := main_output zeroed hsize
      (show "in" ≠ "/tmp/testwave" by decide)
    refine ⟨r, hends, ?_⟩
    rw [hfiles, List.length_append, List.length_append,
      (fillHeader _ zeroed).length_eq, List.length_drop]
    decide
  · rintro ⟨r, hends, hwave⟩
    have hle := (le_of_isWave zeroed hsize hends hwave).2
    exact absurd hle (by decide)

end Main

end WaveHdr
end MiscCode
