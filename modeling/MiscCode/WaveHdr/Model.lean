import MiscCode.Support.ByteLayout
import MiscCode.Support.WhileLoop
import Mathlib.Logic.Function.Basic

/-!
# Putting a header in front of a file

`main` fills a packed `struct wavehdr`, writes it to its output file and copies
its input file behind it.  The members are 4 or 2 bytes of little-endian memory,
and `strcpy` writes the NUL behind a tag into the next member.

Files are told apart by names of any type, and both descriptors see what is
written to one file.
-/

namespace MiscCode
namespace WaveHdr

open ByteLayout WhileLoop

/-! ## The header -/

/-- `sizeof(struct wavehdr)`. -/
def sizeofWavehdr : ℕ := 44

/-- The memory of a `struct wavehdr`. -/
structure Wavehdr where
  bytes : List UInt8
  length_eq : bytes.length = sizeofWavehdr

/-- A member of the structure: its offset and its size. -/
structure Member where
  offset : ℕ
  size : ℕ
  inside : offset + size ≤ sizeofWavehdr

def chunkId : Member := ⟨0, 4, by decide⟩
def chunkSize : Member := ⟨4, 4, by decide⟩
def format : Member := ⟨8, 4, by decide⟩
def subchunk1Id : Member := ⟨12, 4, by decide⟩
def subchunk1Size : Member := ⟨16, 4, by decide⟩
def audioFmt : Member := ⟨20, 2, by decide⟩
def nrChannels : Member := ⟨22, 2, by decide⟩
def sampleRate : Member := ⟨24, 4, by decide⟩
def byteRate : Member := ⟨28, 4, by decide⟩
def blockAlign : Member := ⟨32, 2, by decide⟩
def bitsPerSample : Member := ⟨34, 2, by decide⟩
def subchunk2Id : Member := ⟨36, 4, by decide⟩
def subchunk2Size : Member := ⟨40, 4, by decide⟩

/-- The bytes of a member. -/
def Member.bytes (f : Member) (m : List UInt8) : List UInt8 :=
  part m f.offset f.size

/-- The number in a member. -/
def Member.get (f : Member) (m : List UInt8) : ℤ :=
  leInt (f.bytes m)

/-- Bytes written over the structure from an offset on. -/
def Wavehdr.put (whdr : Wavehdr) (i : ℕ) (xs : List UInt8)
    (h : i + xs.length ≤ sizeofWavehdr) : Wavehdr where
  bytes := ByteLayout.put whdr.bytes i xs
  length_eq := by
    rw [length_put (whdr.length_eq ▸ h)]
    exact whdr.length_eq

/-- The assignment of a number. -/
def Member.assign (f : Member) (v : ℤ) (whdr : Wavehdr) : Wavehdr :=
  whdr.put f.offset (leBytes f.size v) (by rw [length_leBytes]; exact f.inside)

/-- The bytes of an ASCII text. -/
def ascii (text : String) : List UInt8 :=
  text.toList.map fun c => UInt8.ofNat c.toNat

/-- `strcpy` of a text into a member, with its NUL. -/
def Member.strcpy (f : Member) (text : String) (whdr : Wavehdr)
    (h : f.offset + (ascii text ++ [0]).length ≤ sizeofWavehdr := by decide) :
    Wavehdr :=
  whdr.put f.offset (ascii text ++ [0]) h

/-- The four tags. -/
def copyTags (whdr : Wavehdr) : Wavehdr :=
  let whdr := chunkId.strcpy "RIFF" whdr
  let whdr := format.strcpy "WAVE" whdr
  let whdr := subchunk1Id.strcpy "fmt " whdr
  subchunk2Id.strcpy "data" whdr

/-- The members that are assigned before the byte rate. -/
def assignFormat (fsize : ℤ) (whdr : Wavehdr) : Wavehdr :=
  let whdr := chunkSize.assign (fsize - 8 + sizeofWavehdr) whdr
  let whdr := subchunk1Size.assign 0x10 whdr
  let whdr := audioFmt.assign 0x1 whdr
  let whdr := nrChannels.assign 2 whdr
  let whdr := sampleRate.assign 44100 whdr
  bitsPerSample.assign 16 whdr

/-- The rest of the members; the products are far from the limits of an
`int`. -/
def assignRates (fsize : ℤ) (whdr : Wavehdr) : Wavehdr :=
  let whdr := byteRate.assign
    ((sampleRate.get whdr.bytes * nrChannels.get whdr.bytes *
      bitsPerSample.get whdr.bytes).tdiv 8) whdr
  let whdr := blockAlign.assign
    ((nrChannels.get whdr.bytes * bitsPerSample.get whdr.bytes).tdiv 8) whdr
  subchunk2Size.assign fsize whdr

/-- What `main` makes of the uninitialised `whdr`. -/
def fillHeader (fsize : ℤ) (whdr : Wavehdr) : Wavehdr :=
  assignRates fsize (assignFormat fsize (copyTags whdr))

/-! ## The program -/

/-- The budget of the loop is used up. -/
inductive Stop where
  | outOfFuel
  deriving DecidableEq, Repr

variable {ι : Type} [DecidableEq ι]

/-- A file descriptor: the file and the position in it. -/
structure Descriptor (ι : Type) where
  file : ι
  pos : ℕ

/-- The files and the two descriptors of the loop. -/
structure Copying (ι : Type) where
  files : ι → List UInt8
  fd : Descriptor ι
  fdout : Descriptor ι

/-- `write` of all bytes. -/
def Copying.write (s : Copying ι) (xs : List UInt8) : Copying ι :=
  { s with
    files := Function.update s.files s.fdout.file
      (ByteLayout.put (s.files s.fdout.file) s.fdout.pos xs)
    fdout := { s.fdout with pos := s.fdout.pos + xs.length } }

/-- What `read` puts into a buffer of 256 bytes. -/
def Copying.buf (s : Copying ι) : List UInt8 :=
  part (s.files s.fd.file) s.fd.pos 256

/-- `read`, as far as it moves the descriptor. -/
def Copying.advance (s : Copying ι) : Copying ι :=
  { s with fd := { s.fd with pos := s.fd.pos + s.buf.length } }

/-- A turn of the loop. -/
def copyTurn (s : Copying ι) : Except Stop (Turn (Copying ι) (Copying ι)) :=
  let readBytes := s.buf.length
  if 0 < readBytes then .ok (.again (s.advance.write s.buf))
  else .ok (.leave s)

/-- The loop that copies the input file. -/
def copyLoop (fuel : ℕ) (s : Copying ι) : Except Stop (Copying ι) :=
  loop .outOfFuel (fun _ => copyTurn) fuel s

/-- What `main` leaves. -/
structure Result (ι : Type) where
  printed : List String
  returned : ℤ
  files : ι → List UInt8

/-- `main`.  An `open` that fails is none, and so is the answer of a failing
`fstat`; a file that `open` creates is empty.  The output file is not
truncated. -/
def main (fuel : ℕ) (input : Option ι) (fstat : Bool) (output : Option ι)
    (whdr : Wavehdr) (files : ι → List UInt8) : Except Stop (Result ι) :=
  match input with
  | none => .ok ⟨["open failed :-1\n"], -1, files⟩
  | some fd =>
      if fstat then
        let fsize := ((files fd).length : ℤ).bmod (2 ^ 32)
        let size := "File size :" ++ toString fsize ++ "\n"
        match output with
        | none => .ok ⟨[size, "create failed\n"], 0, files⟩
        | some fdout => do
            let s : Copying ι :=
              { files := files, fd := ⟨fd, 0⟩, fdout := ⟨fdout, 0⟩ }
            let s ← copyLoop fuel (s.write (fillHeader fsize whdr).bytes)
            .ok ⟨[size], 0, s.files⟩
      else .ok ⟨["fstat failed\n"], 0, files⟩

end WaveHdr
end MiscCode
