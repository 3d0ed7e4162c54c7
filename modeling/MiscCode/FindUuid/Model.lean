import MiscCode.Support.FirstOccurrence
import Mathlib.Data.Nat.Notation

/-!
# The search for a device's identifier

`find_uuid` looks for the key `deviceId` with its closing quote and the colon
right behind it, goes on to the colon and copies 36 characters from there, or
from behind the quote that opens the value.

A C string is the list of its characters up to the NUL, which is none of them.
A character stands for a byte.
-/

namespace MiscCode
namespace FindUuid

open FirstOccurrence

/-- A C string. -/
abbrev Str := List Char

/-- `deviceId`. -/
def deviceId : Str := ['d', 'e', 'v', 'i', 'c', 'e', 'I', 'd']

/-- The second argument of `strstr`. -/
def needle : Str := deviceId ++ ['"', ':']

/-- What stands in `uuid` after the body of the loop from its second test on,
at the character `c` with `cs` behind it.  The 37th element of the buffer is
never written and stays zero. -/
def copyUuid (c : Char) (cs : Str) : Str :=
  if c = ':' ∧ cs.head? = some '"' then (cs.drop 1).take 36
  else (c :: cs).take 36

/-- The loop, where `uuid` stands in the buffer before.  The turn that sets
`uuid_starts` is the last one. -/
def scan (uuid : Str) (uuidStarts : Bool) : Str → Str
  | [] => uuid
  | c :: cs =>
      if c ≠ ':' ∧ ¬ uuidStarts = true then scan uuid uuidStarts cs
      else copyUuid c cs

/-- What `find_uuid` prints and returns. -/
structure Answer where
  printed : String
  returned : Option Str
  deriving DecidableEq, Repr

/-- `find_uuid`; none is the null pointer. -/
def findUuid (uuid : Str) (json : Option Str) : Answer :=
  match json with
  | none => { printed := "", returned := none }
  | some json =>
      match search needle json with
      | none =>
          { printed := "deviceID in not found in JSON\n", returned := none }
      | some devid =>
          { printed := "", returned := some (scan uuid false devid) }

end FindUuid
end MiscCode
