import Mathlib.Data.Int.Notation
import Mathlib.Data.Nat.Notation

/-!
# The backspace counter

A thread reads the events of an input device and counts how often the
backspace key goes down or repeats, and a D-Bus service answers with the count.
The results of `read` and the messages of the bus arrive in any order.

The counter is a C `int`.  It wraps, as the test behind its increment expects.
-/

namespace MiscCode
namespace Backspace

/-! ## The detector -/

/-- `struct input_event`, less the time. -/
structure InputEvent where
  type : UInt16
  code : UInt16
  value : Int32
  deriving DecidableEq, Repr

/-- `sizeof ev` on a 64-bit machine. -/
def sizeEvent : ℤ := 24

/-- What a call of `read` leaves: its value, `errno`, and the event. -/
structure ReadResult where
  n : ℤ
  errno : ℤ
  ev : InputEvent
  deriving DecidableEq, Repr

/-- `EINTR`. -/
def eintr : ℤ := 4

/-- `EV_KEY`. -/
def evKey : UInt16 := 1

/-- `KEY_BACKSPACE`. -/
def keyBackspace : UInt16 := 14

/-- The thread: the counter, what has been printed to `stderr`, and whether the
loop still runs. -/
structure Detector where
  counter : Int32
  stderr : List String
  running : Bool
  deriving DecidableEq, Repr

/-- The thread before its first `read`. -/
def Detector.start : Detector where
  counter := 0
  stderr := []
  running := true

/-- What is printed when the counter is zero after its increment. -/
def overflowMessage : String := "[-] Counter overflowed\n"

/-- The test of an event. -/
def InputEvent.Counts (ev : InputEvent) : Prop :=
  ev.type = evKey ∧ ev.value ≥ 1 ∧ ev.value ≤ 2 ∧ ev.code = keyBackspace

instance (ev : InputEvent) : Decidable ev.Counts :=
  inferInstanceAs (Decidable (_ ∧ _))

/-- `counter++` and the test behind it. -/
def Detector.increment (s : Detector) : Detector :=
  let counter := s.counter + 1
  { s with
    counter := counter
    stderr :=
      if counter = 0 then s.stderr ++ [overflowMessage] else s.stderr }

/-- A round of `backspace_detector`; once the loop is left nothing is read. -/
def Detector.receive (s : Detector) (r : ReadResult) : Detector :=
  if s.running then
    if r.n = -1 then
      if r.errno = eintr then s else { s with running := false }
    else if r.n ≠ sizeEvent then { s with running := false }
    else if r.ev.Counts then s.increment
    else s
  else s

/-- `bkd_get_current_count`. -/
def bkdGetCurrentCount (s : Detector) : Int32 := s.counter

/-! ## The service -/

/-- A reply of the service. -/
inductive Reply where
  | introspection
  | int32 (n : Int32)
  deriving DecidableEq, Repr

/-- `return_backspace_count`. -/
def returnBackspaceCount (s : Detector) : Reply :=
  .int32 (bkdGetCurrentCount s)

/-- `BKD_DBUS_INTERFACE_NAME`. -/
def bkdInterface : String := "org.geekpur.vishal.BKD"

/-- `tutorial_messages`; none for `DBUS_HANDLER_RESULT_NOT_YET_HANDLED`. -/
def tutorialMessages (s : Detector) (interface member : String) :
    Option Reply :=
  if interface = "org.freedesktop.DBus.Introspectable" ∧
      member = "Introspect" then
    some .introspection
  else if interface = bkdInterface ∧ member = "GetBackspaceCount" then
    some (returnBackspaceCount s)
  else none

/-- What happens next: `read` returns in the thread, or a message of the bus is
handled. -/
inductive Action where
  | read (r : ReadResult)
  | message (interface member : String)
  deriving DecidableEq, Repr

/-- The detector after an action; a message does not change it. -/
def Detector.step (s : Detector) : Action → Detector
  | .read r => s.receive r
  | .message _ _ => s

/-- The detector after a run of actions. -/
def after (actions : List Action) : Detector :=
  actions.foldl Detector.step .start

/-- The reply to a message that arrives after these actions. -/
def replyAfter (actions : List Action) (interface member : String) :
    Option Reply :=
  tutorialMessages (after actions) interface member

end Backspace
end MiscCode
