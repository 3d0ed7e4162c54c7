import MiscCode.Support.WhileLoop
import Mathlib.Data.Nat.Notation

/-!
# The option parser of the shell scripts

`getopt` takes its arguments off the front, one option a round, and hands an
assignment to `eval` for each.  The shell is bash, whose substrings and
substitutions the script needs.  A word is a list of characters.

What `eval` runs is a parameter.  It may assign any variable, `IFS` as well,
and need not come back; the positional parameters are left alone.  No file name
matches an unquoted word, and patterns that are more than their own characters
are not followed.
-/

namespace MiscCode
namespace Getopt

open WhileLoop

/-- An argument, or the value of a variable. -/
abbrev Word := List Char

/-- What ends a call early. -/
inductive Stop where
  /-- `exit 1` after this message. -/
  | exit (message : String)
  /-- `eval` does not come back to the loop. -/
  | left
  /-- A pattern that is not followed. -/
  | pattern
  /-- The budget of the loop is used up. -/
  | outOfFuel
  deriving DecidableEq, Repr

/-- The outcome of a call. -/
abbrev Shell (α : Type) := Except Stop α

@[simp] theorem shell_bind {α β : Type} (x : α) (f : α → Shell β) :
    ((.ok x : Shell α) >>= f) = f x := rfl

/-! ## The shell -/

/-- The variables that a round assigns. -/
structure Variables where
  tmp : Word
  parameter : Word
  var : Word
  value : Word

/-- A shell, with the states of type `σ` that it can be in: the value of `IFS`,
and the state in which `eval` of some words comes back, if it does. -/
structure Bash (σ : Type) where
  ifs : σ → List Char
  eval : σ → Variables → (args command : List Word) → Option σ

/-- The characters that `IFS` holds unless it is set, and the white space
among those it may hold. -/
def blanks : List Char := [' ', '\t', '\n']

/-- Where the splitting of a word is: in front of a field, inside one, or behind
one that white space has ended. -/
inductive Place where
  | between
  | inside (field : Word)
  | behind

/-- The field that has been begun. -/
def Place.field : Place → Word
  | .inside field => field
  | _ => []

/-- The fields of what is left of a word. -/
def fieldsFrom (ifs : List Char) : Place → Word → List Word
  | .inside field, [] => [field]
  | _, [] => []
  | place, c :: w =>
      if c ∉ ifs then fieldsFrom ifs (.inside (place.field ++ [c])) w
      else if c ∈ blanks then
        match place with
        | .inside field => field :: fieldsFrom ifs .behind w
        | place => fieldsFrom ifs place w
      else
        match place with
        | .between => [] :: fieldsFrom ifs .between w
        | .inside field => field :: fieldsFrom ifs .between w
        | .behind => fieldsFrom ifs .between w

/-- The fields that an unquoted word is split into. -/
def fields (ifs : List Char) (w : Word) : List Word :=
  fieldsFrom ifs .between w

/-- The characters that make a word a pattern. -/
def globChars : List Char := ['*', '?', '[', '\\']

/-! ## The words of the script -/

/-- `--`. -/
def dashes : Word := ['-', '-']

/-- The test of the first argument, by its unquoted beginning; with none or two
operands in the place of one it fails. -/
def isNoOption (ifs : List Char) (first : Word) : Bool :=
  match fields ifs (first.take 2) with
  | [w] => w ≠ dashes
  | _ => false

/-- `${w#--}`. -/
def removeDashes (w : Word) : Word :=
  if dashes <+: w then w.drop 2 else w

/-- `${w%%=*}`. -/
def beforeEquals (w : Word) : Word :=
  w.takeWhile (· ≠ '=')

/-- The substitution of an underscore for every dash. -/
def underscores (w : Word) : Word :=
  w.map fun c => if c = '-' then '_' else c

/-- `${w##$pattern}`. -/
def removePrefix (w pattern : Word) : Shell Word :=
  if pattern.any (· ∈ globChars) then .error .pattern
  else .ok (if pattern <+: w then w.drop pattern.length else w)

/-- `${w##=}`. -/
def removeEquals (w : Word) : Word :=
  if ['='] <+: w then w.drop 1 else w

/-- `var=value`. -/
def assignment (var value : Word) : Word :=
  var ++ '=' :: value

/-! ## The loop -/

/-- A round of the loop: the arguments it shifts out, and the words it hands to
`eval`. -/
structure Round where
  taken : List Word
  handed : List Word
  deriving DecidableEq, Repr

/-- The shell, the positional parameters, and the rounds so far. -/
structure State (σ : Type) where
  shell : σ
  args : List Word
  rounds : List Round

section Loop

variable {σ : Type}

/-- The end of a round: so many shifts, `eval $var=$value` and another
`shift`.  A `shift` without arguments left does nothing. -/
def State.finish (bash : Bash σ) (s : State σ) (shifts : ℕ) (v : Variables) :
    Shell (State σ) :=
  let command := fields (bash.ifs s.shell) (assignment v.var v.value)
  match bash.eval s.shell v (s.args.drop shifts) command with
  | none => .error .left
  | some shell =>
      .ok
        { shell := shell
          args := s.args.drop (shifts + 1)
          rounds := s.rounds ++ [⟨s.args.take (shifts + 1), command⟩] }

/-- A round of the loop, or its end. -/
def getoptTurn (bash : Bash σ) (s : State σ) :
    Shell (Turn (State σ) (State σ)) := do
  let first := s.args.headD []
  let second := s.args.tail.headD []
  if first = [] then
    .ok (.leave s)
  else if isNoOption (bash.ifs s.shell) first then
    .error (.exit "Error parsing command line args.")
  else
    let tmp := removeDashes first
    let parameter := beforeEquals tmp
    let var := underscores parameter
    let value ← removePrefix tmp parameter
    if value = [] then
      let value := if second = [] then ['1'] else second
      let shifts := if second.take 2 ≠ dashes then 1 else 0
      let s ← s.finish bash shifts ⟨tmp, parameter, var, value⟩
      .ok (.again s)
    else
      let value := removeEquals value
      let s ← s.finish bash 0 ⟨tmp, parameter, var, value⟩
      .ok (.again s)

/-- `getopt` in a shell: the state, the rounds, and the arguments left. -/
def getopt (bash : Bash σ) (shell : σ) (fuel : ℕ) (args : List Word) :
    Shell (State σ) :=
  loop .outOfFuel (fun _ => getoptTurn bash) fuel
    { shell := shell, args := args, rounds := [] }

end Loop

end Getopt
end MiscCode
