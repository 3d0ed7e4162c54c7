import MiscCode.Getopt.Model
import Mathlib.Data.List.Infix
import Mathlib.Data.List.TakeWhile

/-!
# Lists of options

An option carries its value behind an equals sign, takes the next argument for
its value, or has none.  `getopt` reads every option as it is meant, but for
one without a value that another option follows, whose variable is set to the
next option, and for one with a separator in its name or value, which `eval` is
handed in pieces.  It reads on for as long as `eval` comes back, and with the
separators that `eval` leaves.
-/

namespace MiscCode
namespace Getopt

open Fuel WhileLoop

/-- The name of an option. -/
structure Name where
  chars : Word
  nonempty : chars ≠ []
  noEquals : '=' ∉ chars
  noGlob : ∀ c ∈ chars, c ∉ globChars

/-- A value that stands as an argument of its own. -/
structure Value where
  chars : Word
  nonempty : chars ≠ []
  noDashes : chars.take 2 ≠ dashes

/-- An option as it is given. -/
inductive Item where
  /-- `--name=value`. -/
  | assigned (name : Name) (value : Word)
  /-- `--name value`. -/
  | separate (name : Name) (value : Value)
  /-- `--name`. -/
  | bare (name : Name)

/-- The arguments of an option. -/
def Item.words : Item → List Word
  | .assigned name value => [dashes ++ name.chars ++ '=' :: value]
  | .separate name value => [dashes ++ name.chars, value.chars]
  | .bare name => [dashes ++ name.chars]

/-- The name of an option. -/
def Item.name : Item → Name
  | .assigned name _ => name
  | .separate name _ => name
  | .bare name => name

/-- The value that is meant. -/
def Item.value : Item → Word
  | .assigned _ value => value
  | .separate _ value => value.chars
  | .bare _ => ['1']

/-- The assignment that is meant. -/
def Item.assignment (item : Item) : Word :=
  Getopt.assignment (underscores item.name.chars) item.value

/-- The round that is meant for an option. -/
def Item.round (item : Item) : Round where
  taken := item.words
  handed := [item.assignment]

/-- The arguments of a list of options. -/
def argv (items : List Item) : List Word :=
  items.flatMap Item.words

/-- An option without a value comes last. -/
def BareLast (items : List Item) : Prop :=
  ∀ pre name post, items = pre ++ .bare name :: post → post = []

/-- Neither the name nor the value is split. -/
def Item.Unbroken (ifs : List Char) (item : Item) : Prop :=
  '=' ∉ ifs ∧ (∀ c ∈ underscores item.name.chars, c ∉ ifs) ∧
    ∀ c ∈ item.value, c ∉ ifs

/-- How many arguments of an option are shifted out before its assignment is
handed to `eval`, with these options behind it. -/
def Item.shifts (items : List Item) : Item → ℕ
  | .assigned _ _ => 0
  | .separate _ _ => 1
  | .bare _ => if items = [] then 1 else 0

/-- The variables of the round in which an option gets a value. -/
def Item.variables (value : Word) (item : Item) : Variables where
  tmp :=
    match item with
    | .assigned name value => name.chars ++ '=' :: value
    | item => item.name.chars
  parameter := item.name.chars
  var := underscores item.name.chars
  value := value

/-- The positional parameters that `eval` finds at an option. -/
def Item.argsAt (items : List Item) (item : Item) : List Word :=
  (item.words ++ argv items).drop (item.shifts items)

/-- Every option without a value comes last, `eval` comes back from each of the
assignments that are meant, and none of them is split by the separators of the
shell that the ones before it have left. -/
def Bash.Follows {σ : Type} (bash : Bash σ) : σ → List Item → Prop
  | _, [] => True
  | s, item :: items =>
      (∀ name, item = .bare name → items = []) ∧
        item.Unbroken (bash.ifs s) ∧
        ∃ s', bash.eval s (item.variables item.value) (item.argsAt items)
            [item.assignment] = some s' ∧ bash.Follows s' items

/-- `eval` assigns what the options say and leaves `IFS` alone. -/
def Bash.OnlyAssigns {σ : Type} (bash : Bash σ) (ifs : List Char)
    (items : List Item) : Prop :=
  ∀ item ∈ items, ∀ s args, bash.ifs s = ifs →
    ∃ s', bash.eval s (item.variables item.value) args [item.assignment] =
      some s' ∧ bash.ifs s' = ifs

/-! ## Words -/

theorem removeDashes_append (w : Word) : removeDashes (dashes ++ w) = w :=
  if_pos (List.prefix_append dashes w)

theorem beforeEquals_name (name : Name) :
    beforeEquals name.chars = name.chars := by
  unfold beforeEquals
  rw [List.takeWhile_eq_self_iff]
  intro c hc
  exact decide_eq_true fun h => name.noEquals (h ▸ hc)

theorem beforeEquals_assigned (name : Name) (value : Word) :
    beforeEquals (name.chars ++ '=' :: value) = name.chars := by
  unfold beforeEquals
  rw [List.takeWhile_append_of_pos]
  · rw [List.takeWhile_cons_of_neg (by decide), List.append_nil]
  · intro c hc
    exact decide_eq_true fun h => name.noEquals (h ▸ hc)

theorem removePrefix_name (name : Name) (w : Word) :
    removePrefix (name.chars ++ w) name.chars = .ok w := by
  have hglob : ¬ name.chars.any (· ∈ globChars) = true := by
    intro h
    obtain ⟨c, hc, hmem⟩ := List.any_eq_true.mp h
    exact name.noGlob c hc (of_decide_eq_true hmem)
  unfold removePrefix
  rw [if_neg hglob, if_pos (List.prefix_append _ _), List.drop_left]

theorem removePrefix_self (name : Name) :
    removePrefix name.chars name.chars = .ok [] := by
  have h := removePrefix_name name []
  rwa [List.append_nil] at h

theorem removeEquals_cons (w : Word) : removeEquals ('=' :: w) = w :=
  if_pos ⟨w, rfl⟩

/-! ## Fields -/

section Fields

variable {ifs : List Char} {w field : Word}

theorem fieldsFrom_cons (ifs : List Char) (place : Place) (c : Char) (w : Word) :
    fieldsFrom ifs place (c :: w) =
      if c ∉ ifs then fieldsFrom ifs (.inside (place.field ++ [c])) w
      else if c ∈ blanks then
        match place with
        | .inside field => field :: fieldsFrom ifs .behind w
        | place => fieldsFrom ifs place w
      else
        match place with
        | .between => [] :: fieldsFrom ifs .between w
        | .inside field => field :: fieldsFrom ifs .between w
        | .behind => fieldsFrom ifs .between w := by
  cases place
  all_goals rfl

theorem fieldsFrom_inside_cons {c : Char} (hc : c ∉ ifs) (field w : Word) :
    fieldsFrom ifs (.inside field) (c :: w) =
      fieldsFrom ifs (.inside (field ++ [c])) w :=
  if_pos hc

/-- Characters that are no separators are added to the field. -/
theorem fieldsFrom_inside_append {u : Word} (hu : ∀ c ∈ u, c ∉ ifs)
    (field w : Word) :
    fieldsFrom ifs (.inside field) (u ++ w) =
      fieldsFrom ifs (.inside (field ++ u)) w := by
  induction u generalizing field with
  | nil => rw [List.nil_append, List.append_nil]
  | cons c u ih =>
      obtain ⟨hc, hu⟩ := List.forall_mem_cons.mp hu
      rw [List.cons_append, fieldsFrom_inside_cons hc, ih hu, List.append_assoc]
      rfl

/-- A field begins at the first character that is no separator. -/
theorem fields_append {u : Word} (hne : u ≠ []) (hu : ∀ c ∈ u, c ∉ ifs)
    (w : Word) : fields ifs (u ++ w) = fieldsFrom ifs (.inside u) w := by
  obtain ⟨c, cs, rfl⟩ := List.exists_cons_of_ne_nil hne
  obtain ⟨hc, hcs⟩ := List.forall_mem_cons.mp hu
  rw [fields, List.cons_append, fieldsFrom_cons, if_pos hc,
    fieldsFrom_inside_append hcs]
  rfl

/-- The field that has begun is the beginning of the first one. -/
theorem fieldsFrom_inside (ifs : List Char) (field w : Word) :
    ∃ rest more, fieldsFrom ifs (.inside field) w = (field ++ rest) :: more := by
  induction w generalizing field with
  | nil => exact ⟨[], [], by rw [List.append_nil, fieldsFrom]⟩
  | cons c w ih =>
      rw [fieldsFrom_cons]
      split
      · obtain ⟨rest, more, hfields⟩ := ih (field ++ [c])
        rw [List.append_assoc] at hfields
        exact ⟨c :: rest, more, hfields⟩
      · split
        · exact ⟨[], _, by rw [List.append_nil]⟩
        · exact ⟨[], _, by rw [List.append_nil]⟩

/-- No field has a separator in it. -/
theorem mem_fieldsFrom {place : Place} (hplace : ∀ c ∈ place.field, c ∉ ifs)
    {f : Word} (hf : f ∈ fieldsFrom ifs place w) : ∀ c ∈ f, c ∉ ifs := by
  induction w generalizing place with
  | nil =>
      cases place with
      | between => cases hf
      | inside field => exact List.mem_singleton.mp hf ▸ hplace
      | behind => cases hf
  | cons c w ih =>
      rw [fieldsFrom_cons] at hf
      split at hf
      · rename_i hc
        refine ih (List.forall_mem_append.mpr ⟨hplace, ?_⟩) hf
        exact List.forall_mem_singleton.mpr hc
      · split at hf
        · cases place with
          | between => exact ih (List.forall_mem_nil _) hf
          | inside field =>
              rcases List.mem_cons.mp hf with rfl | hf
              · exact hplace
              · exact ih (List.forall_mem_nil _) hf
          | behind => exact ih (List.forall_mem_nil _) hf
        · cases place with
          | between =>
              rcases List.mem_cons.mp hf with rfl | hf
              · exact List.forall_mem_nil _
              · exact ih (List.forall_mem_nil _) hf
          | inside field =>
              rcases List.mem_cons.mp hf with rfl | hf
              · exact hplace
              · exact ih (List.forall_mem_nil _) hf
          | behind => exact ih (List.forall_mem_nil _) hf

theorem mem_fields {f : Word} (hf : f ∈ fields ifs w) : ∀ c ∈ f, c ∉ ifs :=
  mem_fieldsFrom (List.forall_mem_nil _) hf

/-- A word is one field exactly when it has no separator in it. -/
theorem fields_eq_self_iff (hw : w ≠ []) :
    fields ifs w = [w] ↔ ∀ c ∈ w, c ∉ ifs := by
  constructor
  · intro h
    exact mem_fields (h ▸ List.mem_singleton_self w)
  · intro h
    have hfields := fields_append hw h []
    rwa [List.append_nil, fieldsFrom] at hfields

/-- The assignment that is meant reaches `eval` in one piece exactly when the
option is unbroken. -/
theorem fields_assignment_iff (item : Item) :
    fields ifs item.assignment = [item.assignment] ↔ item.Unbroken ifs := by
  rw [fields_eq_self_iff (by simp [Item.assignment, Getopt.assignment])]
  unfold Item.assignment Getopt.assignment Item.Unbroken
  rw [List.forall_mem_append, List.forall_mem_cons]
  exact and_left_comm

/-- A value that starts with dashes is not handed over as another one. -/
theorem fields_dashes_ne (var w : Word) :
    fields ifs (assignment var (dashes ++ w)) ≠ [assignment var ['1']] := by
  intro h
  have hchars := mem_fields (h ▸ List.mem_singleton_self (assignment var ['1']))
  have hfront : ∀ c ∈ var ++ ['='], c ∉ ifs := by
    intro c hc
    refine hchars c ?_
    rw [assignment, ← List.singleton_append, ← List.append_assoc]
    exact List.mem_append_left _ hc
  have hsplit : assignment var (dashes ++ w) =
      var ++ ['='] ++ '-' :: ('-' :: w) := by
    rw [assignment, List.append_assoc]
    rfl
  rw [hsplit, fields_append (by simp) hfront, fieldsFrom_cons] at h
  split at h
  · obtain ⟨rest, more, hfields⟩ :=
      fieldsFrom_inside ifs (var ++ ['='] ++ ['-']) ('-' :: w)
    have hfirst := (List.cons.inj (hfields.symm.trans h)).1
    simp [assignment] at hfirst
  · rw [if_neg (by decide)] at h
    have hfirst := (List.cons.inj h).1
    simp [assignment] at hfirst

/-- Two dashes are no reason to stop, however they are split. -/
theorem isNoOption_dashes (w : Word) : isNoOption ifs (dashes ++ w) = false := by
  have htake : (dashes ++ w).take 2 = dashes := rfl
  unfold isNoOption
  rw [htake]
  by_cases hdash : '-' ∈ ifs
  · have hfields : fields ifs dashes = [[], []] := by
      simp [fields, dashes, fieldsFrom, hdash, blanks]
    rw [hfields]
  · have hfields : fields ifs dashes = [dashes] :=
      (fields_eq_self_iff (by decide)).mpr (by simp [dashes, hdash])
    rw [hfields]
    decide

end Fields

/-! ## One round -/

section Runs

variable {σ : Type} {bash : Bash σ}

/-- The value that an option without one gets from the arguments behind it. -/
def bareValue (args : List Word) : Word :=
  if args.headD [] = [] then ['1'] else args.headD []

/-- A round on an argument with the two dashes in front. -/
theorem getoptTurn_option (s : σ) (w : Word) (args : List Word)
    (rounds : List Round) :
    getoptTurn bash ⟨s, (dashes ++ w) :: args, rounds⟩ =
      (removePrefix w (beforeEquals w) >>= fun value =>
        if value = [] then
          State.finish bash ⟨s, (dashes ++ w) :: args, rounds⟩
              (if (args.headD []).take 2 ≠ dashes then 1 else 0)
              ⟨w, beforeEquals w, underscores (beforeEquals w), bareValue args⟩ >>=
            fun s => .ok (.again s)
        else
          State.finish bash ⟨s, (dashes ++ w) :: args, rounds⟩ 0
              ⟨w, beforeEquals w, underscores (beforeEquals w),
                removeEquals value⟩ >>=
            fun s => .ok (.again s)) := by
  have hdashes := removeDashes_append w
  have hoption : isNoOption (bash.ifs s) (dashes ++ w) = false :=
    isNoOption_dashes w
  have hne : dashes ++ w ≠ [] := by simp [dashes]
  simp only [getoptTurn, List.headD_cons, List.tail_cons, if_neg hne, hoption,
    Bool.false_eq_true, if_false, hdashes]
  rfl

/-- The value an option gets with these options behind it. -/
def Item.valueBefore (items : List Item) : Item → Word
  | .bare _ => bareValue (argv items)
  | item => item.value

/-- What an option hands to `eval` with these options behind it. -/
def Item.handedBefore (ifs : List Char) (items : List Item) (item : Item) :
    List Word :=
  fields ifs (Getopt.assignment (underscores item.name.chars)
    (item.valueBefore items))

/-- What is left of a turn on an option. -/
def Item.turn (bash : Bash σ) (s : σ) (items : List Item) (done : List Round)
    (item : Item) : Shell (Turn (State σ) (State σ)) :=
  match bash.eval s (item.variables (item.valueBefore items))
    (item.argsAt items) (item.handedBefore (bash.ifs s) items) with
  | none => .error .left
  | some s' =>
      .ok (.again ⟨s', argv items,
        done ++ [⟨item.words, item.handedBefore (bash.ifs s) items⟩]⟩)

theorem finish_turn (s : State σ) (shifts : ℕ) (v : Variables) :
    (s.finish bash shifts v >>= fun s => .ok (.again s)) =
      match bash.eval s.shell v (s.args.drop shifts)
        (fields (bash.ifs s.shell) (assignment v.var v.value)) with
      | none => (.error .left : Shell (Turn (State σ) (State σ)))
      | some shell =>
          .ok (.again ⟨shell, s.args.drop (shifts + 1), s.rounds ++
            [⟨s.args.take (shifts + 1),
              fields (bash.ifs s.shell) (assignment v.var v.value)⟩]⟩) := by
  cases heval : bash.eval s.shell v (s.args.drop shifts)
    (fields (bash.ifs s.shell) (assignment v.var v.value)) with
  | none =>
      simp only [State.finish, heval]
      rfl
  | some shell =>
      simp only [State.finish, heval]
      rfl

/-- A round takes one option. -/
theorem getoptTurn_item (bash : Bash σ) (s : σ) (item : Item) (items : List Item)
    (done : List Round) :
    getoptTurn bash ⟨s, item.words ++ argv items, done⟩ =
      item.turn bash s items done := by
  cases item with
  | assigned name value =>
      change getoptTurn bash
        ⟨s, (dashes ++ name.chars ++ '=' :: value) :: argv items, done⟩ = _
      rw [List.append_assoc, getoptTurn_option, beforeEquals_assigned,
        removePrefix_name, shell_bind, if_neg (List.cons_ne_nil _ _),
        removeEquals_cons, ← List.append_assoc, finish_turn]
      rfl
  | separate name value =>
      change getoptTurn bash
        ⟨s, (dashes ++ name.chars) :: value.chars :: argv items, done⟩ = _
      have hvalue : bareValue (value.chars :: argv items) = value.chars :=
        if_neg value.nonempty
      rw [getoptTurn_option, beforeEquals_name, removePrefix_self, shell_bind,
        if_pos rfl, List.headD_cons, if_pos value.noDashes, hvalue, finish_turn]
      rfl
  | bare name =>
      change getoptTurn bash ⟨s, (dashes ++ name.chars) :: argv items, done⟩ = _
      rw [getoptTurn_option, beforeEquals_name, removePrefix_self, shell_bind,
        if_pos rfl, finish_turn]
      cases items with
      | nil => rfl
      | cons item items => cases item <;> rfl

/-- The state behind the rounds of `getopt` on a list of options, and the
rounds; none when `eval` does not come back. -/
def Bash.reads (bash : Bash σ) : σ → List Item → Option (σ × List Round)
  | s, [] => some (s, [])
  | s, item :: items => do
      let handed := item.handedBefore (bash.ifs s) items
      let s' ← bash.eval s (item.variables (item.valueBefore items))
        (item.argsAt items) handed
      let (last, rounds) ← bash.reads s' items
      some (last, ⟨item.words, handed⟩ :: rounds)

theorem reads_cons_eq_some_iff {s last : σ} {item : Item} {items : List Item}
    {rounds : List Round} :
    bash.reads s (item :: items) = some (last, rounds) ↔
      ∃ s' rest, bash.eval s (item.variables (item.valueBefore items))
          (item.argsAt items) (item.handedBefore (bash.ifs s) items) = some s' ∧
        bash.reads s' items = some (last, rest) ∧
        rounds = ⟨item.words, item.handedBefore (bash.ifs s) items⟩ :: rest := by
  simp only [Bash.reads, Option.bind_eq_bind, Option.bind_eq_some_iff,
    Option.some.injEq, Prod.exists, Prod.mk.injEq]
  constructor
  · rintro ⟨s', heval, _, rest, hreads, rfl, rfl⟩
    exact ⟨s', rest, heval, hreads, rfl⟩
  · rintro ⟨s', rest, heval, hreads, rfl⟩
    exact ⟨s', heval, last, rest, hreads, rfl, rfl⟩

theorem steady_getopt (bash : Bash σ) (s : σ) (args : List Word) :
    Steady .outOfFuel fun fuel => getopt bash s fuel args :=
  steady_loop (steady_const (getoptTurn bash)) _

/-- What the loop ends with. -/
def ending (done : List Round) : Option (σ × List Round) → Shell (State σ)
  | none => .error .left
  | some (last, rounds) => .ok ⟨last, [], done ++ rounds⟩

/-- The loop takes one option a round, for as long as `eval` comes back. -/
theorem loop_reads (s : σ) (items : List Item) (done : List Round) :
    EndsIn .outOfFuel
      (fun fuel => loop .outOfFuel (fun _ => getoptTurn bash) fuel
        ⟨s, argv items, done⟩) (ending done (bash.reads s items)) := by
  induction items generalizing s done with
  | nil =>
      have hleave : getoptTurn bash ⟨s, argv [], done⟩ =
          .ok (.leave ⟨s, [], done⟩) := rfl
      rw [Bash.reads, ending, List.append_nil]
      exact endsIn_of_leave hleave
  | cons item items ih =>
      have hturn := getoptTurn_item bash s item items done
      rw [Item.turn] at hturn
      cases heval : bash.eval s (item.variables (item.valueBefore items))
        (item.argsAt items) (item.handedBefore (bash.ifs s) items) with
      | none =>
          rw [heval] at hturn
          have hreads : bash.reads s (item :: items) = none := by
            rw [Bash.reads, heval]
            rfl
          rw [hreads]
          exact .of_error (n := 1) (loop_error hturn) (by decide)
      | some s' =>
          rw [heval] at hturn
          have hrest := ih s'
            (done ++ [⟨item.words, item.handedBefore (bash.ifs s) items⟩])
          refine (endsIn_of_again hturn).mpr ?_
          cases hreads' : bash.reads s' items with
          | none =>
              have hreads : bash.reads s (item :: items) = none := by
                rw [Bash.reads, heval, Option.bind_eq_bind, Option.bind_some,
                  hreads']
                rfl
              rw [hreads]
              rw [hreads'] at hrest
              exact hrest
          | some read =>
              have hreads := reads_cons_eq_some_iff.mpr
                ⟨s', read.2, heval, hreads', rfl⟩
              rw [hreads]
              rw [hreads', ending, List.append_assoc] at hrest
              exact hrest

theorem getopt_ends (bash : Bash σ) (s : σ) (items : List Item) :
    EndsIn .outOfFuel (fun fuel => getopt bash s fuel (argv items))
      (ending [] (bash.reads s items)) :=
  loop_reads s items []

/-- Every argument is taken in one round. -/
theorem reads_taken {s last : σ} {items : List Item} {rounds : List Round}
    (h : bash.reads s items = some (last, rounds)) :
    rounds.flatMap Round.taken = argv items := by
  induction items generalizing s rounds with
  | nil =>
      obtain ⟨-, rfl⟩ := Prod.mk.inj (Option.some.inj h)
      rfl
  | cons item items ih =>
      obtain ⟨s', rest, -, hreads, rfl⟩ := reads_cons_eq_some_iff.mp h
      rw [List.flatMap_cons, ih hreads]
      rfl

/-! ## The rounds that are meant -/

theorem words_eq (item : Item) :
    ∃ w ws, item.words = (dashes ++ w) :: ws := by
  cases item with
  | assigned name value => exact ⟨_, _, congrArg (· :: [])
      (List.append_assoc dashes name.chars ('=' :: value))⟩
  | separate name value => exact ⟨_, _, rfl⟩
  | bare name => exact ⟨_, _, rfl⟩

/-- An option in front of another one gets the other for its value. -/
theorem bareValue_cons (item : Item) (items : List Item) :
    ∃ w, bareValue (argv (item :: items)) = dashes ++ w := by
  obtain ⟨w, ws, hwords⟩ := words_eq item
  have hargv : argv (item :: items) = (dashes ++ w) :: (ws ++ argv items) := by
    change item.words ++ argv items = _
    rw [hwords]
    rfl
  exact ⟨w, congrArg bareValue hargv⟩

theorem bareLast_nil : BareLast [] := by
  intro pre name post h
  exact absurd h.symm (by simp)

theorem bareLast_cons {item : Item} {items : List Item} :
    BareLast (item :: items) ↔
      ((∀ name, item = .bare name → items = []) ∧ BareLast items) := by
  constructor
  · intro h
    constructor
    · rintro name rfl
      exact h [] name items rfl
    · rintro pre name post rfl
      exact h (item :: pre) name post rfl
  · rintro ⟨hfirst, hrest⟩ pre name post h
    cases pre with
    | nil =>
        obtain ⟨rfl, rfl⟩ := List.cons.inj h
        exact hfirst name rfl
    | cons item' pre =>
        obtain ⟨-, rfl⟩ := List.cons.inj h
        exact hrest pre name post rfl

/-- An option gets the value that is meant, unless it has none and another
option follows. -/
theorem valueBefore_eq {item : Item} {items : List Item}
    (h : ∀ name, item = .bare name → items = []) :
    item.valueBefore items = item.value := by
  cases item with
  | assigned name value => rfl
  | separate name value => rfl
  | bare name =>
      obtain rfl := h name rfl
      rfl

/-- What is meant is handed to `eval` for an option that is unbroken, unless it
has no value and another option follows. -/
theorem handedBefore_eq_iff (ifs : List Char) (item : Item)
    (items : List Item) :
    item.handedBefore ifs items = [item.assignment] ↔
      (∀ name, item = .bare name → items = []) ∧ item.Unbroken ifs := by
  by_cases hvalue : ∀ name, item = .bare name → items = []
  · rw [and_iff_right hvalue, Item.handedBefore, valueBefore_eq hvalue]
    exact fields_assignment_iff item
  · refine iff_of_false ?_ fun h => hvalue h.1
    push Not at hvalue
    obtain ⟨name, rfl, hne⟩ := hvalue
    obtain ⟨next, rest, rfl⟩ := List.exists_cons_of_ne_nil hne
    obtain ⟨w, hw⟩ := bareValue_cons next rest
    change fields ifs (assignment _ (bareValue (argv (next :: rest)))) ≠ _
    rw [hw]
    exact fields_dashes_ne _ w

/-- The rounds are those that are meant exactly when the shell follows them. -/
theorem reads_eq_iff (s : σ) (items : List Item) :
    (∃ last, bash.reads s items = some (last, items.map Item.round)) ↔
      bash.Follows s items := by
  induction items generalizing s with
  | nil => exact iff_of_true ⟨s, rfl⟩ trivial
  | cons item items ih =>
      rw [Bash.Follows, ← and_assoc, ← handedBefore_eq_iff]
      constructor
      · rintro ⟨last, h⟩
        obtain ⟨s', rest, heval, hreads, hrounds⟩ := reads_cons_eq_some_iff.mp h
        obtain ⟨hround, rfl⟩ := List.cons.inj hrounds
        have hhanded : item.handedBefore (bash.ifs s) items = [item.assignment] :=
          (congrArg Round.handed hround).symm
        have hvalue := ((handedBefore_eq_iff _ item items).mp hhanded).1
        rw [hhanded, valueBefore_eq hvalue] at heval
        exact ⟨hhanded, s', heval, (ih s').mp ⟨last, hreads⟩⟩
      · rintro ⟨hhanded, s', heval, hfollows⟩
        obtain ⟨last, hreads⟩ := (ih s').mpr hfollows
        have hvalue := ((handedBefore_eq_iff _ item items).mp hhanded).1
        rw [← hhanded, ← valueBefore_eq hvalue] at heval
        refine ⟨last, reads_cons_eq_some_iff.mpr ⟨s', _, heval, hreads, ?_⟩⟩
        rw [hhanded]
        rfl

/-- Where `eval` only assigns, what counts is the order and the separators. -/
theorem follows_iff {ifs : List Char} {s : σ} {items : List Item}
    (hassigns : bash.OnlyAssigns ifs items) (hifs : bash.ifs s = ifs) :
    bash.Follows s items ↔
      BareLast items ∧ ∀ item ∈ items, item.Unbroken ifs := by
  induction items generalizing s with
  | nil => exact iff_of_true trivial ⟨bareLast_nil, nofun⟩
  | cons item items ih =>
      obtain ⟨hitem, hitems⟩ := List.forall_mem_cons.mp hassigns
      obtain ⟨s', heval, hifs'⟩ := hitem s (item.argsAt items) hifs
      rw [Bash.Follows, bareLast_cons, List.forall_mem_cons, hifs,
        and_and_and_comm, ← ih hitems hifs', heval, and_assoc]
      simp only [Option.some.injEq, exists_eq_left']

end Runs

/-- A shell that follows plain assignments of letters, digits and dashes to
variables, as far as `getopt` is concerned. -/
def plainBash : Bash (List (Word × Word)) where
  ifs s := (s.lookup ['I', 'F', 'S']).getD blanks
  eval s _ _ command :=
    match command with
    | [w] =>
        let name := beforeEquals w
        let value := (w.drop name.length).drop 1
        if name.all Char.isAlpha && value.all (fun c => c.isAlphanum || c = '-')
        then some ((name, value) :: s)
        else none
    | _ => none

end Getopt
end MiscCode
