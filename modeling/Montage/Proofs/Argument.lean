import Montage.Command

/-!
# Reading a command line

The arguments of a command are one flat list of words. The program reads it from the left: a
switch stands alone, and any other option takes the next word as its value.

* `Argument.read`: the arguments that words stand for.
* `Argument.AreOptions`: words that are options with their values, under given names.
* `Argument.read_append`: such words are read alike whatever follows them.
* `Command.read`: the arguments of a finished command, less its output.
-/

namespace Montage

inductive Argument where
  | switch (name : String)
  | option (name value : String)
  deriving DecidableEq

namespace Argument

/-- The names of the arguments that take no value. -/
def switches : List String := ["-hide_banner", "-y", "-an"]

/-- Reads words from the left. A last word that lacks its value stands alone. -/
def read : List String → List Argument
  | [] => []
  | [word] => [switch word]
  | word :: value :: rest =>
    if word ∈ switches then switch word :: read (value :: rest)
    else option word value :: read rest

/-- The value of an argument, if it is an option with the given name. -/
def valueOf? (name : String) : Argument → Option String
  | option n value => if n = name then some value else none
  | switch _ => none

/-- The values of the options with a given name, in order. -/
def values (name : String) (arguments : List Argument) : List String :=
  arguments.filterMap (valueOf? name)

@[simp] theorem values_append (name : String) (xs ys : List Argument) :
    values name (xs ++ ys) = values name xs ++ values name ys := by
  simp [values]

theorem read_switch {word : String} (h : word ∈ switches) (rest : List String) :
    read (word :: rest) = switch word :: read rest := by
  cases rest with
  | nil => rfl
  | cons value rest => rw [read, if_pos h]

theorem read_option {name : String} (h : name ∉ switches) (value : String) (rest : List String) :
    read (name :: value :: rest) = option name value :: read rest := by
  rw [read, if_neg h]

theorem read_eq_nil_iff {words : List String} : read words = [] ↔ words = [] := by
  rcases words with _ | ⟨word, _ | ⟨value, rest⟩⟩
  · simp [read]
  · simp [read]
  · by_cases h : word ∈ switches <;> simp [read, h]

/-! ## Options -/

/-- Words that are options with their values, each name being one of the given names. -/
inductive AreOptions (names : List String) : List String → Prop
  | nil : AreOptions names []
  | cons {name value : String} {rest : List String} :
      name ∈ names → AreOptions names rest → AreOptions names (name :: value :: rest)

namespace AreOptions

variable {names : List String} {xs ys : List String}

theorem pair {name value : String} (h : name ∈ names) : AreOptions names [name, value] :=
  .cons h .nil

theorem append (hx : AreOptions names xs) (hy : AreOptions names ys) :
    AreOptions names (xs ++ ys) := by
  induction hx with
  | nil => exact hy
  | cons hn _ ih => exact .cons hn ih

theorem mono {names' : List String} (hx : AreOptions names xs) (h : names ⊆ names') :
    AreOptions names' xs := by
  induction hx with
  | nil => exact .nil
  | cons hn _ ih => exact .cons (h hn) ih

theorem flatMap {α : Type} {f : α → List String} (h : ∀ a, AreOptions names (f a)) (as : List α) :
    AreOptions names (as.flatMap f) := by
  induction as with
  | nil => exact .nil
  | cons a as ih => rw [List.flatMap_cons]; exact (h a).append ih

/-- Every option that is read of such words has one of the names. -/
theorem mem_read (hx : AreOptions names xs) (hs : ∀ n ∈ names, n ∉ switches) {a : Argument}
    (ha : a ∈ read xs) : ∃ n ∈ names, ∃ v, a = option n v := by
  induction hx with
  | nil => cases ha
  | @cons n v rest hn _ ih =>
    rw [read_option (hs n hn)] at ha
    rcases List.mem_cons.mp ha with rfl | ha
    · exact ⟨n, hn, v, rfl⟩
    · exact ih ha

theorem values_eq_nil (hx : AreOptions names xs) (hs : ∀ n ∈ names, n ∉ switches)
    {name : String} (h : name ∉ names) : values name (read xs) = [] := by
  rw [values, List.filterMap_eq_nil_iff]
  intro a ha
  obtain ⟨n, hn, v, rfl⟩ := hx.mem_read hs ha
  rw [valueOf?, if_neg]
  rintro rfl; exact h hn

theorem switch_notMem (hx : AreOptions names xs) (hs : ∀ n ∈ names, n ∉ switches)
    (name : String) : switch name ∉ read xs := by
  intro h
  obtain ⟨n, -, v, h⟩ := hx.mem_read hs h
  cases h

end AreOptions

theorem read_append {names xs : List String} (hx : AreOptions names xs)
    (hs : ∀ n ∈ names, n ∉ switches) (ys : List String) :
    read (xs ++ ys) = read xs ++ read ys := by
  induction hx with
  | nil => rfl
  | @cons n v rest hn _ ih =>
    rw [List.cons_append, List.cons_append, read_option (hs n hn), read_option (hs n hn), ih]
    rfl

theorem read_flatMap_pair {name : String} (h : name ∉ switches) (xs : List String) :
    read (xs.flatMap fun x => [name, x]) = xs.map (option name) := by
  induction xs with
  | nil => rfl
  | cons x xs ih =>
    rw [List.flatMap_cons, List.cons_append, List.cons_append, List.nil_append, read_option h, ih]
    rfl

theorem values_map_option (name : String) (xs : List String) :
    values name (xs.map (option name)) = xs := by
  induction xs with
  | nil => rfl
  | cons x xs ih =>
    rw [List.map_cons, values, List.filterMap_cons_some (by rw [valueOf?, if_pos rfl])]
    exact congrArg _ ih

end Argument

/-- The arguments of a finished command. Its last word is the output. -/
def Command.read (c : Command) : List Argument := Argument.read c.arguments.dropLast

end Montage
