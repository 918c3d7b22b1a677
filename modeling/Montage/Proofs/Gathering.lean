import Mathlib.Data.List.Induction
import Montage.CommandLine.Reading
import Montage.Proofs.Check

/-!
# What a command line gives

Each flag takes part in the options through the values that it was given, and through nothing else.
So a command line is read twice here: group by group, as the program does, and flag by flag, from
the values of each flag.

* `Cuts`: the groups of a command line, said without an algorithm.
* `Given`: the values of each flag, the switches that are set, and the positionals.
* `Given.gathered`: the options of a command line, flag by flag. A flag that is given more than once
  has its last value.

Results:
* `cuts_iff`: there is one way to cut a command line into groups.
* `parse_eq_ok_iff`: a command line can be read just if its groups can, and gives the options that
  its flags give.
* `parse_eq_ok_iff_of_rearranged`: the order of different flags does not matter.
-/

namespace Montage.CommandLine

/-! ## Groups -/

/-- The arguments are cut into the groups. A flag may lack its value at the end alone. -/
inductive Cuts : List String → List Group → Prop
  | nil : Cuts [] []
  | positional {text : String} {rest : List String} {gs : List Group}
      (plain : Group.isFlag text = false) (after : Cuts rest gs) :
      Cuts (text :: rest) (.positional text :: gs)
  | switch {s : Switch} {rest : List String} {gs : List Group} (after : Cuts rest gs) :
      Cuts (s.name :: rest) (.switch s :: gs)
  | option {name value : String} {rest : List String} {gs : List Group}
      (flag : Group.isFlag name = true) (valued : Switch.ofName? name = none)
      (after : Cuts rest gs) : Cuts (name :: value :: rest) (.option name value :: gs)
  | dangling {name : String} (flag : Group.isFlag name = true)
      (valued : Switch.ofName? name = none) : Cuts [name] [.dangling name]

theorem Switch.ofName?_name (s : Switch) : ofName? s.name = some s := by
  cases s <;> decide

theorem Switch.isFlag_name (s : Switch) : Group.isFlag s.name = true := by
  cases s <;> decide

theorem Switch.name_of_ofName? {name : String} {s : Switch} (h : ofName? name = some s) :
    s.name = name := by
  have hname := List.find?_some h
  simpa using hname

namespace Group

variable {argument : String} (rest : List String)

theorem cut_positional (h : isFlag argument = false) :
    cut (argument :: rest) = .positional argument :: cut rest := by
  cases rest with
  | nil => simp [cut, ofLast, h]
  | cons value rest => simp [cut, h]

theorem cut_switch (s : Switch) : cut (s.name :: rest) = .switch s :: cut rest := by
  cases rest with
  | nil => simp [cut, ofLast, s.isFlag_name, s.ofName?_name]
  | cons value rest => simp [cut, s.isFlag_name, s.ofName?_name]

theorem cut_option (value : String) (h : isFlag argument = true)
    (hs : Switch.ofName? argument = none) :
    cut (argument :: value :: rest) = .option argument value :: cut rest := by
  simp [cut, h, hs]

theorem cut_dangling (h : isFlag argument = true) (hs : Switch.ofName? argument = none) :
    cut [argument] = [.dangling argument] := by
  simp [cut, ofLast, h, hs]

end Group

theorem Cuts.eq_cut {arguments : List String} {gs : List Group} (h : Cuts arguments gs) :
    gs = Group.cut arguments := by
  induction h with
  | nil => rfl
  | positional plain _ ih => rw [Group.cut_positional _ plain, ih]
  | switch _ ih => rw [Group.cut_switch, ih]
  | option flag valued _ ih => rw [Group.cut_option _ _ flag valued, ih]
  | dangling flag valued => rw [Group.cut_dangling flag valued]

theorem cuts_cut (arguments : List String) : Cuts arguments (Group.cut arguments) := by
  fun_induction Group.cut arguments with
  | case1 => exact .nil
  | case2 last =>
    unfold Group.ofLast
    cases hflag : Group.isFlag last with
    | false => exact .positional hflag .nil
    | true =>
      rcases hs : Switch.ofName? last with _ | s
      · exact .dangling hflag hs
      · rw [← Switch.name_of_ofName? hs]
        exact .switch .nil
  | case3 argument value rest hflag s hs ih =>
    rw [← Switch.name_of_ofName? hs]
    exact .switch ih
  | case4 argument value rest hflag hs ih => exact .option hflag hs ih
  | case5 argument value rest hflag ih => exact .positional (by simpa using hflag) ih

/-- There is one way to cut a command line. -/
theorem cuts_iff {arguments : List String} {gs : List Group} :
    Cuts arguments gs ↔ gs = Group.cut arguments := by
  constructor
  · exact Cuts.eq_cut
  · rintro rfl; exact cuts_cut arguments

instance (arguments : List String) (gs : List Group) : Decidable (Cuts arguments gs) :=
  decidable_of_iff _ cuts_iff.symm

/-! ## Values -/

namespace Group

/-- The name that a group goes by; positionals have none. -/
def key : Group → Option String
  | positional _ => none
  | switch s => some s.name
  | option name _ => some name
  | dangling name => some name

/-- The value that a group gives a flag. -/
def valueFor? (flag : Flag) : Group → Option String
  | option name value => if name = flag.name then some value else none
  | _ => none

def positional? : Group → Option String
  | positional text => some text
  | _ => none

end Group

/-- What a command line gives: values in their order for each flag, switches, and positionals. -/
structure Given where
  values : Flag → List String
  switched : Switch → Bool
  positionals : List String

namespace Given

def ofGroups (gs : List Group) : Given where
  values flag := gs.filterMap (Group.valueFor? flag)
  switched s := gs.contains (.switch s)
  positionals := gs.filterMap Group.positional?

/-- One value more for a flag. -/
def give (g : Given) (flag : Flag) (value : String) : Given :=
  { g with values := fun f => g.values f ++ if f = flag then [value] else [] }

/-- One switch more. -/
def turnOn (g : Given) (s : Switch) : Given :=
  { g with switched := fun s' => g.switched s' || s' = s }

/-- The value that counts for a flag. -/
def last (g : Given) (flag : Flag) : Option String := (g.values flag).getLast?

/-- Whether one of the flags was given. -/
def mentions (g : Given) (flags : List Flag) : Bool := flags.any fun flag => (g.last flag).isSome

def number (g : Given) (flag : Flag) : Option Binary64 := (g.last flag).bind Number.ofWord?

def integer (g : Given) (flag : Flag) : Option Int := (g.last flag).bind Integer.ofWord?

def anchor (g : Given) (flag : Flag) : Option Anchor :=
  (g.last flag).bind fun name => (Anchor.ofName name).toOption

def trim (g : Given) : Trim where
  start := (g.last .start).map .clock
  stop := (g.last .stop).map .clock
  duration := (g.last .duration).map .clock

def color (g : Given) : ColorAdjustment where
  brightness := g.number .brightness
  contrast := g.number .contrast
  saturation := g.number .saturation

/-- A caption with what its flags say; what they leave open is as in an empty one. -/
def captionLook (g : Given) : Caption where
  text := (g.last .text).getD ""
  place := { anchor := g.anchor .textPosition }
  fontSize := g.integer .fontSize
  fontColor := g.last .fontColor

/-- A caption is there as soon as one of its flags is. -/
def caption (g : Given) : Option Caption :=
  if g.mentions [.text, .textPosition, .fontSize, .fontColor] then some g.captionLook else none

def overlayLook (g : Given) : Overlay where
  source := (g.last .overlay).getD ""
  place := { anchor := g.anchor .overlayPosition }
  opacity := g.number .opacity

def overlay (g : Given) : Option Overlay :=
  if g.mentions [.overlay, .overlayPosition, .opacity] then some g.overlayLook else none

def encoding (g : Given) : Encoding where
  codec := g.last .codec
  bitrate := g.last .bitrate
  quality := g.integer .crf
  preset := g.last .preset

def concat (g : Given) : ConcatRequest where
  inputs := g.values .concat
  strategy := g.last .concatStrategy
  videoOnly := g.switched .videoOnly

/-- What is gathered from a command line that gives this. -/
def gathered (g : Given) : Gathered where
  options :=
    { trim := g.trim
      crop := (g.last .crop).bind fun value => (parseCrop value).toOption
      rotate := g.number .rotate
      speed := g.number .speed
      color := g.color
      caption := g.caption
      overlay := g.overlay
      encoding := g.encoding
      concat := g.concat
      dryRun := g.switched .dryRun
      help := g.switched .help }
  positionals := g.positionals
  size := g.last .resize
  keepsAspect := (g.integer .keepAspect).all (· ≠ 0)

end Given

/-- Whether a flag can read a value. -/
def Flag.accepts (value : String) : Flag → Bool
  | keepAspect | fontSize | crf => (Integer.ofWord? value).isSome
  | rotate | speed | brightness | contrast | saturation | opacity =>
    (Number.ofWord? value).isSome
  | crop => (parseCrop value).isOk
  | textPosition | overlayPosition => (Anchor.ofName value).isOk
  | start | stop | duration | resize | text | fontColor | overlay | codec | bitrate | preset
  | concat | concatStrategy => true

/-- Whether a group can be read: its flag is known and accepts the value. -/
def Group.isReadable : Group → Bool
  | positional _ | switch _ => true
  | option name value => (Flag.ofName? name).any (Flag.accepts value)
  | dangling _ => false

/-! ## One group more -/

theorem Flag.name_of_ofName? {name : String} {flag : Flag} (h : ofName? name = some flag) :
    flag.name = name := by
  have hname := List.find?_some h
  simpa using hname

theorem Flag.ofName?_name (flag : Flag) : ofName? flag.name = some flag := by
  cases flag <;> decide

theorem Flag.name_inj {flag flag' : Flag} : flag.name = flag'.name ↔ flag = flag' := by
  constructor
  · intro h
    have hsome := congrArg ofName? h
    rw [ofName?_name, ofName?_name] at hsome
    exact Option.some.inj hsome
  · rintro rfl; rfl

namespace Given

variable (gs : List Group)

theorem ofGroups_positional (text : String) :
    ofGroups (gs ++ [.positional text]) =
      { ofGroups gs with positionals := (ofGroups gs).positionals ++ [text] } := by
  simp [ofGroups, List.filterMap_cons, Group.valueFor?, Group.positional?]

theorem ofGroups_switch (s : Switch) :
    ofGroups (gs ++ [.switch s]) = (ofGroups gs).turnOn s := by
  simp [ofGroups, turnOn, List.filterMap_cons, Group.valueFor?, Group.positional?, Bool.decide_or]

theorem ofGroups_option (flag : Flag) (value : String) :
    ofGroups (gs ++ [.option flag.name value]) = (ofGroups gs).give flag value := by
  have hvalues (f : Flag) : Group.valueFor? f (.option flag.name value) =
      if f = flag then some value else none := by
    simp [Group.valueFor?, Flag.name_inj, eq_comm]
  have hgives (f : Flag) : [Group.option flag.name value].filterMap (Group.valueFor? f) =
      if f = flag then [value] else [] := by
    rw [List.filterMap_cons, hvalues]
    by_cases h : f = flag <;> simp [h]
  simp [ofGroups, give, hgives, Group.positional?]

variable (g : Given) (flag f : Flag) (value : String)

@[simp] theorem values_give :
    (g.give flag value).values f = g.values f ++ if f = flag then [value] else [] := rfl

@[simp] theorem switched_give (s : Switch) :
    (g.give flag value).switched s = g.switched s := rfl

@[simp] theorem positionals_give : (g.give flag value).positionals = g.positionals := rfl

@[simp] theorem last_give :
    (g.give flag value).last f = if f = flag then some value else g.last f := by
  by_cases h : f = flag <;> simp [last, h]

@[simp] theorem number_give :
    (g.give flag value).number f = if f = flag then Number.ofWord? value else g.number f := by
  by_cases h : f = flag <;> simp [number, h]

@[simp] theorem integer_give :
    (g.give flag value).integer f = if f = flag then Integer.ofWord? value else g.integer f := by
  by_cases h : f = flag <;> simp [integer, h]

@[simp] theorem anchor_give :
    (g.give flag value).anchor f =
      if f = flag then (Anchor.ofName value).toOption else g.anchor f := by
  by_cases h : f = flag <;> simp [anchor, h]

@[simp] theorem switched_turnOn (s s' : Switch) :
    (g.turnOn s).switched s' = (g.switched s' || s' = s) := rfl

@[simp] theorem values_turnOn (s : Switch) : (g.turnOn s).values f = g.values f := rfl

@[simp] theorem positionals_turnOn (s : Switch) : (g.turnOn s).positionals = g.positionals := rfl

@[simp] theorem last_turnOn (s : Switch) : (g.turnOn s).last f = g.last f := rfl

@[simp] theorem number_turnOn (s : Switch) : (g.turnOn s).number f = g.number f := rfl

@[simp] theorem integer_turnOn (s : Switch) : (g.turnOn s).integer f = g.integer f := rfl

@[simp] theorem anchor_turnOn (s : Switch) : (g.turnOn s).anchor f = g.anchor f := rfl

end Given

/-! ## Reading one group more -/

theorem parseNumber_of_isSome {value : String} (h : (Number.ofWord? value).isSome = true) :
    ∃ n, Number.ofWord? value = some n ∧ ∀ flag, parseNumber flag value = .ok n := by
  obtain ⟨n, hn⟩ := Option.isSome_iff_exists.mp h
  exact ⟨n, hn, fun flag => by rw [parseNumber, hn]⟩

theorem parseInteger_of_isSome {value : String} (h : (Integer.ofWord? value).isSome = true) :
    ∃ n, Integer.ofWord? value = some n ∧ ∀ flag, parseInteger flag value = .ok n := by
  obtain ⟨n, hn⟩ := Option.isSome_iff_exists.mp h
  exact ⟨n, hn, fun flag => by rw [parseInteger, hn]⟩

theorem parseNumber_error {value : String} (h : (Number.ofWord? value).isSome = false)
    (flag : String) : ∃ e, parseNumber flag value = .error e := by
  have hnone : Number.ofWord? value = none := by simpa using h
  exact ⟨_, by rw [parseNumber, hnone]⟩

theorem parseInteger_error {value : String} (h : (Integer.ofWord? value).isSome = false)
    (flag : String) : ∃ e, parseInteger flag value = .error e := by
  have hnone : Integer.ofWord? value = none := by simpa using h
  exact ⟨_, by rw [parseInteger, hnone]⟩

theorem exists_of_not_isOk {ε α : Type} {x : Except ε α} (h : x.isOk = false) :
    ∃ e, x = .error e := by
  cases x with
  | error e => exact ⟨e, rfl⟩
  | ok a => cases h

theorem exists_bind_error {ε α β : Type} {x : Except ε α} (f : α → Except ε β)
    (h : ∃ e, x = .error e) : ∃ e, (x >>= f) = .error e := by
  obtain ⟨e, rfl⟩ := h
  exact ⟨e, rfl⟩

theorem exists_of_isOk {ε α : Type} {x : Except ε α} (h : x.isOk = true) : ∃ a, x = .ok a := by
  cases x with
  | error e => cases h
  | ok a => exact ⟨a, rfl⟩

namespace Given

theorem mentions_eq_false {g : Given} {flags : List Flag} :
    g.mentions flags = false ↔ ∀ flag ∈ flags, g.last flag = none := by
  simp [mentions]

/-- A caption that is not there yet comes into being with what no flag says. -/
theorem getD_caption (g : Given) : g.caption.getD {} = g.captionLook := by
  cases h : g.mentions [.text, .textPosition, .fontSize, .fontColor] with
  | true => simp [caption, h]
  | false =>
    have hnone := mentions_eq_false.mp h
    simp only [List.forall_mem_cons] at hnone
    obtain ⟨htext, hposition, hsize, hcolor, -⟩ := hnone
    simp [caption, h, captionLook, anchor, integer, htext, hposition, hsize, hcolor]

theorem getD_overlay (g : Given) : g.overlay.getD {} = g.overlayLook := by
  cases h : g.mentions [.overlay, .overlayPosition, .opacity] with
  | true => simp [overlay, h]
  | false =>
    have hnone := mentions_eq_false.mp h
    simp only [List.forall_mem_cons] at hnone
    obtain ⟨hsource, hposition, hopacity, -⟩ := hnone
    simp [overlay, h, overlayLook, anchor, number, hsource, hposition, hopacity]

end Given

namespace Gathered

open Given (ofGroups)

theorem updateCaption_gathered (g : Given) (change : Caption → Caption) :
    g.gathered.updateCaption change =
      g.gathered.update fun o => { o with caption := some (change g.captionLook) } := by
  rw [← g.getD_caption]
  rfl

theorem updateOverlay_gathered (g : Given) (change : Overlay → Overlay) :
    g.gathered.updateOverlay change =
      g.gathered.update fun o => { o with overlay := some (change g.overlayLook) } := by
  rw [← g.getD_overlay]
  rfl

section Flags

open Given

attribute [local simp] gathered trim color caption captionLook overlay overlayLook encoding concat
  mentions update

/-- What a flag adds to the options is one value more for it, and changes no other part. -/
theorem addFlag_gathered (g : Given) {flag : Flag} {value : String}
    (h : flag.accepts value = true) :
    g.gathered.addFlag flag value = .ok (g.give flag value).gathered := by
  cases flag
  case keepAspect | crf =>
    obtain ⟨n, hn, hparse⟩ := parseInteger_of_isSome h
    simp [addFlag, hparse, hn]
  case fontSize =>
    obtain ⟨n, hn, hparse⟩ := parseInteger_of_isSome h
    simp only [addFlag, hparse, ok_bind, updateCaption_gathered]
    simp [hn]
  case rotate | speed | brightness | contrast | saturation =>
    obtain ⟨n, hn, hparse⟩ := parseNumber_of_isSome h
    simp [addFlag, hparse, hn]
  case opacity =>
    obtain ⟨n, hn, hparse⟩ := parseNumber_of_isSome h
    simp only [addFlag, hparse, ok_bind, updateOverlay_gathered]
    simp [hn]
  case crop =>
    obtain ⟨crop, hparse⟩ := exists_of_isOk h
    simp [addFlag, hparse, Except.toOption]
  case textPosition =>
    obtain ⟨anchor, hparse⟩ := exists_of_isOk h
    simp only [addFlag, hparse, ok_bind, updateCaption_gathered]
    simp [hparse, Except.toOption]
  case overlayPosition =>
    obtain ⟨anchor, hparse⟩ := exists_of_isOk h
    simp only [addFlag, hparse, ok_bind, updateOverlay_gathered]
    simp [hparse, Except.toOption]
  case text | fontColor =>
    simp only [addFlag, updateCaption_gathered]
    simp
  case overlay =>
    simp only [addFlag, updateOverlay_gathered]
    simp
  case start | stop | duration | resize | codec | bitrate | preset | concat | concatStrategy =>
    simp [addFlag]

theorem addSwitch_gathered (g : Given) (s : Switch) :
    g.gathered.addSwitch s = (g.turnOn s).gathered := by
  cases s <;> simp [addSwitch]

end Flags

theorem addFlag_error (x : Gathered) {flag : Flag} {value : String}
    (h : flag.accepts value = false) : ∃ e, x.addFlag flag value = .error e := by
  cases flag
  case keepAspect | fontSize | crf => exact exists_bind_error _ (parseInteger_error h _)
  case rotate | speed | brightness | contrast | saturation | opacity =>
    exact exists_bind_error _ (parseNumber_error h _)
  case crop | textPosition | overlayPosition =>
    exact exists_bind_error _ (exists_of_not_isOk h)
  all_goals cases h

/-- A group that can be read goes behind those that were read before. -/
theorem add_gathered (gs : List Group) {g : Group} (h : g.isReadable = true) :
    (ofGroups gs).gathered.add g = .ok (ofGroups (gs ++ [g])).gathered := by
  cases g with
  | positional text => rw [Given.ofGroups_positional]; rfl
  | switch s =>
    rw [Given.ofGroups_switch, ← addSwitch_gathered]
    rfl
  | option name value =>
    rcases hflag : Flag.ofName? name with _ | flag
    · simp [Group.isReadable, hflag] at h
    · simp only [Group.isReadable, hflag, Option.any_some] at h
      rw [← Flag.name_of_ofName? hflag, Given.ofGroups_option]
      simp only [add, Flag.ofName?_name]
      exact addFlag_gathered _ h
  | dangling name => cases h

theorem add_error (x : Gathered) {g : Group} (h : g.isReadable = false) :
    ∃ e, x.add g = .error e := by
  cases g with
  | positional text => cases h
  | switch s => cases h
  | option name value =>
    simp only [add]
    rcases hflag : Flag.ofName? name with _ | flag
    · exact ⟨_, rfl⟩
    · simp only [Group.isReadable, hflag, Option.any_some] at h
      exact addFlag_error x h
  | dangling name => exact ⟨_, rfl⟩

/-- Groups that can all be read give the options that their flags give. -/
theorem foldlM_add (gs : List Group) (x : Gathered) :
    gs.foldlM add {} = .ok x ↔
      (∀ g ∈ gs, g.isReadable = true) ∧ x = (ofGroups gs).gathered := by
  -- From the end of the row, since a group goes behind those that were read.
  induction gs using List.reverseRecOn generalizing x with
  | nil =>
    have hempty : (ofGroups []).gathered = {} := rfl
    rw [hempty]
    constructor
    · rintro ⟨rfl⟩; exact ⟨nofun, rfl⟩
    · rintro ⟨-, rfl⟩; rfl
  | append_singleton gs g ih =>
    rw [List.foldlM_append, bind_eq_ok]
    simp only [ih, List.foldlM_cons, List.foldlM_nil, bind_pure]
    constructor
    · rintro ⟨y, ⟨hall, rfl⟩, hadd⟩
      cases hg : g.isReadable with
      | true =>
        rw [add_gathered gs hg] at hadd
        cases hadd
        exact ⟨List.forall_mem_append.mpr ⟨hall, by simpa using hg⟩, rfl⟩
      | false =>
        obtain ⟨e, herror⟩ := add_error (ofGroups gs).gathered hg
        rw [herror] at hadd
        cases hadd
    · rintro ⟨hall, rfl⟩
      obtain ⟨hgs, hg⟩ := List.forall_mem_append.mp hall
      exact ⟨_, ⟨hgs, rfl⟩, add_gathered gs (hg g List.mem_cons_self)⟩

end Gathered

/-- A command line is read just if all its groups can be read and what they give passes the last
    checks. -/
theorem parse_eq_ok_iff {arguments : List String} {o : Options} :
    parse arguments = .ok o ↔ (∀ g ∈ Group.cut arguments, g.isReadable = true) ∧
      (Given.ofGroups (Group.cut arguments)).gathered.finish = .ok o := by
  simp only [parse, bind_eq_ok, Gathered.foldlM_add]
  constructor
  · rintro ⟨x, ⟨hall, rfl⟩, hfinish⟩; exact ⟨hall, hfinish⟩
  · rintro ⟨hall, hfinish⟩; exact ⟨_, ⟨hall, rfl⟩, hfinish⟩

/-! ## Other orders -/

/-- The same groups in another order, in which those of one flag keep theirs, and so do the
    positionals. -/
structure Rearranged (gs gs' : List Group) : Prop where
  perm : gs.Perm gs'
  order : ∀ key, gs.filter (·.key = key) = gs'.filter (·.key = key)

/-- Only the keys that occur have to be looked at. -/
theorem rearranged_iff {gs gs' : List Group} :
    Rearranged gs gs' ↔ gs.Perm gs' ∧
      ∀ g ∈ gs, gs.filter (·.key = g.key) = gs'.filter (·.key = g.key) := by
  constructor
  · intro h; exact ⟨h.perm, fun g _ => h.order g.key⟩
  · rintro ⟨hperm, horder⟩
    refine ⟨hperm, fun key => ?_⟩
    by_cases hkey : ∃ g ∈ gs, g.key = key
    · obtain ⟨g, hg, rfl⟩ := hkey
      exact horder g hg
    · have hnone : gs.filter (·.key = key) = [] := by
        simpa [List.filter_eq_nil_iff] using hkey
      have hperms := hperm.filter (·.key = key)
      rw [hnone] at hperms ⊢
      exact hperms.nil_eq

instance (gs gs' : List Group) : Decidable (Rearranged gs gs') :=
  decidable_of_iff _ rearranged_iff.symm

theorem filterMap_filter_key {f : Group → Option String} {key : Option String}
    (hf : ∀ g, g.key ≠ key → f g = none) (gs : List Group) :
    (gs.filter (·.key = key)).filterMap f = gs.filterMap f := by
  rw [List.filterMap_filter]
  congr 1
  funext g
  by_cases h : g.key = key
  · simp [h]
  · simp [h, hf g h]

/-- What the flags are given does not depend on the order. -/
theorem Rearranged.ofGroups_eq {gs gs' : List Group} (h : Rearranged gs gs') :
    Given.ofGroups gs = Given.ofGroups gs' := by
  have hsame {f : Group → Option String} (key : Option String)
      (hf : ∀ g, g.key ≠ key → f g = none) : gs.filterMap f = gs'.filterMap f := by
    rw [← filterMap_filter_key hf, h.order key, filterMap_filter_key hf]
  have hvalues (flag : Flag) :
      gs.filterMap (Group.valueFor? flag) = gs'.filterMap (Group.valueFor? flag) := by
    refine hsame (some flag.name) fun g hg => ?_
    cases g with
    | option name value =>
      have hne : name ≠ flag.name := fun hname => hg (congrArg some hname)
      simp [Group.valueFor?, hne]
    | _ => rfl
  have hpositionals : gs.filterMap Group.positional? = gs'.filterMap Group.positional? := by
    refine hsame none fun g hg => ?_
    cases g with
    | positional text => exact absurd rfl hg
    | _ => rfl
  have hswitched (s : Switch) : gs.contains (.switch s) = gs'.contains (.switch s) :=
    h.perm.contains_eq
  simp only [Given.ofGroups, hvalues, hpositionals, hswitched]

/-- **Order of the flags.** If the groups of two command lines are the same but for their order, and
    the groups of one flag and the positionals keep theirs, then one command line can be read if the
    other can, and both give the same options. -/
theorem parse_eq_ok_iff_of_rearranged {arguments arguments' : List String} {gs gs' : List Group}
    (h : Cuts arguments gs) (h' : Cuts arguments' gs') (hr : Rearranged gs gs') (o : Options) :
    parse arguments = .ok o ↔ parse arguments' = .ok o := by
  have hreadable : (∀ g ∈ gs, g.isReadable = true) ↔ ∀ g ∈ gs', g.isReadable = true := by
    constructor
    · intro hall g hg; exact hall g (hr.perm.mem_iff.mpr hg)
    · intro hall g hg; exact hall g (hr.perm.mem_iff.mp hg)
  rw [parse_eq_ok_iff, parse_eq_ok_iff, ← h.eq_cut, ← h'.eq_cut, hreadable, hr.ofGroups_eq]

/-- What belongs to a size, a caption or an overlay may stand before the flag that brings it in. -/
theorem parse_eq_ok_iff_of_details_first :
    let details := ["--keep-aspect", "0", "--text-position", "top", "in.mp4", "--opacity", "0.5"]
    let parts := ["--resize", "64x32", "--text", "--dry-run", "--overlay", "logo.png", "out.mp4"]
    let turned := ["--overlay", "logo.png", "in.mp4", "--text", "--dry-run", "out.mp4",
      "--resize", "64x32", "--opacity", "0.5", "--text-position", "top", "--keep-aspect", "0"]
    ∃ gs gs' o, Cuts (details ++ parts) gs ∧ Cuts turned gs' ∧ Rearranged gs gs' ∧
      parse (details ++ parts) = .ok o ∧ parse turned = .ok o ∧ o.dryRun = false ∧
      (o.resize.map (·.keepsAspect)) = some false := by
  intro details parts turned
  have hcuts := cuts_cut (details ++ parts)
  have hturned := cuts_cut turned
  have hr : Rearranged (Group.cut (details ++ parts)) (Group.cut turned) := by decide +kernel
  have hlook : (parse turned).toOption.map (fun o => (o.dryRun, o.resize.map (·.keepsAspect))) =
      some (false, some false) := by decide +kernel
  obtain ⟨o, hparse⟩ : ∃ o, parse turned = .ok o := exists_of_isOk (by decide +kernel)
  have hsame := (parse_eq_ok_iff_of_rearranged hcuts hturned hr o).mpr hparse
  simp only [hparse, Except.toOption, Option.map_some, Option.some.injEq, Prod.mk.injEq] at hlook
  exact ⟨_, _, o, hcuts, hturned, hr, hsame, hparse, hlook.1, hlook.2⟩

end Montage.CommandLine
