import Mathlib.Data.List.Induction
import Montage.Proofs.Argument
import Montage.Proofs.Effect

/-!
# Edits of a draft

A draft is made by three kinds of edits: an input, the output, and an operation. Calls on a bench
and calls of a session both come down to them, so what holds of every row of edits is proved here
once.

* `Edit.Makes`: the draft that an edit makes of another.
* `Edit.inputs`, `Edit.settings`: the inputs and the options that an edit adds to the command.
* `Edit.Makes.command_eq`: the command after an edit.
* `Edits`: a row of edits.
-/

namespace Montage

/-! ## What an operation adds to the command -/

namespace Operation

/-- The inputs that an operation adds; `list` is the list file that it wrote. -/
def inputs (list : Option String) : Operation → List String
  | overlay o => [o.source]
  | concat c =>
    match c.strategy with
    | .filter => c.inputs
    | .demuxer => list.toList
  | _ => []

/-- The options for the output that an operation adds. -/
def settings : Operation → List String
  | trim t => t.arguments
  | speed s =>
    ["-filter:v", s!"setpts={s.videoParameters}"] ++
      if s.audioFilter.isEmpty then [] else ["-filter:a", s.audioFilter]
  | adjustColor a => ["-filter:v", s!"eq={a.parameters}"]
  | encode e => e.arguments
  | concat c =>
    match c.strategy with
    | .filter => []
    | .demuxer => ["-c", "copy"]
  | resize _ | crop _ | rotate _ | caption _ | overlay _ => []

/-- The options that say that the next input is a list file. -/
def listing : Operation → List String
  | concat c =>
    match c.strategy with
    | .filter => []
    | .demuxer => ["-f", "concat", "-safe", "0"]
  | _ => []

/-- Whether an operation adds inputs. -/
def addsInput : Operation → Bool
  | overlay _ | concat _ => true
  | _ => false

end Operation

/-! ## The files of a concatenation -/

namespace Concatenation

/-- Files that are added as inputs are numbered from the first free number on. -/
theorem addInputs_numbers (paths : List String) (d : Draft) :
    (addInputs paths d).1 = List.range' d.command.inputCount paths.length := by
  induction paths generalizing d with
  | nil => rfl
  | cons path rest ih =>
    rw [List.length_cons, List.range'_succ, addInputs]
    by_cases h : d.command.input.isNone = true
    · simp only [h, if_true, ih]; rfl
    · simp only [h, if_false, ih, Bool.false_eq_true]; rfl

/-- Only the command and the list of extra inputs change. -/
theorem addInputs_draft (paths : List String) (d : Draft) :
    ∃ extra, (addInputs paths d).2 =
      { d with
        command :=
          { d.command with
            arguments := d.command.arguments ++ paths.flatMap fun path => ["-i", path]
            inputCount := d.command.inputCount + paths.length
            input := d.command.input <|> paths.head? }
        extraInputs := extra } := by
  induction paths generalizing d with
  | nil => exact ⟨d.extraInputs, by simp [addInputs]⟩
  | cons path rest ih =>
    rw [addInputs]
    rcases h : d.command.input with _ | primary
    · simp only [Option.isNone_none, if_true]
      obtain ⟨extra, he⟩ := ih (d.withInput path)
      refine ⟨extra, ?_⟩
      simp only [he]
      simp [Draft.withInput, Command.setInput, Command.addInput, Command.append]
      omega
    · simp only [Option.isNone_some, if_false, Bool.false_eq_true]
      obtain ⟨extra, he⟩ := ih (d.addInput path).2
      refine ⟨extra, ?_⟩
      simp only [he]
      simp [Draft.addInput, Command.addInput, Command.append, h]
      omega

theorem joined_command (c : Concatenation) (d : Draft) :
    (c.joined d).command = (addInputs c.inputs d).2.command := by
  unfold joined
  cases c.videoOnly <;> rfl

theorem joined_isBuilt (c : Concatenation) (d : Draft) : (c.joined d).isBuilt = d.isBuilt := by
  obtain ⟨extra, hd⟩ := addInputs_draft c.inputs d
  have hbuilt : (addInputs c.inputs d).2.isBuilt = d.isBuilt := by rw [hd]
  rw [← hbuilt]
  unfold joined
  cases c.videoOnly <;> rfl

end Concatenation

/-! ## Edits -/

/-- A change of a draft. An operation is applied on a host and may have written a list file. -/
inductive Edit where
  | input (path : String)
  | output (path : String) (options : OutputOptions)
  | operation (op : Operation) (host : Host) (list : Option String)

namespace Edit

/-- The edit makes the draft `d'` of `d`. -/
def Makes (d d' : Draft) : Edit → Prop
  | input path => d' = d.withInput path
  | output path options => d' = d.withOutput path options
  | operation op host list => op.check host = .ok () ∧ op.Edits host list d d'

/-- The inputs that an edit adds to the command. -/
def inputs : Edit → List String
  | input path => [path]
  | output .. => []
  | operation op _ list => op.inputs list

/-- The options for the output that an edit adds. -/
def settings : Edit → List String
  | input _ => []
  | output _ options => options.arguments
  | operation op .. => op.settings

/-- The options for the inputs that an edit adds. -/
def listing : Edit → List String
  | operation op .. => op.listing
  | _ => []

/-- The words that an edit adds to the command: its inputs, then its options for the output. -/
def arguments (e : Edit) : List String :=
  e.listing ++ e.inputs.flatMap (fun path => ["-i", path]) ++ e.settings

/-- The primary input after an edit of a command with the given one. -/
def primary (given : Option String) : Edit → Option String
  | input path => some path
  | operation (.concat c) _ list => given <|> ((Operation.concat c).inputs list).head?
  | _ => given

/-- The output after an edit of a command with the given one. -/
def target (given : Option String) : Edit → Option String
  | output path _ => some path
  | _ => given

/-- A command to which nothing is added. -/
theorem command_unchanged (c : Command) :
    c = { c with arguments := c.arguments ++ [], inputCount := c.inputCount + 0 } := by
  simp

/-- The command after an edit, in all its fields. -/
theorem Makes.command_eq {e : Edit} {d d' : Draft} (h : e.Makes d d') :
    d'.command =
      { d.command with
        arguments := d.command.arguments ++ e.arguments
        inputCount := d.command.inputCount + e.inputs.length
        input := e.primary d.command.input
        output := e.target d.command.output } := by
  cases e with
  | input path => cases h; rfl
  | output path options => cases h; rfl
  | operation op host list =>
    obtain ⟨-, h⟩ := h
    cases op with
    | trim t => cases h; rfl
    | resize r => obtain ⟨text, -, rfl⟩ := h; exact command_unchanged d.command
    | crop c => cases h; exact command_unchanged d.command
    | rotate r => cases h; exact command_unchanged d.command
    | speed s =>
      cases h
      have hlisting : (operation (.speed s) host list).listing = [] := rfl
      have hinputs : (operation (.speed s) host list).inputs = [] := rfl
      have hsettings : (operation (.speed s) host list).settings =
          (Operation.speed s).settings := rfl
      simp only [arguments, hlisting, hinputs, hsettings, Operation.settings, Speed.apply]
      by_cases ha : s.audioFilter.isEmpty = true
      · simp only [ha, if_true]; rfl
      · simp only [ha, if_false, Bool.false_eq_true]
        simp [Command.argument, Command.filter, Command.append, primary, target]
        rfl
    | adjustColor a => cases h; rfl
    | caption c => obtain ⟨text, -, rfl⟩ := h; exact command_unchanged d.command
    | overlay o =>
      obtain ⟨text, -, rfl⟩ := h
      exact o.takeSource_command d
    | encode e => cases h; rfl
    | concat c =>
      simp only [Operation.Edits] at h
      rcases hs : c.strategy with _ | _
      · simp only [hs] at h
        obtain ⟨extra, he⟩ := Concatenation.addInputs_draft c.inputs d
        rw [h, c.joined_command, he]
        simp [arguments, listing, Operation.listing, settings, Operation.settings, inputs,
          Operation.inputs, primary, target, hs]
      · simp only [hs] at h
        obtain ⟨hin, path, rfl, rfl⟩ := h
        simp [arguments, listing, Operation.listing, settings, Operation.settings, inputs,
          Operation.inputs, primary, target, hs, hin, Concatenation.listed, Draft.withInput,
          Draft.append, Command.setInput, Command.addInput, Command.append]

/-- Whether an edit adds inputs. -/
def addsInput : Edit → Bool
  | input _ => true
  | output .. => false
  | operation op .. => op.addsInput

/-- The files of a concatenation that was checked are inputs, and so is its list file. -/
theorem Makes.inputs_eq_nil_iff {e : Edit} {d d' : Draft} (h : e.Makes d d') :
    e.inputs = [] ↔ e.addsInput = false := by
  cases e with
  | operation op host list =>
    cases op with
    | concat c =>
      obtain ⟨hc, hedits⟩ := h
      have hne := Concatenation.inputs_ne_nil_of_check hc
      simp only [Operation.Edits] at hedits
      rcases hs : c.strategy with _ | _
      · simp [inputs, Operation.inputs, hs, hne, addsInput, Operation.addsInput]
      · simp only [hs] at hedits
        obtain ⟨-, path, rfl, -⟩ := hedits
        simp [inputs, Operation.inputs, hs, addsInput, Operation.addsInput]
    | _ => simp [inputs, Operation.inputs, addsInput, Operation.addsInput]
  | _ => simp [inputs, addsInput]

theorem Makes.isBuilt_eq {e : Edit} {d d' : Draft} (h : e.Makes d d') :
    d'.isBuilt = d.isBuilt := by
  cases e with
  | input path => cases h; rfl
  | output path options => cases h; rfl
  | operation op host list =>
    obtain ⟨-, h⟩ := h
    cases op with
    | resize r => obtain ⟨text, -, rfl⟩ := h; rfl
    | caption c => obtain ⟨text, -, rfl⟩ := h; rfl
    | overlay o => obtain ⟨text, -, rfl⟩ := h; exact o.takeSource_isBuilt d
    | concat c =>
      simp only [Operation.Edits] at h
      rcases hs : c.strategy with _ | _
      · simp only [hs] at h
        rw [h, Concatenation.joined_isBuilt]
      · simp only [hs] at h
        obtain ⟨-, path, -, rfl⟩ := h; rfl
    | _ => cases h; rfl

/-! ## The words of an edit -/

/-- The names of the options for the output. -/
def settingNames : List String :=
  ["-ss", "-to", "-t", "-filter:v", "-filter:a", "-c:v", "-b:v", "-crf", "-preset", "-f", "-c"]

/-- The names of all options that edits add. -/
def optionNames : List String := "-i" :: "-safe" :: settingNames

open Argument

theorem settings_areOptions (e : Edit) : AreOptions settingNames e.settings := by
  have pair {key : String} (h : key ∈ settingNames) (value : Option String) :
      AreOptions settingNames (OutputOptions.pair key value) := by
    cases value with
    | none => exact .nil
    | some v => exact .pair h
  cases e with
  | input path => exact .nil
  | output path options =>
    exact (((pair (by decide) _).append (pair (by decide) _)).append (pair (by decide) _)).append
      (pair (by decide) _)
  | operation op host list =>
    simp only [settings]
    cases op with
    | trim t =>
      simp only [Operation.settings, Trim.arguments]
      refine .append ?_ ?_
      · cases t.start with
        | none => exact .nil
        | some s => exact .pair (by decide)
      · cases t.stop with
        | some e => exact .pair (by decide)
        | none =>
          cases t.duration with
          | none => exact .nil
          | some d => exact .pair (by decide)
    | speed s =>
      simp only [Operation.settings]
      refine .append (.pair (by decide)) ?_
      by_cases ha : s.audioFilter.isEmpty = true
      · simp only [ha, if_true]; exact .nil
      · simp only [ha, if_false, Bool.false_eq_true]; exact .pair (by decide)
    | adjustColor a => exact .pair (by decide)
    | encode e =>
      exact (((pair (by decide) _).append (pair (by decide) _)).append (pair (by decide) _)).append
        (pair (by decide) _)
    | concat c =>
      simp only [Operation.settings]
      cases c.strategy with
      | filter => exact .nil
      | demuxer => exact .pair (by decide)
    | _ => exact .nil

theorem listing_areOptions (e : Edit) : AreOptions ["-f", "-safe"] e.listing := by
  cases e with
  | input path => exact .nil
  | output path options => exact .nil
  | operation op host list =>
    cases op with
    | concat c =>
      simp only [listing, Operation.listing]
      cases c.strategy with
      | filter => exact .nil
      | demuxer => exact .cons (by decide) (.pair (by decide))
    | _ => exact .nil

theorem inputs_areOptions (paths : List String) :
    AreOptions ["-i"] (paths.flatMap fun path => ["-i", path]) :=
  .flatMap (fun _ => .pair (by decide)) paths

theorem arguments_areOptions (e : Edit) : AreOptions optionNames e.arguments :=
  ((e.listing_areOptions.mono (by decide)).append
    ((inputs_areOptions e.inputs).mono (by decide))).append
    (e.settings_areOptions.mono (by decide))

theorem optionNames_notMem_switches : ∀ n ∈ optionNames, n ∉ switches := by decide

/-- Whatever follows the words of an edit, they are read as its options. -/
theorem read_arguments_append (e : Edit) (rest : List String) :
    read (e.arguments ++ rest) = read e.arguments ++ read rest :=
  read_append e.arguments_areOptions optionNames_notMem_switches rest

/-- The words of an edit are read as its options for a list file, its inputs and its settings. -/
theorem read_arguments (e : Edit) :
    read e.arguments = read e.listing ++ e.inputs.map (option "-i") ++ read e.settings := by
  rw [arguments, List.append_assoc, read_append e.listing_areOptions (by decide),
    read_append (inputs_areOptions e.inputs) (by decide), read_flatMap_pair (by decide),
    List.append_assoc]

/-- The inputs of an edit can be read off its words. -/
theorem values_arguments (e : Edit) : values "-i" (read e.arguments) = e.inputs := by
  rw [e.read_arguments, values_append, values_append, values_map_option,
    e.listing_areOptions.values_eq_nil (by decide) (by decide),
    e.settings_areOptions.values_eq_nil (by decide) (by decide), List.nil_append, List.append_nil]

end Edit

/-! ## Rows of edits -/

/-- The edits, one after the other, make the draft `d'` of `d`. -/
def Edits (d : Draft) : List Edit → Draft → Prop
  | [], d' => d' = d
  | e :: es, d' => ∃ m, e.Makes d m ∧ Edits m es d'

theorem Edits.append_iff {d d' : Draft} {es fs : List Edit} :
    Edits d (es ++ fs) d' ↔ ∃ m, Edits d es m ∧ Edits m fs d' := by
  induction es generalizing d with
  | nil => simp [Edits]
  | cons e es ih =>
    simp only [List.cons_append, Edits, ih]
    constructor
    · rintro ⟨m, hm, m', h, h'⟩; exact ⟨m', ⟨m, hm, h⟩, h'⟩
    · rintro ⟨m', ⟨m, hm, h⟩, h'⟩; exact ⟨m, hm, m', h, h'⟩

theorem Edits.snoc_iff {d d' : Draft} {es : List Edit} {e : Edit} :
    Edits d (es ++ [e]) d' ↔ ∃ m, Edits d es m ∧ e.Makes m d' := by
  rw [Edits.append_iff]
  simp [Edits]

theorem Edits.makes_of_mem {d d' : Draft} {es : List Edit} (h : Edits d es d') {e : Edit}
    (he : e ∈ es) : ∃ m m', e.Makes m m' := by
  induction es generalizing d with
  | nil => cases he
  | cons x es ih =>
    obtain ⟨m, hx, hes⟩ := h
    rcases List.mem_cons.mp he with rfl | he
    · exact ⟨d, m, hx⟩
    · exact ih hes he

/-- The command after a row of edits. -/
theorem Edits.command {d d' : Draft} {es : List Edit} (h : Edits d es d') :
    d'.command.arguments = d.command.arguments ++ es.flatMap Edit.arguments ∧
      d'.command.inputCount = d.command.inputCount + (es.flatMap Edit.inputs).length ∧
      d'.command.isClosed = d.command.isClosed ∧ d'.isBuilt = d.isBuilt := by
  induction es generalizing d with
  | nil => cases h; simp
  | cons e es ih =>
    obtain ⟨m, he, hes⟩ := h
    obtain ⟨hargs, hcount, hclosed, hbuilt⟩ := ih hes
    rw [hargs, hcount, hclosed, hbuilt, he.command_eq, he.isBuilt_eq]
    simp [Nat.add_assoc]

theorem Edits.program {d d' : Draft} {es : List Edit} (h : Edits d es d') :
    d'.command.program = d.command.program := by
  induction es generalizing d with
  | nil => cases h; rfl
  | cons e es ih =>
    obtain ⟨m, he, hes⟩ := h
    rw [ih hes, he.command_eq]

/-- The arguments that the words of a row of edits are read as. -/
theorem Edits.values_inputs (es : List Edit) :
    Argument.values "-i" (Argument.read (es.flatMap Edit.arguments)) = es.flatMap Edit.inputs := by
  induction es with
  | nil => rfl
  | cons e es ih =>
    rw [List.flatMap_cons, List.flatMap_cons, e.read_arguments_append, Argument.values_append, ih,
      e.values_arguments]

end Montage
