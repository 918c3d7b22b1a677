import Mathlib.Algebra.Ring.Nat
import Montage.Proofs.LastArgument
import Montage.Proofs.Outline
import Montage.Proofs.Warning

/-!
# Simple filters

Simple filters are kept twice: the list of the draft is what a build puts behind `-vf`, and the graph
is what the warning of a build quotes. The operations on the frame put a filter into both. A simple
filter can also be put into the graph alone, and then no command has it.

* `Bench.Request`: everything that can be asked of a bench before its build.
* `Draft.Registers`: the simple filters that a request registers, in both places or in the graph alone.
* `Draft.Mirrors`: the list is the graph's simple filters less those that stand there alone.
* `Bench.Accounts`: a build has each simple filter of the graph in its command, or warns of it.

Results:
* `Bench.Request.registers`: what a request registers, whether it fails or not.
* `Bench.mirrors_after`: the invariant of all rows of requests.
* `Bench.simple_agrees_iff`: both places agree, and builds account for every filter, as long as no
  filter stands in the graph alone.
-/

namespace Montage

/-! ## Registering filters -/

/-- The texts of the simple filters of a graph, in the order in which they were added. -/
def FilterGraph.simpleTexts (g : FilterGraph) : List String := g.simpleFilters.map Filter.text

namespace FilterGraph

variable {g : FilterGraph} {f : Filter}

theorem simpleTexts_append_complex (h : f.kind = .complex) :
    (g.append f).simpleTexts = g.simpleTexts := by
  simp [append, simpleTexts, simpleFilters, h]

theorem simpleTexts_append_simple (h : f.kind = .simple) :
    (g.append f).simpleTexts = g.simpleTexts ++ [f.text] := by
  simp [append, simpleTexts, simpleFilters, h]

theorem simpleTexts_add (text : String) (kind : FilterKind) (inputs outputs : List String) :
    (g.add text kind inputs outputs).simpleTexts =
      g.simpleTexts ++ if kind = .simple then [text] else [] := by
  -- A label that is taken leaves the filters.
  have hlabel (stem : String) : (g.allocate stem).2.simpleTexts = g.simpleTexts := rfl
  unfold add
  cases kind with
  | simple =>
    cases outputs.isEmpty
    · exact simpleTexts_append_simple rfl
    · simp only [if_true]
      rw [simpleTexts_append_simple rfl, hlabel]
  | complex =>
    cases outputs.isEmpty
    · simp [simpleTexts_append_complex]
    · simp only [if_true]
      rw [simpleTexts_append_complex rfl, hlabel]
      simp

/-- The text of the simple filters, none if there are none. -/
theorem simpleText_eq (g : FilterGraph) :
    g.simpleText = if g.simpleTexts = [] then none else some (Text.join "," g.simpleTexts) := by
  unfold simpleText hasSimple simpleTexts
  cases g.simpleFilters <;> simp

end FilterGraph

namespace Draft

/-- The draft `d'` comes of `d` by registering simple filters: those listed both in the list and in the
    graph, the others in the graph alone. -/
structure Registers (d : Draft) (listed alone : List String) (d' : Draft) : Prop where
  isBuilt : d'.isBuilt = d.isBuilt
  simple : d'.simple = d.simple ++ listed
  graph : d'.graph.simpleTexts = d.graph.simpleTexts ++ (listed ++ alone)

namespace Registers

variable {d d' : Draft} {listed alone : List String}

/-- Nothing is registered as long as the list and the filters stay. -/
theorem of_same (hbuilt : d'.isBuilt = d.isBuilt) (hsimple : d'.simple = d.simple)
    (hgraph : d'.graph.simpleTexts = d.graph.simpleTexts) : d.Registers [] [] d' :=
  ⟨hbuilt, by simp [hsimple], by simp [hgraph]⟩

theorem refl (d : Draft) : d.Registers [] [] d := .of_same rfl rfl rfl

theorem trans {d'' : Draft} {more : List String} (h : d.Registers listed [] d')
    (h' : d'.Registers more [] d'') : d.Registers (listed ++ more) [] d'' where
  isBuilt := h'.isBuilt.trans h.isBuilt
  simple := by rw [h'.simple, h.simple, List.append_assoc]
  graph := by simp only [h'.graph, h.graph, List.append_nil, List.append_assoc]

theorem addSimple (d : Draft) (text : String) : d.Registers [text] [] (d.addSimple text) :=
  ⟨rfl, rfl, FilterGraph.simpleTexts_add text .simple [] []⟩

theorem addToGraph (d : Draft) (text : String) (kind : FilterKind) (inputs outputs : List String) :
    d.Registers [] (if kind = .simple then [text] else [])
      (d.addToGraph text kind inputs outputs) :=
  ⟨rfl, (List.append_nil _).symm, FilterGraph.simpleTexts_add text kind inputs outputs⟩

theorem addComplex (d : Draft) (text : String) (inputs outputs : List String) :
    d.Registers [] [] (d.addComplex text inputs outputs) :=
  addToGraph d text .complex inputs outputs

theorem takeSource (o : Overlay) (d : Draft) : d.Registers [] [] (o.takeSource d).2 := by
  unfold Overlay.takeSource
  by_cases h : o.sourceFilter.isEmpty = true
  · simp only [h, if_true]
    exact .of_same rfl rfl rfl
  · simp only [h, if_false, Bool.false_eq_true]
    have hadd := addComplex ((d.addInput o.source).2.allocate "ovl").2 o.sourceFilter
      [Concatenation.streamLabel "v" (d.addInput o.source).1]
      [((d.addInput o.source).2.allocate "ovl").1]
    exact ⟨hadd.isBuilt, hadd.simple, hadd.graph⟩

theorem laidOver (o : Overlay) (text : String) (d : Draft) :
    d.Registers [] [] (o.laidOver text d) := by
  have htake := takeSource o d
  have hadd := addComplex (o.takeSource d).2 text [mainVideo, (o.takeSource d).1] []
  refine .of_same (hadd.isBuilt.trans htake.isBuilt) ?_ ?_
  · have hsimple := hadd.simple
    rw [htake.simple, List.append_nil, List.append_nil] at hsimple
    exact hsimple
  · have hgraph := hadd.graph
    rw [htake.graph, List.append_nil, List.append_nil, List.append_nil] at hgraph
    exact hgraph

theorem joined (c : Concatenation) (d : Draft) : d.Registers [] [] (c.joined d) := by
  refine .of_same (c.joined_isBuilt d) (c.joined_simple d) ?_
  obtain ⟨extra, hd⟩ := Concatenation.addInputs_draft c.inputs d
  have hgraph : (Concatenation.addInputs c.inputs d).2.graph = d.graph := by rw [hd]
  have hkind (numbers : List Nat) : (c.joinFilter numbers).kind = .complex := by
    unfold Concatenation.joinFilter
    cases c.videoOnly <;> rfl
  have hjoined : (c.joined d).graph = (Concatenation.addInputs c.inputs d).2.graph.append
      (c.joinFilter (Concatenation.addInputs c.inputs d).1) := by
    unfold Concatenation.joined
    cases c.videoOnly <;> rfl
  rw [hjoined, FilterGraph.simpleTexts_append_complex (hkind _), hgraph]

end Registers

end Draft

/-- An operation that edits a draft registers its simple filters in both places. -/
theorem Edit.Makes.registers {op : Operation} {host : Host} {list : Option String} {d d' : Draft}
    (h : (Edit.operation op host list).Makes d d') : d.Registers op.simpleFilters [] d' := by
  obtain ⟨-, hedits⟩ := h
  cases op with
  | resize r =>
    obtain ⟨text, ht, rfl⟩ := hedits
    rw [Operation.simpleFilters_resize ht]
    exact .addSimple d text
  | crop c => cases hedits; exact .addSimple d c.filterText
  | rotate r => cases hedits; exact .addSimple d r.filterText
  | caption c => obtain ⟨text, -, rfl⟩ := hedits; exact .addComplex d text [] []
  | overlay o => obtain ⟨text, -, rfl⟩ := hedits; exact .laidOver o text d
  | concat c =>
    simp only [Operation.Edits] at hedits
    rcases hs : c.strategy with _ | _
    · simp only [hs] at hedits; rw [hedits]; exact .joined c d
    · simp only [hs] at hedits
      obtain ⟨-, path, -, rfl⟩ := hedits
      exact .of_same rfl rfl rfl
  | _ => cases hedits; exact .of_same rfl rfl rfl

namespace Bench

/-! ## Requests -/

/-- Everything that can be asked of a bench before its build. In between, others may change the host. -/
inductive Request where
  | input (path : String)
  | extraInput (path : String)
  | output (path : String) (options : OutputOptions)
  | append (words : List String)
  | resize (r : Resize)
  | crop (c : Crop)
  | rotate (r : Rotation)
  | filter (text : String) (kind : FilterKind)
  | labelled (text : String) (inputs outputs : List String)
  | source (text : String) (inputs outputs : List String)
  | allocate (stem : String)
  | mapAudio (label : String)
  | dropAudio
  | add (op : Operation)
  | elsewhere (host : Host)

namespace Request

def action : Request → Action Bench Unit
  | input path => edit fun d => d.withInput path
  | extraInput path => edit fun d => (d.addInput path).2
  | output path options => edit fun d => d.withOutput path options
  | append words => edit fun d => d.append words
  | resize r => Bench.resize r
  | crop c => Bench.crop c
  | rotate r => Bench.rotate r
  | filter text kind => edit fun d => d.addToGraph text kind
  | labelled text inputs outputs => edit fun d => d.addComplex text inputs outputs
  | source text inputs outputs => editOrFail fun d => d.addSource text inputs outputs
  | allocate stem => edit fun d => (d.allocate stem).2
  | mapAudio label => edit fun d => d.mapAudio label
  | dropAudio => edit Draft.dropAudio
  | add op => Bench.add op
  | elsewhere host => modify fun bench => { bench with host }

/-- The simple filters that a request puts into the graph alone. -/
def alone : Request → List String
  | filter text .simple => [text]
  | _ => []

/-- The bench behind a request, also behind one that failed. -/
def after (b : Bench) (r : Request) : Bench := (r.action.perform b).2

end Request

/-- The bench behind several requests. -/
def after (b : Bench) (requests : List Request) : Bench := requests.foldl Request.after b

theorem registers_resize (r : Resize) (b : Bench) :
    ∃ listed, b.draft.Registers listed [] ((resize r).perform b).2.draft := by
  unfold resize
  rw [Action.perform_bind]
  rcases r.filter? with e | _ | text
  · exact ⟨[], .refl b.draft⟩
  · exact ⟨[], .of_same rfl rfl rfl⟩
  · exact ⟨[text], .addSimple b.draft text⟩

/-- An operation that fails behind its check has registered no more than the source of an overlay. -/
theorem registers_add (op : Operation) (b : Bench) :
    ∃ listed, b.draft.Registers listed [] ((Bench.add op).perform b).2.draft := by
  rcases hadd : (Bench.add op).perform b with ⟨f | _, b'⟩
  · refine ⟨[], ?_⟩
    by_cases hkeeps : KeepsDraft (Bench.add op) b
    · rw [hkeeps f b' hadd]
      exact .refl b.draft
    · rw [keepsDraft_add_iff, not_not] at hkeeps
      obtain ⟨o, rfl, hcheck, -⟩ := hkeeps
      have hcheck : (Operation.overlay o).check b.host = .ok () := hcheck
      rw [perform_add, hcheck] at hadd
      simp only [Operation.apply, Operation.perform_applyOverlay] at hadd
      cases ho : o.overlayFilter b.host with
      | ok text => rw [ho] at hadd; cases hadd
      | error f' => rw [ho] at hadd; cases hadd; exact .takeSource o b.draft
  · have hmakes : (Edit.operation op b.host b'.listFile).Makes b.draft b'.draft := add_ok hadd
    exact ⟨op.simpleFilters, hmakes.registers⟩

/-- What a request registers, whether it fails or not. -/
theorem Request.registers (r : Request) (b : Bench) :
    ∃ listed, b.draft.Registers listed r.alone (r.after b).draft := by
  cases r with
  | resize r => exact registers_resize r b
  | crop c =>
    unfold after action Bench.crop
    rw [Action.perform_bind]
    rcases c.check with e | _
    · exact ⟨[], .refl b.draft⟩
    · exact ⟨[c.filterText], .addSimple b.draft c.filterText⟩
  | rotate r =>
    unfold after action Bench.rotate
    rw [Action.perform_bind]
    rcases r.check with e | _
    · exact ⟨[], .refl b.draft⟩
    · exact ⟨[r.filterText], .addSimple b.draft r.filterText⟩
  | filter text kind =>
    have hadd := Draft.Registers.addToGraph b.draft text kind [] []
    cases kind with
    | simple => exact ⟨[], hadd⟩
    | complex => exact ⟨[], hadd⟩
  | labelled text inputs outputs => exact ⟨[], .addComplex b.draft text inputs outputs⟩
  | source text inputs outputs =>
    unfold after action editOrFail
    rw [Action.perform_bind, Action.perform_get]
    by_cases ho : outputs.isEmpty = true
    · simp only [Draft.addSource, FilterGraph.addSource, ho, if_true]
      exact ⟨[], .refl b.draft⟩
    · simp only [Draft.addSource, FilterGraph.addSource, ho, if_false, Bool.false_eq_true]
      exact ⟨[], .of_same rfl rfl (FilterGraph.simpleTexts_append_complex rfl)⟩
  | add op => exact registers_add op b
  | _ => exact ⟨[], .of_same rfl rfl rfl⟩

end Bench

/-! ## The two places -/

namespace Draft

/-- The list of the draft is the graph's simple filters, less those that stand there alone, in the same
    order. The draft is not built. -/
structure Mirrors (alone : List String) (d : Draft) : Prop where
  isBuilt : d.isBuilt = false
  sublist : d.simple.Sublist d.graph.simpleTexts
  perm : d.graph.simpleTexts.Perm (d.simple ++ alone)

namespace Mirrors

variable {d d' : Draft} {listed alone more : List String}

theorem ofProgram (program : String) : Mirrors [] (Draft.ofProgram program) :=
  ⟨rfl, .refl [], .refl []⟩

theorem registers (h : Mirrors alone d) (hr : d.Registers listed more d') :
    Mirrors (alone ++ more) d' where
  isBuilt := hr.isBuilt.trans h.isBuilt
  sublist := by
    rw [hr.simple, hr.graph]
    exact h.sublist.append (List.sublist_append_left listed more)
  perm := by
    rw [hr.simple, hr.graph]
    have hgroup : ((d.simple ++ alone) ++ (listed ++ more)).Perm
        ((d.simple ++ listed) ++ (alone ++ more)) := by
      simp only [List.append_assoc]
      exact .append_left _ (by simpa using List.perm_append_comm.append_right more)
    exact (h.perm.append_right _).trans hgroup

/-- Both places agree just if no filter stands in the graph alone. -/
theorem simple_eq_iff (h : Mirrors alone d) : d.simple = d.graph.simpleTexts ↔ alone = [] := by
  have hlength := h.perm.length_eq
  rw [List.length_append] at hlength
  constructor
  · intro heq
    rw [← heq] at hlength
    exact List.length_eq_zero_iff.mp (by omega)
  · rintro rfl
    exact h.sublist.eq_of_length (by simpa using hlength.symm)

end Mirrors

end Draft

/-- A text joined with commas is as long as its pieces with a comma each, less one. -/
theorem Text.length_join {pieces : List String} (h : pieces ≠ []) :
    (Text.join "," pieces).length + 1 = (pieces.map fun piece => piece.length + 1).sum := by
  unfold Text.join
  induction pieces with
  | nil => exact absurd rfl h
  | cons piece rest ih =>
    cases rest with
    | nil => simp
    | cons next rest =>
      have hrest := ih (List.cons_ne_nil _ _)
      have hcomma : ",".length = 1 := rfl
      rw [String.intercalate_cons_cons, String.length_append, String.length_append, List.map_cons,
        List.sum_cons, ← hrest]
      omega

namespace Draft

/-- What a build puts behind `-vf` is the chain of the graph just if no filter stands in the graph
    alone. -/
theorem Mirrors.chain_eq_iff {alone : List String} {d : Draft} (h : d.Mirrors alone) :
    (if d.simple.isEmpty then [] else ["-vf", Text.join "," d.simple]) =
      OutputOptions.pair "-vf" d.graph.simpleText ↔ alone = [] := by
  refine ⟨fun heq => ?_, fun halone => ?_⟩
  · by_contra halone
    have hgraph : d.graph.simpleTexts ≠ [] := fun hnil => halone (by
      have hempty := h.perm
      rw [hnil, List.nil_perm] at hempty
      exact (List.append_eq_nil_iff.mp hempty).2)
    rw [FilterGraph.simpleText_eq, if_neg hgraph] at heq
    by_cases hsimple : d.simple = []
    · simp [hsimple, OutputOptions.pair] at heq
    -- The chain of the graph is longer by at least a comma.
    · have hjoin : Text.join "," d.simple = Text.join "," d.graph.simpleTexts := by
        simpa [hsimple, OutputOptions.pair] using heq
      have hlist := Text.length_join hsimple
      have hchain := Text.length_join hgraph
      rw [(h.perm.map _).sum_nat, List.map_append, List.sum_append, ← hlist, ← hjoin] at hchain
      obtain ⟨text, rest, rfl⟩ := List.exists_cons_of_ne_nil halone
      rw [List.map_cons, List.sum_cons] at hchain
      omega
  · rw [FilterGraph.simpleText_eq, ← h.simple_eq_iff.mpr halone]
    cases d.simple <;> rfl

end Draft

namespace Bench

/-- A build accounts for the simple filters of the graph: without complex filters its command has
    their chain, and none if there are none; beside complex ones it warns of all of them. -/
structure Accounts (b b' : Bench) (c : Command) : Prop where
  chained : b.draft.graph.hasComplex = false →
    c = (b.draft.command.append (OutputOptions.pair "-vf" b.draft.graph.simpleText ++
      if b.draft.dropsAudio then ["-an"] else [])).close
  warned : b.draft.graph.hasComplex = true → b.draft.graph.simpleTexts ≠ [] →
    ∃ count, b'.host.logged = b.host.logged ++ Log.warningLines
      (Draft.leftOut count (Text.join "," b.draft.graph.simpleTexts) :: b.draft.repeatedFilterWarning)

variable {alone : List String} {b b' : Bench} {c : Command}

/-- After any row of requests, failing ones included, the list of the draft is the graph's simple
    filters less those that requests put into the graph alone. -/
theorem mirrors_after (h : b.draft.Mirrors alone) (requests : List Request) :
    (after b requests).draft.Mirrors (alone ++ requests.flatMap Request.alone) := by
  induction requests generalizing alone b with
  | nil =>
    rw [List.flatMap_nil, List.append_nil]
    exact h
  | cons r rest ih =>
    obtain ⟨listed, hr⟩ := r.registers b
    have hrest := ih (h.registers hr)
    rwa [List.append_assoc, ← List.flatMap_cons] at hrest

theorem close_append_inj {c : Command} {xs ys : List String} :
    (c.append xs).close = (c.append ys).close ↔ xs = ys := by
  refine ⟨fun h => ?_, fun h => by rw [h]⟩
  rcases c with ⟨program, arguments, input, output, inputCount, isClosed⟩
  cases output <;> cases isClosed <;> simpa [Command.close, Command.append] using h

/-- Without complex filters a build accounts for the filters just if none stands in the graph alone. -/
theorem accounts_iff_of_simple (h : b.draft.Mirrors alone) (hbuild : build.perform b = (.ok c, b'))
    (hgraph : b.draft.graph.hasComplex = false) : b.Accounts b' c ↔ alone = [] := by
  obtain ⟨rfl, -, -⟩ := logged_of_build hbuild h.isBuilt
  have htext : b.draft.graph.complexText = none := by simp [FilterGraph.complexText, hgraph]
  have hchain : b.Accounts b' b.draft.rendered.close ↔
      b.draft.rendered.close = (b.draft.command.append (OutputOptions.pair "-vf"
        b.draft.graph.simpleText ++ if b.draft.dropsAudio then ["-an"] else [])).close :=
    ⟨fun ha => ha.chained hgraph, fun hc => ⟨fun _ => hc, fun hcomplex => by simp [hgraph] at hcomplex⟩⟩
  rw [hchain, Draft.rendered, close_append_inj, List.append_left_inj, Draft.filterArguments, htext]
  exact h.chain_eq_iff

/-- Beside complex filters a build accounts for the filters as long as one of them is in the list. -/
theorem accounts_iff_of_complex (h : b.draft.Mirrors alone) (hbuild : build.perform b = (.ok c, b'))
    (hgraph : b.draft.graph.hasComplex = true) :
    b.Accounts b' c ↔ alone = [] ∨ b.draft.simple ≠ [] := by
  obtain ⟨rfl, -, hlogged⟩ := logged_of_build hbuild h.isBuilt
  have hperm := h.perm
  by_cases hsimple : b.draft.simple = []
  · have hnone : b.draft.warnings = b.draft.repeatedFilterWarning := by
      simp [Draft.warnings, Draft.leftOutWarning, hsimple]
    rw [hsimple, List.nil_append] at hperm
    simp only [hsimple, ne_eq, not_true_eq_false, or_false]
    constructor
    · intro ha
      by_contra halone
      obtain ⟨count, hlines⟩ := ha.warned hgraph fun hnil => halone (by simpa [hnil] using hperm)
      rw [hlogged, hnone, String.append_right_inj, ← List.singleton_append,
        Log.warningLines_append] at hlines
      -- The line that is missing is not empty.
      have hempty := String.append_eq_right_iff.mp hlines.symm
      simp only [Log.warningLines, List.map_cons, String.join_cons, String.append_eq_empty_iff]
        at hempty
      exact absurd hempty.1.2 (by decide)
    · intro halone
      rw [halone] at hperm
      exact ⟨fun hno => by simp [hgraph] at hno, fun _ htexts => absurd hperm.eq_nil htexts⟩
  · refine iff_of_true ⟨fun hno => by simp [hgraph] at hno, fun _ htexts => ?_⟩ (.inr hsimple)
    refine ⟨b.draft.simple.length, ?_⟩
    have hleft : b.draft.leftOutWarning =
        [Draft.leftOut b.draft.simple.length (Text.join "," b.draft.graph.simpleTexts)] := by
      have hempty : b.draft.simple.isEmpty = false := by simpa using hsimple
      unfold Draft.leftOutWarning
      rw [hgraph, hempty, FilterGraph.simpleText_eq, if_neg htexts]
      rfl
    rw [hlogged, Draft.warnings, hleft, List.singleton_append]

/-- **Simple filters in two places.** After any row of requests of a new draft, the list of simple
    filters is that of the graph, in the same order, just if no filter was put into the graph alone.
    Then every build accounts for each of them; with such a filter a build does so only if there are
    complex filters and some simple filter is in the list. -/
theorem simple_agrees_iff (program : String) (host : Host) (requests : List Request) :
    let b := after { host, draft := .ofProgram program } requests
    let alone := requests.flatMap Request.alone
    (b.draft.simple = b.draft.graph.simpleTexts ↔ alone = []) ∧
    ∀ c b', build.perform b = (.ok c, b') →
      (b.Accounts b' c ↔
        alone = [] ∨ b.draft.graph.hasComplex = true ∧ b.draft.simple ≠ []) := by
  intro b alone
  have hb : b.draft.Mirrors alone :=
    mirrors_after (b := { host, draft := .ofProgram program }) (.ofProgram program) requests
  refine ⟨hb.simple_eq_iff, fun c b' hbuild => ?_⟩
  rcases hgraph : b.draft.graph.hasComplex with _ | _
  · rw [accounts_iff_of_simple hb hbuild hgraph]
    simp
  · rw [accounts_iff_of_complex hb hbuild hgraph]
    simp

/-- Two crops around a title: the title leaves both to the warning. -/
theorem simple_agrees_iff_crops_around_title :
    let requests : List Request := [.input "in.mp4", .output "out.mp4" {},
      .crop { width := 64, height := 32 }, .labelled "drawtext=text=T" [] [],
      .add (.crop { width := 16, height := 16, x := 8 })]
    let b := after { host := {}, draft := .ofProgram "ffmpeg" } requests
    ∃ c b', build.perform b = (.ok c, b') ∧
      b.draft.simple = ["crop=64:32:0:0", "crop=16:16:8:0"] ∧
      b.draft.simple = b.draft.graph.simpleTexts ∧ b.Accounts b' c := by
  intro requests b
  obtain ⟨c, hbuild, -⟩ : ∃ c, build.perform b = (.ok c, (build.perform b).2) ∧
      c.output = some "out.mp4" := Action.perform_of_any (by decide +kernel)
  have hagrees := simple_agrees_iff "ffmpeg" {} requests
  have halone : requests.flatMap Request.alone = [] := rfl
  exact ⟨c, _, hbuild, by decide +kernel, hagrees.1.mpr halone,
    (hagrees.2 c _ hbuild).mpr (.inl halone)⟩

/-- A simple filter is put into the graph alone: the command does not have it, and nothing warns. -/
theorem simple_filter_alone_is_lost :
    let requests : List Request := [.input "in.mp4", .output "out.mp4" {}, .filter "hflip" .simple]
    let b := after { host := {}, draft := .ofProgram "ffmpeg" } requests
    b.draft.simple = [] ∧ b.draft.graph.simpleTexts = ["hflip"] ∧
      ∃ c b', build.perform b = (.ok c, b') ∧ c.arguments = ["-i", "in.mp4", "out.mp4"] ∧
        b'.host.logged = "" := by
  intro requests b
  obtain ⟨c, hbuild, hwords⟩ : ∃ c, build.perform b = (.ok c, (build.perform b).2) ∧
      c.arguments = ["-i", "in.mp4", "out.mp4"] := Action.perform_of_any (by decide +kernel)
  exact ⟨by decide +kernel, by decide +kernel, c, _, hbuild, hwords, by decide +kernel⟩

end Bench

end Montage
