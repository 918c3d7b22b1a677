import Montage.Proofs.CommandLine

/-!
# Inputs before the options of the output

The program applies an option to the next file named behind it. So an option that is meant for the
output must not stand before an input. Inputs and options go to the command at once, in the order
of the calls, so whether that holds depends on that order.

Results:
* `InputsFirst`: no option for the output stands before an input.
* `inputsFirst_edits_iff`: a row of edits gives such a command just if no edit that sets an option
  comes before one that adds an input.
* `CommandLine.inputsFirst_iff_ordered`: which calls, and which command lines, give such a
  command, exactly.
-/

namespace Montage

open Argument

/-! ## Arguments before an input -/

/-- What may stand before an input, given what follows it: an opening flag, another input, and the
    options for a list file. -/
def Argument.PrecedesInput (a : Argument) (after : List Argument) : Prop :=
  a = switch "-hide_banner" ∨ a = switch "-y" ∨ (∃ path, a = option "-i" path) ∨
    a = option "-safe" "0" ∨ (a = option "-f" "concat" ∧ after.head? = some (option "-safe" "0"))

/-- An argument behind which an input stands is one that may stand before it. -/
def InputsFirst (arguments : List Argument) : Prop :=
  ∀ before a after, arguments = before ++ a :: after → values "-i" after ≠ [] →
    a.PrecedesInput after

namespace InputsFirst

variable {a : Argument} {xs rest : List Argument}

theorem of_values (h : values "-i" xs = []) : InputsFirst xs := by
  rintro before a after rfl hafter
  refine absurd ?_ hafter
  rw [values_append, List.append_eq_nil_iff] at h
  exact (List.filterMap_eq_nil_iff.mpr fun b hb =>
    List.filterMap_eq_nil_iff.mp h.2 b (List.mem_cons_of_mem _ hb))

theorem cons_iff :
    InputsFirst (a :: rest) ↔
      (values "-i" rest ≠ [] → a.PrecedesInput rest) ∧ InputsFirst rest := by
  constructor
  · intro h
    refine ⟨h [] a rest rfl, ?_⟩
    rintro before b after rfl
    exact h (a :: before) b after rfl
  · rintro ⟨ha, h⟩ before b after hcut
    cases before with
    | nil =>
      obtain ⟨rfl, rfl⟩ := List.cons.inj hcut
      exact ha
    | cons x before =>
      obtain ⟨rfl, rfl⟩ := List.cons.inj hcut
      exact h before b after rfl

/-- An argument that may stand before an input changes nothing. -/
theorem cons_iff_of_precedes (h : a.PrecedesInput rest) :
    InputsFirst (a :: rest) ↔ InputsFirst rest := by
  rw [cons_iff]
  exact ⟨fun hr => hr.2, fun hr => ⟨fun _ => h, hr⟩⟩

/-- Options for the output may only stand before words without an input. -/
theorem append_iff {names : List String} (hx : ∀ x ∈ xs, ∃ n ∈ names, ∃ v, x = option n v)
    (hi : "-i" ∉ names) (hsafe : "-safe" ∉ names)
    (hrest : rest.head? ≠ some (option "-safe" "0")) :
    InputsFirst (xs ++ rest) ↔ (xs ≠ [] → values "-i" rest = []) ∧ InputsFirst rest := by
  induction xs with
  | nil => simp
  | cons x xs ih =>
    obtain ⟨n, hn, v, rfl⟩ := hx x List.mem_cons_self
    have hxs := fun y hy => hx y (List.mem_cons_of_mem _ hy)
    have hvalues : values "-i" xs = [] := by
      rw [values, List.filterMap_eq_nil_iff]
      intro y hy
      obtain ⟨m, hm, w, rfl⟩ := hxs y hy
      rw [valueOf?, if_neg]
      rintro rfl; exact hi hm
    have hhead : (xs ++ rest).head? ≠ some (option "-safe" "0") := by
      cases xs with
      | nil => exact hrest
      | cons y ys =>
        obtain ⟨m, hm, w, rfl⟩ := hxs y List.mem_cons_self
        intro h
        cases h
        exact hsafe hm
    -- It is not the first option for a list file either: the second does not follow.
    have hprecedes : ¬ (option n v).PrecedesInput (xs ++ rest) := by
      rintro (h | h | ⟨p, h⟩ | h | ⟨-, h⟩)
      · cases h
      · cases h
      · cases h; exact hi hn
      · cases h; exact hsafe hn
      · exact hhead h
    rw [List.cons_append, cons_iff, ih hxs, values_append, hvalues, List.nil_append]
    simp only [hprecedes, ne_eq, imp_false, Decidable.not_not, reduceCtorEq, not_false_eq_true,
      true_imp_iff]
    constructor
    · rintro ⟨h, -, hr⟩; exact ⟨h, hr⟩
    · rintro ⟨h, hr⟩; exact ⟨h, fun _ => h, hr⟩

theorem flags_append_iff {flags : List String} (h : flags ⊆ flagNames) :
    InputsFirst (flags.map switch ++ rest) ↔ InputsFirst rest := by
  induction flags with
  | nil => rfl
  | cons flag flags ih =>
    obtain ⟨hflag, hflags⟩ := List.cons_subset.mp h
    rw [List.map_cons, List.cons_append, cons_iff_of_precedes, ih hflags]
    simp only [flagNames, List.mem_cons, List.not_mem_nil, or_false] at hflag
    rcases hflag with rfl | rfl
    · exact .inl rfl
    · exact .inr (.inl rfl)

theorem inputs_append_iff {paths : List String} :
    InputsFirst (paths.map (option "-i") ++ rest) ↔ InputsFirst rest := by
  induction paths with
  | nil => rfl
  | cons path paths ih =>
    rw [List.map_cons, List.cons_append, cons_iff_of_precedes (.inr (.inr (.inl ⟨path, rfl⟩))), ih]

end InputsFirst

/-! ## Rows of edits -/

namespace Edit

theorem listing_cases (e : Edit) :
    e.listing = [] ∨ e.listing = ["-f", "concat", "-safe", "0"] := by
  cases e with
  | operation op host list =>
    cases op with
    | concat c => cases hs : c.strategy <;> simp [listing, Operation.listing, hs]
    | _ => exact .inl rfl
  | _ => exact .inl rfl

/-- The words of edits do not begin with the second option for a list file, so that what stands
    before them is not taken for the first. -/
theorem head?_read_arguments {es : List Edit} {tail : List Argument}
    (h : tail.head? ≠ some (option "-safe" "0")) :
    (read (es.flatMap arguments) ++ tail).head? ≠ some (option "-safe" "0") := by
  induction es with
  | nil => exact h
  | cons e es ih =>
    rw [List.flatMap_cons, e.read_arguments_append, e.read_arguments]
    rcases e.listing_cases with hlisting | hlisting
    · rw [hlisting]
      cases e.inputs with
      | cons path paths =>
        show some (option "-i" path) ≠ some (option "-safe" "0")
        simp
      | nil =>
        rcases hsettings : read e.settings with _ | ⟨x, xs⟩
        · exact ih
        · obtain ⟨n, hn, v, rfl⟩ := e.settings_areOptions.mem_read (by decide)
            (hsettings ▸ List.mem_cons_self)
          intro heq
          cases heq
          exact absurd hn (by decide)
    · rw [hlisting]
      show some (option "-f" "concat") ≠ some (option "-safe" "0")
      simp

theorem inputsFirst_listing_iff (e : Edit) {rest : List Argument} :
    InputsFirst (read e.listing ++ rest) ↔ InputsFirst rest := by
  rcases e.listing_cases with h | h
  · rw [h]; rfl
  · rw [h]
    have hread : read ["-f", "concat", "-safe", "0"] =
        [option "-f" "concat", option "-safe" "0"] := rfl
    rw [hread, List.cons_append, List.cons_append, List.nil_append,
      InputsFirst.cons_iff_of_precedes (.inr (.inr (.inr (.inr ⟨rfl, rfl⟩)))),
      InputsFirst.cons_iff_of_precedes (.inr (.inr (.inr (.inl rfl))))]

end Edit

/-- A row of edits puts its inputs first just if no edit that sets options for the output comes
    before one that adds inputs. -/
theorem inputsFirst_edits_iff (es : List Edit) {tail : List Argument}
    (hvalues : values "-i" tail = []) (hhead : tail.head? ≠ some (option "-safe" "0")) :
    InputsFirst (read (es.flatMap Edit.arguments) ++ tail) ↔
      es.Pairwise fun a b => a.settings = [] ∨ b.inputs = [] := by
  induction es with
  | nil => exact iff_of_true (.of_values hvalues) .nil
  | cons e es ih =>
    have hsettings : ∀ x ∈ read e.settings, ∃ n ∈ Edit.settingNames, ∃ v, x = option n v :=
      fun x hx => e.settings_areOptions.mem_read (by decide) hx
    rw [List.flatMap_cons, e.read_arguments_append, e.read_arguments, List.append_assoc,
      List.append_assoc, List.append_assoc, Edit.inputsFirst_listing_iff,
      InputsFirst.inputs_append_iff, InputsFirst.append_iff hsettings (by decide) (by decide)
        (Edit.head?_read_arguments hhead), ih, List.pairwise_cons, values_append,
      Edits.values_inputs, hvalues, List.append_nil, ne_eq, Argument.read_eq_nil_iff]
    refine and_congr_left fun _ => ?_
    rw [List.flatMap_eq_nil_iff]
    constructor
    · intro h b hb
      by_cases hs : e.settings = []
      · exact .inl hs
      · exact .inr (h hs b hb)
    · intro h hs b hb
      exact (h b hb).resolve_left hs

/-! ## Orders of calls -/

theorem OutputOptions.pair_eq_nil_iff {key : String} {value : Option String} :
    pair key value = [] ↔ value = none := by
  cases value <;> simp [pair]

theorem OutputOptions.arguments_eq_nil_iff {o : OutputOptions} : o.arguments = [] ↔ o = {} := by
  obtain ⟨format, quality, bitrate, codec⟩ := o
  simp only [arguments, List.append_eq_nil_iff, pair_eq_nil_iff, Option.map_eq_none_iff, mk.injEq]
  tauto

/-- Whether an operation sets an option of the output. -/
def Operation.setsOption : Operation → Bool
  | trim t => !t.isEmpty
  | speed _ => true
  | adjustColor a => !a.isEmpty
  | encode e => !e.isEmpty
  | concat c => c.strategy = .demuxer
  | _ => false

/-- An operation that is not skipped sets options just if it is meant to. -/
theorem Operation.settings_eq_nil_iff {op : Operation} (h : Session.skipWarning op = none) :
    op.settings = [] ↔ op.setsOption = false := by
  cases op with
  | trim t =>
    obtain ⟨start, stop, duration⟩ := t
    cases start <;> cases stop <;> cases duration <;>
      simp [settings, Trim.arguments, setsOption, Trim.isEmpty]
  | adjustColor a =>
    cases ha : a.isEmpty with
    | true => simp [Session.skipWarning, ha] at h
    | false => simp [settings, setsOption, ha]
  | encode e =>
    simp only [settings, Encoding.arguments, List.append_eq_nil_iff,
      OutputOptions.pair_eq_nil_iff, setsOption, Encoding.isEmpty]
    simp [and_assoc]
  | concat c => cases hs : c.strategy <;> simp [settings, setsOption, hs]
  | _ => simp [settings, setsOption]

namespace Session

/-- Whether a call sets an option of the output. -/
def Call.setsOption : Call → Bool
  | input _ => false
  | concat r => r.strategy = some "demuxer"
  | add op => op.setsOption
  | output _ options => options ≠ {}

/-- Whether a call adds inputs. -/
def Call.addsInput : Call → Bool
  | input _ | concat _ => true
  | add op => op.addsInput
  | output .. => false

/-- Calls in an order in which none that adds inputs comes behind one that sets an option of the
    output. -/
def Ordered (calls : List Call) : Prop :=
  calls.Pairwise fun a b => a.setsOption = false ∨ b.addsInput = false

namespace Call.Stands

variable {c : Call} {es : List Edit}

theorem settings_iff (h : c.Stands es) :
    (∀ e ∈ es, e.settings = []) ↔ c.setsOption = false := by
  cases c with
  | input path => cases h; simp [Edit.settings, setsOption]
  | concat r =>
    obtain ⟨c, host, list, rfl, -, hs⟩ := h
    cases hc : c.strategy <;>
      simp [Edit.settings, Operation.settings, setsOption, ← hs, hc]
  | add op =>
    rcases h with ⟨hw, rfl⟩ | ⟨hw, host, list, rfl⟩
    · cases op <;> simp [skipWarning] at hw <;> simp [setsOption, Operation.setsOption, hw]
    · simp [Edit.settings, setsOption, Operation.settings_eq_nil_iff hw]
  | output path options =>
    cases h; simp [Edit.settings, setsOption, OutputOptions.arguments_eq_nil_iff]

theorem inputs_iff (h : c.Stands es) (hmade : ∀ e ∈ es, ∃ d d', e.Makes d d') :
    (∀ e ∈ es, e.inputs = []) ↔ c.addsInput = false := by
  have hadds : (∀ e ∈ es, e.inputs = []) ↔ ∀ e ∈ es, e.addsInput = false := by
    refine forall₂_congr fun e he => ?_
    obtain ⟨d, d', hm⟩ := hmade e he
    exact hm.inputs_eq_nil_iff
  rw [hadds]
  cases c with
  | input path => cases h; simp [Edit.addsInput, addsInput]
  | concat r =>
    obtain ⟨c, host, list, rfl, -⟩ := h
    simp [Edit.addsInput, Operation.addsInput, addsInput]
  | add op =>
    rcases h with ⟨hw, rfl⟩ | ⟨hw, host, list, rfl⟩
    · cases op <;> simp [skipWarning] at hw <;> simp [addsInput, Operation.addsInput]
    · simp [Edit.addsInput, addsInput]
  | output path options => cases h; simp [Edit.addsInput, addsInput]

/-- A call makes one edit at most. -/
theorem pairwise (h : c.Stands es) (R : Edit → Edit → Prop) : es.Pairwise R := by
  cases c with
  | input path => cases h; simp
  | concat r => obtain ⟨c, host, list, rfl, -⟩ := h; simp
  | add op => rcases h with ⟨-, rfl⟩ | ⟨-, host, list, rfl⟩ <;> simp
  | output path options => cases h; simp

end Call.Stands

/-- The edits of calls are in order just if the calls are. -/
theorem pairwise_edits_iff {calls : List Call} {ess : List (List Edit)}
    (h : List.Forall₂ Call.Stands calls ess) (hmade : ∀ e ∈ ess.flatten, ∃ d d', e.Makes d d') :
    (ess.flatten.Pairwise fun a b => a.settings = [] ∨ b.inputs = []) ↔ Ordered calls := by
  have hinputs {calls : List Call} {ess : List (List Edit)}
      (h : List.Forall₂ Call.Stands calls ess)
      (hmade : ∀ e ∈ ess.flatten, ∃ d d', e.Makes d d') :
      (∀ e ∈ ess.flatten, e.inputs = []) ↔ ∀ c ∈ calls, c.addsInput = false := by
    induction h with
    | nil => simp
    | @cons c es calls ess hc _ ih =>
      rw [List.flatten_cons, List.forall_mem_append] at hmade ⊢
      rw [hc.inputs_iff hmade.1, ih hmade.2, List.forall_mem_cons]
  induction h with
  | nil => simp [Ordered]
  | @cons c es calls ess hc hrest ih =>
    rw [List.flatten_cons, List.forall_mem_append] at hmade
    rw [List.flatten_cons, List.pairwise_append, Ordered, List.pairwise_cons]
    have hcross : (∀ a ∈ es, ∀ b ∈ ess.flatten, a.settings = [] ∨ b.inputs = []) ↔
        ∀ b ∈ calls, c.setsOption = false ∨ b.addsInput = false := by
      rw [← hc.settings_iff]
      have hcalls := hinputs hrest hmade.2
      by_cases hs : ∀ a ∈ es, a.settings = []
      · exact iff_of_true (fun a ha b _ => .inl (hs a ha)) fun b _ => .inl hs
      · simp only [hs, false_or, ← hcalls]
        obtain ⟨a, ha, hne⟩ := not_forall₂.mp hs
        constructor
        · intro h b hb; exact (h a ha b hb).resolve_left hne
        · intro h a _ b hb; exact .inr (h b hb)
    rw [hcross]
    constructor
    · rintro ⟨-, hedits, hall⟩
      exact ⟨hall, (ih hmade.2).mp hedits⟩
    · rintro ⟨hall, hordered⟩
      exact ⟨hc.pairwise _, (ih hmade.2).mpr hordered, hall⟩

end Session

/-- The words for filters and audio begin with no option for a list file. -/
theorem Draft.head?_read_ending (d : Draft) :
    (read d.ending).head? ≠ some (option "-safe" "0") := by
  intro h
  have hmem := List.mem_of_head? h
  cases hc : d.graph.hasComplex with
  | true =>
    rw [read_ending hc] at h
    simp at h
  | false =>
    rcases read_ending_simple hc hmem with ⟨_, h⟩ | h
    · simp at h
    · cases h

namespace Session

theorem inputsFirst_read_iff {o : SessionOptions} {host : Host} {calls : List Call}
    {s s' : Session} {c : Command} (hcalls : (sequence calls).perform (start o host) = (.ok (), s))
    (hbuild : build.perform s = (.ok c, s')) : InputsFirst c.read ↔ Ordered calls := by
  obtain ⟨ess, hstands, hes⟩ := sequence_ok hcalls
  obtain ⟨-, -, hclosed, hbuilt⟩ := hes.command
  obtain ⟨-, -, hread⟩ := build_ok hbuild hbuilt hclosed
  have hflags : (start o host).draft.command.arguments ⊆ flagNames := openingFlags_subset o
  rw [hread, hes.read_rendered hflags, List.append_assoc, InputsFirst.flags_append_iff hflags,
    inputsFirst_edits_iff _ (s.draft.values_ending (by decide)) s.draft.head?_read_ending,
    pairwise_edits_iff hstands fun e he => hes.makes_of_mem he]

end Session

/-! ## Command lines -/

namespace Session

theorem ordered_append_iff {xs ys : List Call} (h : ∀ c ∈ ys, c.addsInput = false) :
    Ordered (xs ++ ys) ↔ Ordered xs := by
  rw [Ordered, List.pairwise_append]
  refine ⟨fun hp => hp.1, fun hp => ⟨hp, ?_, fun _ _ b hb => .inr (h b hb)⟩⟩
  exact List.pairwise_of_forall_mem_list fun _ _ b hb => .inr (h b hb)

end Session

namespace CommandLine

open Session (Ordered)

namespace Options

variable (o : Options)

/-- Whether an option of the output is asked for before an overlay. -/
def setsOptionEarly : Bool :=
  !o.trim.isEmpty || o.speed.isSome || !o.color.isEmpty ||
    (!o.concat.inputs.isEmpty && o.concat.strategy = some "demuxer")

theorem mem_early_iff {op : Operation} :
    some op ∈ o.early ↔ (o.trim.isEmpty = false ∧ op = .trim o.trim) ∨
      (∃ factor, o.speed = some factor ∧ op = .speed ⟨factor⟩) ∨
      (∃ r, o.resize = some r ∧ op = .resize r) ∨ (∃ c, o.crop = some c ∧ op = .crop c) ∨
      (∃ degrees, o.rotate = some degrees ∧ op = .rotate ⟨degrees⟩) ∨
      (o.color.isEmpty = false ∧ op = .adjustColor o.color) := by
  cases ht : o.trim.isEmpty <;> cases hc : o.color.isEmpty <;>
    simp [early, ht, hc, eq_comm (a := some op), eq_comm (a := op)]

theorem addsInput_early : ∀ c ∈ addAll o.early, c.addsInput = false := by
  rw [forall_mem_addAll]
  intro op hop
  rcases o.mem_early_iff.mp hop with
    ⟨-, rfl⟩ | ⟨_, -, rfl⟩ | ⟨_, -, rfl⟩ | ⟨_, -, rfl⟩ | ⟨_, -, rfl⟩ | ⟨-, rfl⟩ <;> rfl

theorem addsInput_late :
    ∀ c ∈ addAll o.late ++ [.output o.output {}], c.addsInput = false := by
  rw [List.forall_mem_append, forall_mem_addAll]
  refine ⟨fun op hop => ?_, by simp [Session.Call.addsInput]⟩
  simp only [late, List.mem_cons, List.not_mem_nil, or_false] at hop
  rcases hop with h | h
  · cases hc : o.caption <;> simp [hc] at h; rw [h]; rfl
  · cases he : o.encoding.isEmpty <;> simp [he] at h; rw [h]; rfl

theorem setsOption_sources :
    (∀ c ∈ o.sources, c.setsOption = false) ↔
      (!o.concat.inputs.isEmpty && o.concat.strategy = some "demuxer") = false := by
  unfold sources
  cases o.input <;> cases o.concat.inputs.isEmpty <;> simp [Session.Call.setsOption]

theorem setsOption_early :
    (∀ c ∈ addAll o.early, c.setsOption = false) ↔
      (!o.trim.isEmpty || o.speed.isSome || !o.color.isEmpty) = false := by
  rw [forall_mem_addAll]
  simp only [mem_early_iff, Bool.or_eq_false_iff, Bool.not_eq_false']
  constructor
  · intro h
    refine ⟨⟨?_, ?_⟩, ?_⟩
    · by_contra ht
      have := h _ (.inl ⟨(Bool.not_eq_true _).mp ht, rfl⟩)
      simp [Session.Call.setsOption, Operation.setsOption, ht] at this
    · cases hs : o.speed with
      | none => rfl
      | some factor => exact h _ (.inr (.inl ⟨factor, hs, rfl⟩))
    · by_contra hc
      have := h _ (.inr (.inr (.inr (.inr (.inr ⟨(Bool.not_eq_true _).mp hc, rfl⟩)))))
      simp [Session.Call.setsOption, Operation.setsOption, hc] at this
  · rintro ⟨⟨ht, hs⟩, hc⟩ op
      (⟨h, -⟩ | ⟨_, h, -⟩ | ⟨_, -, rfl⟩ | ⟨_, -, rfl⟩ | ⟨_, -, rfl⟩ | ⟨h, -⟩)
    · rw [ht] at h; cases h
    · rw [h] at hs; cases hs
    · rfl
    · rfl
    · rfl
    · rw [hc] at h; cases h

theorem ordered_sources : Ordered o.sources := by
  unfold sources
  cases o.input <;> cases o.concat.inputs.isEmpty <;> simp [Ordered, Session.Call.setsOption]

/-- The calls of a command line are in order unless it asks for an overlay and for an option that
    is set before it. -/
theorem ordered_calls_iff :
    Ordered o.calls ↔ ¬ (o.overlay.isSome = true ∧ o.setsOptionEarly = true) := by
  -- Behind the sources only an overlay adds an input, so only it can come too late.
  have hearly : Ordered (o.sources ++ addAll o.early) :=
    (Session.ordered_append_iff o.addsInput_early).mpr o.ordered_sources
  rw [calls, List.append_assoc _ (addAll o.late), Session.ordered_append_iff o.addsInput_late]
  cases ho : o.overlay with
  | none => simpa [addAll] using hearly
  | some overlay =>
    have hlist : addAll [(some overlay).map Operation.overlay] = [.add (.overlay overlay)] := rfl
    have hsets : (∀ c ∈ o.sources ++ addAll o.early, c.setsOption = false) ↔
        o.setsOptionEarly = false := by
      rw [List.forall_mem_append, setsOption_sources, setsOption_early, and_comm]
      exact (Bool.or_eq_false_iff).symm
    have hadds : (Session.Call.add (.overlay overlay)).addsInput = true := rfl
    rw [hlist, Ordered, List.pairwise_append]
    simp only [List.pairwise_singleton, List.forall_mem_singleton, hadds, Bool.true_eq_false,
      or_false, hsets, true_and, Option.isSome_some, Bool.not_eq_true]
    exact ⟨fun h => h.2, fun h => ⟨hearly, h⟩⟩

end Options

/-- **Order of the arguments.** Let a command be built after calls that succeed. In it no option
    for the output stands before an input exactly if no call that adds inputs comes behind one that
    sets such an option. For a command line this is so unless it asks for an overlay and for an
    option that is set before it. -/
theorem inputsFirst_iff_ordered {so : SessionOptions} {host : Host} {s s' : Session} {c : Command}
    (hbuild : Session.build.perform s = (.ok c, s')) :
    (∀ calls : List Session.Call,
      (Session.sequence calls).perform (Session.start so host) = (.ok (), s) →
        (InputsFirst c.read ↔ Ordered calls)) ∧
    ∀ o : Options, (compile o).perform (Session.start so host) = (.ok (), s) →
      (InputsFirst c.read ↔ ¬ (o.overlay.isSome = true ∧ o.setsOptionEarly = true)) := by
  have hcalls (calls : List Session.Call)
      (h : (Session.sequence calls).perform (Session.start so host) = (.ok (), s)) :
      InputsFirst c.read ↔ Ordered calls := Session.inputsFirst_read_iff h hbuild
  refine ⟨hcalls, ?_⟩
  intro o ho
  rw [compile_eq_sequence] at ho
  rw [hcalls o.calls ho, o.ordered_calls_iff]

/-- A logo on a video that is encoded: the options of the output come behind both inputs. -/
theorem inputsFirst_logo_and_encoding :
    let so : SessionOptions := ⟨"ffmpeg", "/tmp", true, true⟩
    let host : Host := { tree := { entries := [(["logo.png"], .file "" false)] } }
    let o : Options :=
      { input := some "in.mp4", output := "out.mp4", overlay := some { source := "logo.png" },
        encoding := { codec := some "libx264" } }
    ∃ s s' c, Session.build.perform s = (.ok c, s') ∧
      (Session.sequence o.calls).perform (Session.start so host) = (.ok (), s) ∧
      (compile o).perform (Session.start so host) = (.ok (), s) ∧ Ordered o.calls ∧
      InputsFirst c.read := by
  intro so host o
  have hcompile := Action.perform_of_isOk
    (show ((compile o).perform (Session.start so host)).1.isOk = true by decide +kernel)
  obtain ⟨c, hbuild, -⟩ := Action.perform_of_any
    (show ((Session.build.perform ((compile o).perform (Session.start so host)).2).1.toOption.any
      fun c => decide (c.output = some "out.mp4")) = true by decide +kernel)
  have hcalls := hcompile
  rw [compile_eq_sequence o] at hcalls
  have hfirst : InputsFirst c.read :=
    ((inputsFirst_iff_ordered hbuild).2 o hcompile).mpr (by decide +kernel)
  exact ⟨_, _, c, hbuild, hcalls, hcompile,
    ((inputsFirst_iff_ordered hbuild).1 o.calls hcalls).mp hfirst, hfirst⟩

/-- A logo on a video that is cut: the cut is applied to the logo. -/
theorem trim_before_overlay_cuts_overlay :
    let so : SessionOptions := ⟨"ffmpeg", "/tmp", true, true⟩
    let host : Host := { tree := { entries := [(["logo.png"], .file "" false)] } }
    let o : Options :=
      { input := some "in.mp4", output := "out.mp4", trim := { start := some (.clock "1") },
        overlay := some { source := "logo.png" } }
    ∃ s s' c, (compile o).perform (Session.start so host) = (.ok (), s) ∧
      Session.build.perform s = (.ok c, s') ∧
      c.read.take 5 = [switch "-hide_banner", switch "-y", option "-i" "in.mp4", option "-ss" "1",
        option "-i" "logo.png"] ∧
      ¬ InputsFirst c.read := by
  intro so host o
  have hcompile := Action.perform_of_isOk
    (show ((compile o).perform (Session.start so host)).1.isOk = true by decide +kernel)
  obtain ⟨c, hbuild, hread⟩ := Action.perform_of_any
    (show ((Session.build.perform ((compile o).perform (Session.start so host)).2).1.toOption.any
      fun c => decide (c.read.take 5 = [switch "-hide_banner", switch "-y", option "-i" "in.mp4",
        option "-ss" "1", option "-i" "logo.png"])) = true by decide +kernel)
  refine ⟨_, _, c, hcompile, hbuild, hread, ?_⟩
  intro hfirst
  rw [← List.take_append_drop 5 c.read, hread] at hfirst
  have hcut := hfirst [switch "-hide_banner", switch "-y", option "-i" "in.mp4"]
    (option "-ss" "1") (option "-i" "logo.png" :: c.read.drop 5) rfl (by simp [values, valueOf?])
  simp [PrecedesInput] at hcut

end CommandLine

end Montage
