import Mathlib.Data.List.ReduceOption
import Montage.CommandLine.Tool
import Montage.Proofs.Call

/-!
# The calls of a command line

A command line is put into a session by a fixed row of calls. What holds for all calls of a session
so holds for command lines.

* `CommandLine.Options.calls`: the calls.
* `CommandLine.compile_eq_sequence`: options are put into a session by these calls.
-/

namespace Montage

namespace CommandLine

/-- Calls that add the operations that are asked for. -/
def addAll (requested : List (Option Operation)) : List Session.Call :=
  requested.reduceOption.map .add

namespace Options

/-- The calls for the input and for the files to join. -/
def sources (o : Options) : List Session.Call :=
  o.input.toList.map .input ++ if o.concat.inputs.isEmpty then [] else [.concat o.concat]

/-- The operations that may be asked for and come before an overlay. -/
def early (o : Options) : List (Option Operation) :=
  [if o.trim.isEmpty then none else some (.trim o.trim),
    o.speed.map fun factor => .speed ⟨factor⟩, o.resize.map .resize, o.crop.map .crop,
    o.rotate.map fun degrees => .rotate ⟨degrees⟩,
    if o.color.isEmpty then none else some (.adjustColor o.color)]

/-- Those that come behind an overlay. -/
def late (o : Options) : List (Option Operation) :=
  [o.caption.map .caption, if o.encoding.isEmpty then none else some (.encode o.encoding)]

/-- The calls that a command line asks for. -/
def calls (o : Options) : List Session.Call :=
  o.sources ++ addAll o.early ++ addAll [o.overlay.map .overlay] ++ addAll o.late ++
    [.output o.output {}]

end Options

theorem forM_addIf (requested : List (Option Operation)) :
    forM requested addIf = Session.sequence (addAll requested) := by
  induction requested with
  | nil => rfl
  | cons op rest ih =>
    rw [List.forM_cons, ih]
    cases op with
    | none => simp [addIf, addAll]
    | some op => simp [addIf, addAll, Session.sequence, Session.Call.action]

/-- The options of a command line are put into the session by these calls. -/
theorem compile_eq_sequence (o : Options) : compile o = Session.sequence o.calls := by
  have happend (xs ys : List Session.Call) :
      Session.sequence (xs ++ ys) = (Session.sequence xs >>= fun _ => Session.sequence ys) :=
    List.forM_append
  have houtput : Session.sequence [.output o.output {}] = Session.setOutput o.output := by
    simp [Session.sequence, Session.Call.action]
  rw [Options.calls, happend, happend, happend, happend, houtput, ← forM_addIf, ← forM_addIf,
    ← forM_addIf]
  simp only [Options.early, Options.late, List.forM_cons, List.forM_nil, bind_assoc, pure_bind]
  cases hi : o.input <;> cases hc : o.concat.inputs.isEmpty <;>
    simp [compile, Options.sources, Session.sequence, Session.Call.action, hi, hc]

theorem forall_mem_addAll {requested : List (Option Operation)} {p : Session.Call → Prop} :
    (∀ c ∈ addAll requested, p c) ↔ ∀ op, some op ∈ requested → p (.add op) := by
  simp only [addAll, List.forall_mem_map, List.reduceOption_mem_iff]

end CommandLine

end Montage
