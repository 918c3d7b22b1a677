import Montage.Script.Invocation

/-!
# Running scripts

One launcher, for hosts whose programs are shell scripts. The tool itself takes any launcher, and nothing
that is proved of it rests on this one.

* `Script.run`: runs a script. A script that nests too deep is stopped as the system stops a program
  without memory for it, and one whose loop does not end as one that uses too much time.
* `Host.launch`: starts a program and runs it to its end.
-/

namespace Montage

namespace Script

open Running (setStatus)

section

variable (again : Bool → Script → Running Unit)

/-- Ends the script behind a command that failed if the option `e` is on, unless the status of the
command is tested. -/
def endIfFailed (tested : Bool) : Running Unit := do
  let s ← get
  if !tested && s.isOn 'e' && s.status ≠ 0 then Running.depart .ending

/-! ## Loops -/

/-- How many rounds a loop has. -/
def roundLimit : Nat := 200000

/-- How a part of a loop ended. -/
inductive Passage where
  | done
  /-- The next round follows. -/
  | skipped
  /-- The loop is left. -/
  | left
  deriving DecidableEq

/-- Runs a part of a loop. -/
def inLoop (step : Running Unit) : Running Passage :=
  Running.ofStep fun s =>
    let (outcome, s') := step.perform { s with loops := s.loops + 1 }
    let passage : Except Departure Passage :=
      match outcome with
      | .ok () => .ok .done
      | .error (.continuing n) => if n ≤ 1 then .ok .skipped else .error (.continuing (n - 1))
      | .error (.leaving n) => if n ≤ 1 then .ok .left else .error (.leaving (n - 1))
      | .error other => .error other
    (passage, { s' with loops := s.loops })

/-- Repeats a body as long as a condition says so. `last` is the status of the last round. -/
def repeatWhile (untilSuccess : Bool) (condition body : Running Unit) : Nat → Nat → Running Unit
  | 0, _ => Running.depart (.killed Signal.cpuTime)
  | limit + 1, last => do
    match ← inLoop condition with
    | .left => setStatus last
    | .skipped => repeatWhile untilSuccess condition body limit last
    | .done =>
      if ((← get).status = 0) = untilSuccess then setStatus last
      else
        match ← inLoop body with
        | .left => pure ()
        | _ => repeatWhile untilSuccess condition body limit (← get).status

/-- Runs a body for each value. -/
def repeatFor (name : String) (body : Running Unit) : List String → Running Unit
  | [] => pure ()
  | value :: rest => do
    Running.assign name value
    match ← inLoop body with
    | .left => pure ()
    | _ => repeatFor name body rest

/-! ## Choices -/

/-- Whether a text matches one of some words. -/
def matchesOne (subject : String) : List Word → Running Bool
  | [] => pure false
  | word :: rest => do
    let p ← Expansion.pattern (Process.capture again) word
    if p.accepts subject.toList then return true else matchesOne subject rest

/-- The script of the first case that a text matches. -/
def chosen? (subject : String) : List (List Word × Script) → Running (Option Script)
  | [] => pure none
  | (patterns, body) :: rest => do
    if ← matchesOne again subject patterns then return some body else chosen? subject rest

/-! ## Processes -/

/-- Runs the parts of a pipeline, each in a process of its own, and tells how the last one ended. A
part that does not end is stopped when it writes to one that has ended. -/
def pipe (tested : Bool) : Option Nat → List Script → Running Ending
  | _, [] => pure (.exited 0)
  | input, [last] => do
    if let .simple _ _ ([.literal name false] :: _) _ := last then Process.track name
    let (_, ending) ← Process.forked again do
      if input.isSome then Process.connect 0 input
      again tested last
    Process.announce ending
    return ending
  | input, part :: rest => do
    if let .simple _ _ ([.literal name false] :: _) _ := part then Process.track name
    let output ← Process.openFile (.buffer [] "")
    let (_, ending) ← Process.forked again do
      if input.isSome then Process.connect 0 input
      Process.connect 1 (some output)
      again tested part
    unless ending = .signalled Signal.cpuTime do Process.announce ending
    let last ← pipe tested (some output) rest
    modify fun s => { s with files := s.files.set output .nowhere }
    return last

/-- Runs a script in the background. Since it runs at once it has ended already behind that. -/
def runBeside (body : Script) : Running Unit := do
  let nowhere ← Process.openFile .nowhere
  let (process, ending) ← Process.forked again do
    Process.connect 0 (some nowhere)
    again false body
  modify fun s => { s with jobs := s.jobs ++ [(process, ending)], lastJob := some process, status := 0 }

/-! ## Commands -/

/-- Runs a command, simple or compound, with a way to run the commands in it. `tested` tells whether
its status is tested. -/
def step (tested : Bool) : Script → Running Unit
  | .simple line assignments words redirections => do
    Invocation.run again tested line assignments words redirections
    endIfFailed tested
  | .block parts => parts.forM (again tested)
  | .andThen first second => do
    again true first
    if (← get).status = 0 then again tested second
  | .orElse first second => do
    again true first
    if (← get).status ≠ 0 then again tested second
  | .negate body => do
    again true body
    modify fun s => { s with status := if s.status = 0 then 1 else 0 }
  | .pipeline parts => do
    let ending ← pipe again tested none parts
    setStatus (Process.statusOf ending)
    Process.receive
    endIfFailed tested
  | .background body => runBeside again body
  | .subshell body => do
    Process.waitFor again (again tested body)
    endIfFailed tested
  | .branch condition yes no => do
    again true condition
    if (← get).status = 0 then again tested yes
    else
      match no with
      | .block [] => setStatus 0
      | no => again tested no
  | .loop untilSuccess condition body =>
    repeatWhile untilSuccess (again true condition) (again tested body) roundLimit 0
  | .forEach line name items body => do
    modify fun s => { s with line }
    match ← Expansion.fields (Process.capture again) items with
    | [] => setStatus 0
    | values => repeatFor name (again tested body) values
  | .choice line subject cases => do
    modify fun s => { s with line }
    let subject ← Expansion.text (Process.capture again) subject
    match ← chosen? again subject cases with
    | none | some (.block []) => setStatus 0
    | some body => again tested body
  | .redirected line body redirections => do
    modify fun s => { s with line }
    let resolved ← redirections.mapM (Redirecting.resolve (Process.capture again))
    Redirecting.withRedirections (Process.capture again) false resolved (again tested body) (setStatus 2)
  | .define name body => do
    modify fun s =>
      { s with functions := (name, body) :: s.functions.filter (·.1 ≠ name), status := 0 }

end

/-- Runs a script of which no part lies deeper than a bound. -/
def run : Nat → Bool → Script → Running Unit
  | 0, _, _ => Running.depart (.killed Signal.segmentation)
  | depth + 1, tested, script => do
    unless (← get).isOn 'n' do
      step (run depth) tested script
      Process.runPending (run depth)

/-- How deep scripts may nest. -/
def depthLimit : Nat := 20000

end Script

/-! ## Programs -/

namespace Host

/-- A process that starts programs and reads what they write. -/
def launcher (h : Host) : Shell where
  host := h
  files := ⟨#[.nowhere, .buffer [] "", .buffer [] ""]⟩
  nextProcess := h.process + 1
  name := ""
  values := h.environment.map fun (name, value) =>
    (Octet.ofText name, { value := some (Octet.ofText value), exported := true })
  descriptors := [(0, 0), (1, 1), (2, 2)]
  process := h.process
  own := h.process

/-- Starts one of the programs that a host has and runs it to its end. -/
def launch : Launcher := fun h program arguments => do
  let call ← h.programCall program arguments
  let (ending, s) := Process.call (Script.run Script.depthLimit) Process.callLevels call
    h.launcher
  let text (file : Nat) : String := Octet.toText (s.files.bufferText file)
  return (⟨text 1, text 2, ending⟩, s.host)

end Host

end Montage
