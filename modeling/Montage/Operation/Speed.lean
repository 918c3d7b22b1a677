import Montage.Command
import Montage.Number.Printer
import Montage.Number.Reader

/-!
# Speed

Plays faster or slower. The video filter takes any factor. The audio filter takes only tempos from
0.5 to 2, so a factor beyond is split into stages whose product it is.

* `Speed.stages`: the tempo stages of a factor.
* `Speed.audioFilter`: the stages as text, empty if there are none.
-/

namespace Montage

structure Speed where
  factor : Binary64
  deriving DecidableEq

namespace Speed

/-! ## Tempo stages -/

def slowest : Binary64 := 0.5

def fastest : Binary64 := 2

/-- A rest this near to one is left out. -/
def unityTolerance : Binary64 := 1e-9

/-- Takes stages off a tempo as long as it is beyond a limit, at most as often as `fuel` says: the
stages and what is left. -/
def peel (isBeyond : Binary64 → Bool) (stage : Binary64) :
    Nat → Binary64 → List Binary64 × Binary64
  | 0, tempo => ([], tempo)
  | fuel + 1, tempo =>
    if isBeyond tempo then
      let (stages, rest) := peel isBeyond stage fuel (tempo / stage)
      (stage :: stages, rest)
    else ([], tempo)

/-- No finite positive number is halved or doubled this often before it lies between the limits:
the format spans 2098 powers of two. -/
def mostStages : Nat := 2100

/-- The stages of a tempo: twos or halves, and the rest unless it is one (`decompose_tempo`). -/
def tempoStages (factor : Binary64) : List Binary64 :=
  if factor.same 1 then []
  else
    let (fast, rest) := peel (fun t => decide (fastest < t)) fastest mostStages factor
    let (slow, rest) := peel (fun t => decide (t < slowest)) slowest mostStages rest
    fast ++ slow ++ if unityTolerance < (rest - 1).abs then [rest] else []

def stages (s : Speed) : List Binary64 := tempoStages s.factor

/-- A stage as text (`format_stage`). -/
def stageText (stage : Binary64) : String :=
  if stage.same fastest then "2.0" else if stage.same slowest then "0.5" else stage.fixed 4

/-- The stages as a chain of filters, empty if there are none (`atempo_filter`). -/
def audioFilter (s : Speed) : String :=
  Text.join "," (s.stages.map fun stage => "atempo=" ++ stageText stage)

/-! ## The operation -/

/-- The factor has to be finite and positive (`validate`). -/
def check (s : Speed) : Except Error Unit :=
  if 0 < s.factor ∧ s.factor.isFinite then .ok ()
  else .error (.invalidParameter "factor" "Speed factor must be positive.")

def videoParameters (s : Speed) : String :=
  "PTS/" ++ if s.factor.same 1 then "1.0" else s.factor.text

/-- The command with the video filter and, if there are stages, the audio filter
(`apply_to_command`). -/
def apply (s : Speed) (c : Command) : Command :=
  let c := c.filter "setpts" s.videoParameters
  if s.audioFilter.isEmpty then c else c.argument "-filter:a" s.audioFilter

def describe (s : Speed) : String :=
  let factor := s.factor.text
  s!"Setting speed factor to {factor}"

end Speed

end Montage
