import Montage.Executor.Rehearsal
import Montage.Main
import Montage.Proofs.Action
import Montage.Proofs.Argument
import Montage.Proofs.Check
import Montage.Proofs.Edit
import Montage.Proofs.Effect
import Montage.Proofs.Rollback
import Montage.Proofs.Label
import Montage.Proofs.Sketch
import Montage.Proofs.Call
import Montage.Proofs.Streams
import Montage.Proofs.UsedOnce
import Montage.Proofs.Drawing
import Montage.Proofs.InputsFirst
import Montage.Proofs.MainStream
import Montage.Proofs.CleanUp
import Montage.Proofs.LeftList
import Montage.Proofs.ExitCode
import Montage.Proofs.Gathering
import Montage.Proofs.Passing
import Montage.Proofs.Blocking
import Montage.Proofs.LastArgument
import Montage.Proofs.Outline
import Montage.Proofs.Layout
import Montage.Proofs.Compiling
import Montage.Proofs.FreshLabel
import Montage.Proofs.LeftOut
import Montage.Proofs.Trimming
import Montage.Proofs.ClockText
import Montage.Proofs.Millisecond
import Montage.Proofs.Tempo
import Montage.Proofs.Numeral
import Montage.Proofs.Visibility
import Montage.Proofs.Octets
import Montage.Proofs.Escaping
import Montage.Proofs.ListReading
import Montage.Proofs.TempoText
import Montage.Proofs.Overflow
import Montage.Proofs.Marking
import Montage.Proofs.Finiteness
import Montage.Proofs.Pieces
import Montage.Proofs.IntegerWord
import Montage.Proofs.GeometryText
import Montage.Proofs.Searching
import Montage.Proofs.ErrorLine
