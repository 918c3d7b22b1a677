/-!
# Faults of the machine

What the machine answers when it cannot do something with a file or a program.
-/

namespace Montage

inductive FileFault where
  | noSuchFile
  | notAFolder
  | alreadyThere
  | notEmpty
  | emptyPath
  | accessDenied
  | notAProgram
  | tooManyLinks
  | nameTooLong
  deriving DecidableEq

namespace FileFault

def message : FileFault → String
  | noSuchFile => "No such file or directory"
  | notAFolder => "Not a directory"
  | alreadyThere => "File exists"
  | notEmpty => "Directory not empty"
  | emptyPath => "Invalid argument"
  | accessDenied => "Permission denied"
  | notAProgram => "Exec format error"
  | tooManyLinks => "Too many levels of symbolic links"
  | nameTooLong => "File name too long"

/-- Whether a fault says that nothing stands at a path. Any other leaves that open. -/
def isAbsence : FileFault → Bool
  | noSuchFile | notAFolder => true
  | _ => false

end FileFault

end Montage
