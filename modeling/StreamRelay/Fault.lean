/-
  StreamRelay/Fault.lean
  ======================
  **Why an input or output operation failed.**
-/

namespace StreamRelay

inductive Fault where
  | noSuchFile
  | inputOutput
  | noSuchDevice
  | accessDenied
  | notFolder
  | isFolder
  | invalidArgument
  | busy
  | noSpace
  | nameTooLong
  | nulInPath
  | interrupted
  | wouldBlock
  | brokenPipe
  | nothingAccepted
  | nothingStored
  | other (text : String)
deriving DecidableEq, Repr

/-- The wording of a fault; those that the system reports carry its number. -/
def Fault.message : Fault → String
  | .noSuchFile => "No such file or directory (os error 2)"
  | .inputOutput => "Input/output error (os error 5)"
  | .noSuchDevice => "No such device or address (os error 6)"
  | .accessDenied => "Permission denied (os error 13)"
  | .notFolder => "Not a directory (os error 20)"
  | .isFolder => "Is a directory (os error 21)"
  | .invalidArgument => "Invalid argument (os error 22)"
  | .busy => "Text file busy (os error 26)"
  | .noSpace => "No space left on device (os error 28)"
  | .nameTooLong => "File name too long (os error 36)"
  | .nulInPath => "file name contained an unexpected NUL byte"
  | .interrupted => "operation interrupted"
  | .wouldBlock => "operation would block"
  | .brokenPipe => "broken pipe"
  | .nothingAccepted => "failed to write whole buffer"
  | .nothingStored => "failed to write the buffered data"
  | .other text => text

end StreamRelay
