/-
Why an operation on a file fails, and how the failure is worded.
-/
namespace ResourceClient

inductive FileError
  | missing
  | busy
  | occupied
  | notFolder
  | isFolder
  | tooManyLinks
  | notText
  | other (reason : String)
  deriving DecidableEq, Repr

def FileError.message : FileError → String
  | .missing => "No such file or directory (os error 2)"
  | .busy => "Device or resource busy (os error 16)"
  | .occupied => "File exists (os error 17)"
  | .notFolder => "Not a directory (os error 20)"
  | .isFolder => "Is a directory (os error 21)"
  | .tooManyLinks => "Too many levels of symbolic links (os error 40)"
  | .notText => "stream did not contain valid UTF-8"
  | .other reason => reason

end ResourceClient
