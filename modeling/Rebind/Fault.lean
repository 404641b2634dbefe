import Rebind.Text.Quoted

/-!
# Faults

What can stop an operation, by cause.  Most arise from findings that were handed in incomplete; the
source text itself gives rise to three only, a class that is its own ancestor, a handler whose
resources are spread over several lines and a class without a parent that is to be summed up.
-/

namespace Rebind

inductive DiskCause where
  | noSuchFile
  | notPermitted
  | alreadyExists
  | notDirectory
  | isDirectory
  | noSpace
  deriving DecidableEq, Repr

def DiskCause.text : DiskCause → Text
  | .noSuchFile => "[Errno 2] No such file or directory"
  | .notPermitted => "[Errno 13] Permission denied"
  | .alreadyExists => "[Errno 17] File exists"
  | .notDirectory => "[Errno 20] Not a directory"
  | .isDirectory => "[Errno 21] Is a directory"
  | .noSpace => "[Errno 28] No space left on device"

inductive Fault where
  | missing (key : Text)
  | invalid (reason : Text)
  /-- a value of another kind stands where a text, a list or a dictionary is needed -/
  | wrongKind
  /-- a value of another kind was refused, with the reason -/
  | unfit (reason : Text)
  | noOperation
  | endlessInheritance
  | endOfInput
  | outOfRange
  | disk (cause : DiskCause) (path : Option Text)
  | sameFile (names : Text)
  | notText
  /-- half of a surrogate pair was to be written -/
  | notEncodable
  deriving DecidableEq, Repr

/-- the wording that goes with a fault, for the causes that have one of their own -/
def Fault.message? : Fault → Option Text
  | .missing key => some (quoted key)
  | .invalid reason => some reason
  | _ => none

def Fault.text : Fault → Text
  | .missing key => quoted key
  | .invalid reason => reason
  | .wrongKind => "unsupported kind of value"
  | .unfit reason => reason
  | .noOperation => "no such operation on the value"
  | .endlessInheritance => "maximum recursion depth exceeded"
  | .endOfInput => "EOF when reading a line"
  | .outOfRange => "list index out of range"
  | .disk cause none => cause.text
  | .disk cause (some path) => cause.text ++ ": ".toList ++ quoted path
  | .sameFile names => names ++ " are the same file".toList
  | .notText => "invalid start byte in the text of a file"
  | .notEncodable => "surrogates not allowed"

end Rebind
