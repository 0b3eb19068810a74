namespace CatalogLinker.CommandLine

inductive FileError where
  | notFound
  | noDevice
  | notDirectory
  | isDirectory
  | noSpace
  | nameTooLong
  | notText
deriving DecidableEq, Repr

namespace FileError

def message : FileError → String
  | notFound => "No such file or directory (os error 2)"
  | noDevice => "No such device or address (os error 6)"
  | notDirectory => "Not a directory (os error 20)"
  | isDirectory => "Is a directory (os error 21)"
  | noSpace => "No space left on device (os error 28)"
  | nameTooLong => "File name too long (os error 36)"
  | notText => "stream did not contain valid UTF-8"

end FileError

abbrev Place := List String

inductive Stream where
  | input
  | output
  | errors
deriving DecidableEq, Repr

/-- What stands at a place. The empty device keeps nothing of what is written to it, and a device
may refuse every use. -/
inductive Content where
  | directory
  | file (bytes : ByteArray)
  | stream (s : Stream)
  | emptyDevice
  | refusing (e : FileError)

end CatalogLinker.CommandLine
