import StorageClient.Text.Basic

/-!
Errors that the operating system reports, and their texts. A name that cannot even be handed to it
is refused before.
-/

namespace StorageClient

inductive OsError where
  | noSuchFile
  | inputOutput
  | fileExists
  | notADirectory
  | isADirectory
  | nameTooLong
  | nulInName
  | brokenPipe
  | connectionReset
  | connectionRefused
deriving DecidableEq, Repr

def OsError.message : OsError → Text
  | noSuchFile => "No such file or directory (os error 2)".toList
  | inputOutput => "Input/output error (os error 5)".toList
  | fileExists => "File exists (os error 17)".toList
  | notADirectory => "Not a directory (os error 20)".toList
  | isADirectory => "Is a directory (os error 21)".toList
  | nameTooLong => "File name too long (os error 36)".toList
  | nulInName => "file name contained an unexpected NUL byte".toList
  | brokenPipe => "Broken pipe (os error 32)".toList
  | connectionReset => "Connection reset by peer (os error 104)".toList
  | connectionRefused => "Connection refused (os error 111)".toList

end StorageClient
