/-! # Files that cannot be read

    The reasons for which a file gives no text, in the words of the operating
    system. -/

namespace PcAssembly

/-- Why a file could not be read. -/
inductive FileFault where
  | notFound
  | isDirectory
  | notADirectory
  | notText
  | stated (message : String)
  deriving DecidableEq, Repr

/-- The reason in words. -/
def FileFault.message : FileFault → String
  | .notFound => "No such file or directory (os error 2)"
  | .isDirectory => "Is a directory (os error 21)"
  | .notADirectory => "Not a directory (os error 20)"
  | .notText => "stream did not contain valid UTF-8"
  | .stated message => message

end PcAssembly
