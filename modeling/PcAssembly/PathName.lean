import PcAssembly.Text.Blank

/-! # Names of files in paths

    The file a path names is its last step; empty steps and steps that stay
    where they are do not count.  A step up names no file.  The extension of
    a file is what follows the last dot of its name, unless that dot is the
    first character. -/

namespace PcAssembly.PathName

/-- The steps of a path, without those that stay in place. -/
def steps (path : String) : List (List Char) :=
  (Text.split '/' path.toList).filter fun step => step != [] && step != ['.']

/-- The name of the file that the path ends in. -/
def fileName? (path : String) : Option (List Char) :=
  match (steps path).getLast? with
  | some ['.', '.'] => none
  | name => name

/-- What follows the last dot of a name that has one after its first
    character. -/
def extensionOf? (name : List Char) : Option (List Char) :=
  let extension := (name.reverse.takeWhile (· != '.')).reverse
  if extension.length + 1 < name.length then some extension else none

/-- The extension of the file that the path ends in. -/
def extension? (path : String) : Option String :=
  ((fileName? path).bind extensionOf?).map String.ofList

end PcAssembly.PathName
