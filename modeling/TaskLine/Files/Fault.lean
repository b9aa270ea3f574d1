import TaskLine.Text.Utf8

/-!
# File faults

Why a file cannot be read, written or removed. Most faults name a path, as it was
written where the file was asked for.
-/

namespace TaskLine

/-- Why a file cannot be used. -/
inductive FileFault where
  /-- A path begins with the home directory of someone who has none. -/
  | noHome
  /-- A name holds the character U+0000. -/
  | nullCharacter
  | missing (path : Text)
  /-- A directory cannot be made because there is a file of its name. -/
  | occupied (path : Text)
  /-- A file stands where a directory has to be. -/
  | notDirectory (path : Text)
  | isDirectory (path : Text)
  /-- A path or a name in it has too many bytes. -/
  | tooLong (path : Text)
  /-- A file holds no text. -/
  | undecodable (fault : Utf8.Fault)
deriving DecidableEq, Repr

/-- The message of a fault with a number of the operating system. -/
def systemMessage (number : Nat) (reason : String) (path : Text) : Text :=
  "[Errno ".toList ++ Text.ofNat number ++ "] ".toList ++ reason.toList ++ ": ".toList
    ++ Text.quoted path

def FileFault.message : FileFault → Text
  | .noHome => "Could not determine home directory.".toList
  | .nullCharacter => "embedded null byte".toList
  | .missing path => systemMessage 2 "No such file or directory" path
  | .occupied path => systemMessage 17 "File exists" path
  | .notDirectory path => systemMessage 20 "Not a directory" path
  | .isDirectory path => systemMessage 21 "Is a directory" path
  | .tooLong path => systemMessage 36 "File name too long" path
  | .undecodable f => f.message

end TaskLine
