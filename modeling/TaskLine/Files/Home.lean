import TaskLine.Files.Fault
import TaskLine.Files.Path

/-!
# Home directories

A relative path may begin with a tilde and the name of a user, for the home
directory of that user. A tilde alone stands for the home directory of the one who
runs the program.
-/

namespace TaskLine.Path

/-- Put a home directory in front of a path that begins with a tilde. `homes` are the
home directories by user; the user without a name is the one who runs the program. -/
def expand (homes : List (Text × Text)) (p : Path) : Except FileFault Path :=
  match p.root, p.names with
  | [], ('~' :: user) :: names =>
    if user.contains '\x00' then .error .nullCharacter
    else
      match homes.lookup user with
      | some home =>
        let home := ofText home
        .ok { home with names := home.names ++ names }
      | none => .error .noHome
  | _, _ => .ok p

end TaskLine.Path
