import TaskLine.Files.Fault
import TaskLine.Yaml.Value

/-!
# Setting values

A setting can hold any value of the configuration file. Where a switch or a
number is wanted the value is read generously: the words for on and off count in
any letter case, whole numbers may be written as text, fractions are cut off,
and anything else gives the default. Only an infinite number is refused, and for
a switch a number with too many digits.
-/

namespace TaskLine

/-- The value of a setting. -/
abbrev Setting := Yaml.Value

/-- Why a setting cannot be read. -/
inductive SettingFault where
  | infinite
  /-- A whole number has too many digits to be written. -/
  | tooManyDigits
  /-- The configuration file cannot be looked for. -/
  | file (fault : FileFault)
deriving DecidableEq, Repr

def SettingFault.message : SettingFault → Text
  | .infinite => "cannot convert float infinity to integer".toList
  | .tooManyDigits => Text.tooManyDigits none
  | .file f => f.message

/-- The words for on. -/
def onWords : List Text := ["1".toList, "true".toList, "yes".toList, "on".toList]

/-- The words for off. -/
def offWords : List Text := ["0".toList, "false".toList, "no".toList, "off".toList]

/-- The switch that a word stands for. -/
def switch? (word : Text) : Option Bool :=
  let w := (Text.trim word).map Text.lowerAscii
  if onWords.contains w then some true
  else if offWords.contains w then some false
  else none

namespace Setting

/-- A setting read as a switch. -/
def toBool (objects : Yaml.Objects) (v : Setting) (default : Bool) : Except SettingFault Bool :=
  if v.exceedsDigits objects then .error .tooManyDigits
  else
    .ok (match v with
      | .bool b => b
      | .int n => (switch? (Text.ofInt n)).getD default
      | .text s => (switch? s).getD default
      | .null | .float _ | .codes _ | .bytes _ | .moment _ _ | .object _ => default)

/-- A setting read as a whole number, if it is one. -/
def whole? : Setting → Except SettingFault (Option Int)
  | .bool b => .ok (some (if b then 1 else 0))
  | .int n => .ok (some n)
  | .text s => .ok (Text.readInt? s)
  | .bytes bs => .ok (if bs.all (· < 128) then Text.readInt? (bs.map Char.ofNat) else none)
  | .float x =>
    match x.value with
    | .finite m e => .ok (some (Binary64.truncate m e))
    | .infinite _ => .error .infinite
    | .nan => .ok none
  | .null | .codes _ | .moment _ _ | .object _ => .ok none

/-- A setting read as a whole number that is not negative. -/
def toNat (v : Setting) (default : Int) : Except SettingFault Int :=
  (whole? v).map fun n =>
    match n with
    | some n => if 0 ≤ n then n else default
    | none => default

end Setting

end TaskLine
