import Flashdeck.Settings
import Flashdeck.Text.Utf8

/-!
# Faults

All that can go wrong. Compiling a text never fails; reading it can, and so can the settings and a
move of a card that is not there.
-/

namespace Flashdeck

/-- Why a file gives no bytes. -/
inductive FileFault where
  | notFound
  | isDirectory
  | notDirectory
  /-- Any other cause, in the system's words. -/
  | other (description : String)
deriving DecidableEq, Repr

/-- The cause in the system's words. -/
def FileFault.message : FileFault → String
  | .notFound => "No such file or directory (os error 2)"
  | .isDirectory => "Is a directory (os error 21)"
  | .notDirectory => "Not a directory (os error 20)"
  | .other description => description

/-- What went wrong. -/
inductive Fault where
  /-- A script cannot be read from its file. -/
  | unreadable (path : String) (cause : FileFault)
  /-- A script is not UTF-8. -/
  | notUtf8 (cause : Text.Utf8.Fault)
  /-- A setting has a value that does not do. -/
  | settings (cause : Settings.ValueFault)
  /-- A board of `size` cards has none at this position. -/
  | noSuchCard (position size : Nat)
deriving DecidableEq, Repr

/-- The fault in words. -/
def Fault.message : Fault → String
  | .unreadable path cause => "failed to read script " ++ path ++ ": " ++ cause.message
  | .notUtf8 cause => "script is not valid UTF-8: " ++ cause.message
  | .settings cause => "invalid configuration: " ++ cause.message
  | .noSuchCard position size =>
    "no card at position " ++ toString position ++ " (board has " ++ toString size ++ ")"

end Flashdeck
