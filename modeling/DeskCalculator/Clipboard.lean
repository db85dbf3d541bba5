/-!
# The clipboard

A result may be handed to the system's clipboard, which belongs to the display server. Copying
reaches for the clipboard first and then puts the text on it; either may fail, with a reason that
the clipboard gives.
-/
namespace DeskCalculator

/-- The system's clipboard, as it answers throughout a run: whether it can be reached, and whether
it takes a text. -/
structure Clipboard where
  access : Except (List Char) Unit
  put : List Char → Except (List Char) Unit

/-- Why a text was not copied, with the clipboard's own reason. -/
inductive CopyFault where
  | access (reason : List Char)
  | copy (reason : List Char)
deriving DecidableEq

def CopyFault.message : CopyFault → List Char
  | .access reason => "failed to access clipboard: ".toList ++ reason
  | .copy reason => "failed to copy to clipboard: ".toList ++ reason

namespace Clipboard

def copy (clipboard : Clipboard) (text : List Char) : Except CopyFault Unit := do
  clipboard.access.mapError .access
  (clipboard.put text).mapError .copy

/-- The clipboard of a run without a display server. -/
def unreachable : Clipboard :=
  let reason := ("Unknown error while interacting with the clipboard: " ++
    "X11 server connection timed out because it was unreachable").toList
  ⟨.error reason, fun _ => .error reason⟩

end Clipboard

end DeskCalculator
