-- Starting up. The first start checks the layout, builds the constants and installs the
-- settings. Every later start keeps what is installed.
import ScriptHost.Constants
import ScriptHost.Log
import ScriptHost.Settings

namespace ScriptHost

structure Installed (ℓ : Layout) where
  settings : Settings
  constants : Constants ℓ

namespace Installed

def announcement (ℓ : Layout) (settings : Settings) : Record :=
  ⟨.debug, "qjs-bridge initialized: scheme=" ++ ℓ.name ++ " value_size=" ++ toString ℓ.wordSize
    ++ " pointer_size=8 fpu_guard=" ++ (if settings.fpuGuard then "true" else "false")⟩

/-- The record of a start with other settings than the installed ones. -/
def refusal (installed ignored : Settings) : Record :=
  ⟨.warn, "bridge already initialized with " ++ installed.describe ++ "; ignoring "
    ++ ignored.describe⟩

def first (ℓ : Layout) (settings : Settings) : Except StartupError (Installed ℓ) := do
  ℓ.checkSize ℓ.expectedSize
  let constants := Constants.build ℓ
  constants.verify
  return { settings, constants }

/-- A start on top of what is installed, if anything is. -/
def start (ℓ : Layout) (installed : Option (Installed ℓ)) (settings : Settings) :
    Except StartupError (Installed ℓ × List Record) :=
  match installed with
  | some old => .ok (old, if old.settings = settings then [] else [refusal old.settings settings])
  | none => (first ℓ settings).map fun new => (new, [announcement ℓ settings])

end Installed

end ScriptHost
