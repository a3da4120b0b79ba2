-- Interrupt flags. A flag is shared by any number of owners, each of which may raise or lower
-- it. A script is stopped when its engine finds the flag raised. Looking at the flag does not
-- lower it.

namespace ScriptHost

structure Flag where
  requested : Bool
  owners : Nat
  deriving DecidableEq

/-- All the flags ever made. A flag is known by its place. -/
abbrev Flags := List Flag

namespace Flags

/-- A new flag, lowered, with its maker as the only owner. -/
def make (fs : Flags) : Nat × Flags := (fs.length, fs ++ [⟨false, 1⟩])

def share (fs : Flags) (i : Nat) : Flags := fs.modify i fun f => { f with owners := f.owners + 1 }

def leave (fs : Flags) (i : Nat) : Flags := fs.modify i fun f => { f with owners := f.owners - 1 }

def set (fs : Flags) (i : Nat) (requested : Bool) : Flags :=
  fs.modify i fun f => { f with requested }

def request (fs : Flags) (i : Nat) : Flags := fs.set i true

def reset (fs : Flags) (i : Nat) : Flags := fs.set i false

def isRequested (fs : Flags) (i : Nat) : Bool := (fs[i]?).any fun f => f.requested

/-- What an engine sees of the flag that it was given, if it was given one. -/
def poll (fs : Flags) (given : Option Nat) : Bool := given.any fs.isRequested

end Flags

end ScriptHost
