-- What the host and an engine share: the reference counts in the heap blocks, the floating-
-- point control state and the interrupt flags. Beside it stands a state that only the engine
-- looks at.
import ScriptHost.Fpu.Control
import ScriptHost.Interrupt.Flags

namespace ScriptHost

structure Machine (σ : Type) where
  inner : σ
  /-- The first field of the block at each address. -/
  counts : UInt64 → Int32
  control : ControlState
  flags : Flags

namespace Machine

variable {σ : Type}

/-- The count at one address changed. -/
def updateCount (m : Machine σ) (address : UInt64) (f : Int32 → Int32) : Machine σ :=
  { m with counts := fun a => if a = address then f (m.counts a) else m.counts a }

theorem updateCount_same (m : Machine σ) (a : UInt64) (f : Int32 → Int32) :
    (m.updateCount a f).counts a = f (m.counts a) := by
  simp [updateCount]

theorem updateCount_other (m : Machine σ) {a b : UInt64} (f : Int32 → Int32) (h : b ≠ a) :
    (m.updateCount a f).counts b = m.counts b := by
  simp [updateCount, h]

end Machine

end ScriptHost
