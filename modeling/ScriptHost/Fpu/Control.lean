-- The floating-point control state of a thread: the vector control register and the older
-- control word. Each has mask bits that keep exceptional results from raising a signal. The
-- low six bits of the vector register only report what has happened.

namespace ScriptHost

structure ControlState where
  mxcsr : UInt32
  x87 : UInt16
  deriving DecidableEq

namespace ControlState

/-- The mask bits of the vector control register. -/
def vectorMasks : UInt32 := 0x1F80

/-- The mask bits of the control word. -/
def wordMasks : UInt16 := 0x3F

/-- The bits that report what has happened. -/
def stickyFlags : UInt32 := 0x3F

/-- The state as it is read: without the bits that report. -/
def snapshot (c : ControlState) : ControlState := { c with mxcsr := c.mxcsr &&& ~~~stickyFlags }

/-- The state with every trap masked. -/
def masked (c : ControlState) : ControlState := ⟨c.mxcsr ||| vectorMasks, c.x87 ||| wordMasks⟩

def allTrapsMasked (c : ControlState) : Bool :=
  c.mxcsr &&& vectorMasks == vectorMasks && c.x87 &&& wordMasks == wordMasks

def describe (c : ControlState) : String :=
  "FpState(RawState \x7b mxcsr: " ++ toString c.mxcsr.toNat ++ ", x87: " ++ toString c.x87.toNat
    ++ " \x7d)"

end ControlState

end ScriptHost
