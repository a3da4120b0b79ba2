-- References to heap blocks. A counted word points to a block whose first field is its
-- reference count. Words that are not counted have no count and are left alone. Freeing a
-- block is for the engine to do.
import ScriptHost.Layout.Basic
import ScriptHost.Machine

namespace ScriptHost.Machine

variable {σ : Type}

def retain (m : Machine σ) (ℓ : Layout) (w : ℓ.Word) : Machine σ :=
  if ℓ.isCounted w then m.updateCount (ℓ.payload w) (· + 1) else m

def release (m : Machine σ) (ℓ : Layout) (w : ℓ.Word) : Machine σ :=
  if ℓ.isCounted w then m.updateCount (ℓ.payload w) (· - 1) else m

/-- The count of a word, if it has one. -/
def count? (m : Machine σ) (ℓ : Layout) (w : ℓ.Word) : Option Int32 :=
  if ℓ.isCounted w then some (m.counts (ℓ.payload w)) else none

end ScriptHost.Machine
