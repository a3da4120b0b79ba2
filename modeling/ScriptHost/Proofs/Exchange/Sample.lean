-- A small engine that has one object and throws at whatever else it is asked. The
-- laws about engines of some kind are seen at work on it.
import ScriptHost.Proofs.Exchange.Ending

namespace ScriptHost

variable {ε : Type}

/-- The word of the only object. -/
def Layout.sole (ℓ : Layout) : ℓ.Word := ℓ.assemble .object 16

/-- An engine that hands out its only object to whoever evaluates a script. It makes
neither text nor number of anything. Its own state tells whether an exception is pending. -/
def Engine.sole (ℓ : Layout) : Engine ℓ Bool ε where
  answer
    | .freeValue _ => fun m => ⟨.value (), [], m⟩
    | .toText _ => fun m => ⟨.value none, [], { m with inner := true }⟩
    | .freeText _ => fun m => ⟨.value (), [], m⟩
    | .stringify _ => fun m => ⟨.value (ℓ.immediate .exception 0), [], { m with inner := true }⟩
    | .parse _ => fun m => ⟨.value (ℓ.immediate .exception 0), [], { m with inner := true }⟩
    | .takeException => fun m => ⟨.value (ℓ.immediate .undefined 0), [], { m with inner := false }⟩
    | .toDouble _ => fun m => ⟨.value none, [], { m with inner := true }⟩
    | .toBigInteger _ => fun m => ⟨.value .threw, [], { m with inner := true }⟩
    | .newText _ => fun m => ⟨.value (ℓ.immediate .null 0), [], m⟩
    | .eval _ _ => fun m => ⟨.value ℓ.sole, [], m.retain ℓ ℓ.sole⟩

theorem Engine.sole_replies (ℓ : Layout) : (Engine.sole ℓ : Engine ℓ Bool ε).Replies := by
  intro r m
  cases r <;> exact ⟨_, rfl⟩

/-- A machine on which nothing has happened yet. -/
def Machine.fresh : Machine Bool := ⟨false, fun _ => 0, ⟨0x1F80, 0x37F⟩, []⟩

/-- A script is evaluated for the object. A clone of the handle is made a bare reference and
owned again, an exception is met on the way, and both handles are dropped. -/
def Operation.soleSession (ℓ : Layout) : List (Operation ℓ) :=
  [.eval "" "", .clone 0, .intoWord 1, .toText ℓ.sole, .own ℓ.sole, .drop 0, .drop 2]

end ScriptHost
