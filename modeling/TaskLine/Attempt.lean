/-!
# Attempts

What is attempted can fail half way. Whatever was done until then stays done, so the
result comes together with the state that was reached.
-/

namespace TaskLine

/-- The result of something that may fail, and the state that it leaves behind
either way. -/
structure Attempt (ε σ α : Type) where
  result : Except ε α
  state : σ

namespace Attempt

variable {ε δ σ α β : Type}

/-- Something done without fault. -/
def done (s : σ) : Attempt ε σ Unit := ⟨.ok (), s⟩

/-- Go on from the state that was reached, unless there was a fault. -/
def andThen (x : Attempt ε σ α) (f : α → σ → Attempt ε σ β) : Attempt ε σ β :=
  match x with
  | ⟨.ok a, s⟩ => f a s
  | ⟨.error e, s⟩ => ⟨.error e, s⟩

/-- See a fault as a fault of another kind. -/
def mapFault (f : ε → δ) (x : Attempt ε σ α) : Attempt δ σ α := ⟨x.result.mapError f, x.state⟩

end Attempt

end TaskLine
