import Overpass.Core.Bytes

/-! The error record and the two container types that the modelled code passes around.
`BOC` and `ZkProof` live outside the sources; only the fields the code reads are kept. -/
namespace Overpass

/-- `SystemErrorType`, with the kinds the modelled functions raise. `other` is the kind
`SystemError::new_string` gives, which the sources do not show. -/
inductive SystemErrorType
  | notFound
  | invalidProof
  | invalidInput
  | invalidAmount
  | batteryError
  | verificationError
  | stateUpdateError
  | proofGenerationError
  | dataConversionError
  | invalidState
  | other
  deriving DecidableEq, Repr

/-- `SystemError`: a kind and a message. -/
structure SystemError where
  errorType : SystemErrorType
  message : String
  deriving DecidableEq, Repr

theorem except_bind_ok {ε α β : Type} (x : Except ε α) (g : α → Except ε β) (b : β) :
    x.bind g = .ok b ↔ ∃ a, x = .ok a ∧ g a = .ok b := by
  cases x <;> simp [Except.bind]

theorem mapError_ok {ε ε' α : Type} (x : Except ε α) (f : ε → ε') (a : α) :
    x.mapError f = .ok a ↔ x = .ok a := by
  cases x <;> simp [Except.mapError]

/-- A bag of cells: the data of its cells and of its root cells. -/
structure BOC where
  cells : List Bytes
  roots : List Bytes
  deriving DecidableEq, Repr

/-- `BOC::new()`. -/
def BOC.new : BOC := ⟨[], []⟩

/-- A zero-knowledge proof, of which the storage node reads only the public inputs. -/
structure ZkProof where
  publicInputs : List Bytes
  deriving DecidableEq, Repr

end Overpass
