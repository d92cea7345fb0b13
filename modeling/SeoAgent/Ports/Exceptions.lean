/-!
# Exceptions

The program raises exceptions and tells them apart by class. An exception is
kept as its class and its text, which is what `type(exc).__name__`,
`isinstance` and `str(exc)` can see of it. Classes of packages outside the
repository are `other`.
-/

namespace SeoAgent.Ports

/-- The exception classes the modelled code raises or catches. -/
inductive ExcType
  | valueError
  | keyError
  | typeError
  | runtimeError
  | lookupError
  | overflowError
  | validationError
  | persistenceConflictError
  | persistenceNotFoundError
  | actionChangedError
  | approvalError
  | httpException (statusCode : Nat)
  | other (name : String)
  deriving DecidableEq, Repr

namespace ExcType

/-- `type(exc).__name__`. -/
def name : ExcType → String
  | valueError => "ValueError"
  | keyError => "KeyError"
  | typeError => "TypeError"
  | runtimeError => "RuntimeError"
  | lookupError => "LookupError"
  | overflowError => "OverflowError"
  | validationError => "ValidationError"
  | persistenceConflictError => "PersistenceConflictError"
  | persistenceNotFoundError => "PersistenceNotFoundError"
  | actionChangedError => "ActionChangedError"
  | approvalError => "ApprovalError"
  | httpException _ => "HTTPException"
  | other n => n

/-- The class a class is derived from, among those told apart here. -/
def parent : ExcType → Option ExcType
  | keyError | persistenceNotFoundError => some lookupError
  | validationError | approvalError => some valueError
  | persistenceConflictError => some runtimeError
  | actionChangedError => some persistenceConflictError
  | _ => none

/-- `isinstance`: no class here is more than two steps from its root. -/
def isA (c d : ExcType) : Bool :=
  c == d || c.parent == some d || (c.parent.bind parent) == some d

end ExcType

/-- A raised exception. -/
structure Exc where
  type : ExcType
  message : String
  deriving DecidableEq, Repr

namespace Exc

/-- `raise ValueError(message)`. -/
def valueError (message : String) : Exc := ⟨.valueError, message⟩

/-- `raise KeyError(key)`, whose text is the quoted key. -/
def keyError (key : String) : Exc := ⟨.keyError, s!"'{key}'"⟩

/-- `raise HTTPException(status_code, detail)`. -/
def http (statusCode : Nat) (detail : String) : Exc :=
  ⟨.httpException statusCode, detail⟩

/-- `isinstance(exc, c)`. -/
def isA (e : Exc) (c : ExcType) : Bool := e.type.isA c

end Exc

end SeoAgent.Ports
