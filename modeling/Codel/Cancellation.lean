namespace Codel

/-- Why a program is asked to stop. -/
inductive CancelCause where
  | canceled
  | deadline
  | other (text : String)
deriving DecidableEq, Repr

def CancelCause.text : CancelCause → String
  | canceled => "context canceled"
  | deadline => "context deadline exceeded"
  | other text => text

/-- A request to stop that shows from the question after the first `after` ones on. -/
structure Cancellation where
  after : Nat
  cause : CancelCause := .canceled
deriving DecidableEq, Repr

end Codel
