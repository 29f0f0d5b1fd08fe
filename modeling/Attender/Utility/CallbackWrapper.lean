/-!
# Callback wrappers

`callback_wrapper`: a continuation and an error handler that are set once an
operation has been started, and that run when it ends, or at once if it has
ended already. What an operation of the wrapper runs is its second result.
-/

namespace Attender.Utility

/-- `boost::system::error_code`, of an operation that failed. -/
inductive ErrorCode where
  /-- `boost::asio::error::operation_aborted`. -/
  | operationAborted
  /-- `boost::asio::error::eof`. -/
  | eof
  /-- `boost::asio::error::invalid_argument`. -/
  | invalidArgument
  /-- `boost::system::errc::protocol_error`. -/
  | protocolError
  /-- `boost::system::errc::not_enough_memory`. -/
  | notEnoughMemory
  /-- Any other. -/
  | other (code : Nat)
  deriving DecidableEq

/-- `error_code::value`, as on Linux. -/
def ErrorCode.value : ErrorCode → Nat
  | .operationAborted => 125
  | .eof => 2
  | .invalidArgument => 22
  | .protocolError => 71
  | .notEnoughMemory => 12
  | .other code => code

/-- `callback_wrapper`, with continuations in `κ` and error handlers in `φ`. -/
structure CallbackWrapper (κ φ : Type) where
  func : Option κ := none
  fail : Option φ := none
  fullfilled : Bool := false
  error : Bool := false
  lastEc : Option ErrorCode := none
  deriving DecidableEq

/-- What a callback wrapper runs. -/
inductive Called (κ φ : Type) where
  | continuation (f : κ)
  | errorHandler (f : φ) (ec : Option ErrorCode)
  deriving DecidableEq

namespace CallbackWrapper

variable {κ φ : Type}

/-- `callback_wrapper::then`. -/
def setThen (w : CallbackWrapper κ φ) (f : κ) : CallbackWrapper κ φ × List (Called κ φ) :=
  if w.fullfilled then (w, [.continuation f]) else ({ w with func := some f }, [])

/-- `callback_wrapper::except`. -/
def setExcept (w : CallbackWrapper κ φ) (f : φ) : CallbackWrapper κ φ × List (Called κ φ) :=
  if w.error then (w, [.errorHandler f w.lastEc]) else ({ w with fail := some f }, [])

/-- `callback_wrapper::fullfill`. -/
def fullfill (w : CallbackWrapper κ φ) : CallbackWrapper κ φ × List (Called κ φ) :=
  ({ w with fullfilled := true }, (w.func.map .continuation).toList)

/-- `callback_wrapper::error`. -/
def raise (w : CallbackWrapper κ φ) (ec : ErrorCode) : CallbackWrapper κ φ × List (Called κ φ) :=
  match w.fail with
  | some f => ({ w with error := true }, [.errorHandler f (some ec)])
  | none => ({ w with lastEc := some ec, error := true }, [])

end CallbackWrapper

end Attender.Utility
