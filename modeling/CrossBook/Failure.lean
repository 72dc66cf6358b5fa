import CrossBook.Decimal.Arithmetic
import CrossBook.Decimal.Text
import CrossBook.Side

/-!
# Failures

Why a computation has no result. An error is reported to whoever asked; an abort unwinds through
everything up to the block that was being processed.

## Main definitions

* `DomainError`, `ConfigError`, `ExecutionError`, `Error` — errors by their causes
* `Error.severity` — what an error says about the state it was met in
* `Abort` — the ways to unwind
* `Failure` — an error or an abort
* `Decimal.plus`, `minus`, `times`, `dividedBy` — arithmetic that aborts where it has no answer
-/

namespace CrossBook

open Text

/-- Errors of prices, amounts and orders. -/
inductive DomainError where
  | invalidDecimal (text : String)
  | precisionOverflow (operation : String)
  | tickOutOfRange (tick : Int)
  | priceOutOfRange (price : Decimal)
  | unknownDirection (tag : String)
  | unexpectedDirection (expected found : Side) (tick order : Int)
deriving DecidableEq

/-- The wording of a domain error; decimals keep the places they were written with. -/
def DomainError.message : DomainError → String
  | .invalidDecimal text => "invalid decimal '" ++ text ++ "'"
  | .precisionOverflow operation => "precision overflow while " ++ operation
  | .tickOutOfRange tick => "tick " ++ writeInt tick ++ " is outside the supported range"
  | .priceOutOfRange price => "price " ++ price.text ++ " cannot be expressed as a tick"
  | .unknownDirection tag => "unknown order direction '" ++ tag ++ "'"
  | .unexpectedDirection expected found tick order =>
    "expected " ++ expected.name ++ " orders, found a " ++ found.name ++ " order (tick "
      ++ writeInt tick ++ ", order " ++ writeInt order ++ ")"

/-- Errors of a configuration. -/
inductive ConfigError where
  | missingField (field : String)
  | invalidValue (field reason : String)
  | unknownAsset (symbol : String)
  | duplicateAsset (symbol : String)
  | unreadable
  | malformed
deriving DecidableEq

/-- The wording of a configuration error. -/
def ConfigError.message : ConfigError → String
  | .missingField field => "missing required field: " ++ field
  | .invalidValue field reason => "invalid value for " ++ field ++ ": " ++ reason
  | .unknownAsset symbol => "unknown asset symbol '" ++ symbol ++ "'"
  | .duplicateAsset symbol => "asset '" ++ symbol ++ "' is configured more than once"
  | .unreadable => "failed to read config file"
  | .malformed => "failed to parse config"

/-- Errors of calls to the venue and the chain. -/
inductive ExecutionError where
  | timeout (operation : String) (secs : Nat)
  | orderRejected (reason : String)
  | submissionFailed (reason : String)
  | simulationFailed (reason : String)
  | transactionFailed (code : Nat) (log : String)
  | requestFailed (reason : String)
deriving DecidableEq

/-- The wording of an execution error. -/
def ExecutionError.message : ExecutionError → String
  | .timeout operation secs => operation ++ " timed out after " ++ writeNat secs ++ "s"
  | .orderRejected reason => "order rejected: " ++ reason
  | .submissionFailed reason => "failed to submit order: " ++ reason
  | .simulationFailed reason => "swap simulation failed: " ++ reason
  | .transactionFailed code log => "transaction failed with code " ++ writeNat code ++ ": " ++ log
  | .requestFailed reason => "request failed: " ++ reason

/-- Every error. -/
inductive Error where
  | config (e : ConfigError)
  | domain (e : DomainError)
  | execution (e : ExecutionError)
  | bookUnavailable (symbol : String)
  | snapshotUnavailable (pool : Nat)
  | json
deriving DecidableEq

/-- The wording of an error. -/
def Error.message : Error → String
  | .config e => e.message
  | .domain e => e.message
  | .execution e => e.message
  | .bookUnavailable symbol => "order book for " ++ symbol ++ " is not populated"
  | .snapshotUnavailable pool => "on-chain orders for pool " ++ writeNat pool ++ " are not loaded"
  | .json => "JSON parsing error"

/-- What an error says about the state it was met in. -/
inductive Severity where
  | transient
  | dataUnavailable
  | invalidState
deriving DecidableEq

/-- The name of a severity. -/
def Severity.name : Severity → String
  | .transient => "transient"
  | .dataUnavailable => "data-unavailable"
  | .invalidState => "invalid-state"

/-- A wrong direction is an invalid state; any other domain error is a lack of data. -/
def DomainError.severity : DomainError → Severity
  | .unknownDirection _ => .invalidState
  | .unexpectedDirection _ _ _ _ => .invalidState
  | _ => .dataUnavailable

/-- Configuration errors are invalid states, failing calls and frames are transient, and what is
not loaded yet is a lack of data. -/
def Error.severity : Error → Severity
  | .config _ => .invalidState
  | .domain e => e.severity
  | .execution _ => .transient
  | .bookUnavailable _ => .dataUnavailable
  | .snapshotUnavailable _ => .dataUnavailable
  | .json => .transient

/-- The ways to unwind: arithmetic of decimals or of words without an answer, and a state that
cannot be. -/
inductive Abort where
  | addition
  | subtraction
  | multiplication
  | division
  | wordAddition
  | wordSubtraction
  | wordNegation
  | invalidState (text : String)
deriving DecidableEq

/-- The wording of an abort. -/
def Abort.message : Abort → String
  | .addition => "Addition overflowed"
  | .subtraction => "Subtraction overflowed"
  | .multiplication => "Multiplication overflowed"
  | .division => "Division overflowed"
  | .wordAddition => "attempt to add with overflow"
  | .wordSubtraction => "attempt to subtract with overflow"
  | .wordNegation => "attempt to negate with overflow"
  | .invalidState text => text

/-- Why a computation has no result. -/
inductive Failure where
  | error (e : Error)
  | abort (a : Abort)
deriving DecidableEq

/-- A domain error is a failure. -/
def Failure.ofDomain (e : DomainError) : Failure := .error (.domain e)

/-- A domain error inside a computation that may also fail otherwise. -/
def liftDomain {α : Type} : Except DomainError α → Except Failure α
  | .ok a => .ok a
  | .error e => .error (.ofDomain e)

instance : MonadLift (Except DomainError) (Except Failure) := ⟨liftDomain⟩

/-- The value, or an error for its absence. -/
def orError {ε α : Type} (e : ε) : Option α → Except ε α
  | some a => .ok a
  | none => .error e

/-- The value, or an abort for its absence. -/
def orAbort {α : Type} (a : Abort) : Option α → Except Failure α
  | some x => .ok x
  | none => .error (.abort a)

namespace Decimal

/-- The sum, or an abort. -/
def plus (a b : Decimal) : Except Failure Decimal := orAbort .addition (a.add? b)

/-- The difference, or an abort. -/
def minus (a b : Decimal) : Except Failure Decimal := orAbort .subtraction (a.sub? b)

/-- The product, or an abort. -/
def times (a b : Decimal) : Except Failure Decimal := orAbort .multiplication (a.mul? b)

/-- The quotient, or an abort. -/
def dividedBy (a b : Decimal) : Except Failure Decimal := orAbort .division (a.div? b)

end Decimal

end CrossBook
