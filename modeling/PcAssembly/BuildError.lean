import PcAssembly.Catalog.File
import PcAssembly.Category
import PcAssembly.Config.Value

/-! # What can go wrong

    An error names its cause; its words, its category, how severe it is and
    what to do about it follow from the cause alone. -/

namespace PcAssembly

/-- Why no build fits a request. -/
inductive Shortage where
  /-- The catalog has nothing usable for a slot that must be filled. -/
  | emptyPool (category : Category)
  /-- Every combination costs too much or does not fit together. -/
  | allRejected (combinations overBudget incompatible : Nat)
  | stated (message : String)
  deriving DecidableEq, Repr

/-- The reason in words. -/
def Shortage.message : Shortage → String
  | .emptyPool category => s!"no usable {category.key} candidates available"
  | .allRejected combinations overBudget incompatible =>
      s!"all {combinations} combinations were rejected " ++
        s!"({overBudget} over budget, {incompatible} incompatible)"
  | .stated message => message

/-- An error of the library. -/
inductive BuildError where
  | notPossible (budget : Decimal) (reason : Shortage)
  | cancelled
  | invalidRequest (field reason : String)
  | catalog (fault : CatalogFault)
  | priceHistory (productId : Int64) (message : String)
  | service (message : String)
  | file (fault : FileFault)
  | serialization (message : String)
  | config (message : String)
  | configFile (field message : String)
  | configValue (field value : String) (fault : ValueFault)
  | internal (message : String)
  deriving DecidableEq

/-- Where an error comes from. -/
inductive ErrorCategory where
  | request
  | search
  | collaborator
  | configuration
  | system
  deriving DecidableEq, Repr

/-- How severe an error is. -/
inductive ErrorSeverity where
  | low
  | medium
  | high
  | critical
  deriving DecidableEq, Repr

namespace BuildError

/-- The error in words. -/
def message : BuildError → String
  | .notPossible budget reason =>
      s!"No compatible build fits a budget of {budget.toText}: {reason.message}"
  | .cancelled => "Build request was cancelled"
  | .invalidRequest field reason => s!"Invalid request field '{field}': {reason}"
  | .catalog fault => s!"Catalog unavailable: {fault.message}"
  | .priceHistory productId message =>
      s!"Price history unavailable for product {productId.toInt}: {message}"
  | .service message => s!"API request failed: {message}"
  | .file fault => s!"IO error: {fault.message}"
  | .serialization message => s!"Serialization error: {message}"
  | .config message => s!"Configuration error: {message}"
  | .configFile field message =>
      s!"Configuration validation failed for '{field}': {message}"
  | .configValue field value fault =>
      s!"Invalid value '{value}' for '{field}': {fault.message}"
  | .internal message => s!"Internal error: {message}"

/-- Where the error comes from. -/
def category : BuildError → ErrorCategory
  | .invalidRequest .. => .request
  | .notPossible .. | .cancelled => .search
  | .catalog .. | .priceHistory .. | .service .. => .collaborator
  | .config .. | .configFile .. | .configValue .. => .configuration
  | .file .. | .serialization .. | .internal .. => .system

/-- How severe the error is. -/
def severity : BuildError → ErrorSeverity
  | .priceHistory .. => .low
  | .notPossible .. | .cancelled | .invalidRequest .. | .service .. => .medium
  | .catalog .. | .serialization .. | .config .. | .configFile .. | .configValue .. => .high
  | .file .. | .internal .. => .critical

/-- The request itself is at fault, not what it meets. -/
def isClientError : BuildError → Bool
  | .notPossible .. | .invalidRequest .. => true
  | _ => false

/-- What to do about the error. -/
def suggestion (error : BuildError) : String :=
  match error.category with
  | .request => "Check the request parameters and try again"
  | .search =>
      match error with
      | .cancelled => "Retry with a longer timeout"
      | _ => "Raise the budget or relax the priority and platform filters"
  | .collaborator => "Check the catalog and price history sources"
  | .configuration => "Fix the configuration file and run again"
  | .system => "Check file permissions and available resources"

/-- The error in the words a customer sees. -/
def friendlyMessage : BuildError → String
  | .notPossible budget _ => s!"No compatible build could be assembled within {budget.toText}"
  | .cancelled => "The build request was cancelled or timed out"
  | .invalidRequest field reason => s!"Invalid {field}: {reason}"
  | .configValue field _ fault => s!"Configuration value {field} is invalid: {fault.message}"
  | error => error.message

end BuildError

end PcAssembly
