import PcAssembly.Json.Fields

/-! # Requests for a build

    A request has a budget, priority tags and possibly a platform.  Only the
    budget has to be there. -/

namespace PcAssembly

/-- What a customer asks for. -/
structure BuildRequest where
  budget : Int64
  priorities : List String := []
  platform : Option String := none
  deriving DecidableEq, Repr

namespace BuildRequest

/-- The fields of a request, in order. -/
def fieldNames : List String := ["budget", "priorities", "platform"]

/-- The request in a data value. -/
def ofJson? (value : Json) : Option BuildRequest := do
  match ← value.fields? (Json.Layout.plain fieldNames) with
  | [budget, priorities, platform] =>
      return {
        budget := ← Json.required Json.int64? budget
        priorities := ← Json.optional [] (Json.list? Json.string?) priorities
        platform := ← Json.optional none (Json.nullable? Json.string?) platform }
  | _ => none

/-- The request as a value. -/
def toJson (request : BuildRequest) : Json :=
  .record (fieldNames.zip
    [.ofInt64 request.budget, .array (request.priorities.map Json.text),
     .ofOption Json.text request.platform])

end BuildRequest

end PcAssembly
