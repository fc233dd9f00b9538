import PcAssembly.BuildError
import PcAssembly.Calendar
import PcAssembly.Price.Series

/-! # Asking for price histories

    Price histories come from a service outside the library.  A query names a
    product, a window of days and the width of a bucket, and the answer is a
    series, a failure, or nothing in time. -/

namespace PcAssembly

/-- The span of time that one price of a series stands for. -/
inductive Bucket where
  | day
  | week
  | month
  deriving DecidableEq, Repr

/-- The word for a bucket. -/
def Bucket.word : Bucket → String
  | .day => "day"
  | .week => "week"
  | .month => "month"

/-- The bucket with exactly this word. -/
def Bucket.ofWord? (word : String) : Option Bucket :=
  [Bucket.day, .week, .month].find? fun bucket => bucket.word == word

/-- A question to the price service, about a slot of a build. -/
structure PriceQuery where
  category : Category
  productId : Int64
  start : Date
  stop : Date
  bucket : Bucket
  deriving DecidableEq, Repr

/-- What comes back. -/
inductive PriceReply where
  | series (points : List PricePoint)
  | failed (error : BuildError)
  | timedOut

/-- How the price service behaves. -/
abbrev PriceService := PriceQuery → PriceReply

/-- The service that is switched off: every query fails. -/
def PriceService.unavailable : PriceService := fun query =>
  .failed (.priceHistory query.productId "price history is disabled")

/-- The series of a reply that has one. -/
def PriceReply.series? : PriceReply → Option (List PricePoint)
  | .series points => some points
  | _ => none

/-- The chart of a query, if there is a series for it. -/
def PriceQuery.chart? (service : PriceService) (query : PriceQuery) : Option PriceChart :=
  (service query).series?.map fun series => ⟨query.category.key, series⟩

/-- The start of a window of days; a window that reaches before the calendar
    has no day. -/
def windowStart (stop : Date) (days : UInt32) : Date :=
  (stop.daysBefore? days.toNat).getD stop

end PcAssembly
