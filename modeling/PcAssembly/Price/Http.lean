import PcAssembly.Price.History
import PcAssembly.Url.Target

/-! # Price services of the web

    A price service of the web answers a query at an address below its
    endpoint.  An answer counts only with a status of success and a body that
    is a series. -/

namespace PcAssembly

/-- The words of the status codes that have words. -/
def httpReasons : List (Nat × String) :=
  [(100, "Continue"), (101, "Switching Protocols"), (102, "Processing"), (103, "Early Hints"),
   (200, "OK"), (201, "Created"), (202, "Accepted"), (203, "Non Authoritative Information"),
   (204, "No Content"), (205, "Reset Content"), (206, "Partial Content"),
   (207, "Multi-Status"), (208, "Already Reported"), (226, "IM Used"),
   (300, "Multiple Choices"), (301, "Moved Permanently"), (302, "Found"), (303, "See Other"),
   (304, "Not Modified"), (305, "Use Proxy"), (307, "Temporary Redirect"),
   (308, "Permanent Redirect"), (400, "Bad Request"), (401, "Unauthorized"),
   (402, "Payment Required"), (403, "Forbidden"), (404, "Not Found"),
   (405, "Method Not Allowed"), (406, "Not Acceptable"),
   (407, "Proxy Authentication Required"), (408, "Request Timeout"), (409, "Conflict"),
   (410, "Gone"), (411, "Length Required"), (412, "Precondition Failed"),
   (413, "Payload Too Large"), (414, "URI Too Long"), (415, "Unsupported Media Type"),
   (416, "Range Not Satisfiable"), (417, "Expectation Failed"), (418, "I'm a teapot"),
   (421, "Misdirected Request"), (422, "Unprocessable Entity"), (423, "Locked"),
   (424, "Failed Dependency"), (425, "Too Early"), (426, "Upgrade Required"),
   (428, "Precondition Required"), (429, "Too Many Requests"),
   (431, "Request Header Fields Too Large"), (451, "Unavailable For Legal Reasons"),
   (500, "Internal Server Error"), (501, "Not Implemented"), (502, "Bad Gateway"),
   (503, "Service Unavailable"), (504, "Gateway Timeout"),
   (505, "HTTP Version Not Supported"), (506, "Variant Also Negotiates"),
   (507, "Insufficient Storage"), (508, "Loop Detected"), (510, "Not Extended"),
   (511, "Network Authentication Required")]

/-- A status code and its words. -/
def httpStatusText (status : Nat) : String :=
  let words := (httpReasons.lookup status).getD "<unknown status code>"
  s!"{status} {words}"

/-- The answer of a server. -/
structure HttpReply where
  status : Nat
  body : String
  deriving DecidableEq, Repr

/-- The status only announces an answer that has yet to come. -/
def HttpReply.isInterim (reply : HttpReply) : Bool :=
  reply.status < 200 && reply.status != 101

/-- The body of an answer.  An answer without content has none, whatever is
    sent behind it. -/
def HttpReply.content (reply : HttpReply) : String :=
  if reply.status = 204 then "" else reply.body

/-- The series in an answer, or why there is none. -/
def HttpReply.toPriceReply (reply : HttpReply) (productId : Int64) : PriceReply :=
  if reply.isInterim then .failed (.service "error sending request")
  else if 200 ≤ reply.status ∧ reply.status < 300 then
    match PricePoint.seriesOfText? reply.content with
    | some points => .series points
    | none => .failed (.service "error decoding response body")
  else
    .failed (.priceHistory productId s!"service responded with {httpStatusText reply.status}")

namespace PriceQuery

/-- The address of a product's history below an endpoint.  Slashes that the
    endpoint ends in do not count. -/
def seriesUrl (endpoint : String) (productId : Int64) : String :=
  let base := (endpoint.toList.reverse.dropWhile (· = '/')).reverse
  s!"{String.ofList base}/products/{productId.toInt}/price-history"

/-- What a server is asked for about a query, unless the endpoint makes no
    address. -/
def target? (names : HostNames) (endpoint : String) (query : PriceQuery) : Option Url.Target :=
  (Url.Target.ofText? names (seriesUrl endpoint query.productId)).map fun target =>
    ((target.addPair "from" query.start.toText).addPair "to" query.stop.toText).addPair
      "bucket" query.bucket.word

end PriceQuery

/-- The first line of a request. -/
def requestLine (target : Url.Target) : String := s!"GET {target.toText} HTTP/1.1"

/-- The price service at an endpoint, given how servers answer. -/
def PriceService.atEndpoint (names : HostNames) (endpoint : String)
    (send : Url.Target → Option HttpReply) : PriceService := fun query =>
  match query.target? names endpoint with
  | none => .failed (.service "no address")
  | some target =>
      match send target with
      | none => .failed (.service "error sending request")
      | some reply => reply.toPriceReply query.productId

end PcAssembly
