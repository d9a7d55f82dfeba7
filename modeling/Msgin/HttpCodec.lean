import Msgin.Errors
import Msgin.Message

/-!
# Messages from HTTP requests and responses

`DecodeRequest`, the inbound decoder of `msghttp`, and `buildReply`, which makes a reply message of
the response to an outbound request. The headers of a request or response are what
`http.Header.Get` returns for a name. The resolvers of the configuration are the caller's code and
may panic.
-/

namespace Msgin.Http

abbrev Bytes := List UInt8

/-- The payloads that the adapter tells apart. Go strings are byte sequences. -/
inductive Payload
  | bytes (b : Bytes)
  | string (s : Bytes)
  | other (tag : ℕ)
  deriving DecidableEq

def payloadBytes : Payload → Except Err Bytes
  | .bytes b => .ok b
  | .string s => .ok s
  | .other _ => .error (.sentinel .errUnsupportedPayload)

inductive Panic
  | abortHandler
  | other (r : String)
  deriving DecidableEq

/-- What reading a body gives: the bytes, and the error that comes in place of the end. -/
structure Body where
  read : Bytes
  err : Option Err

structure Request where
  body : Option Body
  header : String → String
  method : String
  path : String
  rawQuery : String

structure Response where
  header : String → String

/-- The settings of the handlers and of an outbound exchange. -/
structure Config where
  maxBodyBytes : ℤ
  requestHeaders : List String
  replyHeaders : List String
  successStatus : ℤ
  errorStatus : Option (Err → Except Panic ℤ)
  correlationID : Option (Request → Except Panic String)
  trustedCorrelation : Option (Request → Except Panic String)

def headerHTTPMethod : String := "http.method"
def headerHTTPPath : String := "http.path"
def headerHTTPQuery : String := "http.query"
def headerHTTPContentType : String := "http.content-type"
def headerHTTPCorrelationID : String := "http.correlation-id"

def reservedHeaderPrefix : String := "msgin."

/-- 1 MiB. -/
def defaultMaxBodyBytes : ℤ := 1048576

def maxBody : Option Config → ℤ
  | none => defaultMaxBodyBytes
  | some c => if c.maxBodyBytes ≤ 0 then defaultMaxBodyBytes else c.maxBodyBytes

def allowedRequestHeaders : Option Config → List String
  | none => []
  | some c => c.requestHeaders

def advisoryCorrelationID (cfg : Option Config) : Option (Request → Except Panic String) :=
  cfg.bind Config.correlationID

def trustedCorrelationID (cfg : Option Config) : Option (Request → Except Panic String) :=
  cfg.bind Config.trustedCorrelation

/-- `unicode.ToLower`, but for letters that it maps outside ASCII. -/
def lowerRune (c : Char) : Char :=
  if c = 'İ' then 'i' else if c = 'K' then 'k' else c.toLower

/-- `strings.HasPrefix(strings.ToLower(name), reservedHeaderPrefix)`. -/
def isReserved (name : String) : Bool :=
  reservedHeaderPrefix.toList.isPrefixOf (name.toList.map lowerRune)

/-- Strips `\r` and `\n`. -/
def sanitizeHeaderValue (v : String) : String :=
  String.ofList ((v.toList.filter (· ≠ '\r')).filter (· ≠ '\n'))

/-- `io.ReadAll` of an `http.MaxBytesReader`. -/
def readBody (max : ℤ) (b : Body) : Except Err (Bytes) :=
  if max < b.read.length then .error (.sentinel .maxBytesError)
  else
    match b.err with
    | some err => .error err
    | none => .ok b.read

def copyAllowed (get : String → String) (allowed : List String) : Headers :=
  allowed.foldl (fun h name => if get name ≠ "" then h.withKey name (.string (get name)) else h)
    ⟨fun _ => none⟩

def stripReserved (h : Headers) : Headers where
  m := fun k => if isReserved k then none else h.m k

/-- The headers of the request line and the client's media type. -/
def requestMetadata (r : Request) (h : Headers) : Headers :=
  let h := if r.header "Content-Type" ≠ "" then
      h.withKey headerHTTPContentType (.string (r.header "Content-Type"))
    else h
  ((h.withKey headerHTTPMethod (.string r.method)).withKey headerHTTPPath (.string r.path)).withKey
    headerHTTPQuery (.string r.rawQuery)

/-- What a resolver returns, unless it is nil or returns nothing. -/
def resolveOr (resolve : Option (Request → Except Panic String)) (r : Request) {α : Type}
    (default : α) (use : String → α) : Except Panic α :=
  match resolve with
  | none => .ok default
  | some f => (f r).map fun v => if v ≠ "" then use v else default

/-- `DecodeRequest`, where `NewID` and the clock return these. -/
def decodeRequest (r : Request) (cfg : Option Config) (id : String) (now : ℤ) :
    Except Panic (Except Err (Message Payload)) :=
  match readBody (maxBody cfg) (r.body.getD ⟨[], none⟩) with
  | .error err => .ok (.error (.wrappedPair "" ": " "" (.sentinel .errDecodeRequest) err))
  | .ok raw => do
    let headers := requestMetadata r
      (stripReserved (copyAllowed r.header (allowedRequestHeaders cfg)))
    let headers ← resolveOr (advisoryCorrelationID cfg) r headers
      fun v => headers.withKey headerHTTPCorrelationID (.string v)
    let msg := Message.new (.bytes raw) headers id now
    let cid ← resolveOr (trustedCorrelationID cfg) r msg.id fun v => v
    return .ok (msg.withHeader headerCorrelationID (.string cid))

/-- The headers of the request that go on to the reply. -/
def replySeed (h : Headers) : Headers :=
  ((((((h.without headerMessageID).without headerTimestamp).without headerContentType).without
    headerHTTPMethod).without headerHTTPPath).without headerHTTPQuery).without
    headerHTTPContentType

/-- One turn of the loop over the allow-list of reply headers. -/
def copyReplyHeader (resp : Response) (reply : Message Payload) (name : String) : Message Payload :=
  if isReserved name then reply
  else if resp.header name ≠ "" then
    reply.withHeader name (.string (sanitizeHeaderValue (resp.header name)))
  else reply

def buildReply (cfg : Config) (req : Message Payload) (resp : Response) (body : Bytes)
    (id : String) (now : ℤ) : Message Payload :=
  let reply := Message.new (.bytes body) (replySeed req.headers) id now
  let reply := if resp.header "Content-Type" ≠ "" then
      reply.withHeader headerHTTPContentType
        (.string (sanitizeHeaderValue (resp.header "Content-Type")))
    else reply
  cfg.replyHeaders.foldl (copyReplyHeader resp) reply

end Msgin.Http
