import Cnet.Net.Buffer

/-!
# HTTP requests

The data of a request and the setters the parser uses, on byte strings. A range of
the buffer between two pointers is the list of its bytes, and a pointer into it is
an offset.
-/

namespace Cnet.Net.Http

/-- The bytes of a string literal. -/
def ascii (s : String) : Bytes := s.toList.map fun c => UInt8.ofNat c.toNat

/-- `std::find`: the offset of the first `b`, or the length. -/
def find (b : Byte) (l : Bytes) : Nat := l.findIdx (· = b)

/-- `isspace` in the C locale. -/
def isspace (b : Byte) : Bool := b = 32 || (9 ≤ b && b ≤ 13)

def space : Byte := 32
def question : Byte := 63
def colon : Byte := 58

/-- `std::map<string, string>`, in the order of its keys. -/
abbrev StringMap := List (Bytes × Bytes)

/-- `m[key] = value` -/
def StringMap.assign (key value : Bytes) : StringMap → StringMap
  | [] => [(key, value)]
  | (k, v) :: m =>
    if key < k then (key, value) :: (k, v) :: m
    else if key = k then (key, value) :: m
    else (k, v) :: StringMap.assign key value m

/-- The value at `key`, or the empty string. -/
def StringMap.get (key : Bytes) (m : StringMap) : Bytes :=
  ((m.find? fun entry => entry.1 = key).map Prod.snd).getD []

/-- `microSecondsSinceEpoch_` -/
abbrev Timestamp := Int

inductive Method
  | kInvalid
  | kGet
  | kPost
  | kHead
  | kPut
  | kDelete
deriving DecidableEq, Repr

inductive Version
  | kUnknown
  | kHttp10
  | kHttp11
deriving DecidableEq, Repr

inductive Scheme
  | kInvalidScheme
  | kHttp
  | kHttps
deriving DecidableEq, Repr

structure HttpUri where
  flags_ : Int := 0
  scheme_ : Scheme := .kInvalidScheme
  userinfo_ : Bytes := []
  host_ : Bytes := []
  port_ : Int := 0
  path_ : Bytes := []
  query_ : Bytes := []
  fragment_ : Bytes := []
deriving DecidableEq, Repr

structure HttpRequest where
  method_ : Method := .kInvalid
  version_ : Version := .kUnknown
  receiveTime_ : Timestamp := 0
  uri_ : HttpUri := {}
  headers_ : StringMap := []
deriving DecidableEq, Repr

/-- The method of this name, or `kInvalid`. -/
def Method.ofName (m : Bytes) : Method :=
  if m = ascii "GET" then .kGet
  else if m = ascii "POST" then .kPost
  else if m = ascii "HEAD" then .kHead
  else if m = ascii "PUT" then .kPut
  else if m = ascii "DELETE" then .kDelete
  else .kInvalid

namespace HttpRequest

def setVersion (v : Version) (r : HttpRequest) : HttpRequest := { r with version_ := v }
def setPath (path : Bytes) (r : HttpRequest) : HttpRequest :=
  { r with uri_ := { r.uri_ with path_ := path } }
def setQuery (query : Bytes) (r : HttpRequest) : HttpRequest :=
  { r with uri_ := { r.uri_ with query_ := query } }
def setReceiveTime (t : Timestamp) (r : HttpRequest) : HttpRequest := { r with receiveTime_ := t }

/-- `setMethod(start, end)`, and whether the method is known. -/
def setMethod (m : Bytes) (r : HttpRequest) : Bool × HttpRequest :=
  (Method.ofName m != .kInvalid, { r with method_ := Method.ofName m })

/-- `addHeader(start, colon, end)` on the line from `start` to `end`. -/
def addHeader (line : Bytes) (colon : Nat) (r : HttpRequest) : HttpRequest :=
  let field := line.take colon
  let value := (line.drop (colon + 1)).dropWhile isspace
  let value := (value.reverse.dropWhile isspace).reverse
  { r with headers_ := r.headers_.assign field value }

def getHeader (field : Bytes) (r : HttpRequest) : Bytes := r.headers_.get field

/-- `swap`: of the URI, only the path and the query change hands. -/
def swap (r that : HttpRequest) : HttpRequest × HttpRequest :=
  ({ r with
      method_ := that.method_
      version_ := that.version_
      uri_ := { r.uri_ with path_ := that.uri_.path_, query_ := that.uri_.query_ }
      receiveTime_ := that.receiveTime_
      headers_ := that.headers_ },
    { that with
      method_ := r.method_
      version_ := r.version_
      uri_ := { that.uri_ with path_ := r.uri_.path_, query_ := r.uri_.query_ }
      receiveTime_ := r.receiveTime_
      headers_ := r.headers_ })

end HttpRequest

/-- A request as its reader sees it, the receive time excepted. -/
structure RequestView where
  method : Method
  version : Version
  path : Bytes
  query : Bytes
  headers : StringMap
deriving DecidableEq, Repr

def HttpRequest.view (r : HttpRequest) : RequestView where
  method := r.method_
  version := r.version_
  path := r.uri_.path_
  query := r.uri_.query_
  headers := r.headers_

/-- A request with this view, untouched otherwise. -/
def RequestView.toRequest (v : RequestView) : HttpRequest where
  method_ := v.method
  version_ := v.version
  uri_ := { path_ := v.path, query_ := v.query }
  headers_ := v.headers

@[simp] theorem RequestView.view_toRequest (v : RequestView) : v.toRequest.view = v := rfl

/-- The view of a fresh request. -/
def RequestView.fresh : RequestView := HttpRequest.view {}

end Cnet.Net.Http
