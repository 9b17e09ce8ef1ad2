import IngressCache.Metrics.Exposition

/-!
# The metrics endpoint

Answers of the endpoint to requests, and addresses that it cannot listen on.
-/

namespace IngressCache.Metrics

/-! ### Requests -/

structure Response where
  status : Nat
  body : String
  deriving DecidableEq, Repr

/-- The path of a request target: without query, and without scheme and host. -/
def pathOf (target : String) : String :=
  let s := target.toList
  let s := if "http://".toList.isPrefixOf s then (s.drop 7).dropWhile (· ≠ '/') else s
  String.ofList (s.takeWhile (· ≠ '?'))

/-- The answer to a request: the counters under one path, nothing elsewhere. -/
def respond (m : Metrics) (method target : String) : Response :=
  if method = "GET" ∧ pathOf target = "/metrics" then ⟨200, m.exposition⟩
  else ⟨404, "Not Found"⟩

inductive EndpointFault
  | notStarted
  deriving DecidableEq, Repr

def EndpointFault.message : EndpointFault → String
  | .notStarted => "metrics endpoint did not start"

def ask (listening : Option Metrics) (method target : String) : Except EndpointFault Response :=
  match listening with
  | some m => .ok (m.respond method target)
  | none => .error .notStarted

/-! ### Addresses -/

inductive BindFault
  | noPort
  | invalidPort
  | unknownHost
  | foreignHost
  deriving DecidableEq, Repr

def BindFault.message (address : String) (f : BindFault) : String :=
  s!"Failed to bind to {address}: " ++
    match f with
    | .noPort => "invalid socket address"
    | .invalidPort => "invalid port value"
    | .unknownHost => "failed to lookup address information: Name or service not known"
    | .foreignHost => "Cannot assign requested address (os error 99)"

/-- The number of a text of decimal digits, if it is below `bound`. -/
def decimal? (bound : Nat) (s : List Char) : Option Nat :=
  if s ≠ [] ∧ s.all Char.isDigit then
    let n := s.foldl (fun n c => 10 * n + (c.toNat - '0'.toNat)) 0
    if n < bound then some n else none
  else none

def portNumber? (s : List Char) : Option Nat :=
  match s with
  | '+' :: s => decimal? 65536 s
  | s => decimal? 65536 s

def dotted (s : List Char) : List (List Char) :=
  s.splitOn '.'

/-- True for a numeric address, which needs no lookup: four numbers, or brackets around an
address of the longer kind. -/
def isNumericHost (s : List Char) : Bool :=
  match s with
  | '[' :: rest =>
    rest.getLast? == some ']' &&
      rest.dropLast.all fun c => c.isDigit || ('a' ≤ c && c ≤ 'f') || c == ':' || c == '.'
  | s => (dotted s).length == 4 && (dotted s).all fun p => (decimal? 256 p).isSome

/-- True for the numeric addresses of every machine: the one for all of its addresses, and those of
its loop. -/
def isOwnHost (s : List Char) : Bool :=
  s ∈ ["0.0.0.0".toList, "[::]".toList, "[::1]".toList] || "127.".toList.isPrefixOf s

/-- Why an address cannot be listened on, if it cannot. No host names are known. -/
def bindFault? (address : String) : Option BindFault :=
  let reversed := address.toList.reverse
  match reversed.dropWhile (· ≠ ':') with
  | [] => some .noPort
  | _ :: host =>
    match portNumber? (reversed.takeWhile (· ≠ ':')).reverse with
    | none => some .invalidPort
    | some _ =>
      if !isNumericHost host.reverse then some .unknownHost
      else if isOwnHost host.reverse then none
      else some .foreignHost

end IngressCache.Metrics
