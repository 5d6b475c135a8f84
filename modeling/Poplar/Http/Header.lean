import Poplar.Apps.Stream

/-!
# Request lines and hosts: apps/pop_http_header.c

Strings are lists of bytes without their NUL. `strstr` and the conversions of
the C library follow their documentation.
-/
namespace Poplar.Http

def DEFAULT_HTTP_PORT : Int := 80
def DEFAULT_HTTPS_PORT : Int := 443
def MAX_HTTP_STARTLINE_METHOD_SIZE : Nat := 15
def HTTP_METHOD_LEN : Nat := 32
def HTTP_VERSION_LEN : Nat := 32

def ascii (s : String) : List UInt8 := s.toList.map fun c => UInt8.ofNat c.toNat

def HTTP_HEADER_SUFFIX : List UInt8 := [13, 10]

/-- The characters ` `, `:`, `/` and `.` -/
def blank : UInt8 := 32
def colon : UInt8 := 58
def slash : UInt8 := 47
def point : UInt8 := 46

/-- The offset of the first occurrence. -/
def strstr (needle : List UInt8) : List UInt8 → Option Nat
  | [] => if needle = [] then some 0 else none
  | c :: s => if needle.isPrefixOf (c :: s) then some 0 else (strstr needle s).map (· + 1)

/-- `strstr` in the string an object starts with; without a NUL in the object a search
that finds nothing runs out of it. -/
def strstrIn (object needle : List UInt8) : Except Fault (Option Nat) :=
  match strstr needle (cString object) with
  | some i => .ok (some i)
  | none => if 0 ∈ object then .ok none else .error .outOfObject

structure HttpRequestSline where
  method : List UInt8
  uri : List UInt8
  httpV : List UInt8
  deriving DecidableEq, Repr

/-- `HttpRequestStartLineParse`: a method or a version longer than its field is copied
over the end of it. -/
def httpRequestStartLineParse (data : List UInt8) : Except Fault (Option HttpRequestSline) := do
  let some suffix ← strstrIn data HTTP_HEADER_SUFFIX | return none
  let startLine := data.take (suffix + 2)
  let some i := strstr [blank] startLine | return none
  let method := startLine.take i
  if method.length > HTTP_METHOD_LEN then throw .outOfObject
  let rest := startLine.drop (i + 1)
  let some j := strstr [blank] rest | return none
  let uri := rest.take j
  let rest := rest.drop (j + 1)
  let some k := strstr HTTP_HEADER_SUFFIX rest | return none
  let httpV := rest.take k
  if httpV.length > HTTP_VERSION_LEN then throw .outOfObject
  return some ⟨method, uri, httpV⟩

def isDigit (c : UInt8) : Bool := 48 ≤ c && c ≤ 57

def isSpace (c : UInt8) : Bool := c == 32 || (9 ≤ c && c ≤ 13)

/-- The value of a digit of a base up to sixteen. -/
def digitValue (base : Nat) (c : UInt8) : Option Nat :=
  let value := if isDigit c then c.toNat - 48
    else if 97 ≤ c && c ≤ 102 then c.toNat - 87
    else if 65 ≤ c && c ≤ 70 then c.toNat - 55
    else base
  if value < base then some value else none

def scanDigits (base : Nat) : Nat → List UInt8 → Nat × List UInt8
  | n, [] => (n, [])
  | n, c :: s =>
    match digitValue base c with
    | some value => scanDigits base (n * base + value) s
    | none => (n, c :: s)

/-- The number at the front of a text, of any size. -/
def numberAt (s : List UInt8) : Int :=
  match s.dropWhile isSpace with
  | 45 :: s => -(scanDigits 10 0 s).1
  | 43 :: s => (scanDigits 10 0 s).1
  | s => (scanDigits 10 0 s).1

/-- `strtol` with base 10, which stays within a `long`. -/
def strtol (s : List UInt8) : Int := max (-2 ^ 63) (min (2 ^ 63 - 1) (numberAt s))

/-- `(int)strtol(s, NULL, 10)` -/
def atoi (s : List UInt8) : Int := (strtol s).bmod (2 ^ 32)

/-- `strtoul` with base 0 at a digit. -/
def strtoul (s : List UInt8) : Nat × List UInt8 :=
  match s with
  | 48 :: x :: c :: rest =>
    if (x == 120 || x == 88) && (digitValue 16 c).isSome then scanDigits 16 0 (c :: rest)
    else scanDigits 8 0 s
  | 48 :: _ => scanDigits 8 0 s
  | _ => scanDigits 10 0 s

/-- The numbers of an address, each but the last one byte wide. -/
def inetAtonFrom : Nat → List Nat → List UInt8 → Option Nat
  | 0, _, _ => none
  | n + 1, parts, s =>
    if (s.head?.map isDigit).getD false then
      let (val, rest) := strtoul s
      match rest with
      | c :: rest =>
        if c = point then
          if val ≤ 0xff then inetAtonFrom n (parts ++ [val]) rest else none
        else if isSpace c then inetAtonEnd parts val else none
      | [] => inetAtonEnd parts val
    else none
where
  inetAtonEnd (parts : List Nat) (val : Nat) : Option Nat :=
    if val < 2 ^ (8 * (4 - parts.length)) then
      some (parts.foldl (fun n part => n * 2 ^ 8 + part) 0 * 2 ^ (8 * (4 - parts.length)) + val)
    else none

/-- `inet_aton`, the address in host order. -/
def inetAton (s : List UInt8) : Option Nat := inetAtonFrom 4 [] s

/-- What the caller's `ipAddr[255]` and `port` hold after `GetHostIpPostFromURI`. A port
that is neither given nor implied by a scheme stays uninitialised. -/
structure HostPort where
  ipAddr : List UInt8
  port : Option Int
  deriving DecidableEq, Repr

def IPADDR_SIZE : Nat := 255

def getHostIpPostFromURI (uri : List UInt8) : Except Fault (Option HostPort) := do
  let (port, rest) ← match strstr (ascii "://") uri with
    | none => pure (none, uri)
    | some i =>
      if i ≥ 25 then return none
      let scheme := uri.take i
      if scheme = ascii "http" then pure (some DEFAULT_HTTP_PORT, uri.drop (i + 3))
      else if scheme = ascii "https" then pure (some DEFAULT_HTTPS_PORT, uri.drop (i + 3))
      else return none
  let (ipAddr, port) := match strstr [colon] rest with
    | some i =>
      let tail := rest.drop (i + 1)
      let digits := match strstr [slash] tail with
        | some j => tail.take j
        | none => tail
      (rest.take i, some (atoi digits))
    | none =>
      match strstr [slash] rest with
      | some j => (rest.take j, port)
      | none => (rest, port)
  if ipAddr.length < IPADDR_SIZE then return some ⟨ipAddr, port⟩ else throw .outOfObject

inductive HttpMethod where
  | get | head | put | post | trace | options | delete | lock | mkcol | copy | move | connect
  deriving DecidableEq, Repr

/-- `POP_REQUEST_METHOD_CALLBACK` without the callbacks. -/
def requestMethods : List (List UInt8 × HttpMethod) :=
  [(ascii "GET", .get), (ascii "HEAD", .head), (ascii "PUT", .put), (ascii "POST", .post),
    (ascii "TRACE", .trace), (ascii "OPTIONS", .options), (ascii "DELETE", .delete),
    (ascii "LOCK", .lock), (ascii "MKCOL", .mkcol), (ascii "COPY", .copy), (ascii "MOVE", .move),
    (ascii "CONNECT", .connect)]

def popHttpProxyMethodMatch (request : List UInt8) : Option HttpMethod :=
  if request.length < MAX_HTTP_STARTLINE_METHOD_SIZE then none
  else (requestMethods.find? fun entry => entry.1.isPrefixOf request).map Prod.snd

end Poplar.Http
