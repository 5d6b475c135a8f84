import Poplar.Apps.Stream

/-!
# DNS messages: apps/pop_domain_parse.c

The encoder of queries and the parser of answers. Host names and packets are lists
of bytes; a `char *` argument is the string without its NUL.
-/
namespace Poplar.Domain

def POP_DOMAIN_STANDARD_QUERY : Nat := 0x0100
def POP_DOMAIN_QUERY_TYPE_A : Nat := 1
def POP_DOMAIN_QUERY_CLASS_INTERNET_ADDR : Nat := 1
def DOMAIN_HEADER_RESPONSE_FLAG : Nat := 1 <<< 7
def DOMAIN_NAME_OFFSET_FLAG : Nat := 0xc000

/-- The character `.` -/
def dot : UInt8 := 46

/-- `for(i = 0; i < domainNameLen+1; i++)`: `n` turns are left, `ptr` and `mptr` are offsets
into `queryName`. Storing `count` in a `char` keeps its low byte. -/
def transLoop : Nat → Nat → Nat → Nat → List UInt8 → List UInt8
  | 0, _, _, _, queryName => queryName
  | n + 1, ptr, mptr, count, queryName =>
    if queryName.getD ptr 0 ≠ dot ∧ queryName.getD ptr 0 ≠ 0 then
      transLoop n (ptr + 1) mptr (count + 1) queryName
    else transLoop n (ptr + 1) ptr 0 (queryName.set mptr (UInt8.ofNat count))

/-- `_trans_dns_name_into_pkt_format`; the length it returns is that of the list. -/
def transDnsNameIntoPktFormat (domainName : List UInt8) : List UInt8 :=
  transLoop (domainName.length + 1) 1 0 0 (0 :: domainName ++ [0])

/-- The step of `ptr` at a byte `c`: a `char` is signed, the sum is an `unsigned int`. -/
def labelStep (c : UInt8) : Nat :=
  if c.toNat < 128 then c.toNat + 1 else (2 ^ 32 + c.toNat - 256 + 1) % 2 ^ 32

/-- `while(ptr < buffer + len)`; a step of 0 repeats for ever, and any other step needs
one of `len` turns. -/
def checkLoop (buffer : List UInt8) (len : Nat) : Nat → Nat → Except Fault Nat
  | fuel, ptr =>
    if ptr < len then
      match fuel with
      | 0 => .error .diverge
      | fuel + 1 => checkLoop buffer len fuel (ptr + labelStep (buffer.getD ptr 0))
    else .ok ptr

def checkDnsNamePktFormat (buffer : List UInt8) (len : Int) : Except Fault Bool := do
  return ((← checkLoop buffer len.toNat len.toNat 0 : Nat) : Int) == len

/-- What an `int` keeps of a `size_t`. -/
def intOf (n : Nat) : Int :=
  if n % 2 ^ 32 < 2 ^ 31 then (n % 2 ^ 32 : Nat) else (n % 2 ^ 32 : Nat) - 2 ^ 32

/-- A `char` as an `int`. -/
def signedChar (c : UInt8) : Int := if c.toNat < 128 then c.toNat else (c.toNat : Int) - 256

/-- `while(queryNamePtr < queryName + len)` -/
def decodeLoop (len : Nat) : Nat → Int → Int → List UInt8 → Except Fault (List UInt8)
  | fuel, ptr, count, queryName =>
    if ptr < len then
      match fuel with
      | 0 => .error .diverge
      | fuel + 1 =>
        let ptr := ptr + count
        if 0 ≤ ptr ∧ ptr < queryName.length then
          let c := queryName.getD ptr.toNat 0
          if c ≠ 0 then
            decodeLoop len fuel (ptr + 1) (signedChar c) (queryName.set ptr.toNat dot)
          else .ok queryName
        else .error .outOfObject
    else .ok queryName

/-- The results 0, 1 and -1 of `_dns_pkt_name_parse`, 1 with the string it puts out. -/
inductive DnsName where
  | offset
  | real (queryName : List UInt8)
  | illegal
  deriving DecidableEq, Repr

/-- `_dns_pkt_name_parse` -/
def dnsPktNameParse (s : Stream) : Except Fault (DnsName × Stream) := do
  let offsetName ← streamGetwFrom s s.getp
  if offsetName &&& DOMAIN_NAME_OFFSET_FLAG = DOMAIN_NAME_OFFSET_FLAG then
    let _ ← strlen s.data (offsetName - DOMAIN_NAME_OFFSET_FLAG)
    let s ← streamForwardGetp s 2
    return (.offset, s)
  else
    let buff := s.data.drop s.getp
    let len := intOf (← strlen buff 0)
    if ← checkDnsNamePktFormat buff len then
      let queryName := (buff.drop 1).take len.toNat
      let inner ← strlen queryName 0
      let queryName ← decodeLoop inner (inner + 1) 0 (signedChar (buff.getD 0 0)) queryName
      let s ← streamForwardGetp s (len + 1).toNat
      return (.real (cString queryName), s)
    else return (.illegal, s)

structure DomainNameHeader where
  transactionID : Nat
  flags : Nat
  questions : Nat
  answerRRS : Nat
  authorityRRS : Nat
  additionalRRS : Nat
  deriving DecidableEq, Repr

structure DomainNameQuestion where
  queryName : List UInt8
  queryType : Nat
  queryClass : Nat
  deriving DecidableEq, Repr

/-- `ADDR` of a record that is not of type A stays 0, a `queryName` not put out NULL. -/
structure DomainNameAnswer where
  queryName : Option (List UInt8)
  type : Nat
  class' : Nat
  timeLive : Nat
  datalen : Nat
  addr : Nat
  deriving DecidableEq, Repr

structure DnsQueryResult where
  transactionID : Nat
  hostName : List UInt8
  address : Nat
  timeLive : Nat
  validityEndTime : Nat
  deriving DecidableEq, Repr

def domainNameQuestionParse (s : Stream) : Except Fault (Option DomainNameQuestion × Stream) := do
  match ← dnsPktNameParse s with
  | (.real queryName, s) =>
    let (queryType, s) ← streamGetw s
    let (queryClass, s) ← streamGetw s
    return (some ⟨queryName, queryType, queryClass⟩, s)
  | (_, s) => return (none, s)

def domainNameAnswerParse (s : Stream) : Except Fault (Option DomainNameAnswer × Stream) := do
  let (name, s) ← dnsPktNameParse s
  if name = .illegal then return (none, s)
  let queryName := match name with
    | .real queryName => some queryName
    | _ => none
  let (type, s) ← streamGetw s
  let (class', s) ← streamGetw s
  let (timeLive, s) ← streamGetl s
  let (datalen, s) ← streamGetw s
  if type = POP_DOMAIN_QUERY_TYPE_A then
    let (addr, s) ← streamGetl s
    return (some ⟨queryName, type, class', timeLive, datalen, addr⟩, s)
  else
    let s ← streamForwardGetp s datalen
    return (some ⟨queryName, type, class', timeLive, datalen, 0⟩, s)

/-- The loop over the answers and the look at `Answer[i]` behind it: with no record of
type A among them `i` is then `AnswerRRS`, one past the array. -/
def firstAnswerA : Nat → Stream → Except Fault (Option DomainNameAnswer)
  | 0, _ => .error .outOfObject
  | n + 1, s => do
    match ← domainNameAnswerParse s with
    | (none, _) => return none
    | (some answer, s) =>
      if answer.type = POP_DOMAIN_QUERY_TYPE_A then return some answer
      else firstAnswerA n s

/-- `now` is the answer of `time`. -/
def domainNameIpv4Addr (s : Stream) (now : Nat) : Except Fault (Option DnsQueryResult) := do
  if s.readable < 12 then return none
  let (transactionID, s) ← streamGetw s
  let (flags, s) ← streamGetw s
  let (questions, s) ← streamGetw s
  let (answerRRS, s) ← streamGetw s
  let (authorityRRS, s) ← streamGetw s
  let (additionalRRS, s) ← streamGetw s
  let header : DomainNameHeader :=
    ⟨transactionID, flags, questions, answerRRS, authorityRRS, additionalRRS⟩
  if header.flags &&& DOMAIN_HEADER_RESPONSE_FLAG = 0 then return none
  if header.questions ≠ 1 then return none
  match ← domainNameQuestionParse s with
  | (none, _) => return none
  | (some question, s) =>
    if question.queryType ≠ POP_DOMAIN_QUERY_TYPE_A ∨
        question.queryClass ≠ POP_DOMAIN_QUERY_CLASS_INTERNET_ADDR then return none
    let result : DnsQueryResult := ⟨header.transactionID, question.queryName, 0, 0, 0⟩
    if header.answerRRS = 0 then return some result
    match ← firstAnswerA header.answerRRS s with
    | none => return some result
    | some answer => return some { result with
        address := answer.addr, timeLive := answer.timeLive
        validityEndTime := (now + answer.timeLive) % 2 ^ 32 }

/-- `htons` of a word, as the two bytes it has in memory. -/
def word (w : Nat) : List UInt8 := [UInt8.ofNat (w / 2 ^ 8), UInt8.ofNat w]

def long (w : Nat) : List UInt8 :=
  [UInt8.ofNat (w / 2 ^ 24), UInt8.ofNat (w / 2 ^ 16), UInt8.ofNat (w / 2 ^ 8), UInt8.ofNat w]

/-- A header as it lies in memory with its fields in network byte order. -/
def DomainNameHeader.bytes (h : DomainNameHeader) : List UInt8 :=
  word h.transactionID ++ word h.flags ++ word h.questions ++ word h.answerRRS ++
    word h.authorityRRS ++ word h.additionalRRS

/-- The packet `get_host_by_name_unblock` hands to `sendto`. -/
def dnsQueryPacket (domainTransID : Nat) (domainName : List UInt8) : Except Fault (List UInt8) := do
  let queryName := transDnsNameIntoPktFormat domainName
  let header : DomainNameHeader := ⟨domainTransID, POP_DOMAIN_STANDARD_QUERY, 1, 0, 0, 0⟩
  let s ← streamNew (List.replicate (12 + queryName.length + 4) 0)
  let s := streamPut s header.bytes
  let s := streamPut s queryName
  let s ← streamPutw s POP_DOMAIN_QUERY_TYPE_A
  let s ← streamPutw s POP_DOMAIN_QUERY_CLASS_INTERNET_ADDR
  return s.data.take s.endp

/-- The return value, the counter `DomainTransID` afterwards and the packet sent, if one was.
`sendtoOk` tells whether `sendto` succeeds. -/
def getHostByNameUnblock (domainTransID : Nat) (domainName : Option (List UInt8))
    (sendtoOk : Bool) : Except Fault (Int × Nat × Option (List UInt8)) :=
  match domainName with
  | none => .ok (-1, domainTransID, none)
  | some domainName => do
    let packet ← dnsQueryPacket domainTransID domainName
    let next := (domainTransID + 1) % 2 ^ 16
    return if sendtoOk then (0, next, some packet) else (-1, next, none)

end Poplar.Domain
