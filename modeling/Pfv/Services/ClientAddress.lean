import Pfv.Models.Schemas

/-!
# The address of a client

`backend/app/rate_limit.py`: the address a request is counted under, from its peer and its headers,
with the parsing of addresses as `ipaddress` of the standard library has it.

## Main definitions

* `ipAddress`: the address a text names, if it names one.
* `isTrustedProxy`, `parseXff`.
* `getClientIp`.
-/

namespace Pfv

/-! ### Addresses -/

/-- An address of version 4 or 6, as a number. -/
inductive IpAddress
  | v4 (n : ℕ)
  | v6 (n : ℕ)
  deriving DecidableEq

def isHexDigit (c : Char) : Bool :=
  c.isDigit ∨ ('a' ≤ c ∧ c ≤ 'f') ∨ ('A' ≤ c ∧ c ≤ 'F')

def digitValue (c : Char) : ℕ :=
  if c.isDigit then c.toNat - 48
  else if 'a' ≤ c ∧ c ≤ 'f' then c.toNat - 87
  else c.toNat - 55

/-- The number a text of digits denotes. -/
def numberOf (base : ℕ) (s : List Char) : ℕ := s.foldl (fun n c => n * base + digitValue c) 0

/-- A number of one to three decimal digits without leading zeros, at most 255. -/
def parseOctet (s : List Char) : Option ℕ :=
  if s ≠ [] ∧ s.all Char.isDigit ∧ s.length ≤ 3 ∧ (s = ['0'] ∨ s.head? ≠ some '0') ∧
      numberOf 10 s ≤ 255 then
    some (numberOf 10 s)
  else none

/-- The address of version 4 a text names. -/
def parseIpv4 (s : List Char) : Option ℕ := do
  let octets ← (s.splitOn '.').mapM parseOctet
  if octets.length = 4 then some (octets.foldl (fun n o => n * 256 + o) 0) else none

/-- A group of one to four hexadecimal digits. -/
def parseHextet (s : List Char) : Option ℕ :=
  if s ≠ [] ∧ s.all isHexDigit ∧ s.length ≤ 4 then some (numberOf 16 s) else none

/-- The text before the scope of an address; a scope is not empty and has no other `%`. -/
def splitScopeId (s : List Char) : Option (List Char) :=
  match s.dropWhile (· ≠ '%') with
  | [] => some s
  | _ :: scope => if scope = [] ∨ '%' ∈ scope then none else some (s.takeWhile (· ≠ '%'))

/-- An address of version 4 at the end becomes two groups. -/
def convertSuffix (parts : List (List Char)) : Option (List (List Char)) :=
  match parts.getLast? with
  | some last =>
      if '.' ∈ last then do
        let n ← parseIpv4 last
        some (parts.dropLast ++ [Nat.toDigits 16 (n / 65536), Nat.toDigits 16 (n % 65536)])
      else some parts
  | none => some parts

/-- The positions of empty parts, the ends aside: where the text has `::`. -/
def skipIndices (parts : List (List Char)) : List ℕ :=
  (List.range parts.length).filter fun i => 1 ≤ i ∧ i + 1 < parts.length ∧ parts[i]? = some []

/-- The groups before `::`; the first one is empty only when the text begins with `::`. -/
def partsHi (l : List (List Char)) : Option (List (List Char)) :=
  if l.head? ≠ some [] then some l else if l.length = 1 then some [] else none

/-- The groups after `::`; the last one is empty only when the text ends with `::`. -/
def partsLo (l : List (List Char)) : Option (List (List Char)) :=
  if l.getLast? ≠ some [] then some l else if l.length = 1 then some [] else none

/-- The eight groups of an address of version 6. -/
def parseGroups (parts : List (List Char)) : Option (List ℕ) :=
  match skipIndices parts with
  | [] => if parts.length = 8 then parts.mapM parseHextet else none
  | [k] => do
      let hi ← partsHi (parts.take k)
      let lo ← partsLo (parts.drop (k + 1))
      if hi.length + lo.length < 8 then
        let groupsHi ← hi.mapM parseHextet
        let groupsLo ← lo.mapM parseHextet
        some (groupsHi ++ List.replicate (8 - (hi.length + lo.length)) 0 ++ groupsLo)
      else none
  | _ => none

/-- The address of version 6 a text names. -/
def parseIpv6 (s : List Char) : Option ℕ := do
  if '/' ∈ s then none
  let address ← splitScopeId s
  let parts := address.splitOn ':'
  if parts.length < 3 then none
  let parts ← convertSuffix parts
  if 9 < parts.length then none
  let groups ← parseGroups parts
  some (groups.foldl (fun n g => n * 65536 + g) 0)

/-- `ipaddress.ip_address`. -/
def ipAddress (s : String) : Option IpAddress :=
  ((parseIpv4 s.toList).map .v4).orElse fun _ => (parseIpv6 s.toList).map .v6

/-! ### Trusted proxies -/

/-- `_TRUSTED_PROXY_CIDRS`: networks with the lengths of their prefixes. -/
def trustedProxyCidrs : List (String × ℕ) :=
  [("10.0.0.0", 8), ("172.16.0.0", 12), ("192.168.0.0", 16), ("fc00::", 7), ("127.0.0.0", 8),
    ("::1", 128)]

/-- An address lies in a network of its version. -/
def inNetwork (ip : IpAddress) (network : String × ℕ) : Bool :=
  match ip, ipAddress network.1 with
  | .v4 n, some (.v4 m) => n / 2 ^ (32 - network.2) = m / 2 ^ (32 - network.2)
  | .v6 n, some (.v6 m) => n / 2 ^ (128 - network.2) = m / 2 ^ (128 - network.2)
  | _, _ => false

/-- `_is_trusted_proxy`. -/
def isTrustedProxy (host : Option String) : Bool :=
  ((host.bind ipAddress).map fun ip => trustedProxyCidrs.any (inNetwork ip)).getD false

/-! ### Requests -/

/-- What `get_client_ip` reads of a request: its peer, and its headers with their names in lower
case. -/
structure ClientRequest where
  client : Option String
  headers : List (String × String)

/-- `request.headers.get`: the first header of a name. -/
def ClientRequest.header (r : ClientRequest) (name : String) : Option String :=
  (r.headers.find? (·.1 = name)).map (·.2)

/-- `_parse_xff`. -/
def parseXff (header : Option String) : List String :=
  (((header.getD "").toList.splitOn ',').map fun entry => strip (String.ofList entry)).filter
    (· ≠ "")

/-- `do-connecting-ip`, when it is there and not empty. -/
def ClientRequest.doIp (r : ClientRequest) : Option String :=
  (r.header "do-connecting-ip").filter (· ≠ "")

/-- The direct peer. -/
def ClientRequest.peer (r : ClientRequest) : String :=
  (r.client.filter (· ≠ "")).getD "127.0.0.1"

/-- `get_client_ip`, in the runtime of the App Platform or outside of it. -/
def getClientIp (appPlatform : Bool) (r : ClientRequest) : String :=
  if appPlatform ∧ r.doIp.isSome then r.doIp.getD ""
  else if isTrustedProxy r.client then
    match (parseXff (r.header "x-forwarded-for")).reverse.find?
        fun e => !isTrustedProxy (some e) with
    | some entry => entry
    | none => r.doIp.getD r.peer
  else r.peer

example : isTrustedProxy (some "172.31.255.1") = true ∧ isTrustedProxy (some "172.32.0.1") = false ∧
    isTrustedProxy (some "fd12::1:2") = true ∧ isTrustedProxy (some "::ffff:10.0.0.1") = false ∧
    isTrustedProxy (some "10.0.0.01") = false := by
  decide +kernel

end Pfv
