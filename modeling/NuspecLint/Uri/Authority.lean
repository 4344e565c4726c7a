import NuspecLint.Number.Binary64
import NuspecLint.Text.Hexadecimal
import NuspecLint.Text.Quoted

/-!
# Authorities

The part of a URI that names a host, with who asks for it before an `@` and a port after a colon.
Where there are brackets, the host has to be an address of the sixth version of the internet
protocol or of a later one; brackets of its own may hold nothing but all of it.  No character of
an authority may stand for one that ends it.

**Results.**
* `Uri.checkAuthority`: nothing, or what is wrong with an authority.
-/

namespace NuspecLint
namespace Uri

/-- What is wrong with an authority. -/
inductive Fault where
  /-- Brackets of one kind only, or something between brackets and the ends of the host. -/
  | misplacedBracket
  /-- A host that starts like a future address and is none. -/
  | badFutureAddress
  /-- A host that is no address. -/
  | notAddress (host : List Char)
  /-- A host that is an address of the fourth version. -/
  | bracketedVersion4
  /-- A character that is compatible with a delimiter. -/
  | hiddenDelimiter (authority : List Char)
  deriving Repr, DecidableEq

/-- The message for a faulty authority. -/
def Fault.message : Fault → String
  | misplacedBracket => "Invalid IPv6 URL"
  | badFutureAddress => "IPvFuture address is invalid"
  | notAddress host =>
      String.ofList (Text.quoted host) ++ " does not appear to be an IPv4 or IPv6 address"
  | bracketedVersion4 => "An IPv4 address cannot be in brackets"
  | hiddenDelimiter authority =>
      "netloc '" ++ String.ofList authority ++
        "' contains invalid characters under NFKC normalization"

/-- The stretches of a text between separators. -/
def splitAll (separator : Char) : List Char → List (List Char)
  | [] => [[]]
  | c :: s =>
      if c = separator then [] :: splitAll separator s
      else
        match splitAll separator s with
        | [] => [[c]]
        | part :: parts => (c :: part) :: parts

/-- A decimal number up to 255 without leading zeros. -/
def isOctet (s : List Char) : Bool :=
  !s.isEmpty && s.length ≤ 3 && s.all Char.isDigit &&
    (s == ['0'] || s.head? != some '0') && Binary64.digitsValue s ≤ 255

/-- An address of the fourth version: four octets with points between them. -/
def isVersion4 (s : List Char) : Bool :=
  let parts := splitAll '.' s
  parts.length == 4 && parts.all isOctet

/-- One to four hexadecimal digits. -/
def isHextet (s : List Char) : Bool :=
  !s.isEmpty && s.length ≤ 4 && s.all fun c => (Text.hexDigit? c).isSome

/-- Parts before a gap; a leading colon is only allowed as part of the gap. -/
def beforeGap? (parts : List (List Char)) : Option (List (List Char)) :=
  match parts with
  | [] :: rest => if rest.isEmpty then some [] else none
  | parts => some parts

/-- Hextets of an address: eight of them, or at most seven around one gap. -/
def areHextets (parts : List (List Char)) : Bool :=
  let inner := parts.tail.dropLast
  match inner.findIdx? List.isEmpty with
  | none => parts.length == 8 && parts.all isHextet
  | some i =>
      let before := beforeGap? (parts.take (i + 1))
      let after := beforeGap? (parts.drop (i + 2)).reverse
      match before, after with
      | some before, some after =>
          !(inner.drop (i + 1)).any List.isEmpty &&
            before.length + after.length ≤ 7 && before.all isHextet && after.all isHextet
      | _, _ => false

/-- The parts of an address, an ending in the form of the fourth version counted as two hextets. -/
def addressParts? (s : List Char) : Option (List (List Char)) :=
  let parts := splitAll ':' s
  if parts.length < 3 then none
  else
    match parts.getLast? with
    | some last =>
        if last.contains '.' then
          if isVersion4 last then some (parts.dropLast ++ [['0'], ['0']]) else none
        else some parts
    | none => none

/-- An address of the sixth version, with the zone that may follow it. -/
def isVersion6 (s : List Char) : Bool :=
  let address := s.takeWhile (· != '%')
  let zoneIsValid :=
    match s.dropWhile (· != '%') with
    | [] => true
    | _ :: zone => !zone.isEmpty && !zone.contains '%'
  zoneIsValid &&
    match addressParts? address with
    | some parts => parts.length ≤ 9 && areHextets parts
    | none => false

/-- An address of a future version, after its first letter. -/
def isFutureAddress (s : List Char) : Bool :=
  let isHex (c : Char) : Bool := (Text.hexDigit? c).isSome
  !(s.takeWhile isHex).isEmpty &&
    match s.dropWhile isHex with
    | '.' :: _ :: _ => true
    | _ => false

/-- The host and the port, after who asks for them. -/
def hostAndPort (authority : List Char) : List Char :=
  (authority.reverse.takeWhile (· != '@')).reverse

/-- The host of an authority with brackets; outside its own brackets only a port may stand. -/
def bracketedHost (authority : List Char) : Except Fault (List Char) :=
  let named := hostAndPort authority
  if named.contains '[' then
    match named with
    | '[' :: rest =>
        match (rest.dropWhile (· != ']')).drop 1 with
        | [] => .ok (rest.takeWhile (· != ']'))
        | ':' :: _ => .ok (rest.takeWhile (· != ']'))
        | _ => .error .misplacedBracket
    | _ => .error .misplacedBracket
  else .ok (named.takeWhile (· != ':'))

/-- A host in brackets has to be an address. -/
def checkHost (host : List Char) : Except Fault Unit :=
  match host with
  | 'v' :: rest => if isFutureAddress rest then .ok () else .error .badFutureAddress
  | host =>
      if isVersion4 host then .error .bracketedVersion4
      else if isVersion6 host then .ok ()
      else .error (.notAddress host)

/-- Characters whose compatible form holds one of `/`, `?`, `#`, `@` and `:`. -/
def hiddenDelimiters : List Nat :=
  [0x2047, 0x2048, 0x2049, 0x2100, 0x2101, 0x2105, 0x2106, 0x2A74, 0xFE13, 0xFE16, 0xFE55, 0xFE56,
   0xFE5F, 0xFE6B, 0xFF03, 0xFF0F, 0xFF1A, 0xFF1F, 0xFF20]

/-- Nothing, or what is wrong with an authority. -/
def checkAuthority (authority : List Char) : Except Fault Unit := do
  if authority.contains '[' != authority.contains ']' then throw .misplacedBracket
  if authority.contains '[' then checkHost (← bracketedHost authority)
  if authority.any fun c => hiddenDelimiters.contains c.toNat then
    throw (.hiddenDelimiter authority)

end Uri
end NuspecLint
