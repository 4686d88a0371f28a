import TokenSearch.Text.Decimal

/-!
# Numeric hosts

The service listens at a numeric address: four decimal numbers with dots between them, or an
IPv6 address in square brackets, with a zone number behind a percent sign if it needs one. Host
names are not looked up.
-/

namespace TokenSearch.Http.Host

/-- Whether a text is a decimal number of one byte, without leading zeros. -/
def isOctet (cs : List Char) : Bool :=
  (cs.length ≤ 3 && (cs.length ≤ 1 || cs.head? ≠ some '0')) &&
    (Text.Decimal.natural? cs).any (· ≤ 255)

/-- Whether a text is an IPv4 address. -/
def isV4 (cs : List Char) : Bool :=
  let octets := cs.splitOn '.'
  octets.length = 4 && octets.all isOctet

/-- Whether a character is a hexadecimal digit. -/
def isHexDigit (c : Char) : Bool :=
  c.isDigit || ('a' ≤ c && c ≤ 'f') || ('A' ≤ c && c ≤ 'F')

/-- Whether a text is a group of an IPv6 address. -/
def isGroup (cs : List Char) : Bool := 1 ≤ cs.length && cs.length ≤ 4 && cs.all isHexDigit

/-- The number of 16-bit groups that some groups stand for. The last of an address may be an IPv4
address, which stands for two. -/
def groupCount? (mayEndInV4 : Bool) : List (List Char) → Option Nat
  | [] => some 0
  | [last] => if isGroup last then some 1 else if mayEndInV4 && isV4 last then some 2 else none
  | group :: rest => if isGroup group then (groupCount? mayEndInV4 rest).map (· + 1) else none

/-- The groups of a text with colons between them; none in an empty text. -/
def groups (cs : List Char) : List (List Char) := if cs.isEmpty then [] else cs.splitOn ':'

/-- The text before the first doubled colon, and the text behind it. -/
def splitDoubled : List Char → Option (List Char × List Char)
  | ':' :: ':' :: rest => some ([], rest)
  | c :: rest => (splitDoubled rest).map fun (front, back) => (c :: front, back)
  | [] => none

/-- Whether a text is an IPv6 address. A doubled colon stands for at least one group. -/
def isV6 (cs : List Char) : Bool :=
  match splitDoubled cs with
  | none => groupCount? true (groups cs) = some 8
  | some (front, back) =>
    match groupCount? false (groups front), groupCount? true (groups back) with
    | some m, some n => m + n ≤ 7
    | _, _ => false

/-- Whether a text is a zone behind an IPv6 address, or empty. -/
def isZone : List Char → Bool
  | [] => true
  | '%' :: digits => (Text.Decimal.natural? digits).any (· ≤ 4294967295)
  | _ => false

/-- Whether a host can be listened at. -/
def isNumeric (host : String) : Bool :=
  match host.toList with
  | '[' :: inner =>
    inner.getLast? = some ']' &&
      let address := inner.dropLast
      isV6 (address.takeWhile (· ≠ '%')) && isZone (address.dropWhile (· ≠ '%'))
  | cs => isV4 cs

end TokenSearch.Http.Host
