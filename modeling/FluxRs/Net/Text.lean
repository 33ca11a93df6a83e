import FluxRs.Net.Cidr

/-!
# FluxRs.Net.Text — addresses and prefixes as text

`Ipv4Cidr::parse` and `Ipv6Cidr::parse` of `cidr.rs`, with the readers and the printers of
`std::net` they compare.  A text is accepted if it is the one that the prefix prints as.
-/

namespace FluxRs.Net

open FluxRs.Lib

/-! ### Readers -/

/-- `char::to_digit`. -/
def toDigit (radix : ℕ) (c : Char) : Option ℕ :=
  (if '0' ≤ c ∧ c ≤ '9' then some (c.toNat - '0'.toNat)
    else if 'a' ≤ c ∧ c ≤ 'z' then some (c.toNat - 'a'.toNat + 10)
    else if 'A' ≤ c ∧ c ≤ 'Z' then some (c.toNat - 'A'.toNat + 10)
    else none).filter (· < radix)

/-- `read_number`: as many digits as there are, within a number of digits and a bound. -/
def readNumber (radix maxDigits bound : ℕ) (allowZeroPrefix : Bool) (text : List Char) :
    Option (ℕ × List Char) :=
  let digits := text.takeWhile fun c => (toDigit radix c).isSome
  let value := digits.foldl (fun acc c => acc * radix + (toDigit radix c).getD 0) 0
  if digits = [] ∨ maxDigits < digits.length then none
  else if allowZeroPrefix = false ∧ digits.head? = some '0' ∧ 1 < digits.length then none
  else if bound < value then none
  else some (value, text.drop digits.length)

def readChar (c : Char) : List Char → Option (List Char)
  | [] => none
  | first :: rest => if first = c then some rest else none

/-- `read_ipv4_addr`. -/
def readIpv4Addr (text : List Char) : Option (List ℕ × List Char) := do
  let (a, text) ← readNumber 10 3 255 false text
  let text ← readChar '.' text
  let (b, text) ← readNumber 10 3 255 false text
  let text ← readChar '.' text
  let (c, text) ← readNumber 10 3 255 false text
  let text ← readChar '.' text
  let (d, text) ← readNumber 10 3 255 false text
  return ([a, b, c, d], text)

/-- `read_groups`: up to so many groups; an embedded IPv4 address stands for the last two. -/
def readGroups : ℕ → Bool → List Char → List ℕ × Bool × List Char
  | 0, _, text => ([], false, text)
  | n + 1, first, text =>
    let inner := if first then some text else readChar ':' text
    match if 0 < n then inner.bind readIpv4Addr else none with
    | some (octets, rest) =>
      ([octets.getD 0 0 * 256 + octets.getD 1 0, octets.getD 2 0 * 256 + octets.getD 3 0], true, rest)
    | none =>
      match inner.bind (readNumber 16 4 0xffff true) with
      | none => ([], false, text)
      | some (group, rest) =>
        let (groups, v4, rest) := readGroups n false rest
        (group :: groups, v4, rest)

/-- `read_ipv6_addr`: all eight groups, or a gap of at least one. -/
def readIpv6Addr (text : List Char) : Option (List ℕ × List Char) :=
  let (head, headV4, rest) := readGroups 8 true text
  if head.length = 8 then some (head, rest)
  else if headV4 then none
  else do
    let rest ← readChar ':' rest
    let rest ← readChar ':' rest
    let (tail, _, rest) := readGroups (8 - (head.length + 1)) true rest
    return (head ++ List.replicate (8 - head.length - tail.length) 0 ++ tail, rest)

/-- The word that the digits spell in a base. -/
def wordOfDigits (w base : ℕ) (digits : List ℕ) : BitVec w :=
  BitVec.ofNat w (digits.foldl (fun acc d => acc * base + d) 0)

/-- `parse_with`: the reader has to use up the text. -/
def parseWith {α : Type} (read : List Char → Option (α × List Char)) (text : List Char) : Option α :=
  match read text with
  | some (value, []) => some value
  | _ => none

def parseIpv4Addr (text : List Char) : Option Ipv4Addr :=
  (parseWith readIpv4Addr text).map (wordOfDigits 32 256)

def parseIpv6Addr (text : List Char) : Option Ipv6Addr :=
  (parseWith readIpv6Addr text).map (wordOfDigits 128 65536)

/-! ### Printers -/

/-- The digits of a word in a base `2 ^ k`, so many of them. -/
def digitsOfWord {w : ℕ} (k : ℕ) : ℕ → BitVec w → List ℕ
  | 0, _ => []
  | n + 1, x => (x >>> (k * n)).toNat % 2 ^ k :: digitsOfWord k n x

def joinWith (sep : Char) : List (List Char) → List Char
  | [] => []
  | [part] => part
  | part :: rest => part ++ sep :: joinWith sep rest

def showIpv4Addr (addr : Ipv4Addr) : List Char :=
  joinWith '.' ((digitsOfWord 8 4 addr).map (Nat.toDigits 10))

/-- `fmt_subslice`. -/
def showGroups (groups : List ℕ) : List Char := joinWith ':' (groups.map (Nat.toDigits 16))

/-- The first of the longest runs of zero groups, as its start and its length. -/
def longestZeroes (groups : List ℕ) : ℕ × ℕ :=
  (groups.zipIdx.foldl (fun (acc : (ℕ × ℕ) × (ℕ × ℕ)) g =>
    if g.1 = 0 then
      let current := if acc.2.2 = 0 then (g.2, 1) else (acc.2.1, acc.2.2 + 1)
      (if acc.1.2 < current.2 then current else acc.1, current)
    else (acc.1, (0, 0))) ((0, 0), (0, 0))).1

def showIpv6Addr (addr : Ipv6Addr) : List Char :=
  let groups := digitsOfWord 16 8 addr
  -- `to_ipv4_mapped`
  if groups.take 6 = [0, 0, 0, 0, 0, 0xffff] then "::ffff:".toList ++ showIpv4Addr (addr.setWidth 32)
  else
    let (start, len) := longestZeroes groups
    if 1 < len then showGroups (groups.take start) ++ "::".toList ++ showGroups (groups.drop (start + len))
    else showGroups groups

/-! ### Prefixes -/

/-- `CidrError` as `parse` returns it. -/
inductive ParseError where
  | malformed (text : String)
  | prefixTooLong (prefixLen : ℕ)
  | hostBitsSet (text : String)
  deriving DecidableEq, Repr

/-- `str::parse::<u8>`. -/
def parseU8 (text : List Char) : Option ℕ :=
  let digits := match text with
    | '+' :: rest => rest
    | _ => text
  if digits = [] ∨ digits.any (fun c => (toDigit 10 c).isNone) then none
  else
    let value := digits.foldl (fun acc c => acc * 10 + (toDigit 10 c).getD 0) 0
    if 255 < value then none else some value

/-- `split_prefix`: the text before the first slash, and the length behind it. -/
def splitPrefix (text : List Char) : Option (List Char × ℕ) :=
  match text.dropWhile (· ≠ '/') with
  | [] => none
  | _ :: len => (parseU8 len).map fun n => (text.takeWhile (· ≠ '/'), n)

section Family

variable {w : ℕ}

def showPrefix (showAddr : BitVec w → List Char) (addr : BitVec w) (prefixLen : ℕ) : List Char :=
  showAddr addr ++ '/' :: Nat.toDigits 10 prefixLen

/-- `parse` of one family: the canonical text of a canonical prefix. -/
def parseCidr (parseAddr : List Char → Option (BitVec w)) (showAddr : BitVec w → List Char)
    (text : String) : Except ParseError (Cidr w) :=
  match splitPrefix text.toList with
  | none => .error (.malformed text)
  | some (addrText, prefixLen) =>
    if h : prefixLen ≤ w then
      match parseAddr addrText with
      | none => .error (.malformed text)
      | some addr =>
        if text.toList ≠ showPrefix showAddr addr prefixLen then .error (.malformed text)
        else if hc : addr &&& ~~~ mask w prefixLen = 0 then .ok ⟨addr, prefixLen, h, hc⟩
        else .error (.hostBitsSet text)
    else .error (.prefixTooLong prefixLen)

/-- An accepted text is the one its prefix prints as. -/
theorem parseCidr_text {parseAddr : List Char → Option (BitVec w)} {showAddr : BitVec w → List Char}
    {text : String} {c : Cidr w} (h : parseCidr parseAddr showAddr text = .ok c) :
    text.toList = showPrefix showAddr c.addr c.prefixLen := by
  unfold parseCidr at h
  split at h
  · cases h
  · split at h
    · split at h
      · cases h
      · split_ifs at h with htext hcan
        obtain rfl := Except.ok.inj h
        exact not_not.mp htext
    · cases h

/-- Two accepted texts of one prefix are the same text. -/
theorem parseCidr_inj {parseAddr : List Char → Option (BitVec w)} {showAddr : BitVec w → List Char}
    {text text' : String} {c : Cidr w} (h : parseCidr parseAddr showAddr text = .ok c)
    (h' : parseCidr parseAddr showAddr text' = .ok c) : text = text' :=
  String.toList_injective ((parseCidr_text h).trans (parseCidr_text h').symm)

end Family

def Ipv4Cidr.parse (text : String) : Except ParseError Ipv4Cidr := parseCidr parseIpv4Addr showIpv4Addr text

def Ipv6Cidr.parse (text : String) : Except ParseError Ipv6Cidr := parseCidr parseIpv6Addr showIpv6Addr text

/-- `Display`. -/
def Ipv4Cidr.show (c : Ipv4Cidr) : String := String.ofList (showPrefix showIpv4Addr c.addr c.prefixLen)

def Ipv6Cidr.show (c : Ipv6Cidr) : String := String.ofList (showPrefix showIpv6Addr c.addr c.prefixLen)

/-! ### The fixed prefixes as the source writes them -/

/-- `FIXED_BYPASS_V4_PREFIXES`. -/
def fixedBypassV4Prefixes : List String :=
  ["0.0.0.0/8", "10.0.0.0/8", "127.0.0.0/8", "169.254.0.0/16", "172.16.0.0/12", "192.168.0.0/16",
    "224.0.0.0/4", "255.255.255.255/32"]

/-- `FIXED_BYPASS_V6_PREFIXES`. -/
def fixedBypassV6Prefixes : List String := ["::/128", "::1/128", "fc00::/7", "fe80::/10", "ff00::/8"]

theorem fixedBypassV4_parsed :
    (fixedBypassV4Prefixes ++ ["198.51.100.1/32"]).map Ipv4Cidr.parse = fixedBypassV4.map .ok := by decide

theorem fixedBypassV6_parsed :
    (fixedBypassV6Prefixes ++ ["2001:db8:0:1::2/128"]).map Ipv6Cidr.parse = fixedBypassV6.map .ok := by
  decide

end FluxRs.Net
