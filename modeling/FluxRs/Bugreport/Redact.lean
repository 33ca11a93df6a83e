import FluxRs.Lib.Rewrite

/-!
# FluxRs.Bugreport.Redact — the scanners that mask a bug report

`bugreport.rs`: each line passes six scanners, one after the other.  All tests are on ASCII bytes, which a
multi-byte character never contains, so a text is a list of characters here and a place in it is a cursor.
-/

namespace FluxRs.Bugreport

open FluxRs.Lib Rewrite

/-! ### Characters -/

def isAsciiWhitespace (c : Char) : Bool := c == ' ' || c == '\t' || c == '\n' || c == '\x0C' || c == '\r'

def isAsciiHexdigit (c : Char) : Bool :=
  c.isDigit || ('a'.val ≤ c.val && c.val ≤ 'f'.val) || ('A'.val ≤ c.val && c.val ≤ 'F'.val)

def eqIgnoreAsciiCase (text key : List Char) : Bool := text.map Char.toLower == key.map Char.toLower

def isQuote (c : Char) : Bool := c == '"' || c == '\''

def isSeparator (c : Char) : Bool := c == ':' || c == '='

/-- A key between two symbols that are not alphanumeric. -/
def keyAt (place : Cursor Char) (key : List Char) : Bool :=
  key.length ≤ place.rest.length && !place.prev.any Char.isAlphanum &&
    eqIgnoreAsciiCase (place.rest.take key.length) key &&
    !(place.rest.drop key.length).head?.any Char.isAlphanum

/-! ### URL userinfo -/

/-- What stands between the scheme and the userinfo's end. -/
def inAuthority (c : Char) : Bool := c != '/' && !isAsciiWhitespace c && c != '@'

def userinfoRule : Rule Char where
  rewrite place :=
    match place.rest with
    | ':' :: '/' :: '/' :: cs =>
      let start : Cursor Char := ⟨some '/', cs⟩
      let stop := start.skip inAuthority
      if stop.rest.head? = some '@' then some ("://[userinfo-redacted]".toList, stop) else some ("://".toList, start)
    | _ => none
  progress := by
    intro c out next h
    dsimp only at h
    split at h
    · rename_i cs hc
      rw [hc]
      split at h
      · cases h
        have hle := Cursor.skip_le inAuthority ⟨some '/', cs⟩
        simp only [List.length_cons] at hle ⊢
        omega
      · cases h
        simp only [List.length_cons]
        omega
    · cases h

def redactUserinfo (line : List Char) : List Char := userinfoRule.scan ⟨none, line⟩

/-! ### URL queries -/

/-- The flag says that a scheme came before in this word. -/
def redactQueries (inUrl : Bool) : List Char → List Char
  | [] => []
  | c :: cs =>
    if isAsciiWhitespace c then c :: redactQueries false cs
    else
      let inUrl := inUrl || "://".toList.isPrefixOf (c :: cs)
      if inUrl && c == '?' then
        "?[query-redacted]".toList ++ redactQueries false (cs.dropWhile fun c => !isAsciiWhitespace c)
      else c :: redactQueries inUrl cs
termination_by line => line.length
decreasing_by
  · exact Nat.lt_succ_self _
  · exact Nat.lt_succ_of_le (List.dropWhile_sublist _).length_le
  · exact Nat.lt_succ_self _

/-! ### Assignments of secrets -/

def SECRET_KEYS : List (List Char) :=
  ["authorization".toList, "password".toList, "secret".toList, "token".toList]

/-- The place after a secret's value. -/
def skipValue (key : List Char) (value : Cursor Char) : Cursor Char :=
  if eqIgnoreAsciiCase key "authorization".toList then value.skip (· != '\n')
  else
    match value.rest with
    | c :: cs =>
      if isQuote c then
        let stop := Cursor.skip (fun d => d != c && d != '\n') ⟨some c, cs⟩
        if stop.rest.head? = some c then stop.advance 1 else stop
      else value.skip fun c => !isAsciiWhitespace c
    | [] => value

/-- After a key: the text up to the separator, then the separator and the masked value if there is one. -/
def redactValue (key : List Char) (named : Cursor Char) : List Char × Cursor Char :=
  let place := named.skip isAsciiWhitespace
  match place.rest with
  | c :: cs =>
    if isSeparator c then
      let value := Cursor.skip isAsciiWhitespace ⟨some c, cs⟩
      (named.read isAsciiWhitespace ++ c :: Cursor.read isAsciiWhitespace ⟨some c, cs⟩ ++
        "[credential-redacted]".toList, skipValue key value)
    else (named.read isAsciiWhitespace, place)
  | [] => (named.read isAsciiWhitespace, place)

theorem advance_le (n : ℕ) (c : Cursor Char) : (c.advance n).rest.length ≤ c.rest.length := by
  rw [Cursor.advance, List.length_drop]
  omega

theorem skipValue_le (key : List Char) (value : Cursor Char) :
    (skipValue key value).rest.length ≤ value.rest.length := by
  rw [skipValue]
  split
  · exact Cursor.skip_le _ _
  · split
    · rename_i c cs hc
      split
      · have hle := Cursor.skip_le (fun d => d != c && d != '\n') ⟨some c, cs⟩
        rw [hc, List.length_cons]
        dsimp only at hle ⊢
        split
        · have hadv := advance_le 1 (Cursor.skip (fun d => d != c && d != '\n') ⟨some c, cs⟩)
          omega
        · omega
      · exact Cursor.skip_le _ _
    · exact Nat.le_refl _

theorem redactValue_le (key : List Char) (named : Cursor Char) :
    (redactValue key named).2.rest.length ≤ named.rest.length := by
  have hskip := Cursor.skip_le isAsciiWhitespace named
  rw [redactValue]
  split
  · rename_i c cs hc
    rw [hc, List.length_cons] at hskip
    split
    · have hvalue := skipValue_le key (Cursor.skip isAsciiWhitespace ⟨some c, cs⟩)
      have hblank := Cursor.skip_le isAsciiWhitespace ⟨some c, cs⟩
      dsimp only at hvalue hblank ⊢
      omega
    · exact hc ▸ hskip
  · exact hskip

def assignmentRule : Rule Char where
  rewrite place :=
    match place.rest with
    | [] => none
    | c :: cs =>
      match SECRET_KEYS.find? (keyAt place) with
      | none => none
      | some key =>
        let named := Cursor.advance (key.length - 1) ⟨some c, cs⟩
        let (out, next) := redactValue key named
        some (c :: cs.take (key.length - 1) ++ out, next)
  progress := by
    intro c out next h
    dsimp only at h
    split at h
    · cases h
    · rename_i a as hc
      split at h
      · cases h
      · rename_i key hkey
        cases h
        have hvalue := redactValue_le key (Cursor.advance (key.length - 1) ⟨some a, as⟩)
        have hadv := advance_le (key.length - 1) ⟨some a, as⟩
        rw [hc, List.length_cons]
        exact Nat.lt_succ_of_le (Nat.le_trans hvalue hadv)

def redactAssignments (line : List Char) : List Char := assignmentRule.scan ⟨none, line⟩

/-! ### Node tags -/

def SAFE_TAGS : List (List Char) :=
  ["DIRECT", "REJECT", "PROXY", "GLOBAL", "AUTO", "dns-out", "dns-in", "block", "fakeip", "dns", "HK", "TW", "JP",
    "SG", "US"].map String.toList

/-- The text for a tag's value, and the place after it. -/
def redactTag (value : Cursor Char) : List Char × Cursor Char :=
  match value.rest with
  | c :: cs =>
    if isQuote c then
      let start : Cursor Char := ⟨some c, cs⟩
      let tag := start.read fun d => d != '\n' && d != c
      let stop := start.skip fun d => d != '\n' && d != c
      let closed := stop.rest.head? == some c
      (if SAFE_TAGS.contains tag then c :: tag ++ (if closed then [c] else []) else "[node-redacted]".toList,
        if closed then stop.advance 1 else stop)
    else
      let tag := value.read fun d => d != '\n' && !isAsciiWhitespace d && d != ','
      (if SAFE_TAGS.contains tag then tag else "[node-redacted]".toList,
        value.skip fun d => d != '\n' && !isAsciiWhitespace d && d != ',')
  | [] => (if SAFE_TAGS.contains [] then [] else "[node-redacted]".toList, value)

theorem redactTag_le (value : Cursor Char) : (redactTag value).2.rest.length ≤ value.rest.length := by
  rw [redactTag]
  split
  · rename_i c cs hc
    split
    · have hle := Cursor.skip_le (fun d => d != '\n' && d != c) ⟨some c, cs⟩
      have hadv := advance_le 1 (Cursor.skip (fun d => d != '\n' && d != c) ⟨some c, cs⟩)
      rw [hc, List.length_cons]
      dsimp only at hle ⊢
      split <;> omega
    · exact Cursor.skip_le _ _
  · exact Nat.le_refl _

def tagRule : Rule Char where
  rewrite place :=
    match place.rest with
    | [] => none
    | c :: cs =>
      if keyAt place "tag".toList then
        let named := Cursor.advance 2 ⟨some c, cs⟩
        match (named.skip isAsciiWhitespace).rest with
        | s :: tail =>
          if isSeparator s then
            let value := Cursor.skip isAsciiWhitespace ⟨some s, tail⟩
            let (out, next) := redactTag value
            some (c :: cs.take 2 ++ named.read isAsciiWhitespace ++
              s :: Cursor.read isAsciiWhitespace ⟨some s, tail⟩ ++ out, next)
          else none
        | [] => none
      else none
  progress := by
    intro place out next h
    dsimp only at h
    split at h
    · cases h
    · rename_i c cs hc
      split at h
      · split at h
        · rename_i s tail hs
          split at h
          · cases h
            have hname := advance_le 2 ⟨some c, cs⟩
            have hskip := Cursor.skip_le isAsciiWhitespace (Cursor.advance 2 ⟨some c, cs⟩)
            have hblank := Cursor.skip_le isAsciiWhitespace ⟨some s, tail⟩
            have htag := redactTag_le (Cursor.skip isAsciiWhitespace ⟨some s, tail⟩)
            rw [hs, List.length_cons] at hskip
            rw [hc, List.length_cons]
            dsimp only at hname hblank ⊢
            omega
          · cases h
        · cases h
      · cases h

def redactTags (line : List Char) : List Char := tagRule.scan ⟨none, line⟩

def redactCredentials (line : List Char) : List Char :=
  redactTags (redactAssignments (redactQueries false (redactUserinfo line)))

/-! ### Addresses and cookies -/

def isAddrByte (c : Char) : Bool := isAsciiHexdigit c || c == '.' || c == ':'

def parseDecimal (digits : List Char) : ℕ := digits.foldl (fun n c => n * 10 + (c.toNat - '0'.toNat)) 0

def isOctet (octet : List Char) : Bool :=
  !octet.isEmpty && octet.length ≤ 3 && octet.all Char.isDigit && parseDecimal octet ≤ 255

/-- `a.b.c.d`, with a port or not, becomes `a.x.x.x` and the port. -/
def maskIpv4 (token : List Char) : Option (List Char) :=
  let masked (addr port : List Char) : Option (List Char) :=
    let octets := addr.splitOn '.'
    if octets.length = 4 && octets.all isOctet then some (octets.headD [] ++ ".x.x.x".toList ++ port) else none
  match token.dropWhile (· != ':') with
  | _ :: port =>
    if !port.isEmpty && port.all Char.isDigit then masked (token.takeWhile (· != ':')) (':' :: port) else none
  | [] => masked token []

def isMac (token : List Char) : Bool :=
  (token.splitOn ':').length = 6 && (token.splitOn ':').all fun g => g.length = 2 && g.all isAsciiHexdigit

/-- The text has two colons in a row. -/
def hasDoubleColon : List Char → Bool
  | ':' :: ':' :: _ => true
  | _ :: text => hasDoubleColon text
  | [] => false

def isIpv6Like (token : List Char) : Bool :=
  let colons := token.count ':'
  if colons < 2 then false
  else if hasDoubleColon token then token.any isAsciiHexdigit
  else
    (token.any fun c => isAsciiHexdigit c && !c.isDigit) &&
      ((token.splitOn ':').all fun g => g.length ≤ 4 && g.all isAsciiHexdigit) && 3 ≤ colons

def classifyAndMask (token : List Char) : List Char :=
  match maskIpv4 token with
  | some masked => masked
  | none =>
    if isMac token then "[mac-redacted]".toList
    else if isIpv6Like token then "[v6-redacted]".toList
    else token

def lineRule : Rule Char where
  rewrite place :=
    match place.rest with
    | [] => none
    | c :: cs =>
      if c = '"' then
        let start : Cursor Char := ⟨some c, cs⟩
        let stop := start.skip Char.isDigit
        if 6 ≤ (start.read Char.isDigit).length && stop.rest.head? = some ':' then
          some ("\"[cookie-redacted]:".toList, stop.advance 1)
        else some (['"'], start)
      else if isAddrByte c then
        some (classifyAndMask (place.read isAddrByte), Cursor.skip isAddrByte ⟨some c, cs⟩)
      else none
  progress := by
    intro place out next h
    dsimp only at h
    split at h
    · cases h
    · rename_i c cs hc
      rw [hc, List.length_cons]
      have hdigits := Cursor.skip_le Char.isDigit ⟨some c, cs⟩
      have hadv := advance_le 1 (Cursor.skip Char.isDigit ⟨some c, cs⟩)
      have haddr := Cursor.skip_le isAddrByte ⟨some c, cs⟩
      split at h
      · split at h <;> cases h
        · exact Nat.lt_succ_of_le (Nat.le_trans hadv hdigits)
        · exact Nat.lt_succ_self _
      · split at h <;> cases h
        exact Nat.lt_succ_of_le haddr

def redactLine (line : List Char) : List Char := lineRule.scan ⟨none, line⟩

/-! ### Domains -/

def isDomainByte (c : Char) : Bool := c.isAlphanum || c == '.' || c == '_' || c == '-'

def isTrimmed (c : Char) : Bool := c == '.' || c == '-' || c == '_'

def isLabel (label : List Char) : Bool :=
  !label.isEmpty && label.length ≤ 63 && (label.all fun c => c.isAlphanum || c == '-') &&
    label.head?.any Char.isAlphanum && label.getLast?.any Char.isAlphanum

def FILE_SUFFIXES : List (List Char) :=
  ["json", "toml", "log", "txt", "zip", "srs", "rs", "md", "so"].map String.toList

def isDomainLike (token : List Char) : Bool :=
  let trimmed := ((token.dropWhile isTrimmed).reverse.dropWhile isTrimmed).reverse
  let labels := trimmed.splitOn '.'
  if labels.length < 2 || !labels.all isLabel then false
  else
    let suffix := (labels.getLastD []).map Char.toLower
    !FILE_SUFFIXES.contains suffix && 2 ≤ suffix.length && suffix.all Char.isAlpha

def domainRule : Rule Char where
  rewrite place :=
    match place.rest with
    | [] => none
    | c :: cs =>
      if isDomainByte c then
        let token := place.read isDomainByte
        some (if isDomainLike token then "[domain-redacted]".toList else token,
          Cursor.skip isDomainByte ⟨some c, cs⟩)
      else none
  progress := by
    intro place out next h
    dsimp only at h
    split at h
    · cases h
    · rename_i c cs hc
      rw [hc, List.length_cons]
      split at h <;> cases h
      exact Nat.lt_succ_of_le (Cursor.skip_le _ _)

def redactDomains (line : List Char) : List Char := domainRule.scan ⟨none, line⟩

/-! ### Lines -/

/-- The lines of a text, each with its line break. -/
def splitInclusive : List Char → List (List Char)
  | [] => []
  | c :: cs =>
    if c = '\n' then [c] :: splitInclusive cs
    else
      match splitInclusive cs with
      | [] => [[c]]
      | line :: lines => (c :: line) :: lines

def redactOne (line : List Char) : List Char := redactDomains (redactLine (redactCredentials line))

def redact (text : List Char) : List Char := (splitInclusive text).flatMap redactOne

end FluxRs.Bugreport
