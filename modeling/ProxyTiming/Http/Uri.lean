/-!
# URLs

A URL is taken apart into scheme, authority, and path with query.  The rules are
those of the RFC 3986 grammar as clients apply it: a text without a scheme is an
authority alone or a path alone, brackets and percent signs are allowed only where
an authority can have them, and a fragment is dropped.

Every character of the accepted parts is from a known set; that is why a request
can be written from them without a second look.
-/

namespace ProxyTiming.Http

inductive UriFault where
  | tooLong
  | empty
  | invalidCharacter
  | invalidAuthority
  | invalidFormat
  | schemeTooLong
deriving DecidableEq

def UriFault.message : UriFault → String
  | tooLong => "uri too long"
  | empty => "empty string"
  | invalidCharacter => "invalid uri character"
  | invalidAuthority => "invalid authority"
  | invalidFormat => "invalid format"
  | schemeTooLong => "scheme too long"

/-- The parts of a URL.  The authority is empty when there is none, and so is the path. -/
structure Uri where
  scheme : Option String
  authority : List Char
  pathAndQuery : List Char
deriving DecidableEq

/-! ### Character classes -/

def isAlphanumeric (c : Char) : Bool :=
  (decide ('a' ≤ c) && decide (c ≤ 'z')) || (decide ('A' ≤ c) && decide (c ≤ 'Z')) ||
    (decide ('0' ≤ c) && decide (c ≤ '9'))

def isSchemeChar (c : Char) : Bool :=
  isAlphanumeric c || c == '+' || c == '-' || c == '.' || c == '~'

def endsAuthority (c : Char) : Bool := c == '/' || c == '?' || c == '#'

def isAuthorityChar (c : Char) : Bool :=
  isAlphanumeric c || "!$&'()*+,-.:;=@[]_~".toList.contains c

def isPathChar (c : Char) : Bool :=
  let n := c.toNat
  n == 0x21 || (decide (0x24 ≤ n) && decide (n ≤ 0x3B)) || n == 0x3D ||
    (decide (0x40 ≤ n) && decide (n ≤ 0x5F)) || (decide (0x61 ≤ n) && decide (n ≤ 0x7A)) ||
    n == 0x7C || n == 0x7E || n == 0x22 || n == 0x7B || n == 0x7D || decide (0x80 ≤ n)

def isQueryChar (c : Char) : Bool :=
  let n := c.toNat
  n == 0x21 || (decide (0x24 ≤ n) && decide (n ≤ 0x3B)) || n == 0x3D ||
    (decide (0x3F ≤ n) && decide (n ≤ 0x7E)) || decide (0x80 ≤ n)

/-! ### Authorities -/

/-- What has been seen of an authority. -/
structure AuthorityScan where
  /-- Colons that may still turn out to stand before a port. -/
  colons : Nat
  opened : Bool
  closed : Bool
  /-- A percent sign that may still turn out to belong to the user's name. -/
  percent : Bool
  /-- Whether the last character was an at sign. -/
  atLast : Bool
deriving DecidableEq

namespace AuthorityScan

def start : AuthorityScan := ⟨0, false, false, false, false⟩

def step (s : AuthorityScan) (c : Char) : Except UriFault AuthorityScan :=
  let s := { s with atLast := false }
  if c = ':' then
    if 8 ≤ s.colons then .error .invalidAuthority else .ok { s with colons := s.colons + 1 }
  else if c = '[' then
    if s.percent || s.opened then .error .invalidAuthority else .ok { s with opened := true }
  else if c = ']' then
    if !s.opened || s.closed then .error .invalidAuthority
    else .ok { s with closed := true, colons := 0, percent := false }
  else if c = '@' then .ok { s with colons := 0, percent := false, atLast := true }
  else if c = '%' then .ok { s with percent := true }
  else if isAuthorityChar c then .ok s
  else .error .invalidCharacter

/-- All characters in order. -/
def steps (s : AuthorityScan) : List Char → Except UriFault AuthorityScan
  | [] => .ok s
  | c :: cs =>
    match s.step c with
    | .ok s => s.steps cs
    | .error e => .error e

/-- Whether what has been seen can stand as it is. -/
def isComplete (s : AuthorityScan) : Bool :=
  s.opened == s.closed && decide (s.colons ≤ 1) && !s.atLast && !s.percent

end AuthorityScan

/-- The authority at the front of a text, and what follows it. -/
def splitAuthority (cs : List Char) : Except UriFault (List Char × List Char) :=
  let authority := cs.takeWhile fun c => !endsAuthority c
  if cs.isEmpty then .error .empty
  else
    match AuthorityScan.start.steps authority with
    | .error e => .error e
    | .ok s =>
      if s.isComplete then .ok (authority, cs.dropWhile fun c => !endsAuthority c)
      else .error .invalidAuthority

/-! ### Paths -/

/-- The query, with its mark, up to a fragment. -/
def scanQuery : List Char → Except UriFault (List Char)
  | [] => .ok []
  | c :: cs =>
    if c = '#' then .ok []
    else if isQueryChar c then
      match scanQuery cs with
      | .ok rest => .ok (c :: rest)
      | .error e => .error e
    else .error .invalidCharacter

def scanPath : List Char → Except UriFault (List Char)
  | [] => .ok []
  | c :: cs =>
    if c = '#' then .ok []
    else if c = '?' then
      match scanQuery cs with
      | .ok rest => .ok ('?' :: rest)
      | .error e => .error e
    else if isPathChar c then
      match scanPath cs with
      | .ok rest => .ok (c :: rest)
      | .error e => .error e
    else .error .invalidCharacter

/-! ### Schemes -/

def maxSchemeLength : Nat := 64

def startsWithIgnoringCase (start cs : List Char) : Bool :=
  start.isPrefixOf ((cs.take start.length).map Char.toLower)

/-- The scheme at the front of a text, and what follows its marks. -/
def splitScheme (cs : List Char) : Except UriFault (Option String × List Char) :=
  if startsWithIgnoringCase "http://".toList cs then .ok (some "http", cs.drop 7)
  else if startsWithIgnoringCase "https://".toList cs then .ok (some "https", cs.drop 8)
  else
    let scheme := cs.takeWhile isSchemeChar
    match cs.dropWhile isSchemeChar with
    | ':' :: '/' :: '/' :: rest =>
      if cs.length ≤ 3 then .ok (none, cs)
      else if maxSchemeLength < scheme.length then .error .schemeTooLong
      else .ok (some (String.ofList scheme), rest)
    | _ => .ok (none, cs)

/-! ### URLs -/

def maxUriLength : Nat := 65534

def authorityOnly (fault : UriFault) (cs : List Char) : Except UriFault Uri := do
  let (authority, rest) ← splitAuthority cs
  if rest.isEmpty then .ok ⟨none, authority, []⟩ else .error fault

def Uri.ofChars (cs : List Char) : Except UriFault Uri :=
  match cs with
  | [] => .error .empty
  | ['/'] => .ok ⟨none, [], ['/']⟩
  | ['*'] => .ok ⟨none, [], ['*']⟩
  | [c] => authorityOnly .invalidCharacter [c]
  | '/' :: _ => do
    let path ← scanPath cs
    .ok ⟨none, [], path⟩
  | _ => do
    let (scheme, rest) ← splitScheme cs
    match scheme with
    | none => authorityOnly .invalidFormat cs
    | some scheme => do
      let (authority, rest) ← splitAuthority rest
      if authority.isEmpty then .error .invalidFormat
      else do
        let path ← scanPath rest
        .ok ⟨some scheme, authority, path⟩

def Uri.parse (s : String) : Except UriFault Uri :=
  if maxUriLength < s.utf8ByteSize then .error .tooLong else Uri.ofChars s.toList

/-! ### Parts of the authority -/

/-- What follows the last occurrence of a mark, if there is one. -/
def afterLast? (mark : Char) : List Char → Option (List Char)
  | [] => none
  | c :: cs =>
    match afterLast? mark cs with
    | some rest => some rest
    | none => if c = mark then some cs else none

/-- The text up to a mark, and the mark itself; the whole text without one. -/
def throughFirst (mark : Char) : List Char → List Char
  | [] => []
  | c :: cs => if c = mark then [c] else c :: throughFirst mark cs

def hostOf (authority : List Char) : List Char :=
  let hostAndPort := (afterLast? '@' authority).getD authority
  match hostAndPort with
  | '[' :: _ => throughFirst ']' hostAndPort
  | _ => hostAndPort.takeWhile (· ≠ ':')

end ProxyTiming.Http
