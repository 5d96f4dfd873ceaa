import SourceLayout.Text.Utf8
import SourceLayout.Workspace.Path

/-!
# Document addresses

An editor names its documents by an address of the form `scheme://host/path;more?query#part`. The
formatter wants the path of the file behind it. An address whose host is malformed is taken as a
path itself.
-/

namespace SourceLayout

structure Uri where
  scheme : Text := []
  host : Text := []
  path : Text := []
  deriving DecidableEq, Repr

namespace Uri

def isAscii (c : Char) : Bool :=
  c.toNat < 128

def isHexDigit (c : Char) : Bool :=
  c.isDigit || ('a' ≤ c && c ≤ 'f') || ('A' ≤ c && c ≤ 'F')

def hexValue (c : Char) : Nat :=
  if c.isDigit then c.toNat - '0'.toNat
  else if 'a' ≤ c then c.toNat - 'a'.toNat + 10
  else c.toNat - 'A'.toNat + 10

/-! ## Escaped bytes -/

/-- The bytes of a text without foreign characters; a percent sign and two digits are one byte. -/
def bytes : Text → List Nat
  | [] => []
  | '%' :: a :: b :: cs =>
      if isHexDigit a && isHexDigit b then (hexValue a * 16 + hexValue b) :: bytes cs
      else '%'.toNat :: bytes (a :: b :: cs)
  | c :: cs => c.toNat :: bytes cs

/-- A text with its escaped bytes read. Escapes on both sides of a foreign character are never one
character. -/
def unescape (text : Text) : Text :=
  (text.splitBy fun a b => isAscii a == isAscii b).flatMap fun run =>
    if headIs isAscii run then Text.Utf8.read (bytes run) else run

/-! ## Hosts -/

/-- A number up to 255 without leading zeros. -/
def isOctet (part : Text) : Bool :=
  !part.isEmpty && part.length ≤ 3 && part.all Char.isDigit &&
    (part == ['0'] || !headIs (· == '0') part) &&
    part.foldl (fun n c => n * 10 + hexValue c) 0 ≤ 255

def isQuad (text : Text) : Bool :=
  let parts := Text.cutAt (· == '.') text
  parts.length == 4 && parts.all isOctet

def isGroup (part : Text) : Bool :=
  !part.isEmpty && part.length ≤ 4 && part.all isHexDigit

/-- The groups between colons. Four numbers at the end stand for two groups. -/
def groups? (text : Text) : Option (List Text) :=
  let parts := Text.cutAt (· == ':') text
  let last := parts.getLast?.getD []
  if parts.length < 3 then none
  else if '.' ∈ last then
    if isQuad last then some (parts.dropLast ++ [['0'], ['0']]) else none
  else some parts

/-- Eight groups, or fewer around one empty place. An empty group at either end belongs to an empty
place next to it. -/
def areGroups (parts : List Text) : Bool :=
  let inner := (parts.drop 1).dropLast
  match inner.count [] with
  | 0 => parts.length == 8 && parts.all isGroup
  | 1 =>
      let place := inner.idxOf [] + 1
      let side (groups : List Text) : List Text := if groups = [[]] then [] else groups
      let before := side (parts.take place)
      let after := side (parts.drop (place + 1))
      parts.length ≤ 9 && before.length + after.length ≤ 7 && (before ++ after).all isGroup
  | _ => false

/-- An address of groups, with a zone after a percent sign if there is one. -/
def isGrouped (text : Text) : Bool :=
  let address := text.takeWhile (· ≠ '%')
  let zone := text.drop (address.length + 1)
  let zoned := address.length < text.length
  !(zoned && (zone.isEmpty || zone.contains '%')) && ((groups? address).map areGroups).getD false

/-- A later form of addresses: `v`, a version in hexadecimal digits, a dot and anything. -/
def isVersioned (text : Text) : Bool :=
  match text with
  | 'v' :: rest =>
      let version := rest.takeWhile isHexDigit
      match rest.drop version.length with
      | '.' :: more => !version.isEmpty && !more.isEmpty
      | _ => false
  | _ => false

/-- What may stand between brackets. -/
def isBracketed (text : Text) : Bool :=
  if headIs (· == 'v') text then isVersioned text else isGrouped text

/-- Characters that stand for a text with a separator in it, so that no host has them. -/
def hidesSeparator (c : Char) : Bool :=
  c.toNat ∈ [0x2047, 0x2048, 0x2049, 0x2100, 0x2101, 0x2105, 0x2106, 0x2a74, 0xfe13, 0xfe16, 0xfe55,
    0xfe56, 0xfe5f, 0xfe6b, 0xff03, 0xff0f, 0xff1a, 0xff1f, 0xff20]

/-- A host without the user before its last `@`. -/
def dropUser (host : Text) : Text :=
  (host.reverse.takeWhile (· ≠ '@')).reverse

/-- The name of a host, which may stand in brackets. What follows it starts with a colon. -/
def hostName? (host : Text) : Option Text :=
  match dropUser host with
  | '[' :: rest =>
      let name := rest.takeWhile (· ≠ ']')
      match rest.drop (name.length + 1) with
      | [] => some name
      | c :: _ => if c = ':' then some name else none
  | host => if '[' ∈ host then none else some (host.takeWhile (· ≠ ':'))

/-- Brackets anywhere in a host ask for a name of one of the forms that need them. -/
def isHost (host : Text) : Bool :=
  host.contains '[' == host.contains ']' &&
    (!host.contains '[' || (hostName? host).any isBracketed) && !host.any hidesSeparator

/-! ## Reading an address -/

def isSchemeChar (c : Char) : Bool :=
  c.isAlphanum || c == '+' || c == '-' || c == '.'

/-- Control characters at the head and line ends and tabs anywhere are no part of an address. -/
def clean (text : Text) : Text :=
  (text.dropWhile fun c => c.toNat ≤ 0x20).filter fun c => !(c == '\t' || c == '\r' || c == '\n')

/-- The scheme, in small letters, and what follows its colon. -/
def splitScheme (text : Text) : Text × Text :=
  let scheme := text.takeWhile (· ≠ ':')
  if scheme.length < text.length ∧ headIs Char.isAlpha scheme ∧ scheme.all isSchemeChar then
    (scheme.map Char.toLower, text.drop (scheme.length + 1))
  else ([], text)

def splitHost (text : Text) : Text × Text :=
  match text with
  | '/' :: '/' :: rest =>
      let inHost (c : Char) : Bool := !(c == '/' || c == '?' || c == '#')
      (rest.takeWhile inHost, rest.dropWhile inHost)
  | _ => ([], text)

/-- Schemes whose last path component may carry parameters. -/
def parameterSchemes : List String :=
  ["", "ftp", "hdl", "prospero", "http", "imap", "https", "shttp", "rtsp", "rtsps", "rtspu", "sip",
    "sips", "mms", "sftp", "tel"]

/-- A path without the parameters of its last component. -/
def dropParameters (path : Text) : Text :=
  let last := (path.reverse.takeWhile (· ≠ '/')).reverse
  path.take (path.length - last.length) ++ last.takeWhile (· ≠ ';')

/-- The parts of an address, with their escapes read, unless its host is malformed. -/
def ofText? (text : Text) : Option Uri :=
  let (scheme, rest) := splitScheme (clean text)
  let (host, rest) := splitHost rest
  if isHost host then
    let path := rest.takeWhile fun c => !(c == '#' || c == '?')
    let path := if String.ofList scheme ∈ parameterSchemes then dropParameters path else path
    some ⟨scheme, unescape host, unescape path⟩
  else none

/-- The file behind an address. A host becomes the first component of a shared path, and a drive
letter stands without the slash before it and is small. -/
def file (uri : Uri) : Text :=
  if !uri.host.isEmpty ∧ !uri.path.isEmpty ∧ uri.scheme = "file".toList then
    ['/', '/'] ++ uri.host ++ uri.path
  else
    match uri.path with
    | '/' :: drive :: ':' :: rest =>
        if drive.isAlpha then drive.toLower :: ':' :: rest else uri.path
    | path => path

/-- The path of the document at an address. -/
def pathOf (text : Text) : Path :=
  match ofText? text with
  | some uri => Path.ofText uri.file
  | none => Path.ofText text

end Uri

end SourceLayout
