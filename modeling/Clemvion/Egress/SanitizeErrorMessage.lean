import Clemvion.Js.JsonText
import Clemvion.Js.Text
import Clemvion.Library.Regex

/-!
# SanitizeErrorMessage — masking secrets in what leaves the system

Free text is masked where a pattern matches; a value under the name of a credential is masked
whatever it is.  The walk over a value goes into the strings that are JSON themselves.  The depth
of the source is counted down here: what is left of `MAX_REDACT_DEPTH`.
-/

open Clemvion.Js Clemvion.Library

namespace Clemvion.Egress

/-! ## 1. Markers -/

def valueMaskMarker : String := "***"

def keyMaskMarker : String := "[REDACTED]"

def depthMaskMarker : String := "[REDACTED_DEPTH]"

def maskedMarkers : List String := [valueMaskMarker, keyMaskMarker, depthMaskMarker]

def isMaskedMarker : Value → Bool
  | .str s => s ∈ maskedMarkers
  | _ => false

def maxMaskDepth : Nat := 10

def maxRedactDepth : Nat := maxMaskDepth

/-! ## 2. Secret-shaped text -/

section Patterns

/-- `[A-Za-z0-9_-]` -/
def isTokenChar (c : Char) : Bool := c.isAlphanum || c = '_' || c = '-'

def anyOf (chars : String) (c : Char) : Bool := c ∈ chars.toList

def noneOf (chars : String) (c : Char) : Bool := !anyOf chars c

/-- `[_-]` -/
def dash : Regex := .char (anyOf "_-")

def spaces : Regex := .run isJsSpace 0

/-- `"?\s*[=:]\s*(?:"[^"]*"|[^\s&'"]+)`: what follows the name of a secret. -/
def assigned : Regex :=
  .chain [.opt (.text "\""), spaces, .char (anyOf "=:"), spaces,
    .alt (.chain [.text "\"", .run (noneOf "\"") 0, .text "\""])
      (.run (fun c => !isJsSpace c && noneOf "&'\"" c) 1)]

def bearerPattern : Regex :=
  (Regex.chain [.wordBoundary, .text "Bearer", .run isJsSpace 1,
    .run (fun c => c.isAlphanum || anyOf "._-+/=" c) 1]).ignoreCase

def namedSecretPattern : Regex :=
  (Regex.chain [.opt (.text "\""), .wordBoundary,
    .oneOf (.chain [.text "client", dash, .text "secret"])
      [.chain [.run isTokenChar 0, .text "token"], .chain [.text "api", dash, .text "key"],
        .text "password", .text "passwd", .text "pwd"],
    assigned]).ignoreCase

def secretPattern : Regex :=
  (Regex.chain [.opt (.text "\""), .wordBoundary, .text "secret", assigned]).ignoreCase

def authorizationPattern : Regex :=
  (Regex.chain [.wordBoundary, .text "Authorization:", .run (noneOf "\r\n") 0]).ignoreCase

def jwtPattern : Regex :=
  .chain [.wordBoundary, .text "eyJ", .run isTokenChar 10, .text ".", .run isTokenChar 10,
    .opt (.chain [.text ".", .run isTokenChar 1])]

def userinfoPattern : Regex :=
  .chain [.behind "://".toList, .run (fun c => !isJsSpace c && noneOf "/:@" c) 1, .text ":",
    .run (fun c => !isJsSpace c && noneOf "/@" c) 1, .ahead "@".toList]

def secretLeakPatterns : List Regex :=
  [bearerPattern, namedSecretPattern, secretPattern, authorizationPattern, jwtPattern,
    userinfoPattern]

/-- The names of credentials that the public surfaces mask. -/
def credentialKeyPattern : Regex :=
  (Regex.oneOf (.text "password") [.text "passwd", .text "pwd",
    .chain [.text "api", .opt dash, .text "key"], .text "secret",
    .chain [.run isTokenChar 0, .text "token"], .chain [.text "private", .opt dash, .text "key"],
    .chain [.text "client", .opt dash, .text "secret"], .text "authorization", .text "cookie",
    .chain [.text "x", dash, .text "api", .opt dash, .text "key"]]).ignoreCase

/-- The copy of the websocket service, without `x-api-key`. -/
def wsCredentialKeyPattern : Regex :=
  (Regex.oneOf (.text "password") [.text "passwd", .text "pwd",
    .chain [.text "api", .opt dash, .text "key"], .text "secret",
    .chain [.run isTokenChar 0, .text "token"], .chain [.text "private", .opt dash, .text "key"],
    .chain [.text "client", .opt dash, .text "secret"], .text "authorization",
    .text "cookie"]).ignoreCase

end Patterns

def headerValueErrorMaxLen : Nat := 2048

def headerValueErrorOpen : Regex :=
  .chain [.wordBoundary, .text "Headers.", .run Char.isAlpha 1, .text ": \""]

def headerValueErrorClose : String := "\" is an invalid header value"

/-- How many characters lie before the last closing phrase that starts within so many code
units. -/
def lastWithin : Nat → List Char → Option Nat
  | _, [] => none
  | units, c :: rest =>
    (if utf16Width c ≤ units then (lastWithin (units - utf16Width c) rest).map (· + 1) else none) <|>
      if headerValueErrorClose.toList.isPrefixOf (c :: rest) then some 0 else none

def redactHeaderValuesFrom : Nat → Position → List Char
  | 0, position => position.rest
  | fuel + 1, position =>
    match position.rest with
    | [] => []
    | c :: rest =>
      match headerValueErrorOpen.matchAt some position with
      | none => c :: redactHeaderValuesFrom fuel ⟨c :: position.before, rest⟩
      | some value =>
        let opened := position.rest.take (position.rest.length - value.rest.length)
        match lastWithin headerValueErrorMaxLen value.rest with
        | none => opened ++ redactHeaderValuesFrom fuel value
        | some length =>
          opened ++ valueMaskMarker.toList ++ redactHeaderValuesFrom fuel
            ⟨(value.rest.take length).reverse ++ value.before, value.rest.drop length⟩

def redactInvalidHeaderValues (raw : String) : String :=
  String.ofList (redactHeaderValuesFrom (raw.toList.length + 1) ⟨[], raw.toList⟩)

def redactSecrets (raw : String) : String :=
  if raw = "" then raw
  else redactInvalidHeaderValues
    (secretLeakPatterns.foldl (fun masked pattern => pattern.replaceAll valueMaskMarker masked) raw)

/-! ## 3. The walk over a value -/

/-- A string that may be a JSON object or array. -/
def looksLikeJson (s : String) : Bool :=
  match s.toList.dropWhile isJsSpace with
  | c :: _ => c = '{' || c = '['
  | [] => false

/-- `redactSecretsInJsonString`; `redactParsed` is the walk one level further down. -/
def redactSecretsInJsonString (redactParsed : Value → Value) (raw : String) : String :=
  if raw = "" then raw
  else if !looksLikeJson raw then redactSecrets raw
  else
    match JsonText.parse raw with
    | none => redactSecrets raw
    | some parsed =>
      let red := redactParsed parsed
      -- nothing below was copied, so nothing was masked
      if red = parsed then raw else JsonText.stringify red

def redactString (redactParsed : Value → Value) (s : String) : String :=
  if looksLikeJson s then redactSecretsInJsonString redactParsed s else redactSecrets s

/-- Whether a value under the name of a credential has something to hide. -/
def holdsValue (v : Value) : Bool := v ≠ .null && v ≠ .undefined && v ≠ .str ""

/-- A property of an object on the walk. -/
def redactProperty (preserveKeys : List String) (redact : Value → Value) (key : String)
    (v : Value) : Value :=
  if key ∈ preserveKeys then v
  else if holdsValue v && credentialKeyPattern.matchesWhole key then
    if isMaskedMarker v then v else .str valueMaskMarker
  else redact v

/-- From `MAX_REDACT_DEPTH` on a container is masked as a whole. -/
def maskContainer (v : Value) : Value :=
  if v.isObject then .str valueMaskMarker else v

/-- `deepRedactCore` with so many levels left; what is parsed from a text preserves no key. -/
def deepRedactCore : Nat → List String → Value → Value
  | 0, _, .str s => .str (redactString maskContainer s)
  | _ + 1, _, .undefined => .undefined
  | _ + 1, _, .null => .null
  | _ + 1, _, .bool b => .bool b
  | _ + 1, _, .num n => .num n
  | levels + 1, _, .str s => .str (redactString (deepRedactCore levels []) s)
  | levels + 1, preserveKeys, .arr items => .arr (items.map (deepRedactCore levels preserveKeys))
  | levels + 1, preserveKeys, .obj fields =>
    .obj (fields.map fun field => (field.1,
      redactProperty preserveKeys (deepRedactCore levels preserveKeys) field.1 field.2))
  | 0, _, v => maskContainer v

def deepRedactSecrets (v : Value) (depth : Nat) : Value :=
  deepRedactCore (maxRedactDepth - depth) [] v

def deepRedactSecretsPreserving (v : Value) (preserveKeys : List String) : Value :=
  deepRedactCore maxRedactDepth preserveKeys v

end Clemvion.Egress
