import Mathlib.Data.List.Basic

/-!
# Regex — backtracking regular expressions

The fragment of a backtracking matcher that scanners for text need: classes, greedy runs of one
class, alternatives tried from the left, word boundaries and literal text looked for on either
side.  A position is the text before it, last character first, and the text after it.
-/

namespace Clemvion.Library

structure Position where
  before : List Char
  rest : List Char

inductive Regex
  | empty
  | char (accept : Char → Bool)
  /-- At least `least` characters of the class, as many as possible. -/
  | run (accept : Char → Bool) (least : Nat)
  | seq (first second : Regex)
  | alt (left right : Regex)
  | wordBoundary
  | behind (text : List Char)
  | ahead (text : List Char)

namespace Regex

variable {α : Type*}

def text (s : String) : Regex := s.toList.foldr (fun c r => .seq (.char fun d => d = c) r) .empty

def opt (r : Regex) : Regex := .alt r .empty

/-- The regexes one after the other. -/
def chain (rs : List Regex) : Regex := rs.foldr .seq .empty

/-- The first of the regexes that matches. -/
def oneOf (r : Regex) (rs : List Regex) : Regex :=
  match rs with
  | [] => r
  | r' :: rs => .alt r (oneOf r' rs)

/-- Letters match in either case. -/
def ignoreCase : Regex → Regex
  | .char accept => .char fun c => accept c.toLower || accept c.toUpper
  | .run accept least => .run (fun c => accept c.toLower || accept c.toUpper) least
  | .seq first second => .seq first.ignoreCase second.ignoreCase
  | .alt left right => .alt left.ignoreCase right.ignoreCase
  | r => r

def isWordChar (c : Char) : Bool := c.isAlphanum || c = '_'

def atWordBoundary (at_ : Position) : Bool :=
  (at_.before.head?.any isWordChar) != (at_.rest.head?.any isWordChar)

/-- A greedy run: longer ones are tried first. -/
def matchRun (accept : Char → Bool) (next : Position → Option α) :
    Nat → List Char → List Char → Option α
  | least, before, [] => if least = 0 then next ⟨before, []⟩ else none
  | least, before, c :: rest =>
    (if accept c then matchRun accept next (least - 1) (c :: before) rest else none) <|>
      if least = 0 then next ⟨before, c :: rest⟩ else none

/-- Match from a position and go on with `next` where the match ends. -/
def matchAt : Regex → (Position → Option α) → Position → Option α
  | .empty, next, at_ => next at_
  | .char accept, next, at_ =>
    match at_.rest with
    | c :: rest => if accept c then next ⟨c :: at_.before, rest⟩ else none
    | [] => none
  | .run accept least, next, at_ => matchRun accept next least at_.before at_.rest
  | .seq first second, next, at_ => first.matchAt (second.matchAt next) at_
  | .alt left right, next, at_ => left.matchAt next at_ <|> right.matchAt next at_
  | .wordBoundary, next, at_ => if atWordBoundary at_ then next at_ else none
  | .behind text, next, at_ => if text.reverse.isPrefixOf at_.before then next at_ else none
  | .ahead text, next, at_ => if text.isPrefixOf at_.rest then next at_ else none

/-- `/^r$/.test(s)`. -/
def matchesWhole (r : Regex) (s : String) : Bool :=
  (r.matchAt (fun at_ => if at_.rest.isEmpty then some () else none) ⟨[], s.toList⟩).isSome

/-- One pass over the text; a match is replaced and the scan goes on behind it. -/
def replaceFrom (r : Regex) (replacement : List Char) : Nat → Position → List Char
  | 0, at_ => at_.rest
  | fuel + 1, at_ =>
    match at_.rest with
    | [] => []
    | c :: rest =>
      match r.matchAt some at_ with
      | some after =>
        if after.rest.length < at_.rest.length then
          replacement ++ replaceFrom r replacement fuel after
        else replacement ++ c :: replaceFrom r replacement fuel ⟨c :: at_.before, rest⟩
      | none => c :: replaceFrom r replacement fuel ⟨c :: at_.before, rest⟩

/-- `s.replace(/r/g, replacement)`. -/
def replaceAll (r : Regex) (replacement : String) (s : String) : String :=
  String.ofList (r.replaceFrom replacement.toList s.toList.length ⟨[], s.toList⟩)

end Regex

end Clemvion.Library
