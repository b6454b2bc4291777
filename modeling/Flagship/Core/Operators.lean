import Flagship.Core.Types

/-! # Operator implementations

Every operator is total: a type mismatch gives false. A script engine's regular expressions
come in as a parameter, `none` for a pattern the engine refuses; nothing here depends on
which strings a pattern matches.
-/

namespace Flagship.Core

open Lib

/-- `new RegExp(pattern)`, with the test of the compiled expression. -/
abbrev RegExp := String → Option (String → Bool)

def asString : Json → Option String
  | .str value => some value
  | _ => none

def asNumber : Json → Option Number
  | .num value => if value.isFinite then some value else none
  | _ => none

def looseEquals (a b : Json) : Bool := JsValue.strictEquals (some a) (some b)

structure SemVer where
  major : Number
  minor : Number
  patch : Number
  prerelease : String

namespace SemVer

def isIdentifierChar (c : Char) : Bool := c.isAlphanum || c == '.' || c == '-'

def takeDigits (input : List Char) : Option (Number × List Char) :=
  match input.takeWhile Char.isDigit with
  | [] => none
  | digits => some (Number.ofRat (Nat.ofDigitChars 10 digits 0), input.dropWhile Char.isDigit)

def takeSuffix (mark : Char) (input : List Char) : Option (String × List Char) :=
  match input with
  | first :: rest =>
    if first = mark ∧ rest.takeWhile isIdentifierChar ≠ [] then
      some (String.ofList (rest.takeWhile isIdentifierChar), rest.dropWhile isIdentifierChar)
    else none
  | [] => none

def expectDot : List Char → Option (List Char)
  | '.' :: rest => some rest
  | _ => none

/-- `SEMVER_PATTERN.exec`. No part of the pattern can start with a character that the part
before it also accepts, so there is one way to match and nothing to backtrack over. -/
def exec (raw : String) : Option SemVer := do
  let (major, rest) ← takeDigits raw.toList
  let (minor, rest) ← takeDigits (← expectDot rest)
  let (patch, rest) ← takeDigits (← expectDot rest)
  let (prerelease, rest) := (takeSuffix '-' rest).getD ("", rest)
  let (_, rest) := (takeSuffix '+' rest).getD ("", rest)
  if rest.isEmpty then some { major, minor, patch, prerelease } else none

end SemVer

def parseSemVer (input : Json) : Option SemVer := (asString input).bind SemVer.exec

def compareSemVer (a b : SemVer) : Number :=
  if !a.major.eq b.major then a.major.sub b.major
  else if !a.minor.eq b.minor then a.minor.sub b.minor
  else if !a.patch.eq b.patch then a.patch.sub b.patch
  else if a.prerelease = b.prerelease then .finite 0
  else if a.prerelease = "" then .finite 1
  else if b.prerelease = "" then .finite (-1)
  else if a.prerelease < b.prerelease then .finite (-1) else .finite 1

/-- The shared shape of the three comparison helpers: the attribute and each value are read
as `α`, and one value that reads and satisfies the predicate is enough. -/
def compareAs {α : Type} (read : Json → Option α) (candidate : Json) (values : List Json)
    (predicate : α → α → Bool) : Bool :=
  match read candidate with
  | none => false
  | some left =>
    values.any fun value =>
      match read value with
      | none => false
      | some right => predicate left right

def compareNumeric := compareAs asNumber

def compareSemantic (candidate : Json) (values : List Json) (predicate : Number → Bool) : Bool :=
  compareAs parseSemVer candidate values fun left right => predicate (compareSemVer left right)

def compareString := compareAs asString

def includes (haystack needle : String) : Bool := decide (needle.toList <:+: haystack.toList)

/-- An attribute the context does not carry never matches, `neq` and `notIn` included. -/
def applyOperator (regExp : RegExp) (operator : Operator) (candidate : Option AttributeValue)
    (values : List Json) : Bool :=
  match candidate with
  | none => false
  | some attributeValue =>
    let candidate := attributeValue.toJson
    match operator with
    | .eq | .isIn => values.any (looseEquals candidate)
    | .neq | .notIn => !values.any (looseEquals candidate)
    | .contains => compareString candidate values includes
    | .startsWith => compareString candidate values fun a b => decide (b.toList <+: a.toList)
    | .endsWith => compareString candidate values fun a b => decide (b.toList <:+ a.toList)
    | .matches => compareString candidate values fun a b =>
        match regExp b with
        | none => false
        | some test => test a
    | .gt => compareNumeric candidate values fun a b => b.lt a
    | .gte => compareNumeric candidate values fun a b => b.le a
    | .lt => compareNumeric candidate values Number.lt
    | .lte => compareNumeric candidate values Number.le
    | .semverGt => compareSemantic candidate values fun ordering => (Number.finite 0).lt ordering
    | .semverLt => compareSemantic candidate values fun ordering => ordering.lt (.finite 0)
    | .other _ => false

end Flagship.Core
