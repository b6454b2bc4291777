import Flagship.Lib.Json
import Flagship.Lib.Utf16

/-! # The relational operators on values of any kind

Operands are made primitive first. Two strings compare by code units, everything else as
numbers; where one of the numbers is `NaN`, as the number of `undefined` is, no comparison holds.
-/

namespace Flagship.Lib

namespace Number

section Parse

def isSpace (c : Char) : Bool :=
  c.toNat ∈ [0x09, 0x0a, 0x0b, 0x0c, 0x0d, 0x20, 0xa0, 0x1680, 0x2028, 0x2029, 0x202f, 0x205f, 0x3000, 0xfeff] ||
    (0x2000 ≤ c.toNat && c.toNat ≤ 0x200a)

def trim (input : List Char) : List Char :=
  ((input.dropWhile isSpace).reverse.dropWhile isSpace).reverse

def digitValue (base : Nat) (c : Char) : Option Nat :=
  let value :=
    if c.isDigit then some (c.toNat - 48)
    else if 'a' ≤ c ∧ c ≤ 'f' then some (c.toNat - 87)
    else if 'A' ≤ c ∧ c ≤ 'F' then some (c.toNat - 55)
    else none
  value.filter (· < base)

def natOf (base : Nat) (digits : List Char) : Option Nat :=
  digits.foldlM (fun total c => (digitValue base c).map (total * base + ·)) 0

def naturalOf (base : Nat) : List Char → Number
  | [] => nan
  | digits => ((natOf base digits).map fun n => ofRat n).getD nan

def exponentOf : List Char → Option ℤ
  | [] => some 0
  | mark :: rest =>
    if mark = 'e' ∨ mark = 'E' then
      match rest with
      | '-' :: digits => if digits.isEmpty then none else (natOf 10 digits).map fun n => -n
      | '+' :: digits | digits => if digits.isEmpty then none else (natOf 10 digits).map fun n => n
    else none

def unsignedOf (input : List Char) : Number :=
  if String.ofList input = "Infinity" then infinity false
  else
    let whole := input.takeWhile Char.isDigit
    let rest := input.dropWhile Char.isDigit
    let (fraction, rest) :=
      match rest with
      | '.' :: rest => (rest.takeWhile Char.isDigit, rest.dropWhile Char.isDigit)
      | _ => ([], rest)
    if (whole ++ fraction).isEmpty then nan
    else
      match natOf 10 (whole ++ fraction), exponentOf rest with
      | some digits, some exponent => ofRat (digits * 10 ^ (exponent - fraction.length))
      | _, _ => nan

/-- `Number(text)` -/
def ofText (text : String) : Number :=
  match trim text.toList with
  | [] => ofNat 0
  | '0' :: 'x' :: digits | '0' :: 'X' :: digits => naturalOf 16 digits
  | '0' :: 'o' :: digits | '0' :: 'O' :: digits => naturalOf 8 digits
  | '0' :: 'b' :: digits | '0' :: 'B' :: digits => naturalOf 2 digits
  | '-' :: rest => (unsignedOf rest).neg
  | '+' :: rest => unsignedOf rest
  | rest => unsignedOf rest

end Parse

example : [ofText " 0x1F ", ofText "-2.50", ofText "1e2", ofText "", ofText "v1"] =
    [ofNat 31, finite (-5 / 2), ofNat 100, ofNat 0, nan] := by decide +kernel

end Number

namespace JsValue

/-- `ToPrimitive`. The inherited `valueOf` gives back the object, which leaves its text. -/
def toPrimitive : JsValue → Except ScriptError JsValue
  | some (.arr items) => (Json.arr items).toText.map fun text => some (.str text)
  | some (.obj fields) => (Json.obj fields).toText.map fun text => some (.str text)
  | value => .ok value

def primitiveToNumber : JsValue → Number
  | some .null => .ofNat 0
  | some (.bool value) => .ofNat (if value then 1 else 0)
  | some (.num value) => value
  | some (.str text) => .ofText text
  | none | some (.arr _) | some (.obj _) => .nan

/-- `a <= b` -/
def lessOrEqual (a b : JsValue) : Except ScriptError Bool := do
  let x ← a.toPrimitive
  let y ← b.toPrimitive
  match x, y with
  | some (.str s), some (.str t) => .ok (decide (CodeUnits.ofString s ≤ CodeUnits.ofString t))
  | _, _ => .ok (x.primitiveToNumber.le y.primitiveToNumber)

theorem lessOrEqual_num (x y : Number) : lessOrEqual (some (.num x)) (some (.num y)) = .ok (x.le y) := rfl

end JsValue

end Flagship.Lib
