import ExprShell.Number.Integer
import ExprShell.Number.Numeral
import ExprShell.Text.Base64
import ExprShell.Text.Utf8
import ExprShell.Yaml.Scalar
import ExprShell.Yaml.Timestamp

/-!
# What scalars mean

A plain scalar means nothing, a truth value, a number or a moment if it is written like one, and
stands for its text otherwise; a quoted or block scalar always stands for its text.  A tag of the
standard may ask for a meaning, and then the scalar must have it; under any other tag a scalar
stands for its text.

* `Meaning.ofPlain`   the meaning of a plain scalar;
* `Meaning.under?`    the meaning of a scalar with its tag.
-/

namespace ExprShell.Yaml

inductive Meaning
  | null
  | bool (b : Bool)
  | int (z : Int)
  | double (x : Float)
  | timestamp
  | text (cs : List Char)

namespace Meaning

def tag : Meaning → String
  | .null => "!!null"
  | .bool _ => "!!bool"
  | .int _ => "!!int"
  | .double _ => "!!float"
  | .timestamp => "!!timestamp"
  | .text _ => "!!str"

def word? (s : String) : Option Meaning :=
  if ["", "~", "null", "Null", "NULL"].contains s then some .null
  else if ["true", "True", "TRUE"].contains s then some (.bool true)
  else if ["false", "False", "FALSE"].contains s then some (.bool false)
  else if [".nan", ".NaN", ".NAN"].contains s then some (.double Binary.notANumber)
  else if [".inf", ".Inf", ".INF", "+.inf", "+.Inf", "+.INF"].contains s then
    some (.double (Binary.infinity false))
  else if ["-.inf", "-.Inf", "-.INF"].contains s then some (.double (Binary.infinity true))
  else none

/-! ## Numbers -/

/-- the number that digits stand for in a base of at most sixteen -/
def digitsIn? (base : Nat) (ds : List Char) : Option Nat :=
  ds.foldlM (fun a c => do
    let d ← Numeral.hexValue? c
    if d < base then some (a * base + d) else none) 0

/-- a number without a sign: binary behind `0b`, hexadecimal behind `0x`, octal behind `0o` or a
zero, and decimal otherwise -/
def natural? : List Char → Option Nat
  | [] => none
  | '0' :: m :: d :: ds =>
    let c := Numeral.lowerAscii m
    if c = 'b' then digitsIn? 2 (d :: ds)
    else if c = 'o' then digitsIn? 8 (d :: ds)
    else if c = 'x' then digitsIn? 16 (d :: ds)
    else digitsIn? 8 (m :: d :: ds)
  | '0' :: ds => digitsIn? 8 ds
  | ds => digitsIn? 10 ds

def signed? (read : List Char → Option Nat) : List Char → Option Int
  | '+' :: ds => (read ds).map fun n => (n : Int)
  | '-' :: ds => (read ds).map fun n => -(n : Int)
  | ds => (read ds).map fun n => (n : Int)

/-- the number, if a 64-bit integer holds it -/
def held? (z : Int) : Option Int := if Integer.least ≤ z ∧ z < Integer.bound then some z else none

/-- a whole number: one that fits 64 bits with a sign, or without one; a sign may also stand behind
`0b` or `0o` -/
def integer? (cs : List Char) : Option Int :=
  let inner (base : Nat) (ds : List Char) : Option Int :=
    (signed? (fun ds => if ds = [] then none else digitsIn? base ds) ds).bind held?
  ((signed? natural? cs).bind held?).or <|
    ((natural? cs).bind fun n => if n < 0x10000000000000000 then some (n : Int) else none).or <|
      match cs with
      | '0' :: 'b' :: ds => inner 2 ds
      | '0' :: 'o' :: ds => inner 8 ds
      | _ => none

def isFractionChar (c : Char) : Bool :=
  Text.isDigit c || c = '.' || c = 'e' || c = 'E' || c = '+' || c = '-'

/-- a decimal fraction that a double can be near to -/
def fraction? (cs : List Char) : Option Float :=
  if cs.all isFractionChar then Numeral.read? (String.ofList cs) else none

/-- what begins like a number: a moment, a whole number, or a fraction; underscores in numbers do
not count -/
def number? (cs : List Char) : Option Meaning :=
  let bare := cs.filter (· ≠ '_')
  if Timestamp.isTimestamp cs then some .timestamp
  else ((integer? bare).map Meaning.int).or ((fraction? bare).map Meaning.double)

def ofPlain (cs : List Char) : Meaning :=
  match word? (String.ofList cs), cs with
  | some m, _ => m
  | none, c :: _ =>
    if c = '.' then ((Numeral.read? (String.ofList cs)).map Meaning.double).getD (.text cs)
    else if c = '+' ∨ c = '-' ∨ Text.isDigit c then (number? cs).getD (.text cs)
    else .text cs
  | none, [] => .null

/-! ## Tags -/

/-- the meaning as a double, which whole numbers of 64 bits have too -/
def asDouble? : Meaning → Option Meaning
  | .double x => some (.double x)
  | .int z => do
    let z ← held? z
    return .double (← Binary.nearest? (decide (z < 0)) z.natAbs 1)
  | _ => none

def mergeTag : String := "!!merge"

def mergeKey : List Char := ['<', '<']

/-- the meaning of a scalar without a tag, and the tag that it would have -/
def untagged (style : Style) (cs : List Char) : String × Meaning :=
  if style ≠ .plain then ((Meaning.text cs).tag, .text cs)
  else if cs = mergeKey then (mergeTag, .text cs)
  else ((ofPlain cs).tag, ofPlain cs)

/-- the meaning of a scalar under its tag, and the tag; none if the tag asks for another one -/
def under? (tag : String) (style : Style) (cs : List Char) : Option (String × Meaning) :=
  if tag = "" then some (untagged style cs)
  else if tag = "!!binary" then do
    let bs ← Text.Base64.decode? cs
    return (tag, .text (Text.decodeUtf8 bs))
  else if ["!!null", "!!bool", "!!int", "!!float", "!!timestamp"].contains tag then
    let m := ofPlain cs
    if m.tag = tag then some (tag, m)
    else if tag = (Meaning.double 0).tag then (asDouble? m).map fun d => (tag, d)
    else none
  else some (tag, .text cs)

end Meaning

end ExprShell.Yaml
