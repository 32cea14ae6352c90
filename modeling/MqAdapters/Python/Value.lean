import Mathlib.Data.List.Basic

/-!
# Python values, as the adapters look at them

Configuration mappings and broker headers hold arbitrary Python objects.  The
adapters only ever look at them in four ways: `isinstance(v, list)` and
`isinstance(v, dict)`, truth value, `str(v)` and `int(v)`.  So a `Value` is
either one of the types the code tells apart or an `other` object given by
what `str`, `int` and `bool` return for it (a float, a `Decimal`, a
`datetime`, `bytes`); `int` raising is `none`.

Lists and dictionaries carry their `str` as data for the same reason.  Keys
that are not strings are never looked up and are left out of a `dict`.

`intOfStr` is `int(s)` for a string: surrounding white space, one sign, decimal
digits of any script and single underscores between digits are accepted.
-/

namespace MqAdapters.Python

/-- A Python object, see the head of the file. -/
inductive Value
  | none
  | str (s : String)
  | int (n : Int)
  | list (text : String) (items : List Value)
  | dict (text : String) (entries : List (String × Value))
  | other (text : String) (asInt : Option Int) (truthy : Bool)

/-- A mapping with string keys. -/
abbrev Dict := List (String × Value)

abbrev Bytes := List UInt8

/-- `d.get(k, default)`. -/
def Dict.getD (d : Dict) (k : String) (default : Value) : Value := (d.lookup k).getD default

def Dict.get (d : Dict) (k : String) : Value := d.getD k .none

/-! ## `int` of a string -/

/-- The white space that `int` takes off both ends of a string. -/
def isIntSpace (c : Char) : Bool :=
  c.toNat ∈ [0x9, 0xa, 0xb, 0xc, 0xd, 0x20, 0x85, 0xa0, 0x1680, 0x2000, 0x2001, 0x2002, 0x2003,
    0x2004, 0x2005, 0x2006, 0x2007, 0x2008, 0x2009, 0x200a, 0x2028, 0x2029, 0x202f, 0x205f, 0x3000]

/-- The white space of `str.strip`, which takes the four separators U+001C to U+001F
too; `int` raises for them. -/
def isSpace (c : Char) : Bool := isIntSpace c || c.toNat ∈ [0x1c, 0x1d, 0x1e, 0x1f]

/-- Without the characters of `p` on both ends. -/
def trim (p : Char → Bool) (s : List Char) : List Char :=
  ((s.dropWhile p).reverse.dropWhile p).reverse

/-- `str.strip()`. -/
def strip (s : List Char) : List Char := trim isSpace s

/-- The zeros of the decimal digits of all scripts; the other nine follow each. -/
def digitZeros : List Nat :=
  [0x30, 0x660, 0x6f0, 0x7c0, 0x966, 0x9e6, 0xa66, 0xae6, 0xb66, 0xbe6, 0xc66, 0xce6, 0xd66,
    0xde6, 0xe50, 0xed0, 0xf20, 0x1040, 0x1090, 0x17e0, 0x1810, 0x1946, 0x19d0, 0x1a80, 0x1a90,
    0x1b50, 0x1bb0, 0x1c40, 0x1c50, 0xa620, 0xa8d0, 0xa900, 0xa9d0, 0xa9f0, 0xaa50, 0xabf0,
    0xff10, 0x104a0, 0x10d30, 0x11066, 0x110f0, 0x11136, 0x111d0, 0x112f0, 0x11450, 0x114d0,
    0x11650, 0x116c0, 0x11730, 0x118e0, 0x11950, 0x11c50, 0x11d50, 0x11da0, 0x16a60, 0x16ac0,
    0x16b50, 0x1d7ce, 0x1d7d8, 0x1d7e2, 0x1d7ec, 0x1d7f6, 0x1e140, 0x1e2f0, 0x1e950, 0x1fbf0]

/-- The value of a decimal digit. -/
def decimal (c : Char) : Option Nat :=
  (digitZeros.find? fun z => z ≤ c.toNat && c.toNat < z + 10).map fun z => c.toNat - z

/-- Digits with single underscores between them. -/
def readDigits : List Char → Option (List Nat)
  | [] => none
  | [c] => (decimal c).map fun d => [d]
  | c :: '_' :: cs => (decimal c).bind fun d => (readDigits cs).map fun ds => d :: ds
  | c :: c' :: cs => (decimal c).bind fun d => (readDigits (c' :: cs)).map fun ds => d :: ds

/-- A number without sign.  CPython refuses to convert more than 4300 digits. -/
def readNat (s : List Char) : Option Nat :=
  (readDigits s).bind fun ds =>
    if ds.length ≤ 4300 then some (ds.foldl (fun n d => 10 * n + d) 0) else none

/-- `int(s)`; `none` is `ValueError`. -/
def intOfStr (s : String) : Option Int :=
  match trim isIntSpace s.toList with
  | '+' :: cs => (readNat cs).map Int.ofNat
  | '-' :: cs => (readNat cs).map fun n => -Int.ofNat n
  | cs => (readNat cs).map Int.ofNat

namespace Value

/-- `int(v)`; `none` is any exception. -/
def toInt : Value → Option Int
  | .none => Option.none
  | .str s => intOfStr s
  | .int n => some n
  | .list _ _ => Option.none
  | .dict _ _ => Option.none
  | .other _ n _ => n

/-- `str(v)`. -/
def toStr : Value → String
  | .none => "None"
  | .str s => s
  | .int n => toString n
  | .list text _ => text
  | .dict text _ => text
  | .other text _ _ => text

/-- `bool(v)`. -/
def truthy : Value → Bool
  | .none => false
  | .str s => s ≠ ""
  | .int n => n ≠ 0
  | .list _ items => !items.isEmpty
  | .dict _ entries => !entries.isEmpty
  | .other _ _ b => b

/-- `True` and `False`. -/
def ofBool (b : Bool) : Value :=
  .other (if b then "True" else "False") (some (if b then 1 else 0)) b

@[simp] theorem truthy_ofBool (b : Bool) : (ofBool b).truthy = b := rfl

/-- `v or w`. -/
def or (v w : Value) : Value := if v.truthy then v else w

/-- `v if isinstance(v, dict)`. -/
def asDict : Value → Option Dict
  | .dict _ entries => some entries
  | _ => Option.none

end Value

example : intOfStr " 1_0\n" = some 10 := by decide
example : intOfStr "-٣" = some (-3) := by decide
example : intOfStr "1__0" = none := by decide
example : intOfStr "\x1c5" = none := by decide

end MqAdapters.Python
