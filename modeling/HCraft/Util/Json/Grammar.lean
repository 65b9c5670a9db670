import HCraft.Util.Json.Impl
import Mathlib.Algebra.Field.Rat

/-!
This module contains JSON by its standard grammar: the texts, production by production, and what they
denote. Strings denote UTF-8 and numbers rational numbers.
-/

namespace HCraft

namespace JsonGrammar

inductive WsChar where
  | space
  | tab
  | lineFeed
  | carriageReturn
  deriving DecidableEq, Repr

def WsChar.byte : WsChar → UInt8
  | .space => 32
  | .tab => 9
  | .lineFeed => 10
  | .carriageReturn => 13

abbrev Ws := List WsChar

def Ws.text (w : Ws) : Bytes :=
  w.map WsChar.byte

inductive Escape where
  | quote
  | backslash
  | slash
  | b
  | f
  | n
  | r
  | t
  deriving DecidableEq, Repr

/--
What follows the backslash.
-/
def Escape.letter : Escape → UInt8
  | .quote => 34
  | .backslash => 92
  | .slash => 47
  | .b => 98
  | .f => 102
  | .n => 110
  | .r => 114
  | .t => 116

def Escape.byte : Escape → UInt8
  | .quote => 34
  | .backslash => 92
  | .slash => 47
  | .b => 8
  | .f => 12
  | .n => 10
  | .r => 13
  | .t => 9

structure HexDigit where
  val : Fin 16
  upper : Bool
  deriving DecidableEq, Repr

def HexDigit.byte (d : HexDigit) : UInt8 :=
  if d.val.val < 10 then
    .ofNat (48 + d.val)
  else if d.upper then
    .ofNat (55 + d.val)
  else
    .ofNat (87 + d.val)

/--
The four digits of `\uXXXX`.
-/
structure CodeUnit where
  d₁ : HexDigit
  d₂ : HexDigit
  d₃ : HexDigit
  d₄ : HexDigit
  deriving DecidableEq, Repr

namespace CodeUnit

def text (u : CodeUnit) : Bytes :=
  [u.d₁.byte, u.d₂.byte, u.d₃.byte, u.d₄.byte]

def val (u : CodeUnit) : Nat :=
  ((u.d₁.val * 16 + u.d₂.val) * 16 + u.d₃.val) * 16 + u.d₄.val

def IsHigh (u : CodeUnit) : Prop :=
  0xD800 ≤ u.val ∧ u.val < 0xDC00

def IsLow (u : CodeUnit) : Prop :=
  0xDC00 ≤ u.val ∧ u.val < 0xE000

instance (u : CodeUnit) : Decidable u.IsHigh :=
  inferInstanceAs (Decidable (_ ∧ _))

instance (u : CodeUnit) : Decidable u.IsLow :=
  inferInstanceAs (Decidable (_ ∧ _))

/--
A surrogate on its own is no character, and denotes U+FFFD.
-/
def char (u : CodeUnit) : Char :=
  if u.val.isValidChar then .ofNat u.val else .ofNat 0xFFFD

/--
The character of a surrogate pair.
-/
def pair (high low : CodeUnit) : Char :=
  .ofNat (0x10000 + (high.val - 0xD800) * 0x400 + (low.val - 0xDC00))

end CodeUnit

inductive StrItem where
  | unescaped (c : Char) (h : 0x20 ≤ c.val ∧ c.val ≠ 34 ∧ c.val ≠ 92)
  | escaped (e : Escape)
  | unicode (u : CodeUnit)

def StrItem.text : StrItem → Bytes
  | .unescaped c _ => String.utf8EncodeChar c
  | .escaped e => [92, e.letter]
  | .unicode u => 92 :: 117 :: u.text

abbrev Str := List StrItem

namespace Str

def text (s : Str) : Bytes :=
  34 :: s.flatMap StrItem.text ++ [34]

/--
The string that the text denotes.
-/
def bytes : Str → Bytes
  | [] => []
  | .unescaped c _ :: s => String.utf8EncodeChar c ++ bytes s
  | .escaped e :: s => e.byte :: bytes s
  | .unicode u :: .unicode u' :: s =>
    if u.IsHigh ∧ u'.IsLow then
      String.utf8EncodeChar (CodeUnit.pair u u') ++ bytes s
    else
      String.utf8EncodeChar u.char ++ bytes (.unicode u' :: s)
  | .unicode u :: s => String.utf8EncodeChar u.char ++ bytes s

end Str

structure Digits where
  val : List (Fin 10)
  ne_nil : val ≠ []

namespace Digits

def text (ds : Digits) : Bytes :=
  ds.val.map (fun (d : Fin 10) => UInt8.ofNat (48 + d.val))

def toNat (ds : Digits) : Nat :=
  ds.val.foldl (fun n (d : Fin 10) => 10 * n + d.val) 0

end Digits

structure Exponent where
  upper : Bool
  /-- whether it is negative, if it has a sign -/
  sign : Option Bool
  digits : Digits

namespace Exponent

def text (e : Exponent) : Bytes :=
  let sign : Bytes :=
    match e.sign with
    | none => []
    | some false => [43]
    | some true => [45]
  (if e.upper then 69 else 101) :: sign ++ e.digits.text

def val (e : Exponent) : Int :=
  if e.sign = some true then -e.digits.toNat else e.digits.toNat

end Exponent

structure Num where
  minus : Bool
  int : Digits
  noLeadingZero : int.val.head? = some 0 → int.val.length = 1
  frac : Option Digits
  exp : Option Exponent

namespace Num

def fracText (n : Num) : Bytes :=
  match n.frac with
  | none => []
  | some ds => 46 :: ds.text

def expText (n : Num) : Bytes :=
  match n.exp with
  | none => []
  | some e => e.text

def text (n : Num) : Bytes :=
  (if n.minus then [45] else []) ++ n.int.text ++ n.fracText ++ n.expText

def fracVal (n : Num) : ℚ :=
  match n.frac with
  | none => 0
  | some ds => ds.toNat / 10 ^ ds.val.length

def value (n : Num) : ℚ :=
  let exponent : Int :=
    match n.exp with
    | none => 0
    | some e => e.val
  (if n.minus then -1 else 1) * (n.int.toNat + n.fracVal) * 10 ^ exponent

end Num

mutual

inductive Value where
  | null
  | bool (val : Bool)
  | number (n : Num)
  | string (s : Str)
  | emptyArray (w : Ws)
  | array (elems : Elems)
  | object (obj : Obj)

inductive Elems where
  | last (w : Ws) (val : Value) (w' : Ws)
  | cons (w : Ws) (val : Value) (w' : Ws) (rest : Elems)

inductive Obj where
  | empty (w : Ws)
  | members (ms : Members)

inductive Members where
  | last (w : Ws) (key : Str) (w₁ w₂ : Ws) (val : Value) (w' : Ws)
  | cons (w : Ws) (key : Str) (w₁ w₂ : Ws) (val : Value) (w' : Ws) (rest : Members)

end

mutual

def Value.text : Value → Bytes
  | .null => [110, 117, 108, 108]
  | .bool val => if val then [116, 114, 117, 101] else [102, 97, 108, 115, 101]
  | .number n => n.text
  | .string s => s.text
  | .emptyArray w => 91 :: w.text ++ [93] -- []
  | .array elems => 91 :: elems.text ++ [93]
  | .object obj => obj.text

def Elems.text : Elems → Bytes
  | .last w val w' => w.text ++ val.text ++ w'.text
  | .cons w val w' rest => w.text ++ val.text ++ w'.text ++ 44 :: rest.text

def Obj.text : Obj → Bytes
  | .empty w => 123 :: w.text ++ [125] -- {}
  | .members ms => 123 :: ms.text ++ [125]

def Members.text : Members → Bytes
  | .last w key w₁ w₂ val w' =>
    w.text ++ key.text ++ w₁.text ++ 58 :: (w₂.text ++ val.text ++ w'.text)
  | .cons w key w₁ w₂ val w' rest =>
    w.text ++ key.text ++ w₁.text ++ 58 :: (w₂.text ++ val.text ++ w'.text ++ 44 :: rest.text)

end

section Tree

variable {ν : Type} (round : ℚ → ν)

mutual

/--
The tree that the text denotes, with its numbers rounded.
-/
def Value.tree : Value → JValue ν
  | .null => .null
  | .bool val => .bool val
  | .number n => .number (round n.value)
  | .string s => .string s.bytes
  | .emptyArray _ => .array []
  | .array elems => .array elems.trees
  | .object obj => .object obj.tree

def Elems.trees : Elems → List (JValue ν)
  | .last _ val _ => [val.tree]
  | .cons _ val _ rest => val.tree :: rest.trees

def Obj.tree : Obj → List (Bytes × JValue ν)
  | .empty _ => []
  | .members ms => ms.trees

def Members.trees : Members → List (Bytes × JValue ν)
  | .last _ key _ _ val _ => [(key.bytes, val.tree)]
  | .cons _ key _ _ val _ rest => (key.bytes, val.tree) :: rest.trees

end

end Tree

def Members.keys : Members → List Bytes
  | .last _ key _ _ _ _ => [key.bytes]
  | .cons _ key _ _ _ _ rest => key.bytes :: rest.keys

mutual

/--
The keys of each object are distinct.
-/
def Value.Distinct : Value → Prop
  | .array elems => elems.Distinct
  | .object obj => obj.Distinct
  | _ => True

def Elems.Distinct : Elems → Prop
  | .last _ val _ => val.Distinct
  | .cons _ val _ rest => val.Distinct ∧ rest.Distinct

def Obj.Distinct : Obj → Prop
  | .empty _ => True
  | .members ms => ms.keys.Nodup ∧ ms.Distinct

def Members.Distinct : Members → Prop
  | .last _ _ _ _ val _ => val.Distinct
  | .cons _ _ _ _ val _ rest => val.Distinct ∧ rest.Distinct

end

end JsonGrammar

end HCraft
