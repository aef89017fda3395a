import Mathlib

/-! The text of a JSON object of scalars, as a serializer writes it whose maps
are ordered by key: no blanks, keys in order, a later value for a key replaces
an earlier one, and only quotes, backslashes and control characters escaped. -/

namespace Json

inductive Scalar where
  | null
  | num (n : Nat)
  | str (s : String)
  deriving DecidableEq, Repr

abbrev Fields := List (String × Scalar)

/-- Insertion into an ordered map. -/
def insertField (k : String) (v : Scalar) : Fields → Fields
  | [] => [(k, v)]
  | (k', v') :: rest =>
    if k = k' then (k, v) :: rest
    else if k < k' then (k, v) :: (k', v') :: rest
    else (k', v') :: insertField k v rest

def sortFields (fields : Fields) : Fields :=
  fields.foldl (fun acc f => insertField f.1 f.2 acc) []

def hexDigit (n : Nat) : Char := Char.ofNat (if n < 10 then 48 + n else 87 + n)

/-- 34 is the quote and 92 the backslash. -/
def escapeChar (c : Char) : List Char :=
  let escaped (letter : Nat) : List Char := [Char.ofNat 92, Char.ofNat letter]
  match c.toNat with
  | 34 => escaped 34
  | 92 => escaped 92
  | 8 => escaped 98
  | 9 => escaped 116
  | 10 => escaped 110
  | 12 => escaped 102
  | 13 => escaped 114
  | n => if n < 32 then escaped 117 ++ [hexDigit 0, hexDigit 0, hexDigit (n / 16), hexDigit (n % 16)]
    else [c]

def quote (s : String) : List Char :=
  Char.ofNat 34 :: (s.toList.flatMap escapeChar ++ [Char.ofNat 34])

def Scalar.render : Scalar → List Char
  | .null => "null".toList
  | .num n => (toString n).toList
  | .str s => quote s

def renderFields : Fields → List Char
  | [] => []
  | [(k, v)] => quote k ++ Char.ofNat 58 :: v.render
  | (k, v) :: rest => quote k ++ Char.ofNat 58 :: v.render ++ Char.ofNat 44 :: renderFields rest

/-- The bytes of the object, in UTF-8. -/
def toVec (fields : Fields) : List UInt8 :=
  (String.ofList (Char.ofNat 123 :: (renderFields (sortFields fields) ++ [Char.ofNat 125]))).toUTF8.toList

/-! Objects with arrays of objects in them. -/

inductive Atom where
  | scalar (s : Scalar)
  | bool (b : Bool)
  deriving DecidableEq, Repr

inductive Entry where
  | atom (a : Atom)
  | objects (os : List (List (String × Atom)))
  deriving DecidableEq, Repr

section Ordered

variable {α : Type}

def insertKey (k : String) (v : α) : List (String × α) → List (String × α)
  | [] => [(k, v)]
  | (k', v') :: rest =>
    if k = k' then (k, v) :: rest
    else if k < k' then (k, v) :: (k', v') :: rest
    else (k', v') :: insertKey k v rest

def sortKeys (entries : List (String × α)) : List (String × α) :=
  entries.foldl (fun acc e => insertKey e.1 e.2 acc) []

def commaSep : List (List Char) → List Char
  | [] => []
  | [x] => x
  | x :: rest => x ++ Char.ofNat 44 :: commaSep rest

def renderObject (render : α → List Char) (entries : List (String × α)) : List Char :=
  Char.ofNat 123 :: commaSep ((sortKeys entries).map fun e =>
    quote e.1 ++ Char.ofNat 58 :: render e.2) ++ [Char.ofNat 125]

end Ordered

def Atom.render : Atom → List Char
  | .scalar s => s.render
  | .bool b => (if b then "true" else "false").toList

def Entry.render : Entry → List Char
  | .atom a => a.render
  | .objects os =>
    Char.ofNat 91 :: commaSep (os.map (renderObject Atom.render)) ++ [Char.ofNat 93]

def entriesToVec (entries : List (String × Entry)) : List UInt8 :=
  (String.ofList (renderObject Entry.render entries)).toUTF8.toList

end Json
