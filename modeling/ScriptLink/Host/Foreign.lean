import ScriptLink.Host.Value

/-! # Foreign objects

    A caller can pass objects of any class. What the link does with one of a class that it does not know depends on
    little: the names of the class, the looks of the object, whether it can be a key, and what it is equal to. Here
    are objects of some common classes, by the name of the class. -/

namespace ScriptLink.Host.Foreign

/-- The last part of a qualified name. -/
def lastName (qualified : Text) : Text :=
  (qualified.reverse.takeWhile (· ≠ 0x2E)).reverse

/-- An object of a class that says nothing more about itself. -/
def ofClass (typeName : Text) : Foreign where
  typeName := typeName
  className := lastName typeName
  lowName := lastName typeName
  display := .ofString "<" ++ typeName ++ .ofString " object>"
  words := .ofString "<" ++ typeName ++ .ofString " object>"
  hashable := true
  substance := .none
  complaint := none

/-- An object that looks like this. -/
def shown (typeName display : String) : Foreign :=
  { ofClass (.ofString typeName) with display := .ofString display, words := .ofString display }

/-- An object of a class that also has words of its own for messages. -/
def worded (typeName display words : String) : Foreign :=
  { shown typeName display with words := .ofString words }

/-- An object that cannot be a key. -/
def changeable (typeName display : String) : Foreign :=
  { shown typeName display with hashable := false }

/-- The objects whose looks are known. -/
def familiar : List Foreign :=
  [{ worded "Decimal" "Decimal('1.5')" "1.5" with lowName := .ofString "decimal.Decimal", substance := .ratio 3 2 },
   { worded "Fraction" "Fraction(1, 2)" "1/2" with substance := .ratio 1 2 },
   shown "complex" "(1+2j)",
   shown "range" "range(0, 3)",
   shown "ellipsis" "Ellipsis",
   shown "NotImplementedType" "NotImplemented",
   shown "type" "<class 'int'>",
   shown "builtin_function_or_method" "<built-in function len>",
   worded "PosixPath" "PosixPath('a')" "a",
   worded "ValueError" "ValueError('x')" "x",
   { shown "frozenset" "frozenset(\x7b1\x7d)" with substance := .set [1] },
   { changeable "set" "\x7b1\x7d" with substance := .set [1] },
   { changeable "dict_keys" "dict_keys([])" with substance := .set [] },
   { changeable "dict_items" "dict_items([])" with substance := .set [] },
   changeable "bytearray" "bytearray(b'x')",
   changeable "slice" "slice(None, 1, None)",
   { changeable "deque" "deque([1])" with lowName := .ofString "collections.deque" }]

/-- The object of the class with this name. -/
def ofName (typeName : Text) : Foreign :=
  (familiar.find? fun object => object.typeName = typeName).getD (ofClass typeName)

end ScriptLink.Host.Foreign
