import Mach402.Library.Binary64
import Mach402.Library.Ecma
import Mach402.Library.JsonText

/-!
# JSON in ECMAScript

What `JSON.parse` makes of a text, and how `JSON.stringify` writes one.

* `Value.ofTree`, `jsonParse`: numbers are rounded to doubles; the last one of two members with one
  key counts;
* `lookup`, `lookup_cons`, `lookup_append`: the properties of an object that has been parsed.
-/

namespace Mach402
namespace Ecma

open JsonText (Tree Style)

/-- Nothing is escaped that need not be. -/
def jsonStyle : Style := ⟨fun _ => false, nofun⟩

mutual

/-- What a text stands for. -/
def Value.ofTree : Tree → Value
  | .null => .null
  | .bool b => .boolean b
  | .number n => .number (Binary64.round n.value)
  | .string s => .string s
  | .array ts => .array (Value.ofTrees ts)
  | .object ms => .object (Value.ofMembers ms)

/-- The values of the elements. -/
def Value.ofTrees : List Tree → List Value
  | [] => []
  | t :: ts => Value.ofTree t :: Value.ofTrees ts

/-- The values of the members. -/
def Value.ofMembers : List (String × Tree) → List (String × Value)
  | [] => []
  | (k, t) :: ms => (k, Value.ofTree t) :: Value.ofMembers ms

end

/-- `JSON.parse`. -/
def jsonParse (cs : List Char) : Option Value := (JsonText.parse cs).map Value.ofTree

theorem jsonParse_write (style : Style) (t : Tree) :
    jsonParse (JsonText.write style t) = some (.ofTree t) := by
  rw [jsonParse, JsonText.parse_write, Option.map_some]

/-! ### Properties -/

section Properties

variable {key k : String} {t : Tree} {ms ns : List (String × Tree)}

theorem ofMembers_append (ms ns : List (String × Tree)) :
    Value.ofMembers (ms ++ ns) = Value.ofMembers ms ++ Value.ofMembers ns := by
  induction ms with
  | nil => rfl
  | cons m ms ih =>
    obtain ⟨k, t⟩ := m
    rw [List.cons_append, Value.ofMembers, Value.ofMembers, ih, List.cons_append]

/-- A property of an object that has been parsed. -/
def lookup (key : String) (ms : List (String × Tree)) : Option Value :=
  (Value.ofTree (.object ms)).get key

@[simp] theorem get_ofTree_object : (Value.ofTree (.object ms)).get key = lookup key ms := rfl

@[simp] theorem lookup_nil : lookup key [] = none := rfl

/-- The later members count. -/
theorem lookup_append : lookup key (ms ++ ns) = (lookup key ns).or (lookup key ms) := by
  simp only [lookup, Value.ofTree, Value.get, ofMembers_append, List.reverse_append,
    List.find?_append]
  cases (Value.ofMembers ns).reverse.find? fun m => m.1 = key <;> rfl

@[simp] theorem lookup_singleton_self : lookup key [(key, t)] = some (.ofTree t) := by
  simp [lookup, Value.ofTree, Value.ofMembers, Value.get]

theorem lookup_singleton_of_ne (h : k ≠ key) : lookup key [(k, t)] = none := by
  simp [lookup, Value.ofTree, Value.ofMembers, Value.get, h]

theorem lookup_cons : lookup key ((k, t) :: ms) =
    (lookup key ms).or (if k = key then some (.ofTree t) else none) := by
  rw [← List.singleton_append, lookup_append]
  split_ifs with h
  · rw [h, lookup_singleton_self]
  · rw [lookup_singleton_of_ne h]

end Properties

end Ecma
end Mach402
