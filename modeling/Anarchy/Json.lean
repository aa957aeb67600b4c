import Mathlib.Data.List.Lex
import Mathlib.Data.List.Sort
import Mathlib.Data.String.Basic
import Mathlib.Tactic.Common

/-!
JSON values and their compact text: no blanks, control characters escaped in
lower case, numbers in decimal. Of the numbers only the naturals are kept. A
reader that holds objects as ordered maps gives a value back with its fields in
the order of their names.
-/

namespace Anarchy

inductive Json
  | null
  | boolean (holds : Bool)
  | number (number : Nat)
  | text (text : String)
  | array (items : List Json)
  | object (fields : List (String × Json))

namespace Json

section Text

def escapeChar (character : Char) : List Char :=
  if character = '"' then ['\\', '"']
  else if character = '\\' then ['\\', '\\']
  else if character = Char.ofNat 8 then ['\\', 'b']
  else if character = Char.ofNat 9 then ['\\', 't']
  else if character = Char.ofNat 10 then ['\\', 'n']
  else if character = Char.ofNat 12 then ['\\', 'f']
  else if character = Char.ofNat 13 then ['\\', 'r']
  else if character.toNat < 32 then
    ['\\', 'u', '0', '0', Nat.digitChar (character.toNat / 16),
      Nat.digitChar (character.toNat % 16)]
  else [character]

def quote (text : String) : List Char := '"' :: (text.toList.flatMap escapeChar ++ ['"'])

mutual

def write : Json → List Char
  | null => ['n', 'u', 'l', 'l']
  | boolean true => ['t', 'r', 'u', 'e']
  | boolean false => ['f', 'a', 'l', 's', 'e']
  | number value => Nat.toDigits 10 value
  | text value => quote value
  | array items => '[' :: (List.intercalate [','] (writeItems items) ++ [']'])
  | object fields => '\x7b' :: (List.intercalate [','] (writeFields fields) ++ ['\x7d'])

def writeItems : List Json → List (List Char)
  | [] => []
  | item :: rest => write item :: writeItems rest

def writeFields : List (String × Json) → List (List Char)
  | [] => []
  | (name, value) :: rest => (quote name ++ ':' :: write value) :: writeFields rest

end

end Text

section Maps

/-- A field read before the others of a map: of two with one name the later is kept. -/
def insertField (name : String) (value : Json) : List (String × Json) → List (String × Json)
  | [] => [(name, value)]
  | (other, held) :: rest =>
      if name < other then (name, value) :: (other, held) :: rest
      else if name = other then (other, held) :: rest
      else (other, held) :: insertField name value rest

mutual

def sorted : Json → Json
  | array items => array (sortedItems items)
  | object fields => object (sortedFields fields)
  | null => null
  | boolean holds => boolean holds
  | number value => number value
  | text value => text value

def sortedItems : List Json → List Json
  | [] => []
  | item :: rest => sorted item :: sortedItems rest

def sortedFields : List (String × Json) → List (String × Json)
  | [] => []
  | (name, value) :: rest => insertField name (sorted value) (sortedFields rest)

end

theorem sortedItems_numbers (numbers : List Nat) :
    sortedItems (numbers.map number) = numbers.map number := by
  induction numbers with
  | nil => rfl
  | cons first rest ih => rw [List.map_cons, sortedItems, sorted, ih]

/-- The UTF-16 units of a text, which is what a script compares two names by. -/
def utf16 (text : String) : List Nat :=
  text.toList.flatMap fun character =>
    if character.toNat < 2 ^ 16 then [character.toNat]
    else [0xd800 + (character.toNat - 2 ^ 16) / 2 ^ 10, 0xdc00 + (character.toNat - 2 ^ 16) % 2 ^ 10]

/-- The fields of an object in the order of `Object.keys(object).sort()`. -/
def sortKeys (fields : List (String × Json)) : List (String × Json) :=
  fields.mergeSort fun first second => decide (utf16 first.1 ≤ utf16 second.1)

/-- The order that the fields come in does not show after sorting. -/
theorem sortKeys_perm {fields ordered : List (String × Json)} (perm : fields.Perm ordered)
    (rising : ordered.Pairwise fun first second => utf16 first.1 < utf16 second.1) :
    sortKeys fields = ordered := by
  have permuted : (sortKeys fields).Perm ordered := (List.mergeSort_perm fields _).trans perm
  have sorted : (sortKeys fields).Pairwise fun first second =>
      decide (utf16 first.1 ≤ utf16 second.1) = true := by
    apply List.pairwise_mergeSort
    · intro first second third
      simp only [decide_eq_true_eq]
      exact le_trans
    · intro first second
      simpa using le_total (utf16 first.1) (utf16 second.1)
  have weak : ordered.Pairwise fun first second =>
      decide (utf16 first.1 ≤ utf16 second.1) = true :=
    rising.imp fun less => decide_eq_true less.le
  have distinct : (ordered.map fun field => utf16 field.1).Nodup :=
    List.pairwise_map.mpr (rising.imp fun less => less.ne)
  refine permuted.eq_of_pairwise ?_ sorted weak
  intro first second before after le ge
  have member := permuted.mem_iff.mp before
  have same : utf16 first.1 = utf16 second.1 :=
    le_antisymm (of_decide_eq_true le) (of_decide_eq_true ge)
  exact List.inj_on_of_nodup_map distinct member after same

/-- `Value::get`, and `get_mut`. -/
def get (name : String) : Json → Option Json
  | object fields => (fields.find? (·.1 = name)).map (·.2)
  | _ => none

/-- `Map::remove` on an object; any other value has nothing to remove. -/
def remove (name : String) : Json → Json
  | object fields => object (fields.filter (·.1 ≠ name))
  | other => other

end Maps

end Json

end Anarchy
