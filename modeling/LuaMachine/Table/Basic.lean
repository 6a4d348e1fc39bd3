import LuaMachine.Table.OrderedMap
import LuaMachine.Value.Key

/-!
# Tables

A table has two parts.  The array part holds the values of the keys `1, 2, …, n` without the keys;
all other keys are entries of the hash part, in the order in which they were first written.  An
entry that is set to nil stays as a cleared entry, so that a traversal can go on from its key;
cleared entries are dropped when a new key arrives and they are more than half of all.

When the array part grows, it takes the following integer keys over from the hash part, so that
the hash part never holds a key from `1` to `n + 1`.

## Main definitions

* `Table` : the two parts, and the metatable.
* `Table.get`, `Table.set` : reading and writing by value; `Table.getInteger`, `Table.setInteger`,
  `Table.getString`, `Table.setString` for integers and byte strings.
* `Table.border` : the length of a table as a sequence.
* `Table.next?` : the entry after a key.
* `Table.compact` : drops the cleared entries.
-/

namespace LuaMachine

/-- A table. -/
structure Table where
  /-- The values of the keys from 1 on. -/
  array : Array Value := #[]
  /-- The entries for all other keys. -/
  entries : OrderedMap Key Value := .empty
  /-- The number of entries that hold nil. -/
  cleared : Nat := 0
  /-- The metatable. -/
  metatable : Option TableId := none
  deriving Inhabited

namespace Table

/-- The table without entries. -/
def empty : Table := {}

/-! ### Reading -/

/-- The place in the array part that belongs to an integer key. -/
def arrayIndex? (t : Table) (i : Int64) : Option Nat :=
  let n := i.toInt
  if 1 ≤ n ∧ n ≤ t.array.size then some (n - 1).toNat else none

/-- The value of a key in the hash part. -/
def getEntry (t : Table) (k : Key) : Value := (t.entries.get? k).getD .nil

/-- The value of an integer key. -/
def getInteger (t : Table) (i : Int64) : Value :=
  match t.arrayIndex? i with
  | some j => t.array[j]?.getD .nil
  | none => t.getEntry (.integer i)

/-- The value of a key. -/
def getKey (t : Table) : Key → Value
  | .integer i => t.getInteger i
  | k => t.getEntry k

/-- The value of a byte string. -/
def getString (t : Table) (s : ByteArray) : Value := t.getEntry (.string s)

/-- The value at a value; nil and NaN are no keys, and nothing is found there. -/
def get (t : Table) : Value → Value
  | .integer i => t.getInteger i
  | .string s => t.getString s
  | v =>
    match Key.ofValue v with
    | .ok k => t.getKey k
    | .error _ => .nil

/-- The value of a text. -/
def getText (t : Table) (s : String) : Value := t.getString s.toUTF8

/-! ### Writing -/

/-- Drops the cleared entries. -/
def compact (t : Table) : Table :=
  { t with entries := t.entries.filter fun (_, v) => !v.isNil, cleared := 0 }

/-- So many entries are cleared that they are dropped before a new key is written. -/
def isSparse (t : Table) : Bool := 8 < t.cleared && t.entries.size < t.cleared * 2

/-- Writes an entry of the hash part.  Only a key that is present can be cleared. -/
def setEntry (t : Table) (k : Key) (v : Value) : Table :=
  match t.entries.get? k with
  | some old =>
    let cleared := match old.isNil, v.isNil with
      | true, false => t.cleared - 1
      | false, true => t.cleared + 1
      | _, _ => t.cleared
    { t with entries := t.entries.set k v, cleared }
  | none =>
    if v.isNil then t
    else
      let t := if t.isSparse then t.compact else t
      { t with entries := t.entries.set k v }

/-- The integer key after the last one of the array part, if it has 64 bits. -/
def nextIndex? (t : Table) : Option Int64 :=
  if t.array.size < 0x7FFFFFFFFFFFFFFF then some (Int64.ofNat (t.array.size + 1)) else none

/-- Moves the entries that continue the array part into it.  A cleared entry ends the movement and
is dropped. -/
def absorb (t : Table) : Table :=
  match t.nextIndex? with
  | none => t
  | some i =>
    match _h : t.entries.get? (.integer i) with
    | none => t
    | some v =>
      if v.isNil then
        { t with entries := t.entries.erase (.integer i), cleared := t.cleared - 1 }
      else absorb { t with array := t.array.push v, entries := t.entries.erase (.integer i) }
termination_by t.entries.size
decreasing_by exact OrderedMap.size_erase_lt _h

/-- Clears the entry of a key, if there is one, because the array part takes the key over. -/
def clearEntry (t : Table) (k : Key) : Table :=
  match t.entries.get? k with
  | some _ => { t with entries := t.entries.set k .nil, cleared := t.cleared + 1 }
  | none => t

/-- Adds a value to the array part, as that of key `i`, and the entries that continue it. -/
def append (t : Table) (i : Int64) (v : Value) : Table :=
  let t := t.clearEntry (.integer i)
  absorb { t with array := t.array.push v }

/-- Writes the value of an integer key. -/
def setInteger (t : Table) (i : Int64) (v : Value) : Table :=
  match t.arrayIndex? i with
  | some j => { t with array := t.array.setIfInBounds j v }
  | none =>
    if t.nextIndex? == some i && !v.isNil then t.append i v
    else t.setEntry (.integer i) v

/-- Writes the value of a key. -/
def setKey (t : Table) (k : Key) (v : Value) : Table :=
  match k with
  | .integer i => t.setInteger i v
  | k => t.setEntry k v

/-- Writes the value at a value, unless that is no key. -/
def set (t : Table) (k v : Value) : Except Key.Fault Table :=
  (Key.ofValue k).map (t.setKey · v)

/-- Writes the value of a byte string. -/
def setString (t : Table) (s : ByteArray) (v : Value) : Table := t.setEntry (.string s) v

/-- Writes the value of a text. -/
def setText (t : Table) (s : String) (v : Value) : Table := t.setString s.toUTF8 v

/-! ### Length and traversal -/

/-- A place between `lo` and `hi` where the array part changes from values to nil: the middle
decides in which half it lies. -/
def searchBorder (array : Array Value) (lo hi : Nat) : Nat :=
  if lo < hi then
    let mid := (lo + hi) / 2
    if (array[mid]?.getD .nil).isNil then searchBorder array lo mid
    else searchBorder array (mid + 1) hi
  else lo
termination_by hi - lo

/-- The last of the numbers from `n` on up to which all following integer keys have values. -/
def extendBorder (t : Table) (n : Nat) : Nat :=
  if n < 0x7FFFFFFFFFFFFFFF ∧ !(t.getInteger (Int64.ofNat (n + 1))).isNil then
    extendBorder t (n + 1)
  else n
termination_by 0x7FFFFFFFFFFFFFFF - n

/-- The length of a table as a sequence: a number `n` such that the value at `n` is not nil, or `n`
is zero, and the value at `n + 1` is nil. -/
def border (t : Table) : Nat :=
  match t.array.back? with
  | some .nil => searchBorder t.array 0 t.array.size
  | _ => t.extendBorder t.array.size

/-- The first entry in the hash part, from slot `i` on, that is not cleared. -/
def nextEntry? (t : Table) (i : Nat) : Option (Key × Value) :=
  t.entries.firstFrom? (fun (_, v) => !v.isNil) i

/-- The first entry, from place `j` of the array part on, that is not nil. -/
def nextFrom? (t : Table) (j : Nat) : Option (Key × Value) :=
  if h : j < t.array.size then
    if t.array[j].isNil then nextFrom? t (j + 1)
    else some (.integer (Int64.ofNat (j + 1)), t.array[j])
  else t.nextEntry? 0
termination_by t.array.size - j

/-- The entry after a key, `some none` after the last one; nil stands before the first.  A value
that is not among the table's keys has no successor. -/
def next? (t : Table) (after : Value) : Option (Option (Key × Value)) :=
  match after, Key.ofValue after with
  | .nil, _ => some (t.nextFrom? 0)
  | _, .error _ => none
  | _, .ok k =>
    let place := match k with
      | .integer i => t.arrayIndex? i
      | _ => none
    match place with
    | some j => some (t.nextFrom? (j + 1))
    | none => (t.entries.position? k).map fun i => t.nextEntry? (i + 1)

/-- The entries that are not nil, in the order of traversal. -/
def toList (t : Table) : List (Key × Value) :=
  let array : List (Key × Value) :=
    t.array.toList.zipIdx.map fun (v, j) => (.integer (Int64.ofNat (j + 1)), v)
  (array ++ t.entries.toList).filter fun (_, v) => !v.isNil

/-- The number of entries in the hash part that are not cleared. -/
def liveEntries (t : Table) : Nat := t.entries.size - t.cleared

/-- The number of keys whose value is not nil. -/
def liveCount (t : Table) : Nat := t.array.countP (fun v => !v.isNil) + t.liveEntries

/-- The sizes of the two parts. -/
def shape (t : Table) : String := s!"table(array={t.array.size}, hash={t.liveEntries})"

end Table

end LuaMachine
