/-!
# Chunk names in messages

The name of a chunk says where its code came from.  After `=` stands a literal name, after `@` a
file name, and anything else is the source text itself.  Messages show a short form: a literal
name is cut at the end, a file name at the front, and of source text the first line is shown.

## Main definitions

* `ChunkName.display` : the short form of a chunk name.
-/

namespace LuaMachine.ChunkName

/-- The size that short forms are cut to. -/
def limit : Nat := 60

/-- The first line of a text: up to the first line feed, without a carriage return before that
line feed. -/
def firstLine (cs : List Char) : List Char :=
  let line := cs.takeWhile (· != '\n')
  if cs.contains '\n' && line.getLast? == some '\r' then line.dropLast else line

/-- The size of a text in bytes. -/
def byteSize (cs : List Char) : Nat := cs.foldr (fun c n => c.utf8Size + n) 0

/-- The longest suffix of at most `n` bytes. -/
def suffixWithin (n : Nat) : List Char → List Char
  | [] => []
  | c :: cs => if byteSize (c :: cs) ≤ n then c :: cs else suffixWithin n cs

/-- A file name; a long one loses its beginning. -/
def file (cs : List Char) : List Char :=
  if byteSize cs < limit then cs else "...".toList ++ suffixWithin (limit - 4) cs

/-- The number of characters of source text shown when it is cut: the limit less the fifteen
bytes that the brackets, quotes and dots take. -/
def excerptLength : Nat := limit - 15

/-- Source text: its first line in quotes, with dots if more follows or the line is long. -/
def excerpt (cs : List Char) : List Char :=
  let line := firstLine cs
  if excerptLength < byteSize line || cs.contains '\n' then
    "[string \"".toList ++ line.take excerptLength ++ "...\"]".toList
  else "[string \"".toList ++ line ++ "\"]".toList

/-- The short form of a chunk name. -/
def displayChars : List Char → List Char
  | [] => ['?']
  | '=' :: name => name.take (limit - 1)
  | '@' :: name => file name
  | text => excerpt text

/-- The short form of a chunk name. -/
def display (source : String) : String :=
  String.ofList (displayChars source.toList)

end LuaMachine.ChunkName
