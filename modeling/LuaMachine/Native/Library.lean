import LuaMachine.Native.Expression

/-!
# A small library of native functions

The functions that programs most often expect, as expressions.

## Main definitions

* `Library.functions` : the functions with their names, in the order of registration.
-/

namespace LuaMachine.Library

open Expression (constant apply argument arguments argumentCount check conditional truth)

/-- A text. -/
def text (s : String) : Expression := constant (.ofText s)

/-- An integer. -/
def int (i : Int64) : Expression := constant (.integer i)

/-- The functions. -/
def functions : List (String × List Expression) := [
  ("print", [apply .note [arguments]]),
  ("error", [apply .raise [argument 1]]),
  ("errorf", [.complain "boom"]),
  ("pcall", [apply .protectedCall [check .any 1, apply .rest [int 2]]]),
  ("assert",
    [conditional (truth 1) arguments
      (apply .raise
        [conditional (apply .less [int 1, argumentCount]) (argument 2)
          (text "assertion failed!")])]),
  ("type", [apply .kind [check .any 1]]),
  ("tostring", [apply .render [check .any 1]]),
  ("tonumber", [apply .toNumber [check .any 1]]),
  ("select",
    [conditional (apply .equal [argument 1, text "#"])
      (apply (.arithmetic .sub) [argumentCount, int 1])
      (conditional (apply .less [check .integer 1, int 1])
        (.argumentError 1 "index out of range")
        (apply .rest [apply (.arithmetic .add) [check .integer 1, int 1]]))]),
  ("next", [apply .next [check .table 1, argument 2]]),
  ("pairs", [apply .values [.global "next", check .table 1, constant .nil]]),
  ("ipairs_iter",
    [apply (.remember "%i") [apply (.arithmetic .add) [check .integer 2, int 1]],
      apply (.remember "%v") [apply .index [argument 1, .remembered "%i"]],
      conditional (apply .equal [.remembered "%v", constant .nil]) (constant .nil)
        (apply .values [.remembered "%i", .remembered "%v"])]),
  ("ipairs", [apply .values [.global "ipairs_iter", check .any 1, int 0]]),
  ("unpack", [apply .unpack [check .table 1]]),
  ("rawget", [apply .rawGet [check .table 1, argument 2]]),
  ("rawset", [apply .rawSet [check .table 1, argument 2, argument 3]]),
  ("rawequal", [apply .equal [argument 1, argument 2]]),
  ("rawlen", [apply .rawLength [check .table 1]]),
  ("getmetatable", [apply .metatable [check .any 1]]),
  ("setmetatable", [apply .setMetatable [check .table 1, .optional .table 2 .nil]]),
  ("traceback", [.traceback (some "tb") 1]),
  ("where", [.noteCaller 1, .position 1])]

end LuaMachine.Library
