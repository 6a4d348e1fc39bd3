import LuaMachine.Value.Basic

/-!
# Numeric loops

A numeric loop keeps three values: the index, the limit and the step.  If index and step are
integers and the limit can be rounded to one, the loop runs on integers, otherwise on floats.
Preparing the loop moves the index back by one step, so that every turn begins by advancing it.

## Main definitions

* `NumericLoop` : the three values.
* `NumericLoop.limit?` : the integer limit that bounds an integer loop like a given value.
* `NumericLoop.prepare` : the values before the first turn.
* `NumericLoop.advance?` : the index of the next turn.
-/

namespace LuaMachine

/-- The values that control a numeric loop. -/
structure NumericLoop where
  index : Value
  limit : Value
  step : Value

/-- The value of a loop that is not a number. -/
inductive NumericLoop.Bound where
  | limit | step | initial
  deriving DecidableEq, Repr

/-- The description of a loop value in messages. -/
def NumericLoop.Bound.text : Bound → String
  | limit => "limit"
  | step => "step"
  | initial => "initial value"

namespace NumericLoop

/-- The greatest integer not above a float, for an upward loop, or the least integer not below it,
for a downward one, if it has 64 bits. -/
def roundedLimit? (x : Float) (step : Int64) : Option Int64 :=
  let b := Binary64.ofFloat x
  (if step < 0 then b.ceil? else b.floor?).bind Binary64.word?

/-- An integer limit for an integer loop, and whether the loop is to be skipped altogether.  A
limit beyond the integers becomes the greatest or the least one. -/
def limit? (limit : Value) (step : Int64) : Option (Int64 × Bool) :=
  match limit.toInteger? with
  | some l => some (l, false)
  | none =>
    limit.toFloat?.map fun x =>
      match roundedLimit? x step with
      | some l => (l, false)
      | none => if 0 < x then (Int64.maxValue, step < 0) else (Int64.minValue, 0 < step)

/-- The loop on floats before its first turn. -/
def prepareFloats (l : NumericLoop) : Except Bound NumericLoop :=
  match l.limit.toFloat?, l.step.toFloat?, l.index.toFloat? with
  | none, _, _ => .error .limit
  | _, none, _ => .error .step
  | _, _, none => .error .initial
  | some limit, some step, some index =>
    .ok { index := .ofFloat (index - step), limit := .ofFloat limit, step := .ofFloat step }

/-- The loop before its first turn. -/
def prepare (l : NumericLoop) : Except Bound NumericLoop :=
  match l.index, l.step with
  | .integer index, .integer step =>
    match limit? l.limit step with
    | some (limit, skip) =>
      .ok { l with
        index := .integer ((if skip then 0 else index) - step)
        limit := .integer limit }
    | none => l.prepareFloats
  | _, _ => l.prepareFloats

/-- The index of the next turn, `some none` if the loop is over.  Values that are not numbers have
no next index: the loop was not prepared. -/
def advance? (l : NumericLoop) : Option (Option Value) :=
  match l.index, l.limit, l.step with
  | .integer index, .integer limit, .integer step =>
    let next := index + step
    let more : Bool := if 0 < step then next ≤ limit else limit ≤ next
    some (if more then some (.integer next) else none)
  | index, limit, step =>
    match index.asFloat?, limit.asFloat?, step.asFloat? with
    | some index, some limit, some step =>
      let next := index + step
      let more : Bool := if 0 < step then next ≤ limit else limit ≤ next
      some (if more then some (.ofFloat next) else none)
    | _, _, _ => none

end NumericLoop

end LuaMachine
