import LuaMachine.Text.Combining
import LuaMachine.Text.Unprintable

/-!
# Quoted text

A text in quotes for inspection: the quote, the backslash and characters that would not show are
escaped.

## Main definitions

* `Text.isHidden` : the characters that do not show by themselves.
* `Text.quote` : a text in double quotes.

## Main statements

* `Text.isHidden_eq_false` : the ASCII characters from the space to the tilde show by themselves.
-/

namespace LuaMachine.Text

/-- A character that does not show by itself: it prints nothing, or it joins the one before. -/
def isHidden (c : Char) : Bool :=
  unprintable.contains c.toNat || combining.contains c.toNat

/-- A character inside quotes.  One that does not show is written by its code point in hexadecimal
digits. -/
def escape (c : Char) : List Char :=
  match c with
  | '"' => ['\\', '"']
  | '\\' => ['\\', '\\']
  | '\n' => ['\\', 'n']
  | '\t' => ['\\', 't']
  | '\r' => ['\\', 'r']
  | '\x00' => ['\\', '0']
  | c =>
    if isHidden c then ['\\', 'u', '\x7b'] ++ Nat.toDigits 16 c.toNat ++ ['\x7d'] else [c]

/-- A text in double quotes. -/
def quote (s : String) : String :=
  String.ofList ('"' :: s.toList.flatMap escape ++ ['"'])

/-- A set whose ranges leave out all places from `lo` up to `hi` has no member there. -/
theorem contains_eq_false {s : CodePoints} {lo hi n : Nat}
    (h : (s.ranges.toList.all fun r => r.2 < lo || hi < r.1) = true) (hlo : lo ≤ n)
    (hhi : n ≤ hi) : s.contains n = false := by
  rw [← Bool.not_eq_true, CodePoints.contains_iff]
  rintro ⟨r, hr, h₁, h₂⟩
  have := List.all_eq_true.1 h r (by simpa using hr)
  simp only [Bool.or_eq_true, decide_eq_true_eq] at this
  omega

/-- The ASCII characters from the space to the tilde show by themselves. -/
theorem isHidden_eq_false {c : Char} (hlo : 0x20 ≤ c.toNat) (hhi : c.toNat ≤ 0x7E) :
    isHidden c = false := by
  rw [isHidden, contains_eq_false (by decide +kernel) hlo hhi,
    contains_eq_false (by decide +kernel) hlo hhi, Bool.or_self]

end LuaMachine.Text
