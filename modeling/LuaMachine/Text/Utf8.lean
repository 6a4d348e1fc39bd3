/-!
# Byte strings shown as text

Strings of the machine are arbitrary bytes, while messages are text.  This file reads bytes as
UTF-8 and puts the replacement character `U+FFFD` in place of each maximal ill-formed part: the
longest run of bytes that begins a well-formed sequence without completing it, or one single byte
that begins none.

## Main definitions

* `Text.leads` : the range allowed for the second byte after a leading byte, and the number of
  continuation bytes that follow.
* `Text.decode` : the characters of a list of bytes.
* `Text.ofBytes` : the text of a byte string.
-/

namespace LuaMachine.Text

/-- A byte that continues a multi-byte sequence. -/
def isContinuation (b : UInt8) : Bool := 0x80 ≤ b && b ≤ 0xBF

/-- For a leading byte of a multi-byte sequence, the least and greatest second byte and the number
of continuation bytes in all.  The narrower ranges exclude overlong forms, surrogates and code
points past `U+10FFFF`. -/
def leads (b : UInt8) : Option (UInt8 × UInt8 × Nat) :=
  if 0xC2 ≤ b && b ≤ 0xDF then some (0x80, 0xBF, 1)
  else if b == 0xE0 then some (0xA0, 0xBF, 2)
  else if b == 0xED then some (0x80, 0x9F, 2)
  else if 0xE1 ≤ b && b ≤ 0xEF then some (0x80, 0xBF, 2)
  else if b == 0xF0 then some (0x90, 0xBF, 3)
  else if 0xF1 ≤ b && b ≤ 0xF3 then some (0x80, 0xBF, 3)
  else if b == 0xF4 then some (0x80, 0x8F, 3)
  else none

/-- The character that stands for an ill-formed part. -/
def replacement : Char := '\uFFFD'

/-- The code point of a sequence from the payload bits of its leading byte (`mask` selects them)
and its continuation bytes. -/
def scalar (mask lead : UInt8) (rest : List UInt8) : Char :=
  Char.ofNat (rest.foldl (fun n b => n * 64 + (b &&& 0x3F).toNat) (lead &&& mask).toNat)

/-- The characters of a list of bytes, one replacement character for each maximal ill-formed
part. -/
def decode : List UInt8 → List Char
  | [] => []
  | b :: rest =>
    if b < 0x80 then Char.ofNat b.toNat :: decode rest
    else
      match leads b with
      | none => replacement :: decode rest
      | some (lo, hi, more) =>
        match rest with
        | [] => [replacement]
        | c :: rest₁ =>
          if !(lo ≤ c && c ≤ hi) then replacement :: decode (c :: rest₁)
          else if more == 1 then scalar 0x1F b [c] :: decode rest₁
          else
            match rest₁ with
            | [] => [replacement]
            | d :: rest₂ =>
              if !isContinuation d then replacement :: decode (d :: rest₂)
              else if more == 2 then scalar 0x0F b [c, d] :: decode rest₂
              else
                match rest₂ with
                | [] => [replacement]
                | e :: rest₃ =>
                  if !isContinuation e then replacement :: decode (e :: rest₃)
                  else scalar 0x07 b [c, d, e] :: decode rest₃

/-- The text of a byte string, with a replacement character for each ill-formed part. -/
def ofBytes (s : ByteArray) : String :=
  String.ofList (decode s.toList)

@[simp] theorem decode_nil : decode [] = [] := by
  rw [decode]

/-- An ASCII byte stands for itself. -/
theorem decode_cons_of_lt {b : UInt8} (h : b < 0x80) (rest : List UInt8) :
    decode (b :: rest) = Char.ofNat b.toNat :: decode rest := by
  rw [decode, if_pos h]

end LuaMachine.Text
