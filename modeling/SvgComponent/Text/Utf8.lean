/-!
# Reading UTF-8

Octets are read strictly: sequences that are too long, surrogates and values beyond the last code
point are refused, at the first octet that rules the text out.

* `decode`: the characters of some octets, or where and why they stop being text.
* `encode`: the octets of characters.
-/

namespace SvgComponent.Text.Utf8

/-- Why octets are not text. -/
inductive Reason where
  /-- No character starts with this octet. -/
  | badStart
  /-- The character that the octets before start cannot go on with this one. -/
  | badContinuation
  /-- The octets end inside a character. -/
  | truncated
  deriving DecidableEq, Repr

/-- Octets that are not text: the `width` octets from `start` on, the first of which is `octet`. -/
structure Fault where
  start : Nat
  width : Nat
  octet : Nat
  reason : Reason
  deriving DecidableEq, Repr

/-- The wording of a reason. -/
def Reason.message : Reason → String
  | .badStart => "invalid start byte"
  | .badContinuation => "invalid continuation byte"
  | .truncated => "unexpected end of data"

/-- An octet in hexadecimal. -/
def octetText (n : Nat) : String :=
  String.ofList ['0', 'x', Nat.digitChar (n / 16), Nat.digitChar (n % 16)]

/-- The wording of a fault. -/
def Fault.message (f : Fault) : String :=
  "'utf-8' codec can't decode " ++
    (if f.width = 1 then "byte " ++ octetText f.octet ++ " in position " ++ toString f.start
     else "bytes in position " ++ toString f.start ++ "-" ++ toString (f.start + f.width - 1)) ++
    ": " ++ f.reason.message

/-- What the first octet of a character says: how many octets follow, between which bounds the first
of them lies, and the leading bits of the code point. -/
structure Lead where
  count : Nat
  low : Nat
  high : Nat
  bits : Nat
  deriving DecidableEq, Repr

/-- What an octet says as the first of a character. -/
def lead? (b : Nat) : Option Lead :=
  if b < 0x80 then some ⟨0, 0x80, 0xBF, b⟩
  else if b < 0xC2 then none
  else if b < 0xE0 then some ⟨1, 0x80, 0xBF, b - 0xC0⟩
  else if b = 0xE0 then some ⟨2, 0xA0, 0xBF, 0⟩
  else if b = 0xED then some ⟨2, 0x80, 0x9F, 0xD⟩
  else if b < 0xF0 then some ⟨2, 0x80, 0xBF, b - 0xE0⟩
  else if b = 0xF0 then some ⟨3, 0x90, 0xBF, 0⟩
  else if b < 0xF4 then some ⟨3, 0x80, 0xBF, b - 0xF0⟩
  else if b = 0xF4 then some ⟨3, 0x80, 0x8F, 4⟩
  else none

/-- Reads `count` more octets of a character, `seen` of which have been read and give `bits`. The
next lies between the bounds; with a fault comes the number of octets that could be read. -/
def follow (low high bits seen : Nat) : Nat → List Nat → Except (Nat × Reason) Nat
  | 0, _ => .ok bits
  | _ + 1, [] => .error (seen, .truncated)
  | count + 1, b :: bs =>
    if low ≤ b ∧ b ≤ high then follow 0x80 0xBF (bits * 64 + (b - 0x80)) (seen + 1) count bs
    else .error (seen, .badContinuation)

/-- Reads on at an octet, `read` being what was read before, in reverse. -/
def decodeFrom (start : Nat) (read : List Char) : List Nat → Except Fault (List Char)
  | [] => .ok read.reverse
  | b :: bs =>
    match lead? b with
    | none => .error ⟨start, 1, b, .badStart⟩
    | some l =>
      match follow l.low l.high l.bits 1 l.count bs with
      | .error (width, reason) => .error ⟨start, width, b, reason⟩
      | .ok n => decodeFrom (start + l.count + 1) (Char.ofNat n :: read) (bs.drop l.count)
termination_by bs => bs.length
decreasing_by simp only [List.length_drop, List.length_cons]; omega

/-- The characters of some octets. -/
def decode (octets : List Nat) : Except Fault (List Char) := decodeFrom 0 [] octets

/-- The octets of a character. -/
def encodeChar (c : Char) : List Nat :=
  let n := c.toNat
  if n < 0x80 then [n]
  else if n < 0x800 then [0xC0 + n / 64, 0x80 + n % 64]
  else if n < 0x10000 then [0xE0 + n / 4096, 0x80 + n / 64 % 64, 0x80 + n % 64]
  else [0xF0 + n / 262144, 0x80 + n / 4096 % 64, 0x80 + n / 64 % 64, 0x80 + n % 64]

/-- The octets of characters. -/
def encode (s : List Char) : List Nat := s.flatMap encodeChar

end SvgComponent.Text.Utf8
