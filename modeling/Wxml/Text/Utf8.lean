import Wxml.Text.Quoted

/-!
# Text from bytes

Strict UTF-8. A decoder is between characters, or inside one: it owes some octets, and the next of
them is bounded so that no overlong form, no surrogate and nothing behind the last code point can
be spelled. The first octet that breaks the rules ends the decoding.

In the text of a file a carriage return, alone or before a line feed, counts as a line feed
(`unifyLines`).
-/

namespace Wxml.Text

/-- How a sequence of octets fails to be UTF-8. -/
inductive Utf8Fault where
  /-- No character starts with this octet. -/
  | invalidStart
  /-- A character has started and cannot go on like this. -/
  | invalidContinuation
  /-- The input ends inside a character. -/
  | unexpectedEnd
  deriving DecidableEq, Repr, Inhabited

/-- The octets of a failed character, and where they start. -/
structure Utf8Error where
  position : Nat
  octets : List UInt8
  fault : Utf8Fault
  deriving DecidableEq, Repr, Inhabited

/-- The fault in words. -/
def Utf8Fault.text : Utf8Fault → String
  | .invalidStart => "invalid start byte"
  | .invalidContinuation => "invalid continuation byte"
  | .unexpectedEnd => "unexpected end of data"

/-- The error in words. -/
def Utf8Error.message (e : Utf8Error) : String :=
  let place :=
    match e.octets with
    | [b] =>
      "byte 0x" ++ String.ofList (hex 2 b.toNat) ++ " in position " ++ toString e.position
    | octets =>
      "bytes in position " ++ toString e.position ++ "-" ++
        toString (e.position + octets.length - 1)
  "'utf-8' codec can't decode " ++ place ++ ": " ++ e.fault.text

/-- A character that has started. -/
structure Pending where
  /-- How many octets are still owed. -/
  owed : Nat
  /-- The least value of the next octet. -/
  low : Nat
  /-- The greatest value of the next octet. -/
  high : Nat
  /-- The code point so far. -/
  value : Nat
  /-- The octets so far, the latest first. -/
  seen : List UInt8

/-- The character that an octet starts, if it can start one of several octets. -/
def Pending.start? (b : UInt8) : Option Pending :=
  let n := b.toNat
  if 0xc2 ≤ n ∧ n ≤ 0xdf then some ⟨1, 0x80, 0xbf, n - 0xc0, [b]⟩
  else if n = 0xe0 then some ⟨2, 0xa0, 0xbf, 0, [b]⟩
  else if n = 0xed then some ⟨2, 0x80, 0x9f, 0xd, [b]⟩
  else if 0xe1 ≤ n ∧ n ≤ 0xef then some ⟨2, 0x80, 0xbf, n - 0xe0, [b]⟩
  else if n = 0xf0 then some ⟨3, 0x90, 0xbf, 0, [b]⟩
  else if 0xf1 ≤ n ∧ n ≤ 0xf3 then some ⟨3, 0x80, 0xbf, n - 0xf0, [b]⟩
  else if n = 0xf4 then some ⟨3, 0x80, 0x8f, 4, [b]⟩
  else none

/-- The started character with one more octet. -/
def Pending.push (p : Pending) (b : UInt8) : Pending :=
  ⟨p.owed - 1, 0x80, 0xbf, p.value * 64 + (b.toNat - 0x80), b :: p.seen⟩

/-- The failure of a started character, before the octet at a position. -/
def Pending.fail (p : Pending) (position : Nat) (fault : Utf8Fault) : Utf8Error :=
  ⟨position - p.seen.length, p.seen.reverse, fault⟩

/-- The characters that some octets spell, the first of which stands at a position. -/
def decodeFrom (position : Nat) (pending : Option Pending) :
    List UInt8 → Except Utf8Error (List Char)
  | [] =>
    match pending with
    | none => .ok []
    | some p => .error (p.fail position .unexpectedEnd)
  | b :: bs =>
    match pending with
    | none =>
      if b.toNat < 0x80 then
        (decodeFrom (position + 1) none bs).map (Char.ofNat b.toNat :: ·)
      else
        match Pending.start? b with
        | none => .error ⟨position, [b], .invalidStart⟩
        | some p => decodeFrom (position + 1) (some p) bs
    | some p =>
      if p.low ≤ b.toNat ∧ b.toNat ≤ p.high then
        if p.owed = 1 then
          (decodeFrom (position + 1) none bs).map (Char.ofNat (p.push b).value :: ·)
        else decodeFrom (position + 1) (some (p.push b)) bs
      else .error (p.fail position .invalidContinuation)

/-- Every line break as a line feed. -/
def unifyLines : List Char → List Char
  | [] => []
  | '\r' :: '\n' :: rest => '\n' :: unifyLines rest
  | c :: rest => (if c = '\r' then '\n' else c) :: unifyLines rest

/-- The text of a file. -/
def decode (octets : List UInt8) : Except Utf8Error String :=
  (decodeFrom 0 none octets).map fun cs => String.ofList (unifyLines cs)

/-- The octets of a text. -/
def encode (s : String) : List UInt8 := s.toUTF8.toList

end Wxml.Text
