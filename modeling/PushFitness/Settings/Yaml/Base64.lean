/-!
# Bytes as letters

Three bytes are written as four letters, each of which stands for six bits. A group of
letters that is not full is filled up with equals signs, and such a group ends the
bytes. Characters that are neither are passed over.
-/

namespace PushFitness.Yaml.Base64

/-- The letters in the order of the bits they stand for. -/
def letters : List Char :=
  "ABCDEFGHIJKLMNOPQRSTUVWXYZabcdefghijklmnopqrstuvwxyz0123456789+/".toList

/-- The bits that a letter stands for. -/
def bits? (c : Char) : Option Nat := letters.idxOf? c

/-- Puts a byte in front of bytes. -/
def consByte (n : Nat) (bs : Option (List UInt8)) : Option (List UInt8) :=
  bs.map (UInt8.ofNat n :: ·)

/-- The bytes that a text goes on with, at the given place of a group. What is left of the
letter in front are the bits that have not been used up, and the equals signs since that
letter are counted. -/
def decodeFrom (place left signs : Nat) : List Char → Option (List UInt8)
  | [] => if place = 0 then some [] else none
  | c :: cs =>
    if c = '=' then
      if place < 2 then decodeFrom place left signs cs
      else if 3 ≤ place + signs then some []
      else decodeFrom place left (signs + 1) cs
    else
      match bits? c, place with
      | none, _ => decodeFrom place left signs cs
      | some n, 0 => decodeFrom 1 n 0 cs
      | some n, 1 => consByte (4 * left + n / 16) (decodeFrom 2 (n % 16) 0 cs)
      | some n, 2 => consByte (16 * left + n / 4) (decodeFrom 3 (n % 4) 0 cs)
      | some n, _ => consByte (64 * left + n) (decodeFrom 0 0 0 cs)

/-- The bytes that a text stands for. -/
def decode? (cs : List Char) : Option (List UInt8) := decodeFrom 0 0 0 cs

end PushFitness.Yaml.Base64
