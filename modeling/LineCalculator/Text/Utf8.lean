/- Text as bytes. Encoding is exact; decoding never fails: each longest front part of a character
   that the following byte does not continue becomes one replacement character. -/
namespace LineCalculator.Utf8

def encode (text : List Char) : List UInt8 := text.flatMap String.utf8EncodeChar

def replacement : Char := '\uFFFD'

/-- A character begun and not yet complete: the range of its next byte, how many bytes follow that
    one, and the bits read so far. -/
structure Pending where
  low : Nat
  high : Nat
  later : Nat
  bits : Nat
  deriving DecidableEq, Repr

structure Decoder where
  read : List Char
  pending : Option Pending
  deriving DecidableEq, Repr

def Pending.ofLead? (b : Nat) : Option Pending :=
  if 0xC2 ≤ b ∧ b ≤ 0xDF then some ⟨0x80, 0xBF, 0, b - 0xC0⟩
  else if b = 0xE0 then some ⟨0xA0, 0xBF, 1, 0⟩
  else if b = 0xED then some ⟨0x80, 0x9F, 1, 0xD⟩
  else if 0xE1 ≤ b ∧ b ≤ 0xEF then some ⟨0x80, 0xBF, 1, b - 0xE0⟩
  else if b = 0xF0 then some ⟨0x90, 0xBF, 2, 0⟩
  else if 0xF1 ≤ b ∧ b ≤ 0xF3 then some ⟨0x80, 0xBF, 2, b - 0xF0⟩
  else if b = 0xF4 then some ⟨0x80, 0x8F, 2, 4⟩
  else none

def Decoder.lead (read : List Char) (b : Nat) : Decoder :=
  if b < 0x80 then ⟨Char.ofNat b :: read, none⟩
  else
    match Pending.ofLead? b with
    | some p => ⟨read, some p⟩
    | none => ⟨replacement :: read, none⟩

/-- A byte that does not continue the pending character starts anew after its replacement. -/
def Decoder.step (d : Decoder) (byte : UInt8) : Decoder :=
  match d.pending with
  | none => Decoder.lead d.read byte.toNat
  | some p =>
    if p.low ≤ byte.toNat ∧ byte.toNat ≤ p.high then
      let bits := p.bits * 64 + (byte.toNat - 0x80)
      match p.later with
      | 0 => ⟨Char.ofNat bits :: d.read, none⟩
      | later + 1 => ⟨d.read, some ⟨0x80, 0xBF, later, bits⟩⟩
    else Decoder.lead (replacement :: d.read) byte.toNat

def Decoder.finish (d : Decoder) : List Char :=
  match d.pending with
  | none => d.read.reverse
  | some _ => (replacement :: d.read).reverse

def decodeLossy (bytes : List UInt8) : List Char := (bytes.foldl Decoder.step ⟨[], none⟩).finish

/-- The text that the bytes encode, if there is one: where decoding replaces anything, encoding does not
    give the bytes back. -/
def decode? (bytes : List UInt8) : Option (List Char) :=
  let text := decodeLossy bytes
  if encode text = bytes then some text else none

end LineCalculator.Utf8
