set_option autoImplicit false

/-! # Strict UTF-8

Text reaches the program as octets. `Utf8.decode` reads them strictly: no overlong form, no
surrogate, nothing above `U+10FFFF`, no sequence that is cut short. It reads one octet at a time
and knows, between two octets, which octets may come next (`Pending`), so the first octet that
cannot continue a valid text is where it stops.

`Invalid` says what stopped it: the octets of the sequence that cannot be completed, where they
begin, and why. `Invalid.message` is its wording.
-/

namespace ScopeScore.Utf8

/-- Why octets are no text. -/
inductive Reason where
  /-- The octet begins no sequence. -/
  | startByte
  /-- The sequence begun is followed by an octet that cannot continue it. -/
  | continuationByte
  /-- The octets end inside a sequence. -/
  | endOfData
deriving DecidableEq, Repr

/-- The first place at which octets are no text. -/
structure Invalid where
  /-- Where the faulty sequence begins. -/
  position : Nat
  /-- The octets of the sequence that were accepted, the first of them at least. -/
  octets : List UInt8
  reason : Reason
deriving DecidableEq, Repr

/-! ## Wording -/

def Reason.message : Reason → String
  | .startByte => "invalid start byte"
  | .continuationByte => "invalid continuation byte"
  | .endOfData => "unexpected end of data"

/-- An octet as two lower-case hexadecimal digits. -/
def hexOctet (b : UInt8) : String :=
  String.ofList [Nat.digitChar (b.toNat / 16), Nat.digitChar (b.toNat % 16)]

/-- A single octet is shown with its value, several by the range of their positions. -/
def Invalid.message (e : Invalid) : String :=
  let place :=
    match e.octets with
    | [b] => s!"byte 0x{hexOctet b} in position {e.position}"
    | bs => s!"bytes in position {e.position}-{e.position + bs.length - 1}"
  s!"'utf-8' codec can't decode {place}: {e.reason.message}"

/-! ## Reading -/

/-- A sequence that is not complete yet. -/
structure Pending where
  position : Nat
  octets : List UInt8
  /-- The bits read so far. -/
  value : Nat
  /-- How many octets are still to come after the next one. -/
  more : Nat
  /-- The least and the greatest octet that may come next. -/
  low : UInt8
  high : UInt8
deriving DecidableEq, Repr

/-- The sequence that the octet `b` at `position` begins, if it begins one of several octets. The
bounds on the second octet rule out overlong forms, surrogates and values that are too large. -/
def Pending.begin? (position : Nat) (b : UInt8) : Option Pending :=
  let sequence (base : Nat) (more : Nat) (low high : UInt8) : Option Pending :=
    some { position, octets := [b], value := b.toNat - base, more, low, high }
  if b < 0xC2 then none
  else if b < 0xE0 then sequence 0xC0 0 0x80 0xBF
  else if b = 0xE0 then sequence 0xE0 1 0xA0 0xBF
  else if b = 0xED then sequence 0xE0 1 0x80 0x9F
  else if b < 0xF0 then sequence 0xE0 1 0x80 0xBF
  else if b = 0xF0 then sequence 0xF0 2 0x90 0xBF
  else if b < 0xF4 then sequence 0xF0 2 0x80 0xBF
  else if b = 0xF4 then sequence 0xF0 2 0x80 0x8F
  else none

/-- May `b` come next? -/
def Pending.admits (p : Pending) (b : UInt8) : Bool := p.low ≤ b && b ≤ p.high

/-- The bits of the sequence with those of the octet `b` behind them. -/
def Pending.extended (p : Pending) (b : UInt8) : Nat := p.value * 64 + (b.toNat - 0x80)

/-- The sequence after the octet `b`, when more are to come. After the second octet the full range
of continuation octets is open. -/
def Pending.push (p : Pending) (b : UInt8) (more : Nat) : Pending :=
  { p with octets := p.octets ++ [b], value := p.extended b, more, low := 0x80, high := 0xBF }

/-- Reads the octets from `position` on, inside the sequence `pending` if there is one. -/
def decodeFrom (position : Nat) (pending : Option Pending) : List UInt8 → Except Invalid (List Char)
  | [] =>
      match pending with
      | none => .ok []
      | some p => .error { position := p.position, octets := p.octets, reason := .endOfData }
  | b :: rest =>
      match pending with
      | none =>
          if b < 0x80 then do
            let cs ← decodeFrom (position + 1) none rest
            return Char.ofNat b.toNat :: cs
          else
            match Pending.begin? position b with
            | some p => decodeFrom (position + 1) (some p) rest
            | none => .error { position, octets := [b], reason := .startByte }
      | some p =>
          if p.admits b then
            match p.more with
            | 0 => do
                let cs ← decodeFrom (position + 1) none rest
                return Char.ofNat (p.extended b) :: cs
            | more + 1 => decodeFrom (position + 1) (some (p.push b more)) rest
          else
            .error { position := p.position, octets := p.octets, reason := .continuationByte }

/-- The text that the octets spell. -/
def decode (octets : List UInt8) : Except Invalid String :=
  (decodeFrom 0 none octets).map String.ofList

end ScopeScore.Utf8
