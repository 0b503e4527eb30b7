namespace Callout.Utf8

def encode (text : List Char) : List UInt8 :=
  text.flatMap String.utf8EncodeChar

/-- Why bytes are not well formed. -/
inductive Reason where
  | startByte
  | continuation
  | truncated
  deriving DecidableEq, Repr

/-- Where decoding stopped: the longest piece at `position` that some character could begin with, or
a single byte that begins none. -/
structure Fault where
  position : Nat
  bytes : List UInt8
  reason : Reason
  deriving DecidableEq, Repr

/-- Bounds of the bytes that follow a first byte, both ends included. The second byte is where
overlong forms, surrogates and values past the last plane are kept out. -/
def followers (first : UInt8) : Option (List (UInt8 × UInt8)) :=
  let any : UInt8 × UInt8 := (0x80, 0xbf)
  if first < 0x80 then some []
  else if first < 0xc2 then none
  else if first < 0xe0 then some [any]
  else if first = 0xe0 then some [(0xa0, 0xbf), any]
  else if first = 0xed then some [(0x80, 0x9f), any]
  else if first < 0xf0 then some [any, any]
  else if first = 0xf0 then some [(0x90, 0xbf), any, any]
  else if first < 0xf4 then some [any, any, any]
  else if first = 0xf4 then some [(0x80, 0x8f), any, any]
  else none

/-- The payload of a first byte: all of an ASCII byte, else what its length mark leaves. -/
def leadBits (first : UInt8) : Nat :=
  if first < 0x80 then first.toNat
  else if first < 0xe0 then first.toNat % 32
  else if first < 0xf0 then first.toNat % 16
  else first.toNat % 8

def character : List UInt8 → Char
  | [] => Char.ofNat 0
  | first :: rest =>
    Char.ofNat (rest.foldl (fun bits b => 64 * bits + b.toNat % 64) (leadBits first))

/-- Decodes with `begun`, a sequence from `position` on that still awaits `awaited`. -/
def decodeFrom (position : Nat) (begun : List UInt8) (awaited : List (UInt8 × UInt8)) :
    List UInt8 → Except Fault (List Char)
  | [] => if begun.isEmpty then .ok [] else .error ⟨position, begun, .truncated⟩
  | b :: rest =>
    match awaited with
    | [] =>
      match followers b with
      | none => .error ⟨position, [b], .startByte⟩
      | some [] => (character [b] :: ·) <$> decodeFrom (position + 1) [] [] rest
      | some (bound :: bounds) => decodeFrom position [b] (bound :: bounds) rest
    | bound :: bounds =>
      if bound.1 ≤ b ∧ b ≤ bound.2 then
        if bounds.isEmpty then
          (character (begun ++ [b]) :: ·) <$>
            decodeFrom (position + begun.length + 1) [] [] rest
        else decodeFrom position (begun ++ [b]) bounds rest
      else .error ⟨position, begun, .continuation⟩

def decode (bytes : List UInt8) : Except Fault (List Char) :=
  decodeFrom 0 [] [] bytes

/-- A run of adjacent code points that are no scalar values. -/
structure Surrogates where
  position : Nat
  codes : List Nat
  deriving DecidableEq, Repr

def scalarsFrom (position : Nat) : List Nat → Except Surrogates (List Char)
  | [] => .ok []
  | code :: rest =>
    if code.isValidChar then (Char.ofNat code :: ·) <$> scalarsFrom (position + 1) rest
    else .error ⟨position, code :: rest.takeWhile fun c => !decide c.isValidChar⟩

/-- The text of code points, unless one of them is no scalar value. -/
def scalars (codes : List Nat) : Except Surrogates (List Char) :=
  scalarsFrom 0 codes

end Callout.Utf8
