/-! Reading bytes as UTF-8 when they may not be. A character that breaks off, and a byte that
begins none, read as the replacement character; the byte where a character breaks off is read
again as the beginning of the next. -/

namespace AheadOfTime.Text

def replacement : Char := '\ufffd'

/-- The least and the greatest value of each byte that must follow a leading byte. -/
def continuations (b : UInt8) : Option (List (UInt8 × UInt8)) :=
  if b ≤ 0x7f then some []
  else if 0xc2 ≤ b && b ≤ 0xdf then some [(0x80, 0xbf)]
  else if b = 0xe0 then some [(0xa0, 0xbf), (0x80, 0xbf)]
  else if b = 0xed then some [(0x80, 0x9f), (0x80, 0xbf)]
  else if 0xe1 ≤ b && b ≤ 0xef then some [(0x80, 0xbf), (0x80, 0xbf)]
  else if b = 0xf0 then some [(0x90, 0xbf), (0x80, 0xbf), (0x80, 0xbf)]
  else if 0xf1 ≤ b && b ≤ 0xf3 then some [(0x80, 0xbf), (0x80, 0xbf), (0x80, 0xbf)]
  else if b = 0xf4 then some [(0x80, 0x8f), (0x80, 0xbf), (0x80, 0xbf)]
  else none

/-- The bits of the code point that a leading byte carries. -/
def leadingBits (b : UInt8) : Nat :=
  if b ≤ 0x7f then b.toNat
  else if b ≤ 0xdf then b.toNat % 32
  else if b ≤ 0xef then b.toNat % 16
  else b.toNat % 8

/-- Where a reader stands: between characters, or within one whose first bits it has seen. -/
inductive Decoding where
  | between
  | within (bits : Nat) (expected : List (UInt8 × UInt8))

/-- Goes on to a state in which `expected` is still to come. -/
def Decoding.enter (bits : Nat) : List (UInt8 × UInt8) → List Char × Decoding
  | [] => ([Char.ofNat bits], .between)
  | expected => ([], .within bits expected)

def Decoding.begin (b : UInt8) : List Char × Decoding :=
  match continuations b with
  | some expected => enter (leadingBits b) expected
  | none => ([replacement], .between)

/-- The characters that a byte completes, and the state after it. -/
def Decoding.step : Decoding → UInt8 → List Char × Decoding
  | .within bits ((lo, hi) :: expected), b =>
    if lo ≤ b && b ≤ hi then enter (bits * 64 + b.toNat % 64) expected
    else (replacement :: (begin b).1, (begin b).2)
  | _, b => begin b

/-- What a reader adds where the bytes end. -/
def Decoding.finish : Decoding → List Char
  | .between => []
  | .within _ _ => [replacement]

def Decoding.run : Decoding → List UInt8 → List Char
  | d, [] => d.finish
  | d, b :: rest => (d.step b).1 ++ run (d.step b).2 rest

def lossy (bytes : List UInt8) : String := String.ofList (Decoding.between.run bytes)

end AheadOfTime.Text
