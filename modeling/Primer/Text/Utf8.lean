/-
  Primer/Text/Utf8.lean
  =====================
  **Reading bytes as UTF-8.**

  A first byte announces how many bytes are owed and between which bounds each must lie;
  the bounds rule out long forms, surrogates and numbers past the last character.  Where
  the bytes stop being UTF-8, the `Fault` says at which index the bad character starts
  and how many of its bytes were good, or that the bytes ended inside it.
-/

namespace Primer.Utf8

/-- Where and how bytes stop being UTF-8. -/
structure Fault where
  /-- the index of the first byte of the bad character -/
  index : Nat
  /-- how many bytes of it can be told to be bad; `none` when more bytes are missing -/
  length : Option Nat
deriving DecidableEq, Repr

def Fault.message (f : Fault) : String :=
  match f.length with
  | some n => "invalid utf-8 sequence of " ++ toString n ++ " bytes from index " ++ toString f.index
  | none => "incomplete utf-8 byte sequence from index " ++ toString f.index

/-- A character of which only the first bytes have been read. -/
structure Begun where
  /-- the index of its first byte -/
  start : Nat
  /-- its number so far -/
  code : Nat
  /-- the bounds of its next byte -/
  bounds : Nat × Nat
  /-- the bounds of the bytes behind that -/
  owed : List (Nat × Nat)

/-- What a first byte says: the number so far and the bounds of the bytes owed. -/
def first (b : Nat) : Option (Nat × List (Nat × Nat)) :=
  let tail := (0x80, 0xbf)
  if b ≤ 0x7f then some (b, [])
  else if b < 0xc2 then none
  else if b ≤ 0xdf then some (b - 0xc0, [tail])
  else if b = 0xe0 then some (0, [(0xa0, 0xbf), tail])
  else if b = 0xed then some (0xd, [(0x80, 0x9f), tail])
  else if b ≤ 0xef then some (b - 0xe0, [tail, tail])
  else if b = 0xf0 then some (0, [(0x90, 0xbf), tail, tail])
  else if b ≤ 0xf3 then some (b - 0xf0, [tail, tail, tail])
  else if b = 0xf4 then some (4, [(0x80, 0x8f), tail, tail])
  else none

/-- Reads on at byte `index`, with a character begun or not; `read` holds the characters
before it, the last one first. -/
def decodeFrom (index : Nat) (begun : Option Begun) (read : List Char) :
    List UInt8 → Except Fault (List Char)
  | [] =>
    match begun with
    | none => .ok read.reverse
    | some c => .error ⟨c.start, none⟩
  | byte :: bytes =>
    let b := byte.toNat
    match begun with
    | none =>
      match first b with
      | none => .error ⟨index, some 1⟩
      | some (code, []) => decodeFrom (index + 1) none (Char.ofNat code :: read) bytes
      | some (code, bounds :: owed) =>
        decodeFrom (index + 1) (some ⟨index, code, bounds, owed⟩) read bytes
    | some c =>
      if c.bounds.1 ≤ b ∧ b ≤ c.bounds.2 then
        let code := c.code * 64 + (b - 0x80)
        match c.owed with
        | [] => decodeFrom (index + 1) none (Char.ofNat code :: read) bytes
        | bounds :: owed => decodeFrom (index + 1) (some ⟨c.start, code, bounds, owed⟩) read bytes
      else
        .error ⟨c.start, some (index - c.start)⟩

/-- The text that bytes stand for. -/
def decode (bytes : List UInt8) : Except Fault String :=
  (decodeFrom 0 none [] bytes).map String.ofList

end Primer.Utf8
