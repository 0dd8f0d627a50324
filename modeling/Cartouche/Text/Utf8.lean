/-!
# Faults in UTF-8

`Utf8.fault?` finds the first place at which bytes stop being UTF-8, and how many bytes are to
blame: those of the longest start of a character that is there, or all that is left when the bytes
end inside a character.
-/

namespace Cartouche

/-- Where bytes stop being UTF-8. -/
structure Utf8Fault where
  /-- The number of sound bytes in front. -/
  position : Nat
  /-- The number of bytes to blame; `none` when the bytes end inside a character. -/
  length : Option Nat
deriving DecidableEq, Repr

/-- What is said about the fault. -/
def Utf8Fault.message (fault : Utf8Fault) : String :=
  match fault.length with
  | some length =>
    "invalid utf-8 sequence of " ++ toString length ++ " bytes from index " ++
      toString fault.position
  | none => "incomplete utf-8 byte sequence from index " ++ toString fault.position

namespace Utf8

/-- The ranges of the bytes that may follow a first byte of a character of several bytes. -/
def followers? (first : Nat) : Option (List (Nat × Nat)) :=
  let tail := (0x80, 0xBF)
  if 0xC2 ≤ first ∧ first ≤ 0xDF then some [tail]
  else if first = 0xE0 then some [(0xA0, 0xBF), tail]
  else if first = 0xED then some [(0x80, 0x9F), tail]
  else if 0xE1 ≤ first ∧ first ≤ 0xEF then some [tail, tail]
  else if first = 0xF0 then some [(0x90, 0xBF), tail, tail]
  else if 0xF1 ≤ first ∧ first ≤ 0xF3 then some [tail, tail, tail]
  else if first = 0xF4 then some [(0x80, 0x8F), tail, tail]
  else none

/-- The first fault in bytes that follow `start` sound ones. Inside a character, `seen` bytes of it
were read and the bytes in the ranges of `owed` are still to come. -/
def faultFrom? (start seen : Nat) (owed : List (Nat × Nat)) : List UInt8 → Option Utf8Fault
  | [] => if owed.isEmpty then none else some { position := start, length := none }
  | byte :: rest =>
    match owed with
    | (least, greatest) :: owed =>
      if least ≤ byte.toNat ∧ byte.toNat ≤ greatest then
        if owed.isEmpty then faultFrom? (start + seen + 1) 0 [] rest
        else faultFrom? start (seen + 1) owed rest
      else
        some { position := start, length := some seen }
    | [] =>
      if byte.toNat < 0x80 then
        faultFrom? (start + 1) 0 [] rest
      else
        match followers? byte.toNat with
        | some owed => faultFrom? start 1 owed rest
        | none => some { position := start, length := some 1 }

/-- The first fault in bytes. -/
def fault? (bytes : ByteArray) : Option Utf8Fault := faultFrom? 0 0 [] bytes.toList

end Utf8

end Cartouche
