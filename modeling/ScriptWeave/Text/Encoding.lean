import ScriptWeave.Text.Basic

namespace ScriptWeave

abbrev Bytes := List UInt8

namespace Text

def encode (t : Text) : Bytes := t.flatMap String.utf8EncodeChar

inductive Malformed where
  | start
  | continuation
  | truncated
  deriving DecidableEq, Repr

/-- A malformed sequence: where it starts, how many bytes it takes, its first byte. -/
structure DecodeFault where
  offset : Nat
  count : Nat
  byte : UInt8
  cause : Malformed
  deriving DecidableEq, Repr

def isContinuation (b : UInt8) : Bool := 0x80 ≤ b && b ≤ 0xBF

def tailBits (b : UInt8) : Nat := b.toNat % 64

def isSecondOf (lead second : UInt8) : Bool :=
  isContinuation second && (lead != 0xE0 || 0xA0 ≤ second) && (lead != 0xED || second ≤ 0x9F) &&
    (lead != 0xF0 || 0x90 ≤ second) && (lead != 0xF4 || second ≤ 0x8F)

def decodeFrom (offset : Nat) : Bytes → Except DecodeFault Text
  | [] => .ok []
  | lead :: rest =>
      if lead < 0x80 then
        (decodeFrom (offset + 1) rest).map (Char.ofNat lead.toNat :: ·)
      else if lead < 0xC2 ∨ 0xF4 < lead then .error ⟨offset, 1, lead, .start⟩
      else
        match rest with
        | [] => .error ⟨offset, 1, lead, .truncated⟩
        | second :: rest =>
            if ¬ isSecondOf lead second then .error ⟨offset, 1, lead, .continuation⟩
            else if lead < 0xE0 then
              (decodeFrom (offset + 2) rest).map
                (Char.ofNat (lead.toNat % 32 * 64 + tailBits second) :: ·)
            else
              match rest with
              | [] => .error ⟨offset, 2, lead, .truncated⟩
              | third :: rest =>
                  if ¬ isContinuation third then .error ⟨offset, 2, lead, .continuation⟩
                  else if lead < 0xF0 then
                    (decodeFrom (offset + 3) rest).map
                      (Char.ofNat ((lead.toNat % 16 * 64 + tailBits second) * 64
                        + tailBits third) :: ·)
                  else
                    match rest with
                    | [] => .error ⟨offset, 3, lead, .truncated⟩
                    | fourth :: rest =>
                        if ¬ isContinuation fourth then
                          .error ⟨offset, 3, lead, .continuation⟩
                        else
                          (decodeFrom (offset + 4) rest).map
                            (Char.ofNat (((lead.toNat % 8 * 64 + tailBits second) * 64
                              + tailBits third) * 64 + tailBits fourth) :: ·)

def decode (bytes : Bytes) : Except DecodeFault Text := decodeFrom 0 bytes

def dropByteOrderMark : Bytes → Bytes
  | 0xEF :: 0xBB :: 0xBF :: rest => rest
  | bytes => bytes

def hexByte (b : UInt8) : Text :=
  [Nat.digitChar (b.toNat / 16), Nat.digitChar (b.toNat % 16)]

def Malformed.reason : Malformed → Text
  | .start => "invalid start byte"
  | .continuation => "invalid continuation byte"
  | .truncated => "unexpected end of data"

def DecodeFault.message (f : DecodeFault) : Text :=
  let what : Text :=
    if f.count = 1 then "byte 0x" ++ hexByte f.byte ++ " in position " ++ ofNat f.offset
    else "bytes in position " ++ ofNat f.offset ++ "-" ++ ofNat (f.offset + f.count - 1)
  "'utf-8' codec can't decode " ++ what ++ ": " ++ f.cause.reason

end Text

end ScriptWeave
