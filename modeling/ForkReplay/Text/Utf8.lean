/-!
# Lenient reading of UTF-8

Reads any bytes as text. A maximal piece of bytes that starts a character but
does not complete it becomes one replacement character, as does every byte that
cannot start one.
-/

namespace ForkReplay.Text.Utf8

/-- The character that stands for unreadable bytes. -/
def replacement : Char := '\uFFFD'

/-- Whether the byte continues a character. -/
def isContinuation (b : UInt8) : Bool := 0x80 ≤ b && b ≤ 0xbf

/-- Whether `second` may follow the lead byte `lead`: overlong forms, surrogates
and values beyond the last code point are excluded here. -/
def allowsSecond (lead second : UInt8) : Bool :=
  if lead == 0xe0 then 0xa0 ≤ second && second ≤ 0xbf
  else if lead == 0xed then 0x80 ≤ second && second ≤ 0x9f
  else if lead == 0xf0 then 0x90 ≤ second && second ≤ 0xbf
  else if lead == 0xf4 then 0x80 ≤ second && second ≤ 0x8f
  else isContinuation second

/-- The payload of a continuation byte. -/
def payload (b : UInt8) : Nat := b.toNat % 64

/-- The first character of the bytes and how many of them it takes. -/
def decodeChar (lead : UInt8) (rest : List UInt8) : Char × Nat :=
  if lead < 0x80 then (Char.ofNat lead.toNat, 1)
  else if lead < 0xc2 || 0xf4 < lead then (replacement, 1)
  else
    match rest with
    | [] => (replacement, 1)
    | second :: rest =>
        if !allowsSecond lead second then (replacement, 1)
        else if lead < 0xe0 then
          (Char.ofNat (lead.toNat % 32 * 64 + payload second), 2)
        else
          match rest with
          | [] => (replacement, 2)
          | third :: rest =>
              if !isContinuation third then (replacement, 2)
              else if lead < 0xf0 then
                (Char.ofNat ((lead.toNat % 16 * 64 + payload second) * 64 + payload third), 3)
              else
                match rest with
                | [] => (replacement, 3)
                | fourth :: _ =>
                    if !isContinuation fourth then (replacement, 3)
                    else
                      (Char.ofNat (((lead.toNat % 8 * 64 + payload second) * 64 +
                        payload third) * 64 + payload fourth), 4)

/-- The characters that the bytes spell. -/
def decodeChars (bytes : List UInt8) : List Char :=
  match bytes with
  | [] => []
  | lead :: rest =>
      let head := decodeChar lead rest
      head.1 :: decodeChars (rest.drop (head.2 - 1))
  termination_by bytes.length
  decreasing_by simp only [List.length_drop, List.length_cons]; omega

/-- The text that the bytes spell, with replacement characters. -/
def decodeLossy (bytes : List UInt8) : String := String.ofList (decodeChars bytes)

end ForkReplay.Text.Utf8
