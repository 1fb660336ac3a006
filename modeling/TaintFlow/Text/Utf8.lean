/-!
# Bytes and characters

Reading of UTF-8.  Malformed input is cut into parts, each the longest that could begin a
character; a reader refuses such parts, drops them or shows a replacement character for each.
-/

namespace TaintFlow.Text

/-- A byte that continues a character. -/
def isContinuation (b : UInt8) : Bool :=
  0x80 ≤ b && b ≤ 0xbf

/-- Whether `b` may follow the first byte `a` of a character of three or four bytes. -/
def maySecond (a b : UInt8) : Bool :=
  if a == 0xe0 then 0xa0 ≤ b && b ≤ 0xbf
  else if a == 0xed then 0x80 ≤ b && b ≤ 0x9f
  else if a == 0xf0 then 0x90 ≤ b && b ≤ 0xbf
  else if a == 0xf4 then 0x80 ≤ b && b ≤ 0x8f
  else isContinuation b

/-- The last six bits of a continuation byte. -/
def payload (b : UInt8) : Nat :=
  b.toNat % 0x40

/-- The characters of a byte sequence; `none` stands for a malformed part. -/
def decodeUtf8 : List UInt8 → List (Option Char)
  | [] => []
  | a :: rest =>
    if a < 0x80 then some (Char.ofNat a.toNat) :: decodeUtf8 rest
    else if 0xc2 ≤ a && a ≤ 0xdf then
      match rest with
      | b :: r =>
        if isContinuation b then
          some (Char.ofNat (a.toNat % 0x20 * 0x40 + payload b)) :: decodeUtf8 r
        else none :: decodeUtf8 (b :: r)
      | [] => [none]
    else if 0xe0 ≤ a && a ≤ 0xef then
      match rest with
      | b :: r =>
        if maySecond a b then
          match r with
          | c :: r' =>
            if isContinuation c then
              some (Char.ofNat (a.toNat % 0x10 * 0x1000 + payload b * 0x40 + payload c))
                :: decodeUtf8 r'
            else none :: decodeUtf8 (c :: r')
          | [] => [none]
        else none :: decodeUtf8 (b :: r)
      | [] => [none]
    else if 0xf0 ≤ a && a ≤ 0xf4 then
      match rest with
      | b :: r =>
        if maySecond a b then
          match r with
          | c :: r' =>
            if isContinuation c then
              match r' with
              | d :: r'' =>
                if isContinuation d then
                  some (Char.ofNat (a.toNat % 8 * 0x40000 + payload b * 0x1000
                    + payload c * 0x40 + payload d)) :: decodeUtf8 r''
                else none :: decodeUtf8 (d :: r'')
              | [] => [none]
            else none :: decodeUtf8 (c :: r')
          | [] => [none]
        else none :: decodeUtf8 (b :: r)
      | [] => [none]
    else none :: decodeUtf8 rest

/-- The text of well-formed UTF-8. -/
def utf8Strict? (bytes : List UInt8) : Option String :=
  ((decodeUtf8 bytes).mapM id).map String.ofList

/-- The text of UTF-8 without its malformed parts. -/
def utf8Lenient (bytes : List UInt8) : String :=
  String.ofList ((decodeUtf8 bytes).filterMap id)

/-- The text of UTF-8 with U+FFFD in place of each malformed part. -/
def utf8Replacing (bytes : List UInt8) : String :=
  String.ofList ((decodeUtf8 bytes).map (·.getD (Char.ofNat 0xfffd)))

/-- The text in which every byte is the character with its number. -/
def latin1 (bytes : List UInt8) : String :=
  String.ofList (bytes.map fun b => Char.ofNat b.toNat)

/-- Rewrites the line ends `\r\n` and `\r` to `\n`. -/
def unifyNewlines : List Char → List Char
  | '\r' :: '\n' :: rest => '\n' :: unifyNewlines rest
  | '\r' :: rest => '\n' :: unifyNewlines rest
  | c :: rest => c :: unifyNewlines rest
  | [] => []

/-- The text with every line ended by `\n`. -/
def withUnixLines (s : String) : String :=
  String.ofList (unifyNewlines s.toList)

end TaintFlow.Text
