/-! UTF-8: encoding, and strict decoding that says where and why it fails. -/
namespace SumLang.Text

inductive Utf8Defect where
  | startByte
  | continuationByte
  | endOfData
deriving DecidableEq, Repr

/-- The first undecodable bytes: where they start, the first of them, how many they are, and the
reason. -/
structure Utf8Fault where
  position : Nat
  first : UInt8
  length : Nat
  defect : Utf8Defect
deriving DecidableEq, Repr

def encodeUtf8 (s : String) : List UInt8 :=
  s.toList.flatMap String.utf8EncodeChar

def isContinuation (b : UInt8) : Bool :=
  0x80 ≤ b && b ≤ 0xBF

/-- What a start byte asks of the bytes after it: the range of the second byte and the number of
further continuation bytes. The narrow ranges leave out overlong forms, surrogates and values above
the last code point. -/
def continuationPlan (b : UInt8) : Option (UInt8 × UInt8 × Nat) :=
  if 0xC2 ≤ b && b ≤ 0xDF then some (0x80, 0xBF, 0)
  else if b == 0xE0 then some (0xA0, 0xBF, 1)
  else if b == 0xED then some (0x80, 0x9F, 1)
  else if 0xE1 ≤ b && b ≤ 0xEF then some (0x80, 0xBF, 1)
  else if b == 0xF0 then some (0x90, 0xBF, 2)
  else if 0xF1 ≤ b && b ≤ 0xF3 then some (0x80, 0xBF, 2)
  else if b == 0xF4 then some (0x80, 0x8F, 2)
  else none

/-- The payload bits of a start byte that announces `more` further bytes after its second. -/
def startBits (b : UInt8) (more : Nat) : Nat :=
  b.toNat % (32 >>> more)

/-- Reads `more` continuation bytes onto `code`; `taken` counts the bytes of the sequence so far. -/
def takeContinuations (code taken : Nat) : Nat → List UInt8 → Except (Nat × Utf8Defect) Nat
  | 0, _ => .ok code
  | _ + 1, [] => .error (taken, .endOfData)
  | more + 1, b :: bs =>
    if isContinuation b then takeContinuations (code * 64 + b.toNat % 64) (taken + 1) more bs
    else .error (taken, .continuationByte)

/-- Reads one character: its code point and the number of bytes it takes after its first, or the
length and the reason of the defect. -/
def decodeChar (b : UInt8) (bs : List UInt8) : Except (Nat × Utf8Defect) (Nat × Nat) :=
  if b < 0x80 then .ok (b.toNat, 0)
  else match continuationPlan b with
    | none => .error (1, .startByte)
    | some (low, high, more) =>
      match bs with
      | [] => .error (1, .endOfData)
      | c :: cs =>
        if low ≤ c && c ≤ high then
          (takeContinuations (startBits b more * 64 + c.toNat % 64) 2 more cs).map (·, more + 1)
        else .error (1, .continuationByte)

def decodeFrom (position : Nat) : List UInt8 → Except Utf8Fault (List Char)
  | [] => .ok []
  | b :: bs =>
    match decodeChar b bs with
    | .error (length, defect) => .error ⟨position, b, length, defect⟩
    | .ok (n, more) =>
      (decodeFrom (position + 1 + more) (bs.drop more)).map (Char.ofNat n :: ·)
termination_by bytes => bytes.length
decreasing_by simp only [List.length_cons, List.length_drop]; omega

/-- Strict decoding: a byte-order mark stays, and the first defect ends it. -/
def decodeUtf8 (bytes : List UInt8) : Except Utf8Fault (List Char) :=
  decodeFrom 0 bytes

end SumLang.Text
