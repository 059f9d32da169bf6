/-!
Bytes as UTF-8 text, read strictly or with replacement characters. Both readings walk the same
pieces: a well-formed character, the longest start of one that the next byte breaks off, or a start
that the end of the bytes cuts short.
-/

set_option autoImplicit false

namespace HalLink.Utf8

def encode (s : String) : List UInt8 := s.toList.flatMap String.utf8EncodeChar

/-- What a first byte announces: how many bytes follow it, which values the first of those may
take, and the bits of the code point it holds itself. -/
structure Lead where
  tails : Nat
  low : Nat
  high : Nat
  bits : Nat

/-- The narrowed ranges after E0, ED, F0 and F4 keep out overlong forms, surrogates and code points
above U+10FFFF. -/
def lead? (b : Nat) : Option Lead :=
  if b < 0x80 then some ⟨0, 0x80, 0xBF, b⟩
  else if b < 0xC2 then none
  else if b < 0xE0 then some ⟨1, 0x80, 0xBF, b - 0xC0⟩
  else if b = 0xE0 then some ⟨2, 0xA0, 0xBF, b - 0xE0⟩
  else if b = 0xED then some ⟨2, 0x80, 0x9F, b - 0xE0⟩
  else if b < 0xF0 then some ⟨2, 0x80, 0xBF, b - 0xE0⟩
  else if b = 0xF0 then some ⟨3, 0x90, 0xBF, b - 0xF0⟩
  else if b < 0xF4 then some ⟨3, 0x80, 0xBF, b - 0xF0⟩
  else if b = 0xF4 then some ⟨3, 0x80, 0x8F, b - 0xF0⟩
  else none

inductive Piece where
  | char (c : Char) (rest : List UInt8)
  | broken (length : Nat) (rest : List UInt8)
  | cut

/-- Reads the bytes that `lead` announces; `code` and `used` count what is read already. -/
def readTails (low high : Nat) : Nat → Nat → Nat → List UInt8 → Piece
  | 0, code, _, rest => .char (Char.ofNat code) rest
  | _ + 1, _, _, [] => .cut
  | n + 1, code, used, b :: rest =>
    if low ≤ b.toNat ∧ b.toNat ≤ high then
      readTails 0x80 0xBF n (code * 64 + b.toNat % 64) (used + 1) rest
    else .broken used (b :: rest)

def piece (b : UInt8) (rest : List UInt8) : Piece :=
  match lead? b.toNat with
  | none => .broken 1 rest
  | some lead => readTails lead.low lead.high lead.tails lead.bits 1 rest

def Piece.rest : Piece → List UInt8
  | .char _ rest | .broken _ rest => rest
  | .cut => []

theorem rest_readTails_le (low high n code used : Nat) (bytes : List UInt8) :
    (readTails low high n code used bytes).rest.length ≤ bytes.length := by
  induction n generalizing low high code used bytes with
  | zero => simp [readTails, Piece.rest]
  | succ n ih =>
    cases bytes with
    | nil => simp [readTails, Piece.rest]
    | cons b rest =>
      simp only [readTails]
      split
      · exact Nat.le_trans (ih ..) (Nat.le_succ _)
      · simp [Piece.rest]

theorem rest_piece_le (b : UInt8) (rest : List UInt8) :
    (piece b rest).rest.length ≤ rest.length := by
  unfold piece
  split
  · simp [Piece.rest]
  · exact rest_readTails_le ..

/-- Where strict reading stops: the length of the text before it, and how many bytes the broken
piece has; no length when the bytes end inside a character. -/
structure Fault where
  validUpTo : Nat
  length : Option Nat
  deriving DecidableEq, Repr

def Fault.message (f : Fault) : String :=
  let start := toString f.validUpTo
  match f.length with
  | some n => "invalid utf-8 sequence of " ++ toString n ++ " bytes from index " ++ start
  | none => "incomplete utf-8 byte sequence from index " ++ start

def decodeFrom (offset : Nat) : List UInt8 → Except Fault (List Char)
  | [] => .ok []
  | b :: bytes =>
    match h : piece b bytes with
    | .char c rest =>
      have : rest.length ≤ bytes.length := by simpa [h, Piece.rest] using rest_piece_le b bytes
      (decodeFrom (offset + c.utf8Size) rest).map (c :: ·)
    | .broken n _ => .error ⟨offset, some n⟩
    | .cut => .error ⟨offset, none⟩
termination_by bytes => bytes.length
decreasing_by simp only [List.length_cons]; omega

def decodeLossyChars : List UInt8 → List Char
  | [] => []
  | b :: bytes =>
    match h : piece b bytes with
    | .char c rest =>
      have : rest.length ≤ bytes.length := by simpa [h, Piece.rest] using rest_piece_le b bytes
      c :: decodeLossyChars rest
    | .broken _ rest =>
      have : rest.length ≤ bytes.length := by simpa [h, Piece.rest] using rest_piece_le b bytes
      '\uFFFD' :: decodeLossyChars rest
    | .cut => ['\uFFFD']
termination_by bytes => bytes.length
decreasing_by all_goals simp only [List.length_cons]; omega

def decode (bytes : List UInt8) : Except Fault String :=
  (decodeFrom 0 bytes).map String.ofList

def decodeLossy (bytes : List UInt8) : String := String.ofList (decodeLossyChars bytes)

end HalLink.Utf8
