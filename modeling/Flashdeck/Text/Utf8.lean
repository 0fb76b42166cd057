/-!
# UTF-8

Texts as bytes. `encode` writes a text as UTF-8, `decode` reads it back and says where and how the
bytes stop being UTF-8. `size` and `dropBytes` measure and cut a text in bytes, the unit of every
offset that the library reports.
-/

namespace Flashdeck.Text.Utf8

/-- The number of bytes of a text in UTF-8. -/
def size : List Char → Nat
  | [] => 0
  | c :: cs => c.utf8Size + size cs

/-- The text behind the first `n` bytes; none where the cut falls inside a character or behind the
end of the text. -/
def dropBytes : Nat → List Char → Option (List Char)
  | 0, cs => some cs
  | _ + 1, [] => none
  | n + 1, c :: cs => if c.utf8Size ≤ n + 1 then dropBytes (n + 1 - c.utf8Size) cs else none

/-- The bytes of a text. -/
def encode (cs : List Char) : List UInt8 :=
  cs.flatMap String.utf8EncodeChar

/-- A range of byte values, ends included. -/
structure ByteRange where
  first : Nat
  last : Nat
deriving DecidableEq, Repr

def ByteRange.contains (range : ByteRange) (byte : UInt8) : Bool :=
  range.first ≤ byte.toNat && byte.toNat ≤ range.last

/-- The bytes that continue a character. -/
def tail : ByteRange := ⟨0x80, 0xBF⟩

/-- What must follow a first byte, a range per byte; none for a byte that begins no character. The
narrower ranges keep out overlong forms, surrogates and values above U+10FFFF. -/
def followers (lead : UInt8) : Option (List ByteRange) :=
  let b := lead.toNat
  if b ≤ 0x7F then some []
  else if b < 0xC2 then none
  else if b ≤ 0xDF then some [tail]
  else if b = 0xE0 then some [⟨0xA0, 0xBF⟩, tail]
  else if b = 0xED then some [⟨0x80, 0x9F⟩, tail]
  else if b ≤ 0xEF then some [tail, tail]
  else if b = 0xF0 then some [⟨0x90, 0xBF⟩, tail, tail]
  else if b ≤ 0xF3 then some [tail, tail, tail]
  else if b = 0xF4 then some [⟨0x80, 0x8F⟩, tail, tail]
  else none

/-- The payload of a first byte that `n` bytes follow. -/
def leadPayload (lead : UInt8) (n : Nat) : Nat :=
  if n = 0 then lead.toNat else lead.toNat % Nat.pow 2 (6 - n)

/-- Why a character cannot be read. -/
inductive Defect where
  /-- The bytes end inside a character that is valid so far. -/
  | incomplete
  /-- The first `length` bytes are as far as the character is valid; one byte at the least. -/
  | invalid (length : Nat)
deriving DecidableEq, Repr

/-- Reads one byte in each of the ranges, six bits each onto `value`. `length` bytes of the
character were read before. -/
def readFollowers (value length : Nat) :
    List ByteRange → List UInt8 → Except Defect (Nat × List UInt8)
  | [], bytes => .ok (value, bytes)
  | _ :: _, [] => .error .incomplete
  | range :: ranges, byte :: bytes =>
    if range.contains byte then
      readFollowers (64 * value + byte.toNat % 64) (length + 1) ranges bytes
    else .error (.invalid length)

/-- Reads one character that begins with `lead`. -/
def readChar (lead : UInt8) (bytes : List UInt8) : Except Defect (Char × List UInt8) :=
  match followers lead with
  | none => .error (.invalid 1)
  | some ranges =>
    (readFollowers (leadPayload lead ranges.length) 1 ranges bytes).map
      fun (code, rest) => (Char.ofNat code, rest)

/-- The place where bytes stop being UTF-8, and how. -/
structure Fault where
  /-- The number of bytes before the character that cannot be read. -/
  index : Nat
  defect : Defect
deriving DecidableEq, Repr

/-- The fault in words. -/
def Fault.message (fault : Fault) : String :=
  match fault.defect with
  | .incomplete => "incomplete utf-8 byte sequence from index " ++ toString fault.index
  | .invalid length =>
    "invalid utf-8 sequence of " ++ toString length ++ " bytes from index " ++ toString fault.index

theorem length_le_of_readFollowers {value length code : Nat} {ranges : List ByteRange}
    {bytes rest : List UInt8} (read : readFollowers value length ranges bytes = .ok (code, rest)) :
    rest.length ≤ bytes.length := by
  induction ranges generalizing value length bytes with
  | nil => simp only [readFollowers, Except.ok.injEq, Prod.mk.injEq] at read; simp [read.2]
  | cons range ranges ih =>
    cases bytes with
    | nil => simp [readFollowers] at read
    | cons byte bytes =>
      rw [readFollowers] at read
      split at read
      · have shorter := ih read
        simp only [List.length_cons]
        omega
      · cases read

theorem length_le_of_readChar {lead : UInt8} {bytes rest : List UInt8} {c : Char}
    (read : readChar lead bytes = .ok (c, rest)) : rest.length ≤ bytes.length := by
  unfold readChar at read
  split at read
  · cases read
  · next ranges _ =>
    cases followed : readFollowers (leadPayload lead ranges.length) 1 ranges bytes with
    | error defect => rw [followed] at read; cases read
    | ok pair =>
      obtain ⟨code, left⟩ := pair
      rw [followed] at read
      cases read
      exact length_le_of_readFollowers followed

/-- Reads characters to the end; `index` bytes were read before. -/
def decodeFrom (index : Nat) (bytes : List UInt8) : Except Fault (List Char) :=
  match bytes with
  | [] => .ok []
  | lead :: bytes =>
    match _read : readChar lead bytes with
    | .error defect => .error ⟨index, defect⟩
    | .ok (c, rest) => (decodeFrom (index + c.utf8Size) rest).map (c :: ·)
termination_by bytes.length
decreasing_by
  have shorter := length_le_of_readChar _read
  simp only [List.length_cons]
  omega

/-- The text that bytes encode, or the first place where they are not UTF-8. -/
def decode (bytes : List UInt8) : Except Fault (List Char) :=
  decodeFrom 0 bytes

@[simp] theorem size_nil : size [] = 0 := rfl

@[simp] theorem size_cons (c : Char) (cs : List Char) : size (c :: cs) = c.utf8Size + size cs := rfl

@[simp] theorem size_append (cs ds : List Char) : size (cs ++ ds) = size cs + size ds := by
  induction cs with
  | nil => simp
  | cons c cs ih => simp [ih, Nat.add_assoc]

/-- The bytes of a text are as many as its size. -/
theorem length_encode (cs : List Char) : (encode cs).length = size cs := by
  induction cs with
  | nil => rfl
  | cons c cs ih =>
    rw [encode, List.flatMap_cons, List.length_append, String.length_utf8EncodeChar, size_cons,
      ← ih, encode]

/-- A cut at the end of a leading part gives what follows it. -/
theorem dropBytes_size_append (cs ds : List Char) : dropBytes (size cs) (cs ++ ds) = some ds := by
  induction cs with
  | nil => rw [size_nil, dropBytes, List.nil_append]
  | cons c cs ih =>
    obtain ⟨n, eq⟩ : ∃ n, size (c :: cs) = n + 1 :=
      ⟨size (c :: cs) - 1, by have := c.utf8Size_pos; simp only [size_cons]; omega⟩
    rw [eq, List.cons_append, dropBytes, ← eq, size_cons, if_pos (Nat.le_add_right _ _),
      Nat.add_sub_cancel_left, ih]

/-- A cut that gives something falls at the end of a leading part. -/
theorem eq_append_of_dropBytes {n : Nat} {cs rest : List Char}
    (cut : dropBytes n cs = some rest) : ∃ before, cs = before ++ rest ∧ size before = n := by
  induction cs generalizing n with
  | nil =>
    cases n with
    | zero => rw [dropBytes] at cut; cases cut; exact ⟨[], rfl, rfl⟩
    | succ n => simp [dropBytes] at cut
  | cons c cs ih =>
    cases n with
    | zero => rw [dropBytes] at cut; cases cut; exact ⟨[], rfl, rfl⟩
    | succ n =>
      rw [dropBytes] at cut
      split at cut
      · next fits =>
        obtain ⟨before, rfl, measure⟩ := ih cut
        exact ⟨c :: before, rfl, by rw [size_cons, measure]; omega⟩
      · cases cut

end Flashdeck.Text.Utf8
