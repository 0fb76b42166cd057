import Flashdeck.Text.Utf8

/-!
# Which bytes are a text

The bytes of a character are a number in one of four forms, and what makes them a character is that
the number is one and that no shorter form holds it. `followers` says so byte by byte, in ranges;
`readChar_form` says it of the number. From it, reading characters undoes writing them, so that
bytes decode to a text exactly if they are its bytes, and otherwise the fault stands where the
longest text among their beginnings ends.

* `Width`: the four forms, and `readChar_form`: which numbers are read in which form.
* `readChar_eq_ok_iff`: reading one character.
* `decode_eq_ok_iff`: the bytes of a text.
* `longestText_of_decode_eq_error`: where bytes stop being a text.
-/

namespace Flashdeck.Text

theorem toNat_ofNat {code : Nat} (valid : code.isValidChar) : (Char.ofNat code).toNat = code := by
  rw [Char.ofNat, dif_pos valid]
  rfl

namespace Utf8

/-- The byte behind a first byte that holds the last six bits of a number. -/
def continuation (n : Nat) : UInt8 :=
  .ofNat (0x80 + n % 64)

/-- The forms of a number: a byte of its own, or a first byte with one to three behind it. -/
inductive Width where
  | one
  | two
  | three
  | four
deriving DecidableEq, Repr

namespace Width

/-- The number that is just too large for the form. -/
def limit : Width → Nat
  | one => 0x80
  | two => 0x800
  | three => 0x10000
  | four => 0x200000

/-- The least number that has no shorter form. -/
def least : Width → Nat
  | one => 0
  | two => 0x80
  | three => 0x800
  | four => 0x10000

/-- The first byte of a number. -/
def lead : Width → Nat → UInt8
  | one, n => .ofNat n
  | two, n => .ofNat (0xC0 + n / 64)
  | three, n => .ofNat (0xE0 + n / 4096)
  | four, n => .ofNat (0xF0 + n / 262144)

/-- The bytes behind the first, six bits each. -/
def others : Width → Nat → List UInt8
  | one, _ => []
  | two, n => [continuation n]
  | three, n => [continuation (n / 64), continuation n]
  | four, n => [continuation (n / 4096), continuation (n / 64), continuation n]

/-- The number is too small for the form, or it is a surrogate, or it is no character at all. -/
def Misuses (width : Width) (n : Nat) : Prop :=
  n < width.least ∨ (0xD800 ≤ n ∧ n ≤ 0xDFFF) ∨ 0x10FFFF < n

instance (width : Width) (n : Nat) : Decidable (width.Misuses n) :=
  inferInstanceAs (Decidable (_ ∨ _ ∨ _))

theorem isValidChar_of_not_misuses {width : Width} {n : Nat} (proper : ¬ width.Misuses n) :
    n.isValidChar := by
  unfold Misuses at proper
  unfold Nat.isValidChar
  omega

end Width

/-! ## Bytes and ranges -/

theorem toNat_continuation (n : Nat) : (continuation n).toNat = 0x80 + n % 64 :=
  UInt8.toNat_ofNat_of_lt' (by simp only [UInt8.size]; omega)

theorem contains_continuation_iff {first last n : Nat} :
    (ByteRange.mk first last).contains (continuation n) = true ↔
      first ≤ 0x80 + n % 64 ∧ 0x80 + n % 64 ≤ last := by
  rw [ByteRange.contains, toNat_continuation, Bool.and_eq_true, decide_eq_true_iff,
    decide_eq_true_iff]

theorem continuation_congr {n m : Nat} (bits : n % 64 = m % 64) :
    continuation n = continuation m := by
  rw [continuation, bits, continuation]

/-- What follows a first byte of a value. Only the first range is ever narrower than that of all
continuations. -/
inductive Leads (b : Nat) : Option (List ByteRange) → Prop
  | one (high : b < 0x80) : Leads b (some [])
  | two (low : 0xC2 ≤ b) (high : b < 0xE0) : Leads b (some [tail])
  | three (low : 0xE0 ≤ b) (high : b < 0xF0) :
      Leads b (some [⟨if b = 0xE0 then 0xA0 else 0x80, if b = 0xED then 0x9F else 0xBF⟩, tail])
  | four (low : 0xF0 ≤ b) (high : b < 0xF5) :
      Leads b (some [⟨if b = 0xF0 then 0x90 else 0x80, if b = 0xF4 then 0x8F else 0xBF⟩, tail, tail])
  | nothing (outside : 0x80 ≤ b ∧ b < 0xC2 ∨ 0xF5 ≤ b) : Leads b none

theorem leads_followers (lead : UInt8) : Leads lead.toNat (followers lead) := by
  unfold followers
  generalize lead.toNat = b
  dsimp only
  split
  · exact .one (by omega)
  split
  · exact .nothing (.inl (by omega))
  split
  · exact .two (by omega) (by omega)
  -- The first range of three bytes is narrower behind E0 and ED, that of four behind F0 and F4.
  split
  · subst b
    exact .three (by decide) (by decide)
  split
  · subst b
    exact .three (by decide) (by decide)
  split
  · have range := @Leads.three b (by omega) (by omega)
    rwa [if_neg (by omega), if_neg (by omega)] at range
  split
  · subst b
    exact .four (by decide) (by decide)
  split
  · have range := @Leads.four b (by omega) (by omega)
    rwa [if_neg (by omega), if_neg (by omega)] at range
  split
  · subst b
    exact .four (by decide) (by decide)
  · exact .nothing (.inr (by omega))

theorem readChar_of_followers_eq_none {lead : UInt8} (none : followers lead = none)
    (bytes : List UInt8) : readChar lead bytes = .error (.invalid 1) := by
  rw [readChar, none]

theorem readChar_of_followers_eq_some {lead : UInt8} {ranges : List ByteRange}
    (some : followers lead = some ranges) (bytes : List UInt8) :
    readChar lead bytes = (readFollowers (leadPayload lead ranges.length) 1 ranges bytes).map
      fun (code, rest) => (Char.ofNat code, rest) := by
  rw [readChar, some]

theorem exists_readFollowers_eq_ok {lead : UInt8} {bytes rest : List UInt8} {c : Char}
    (read : readChar lead bytes = .ok (c, rest)) :
    ∃ ranges value code, followers lead = some ranges ∧
      readFollowers value 1 ranges bytes = .ok (code, rest) := by
  unfold readChar at read
  split at read
  · cases read
  · next ranges here =>
    cases followed : readFollowers (leadPayload lead ranges.length) 1 ranges bytes with
    | error defect =>
      rw [followed] at read
      cases read
    | ok pair =>
      rw [followed] at read
      cases read
      exact ⟨ranges, _, pair.1, here, followed⟩

/-- A byte of the range gives six bits. -/
theorem readFollowers_continuation {value length first last n : Nat}
    (inside : first ≤ 0x80 + n % 64 ∧ 0x80 + n % 64 ≤ last) (ranges : List ByteRange)
    (bytes : List UInt8) :
    readFollowers value length (⟨first, last⟩ :: ranges) (continuation n :: bytes) =
      readFollowers (64 * value + n % 64) (length + 1) ranges bytes := by
  have bits : (continuation n).toNat % 64 = n % 64 := by
    rw [toNat_continuation]
    omega
  rw [readFollowers, if_pos (contains_continuation_iff.2 inside), bits]

theorem readFollowers_of_not_inside {value length first last n : Nat}
    (outside : ¬ (first ≤ 0x80 + n % 64 ∧ 0x80 + n % 64 ≤ last)) (ranges : List ByteRange)
    (bytes : List UInt8) :
    readFollowers value length (⟨first, last⟩ :: ranges) (continuation n :: bytes) =
      .error (.invalid length) := by
  rw [readFollowers, if_neg fun inside => outside (contains_continuation_iff.1 inside)]

/-- What is read in a range is a continuation. -/
theorem exists_cons_of_readFollowers_eq_ok {value length code first last : Nat}
    {ranges : List ByteRange} {bytes rest : List UInt8} (within : 0x80 ≤ first ∧ last ≤ 0xBF)
    (read : readFollowers value length (⟨first, last⟩ :: ranges) bytes = .ok (code, rest)) :
    ∃ m others, m < 64 ∧ bytes = continuation m :: others ∧
      readFollowers (64 * value + m) (length + 1) ranges others = .ok (code, rest) := by
  cases bytes with
  | nil => cases read
  | cons byte others =>
    rw [readFollowers] at read
    split at read
    · next inside =>
      rw [ByteRange.contains, Bool.and_eq_true, decide_eq_true_iff, decide_eq_true_iff] at inside
      refine ⟨byte.toNat % 64, others, Nat.mod_lt _ (by decide), ?_, read⟩
      rw [List.cons.injEq, ← UInt8.toNat_inj, toNat_continuation]
      exact ⟨by simp only at inside; omega, rfl⟩
    · cases read

/-! ## Numbers in their forms -/

namespace Width

theorem readChar_one {n : Nat} (below : n < 0x80) (rest : List UInt8) :
    readChar (one.lead n) rest = .ok (Char.ofNat n, rest) := by
  have first : (one.lead n).toNat = n :=
    UInt8.toNat_ofNat_of_lt' (by simp only [UInt8.size]; omega)
  have leads := leads_followers (one.lead n)
  rw [first] at leads
  generalize ranges : followers (one.lead n) = found at leads
  cases leads with
  | one =>
    rw [readChar_of_followers_eq_some ranges, List.length_nil, leadPayload, if_pos rfl, first]
    rfl
  | two => omega
  | three => omega
  | four => omega
  | nothing => omega

theorem readChar_two {n : Nat} (below : n < 0x800) (rest : List UInt8) :
    readChar (two.lead n) (continuation n :: rest) =
      if two.Misuses n then .error (.invalid 1) else .ok (Char.ofNat n, rest) := by
  have first : (two.lead n).toNat = 0xC0 + n / 64 :=
    UInt8.toNat_ofNat_of_lt' (by simp only [UInt8.size]; omega)
  have leads := leads_followers (two.lead n)
  rw [first] at leads
  generalize ranges : followers (two.lead n) = found at leads
  cases leads with
  | one => omega
  | two low =>
    have proper : ¬ two.Misuses n := by
      simp only [Misuses, least]
      omega
    have value : 64 * ((0xC0 + n / 64) % 32) + n % 64 = n := by omega
    rw [readChar_of_followers_eq_some ranges, tail, readFollowers_continuation (by omega),
      if_neg proper, List.length_singleton, leadPayload, first]
    simp only [Nat.reduceSub, if_neg Nat.one_ne_zero, readFollowers, value]
    rfl
  | three => omega
  | four => omega
  | nothing =>
    have misuse : two.Misuses n := by
      simp only [Misuses, least]
      omega
    rw [readChar_of_followers_eq_none ranges, if_pos misuse]

theorem readChar_three {n : Nat} (below : n < 0x10000) (rest : List UInt8) :
    readChar (three.lead n) (continuation (n / 64) :: continuation n :: rest) =
      if three.Misuses n then .error (.invalid 1) else .ok (Char.ofNat n, rest) := by
  have first : (three.lead n).toNat = 0xE0 + n / 4096 :=
    UInt8.toNat_ofNat_of_lt' (by simp only [UInt8.size]; omega)
  have leads := leads_followers (three.lead n)
  rw [first] at leads
  generalize ranges : followers (three.lead n) = found at leads
  cases leads with
  | one => omega
  | two => omega
  | three =>
    rw [readChar_of_followers_eq_some ranges]
    by_cases misuse : three.Misuses n
    · rw [if_pos misuse, readFollowers_of_not_inside]
      · rfl
      · simp only [Misuses, least] at misuse
        split <;> split <;> omega
    · have value : 64 * (64 * ((0xE0 + n / 4096) % 16) + n / 64 % 64) + n % 64 = n := by omega
      rw [if_neg misuse, readFollowers_continuation, tail, readFollowers_continuation (by omega),
        List.length_cons, List.length_singleton, leadPayload, first]
      · simp only [Nat.reduceAdd, Nat.reduceSub, if_neg (by decide : ¬ 2 = 0), readFollowers, value]
        rfl
      · simp only [Misuses, least] at misuse
        split <;> split <;> omega
  | four => omega
  | nothing => omega

theorem readChar_four {n : Nat} (below : n < 0x200000) (rest : List UInt8) :
    readChar (four.lead n)
        (continuation (n / 4096) :: continuation (n / 64) :: continuation n :: rest) =
      if four.Misuses n then .error (.invalid 1) else .ok (Char.ofNat n, rest) := by
  have first : (four.lead n).toNat = 0xF0 + n / 262144 :=
    UInt8.toNat_ofNat_of_lt' (by simp only [UInt8.size]; omega)
  have leads := leads_followers (four.lead n)
  rw [first] at leads
  generalize ranges : followers (four.lead n) = found at leads
  cases leads with
  | one => omega
  | two => omega
  | three => omega
  | four _ high =>
    rw [readChar_of_followers_eq_some ranges]
    by_cases misuse : four.Misuses n
    · rw [if_pos misuse, readFollowers_of_not_inside]
      · rfl
      · simp only [Misuses, least] at misuse
        split <;> split <;> omega
    · have value : 64 * (64 * (64 * ((0xF0 + n / 262144) % 8) + n / 4096 % 64) + n / 64 % 64) +
          n % 64 = n := by omega
      rw [if_neg misuse, readFollowers_continuation, tail, readFollowers_continuation (by omega),
        readFollowers_continuation (by omega), List.length_cons, List.length_cons,
        List.length_singleton, leadPayload, first]
      · simp only [Nat.reduceAdd, Nat.reduceSub, if_neg (by decide : ¬ 3 = 0), readFollowers, value]
        rfl
      · simp only [Misuses, least] at misuse
        split <;> split <;> omega
  | nothing =>
    have misuse : four.Misuses n := by
      simp only [Misuses, least]
      omega
    rw [readChar_of_followers_eq_none ranges, if_pos misuse]

/-- **A number is read in a form exactly if it is a character and the form is its shortest.** All
others are refused at their first byte, though only the next one may show it. -/
theorem readChar_form (width : Width) {n : Nat} (below : n < width.limit) (rest : List UInt8) :
    readChar (width.lead n) (width.others n ++ rest) =
      if width.Misuses n then .error (.invalid 1) else .ok (Char.ofNat n, rest) := by
  cases width with
  | one =>
    have proper : ¬ one.Misuses n := by
      simp only [Misuses, least]
      simp only [limit] at below
      omega
    rw [if_neg proper]
    exact readChar_one below rest
  | two => exact readChar_two below rest
  | three => exact readChar_three below rest
  | four => exact readChar_four below rest

/-- Whatever is read is a number in one of the forms. -/
theorem exists_form_of_readChar_eq_ok {first : UInt8} {bytes rest : List UInt8} {c : Char}
    (read : readChar first bytes = .ok (c, rest)) :
    ∃ (width : Width) (n : Nat), n < width.limit ∧ first = width.lead n ∧
      bytes = width.others n ++ rest := by
  have size : ∀ {n}, n < 0x100 → (UInt8.ofNat n).toNat = n := UInt8.toNat_ofNat_of_lt'
  obtain ⟨ranges, value, code, here, followed⟩ := exists_readFollowers_eq_ok read
  have leads := leads_followers first
  rw [here] at leads
  cases leads with
  | one high =>
    cases followed
    exact ⟨one, first.toNat, high, UInt8.ofNat_toNat.symm, rfl⟩
  | two low high =>
    obtain ⟨m, others, small, rfl, ending⟩ := exists_cons_of_readFollowers_eq_ok (by decide) followed
    cases ending
    refine ⟨two, 64 * (first.toNat - 0xC0) + m, ?_, ?_, ?_⟩
    · simp only [limit]
      omega
    · rw [lead, ← UInt8.toNat_inj, size] <;> omega
    · rw [continuation_congr (by omega : m % 64 = (64 * (first.toNat - 0xC0) + m) % 64)]
      rfl
  | three low high =>
    have within : 0x80 ≤ (if first.toNat = 0xE0 then 0xA0 else 0x80) ∧
        (if first.toNat = 0xED then 0x9F else 0xBF) ≤ 0xBF := by
      split <;> split <;> omega
    obtain ⟨k, others, smaller, rfl, following⟩ := exists_cons_of_readFollowers_eq_ok within followed
    obtain ⟨m, others, small, rfl, ending⟩ :=
      exists_cons_of_readFollowers_eq_ok (by decide) following
    cases ending
    refine ⟨three, 4096 * (first.toNat - 0xE0) + 64 * k + m, ?_, ?_, ?_⟩
    · simp only [limit]
      omega
    · rw [lead, ← UInt8.toNat_inj, size] <;> omega
    · rw [Width.others, continuation_congr
          (by omega : k % 64 = (4096 * (first.toNat - 0xE0) + 64 * k + m) / 64 % 64),
        continuation_congr
          (by omega : m % 64 = (4096 * (first.toNat - 0xE0) + 64 * k + m) % 64)]
      rfl
  | four low high =>
    have within : 0x80 ≤ (if first.toNat = 0xF0 then 0x90 else 0x80) ∧
        (if first.toNat = 0xF4 then 0x8F else 0xBF) ≤ 0xBF := by
      split <;> split <;> omega
    obtain ⟨j, others, smallest, rfl, following⟩ :=
      exists_cons_of_readFollowers_eq_ok within followed
    obtain ⟨k, others, smaller, rfl, behind⟩ :=
      exists_cons_of_readFollowers_eq_ok (by decide) following
    obtain ⟨m, others, small, rfl, ending⟩ :=
      exists_cons_of_readFollowers_eq_ok (by decide) behind
    cases ending
    refine ⟨four, 262144 * (first.toNat - 0xF0) + 4096 * j + 64 * k + m, ?_, ?_, ?_⟩
    · simp only [limit]
      omega
    · rw [lead, ← UInt8.toNat_inj, size] <;> omega
    · rw [Width.others, continuation_congr (by omega :
          j % 64 = (262144 * (first.toNat - 0xF0) + 4096 * j + 64 * k + m) / 4096 % 64),
        continuation_congr (by omega :
          k % 64 = (262144 * (first.toNat - 0xF0) + 4096 * j + 64 * k + m) / 64 % 64),
        continuation_congr (by omega :
          m % 64 = (262144 * (first.toNat - 0xF0) + 4096 * j + 64 * k + m) % 64)]
      rfl

/-- Every number below U+110000 has one shortest form. -/
theorem exists_least_le {n : Nat} (below : n < 0x110000) :
    ∃ width : Width, width.least ≤ n ∧ n < width.limit := by
  rcases Nat.lt_or_ge n 0x80 with small | large
  · exact ⟨one, Nat.zero_le n, small⟩
  rcases Nat.lt_or_ge n 0x800 with small | large
  · exact ⟨two, ‹_›, small⟩
  rcases Nat.lt_or_ge n 0x10000 with small | large
  · exact ⟨three, ‹_›, small⟩
  · exact ⟨four, large, Nat.lt_trans below (by decide)⟩

/-- A character is written in its shortest form. -/
theorem utf8EncodeChar_eq {width : Width} {c : Char} (least : width.least ≤ c.toNat)
    (limit : c.toNat < width.limit) :
    String.utf8EncodeChar c = width.lead c.toNat :: width.others c.toNat := by
  have value : c.val.toNat = c.toNat := rfl
  unfold String.utf8EncodeChar
  rw [value]
  generalize c.toNat = n at least limit
  cases width with
  | one =>
    simp only [Width.limit] at limit
    dsimp only
    rw [if_pos (by omega)]
    rfl
  | two =>
    simp only [Width.least, Width.limit] at least limit
    dsimp only
    rw [if_neg (by omega), if_pos (by omega), Width.lead, Width.others, continuation,
      show n / 64 % 32 + 192 = 0xC0 + n / 64 by omega, Nat.add_comm (n % 64)]
  | three =>
    simp only [Width.least, Width.limit] at least limit
    dsimp only
    rw [if_neg (by omega), if_neg (by omega), if_pos (by omega), Width.lead, Width.others,
      continuation, continuation, show n / 4096 % 16 + 224 = 0xE0 + n / 4096 by omega,
      Nat.add_comm (n / 64 % 64), Nat.add_comm (n % 64)]
  | four =>
    simp only [Width.least, Width.limit] at least limit
    dsimp only
    rw [if_neg (by omega), if_neg (by omega), if_neg (by omega), Width.lead, Width.others,
      continuation, continuation, continuation,
      show n / 262144 % 8 + 240 = 0xF0 + n / 262144 by omega, Nat.add_comm (n / 4096 % 64),
      Nat.add_comm (n / 64 % 64), Nat.add_comm (n % 64)]

end Width

/-! ## One character -/

theorem Width.not_misuses_toNat {width : Width} {c : Char} (least : width.least ≤ c.toNat) :
    ¬ width.Misuses c.toNat := by
  have valid : c.toNat.isValidChar := c.valid
  unfold Nat.isValidChar at valid
  unfold Misuses
  omega

/-- Reading a character undoes writing it, and reads nothing else. -/
theorem readChar_eq_ok_iff {lead : UInt8} {bytes rest : List UInt8} {c : Char} :
    readChar lead bytes = .ok (c, rest) ↔ lead :: bytes = String.utf8EncodeChar c ++ rest := by
  have below : c.toNat < 0x110000 := by
    have valid : c.toNat.isValidChar := c.valid
    unfold Nat.isValidChar at valid
    omega
  apply Iff.intro
  · intro read
    obtain ⟨width, n, limit, rfl, rfl⟩ := Width.exists_form_of_readChar_eq_ok read
    rw [Width.readChar_form width limit] at read
    split at read
    · cases read
    · next proper =>
      cases read
      have number := toNat_ofNat (Width.isValidChar_of_not_misuses proper)
      have least : width.least ≤ n := Nat.not_lt.1 fun small => proper (.inl small)
      rw [Width.utf8EncodeChar_eq (by rw [number]; exact least) (by rw [number]; exact limit),
        number]
      rfl
  · intro written
    obtain ⟨width, least, limit⟩ := Width.exists_least_le below
    rw [Width.utf8EncodeChar_eq least limit, List.cons_append, List.cons.injEq] at written
    rw [written.1, written.2, Width.readChar_form width limit, if_neg (Width.not_misuses_toNat least),
      Char.ofNat_toNat]

/-! ## All characters -/

@[simp] theorem encode_nil : encode [] = [] := rfl

theorem encode_cons (c : Char) (cs : List Char) :
    encode (c :: cs) = String.utf8EncodeChar c ++ encode cs := rfl

/-- A character that can be read is read, and decoding goes on behind it. -/
theorem decodeFrom_of_readChar_eq_ok {lead : UInt8} {bytes rest : List UInt8} {c : Char}
    (read : readChar lead bytes = .ok (c, rest)) (index : Nat) :
    decodeFrom index (lead :: bytes) = (decodeFrom (index + c.utf8Size) rest).map (c :: ·) := by
  rw [decodeFrom]
  split
  · next here =>
    rw [read] at here
    cases here
  · next here =>
    rw [read] at here
    cases here
    rfl

theorem decodeFrom_of_readChar_eq_error {lead : UInt8} {bytes : List UInt8} {defect : Defect}
    (read : readChar lead bytes = .error defect) (index : Nat) :
    decodeFrom index (lead :: bytes) = .error ⟨index, defect⟩ := by
  rw [decodeFrom]
  split
  · next here =>
    rw [read] at here
    cases here
    rfl
  · next here =>
    rw [read] at here
    cases here

theorem decodeFrom_encode_append (index : Nat) (cs : List Char) (bytes : List UInt8) :
    decodeFrom index (encode cs ++ bytes) =
      (decodeFrom (index + size cs) bytes).map (cs ++ ·) := by
  induction cs generalizing index with
  | nil => cases decoded : decodeFrom index bytes <;> simp [decoded, Except.map]
  | cons c cs ih =>
    obtain ⟨lead, others, written⟩ : ∃ lead others, String.utf8EncodeChar c = lead :: others :=
      List.exists_cons_of_length_pos (String.length_utf8EncodeChar c ▸ c.utf8Size_pos)
    have read : readChar lead (others ++ (encode cs ++ bytes)) = .ok (c, encode cs ++ bytes) := by
      rw [readChar_eq_ok_iff, written, List.cons_append]
    rw [encode_cons, written, List.append_assoc, List.cons_append,
      decodeFrom_of_readChar_eq_ok read, ih, size_cons, Nat.add_assoc]
    cases decodeFrom (index + (c.utf8Size + size cs)) bytes <;> rfl

theorem decodeFrom_encode (index : Nat) (cs : List Char) :
    decodeFrom index (encode cs) = .ok cs := by
  have whole := decodeFrom_encode_append index cs []
  rwa [List.append_nil, decodeFrom, Except.map, List.append_nil] at whole

theorem decodeFrom_encode_append_cons {lead : UInt8} {rest : List UInt8} {defect : Defect}
    (read : readChar lead rest = .error defect) (index : Nat) (cs : List Char) :
    decodeFrom index (encode cs ++ lead :: rest) = .error ⟨index + size cs, defect⟩ := by
  rw [decodeFrom_encode_append, decodeFrom_of_readChar_eq_error read]
  rfl

/-- Bytes are a text, or a text with something behind it that is no character. -/
theorem exists_eq_encode_append (index : Nat) (bytes : List UInt8) :
    ∃ cs, bytes = encode cs ∨ ∃ lead rest defect, bytes = encode cs ++ lead :: rest ∧
      readChar lead rest = .error defect := by
  induction index, bytes using decodeFrom.induct with
  | case1 => exact ⟨[], .inl rfl⟩
  | case2 index lead rest defect read => exact ⟨[], .inr ⟨lead, rest, defect, rfl, read⟩⟩
  | case3 index lead bytes c rest read ih =>
    have front := readChar_eq_ok_iff.1 read
    obtain ⟨cs, text | ⟨next, behind, defect, split, stuck⟩⟩ := ih
    · exact ⟨c :: cs, .inl (by rw [front, encode_cons, text])⟩
    · refine ⟨c :: cs, .inr ⟨next, behind, defect, ?_, stuck⟩⟩
      rw [front, encode_cons, split, List.append_assoc]

/-- Bytes decode to a text exactly if they are its bytes. -/
theorem decode_eq_ok_iff {bytes : List UInt8} {cs : List Char} :
    decode bytes = .ok cs ↔ bytes = encode cs := by
  apply Iff.intro
  · intro decoded
    obtain ⟨ds, rfl | ⟨lead, rest, defect, rfl, stuck⟩⟩ := exists_eq_encode_append 0 bytes
    · rw [decode, decodeFrom_encode] at decoded
      cases decoded
      rfl
    · rw [decode, decodeFrom_encode_append_cons stuck] at decoded
      cases decoded
  · intro text
    rw [text]
    exact decodeFrom_encode 0 cs

/-! ## Where bytes stop being a text -/

/-- The first `length` bytes are a text, and no longer beginning of the bytes is one. -/
structure LongestText (bytes : List UInt8) (length : Nat) : Prop where
  text : ∃ cs, encode cs = bytes.take length
  inside : length ≤ bytes.length
  longest : ∀ cs, encode cs <+: bytes → (encode cs).length ≤ length

theorem exists_of_decodeFrom_eq_error {index : Nat} {bytes : List UInt8} {fault : Fault}
    (failed : decodeFrom index bytes = .error fault) :
    ∃ cs lead rest, bytes = encode cs ++ lead :: rest ∧
      readChar lead rest = .error fault.defect ∧ fault.index = index + size cs := by
  obtain ⟨cs, rfl | ⟨lead, rest, defect, rfl, stuck⟩⟩ := exists_eq_encode_append 0 bytes
  · rw [decodeFrom_encode] at failed
    cases failed
  · rw [decodeFrom_encode_append_cons stuck] at failed
    cases failed
    exact ⟨cs, lead, rest, rfl, stuck, rfl⟩

/-- The fault of bytes stands behind the longest text that they begin with. -/
theorem longestText_of_decode_eq_error {bytes : List UInt8} {fault : Fault}
    (failed : decode bytes = .error fault) : LongestText bytes fault.index where
  text := by
    obtain ⟨cs, lead, rest, rfl, -, index⟩ := exists_of_decodeFrom_eq_error failed
    refine ⟨cs, ?_⟩
    rw [index, Nat.zero_add, ← length_encode, List.take_left]
  inside := by
    obtain ⟨cs, lead, rest, rfl, -, index⟩ := exists_of_decodeFrom_eq_error failed
    rw [index, Nat.zero_add, ← length_encode, List.length_append]
    exact Nat.le_add_right _ _
  longest := by
    intro ds begins
    obtain ⟨behind, rfl⟩ := begins
    -- Decoding passes over the text, so that the fault is one of what stands behind it.
    rw [decode, decodeFrom_encode_append, Nat.zero_add] at failed
    cases decoded : decodeFrom (size ds) behind with
    | ok text =>
      rw [decoded] at failed
      cases failed
    | error fault' =>
      rw [decoded] at failed
      cases failed
      obtain ⟨cs, -, -, -, -, index⟩ := exists_of_decodeFrom_eq_error decoded
      rw [index, length_encode]
      exact Nat.le_add_right _ _

theorem LongestText.unique {bytes : List UInt8} {length length' : Nat}
    (first : LongestText bytes length) (second : LongestText bytes length') : length = length' := by
  have atMost : ∀ {length length'}, LongestText bytes length → LongestText bytes length' →
      length ≤ length' := by
    intro length length' first second
    obtain ⟨cs, text⟩ := first.text
    have bound := second.longest cs (by rw [text]; exact List.take_prefix _ _)
    rwa [text, List.length_take, Nat.min_eq_left first.inside] at bound
  exact Nat.le_antisymm (atMost first second) (atMost second first)

/-- A number that misuses a form is refused where it begins. -/
theorem decode_form {width : Width} {n : Nat} (below : n < width.limit) (misuse : width.Misuses n)
    (before : List Char) (rest : List UInt8) :
    decode (encode before ++ width.lead n :: (width.others n ++ rest)) =
      .error ⟨size before, .invalid 1⟩ := by
  have stuck := Width.readChar_form width below rest
  rw [if_pos misuse] at stuck
  rw [decode, decodeFrom_encode_append_cons stuck, Nat.zero_add]

/-- An overlong quotation mark, and half of a pair of surrogates. -/
example : decode [0x61, 0xC0, 0xA2] = .error ⟨1, .invalid 1⟩ ∧
    decode [0xED, 0xA0, 0x80] = .error ⟨0, .invalid 1⟩ := by
  exact ⟨@decode_form .two 0x22 (by decide) (by decide) ['a'] [],
    @decode_form .three 0xD800 (by decide) (by decide) [] []⟩

end Utf8

end Flashdeck.Text
