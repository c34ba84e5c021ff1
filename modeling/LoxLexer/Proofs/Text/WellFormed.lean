/-
Which bytes are the UTF-8 form of a text.

A first byte announces how many bytes a character has, and the continuation
bytes behind it have six bits each; together they hold a number (`Holds`).
More bytes hold numbers than there are characters: they are the form of one
just when the number needs all of them and is that of a character
(`exists_utf8EncodeChar_iff`).

# Faults

Bytes that do not begin with the form of a character begin with a fault, of
which there are six kinds (`Flawed`), and those that begin with one do not
(`begins_or_flawed`, `Flawed.not_begins`). So any bytes are the form of a text
up to their end or up to a fault, and never both (`forall_utf8_ne_iff`).

# The table

The same said without numbers: `sequences` lists the ranges of the bytes.
Behind E0, ED, F0 and F4 the second byte has a range of its own, which is all
that keeps out what is too long, the surrogates, and what lies behind the last
character (`isSequence_iff`). Sequences of the table laid end to end are the
form of a text, and nothing else is (`wellFormed_iff`).
-/
import LoxLexer.Proofs.Text.Encoding

namespace LoxLexer

-- ======================================================= the form of a text

/-- The UTF-8 form of some characters. -/
def utf8 (text : List Char) : List UInt8 := text.flatMap String.utf8EncodeChar

@[simp] theorem utf8_nil : utf8 [] = [] := rfl

@[simp] theorem utf8_cons (c : Char) (text : List Char) :
    utf8 (c :: text) = String.utf8EncodeChar c ++ utf8 text := rfl

@[simp] theorem utf8_append (text more : List Char) :
    utf8 (text ++ more) = utf8 text ++ utf8 more := List.flatMap_append

/-- A text is made of the bytes of its form. -/
theorem toUTF8_ofList_eq_iff {text : List Char} {bytes : ByteArray} :
    (String.ofList text).toUTF8 = bytes ↔ utf8 text = bytes.data.toList := by
  rw [String.toUTF8_eq_toByteArray, String.toByteArray_ofList, List.utf8Encode,
    ByteArray.ext_iff, List.data_toByteArray, ← Array.toList_inj,
    List.toList_toArray, utf8]

/-- The form of a text, each byte as the character of its number. -/
theorem map_ofUInt8_utf8 (text : List Char) :
    (utf8 text).map Char.ofUInt8 = encode text := List.map_flatMap

/-- A text whose form begins with that of another begins with it. Forms are
read from the front, character by character, and in one way only. -/
theorem isPrefix_of_utf8 {text more : List Char} (h : utf8 text <+: utf8 more) :
    text <+: more := by
  apply isPrefix_of_encode
  rw [← map_ofUInt8_utf8, ← map_ofUInt8_utf8]
  exact h.map Char.ofUInt8

/-- No bytes are the form of two texts. -/
theorem utf8_injective {text other : List Char} (h : utf8 text = utf8 other) :
    text = other := by
  have hpre : text <+: other := isPrefix_of_utf8 (h ▸ List.prefix_rfl)
  have hback : other <+: text := isPrefix_of_utf8 (h ▸ List.prefix_rfl)
  exact hpre.eq_of_length_le hback.length_le

namespace Utf8

-- ======================================================= shapes and numbers

/-- Whether a byte continues a character: `10` in binary, and six bits of the
number behind it. -/
def Continues (b : UInt8) : Prop := 0x80 ≤ b.toNat ∧ b.toNat < 0xC0

/-- How many bytes a first byte announces, itself included, by the ones it
begins with in binary. A continuation byte and the bytes from F8 on announce
none. -/
def announced (first : UInt8) : Nat :=
  if first.toNat < 0x80 then 1
  else if first.toNat < 0xC0 then 0
  else if first.toNat < 0xE0 then 2
  else if first.toNat < 0xF0 then 3
  else if first.toNat < 0xF8 then 4
  else 0

/-- The number that a first byte and continuation bytes hold: the bits of the
first that are not spent on the announcement, and six of each other. -/
inductive Holds : UInt8 → List UInt8 → Nat → Prop where
  | one {first : UInt8} (h : first.toNat < 0x80) : Holds first [] first.toNat
  | two {first b : UInt8} (h : 0xC0 ≤ first.toNat ∧ first.toNat < 0xE0)
      (hb : Continues b) :
      Holds first [b] (first.toNat % 0x20 * 0x40 + b.toNat % 0x40)
  | three {first b c : UInt8} (h : 0xE0 ≤ first.toNat ∧ first.toNat < 0xF0)
      (hb : Continues b) (hc : Continues c) :
      Holds first [b, c]
        ((first.toNat % 0x10 * 0x40 + b.toNat % 0x40) * 0x40 + c.toNat % 0x40)
  | four {first b c d : UInt8} (h : 0xF0 ≤ first.toNat ∧ first.toNat < 0xF8)
      (hb : Continues b) (hc : Continues c) (hd : Continues d) :
      Holds first [b, c, d]
        (((first.toNat % 0x08 * 0x40 + b.toNat % 0x40) * 0x40 + c.toNat % 0x40) * 0x40
          + d.toNat % 0x40)

/-- The least number that needs so many bytes. Bytes that hold a lower one are
too long for it, and not the form of any character. -/
def leastNumber : Nat → Nat
  | 2 => 0x80
  | 3 => 0x800
  | 4 => 0x10000
  | _ => 0

variable {first : UInt8} {behind rest : List UInt8} {n : Nat}

/-- A first byte lies in the range for as many bytes as it announces. -/
theorem announced_cases (first : UInt8) :
    (announced first = 1 ∧ first.toNat < 0x80)
      ∨ (announced first = 0 ∧ 0x80 ≤ first.toNat ∧ first.toNat < 0xC0)
      ∨ (announced first = 2 ∧ 0xC0 ≤ first.toNat ∧ first.toNat < 0xE0)
      ∨ (announced first = 3 ∧ 0xE0 ≤ first.toNat ∧ first.toNat < 0xF0)
      ∨ (announced first = 4 ∧ 0xF0 ≤ first.toNat ∧ first.toNat < 0xF8)
      ∨ (announced first = 0 ∧ 0xF8 ≤ first.toNat) := by
  unfold announced
  split_ifs
  all_goals omega

/-- What holds a number is as long as announced. -/
theorem Holds.announced_eq (h : Holds first behind n) :
    announced first = behind.length + 1 := by
  have hcases := announced_cases first
  cases h with
  | one h | two h | three h | four h =>
      simp only [List.length_cons, List.length_nil]
      omega

theorem Holds.continues (h : Holds first behind n) : ∀ b ∈ behind, Continues b := by
  cases h with
  | one => simp
  | two _ hb => simp [hb]
  | three _ hb hc => simp [hb, hc]
  | four _ hb hc hd => simp [hb, hc, hd]

/-- As many continuation bytes as announced hold a number, which may still be
too small for them, or no number of a character. -/
theorem exists_holds (hlength : announced first = behind.length + 1)
    (hbehind : ∀ b ∈ behind, Continues b) : ∃ n, Holds first behind n := by
  have hcases := announced_cases first
  match behind with
  | [] =>
      have hone : announced first = 1 := hlength
      exact ⟨_, .one (by omega)⟩
  | [b] =>
      have htwo : announced first = 2 := hlength
      exact ⟨_, .two (by omega) (hbehind b (by simp))⟩
  | [b, c] =>
      have hthree : announced first = 3 := hlength
      exact ⟨_, .three (by omega) (hbehind b (by simp)) (hbehind c (by simp))⟩
  | [b, c, d] =>
      have hfour : announced first = 4 := hlength
      exact ⟨_, .four (by omega) (hbehind b (by simp)) (hbehind c (by simp))
        (hbehind d (by simp))⟩
  | _ :: _ :: _ :: _ :: more =>
      have hmore : announced first = more.length + 5 := hlength
      omega

-- =================================================== the form of a character

/-- A number that fits into a byte is that of a byte. -/
private theorem exists_byte {n : Nat} (h : n < 256) :
    ∃ b : UInt8, UInt8.ofNat n = b ∧ b.toNat = n :=
  ⟨_, rfl, UInt8.toNat_ofNat_of_lt h⟩

/-- The form of a character holds its number, and nothing shorter would. One
case for each length: the bytes are cut from the number by division, and put
together they are the number again. -/
theorem exists_holds_toNat (c : Char) :
    ∃ first behind, String.utf8EncodeChar c = first :: behind
      ∧ Holds first behind c.toNat ∧ leastNumber (behind.length + 1) ≤ c.toNat := by
  have hval : c.val.toNat = c.toNat := rfl
  have hlast : c.toNat < 0x110000 := by
    have := c.valid
    unfold UInt32.isValidChar Nat.isValidChar at this
    omega
  unfold String.utf8EncodeChar
  rw [hval]
  dsimp only
  split_ifs with hone htwo hthree
  · obtain ⟨first, hfirst, hn⟩ := exists_byte (n := c.toNat) (by omega)
    refine ⟨first, [], by rw [hfirst], ?_, Nat.zero_le _⟩
    rw [← hn]
    exact .one (by omega)
  · obtain ⟨first, hfirst, hn⟩ := exists_byte (n := c.toNat / 64 % 32 + 192) (by omega)
    obtain ⟨b, hb, hbn⟩ := exists_byte (n := c.toNat % 64 + 128) (by omega)
    refine ⟨first, [b], by rw [hfirst, hb], ?_, show 0x80 ≤ _ by omega⟩
    have hnumber : c.toNat = first.toNat % 0x20 * 0x40 + b.toNat % 0x40 := by omega
    rw [hnumber]
    exact .two (by omega) (by unfold Continues; omega)
  · obtain ⟨first, hfirst, hn⟩ := exists_byte (n := c.toNat / 4096 % 16 + 224) (by omega)
    obtain ⟨b, hb, hbn⟩ := exists_byte (n := c.toNat / 64 % 64 + 128) (by omega)
    obtain ⟨d, hd, hdn⟩ := exists_byte (n := c.toNat % 64 + 128) (by omega)
    refine ⟨first, [b, d], by rw [hfirst, hb, hd], ?_, show 0x800 ≤ _ by omega⟩
    have hnumber : c.toNat
        = (first.toNat % 0x10 * 0x40 + b.toNat % 0x40) * 0x40 + d.toNat % 0x40 := by omega
    rw [hnumber]
    exact .three (by omega) (by unfold Continues; omega) (by unfold Continues; omega)
  · obtain ⟨first, hfirst, hn⟩ := exists_byte (n := c.toNat / 262144 % 8 + 240) (by omega)
    obtain ⟨b, hb, hbn⟩ := exists_byte (n := c.toNat / 4096 % 64 + 128) (by omega)
    obtain ⟨d, hd, hdn⟩ := exists_byte (n := c.toNat / 64 % 64 + 128) (by omega)
    obtain ⟨e, he, hen⟩ := exists_byte (n := c.toNat % 64 + 128) (by omega)
    refine ⟨first, [b, d, e], by rw [hfirst, hb, hd, he], ?_, show 0x10000 ≤ _ by omega⟩
    have hnumber : c.toNat
        = ((first.toNat % 0x08 * 0x40 + b.toNat % 0x40) * 0x40 + d.toNat % 0x40) * 0x40
          + e.toNat % 0x40 := by omega
    rw [hnumber]
    exact .four (by omega) (by unfold Continues; omega) (by unfold Continues; omega)
      (by unfold Continues; omega)

private theorem ofNat_eq {b : UInt8} (h : b.toNat = n) : UInt8.ofNat n = b := by
  rw [← h, UInt8.ofNat_toNat]

/-- What holds the number of a character, and is not too long for it, is its
form. -/
theorem utf8EncodeChar_of_holds {c : Char} (h : Holds first behind c.toNat)
    (hleast : leastNumber (behind.length + 1) ≤ c.toNat) :
    String.utf8EncodeChar c = first :: behind := by
  have hval : c.val.toNat = c.toNat := rfl
  unfold String.utf8EncodeChar
  rw [hval]
  generalize c.toNat = n at h hleast
  dsimp only
  cases h with
  | one h =>
      rw [if_pos (by omega), ofNat_eq rfl]
  | @two b h hb =>
      unfold Continues at hb
      change 0x80 ≤ _ at hleast
      rw [if_neg (by omega), if_pos (by omega), ofNat_eq (b := first) (by omega),
        ofNat_eq (b := b) (by omega)]
  | @three b d h hb hd =>
      unfold Continues at hb hd
      change 0x800 ≤ _ at hleast
      rw [if_neg (by omega), if_neg (by omega), if_pos (by omega),
        ofNat_eq (b := first) (by omega), ofNat_eq (b := b) (by omega),
        ofNat_eq (b := d) (by omega)]
  | @four b d e h hb hd he =>
      unfold Continues at hb hd he
      change 0x10000 ≤ _ at hleast
      rw [if_neg (by omega), if_neg (by omega), if_neg (by omega),
        ofNat_eq (b := first) (by omega), ofNat_eq (b := b) (by omega),
        ofNat_eq (b := d) (by omega), ofNat_eq (b := e) (by omega)]

/-- Bytes are the form of a character just when they hold its number and are
not too long for it. -/
theorem exists_utf8EncodeChar_iff :
    (∃ c, String.utf8EncodeChar c = first :: behind)
      ↔ ∃ n, Holds first behind n ∧ leastNumber (behind.length + 1) ≤ n ∧ n.isValidChar := by
  constructor
  · rintro ⟨c, hc⟩
    obtain ⟨first', behind', hform, hholds, hleast⟩ := exists_holds_toNat c
    rw [hc] at hform
    obtain ⟨rfl, rfl⟩ := List.cons.inj hform
    exact ⟨c.toNat, hholds, hleast, c.valid⟩
  · rintro ⟨n, hholds, hleast, hvalid⟩
    exact ⟨Char.ofNatAux n hvalid, utf8EncodeChar_of_holds hholds hleast⟩

-- ===================================================================== faults

/-- What bytes begin with that do not begin with the form of a character. The
kinds exclude one another as they are asked for in turn: the first byte, the
bytes behind it, and the number that they hold. -/
inductive Flawed : List UInt8 → Prop where
  /-- A continuation byte without a first one. -/
  | stray {first : UInt8} (h : Continues first) (rest : List UInt8) :
      Flawed (first :: rest)
  /-- A byte that stands in no character. -/
  | unused {first : UInt8} (h : 0xF8 ≤ first.toNat) (rest : List UInt8) :
      Flawed (first :: rest)
  /-- A first byte and fewer continuation bytes than it announces. -/
  | truncated {first : UInt8} {behind rest : List UInt8}
      (h : behind.length + 1 < announced first) (hbehind : ∀ b ∈ behind, Continues b)
      (hrest : ∀ b, rest.head? = some b → ¬ Continues b) :
      Flawed (first :: (behind ++ rest))
  /-- A number in more bytes than it needs. -/
  | overlong {first : UInt8} {behind : List UInt8} {n : Nat} (h : Holds first behind n)
      (hn : n < leastNumber (behind.length + 1)) (rest : List UInt8) :
      Flawed (first :: (behind ++ rest))
  /-- A number kept for pairs of UTF-16. -/
  | surrogate {first : UInt8} {behind : List UInt8} {n : Nat} (h : Holds first behind n)
      (hn : 0xD800 ≤ n ∧ n ≤ 0xDFFF) (rest : List UInt8) :
      Flawed (first :: (behind ++ rest))
  /-- A number behind that of the last character. -/
  | beyond {first : UInt8} {behind : List UInt8} {n : Nat} (h : Holds first behind n)
      (hn : 0x10FFFF < n) (rest : List UInt8) :
      Flawed (first :: (behind ++ rest))

/-- Continuation bytes at the front, as many as are looked for or all there
are. -/
theorem exists_behind (count : Nat) (bytes : List UInt8) :
    ∃ behind rest, bytes = behind ++ rest ∧ (∀ b ∈ behind, Continues b)
      ∧ (behind.length = count
        ∨ behind.length < count ∧ ∀ b, rest.head? = some b → ¬ Continues b) := by
  induction count generalizing bytes with
  | zero => exact ⟨[], bytes, rfl, by simp, .inl rfl⟩
  | succ count ih =>
      cases bytes with
      | nil => exact ⟨[], [], rfl, by simp, .inr ⟨by simp, by simp⟩⟩
      | cons b bytes =>
          by_cases hb : Continues b
          · obtain ⟨behind, rest, rfl, hbehind, hlength⟩ := ih bytes
            refine ⟨b :: behind, rest, rfl, ?_, ?_⟩
            · rintro d (_ | ⟨_, hd⟩)
              · exact hb
              · exact hbehind d hd
            · simpa using hlength
          · refine ⟨[], b :: bytes, rfl, by simp, .inr ⟨by simp, ?_⟩⟩
            intro d hd
            cases hd
            exact hb

/-- Bytes begin with the form of a character, or with a fault. The kind of the
fault is found as a decoder finds it, by what the first byte announces. -/
theorem begins_or_flawed (first : UInt8) (bytes : List UInt8) :
    (∃ c rest, first :: bytes = String.utf8EncodeChar c ++ rest)
      ∨ Flawed (first :: bytes) := by
  have hcases := announced_cases first
  obtain ⟨behind, rest, rfl, hbehind, hlength⟩ := exists_behind (announced first - 1) bytes
  by_cases hnone : announced first = 0
  · right
    by_cases hfirst : Continues first
    · exact .stray hfirst _
    · unfold Continues at hfirst
      exact .unused (by omega) _
  · rcases hlength with hlength | ⟨hlength, hrest⟩
    · -- all that was announced is there, so it is a matter of the number
      have hannounced : announced first = behind.length + 1 := by omega
      obtain ⟨n, hn⟩ := exists_holds hannounced hbehind
      by_cases hshort : n < leastNumber (behind.length + 1)
      · exact .inr (.overlong hn hshort rest)
      · by_cases hvalid : n.isValidChar
        · obtain ⟨c, hc⟩ := exists_utf8EncodeChar_iff.2 ⟨n, hn, by omega, hvalid⟩
          exact .inl ⟨c, rest, by rw [hc]; rfl⟩
        · unfold Nat.isValidChar at hvalid
          by_cases hlast : 0x10FFFF < n
          · exact .inr (.beyond hn hlast rest)
          · exact .inr (.surrogate hn (by omega) rest)
    · exact .inr (.truncated (by omega) hbehind hrest)

/-- What follows does not change which bytes hold a number, and which number:
the first byte says how many they are. -/
theorem Holds.eq_of_append {behind' rest' : List UInt8} {m : Nat}
    (h : Holds first behind n) (h' : Holds first behind' m)
    (heq : behind ++ rest = behind' ++ rest') : behind = behind' ∧ n = m := by
  have hlength : behind.length = behind'.length := by
    have := h.announced_eq
    have := h'.announced_eq
    omega
  obtain ⟨rfl, -⟩ := List.append_inj heq hlength
  refine ⟨rfl, ?_⟩
  cases h with
  | one | two | three | four =>
      cases h'
      rfl

/-- No fault stands where the form of a character begins. Each kind of fault is
held against what the form has: the first byte that it announces, enough
continuation bytes, and a number of the right size. -/
theorem Flawed.not_begins {bytes : List UInt8} (h : Flawed bytes) (c : Char)
    (after : List UInt8) : bytes ≠ String.utf8EncodeChar c ++ after := by
  obtain ⟨first', behind', hform, hholds, hleast⟩ := exists_holds_toNat c
  have hcases := announced_cases first'
  have hannounced := hholds.announced_eq
  intro heq
  rw [hform, List.cons_append] at heq
  cases h with
  | stray h =>
      obtain ⟨rfl, -⟩ := List.cons.inj heq
      unfold Continues at h
      omega
  | unused h =>
      obtain ⟨rfl, -⟩ := List.cons.inj heq
      omega
  | @truncated _ behind rest h hbehind hrest =>
      obtain ⟨rfl, htail⟩ := List.cons.inj heq
      -- the bytes that are missing would have to be the next of the form, and
      -- what comes next continues nothing
      rcases List.append_eq_append_iff.1 htail with ⟨more, rfl, rfl⟩ | ⟨more, rfl, -⟩
      · cases more with
        | nil => simp at hannounced; omega
        | cons b more =>
            exact hrest b rfl (hholds.continues b (by simp))
      · simp at h
        omega
  | overlong h hn | surrogate h hn | beyond h hn =>
      obtain ⟨rfl, htail⟩ := List.cons.inj heq
      obtain ⟨rfl, rfl⟩ := h.eq_of_append hholds htail
      have hvalid : c.toNat.isValidChar := c.valid
      unfold Nat.isValidChar at hvalid
      omega

-- ================================================================ whole texts

/-- Bytes are the form of a text, up to their end or up to a fault. -/
theorem exists_text_or_flaw (bytes : List UInt8) :
    ∃ text rest, bytes = utf8 text ++ rest ∧ (rest = [] ∨ Flawed rest) := by
  -- a character is taken from the front, so what is left is shorter
  induction hlength : bytes.length using Nat.strongRecOn generalizing bytes with
  | ind length ih =>
      subst hlength
      cases bytes with
      | nil => exact ⟨[], [], rfl, .inl rfl⟩
      | cons first bytes =>
          rcases begins_or_flawed first bytes with ⟨c, rest, heq⟩ | hflawed
          · have hpos := c.utf8Size_pos
            have hshort : rest.length < (first :: bytes).length := by
              rw [heq, List.length_append, String.length_utf8EncodeChar]
              omega
            obtain ⟨text, rest', rfl, hend⟩ := ih _ hshort rest rfl
            exact ⟨c :: text, rest', by rw [heq, utf8_cons, List.append_assoc], hend⟩
          · exact ⟨[], first :: bytes, rfl, .inr hflawed⟩

/-- What has a fault behind the form of a text is the form of none. A longer
text would have a character where the fault is. -/
theorem Flawed.append_ne_utf8 {bytes : List UInt8} (h : Flawed bytes)
    (front text : List Char) : utf8 front ++ bytes ≠ utf8 text := by
  intro heq
  obtain ⟨more, rfl⟩ := isPrefix_of_utf8 ⟨bytes, heq⟩
  rw [utf8_append] at heq
  obtain rfl := List.append_cancel_left heq
  cases more with
  | nil => cases h
  | cons c more => exact h.not_begins c (utf8 more) rfl

/-- Bytes are the form of no text just when there is a fault in them, behind
the form of some text. -/
theorem forall_utf8_ne_iff {bytes : List UInt8} :
    (∀ text, utf8 text ≠ bytes)
      ↔ ∃ front rest, bytes = utf8 front ++ rest ∧ Flawed rest := by
  constructor
  · intro h
    obtain ⟨text, rest, rfl, rfl | hflawed⟩ := exists_text_or_flaw bytes
    · exact absurd (List.append_nil _).symm (h text)
    · exact ⟨text, rest, rfl, hflawed⟩
  · rintro ⟨front, rest, rfl, hflawed⟩ text heq
    exact hflawed.append_ne_utf8 front text heq.symm

-- ================================================================== the table

/-- Whether a byte lies in a range. -/
def Within (b : UInt8) (range : Nat × Nat) : Prop :=
  range.1 ≤ b.toNat ∧ b.toNat ≤ range.2

/-- Whether bytes are one of the sequences: as many as a row of the table has
ranges, and each in its own. This can be decided, and speaks of no number. -/
def IsSequence (bytes : List UInt8) : Prop :=
  ∃ row ∈ sequences, List.Forall₂ Within bytes row

/-- Whether bytes are sequences laid end to end. Characters are not mentioned,
so this is a description of its own of the bytes that hold a text. -/
def WellFormed (bytes : List UInt8) : Prop :=
  ∃ parts : List (List UInt8), (∀ part ∈ parts, IsSequence part) ∧ parts.flatten = bytes

instance (b : UInt8) (range : Nat × Nat) : Decidable (Within b range) :=
  inferInstanceAs (Decidable (_ ∧ _))

instance (bytes : List UInt8) : Decidable (IsSequence bytes) :=
  inferInstanceAs (Decidable (∃ row ∈ sequences, _))

theorem isSequence_one {first : UInt8} :
    IsSequence [first] ↔ Within first (0x00, 0x7F) := by
  simp [IsSequence, sequences]

theorem isSequence_two {first b : UInt8} :
    IsSequence [first, b] ↔ Within first (0xC2, 0xDF) ∧ Within b (0x80, 0xBF) := by
  simp [IsSequence, sequences]

theorem isSequence_three {first b c : UInt8} :
    IsSequence [first, b, c]
      ↔ (Within first (0xE0, 0xE0) ∧ Within b (0xA0, 0xBF) ∧ Within c (0x80, 0xBF))
        ∨ (Within first (0xE1, 0xEC) ∧ Within b (0x80, 0xBF) ∧ Within c (0x80, 0xBF))
        ∨ (Within first (0xED, 0xED) ∧ Within b (0x80, 0x9F) ∧ Within c (0x80, 0xBF))
        ∨ (Within first (0xEE, 0xEF) ∧ Within b (0x80, 0xBF) ∧ Within c (0x80, 0xBF)) := by
  simp [IsSequence, sequences]

theorem isSequence_four {first b c d : UInt8} :
    IsSequence [first, b, c, d]
      ↔ (Within first (0xF0, 0xF0) ∧ Within b (0x90, 0xBF) ∧ Within c (0x80, 0xBF)
          ∧ Within d (0x80, 0xBF))
        ∨ (Within first (0xF1, 0xF3) ∧ Within b (0x80, 0xBF) ∧ Within c (0x80, 0xBF)
          ∧ Within d (0x80, 0xBF))
        ∨ (Within first (0xF4, 0xF4) ∧ Within b (0x80, 0x8F) ∧ Within c (0x80, 0xBF)
          ∧ Within d (0x80, 0xBF)) := by
  simp [IsSequence, sequences]

/-- The sequences are the forms of the characters. The table has no numbers
and the forms have no ranges; the two meet in the number that the bytes hold,
and the rest is arithmetic. -/
theorem isSequence_iff {bytes : List UInt8} :
    IsSequence bytes ↔ ∃ c, String.utf8EncodeChar c = bytes := by
  constructor
  · intro h
    match bytes with
    | [] => simp [IsSequence, sequences] at h
    | [first] =>
        simp only [isSequence_one, Within] at h
        exact exists_utf8EncodeChar_iff.2 ⟨_, .one (by omega), Nat.zero_le _,
          by unfold Nat.isValidChar; omega⟩
    | [first, b] =>
        simp only [isSequence_two, Within] at h
        have hb : Continues b := And.intro (by omega) (by omega)
        exact exists_utf8EncodeChar_iff.2 ⟨_, .two (by omega) hb,
          show 0x80 ≤ _ by omega, by unfold Nat.isValidChar; omega⟩
    | [first, b, c] =>
        simp only [isSequence_three, Within] at h
        have hb : Continues b := And.intro (by omega) (by omega)
        have hc : Continues c := And.intro (by omega) (by omega)
        exact exists_utf8EncodeChar_iff.2 ⟨_, .three (by omega) hb hc,
          show 0x800 ≤ _ by omega, by unfold Nat.isValidChar; omega⟩
    | [first, b, c, d] =>
        simp only [isSequence_four, Within] at h
        have hb : Continues b := And.intro (by omega) (by omega)
        have hc : Continues c := And.intro (by omega) (by omega)
        have hd : Continues d := And.intro (by omega) (by omega)
        exact exists_utf8EncodeChar_iff.2 ⟨_, .four (by omega) hb hc hd,
          show 0x10000 ≤ _ by omega, by unfold Nat.isValidChar; omega⟩
    | _ :: _ :: _ :: _ :: _ :: _ => simp [IsSequence, sequences] at h
  · rintro ⟨c, rfl⟩
    obtain ⟨first, behind, hform, hholds, hleast⟩ := exists_holds_toNat c
    have hvalid : c.toNat.isValidChar := c.valid
    rw [hform]
    generalize c.toNat = n at hholds hleast hvalid
    unfold Nat.isValidChar at hvalid
    cases hholds with
    | one h =>
        simp only [isSequence_one, Within]
        omega
    | two h hb =>
        unfold Continues at hb
        change 0x80 ≤ _ at hleast
        simp only [isSequence_two, Within]
        omega
    | three h hb hc =>
        unfold Continues at hb hc
        change 0x800 ≤ _ at hleast
        simp only [isSequence_three, Within]
        omega
    | four h hb hc hd =>
        unfold Continues at hb hc hd
        change 0x10000 ≤ _ at hleast
        simp only [isSequence_four, Within]
        omega

-- the last number before the surrogates and the first of them, and the last
-- of all and the one behind it
example : IsSequence [0xED, 0x9F, 0xBF] ∧ ¬ IsSequence [0xED, 0xA0, 0x80]
    ∧ IsSequence [0xF4, 0x8F, 0xBF, 0xBF] ∧ ¬ IsSequence [0xF4, 0x90, 0x80, 0x80] := by
  decide

/-- Bytes are well formed just when they are the form of a text. So a file is
accepted by the table of ranges alone, and each file that is accepted holds one
text. -/
theorem wellFormed_iff {bytes : List UInt8} :
    WellFormed bytes ↔ ∃ text, utf8 text = bytes := by
  constructor
  · rintro ⟨parts, hparts, rfl⟩
    induction parts with
    | nil => exact ⟨[], rfl⟩
    | cons part parts ih =>
        obtain ⟨text, htext⟩ := ih fun part h => hparts part (List.mem_cons_of_mem _ h)
        obtain ⟨c, hc⟩ := isSequence_iff.1 (hparts part List.mem_cons_self)
        exact ⟨c :: text, by rw [utf8_cons, hc, htext, List.flatten_cons]⟩
  · rintro ⟨text, rfl⟩
    refine ⟨text.map String.utf8EncodeChar, ?_, List.flatMap_def.symm⟩
    intro part hpart
    obtain ⟨c, -, hc⟩ := List.mem_map.1 hpart
    exact isSequence_iff.2 ⟨c, hc⟩

end Utf8

end LoxLexer
