/-
The characters of a text and its bytes.

Everything that is proved about a cut is proved on characters, while the
cursor that makes the cut moves over bytes. This file carries the one to the
other: `octets` of a text are the encodings of its characters laid end to
end (`octets_eq_encode`), an ASCII character is its own only byte, and every
byte of another character lies beyond ASCII. So a run of bytes in a class
that does not tell the characters beyond ASCII apart is the encoding of the
run of characters in that class (`takeWhile_encode`, `dropWhile_encode`), and
looking for an ASCII byte never stops inside a character.
-/
import Mathlib
import LoxLexer.Text

namespace LoxLexer

-- ====================================================== one character

/-- The bytes of one character, each as the character of its number. -/
def charOctets (c : Char) : List Char :=
  (String.utf8EncodeChar c).map Char.ofUInt8

/-- A byte keeps its number as a character. So what is said of the characters
of `octets` is said of bytes. -/
theorem toNat_octet {n : Nat} (h : n < 256) :
    (Char.ofUInt8 (UInt8.ofNat n)).toNat = n := by
  have hn : (UInt8.ofNat n).toNat = n := by
    rw [UInt8.toNat_ofNat']
    omega
  simpa [Char.ofUInt8, Char.toNat] using hn

/-- A byte below 128 is the whole encoding of its character. -/
theorem charOctets_of_ascii {c : Char} (h : c.toNat < 128) :
    charOctets c = [c] := by
  have hval : c.val.toNat = c.toNat := rfl
  have hc : c.val.toNat ≤ 0x7f := by omega
  unfold charOctets String.utf8EncodeChar
  simp only [hc, if_true, List.map_cons, List.map_nil, List.cons.injEq,
    and_true]
  apply Char.toNat_inj.1
  rw [toNat_octet (by omega), hval]

/-- The bytes behind the first are made of six bits under the mark 0x80. -/
private theorem isContinuation_octet (v : Nat) :
    isContinuation (Char.ofUInt8 (UInt8.ofNat (v % 0x40 + 0x80))) = true := by
  rw [isContinuation, decide_eq_true_eq, toNat_octet (by omega)]
  omega

/-- A character beyond ASCII is a leading byte of at least 0xC0 and
continuation bytes. How many there are is of no matter to a scanner, for all
of them lie beyond ASCII. -/
theorem charOctets_of_wide {c : Char} (h : 128 ≤ c.toNat) :
    ∃ lead rest, charOctets c = lead :: rest ∧ 0xC0 ≤ lead.toNat
      ∧ ∀ b ∈ rest, isContinuation b = true := by
  have hval : c.val.toNat = c.toNat := rfl
  have hc : ¬ c.val.toNat ≤ 0x7f := by omega
  unfold charOctets String.utf8EncodeChar
  simp only [hc, if_false]
  -- one case for each length of the encoding
  split
  case isTrue =>
    refine ⟨_, _, rfl, ?_, ?_⟩
    · rw [toNat_octet (by omega)]
      omega
    · simp only [List.forall_mem_map, List.forall_mem_cons,
          isContinuation_octet, List.not_mem_nil, false_implies, implies_true,
          and_self]
  case isFalse =>
    split
    case isTrue =>
      refine ⟨_, _, rfl, ?_, ?_⟩
      · rw [toNat_octet (by omega)]
        omega
      · simp only [List.forall_mem_map, List.forall_mem_cons,
          isContinuation_octet, List.not_mem_nil, false_implies, implies_true,
          and_self]
    case isFalse =>
      refine ⟨_, _, rfl, ?_, ?_⟩
      · rw [toNat_octet (by omega)]
        omega
      · simp only [List.forall_mem_map, List.forall_mem_cons,
          isContinuation_octet, List.not_mem_nil, false_implies, implies_true,
          and_self]

/-- No byte of a character beyond ASCII is an ASCII character. So one that is
looked for among the bytes is never found inside another character. -/
theorem wide_of_mem_charOctets {c b : Char} (h : 128 ≤ c.toNat)
    (hb : b ∈ charOctets c) : 128 ≤ b.toNat := by
  obtain ⟨lead, rest, hlead, hle, hrest⟩ := charOctets_of_wide h
  rw [hlead] at hb
  rcases List.mem_cons.1 hb with rfl | hb
  · omega
  · have hcont := hrest b hb
    rw [isContinuation, decide_eq_true_eq] at hcont
    omega

/-- The first byte of a character begins it, and the others continue it. From
any byte on, the end of its character is therefore the next byte that does not
continue one. -/
theorem charOctets_eq_cons (c : Char) :
    ∃ lead rest, charOctets c = lead :: rest ∧ isContinuation lead = false
      ∧ ∀ b ∈ rest, isContinuation b = true := by
  by_cases h : c.toNat < 128
  · refine ⟨c, [], charOctets_of_ascii h, ?_, by simp⟩
    rw [isContinuation, decide_eq_false_iff_not]
    omega
  · obtain ⟨lead, rest, hlead, hle, hrest⟩ :=
      charOctets_of_wide (c := c) (by omega)
    refine ⟨lead, rest, hlead, ?_, hrest⟩
    rw [isContinuation, decide_eq_false_iff_not]
    omega

theorem length_charOctets (c : Char) : (charOctets c).length = c.utf8Size := by
  rw [charOctets, List.length_map, String.length_utf8EncodeChar]

-- ============================================================ a text

/-- The bytes of some characters, one encoding after the other. -/
def encode (text : List Char) : List Char := text.flatMap charOctets

/-- The bytes of a text are the encodings of its characters. This is where the
library's bytes of a string are left behind: all that follows is about the
lists of characters. -/
theorem octets_eq_encode (source : String) :
    octets source = encode source.toList := by
  unfold octets encode charOctets
  rw [← String.utf8Encode_toList, List.utf8Encode, List.data_toByteArray,
    List.toList_toArray, List.map_flatMap]

@[simp] theorem encode_nil : encode [] = [] := rfl

@[simp] theorem encode_cons (c : Char) (text : List Char) :
    encode (c :: text) = charOctets c ++ encode text := rfl

@[simp] theorem encode_append (text more : List Char) :
    encode (text ++ more) = encode text ++ encode more :=
  List.flatMap_append

/-- The size of some characters in bytes: the offset behind them, when they
stand at the front. -/
def width (text : List Char) : Nat := (encode text).length

@[simp] theorem width_nil : width [] = 0 := rfl

@[simp] theorem width_cons (c : Char) (text : List Char) :
    width (c :: text) = c.utf8Size + width text := by
  unfold width
  rw [encode_cons, List.length_append, length_charOctets]

@[simp] theorem width_append (text more : List Char) :
    width (text ++ more) = width text + width more := by
  unfold width
  rw [encode_append, List.length_append]

/-- The size in bytes is the size of the text made of the characters. -/
theorem utf8ByteSize_ofList (text : List Char) :
    (String.ofList text).utf8ByteSize = width text := by
  have h := octets_eq_encode (String.ofList text)
  rw [String.toList_ofList] at h
  unfold width
  rw [← h, octets, List.length_map, Array.length_toList, ByteArray.size_data,
    String.size_toByteArray]

theorem width_toList (source : String) :
    width source.toList = source.utf8ByteSize := by
  rw [← utf8ByteSize_ofList, String.ofList_toList]

theorem width_pos {text : List Char} (h : text ≠ []) : 0 < width text := by
  cases text with
  | nil => exact absurd rfl h
  | cons c text =>
      have hc := c.utf8Size_pos
      rw [width_cons]
      omega

theorem utf8Size_of_ascii {c : Char} (h : c.toNat < 128) : c.utf8Size = 1 := by
  rw [← length_charOctets, charOctets_of_ascii h]
  rfl

-- ================================================= classes of characters

/-- Whether a class takes all characters beyond ASCII alike. Then it can be
asked of a byte as well as of the character the byte is part of. -/
def AsciiClass (p : Char → Bool) : Prop :=
  ∀ c d : Char, 128 ≤ c.toNat → 128 ≤ d.toNat → p c = p d

/-- A class of ASCII characters only takes none of the others. Digits and parts
of words are of this kind. -/
theorem AsciiClass.of_ascii {p : Char → Bool}
    (h : ∀ c, p c = true → c.toNat < 128) :
    AsciiClass p := by
  have hfalse : ∀ c : Char, 128 ≤ c.toNat → p c = false := by
    intro c hc
    cases hp : p c with
    | false => rfl
    | true =>
        have := h c hp
        omega
  intro c d hc hd
  rw [hfalse c hc, hfalse d hd]

/-- All characters but one of ASCII: what runs up to a quote, or to a line
end. -/
theorem AsciiClass.bne {a : Char} (h : a.toNat < 128) :
    AsciiClass (· != a) := by
  have htrue : ∀ c : Char, 128 ≤ c.toNat → (c != a) = true := by
    intro c hc
    rw [bne_iff_ne]
    intro heq
    subst heq
    omega
  intro c d hc hd
  exact (htrue c hc).trans (htrue d hd).symm

/-- A class that is asked of the bytes of one character answers for it. -/
private theorem class_of_mem_charOctets {p : Char → Bool} (hp : AsciiClass p)
    {c b : Char} (hb : b ∈ charOctets c) : p b = p c := by
  by_cases h : c.toNat < 128
  · rw [charOctets_of_ascii h, List.mem_singleton] at hb
    rw [hb]
  · exact hp b c (wide_of_mem_charOctets (by omega) hb) (by omega)

/-- Running through the bytes in a class is running through the characters
in it. The class answers alike for the bytes of one character, so the run
stops in front of a character or takes it whole. -/
theorem takeWhile_encode {p : Char → Bool} (hp : AsciiClass p)
    (text : List Char) :
    (encode text).takeWhile p = encode (text.takeWhile p) := by
  induction text with
  | nil => rfl
  | cons c text ih =>
      have hall : ∀ b ∈ charOctets c, p b = p c := fun b hb =>
        class_of_mem_charOctets hp hb
      rw [encode_cons]
      cases hc : p c with
      | true =>
          rw [List.takeWhile_append_of_pos fun b hb => (hall b hb).trans hc, ih,
            List.takeWhile_cons_of_pos hc, encode_cons]
      | false =>
          -- the run ends at the first byte of the character
          obtain ⟨b, rest, hb, -, -⟩ := charOctets_eq_cons c
          have hpb : p b = false :=
            (hall b (by rw [hb]; exact List.mem_cons_self)).trans hc
          rw [hb, List.cons_append, List.takeWhile_cons_of_neg (by simp [hpb]),
            List.takeWhile_cons_of_neg (by simp [hc])]
          rfl

/-- What is left behind the bytes in a class. -/
theorem dropWhile_encode {p : Char → Bool} (hp : AsciiClass p)
    (text : List Char) :
    (encode text).dropWhile p = encode (text.dropWhile p) := by
  have h : encode (text.takeWhile p) ++ (encode text).dropWhile p
      = encode (text.takeWhile p) ++ encode (text.dropWhile p) := by
    rw [← takeWhile_encode hp, List.takeWhile_append_dropWhile,
      takeWhile_encode hp, ← encode_append, List.takeWhile_append_dropWhile]
  exact List.append_cancel_left h

/-- An ASCII character stands first among the bytes just when it stands
first in the text. -/
theorem head?_encode {a : Char} (h : a.toNat < 128) (text : List Char) :
    (encode text).head? = some a ↔ text.head? = some a := by
  cases text with
  | nil => exact Iff.rfl
  | cons c text =>
      obtain ⟨b, rest, hb, -, -⟩ := charOctets_eq_cons c
      rw [encode_cons, hb, List.cons_append, List.head?_cons, List.head?_cons,
        Option.some.injEq, Option.some.injEq]
      by_cases hc : c.toNat < 128
      · rw [charOctets_of_ascii hc, List.cons.injEq] at hb
        rw [hb.1]
      · have hwide : 128 ≤ b.toNat :=
          wide_of_mem_charOctets (c := c) (by omega)
            (by rw [hb]; exact List.mem_cons_self)
        constructor
        · intro heq
          subst heq
          omega
        · intro heq
          subst heq
          omega

/-- No byte that continues a character stands first in a text. -/
theorem takeWhile_isContinuation (text : List Char) :
    (encode text).takeWhile isContinuation = [] := by
  cases text with
  | nil => rfl
  | cons c text =>
      obtain ⟨b, rest, hb, hlead, -⟩ := charOctets_eq_cons c
      rw [encode_cons, hb, List.cons_append,
        List.takeWhile_cons_of_neg (by simp [hlead])]

/-- An ASCII character is there as often among the bytes as in the text. Lines
can be counted on either. -/
theorem count_encode {a : Char} (h : a.toNat < 128) (text : List Char) :
    (encode text).count a = text.count a := by
  induction text with
  | nil => rfl
  | cons c text ih =>
      rw [encode_cons, List.count_append, ih, List.count_cons]
      by_cases hc : c.toNat < 128
      · rw [charOctets_of_ascii hc, List.count_singleton]
        omega
      · have hne : (c == a) = false := by
          rw [beq_eq_false_iff_ne]
          intro heq
          subst heq
          omega
        have hzero : (charOctets c).count a = 0 := by
          rw [List.count_eq_zero]
          intro ha
          have := wide_of_mem_charOctets (by omega) ha
          omega
        rw [hzero, hne]
        simp

/-- An ASCII character stands among the bytes just when it stands in the
text. -/
theorem mem_encode {a : Char} (h : a.toNat < 128) (text : List Char) :
    a ∈ encode text ↔ a ∈ text := by
  rw [← List.count_pos_iff, count_encode h, List.count_pos_iff]

/-- A text of ASCII characters is its own bytes. -/
theorem encode_of_ascii {text : List Char} (h : ∀ c ∈ text, c.toNat < 128) :
    encode text = text := by
  induction text with
  | nil => rfl
  | cons c text ih =>
      rw [encode_cons, charOctets_of_ascii (h c List.mem_cons_self),
        ih fun d hd => h d (List.mem_cons_of_mem c hd)]
      rfl

-- ========================================================== reading back

/-- Characters as bytes go back to the bytes they stand for. -/
private theorem map_toUInt8_charOctets (c : Char) :
    (charOctets c).map Char.toUInt8 = String.utf8EncodeChar c := by
  have hbyte : ∀ b : UInt8, (Char.ofUInt8 b).toUInt8 = b := fun b =>
    UInt8.toUInt8_toUInt32 b
  simp [charOctets, Function.comp_def, hbyte]

/-- What begins with the bytes of a character begins with those of no
other. The library's decoder reads the character off either side. -/
theorem eq_of_charOctets_append {c d : Char} {more other : List Char}
    (h : charOctets c ++ more = charOctets d ++ other) : c = d := by
  have hbytes := congrArg (fun l => (l.map Char.toUInt8).toByteArray) h
  simp only [List.map_append, map_toUInt8_charOctets,
    List.toByteArray_append] at hbytes
  have hc := ByteArray.utf8DecodeChar?_utf8EncodeChar_append
    (b := (more.map Char.toUInt8).toByteArray) (c := c)
  rw [hbytes, ByteArray.utf8DecodeChar?_utf8EncodeChar_append,
    Option.some.injEq] at hc
  exact hc.symm

/-- A text whose bytes begin with the bytes of another begins with it. -/
theorem isPrefix_of_encode {text more : List Char}
    (h : encode text <+: encode more) : text <+: more := by
  induction text generalizing more with
  | nil => exact List.nil_prefix
  | cons c text ih =>
      obtain ⟨rest, hrest⟩ := h
      cases more with
      | nil =>
          obtain ⟨lead, bytes, hlead, -⟩ := charOctets_eq_cons c
          rw [encode_cons, hlead] at hrest
          cases hrest
      | cons d more =>
          rw [encode_cons, encode_cons, List.append_assoc] at hrest
          obtain rfl := eq_of_charOctets_append hrest
          exact List.cons_prefix_cons.2
            ⟨rfl, ih ⟨rest, List.append_cancel_left hrest⟩⟩

end LoxLexer
