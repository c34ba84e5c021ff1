/-
The parts of a text between two byte offsets. An offset is a boundary when
the bytes before it encode whole characters (`isBoundary_iff`). Between two
boundaries in order there always is a part (`slice?_isSome_iff`), and it is
the characters between them (`slice?_width`): so a scan that only ever asks
for such parts is never refused one.
-/
import LoxLexer.Proofs.Text.Encoding

namespace LoxLexer

/-- Whether an offset lies between two characters of a text, or at one of
its ends. -/
def IsBoundary (source : String) (offset : Nat) : Prop :=
  String.Pos.Raw.IsValid source ⟨offset⟩

/-- A boundary is the size of some characters the text begins with. So offsets
can be replaced by the texts in front of them. -/
theorem isBoundary_iff {source : String} {offset : Nat} :
    IsBoundary source offset
      ↔ ∃ before after, source.toList = before ++ after
        ∧ offset = width before := by
  unfold IsBoundary
  rw [String.Pos.Raw.isValid_iff_exists_append]
  constructor
  · intro h
    obtain ⟨s, t, hst, hoff⟩ := h
    refine ⟨s.toList, t.toList, ?_, ?_⟩
    · rw [hst, String.toList_append]
    · rw [width_toList]
      exact congrArg String.Pos.Raw.byteIdx hoff
  · intro h
    obtain ⟨before, after, hsrc, hoff⟩ := h
    subst hoff
    refine ⟨String.ofList before, String.ofList after, ?_, ?_⟩
    · rw [← String.ofList_append, ← hsrc, String.ofList_toList]
    · apply String.Pos.Raw.ext
      exact (utf8ByteSize_ofList before).symm

/-- A boundary lies within the text. -/
theorem IsBoundary.le {source : String} {offset : Nat}
    (h : IsBoundary source offset) :
    offset ≤ source.utf8ByteSize :=
  String.Pos.Raw.le_iff.1 (String.Pos.Raw.IsValid.le_rawEndPos h)

/-- Positions of a text exist at its boundaries and nowhere else. -/
private theorem pos?_eq (source : String) (offset : Nat) :
    (∀ h : IsBoundary source offset,
      source.pos? ⟨offset⟩ = some (source.pos ⟨offset⟩ h))
      ∧ (¬ IsBoundary source offset → source.pos? ⟨offset⟩ = none) := by
  unfold String.pos? String.Slice.pos? IsBoundary
  constructor
  · intro h
    rw [dif_pos (String.Pos.Raw.isValidForSlice_eq_true_iff.2 h.toSlice)]
    rfl
  · intro h
    rw [dif_neg fun hslice =>
      h (String.Pos.Raw.isValidForSlice_eq_true_iff.1 hslice).ofSlice]
    rfl

/-- Between two boundaries a part exists just when they are in order, and it
holds the bytes from the one to the other. -/
private theorem slice?_of_isBoundary {source : String} {start stop : Nat}
    (hstart : IsBoundary source start) (hstop : IsBoundary source stop) :
    (start ≤ stop → ∃ part, slice? source start stop = some part
        ∧ part.toByteArray = source.toByteArray.extract start stop)
      ∧ (¬ start ≤ stop → slice? source start stop = none) := by
  have hle :
      source.pos ⟨start⟩ hstart ≤ source.pos ⟨stop⟩ hstop ↔ start ≤ stop := by
    rw [String.Pos.le_iff, String.Pos.Raw.le_iff]
    rfl
  unfold slice?
  rw [(pos?_eq source start).1 hstart, (pos?_eq source stop).1 hstop]
  simp only [Option.bind_eq_bind, Option.bind_some, String.slice?]
  constructor
  · intro h
    rw [dif_pos (hle.2 h)]
    refine ⟨_, rfl, ?_⟩
    rw [String.Slice.toByteArray_copy, String.startInclusive_slice,
      String.endExclusive_slice]
    rfl
  · intro h
    rw [dif_neg fun hpos => h (hle.1 hpos)]
    rfl

/-- There is a part between two offsets just when both are boundaries and
in order. This is when a program that cuts a text by offsets is not stopped. -/
theorem slice?_isSome_iff {source : String} {start stop : Nat} :
    (slice? source start stop).isSome = true
      ↔ IsBoundary source start ∧ IsBoundary source stop ∧ start ≤ stop := by
  by_cases hstart : IsBoundary source start
  · by_cases hstop : IsBoundary source stop
    · obtain ⟨hsome, hnone⟩ := slice?_of_isBoundary hstart hstop
      by_cases hle : start ≤ stop
      · obtain ⟨part, hpart, -⟩ := hsome hle
        simp [hpart, hstart, hstop, hle]
      · simp [hnone hle, hle]
    · unfold slice?
      rw [(pos?_eq source stop).2 hstop]
      simp [hstop]
  · unfold slice?
    rw [(pos?_eq source start).2 hstart]
    simp [hstart]

/-- The part between the sizes of two beginnings of a text is what the
longer has more than the shorter. The bytes between the two are compared, as
bytes determine a text. -/
theorem slice?_width {source : String} {before part after : List Char}
    (h : source.toList = before ++ (part ++ after)) :
    slice? source (width before) (width before + width part)
      = some (String.ofList part) := by
  have hstart : IsBoundary source (width before) :=
    isBoundary_iff.2 ⟨before, part ++ after, h, rfl⟩
  have hstop : IsBoundary source (width before + width part) :=
    isBoundary_iff.2 ⟨before ++ part, after, by rw [h, List.append_assoc],
      (width_append before part).symm⟩
  obtain ⟨found, hfound, hbytes⟩ :=
    (slice?_of_isBoundary hstart hstop).1 (Nat.le_add_right _ _)
  have hsrc : source = String.ofList before
      ++ (String.ofList part ++ String.ofList after) := by
    rw [← String.ofList_append, ← String.ofList_append, ← h,
      String.ofList_toList]
  have hsize : ∀ text, width text = (String.ofList text).toByteArray.size := by
    intro text
    rw [String.size_toByteArray, utf8ByteSize_ofList]
  rw [hfound, Option.some.injEq, ← String.toByteArray_inj, hbytes, hsrc,
    String.toByteArray_append, String.toByteArray_append, hsize before,
    hsize part]
  -- over the bytes in front, and then the bytes of the part
  have hskip :=
    ByteArray.extract_append_size_add (a := (String.ofList before).toByteArray)
    (b := (String.ofList part).toByteArray ++ (String.ofList after).toByteArray)
    (i := 0) (j := (String.ofList part).toByteArray.size)
  rw [Nat.add_zero] at hskip
  rw [hskip, ByteArray.extract_append_eq_left rfl]

end LoxLexer
