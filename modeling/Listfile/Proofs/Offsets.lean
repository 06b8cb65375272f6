import Listfile.Span

/-!
# Offsets and pieces of text

Offsets count bytes while the readers walk over characters. The two views meet
here:

* `byteLength_toList` — the length in bytes is the size of the UTF-8 form;
* `Position.offset_advance` — a reader moves by the bytes of what it passes;
* `Span.Covers` — a span covers a piece of a text, so that both its ends lie
  on character boundaries inside the text;
* `Span.Covers.slice_eq` — the text that such a span cuts out is that piece.
-/

namespace Listfile

/-! ## Bytes of characters -/

@[simp] theorem byteLength_append (front back : List Char) :
    byteLength (front ++ back) = byteLength front + byteLength back := by
  induction front with
  | nil => simp [byteLength]
  | cons c cs ih =>
      simp only [List.cons_append, byteLength, ih]
      omega

/-- Every character takes at least one byte. -/
theorem byteLength_pos {cs : List Char} (h : cs ≠ []) : 0 < byteLength cs := by
  cases cs with
  | nil => exact absurd rfl h
  | cons c cs =>
      have hc := c.utf8Size_pos
      show 0 < c.utf8Size + byteLength cs
      omega

theorem byteLength_ofList (cs : List Char) :
    (String.ofList cs).utf8ByteSize = byteLength cs := by
  induction cs with
  | nil => rfl
  | cons c cs ih =>
      rw [String.ofList_cons, String.utf8ByteSize_append, String.utf8ByteSize_singleton, ih]
      rfl

/-- The length in bytes is the size of the UTF-8 form. -/
theorem byteLength_toList (text : String) : byteLength text.toList = text.utf8ByteSize := by
  rw [← byteLength_ofList, String.ofList_toList]

/-- Cutting at the end of a front piece gives back the two pieces. -/
theorem splitBytes_byteLength (front back : List Char) :
    splitBytes (byteLength front) (front ++ back) = some (front, back) := by
  induction front with
  | nil => rw [byteLength, List.nil_append, splitBytes]
  | cons c cs ih =>
      have hc := c.utf8Size_pos
      -- The cut recurses on a successor, and no character is empty.
      obtain ⟨n, hn⟩ : ∃ n, byteLength (c :: cs) = n + 1 :=
        ⟨byteLength (c :: cs) - 1, by simp only [byteLength]; omega⟩
      have hsum : c.utf8Size + byteLength cs = n + 1 := hn
      have hcut : n + 1 - c.utf8Size = byteLength cs := by omega
      rw [hn, List.cons_append, splitBytes, if_pos (by omega), hcut, ih]
      rfl

/-- A reader moves by the bytes of the characters it passes. -/
theorem Position.offset_advance (p : Position) (cs : List Char) :
    (p.advance cs).offset = p.offset + byteLength cs := by
  induction cs generalizing p with
  | nil => rfl
  | cons c cs ih =>
      have hnext : (p.next c).offset = p.offset + c.utf8Size := by
        unfold Position.next
        split <;> rfl
      show ((p.next c).advance cs).offset = _
      rw [ih, hnext, byteLength]
      omega

/-! ## Pieces that spans cover -/

/-- The span covers `piece` in `text`: its ends are the ends of an occurrence
of the piece. -/
def Span.Covers (s : Span) (text piece : String) : Prop :=
  ∃ before after : String, text = before ++ piece ++ after ∧
    before.utf8ByteSize = s.start ∧ (before ++ piece).utf8ByteSize = s.stop

theorem Span.covers_of_toList {s : Span} {text : String} (before piece after : List Char)
    (htext : text.toList = before ++ (piece ++ after)) (hstart : s.start = byteLength before)
    (hstop : s.stop = byteLength before + byteLength piece) :
    s.Covers text (String.ofList piece) := by
  refine ⟨String.ofList before, String.ofList after, ?_, ?_, ?_⟩
  · rw [← String.ofList_toList (s := text), htext, String.ofList_append, String.ofList_append,
      String.append_assoc]
  · rw [byteLength_ofList, hstart]
  · rw [← String.ofList_append, byteLength_ofList, byteLength_append, hstop]

namespace Span.Covers

variable {s : Span} {text piece : String}

theorem start_le_stop (h : s.Covers text piece) : s.start ≤ s.stop := by
  obtain ⟨before, after, -, hstart, hstop⟩ := h
  rw [← hstart, ← hstop, String.utf8ByteSize_append]
  omega

theorem stop_le (h : s.Covers text piece) : s.stop ≤ text.utf8ByteSize := by
  obtain ⟨before, after, rfl, -, hstop⟩ := h
  rw [← hstop, String.utf8ByteSize_append (s := before ++ piece)]
  omega

/-- A piece that is not empty takes up room. -/
theorem start_lt_stop (h : s.Covers text piece) (hne : piece ≠ "") : s.start < s.stop := by
  obtain ⟨before, after, -, hstart, hstop⟩ := h
  have hpos : 0 < byteLength piece.toList := by
    refine byteLength_pos fun hnil => hne ?_
    rw [← String.ofList_toList (s := piece), hnil]
  rw [byteLength_toList] at hpos
  rw [← hstart, ← hstop, String.utf8ByteSize_append]
  omega

theorem isValid_start (h : s.Covers text piece) : String.Pos.Raw.IsValid text ⟨s.start⟩ := by
  obtain ⟨before, after, rfl, hstart, -⟩ := h
  refine String.Pos.Raw.isValid_iff_exists_append.mpr ⟨before, piece ++ after, ?_, ?_⟩
  · rw [String.append_assoc]
  · exact String.Pos.Raw.ext hstart.symm

theorem isValid_stop (h : s.Covers text piece) : String.Pos.Raw.IsValid text ⟨s.stop⟩ := by
  obtain ⟨before, after, rfl, -, hstop⟩ := h
  refine String.Pos.Raw.isValid_iff_exists_append.mpr ⟨before ++ piece, after, rfl, ?_⟩
  exact String.Pos.Raw.ext hstop.symm

/-- What the span cuts out of the text is the piece. -/
theorem slice_eq (h : s.Covers text piece) : s.slice text = piece := by
  have hle := h.start_le_stop
  obtain ⟨before, after, rfl, hstart, hstop⟩ := h
  have hsize : s.size = byteLength piece.toList := by
    rw [String.utf8ByteSize_append] at hstop
    rw [byteLength_toList]
    unfold Span.size
    omega
  have hfront : splitBytes s.start (before ++ piece ++ after).toList =
      some (before.toList, piece.toList ++ after.toList) := by
    rw [← hstart, ← byteLength_toList, String.toList_append, String.toList_append,
      List.append_assoc]
    exact splitBytes_byteLength _ _
  have hpiece : splitBytes s.size (piece.toList ++ after.toList) =
      some (piece.toList, after.toList) := by
    rw [hsize]
    exact splitBytes_byteLength _ _
  unfold Span.slice Span.sliceChars
  rw [if_pos hle, hfront]
  simp only [hpiece]
  exact String.ofList_toList

end Span.Covers

end Listfile
