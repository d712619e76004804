import Mathlib.Data.List.Chain
import QoreSyntax.Proofs.Source.Offset
import QoreSyntax.Proofs.Token.Gap
import QoreSyntax.Proofs.Token.Stream

/-!
The tokens of a text tile it: nothing lies between them but gaps, and nothing is read twice. Lines
and columns of a token follow from its place in bytes.
-/

namespace QoreSyntax.Token

open String (utf8Len)

/-- The stretches of text before the tokens, the first of which begins at the byte `start`. -/
def gaps : (start : Nat) → List Token → List Span
  | _, [] => []
  | start, t :: rest => ⟨start, t.span.start⟩ :: gaps t.span.stop rest

namespace Reader

/-- The token that is read after `n` others. -/
def token : Reader → (n : Nat) → Token
  | r, 0 => r.next.1
  | r, n + 1 => r.next.2.token n

/-- The reader has passed over some characters of the text and is at the next one. -/
def ReadsIn (text : List Char) (line : Nat) (r : Reader) : Prop :=
  ∃ n, r.cursor = (Cursor.ofText text line).skip n

theorem readsIn_ofText (text : List Char) (line : Nat) :
    (ofText text line).ReadsIn text (max line 1) :=
  ⟨0, rfl⟩

theorem next_span (r : Reader) :
    r.next.1.span = ⟨r.gapEnd.offset, (r.gapEnd.skip r.lexeme.length).offset⟩ :=
  rfl

namespace ReadsIn

variable {text : List Char} {line : Nat} {r : Reader}

theorem gapEnd (h : r.ReadsIn text line) :
    ∃ n, r.gapEnd = (Cursor.ofText text line).skip n := by
  obtain ⟨n, hcursor⟩ := h
  refine ⟨n + gapLength r.cursor.rest, ?_⟩
  rw [Reader.gapEnd, ← Cursor.skip_skip, ← hcursor]

theorem next (h : r.ReadsIn text line) : r.next.2.ReadsIn text line := by
  obtain ⟨n, hgapEnd⟩ := h.gapEnd
  refine ⟨n + r.lexeme.length, ?_⟩
  rw [next_cursor, ← Cursor.skip_skip, ← hgapEnd]

/-- What lies before the next token is a gap. -/
theorem cuts_gap (h : r.ReadsIn text line) :
    ∃ piece after, Span.Cuts ⟨r.cursor.offset, r.next.1.span.start⟩ text piece after ∧
      IsGap piece after := by
  obtain ⟨n, hcursor⟩ := h
  have hcuts := Cursor.cuts_skip text line n (gapLength r.cursor.rest)
  rw [← hcursor] at hcuts
  exact ⟨_, _, hcuts, isGap_gapLength r.cursor.rest⟩

theorem cuts_next (h : r.ReadsIn text line) :
    ∃ lexeme after, r.next.1.span.Cuts text lexeme after ∧
      (r.next.1.isEof = false → lexeme ≠ []) := by
  obtain ⟨n, hgapEnd⟩ := h.gapEnd
  have hcuts := Cursor.cuts_skip text line n r.lexeme.length
  rw [← hgapEnd] at hcuts
  refine ⟨_, _, hcuts, fun hnot hnil => ?_⟩
  have hrest : r.gapEnd.rest ≠ [] := fun hnil =>
    Bool.noConfusion (hnot.symm.trans ((isEof_next_iff r).mpr hnil))
  have hlength : r.lexeme.length ≠ 0 :=
    Nat.ne_of_gt (leadingLexeme_length_pos _ _ hrest)
  rcases List.take_eq_nil_iff.mp hnil with hzero | hrest'
  · exact hlength hzero
  · exact hrest hrest'

theorem span_of_isEof (h : r.ReadsIn text line) (hend : r.next.1.isEof = true) :
    r.next.1.span = ⟨utf8Len text, utf8Len text⟩ := by
  obtain ⟨n, hgapEnd⟩ := h.gapEnd
  have hrest := (isEof_next_iff r).mp hend
  have hdrop : text.drop n = [] := by
    rw [hgapEnd, Cursor.rest_skip] at hrest
    exact hrest
  have hoffset : r.gapEnd.offset = utf8Len text := by
    rw [hgapEnd, Cursor.offset_skip_ofText, List.take_of_length_le (List.drop_eq_nil_iff.mp hdrop)]
  rw [next_span, Cursor.offset_skip, hrest, List.take_nil, hoffset]
  rfl

theorem range_eq (h : r.ReadsIn text line) :
    r.next.1.range = ⟨Position.ofOffset text line r.next.1.span.start,
      Position.ofOffset text line r.next.1.span.stop⟩ := by
  obtain ⟨n, hgapEnd⟩ := h.gapEnd
  rw [next_range, next_span, hgapEnd, Cursor.skip_skip]
  simp only [Cursor.position_eq_ofOffset]

end ReadsIn

theorem toList_of_isEof {r : Reader} (h : r.next.1.isEof = true) :
    r.stream.toList = [r.next.1] := by
  rw [stream_of_isEof h]
  rfl

theorem toList_of_not_isEof {r : Reader} (h : r.next.1.isEof = false) :
    r.stream.toList = r.next.1 :: r.next.2.stream.toList := by
  rw [stream_of_not_isEof h]
  rfl

theorem head?_toList (r : Reader) : r.stream.toList.head? = some r.next.1 := by
  cases h : r.next.1.isEof with
  | true => rw [toList_of_isEof h, List.head?_cons]
  | false => rw [toList_of_not_isEof h, List.head?_cons]

/-- The tokens of a text are those that are read one after the other up to the end marker. -/
theorem toList_eq_map_token (r : Reader) :
    r.stream.toList = (List.range r.stream.toList.length).map r.token := by
  induction r using stream_induction with
  | atEnd r h =>
      rw [toList_of_isEof h]
      rfl
  | before r h ih =>
      rw [toList_of_not_isEof h, List.length_cons, List.range_succ_eq_map, List.map_cons,
        List.map_map]
      congr 1

section Invariant

variable {I : Reader → Prop} (hI : ∀ r, I r → I r.next.2)
include hI

/-- What is kept from token to token holds wherever a token of the text is read. -/
theorem exists_of_mem_stream {r : Reader} (hr : I r) {t : Token} (hmem : t ∈ r.stream.tokens) :
    ∃ r', I r' ∧ r'.next.1 = t := by
  induction r using stream_induction with
  | atEnd r h => simp [stream_of_isEof h] at hmem
  | before r h ih =>
      rw [stream_of_not_isEof h] at hmem
      rcases List.mem_cons.mp hmem with rfl | hmem
      · exact ⟨r, hr, rfl⟩
      · exact ih (hI r hr) hmem

theorem exists_stream_final {r : Reader} (hr : I r) : ∃ r', I r' ∧ r'.next.1 = r.stream.final := by
  induction r using stream_induction with
  | atEnd r h => exact ⟨r, hr, by rw [stream_of_isEof h]⟩
  | before r h ih =>
      rw [stream_of_not_isEof h]
      exact ih (hI r hr)

theorem exists_token {r : Reader} (hr : I r) (n : Nat) :
    ∃ r', I r' ∧ r'.next.1 = r.token n ∧ r'.next.2.next.1 = r.token (n + 1) := by
  induction n generalizing r with
  | zero => exact ⟨r, hr, rfl, rfl⟩
  | succ n ih => exact ih (hI r hr)

theorem isChain_toList {R : Token → Token → Prop}
    (hR : ∀ r, I r → R r.next.1 r.next.2.next.1) {r : Reader} (hr : I r) :
    r.stream.toList.IsChain R := by
  induction r using stream_induction with
  | atEnd r h =>
      rw [toList_of_isEof h]
      exact List.IsChain.singleton _
  | before r h ih =>
      rw [toList_of_not_isEof h]
      refine List.IsChain.cons (ih (hI r hr)) fun u hu => ?_
      rw [head?_toList, Option.mem_def, Option.some.injEq] at hu
      exact hu ▸ hR r hr

theorem forall_mem_gaps {G : Span → Prop}
    (hG : ∀ r, I r → G ⟨r.cursor.offset, r.next.1.span.start⟩) {r : Reader} (hr : I r) :
    ∀ gap ∈ gaps r.cursor.offset r.stream.toList, G gap := by
  induction r using stream_induction with
  | atEnd r h =>
      rw [toList_of_isEof h]
      intro gap hmem
      obtain rfl := List.mem_singleton.mp hmem
      exact hG r hr
  | before r h ih =>
      rw [toList_of_not_isEof h]
      intro gap hmem
      rcases List.mem_cons.mp hmem with rfl | hmem
      · exact hG r hr
      · exact ih (hI r hr) gap hmem

end Invariant

end Reader

/-- The tokens of a text stand in it one after the other, each of them on a stretch of whole
characters. The end marker stands behind the last byte, and all that lies before and between the
tokens is gaps. -/
theorem tokens_tile_text (text : List Char) (line : Nat) :
    let stream := Stream.ofText text line
    (stream.final.isEof = true ∧ stream.final.span = ⟨utf8Len text, utf8Len text⟩) ∧
      (∀ t ∈ stream.tokens, t.isEof = false ∧ t.span.start < t.span.stop ∧
        ∃ lexeme after, t.span.Cuts text lexeme after) ∧
      stream.toList.IsChain (fun t u => t.span.stop ≤ u.span.start) ∧
      ∀ gap ∈ gaps 0 stream.toList, ∃ piece after, gap.Cuts text piece after ∧
        IsGap piece after := by
  have hI : ∀ r, Reader.ReadsIn text (max line 1) r → r.next.2.ReadsIn text (max line 1) :=
    fun _ h => h.next
  have hstart := Reader.readsIn_ofText text line
  refine ⟨⟨Stream.isEof_ofText_final text line, ?_⟩, fun t hmem => ?_, ?_, ?_⟩
  · obtain ⟨r, hr, hfinal⟩ := Reader.exists_stream_final hI hstart
    have hend := Stream.isEof_ofText_final text line
    rw [Stream.ofText_eq_stream, ← hfinal] at hend ⊢
    exact hr.span_of_isEof hend
  · obtain ⟨r, hr, rfl⟩ := Reader.exists_of_mem_stream hI hstart hmem
    have hnot := Stream.isEof_of_mem_ofText hmem
    obtain ⟨lexeme, after, hcuts, hlexeme⟩ := hr.cuts_next
    exact ⟨hnot, hcuts.start_lt_stop (hlexeme hnot), lexeme, after, hcuts⟩
  · refine Reader.isChain_toList hI (fun r _ => ?_) hstart
    exact Cursor.offset_le_skip _ _
  · exact Reader.forall_mem_gaps hI (fun r hr => hr.cuts_gap) hstart

/-- However many tokens are read of a text, the lines and columns of each of them are those of its
place in bytes, and they never go backwards. The tokens up to the end marker are the first ones that
are read. -/
theorem ranges_follow_from_spans (text : List Char) (line : Nat) :
    let token := (Reader.ofText text line).token
    let position := Position.ofOffset text (max line 1)
    (∀ n, (token n).range = ⟨position (token n).span.start, position (token n).span.stop⟩ ∧
      (token n).range.start ≤ (token n).range.stop ∧
      (token n).range.stop ≤ (token (n + 1)).range.start) ∧
      (Stream.ofText text line).toList =
        (List.range (Stream.ofText text line).toList.length).map token := by
  have hI : ∀ r, Reader.ReadsIn text (max line 1) r → r.next.2.ReadsIn text (max line 1) :=
    fun _ h => h.next
  refine ⟨fun n => ?_, Reader.toList_eq_map_token _⟩
  obtain ⟨r, hr, hthis, hnext⟩ :=
    Reader.exists_token hI (Reader.readsIn_ofText text line) n
  rw [← hthis, ← hnext]
  refine ⟨hr.range_eq, ?_, ?_⟩
  · exact Cursor.position_le_skip _ _
  · exact Reader.position_le_gapEnd r.next.2

end QoreSyntax.Token
