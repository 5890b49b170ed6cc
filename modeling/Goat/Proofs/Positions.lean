import Goat.Diagnostic.Failure
import Goat.Proofs.PrintedTokens

/-!
# Where spans stand in the source

A token stands in its source where its span says: the line has the token's value from the start
column up to the end column. A span that reaches from the start of a token to the end of a token
therefore points into the source, and so does the smallest span that covers two of them. A
failure with such a span is shown below the line that it points at.
-/

namespace Goat

/-! ### Tokens -/

theorem Token.flatten_cutFrom (word line : Text) :
    (Token.cutFrom word line).flatten = word.reverse ++ line := by
  fun_induction Token.cutFrom word line <;> simp_all

/-- The token stands in the lines where its span says. -/
def Token.StandsIn (lines : List Text) (t : Token) : Prop :=
  ∃ (k : Nat) (before after : Text), lines[k]? = some (before ++ t.value ++ after) ∧ t.value ≠ [] ∧
    t.span = ⟨k + 1, before.length, k + 1, before.length + t.value.length⟩

/-- The pieces of a line that are no white space stand where they are placed. -/
theorem Token.exists_of_mem_place {number : Nat} {t : Token} (front : Text) {pieces : List Text}
    (h : t ∈ Token.place number front.length pieces) :
    ∃ before after, front ++ pieces.flatten = before ++ t.value ++ after ∧ t.value ≠ [] ∧
      t.span = ⟨number, before.length, number, before.length + t.value.length⟩ := by
  induction pieces generalizing front with
  | nil => cases h
  | cons piece rest ih =>
    have hnext : front.length + piece.length = (front ++ piece).length := List.length_append.symm
    have hline : front ++ (piece :: rest).flatten = (front ++ piece) ++ rest.flatten := by
      rw [List.flatten_cons, List.append_assoc]
    rw [hline]
    rw [Token.place, hnext] at h
    split at h
    · exact ih (front ++ piece) h
    · rename_i hblank
      rcases List.mem_cons.1 h with rfl | h
      · refine ⟨front, rest.flatten, rfl, ?_, ?_⟩
        · rintro rfl
          exact hblank Text.isBlank_nil
        · simp
      · exact ih (front ++ piece) h

theorem Token.exists_of_mem_ofLinesFrom {number : Nat} {t : Token} {lines : List Text}
    (h : t ∈ Token.ofLinesFrom number lines) :
    ∃ (k : Nat) (before after : Text), lines[k]? = some (before ++ t.value ++ after) ∧
      t.value ≠ [] ∧ t.span =
        ⟨(number + k : Nat), before.length, (number + k : Nat),
          before.length + t.value.length⟩ := by
  induction lines generalizing number with
  | nil => cases h
  | cons line rest ih =>
    rw [Token.ofLinesFrom, List.mem_append] at h
    rcases h with h | h
    · obtain ⟨before, after, hline, hvalue, hspan⟩ := Token.exists_of_mem_place [] h
      rw [Token.cut, Token.flatten_cutFrom, List.nil_append, List.reverse_nil,
        List.nil_append] at hline
      exact ⟨0, before, after, congrArg some hline, hvalue, hspan⟩
    · obtain ⟨k, before, after, hline, hvalue, hspan⟩ := ih h
      refine ⟨k + 1, before, after, hline, hvalue, ?_⟩
      rw [hspan, Nat.add_assoc, Nat.add_comm 1]

/-- The tokens of a source text stand in its lines. -/
theorem Token.standsIn_of_mem_ofSource {source : Text} {t : Token} (h : t ∈ Token.ofSource source) :
    t.StandsIn (Text.lines source) := by
  obtain ⟨k, before, after, hline, hvalue, hspan⟩ := Token.exists_of_mem_ofLinesFrom h
  refine ⟨k, before, after, hline, hvalue, ?_⟩
  rw [hspan, Nat.add_comm, Int.natCast_succ]

/-! ### Spans -/

/-- The span ends after it starts. -/
def Span.IsProper (s : Span) : Prop :=
  s.startLine < s.endLine ∨ s.startLine = s.endLine ∧ s.startCol < s.endCol

/-- The span reaches from the start of a token of the source to the end of one. -/
structure Span.Within (source : Text) (s : Span) : Prop where
  proper : s.IsProper
  first : ∃ t ∈ Token.ofSource source,
    s.startLine = t.span.startLine ∧ s.startCol = t.span.startCol
  last : ∃ t ∈ Token.ofSource source, s.endLine = t.span.endLine ∧ s.endCol = t.span.endCol

theorem Token.within_of_mem {source : Text} {t : Token} (h : t ∈ Token.ofSource source) :
    t.span.Within source where
  proper := by
    obtain ⟨k, before, after, -, hvalue, hspan⟩ := Token.standsIn_of_mem_ofSource h
    have hpos : 0 < t.value.length := List.length_pos_iff.2 hvalue
    rw [hspan]
    exact .inr ⟨rfl, by simp only; omega⟩
  first := ⟨t, h, rfl, rfl⟩
  last := ⟨t, h, rfl, rfl⟩

theorem Span.startsBefore_iff {a b : Span} : a.startsBefore b = true ↔
    a.startLine < b.startLine ∨ a.startLine = b.startLine ∧ a.startCol < b.startCol := by
  simp [Span.startsBefore]

theorem Span.endsAfter_iff {a b : Span} : a.endsAfter b = true ↔
    b.endLine < a.endLine ∨ a.endLine = b.endLine ∧ b.endCol < a.endCol := by
  simp [Span.endsAfter]

/-- The smallest span that covers two spans starts where one of them does and ends where one of
    them does. -/
theorem Span.Within.merge {source : Text} {a b : Span} (ha : a.Within source)
    (hb : b.Within source) : (a.merge b).Within source := by
  have hproper : a.IsProper := ha.proper
  have hproper' : b.IsProper := hb.proper
  rw [Span.IsProper] at hproper hproper'
  rw [Span.merge]
  split
  · exact hb
  · split
    · exact ha
    · by_cases hstart : b.startsBefore a = true
      · rw [if_pos hstart]
        rw [Span.startsBefore_iff] at hstart
        by_cases hend : b.endsAfter a = true
        · rw [if_pos hend]
          exact hb
        · rw [if_neg hend]
          rw [Span.endsAfter_iff] at hend
          exact ⟨by simp only [Span.IsProper]; omega, hb.first, ha.last⟩
      · rw [if_neg hstart]
        by_cases hend : b.endsAfter a = true
        · rw [if_pos hend]
          rw [Span.endsAfter_iff] at hend
          exact ⟨by simp only [Span.IsProper]; omega, ha.first, hb.last⟩
        · rw [if_neg hend]
          exact ha

/-- The span points into the lines: from a column of one of them on, and up to a column of the
    same line or to a later one. -/
structure Span.PointsInto (lines : List Text) (s : Span) : Prop where
  isSome : s.isNone = false
  startLine_pos : 1 ≤ s.startLine
  startLine_le : s.startLine ≤ s.endLine
  endLine_le : s.endLine ≤ lines.length
  startCol_nonneg : 0 ≤ s.startCol
  startCol_lt : ∀ line, lines[(s.startLine - 1).toNat]? = some line → s.startCol < line.length
  endCol : s.startLine = s.endLine → s.startCol < s.endCol ∧
    ∀ line, lines[(s.startLine - 1).toNat]? = some line → s.endCol ≤ line.length

theorem Span.Within.pointsInto {source : Text} {s : Span} (h : s.Within source) :
    s.PointsInto (Text.lines source) := by
  obtain ⟨first, hfirst, hstartLine, hstartCol⟩ := h.first
  obtain ⟨last, hlast, hendLine, hendCol⟩ := h.last
  obtain ⟨k, before, after, hline, hvalue, hspan⟩ := Token.standsIn_of_mem_ofSource hfirst
  obtain ⟨k', before', after', hline', -, hspan'⟩ := Token.standsIn_of_mem_ofSource hlast
  have hpos : 0 < first.value.length := List.length_pos_iff.2 hvalue
  have hlt : k' < (Text.lines source).length := (List.getElem?_eq_some_iff.1 hline').1
  have hproper := h.proper
  rw [hspan] at hstartLine hstartCol
  rw [hspan'] at hendLine hendCol
  simp only at hstartLine hstartCol hendLine hendCol
  rw [Span.IsProper] at hproper
  have hindex : (s.startLine - 1).toNat = k := by omega
  constructor
  · simp only [Span.isNone, beq_eq_false_iff_ne]
    omega
  · omega
  · omega
  · omega
  · omega
  · intro line hfound
    rw [hindex, hline] at hfound
    cases hfound
    simp only [List.length_append]
    omega
  · intro hsame
    refine ⟨by omega, ?_⟩
    intro line hfound
    obtain rfl : k = k' := by omega
    rw [hindex, hline'] at hfound
    cases hfound
    simp only [List.length_append]
    omega

/-! ### Rendering -/

/-- The width of the carets below a line of some length: up to the end of the span, or up to the
    end of the line if the span goes on below. -/
def Span.width (s : Span) (length : Nat) : Nat :=
  if s.endLine = s.startLine then (s.endCol - s.startCol).toNat else (length - s.startCol).toNat

theorem Span.PointsInto.exists_line {lines : List Text} {s : Span} (h : s.PointsInto lines) :
    ∃ line, lines[(s.startLine - 1).toNat]? = some line := by
  have hpos := h.startLine_pos
  have hle := h.startLine_le
  have hend := h.endLine_le
  have hlt : (s.startLine - 1).toNat < lines.length := by omega
  exact ⟨lines[(s.startLine - 1).toNat], List.getElem?_eq_getElem hlt⟩

/-- The line above the span, if there is one. -/
theorem Span.PointsInto.lineAbove_eq {lines : List Text} {s : Span} (h : s.PointsInto lines) :
    (if s.startLine ≥ 2 then lines[(s.startLine - 2).toNat]? else .none) =
      (lines.take (s.startLine - 1).toNat).getLast? := by
  have hpos := h.startLine_pos
  have hle := h.startLine_le
  have hend := h.endLine_le
  split
  · have hindex : (s.startLine - 1).toNat = (s.startLine - 2).toNat + 1 := by omega
    have hlength : (s.startLine - 2).toNat + 1 ≤ lines.length := by omega
    rw [hindex, List.getLast?_eq_getElem?, List.length_take, Nat.min_eq_left hlength,
      Nat.add_sub_cancel, List.getElem?_take_of_lt (Nat.lt_succ_self _)]
  · have hindex : (s.startLine - 1).toNat = 0 := by omega
    rw [hindex, List.take_zero, List.getLast?_nil]

/-- A failure that points into the lines is shown with the line above, if there is one, the line
    itself and carets below the span. -/
theorem Failure.render_of_pointsInto {lines : List Text} {f : Failure} {line : Text}
    (h : f.span.PointsInto lines) (hline : lines[(f.span.startLine - 1).toNat]? = some line) :
    f.render lines = Text.intercalate Text.newline
      ((lines.take (f.span.startLine - 1).toNat).getLast?.toList ++
        [line, Text.join [Text.blanks f.span.startCol.toNat,
          List.replicate (f.span.width line.length) 0x5e, " ", f.span.toText]] ++
        (f.headline :: f.hints).map (Text.blanks f.span.startCol.toNat ++ ·)) := by
  have hwidth : Failure.caretWidth f.span line.length = f.span.width line.length := by
    -- The width is at least one without the bound that the carets have.
    have hstart := h.startCol_lt line hline
    have hend := h.endCol
    rw [Failure.caretWidth, Span.width]
    split
    · rename_i hsame
      have := (hend hsame.symm).1
      omega
    · omega
  rw [Failure.render, h.isSome, if_neg (by decide), hline]
  simp only [hwidth, h.lineAbove_eq]

end Goat
