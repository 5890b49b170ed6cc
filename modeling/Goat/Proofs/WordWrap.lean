import Goat.Proofs.Partition
import Goat.Text.Wrap
import Mathlib.Data.List.Chain

/-!
# Greedy word wrapping

A text is wrapped by cutting its words into rows, one for each line. A row takes words as long as
its line stays within the width, so that only a row of one word can be too long, and no row could
have taken the first word of the next one. There is just one way to cut words into such rows.
-/

namespace Goat.Text

/-! ### Words -/

theorem ofGlyphs_reverse_ne_nil {word : List Glyph} (hword : ∀ u ∈ word, u.bytes ≠ [])
    (hne : word ≠ []) : ofGlyphs word.reverse ≠ [] := by
  intro hnil
  obtain ⟨u, rest, rfl⟩ := List.exists_cons_of_ne_nil hne
  apply hword u List.mem_cons_self
  exact List.flatMap_eq_nil_iff.1 hnil u (List.mem_reverse.2 List.mem_cons_self)

theorem ne_nil_of_mem_wordsFrom {word us : List Glyph} {w : Text}
    (hword : ∀ u ∈ word, u.bytes ≠ []) (hus : ∀ u ∈ us, u.bytes ≠ [])
    (h : w ∈ wordsFrom word us) : w ≠ [] := by
  fun_induction wordsFrom word us with
  | case1 => simp at h
  | case2 word hne =>
    rw [List.mem_singleton.1 h]
    exact ofGlyphs_reverse_ne_nil hword (by simpa using hne)
  | case3 word u rest hblank hempty ih =>
    exact ih (by simp) (List.forall_mem_cons.1 hus).2 h
  | case4 word u rest hblank hne ih =>
    rcases List.mem_cons.1 h with rfl | h
    · exact ofGlyphs_reverse_ne_nil hword (by simpa using hne)
    · exact ih (by simp) (List.forall_mem_cons.1 hus).2 h
  | case5 word u rest hblank ih =>
    obtain ⟨hu, hrest⟩ := List.forall_mem_cons.1 hus
    apply ih _ hrest h
    intro u' hu'
    rcases List.mem_cons.1 hu' with rfl | hu'
    · exact hu
    · exact hword u' hu'

/-- Words are not empty. -/
theorem ne_nil_of_mem_words {t w : Text} (h : w ∈ words t) : w ≠ [] :=
  ne_nil_of_mem_wordsFrom (by simp) (fun _ hu => bytes_ne_nil_of_mem_glyphs hu) h

/-! ### Rows -/

/-- The line of a row of words: the indent and the words with blanks between them. -/
def rowLine (indent : Text) (row : List Text) : Text := indent ++ intercalate [0x20] row

section

variable {indent word : Text} {row more : List Text}

theorem rowLine_append (hrow : row ≠ []) (hmore : more ≠ []) :
    rowLine indent (row ++ more) = rowLine indent row ++ [0x20] ++ intercalate [0x20] more := by
  simp only [rowLine, intercalate_append _ hrow hmore, List.append_assoc]

theorem rowLine_concat (hrow : row ≠ []) :
    rowLine indent (row ++ [word]) = rowLine indent row ++ [0x20] ++ word :=
  rowLine_append hrow (List.cons_ne_nil word [])

/-- A row with a word makes its line longer than the indent. -/
theorem indent_lt_rowLine (hrow : row ≠ []) (hwords : ∀ w ∈ row, w ≠ []) :
    indent.length < (rowLine indent row).length := by
  obtain ⟨w, rest, rfl⟩ := List.exists_cons_of_ne_nil hrow
  have hw := List.length_pos_iff.2 (hwords w List.mem_cons_self)
  cases rest with
  | nil =>
    simp only [rowLine, intercalate, List.length_append]
    omega
  | cons w' rest =>
    simp only [rowLine, intercalate_cons_cons, List.length_append]
    omega

/-- Cutting off the end of a row makes its line shorter. -/
theorem length_rowLine_concat_le (hrow : row ≠ []) :
    (rowLine indent row).length + 1 + word.length ≤
      (rowLine indent (row ++ word :: more)).length := by
  rw [rowLine_append hrow (List.cons_ne_nil _ _)]
  cases more with
  | nil => simp only [intercalate, List.length_append, List.length_singleton]; omega
  | cons w more =>
    simp only [intercalate_cons_cons, List.length_append, List.length_singleton]
    omega

end

/-- Words cut into rows greedily: a row of several words fits the width behind the indent, and the
    first word of the next row would not have fit. -/
structure IsGreedy (indent : Text) (width : Int) (ws : List Text) (rows : List (List Text)) :
    Prop where
  flatten : rows.flatten = ws
  ne_nil : ∀ row ∈ rows, row ≠ []
  fits : ∀ row ∈ rows, 1 < row.length → (rowLine indent row).length ≤ width
  full : rows.IsChain fun row next =>
    ∀ word ∈ next.head?, width < (rowLine indent row).length + 1 + word.length

/-- The rows that words are cut into, `row` being the one that is filled. -/
def rowsFrom (indent : Text) (width : Int) (row : List Text) : List Text → List (List Text)
  | [] => [row]
  | word :: rest =>
    if width < (rowLine indent row).length + 1 + word.length then
      row :: rowsFrom indent width [word] rest
    else rowsFrom indent width (row ++ [word]) rest

section

variable {indent : Text} {width : Int} {row ws : List Text}

/-- Setting words into lines sets the line of each row. -/
theorem wrapFrom_rowLine (hrow : row ≠ []) (hwords : ∀ w ∈ row ++ ws, w ≠ []) :
    wrapFrom indent width (rowLine indent row) ws =
      (rowsFrom indent width row ws).map (rowLine indent) := by
  have hset : indent.length < (rowLine indent row).length :=
    indent_lt_rowLine hrow fun w hw => hwords w (List.mem_append_left ws hw)
  induction ws generalizing row with
  | nil => simp [wrapFrom, rowsFrom, hset]
  | cons word rest ih =>
    have hword : word ≠ [] := hwords word (by simp)
    rw [wrapFrom, if_pos hset, rowsFrom]
    by_cases hlong : width < (rowLine indent row).length + 1 + word.length
    · rw [if_pos hlong, if_pos hlong, List.map_cons, ← ih (List.cons_ne_nil word [])]
      · rfl
      · intro w hw
        exact hwords w (List.mem_append_right row hw)
      · exact indent_lt_rowLine (List.cons_ne_nil word []) (by simpa using hword)
    · rw [if_neg hlong, if_neg hlong, ← rowLine_concat hrow]
      apply ih
      · simp
      · simpa using hwords
      · apply indent_lt_rowLine
        · simp
        · intro w hw
          apply hwords w
          rw [List.mem_append, List.mem_singleton] at hw
          rw [List.mem_append, List.mem_cons]
          exact hw.imp_right Or.inl

/-- The row being filled becomes the first one, with more words at its end. -/
theorem exists_rowsFrom_eq (indent : Text) (width : Int) (row ws : List Text) :
    ∃ more rows, rowsFrom indent width row ws = (row ++ more) :: rows := by
  induction ws generalizing row with
  | nil => exact ⟨[], [], by simp [rowsFrom]⟩
  | cons word rest ih =>
    rw [rowsFrom]
    split
    · exact ⟨[], _, by rw [List.append_nil]⟩
    · obtain ⟨more, rows, hrows⟩ := ih (row ++ [word])
      exact ⟨word :: more, rows, by simp [hrows]⟩

/-- What is filled greedily is cut greedily. -/
theorem isGreedy_rowsFrom (hrow : row ≠ [])
    (hfits : 1 < row.length → (rowLine indent row).length ≤ width) :
    IsGreedy indent width (row ++ ws) (rowsFrom indent width row ws) := by
  induction ws generalizing row with
  | nil =>
    refine ⟨by simp [rowsFrom], ?_, ?_, List.isChain_singleton row⟩
    · simpa [rowsFrom] using hrow
    · simpa [rowsFrom] using hfits
  | cons word rest ih =>
    rw [rowsFrom]
    by_cases hlong : width < (rowLine indent row).length + 1 + word.length
    · rw [if_pos hlong]
      have hrest : IsGreedy indent width ([word] ++ rest) (rowsFrom indent width [word] rest) :=
        ih (List.cons_ne_nil word []) (fun h => absurd h (by simp))
      refine ⟨?_, List.forall_mem_cons.2 ⟨hrow, hrest.ne_nil⟩,
        List.forall_mem_cons.2 ⟨hfits, hrest.fits⟩, ?_⟩
      · rw [List.flatten_cons, hrest.flatten]
        rfl
      · obtain ⟨more, rows, hrows⟩ := exists_rowsFrom_eq indent width [word] rest
        have hfull := hrest.full
        rw [hrows] at hfull ⊢
        refine List.isChain_cons_cons.2 ⟨?_, hfull⟩
        intro first hfirst
        obtain rfl : word = first := by simpa using hfirst
        exact hlong
    · rw [if_neg hlong]
      have hmore : IsGreedy indent width (row ++ [word] ++ rest)
          (rowsFrom indent width (row ++ [word]) rest) := by
        apply ih (by simp)
        intro _
        simp only [rowLine_concat hrow, List.length_append, List.length_singleton]
        omega
      simpa using hmore

/-- What follows the first row is cut greedily. -/
theorem IsGreedy.tail {rows : List (List Text)} (h : IsGreedy indent width ws (row :: rows)) :
    IsGreedy indent width rows.flatten rows :=
  ⟨rfl, (List.forall_mem_cons.1 h.ne_nil).2, (List.forall_mem_cons.1 h.fits).2, h.full.tail⟩

/-- A first row has no words in front of it that another first row stops at: the next word would
    not have fit there. -/
theorem IsGreedy.no_more {ws' more : List Text} {rows rows' : List (List Text)}
    (h : IsGreedy indent width ws (row :: rows))
    (h' : IsGreedy indent width ws' ((row ++ more) :: rows')) (hrest : more <+: rows.flatten) :
    more = [] := by
  have hrow : row ≠ [] := h.ne_nil row List.mem_cons_self
  by_contra hmore
  obtain ⟨word, more, rfl⟩ := List.exists_cons_of_ne_nil hmore
  have hfits : (rowLine indent (row ++ word :: more)).length ≤ width := by
    apply h'.fits _ List.mem_cons_self
    have := List.length_pos_iff.2 hrow
    simp only [List.length_append, List.length_cons]
    omega
  have hfull : width < (rowLine indent row).length + 1 + word.length := by
    cases rows with
    | nil => simp at hrest
    | cons next rows =>
      obtain ⟨first, others, rfl⟩ := List.exists_cons_of_ne_nil (h.ne_nil next (by simp))
      obtain rfl : word = first := by
        rw [List.flatten_cons, List.cons_append] at hrest
        exact (List.cons_prefix_cons.1 hrest).1
      exact (List.isChain_cons_cons.1 h.full).1 word rfl
  have hlonger := @length_rowLine_concat_le indent word row more hrow
  omega

theorem IsGreedy.eq_nil {rows : List (List Text)} (h : IsGreedy indent width [] rows) :
    rows = [] := by
  cases rows with
  | nil => rfl
  | cons row rows =>
    have hrow : row = [] := (List.append_eq_nil_iff.1 h.flatten).1
    exact absurd hrow (h.ne_nil row List.mem_cons_self)

/-- There is one way to cut words greedily. -/
theorem IsGreedy.unique {rows rows' : List (List Text)} (h : IsGreedy indent width ws rows)
    (h' : IsGreedy indent width ws rows') : rows = rows' := by
  induction rows generalizing rows' ws with
  | nil =>
    obtain rfl : [] = ws := h.flatten
    exact h'.eq_nil.symm
  | cons row rows ih =>
    cases rows' with
    | nil =>
      obtain rfl : [] = ws := h'.flatten
      exact h.eq_nil
    | cons row' rows' =>
      have hsame : row ++ rows.flatten = row' ++ rows'.flatten := h.flatten.trans h'.flatten.symm
      have hrow : row = row' ∧ rows.flatten = rows'.flatten := by
        rcases List.append_eq_append_iff.1 hsame with ⟨more, rfl, hrest⟩ | ⟨more, rfl, hrest⟩
        · obtain rfl := h.no_more h' ⟨_, hrest.symm⟩
          exact ⟨by simp, by simpa using hrest⟩
        · obtain rfl := h'.no_more h ⟨_, hrest.symm⟩
          exact ⟨by simp, by simpa using hrest.symm⟩
      obtain ⟨rfl, hrest⟩ := hrow
      rw [ih h.tail (hrest ▸ h'.tail)]

end

/-- The lines of a wrapped text are rows of its words behind the indent, and each is written with
    a line break. The words are cut into rows greedily, in the only way there is. -/
theorem wrap_greedy (indent : Text) (width : Int) (t : Text) :
    ∃ rows, IsGreedy indent width (words t) rows ∧
      (∀ others, IsGreedy indent width (words t) others → others = rows) ∧
      wrap indent width t = rows.map (rowLine indent) ∧
      ofLines (wrap indent width t) = rows.flatMap (rowLine indent · ++ newline) := by
  suffices h : ∃ rows, IsGreedy indent width (words t) rows ∧
      wrap indent width t = rows.map (rowLine indent) by
    obtain ⟨rows, hgreedy, hlines⟩ := h
    refine ⟨rows, hgreedy, fun others hothers => hothers.unique hgreedy, hlines, ?_⟩
    rw [hlines, ofLines, List.flatMap_map]
  have hwords : ∀ w ∈ words t, w ≠ [] := fun w hw => ne_nil_of_mem_words hw
  rw [wrap]
  cases hws : words t with
  | nil =>
    refine ⟨[], ⟨rfl, by simp, by simp, List.IsChain.nil⟩, ?_⟩
    simp [wrapFrom]
  | cons word rest =>
    rw [hws] at hwords
    have hrow : [word] ≠ [] := List.cons_ne_nil word []
    refine ⟨rowsFrom indent width [word] rest, isGreedy_rowsFrom hrow (by simp), ?_⟩
    rw [wrapFrom, if_neg (Nat.lt_irrefl _)]
    exact wrapFrom_rowLine hrow hwords

end Goat.Text
