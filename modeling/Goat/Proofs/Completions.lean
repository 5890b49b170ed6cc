import Goat.Proofs.WordWrap
import Goat.Repl.Completion

/-!
# Completions extend the line

The completions of a line that ends in a word are the line with this word replaced by the words of
the vocabulary that start with it, so each of them has the line in front. Words are found among the
characters of the line, and the part in front of the last one is cut off in bytes. The two agree
because a word at the end of the line takes its last bytes; they do not if white space follows the
word, and then no completion has the line in front.
-/

namespace Goat

namespace Text

/-! ### Characters and bytes -/

theorem ofGlyphs_cons (u : Glyph) (us : List Glyph) : ofGlyphs (u :: us) = u.bytes ++ ofGlyphs us :=
  rfl

theorem ofGlyphs_append (us ws : List Glyph) : ofGlyphs (us ++ ws) = ofGlyphs us ++ ofGlyphs ws :=
  List.flatMap_append

/-- The characters of a text take all its bytes. -/
theorem ofGlyphs_glyphs (t : Text) : ofGlyphs (glyphs t) = t := by
  fun_induction glyphs t with
  | case1 => rfl
  | case2 b rest char size hfirst ih =>
    rw [ofGlyphs_cons, ih, List.cons_append, List.take_append_drop]

/-- A character whose last byte is an ASCII character is this character. -/
def Glyph.EndsPlainly (u : Glyph) : Prop :=
  ∀ b ∈ u.bytes.getLast?, b < 0x80 → u = ⟨some (Char.ofNat b.toNat), [b]⟩

theorem Glyph.endsPlainly_single {char : Option Char} {b : UInt8}
    (h : b < 0x80 → char = some (Char.ofNat b.toNat)) : Glyph.EndsPlainly ⟨char, [b]⟩ := by
  intro x hx hplain
  obtain rfl : b = x := by simpa using hx
  rw [h hplain]

theorem Glyph.endsPlainly_of_continuation {char : Option Char} (bytes : Text) {b : UInt8}
    (h : isContinuation b = true) : Glyph.EndsPlainly ⟨char, bytes ++ [b]⟩ := by
  intro x hx hplain
  rw [List.getLast?_concat] at hx
  cases hx
  simp only [isContinuation, Bool.and_eq_true, decide_eq_true_eq] at h
  exact absurd hplain (UInt8.not_lt.2 h.1)

theorem decodeFirst_pos (t : Text) : 0 < (decodeFirst t).2 := by
  fun_cases decodeFirst t <;> exact Nat.succ_pos _

/-- The last of several bytes is no ASCII character, and neither is a stray byte. -/
theorem endsPlainly_decodeFirst (t : Text) :
    Glyph.EndsPlainly ⟨(decodeFirst t).1, t.take (decodeFirst t).2⟩ := by
  fun_cases decodeFirst t with
  | case1 =>
    rintro b ⟨⟩
  | case2 b0 | case4 b0 =>
    exact Glyph.endsPlainly_single fun _ => rfl
  | case3 b0 hb0 | case6 b0 b1 hb0 | case8 b0 b1 hb0 | case10 b0 b1 hb0 =>
    exact Glyph.endsPlainly_single fun h => absurd h hb0
  | case5 b0 b1 rest hb0 h =>
    exact Glyph.endsPlainly_of_continuation [b0] (Bool.and_eq_true_iff.1 h).2
  | case7 b0 b1 hb0 hb1 b2 rest h =>
    exact Glyph.endsPlainly_of_continuation [b0, b1] (Bool.and_eq_true_iff.1 h).2
  | case9 b0 b1 hb0 hb1 b2 hb2 b3 rest h =>
    exact Glyph.endsPlainly_of_continuation [b0, b1, b2] (Bool.and_eq_true_iff.1 h).2

theorem endsPlainly_of_mem_glyphs {t : Text} {u : Glyph} (h : u ∈ glyphs t) : u.EndsPlainly := by
  fun_induction glyphs t with
  | case1 => cases h
  | case2 b rest char size hfirst ih =>
    rcases List.mem_cons.1 h with rfl | h
    · have hplain := endsPlainly_decodeFirst (b :: rest)
      obtain ⟨n, hn⟩ := Nat.exists_eq_succ_of_ne_zero (decodeFirst_pos (b :: rest)).ne'
      rw [hfirst] at hplain hn
      subst hn
      exact hplain
    · exact ih h

/-- The last byte of a text is the last one of its last character. -/
theorem getLast?_of_glyphs {t : Text} {us : List Glyph} {u : Glyph} (h : glyphs t = us ++ [u]) :
    t.getLast? = u.bytes.getLast? := by
  have hu : u ∈ glyphs t := by simp [h]
  have ht : t = ofGlyphs us ++ u.bytes := by
    have hlast : ofGlyphs [u] = u.bytes := List.append_nil _
    rw [← ofGlyphs_glyphs t, h, ofGlyphs_append, hlast]
  rw [ht, List.getLast?_append_of_ne_nil _ (bytes_ne_nil_of_mem_glyphs hu)]

theorem glyphs_eq_of_getLast {t : Text} {us : List Glyph} {u : Glyph} {b : UInt8}
    (h : glyphs t = us ++ [u]) (hlast : t.getLast? = some b) (hb : b < 0x80) :
    u = ⟨some (Char.ofNat b.toNat), [b]⟩ := by
  have hu : u ∈ glyphs t := by simp [h]
  rw [getLast?_of_glyphs h] at hlast
  exact endsPlainly_of_mem_glyphs hu b hlast hb

/-! ### The word at the end -/

/-- The text is `front` and then `word`: characters that are no white space, at the start of the
    text or after white space. -/
def EndsInWord (t front word : Text) : Prop :=
  ∃ us ws, glyphs t = us ++ ws ∧ ofGlyphs us = front ∧ ofGlyphs ws = word ∧ ws ≠ [] ∧
    (∀ u ∈ ws, u.isBlank = false) ∧ ∀ u ∈ us.getLast?, u.isBlank = true

/-- The last character of the text is white space. -/
def EndsInBlank (t : Text) : Prop := ∃ u ∈ (glyphs t).getLast?, u.isBlank = true

theorem exists_trailing_word (us : List Glyph) :
    ∃ front ws, us = front ++ ws ∧ (∀ u ∈ ws, u.isBlank = false) ∧
      ∀ u ∈ front.getLast?, u.isBlank = true := by
  induction us using List.reverseRecOn with
  | nil => exact ⟨[], [], by simp⟩
  | append_singleton us u ih =>
    cases hu : u.isBlank with
    | true => exact ⟨us ++ [u], [], by simp [hu]⟩
    | false =>
      obtain ⟨front, ws, rfl, hws, hfront⟩ := ih
      refine ⟨front, ws ++ [u], by simp, fun x hx => ?_, hfront⟩
      rcases List.mem_append.1 hx with hx | hx
      · exact hws x hx
      · rwa [List.mem_singleton.1 hx]

/-- A text that does not end in white space ends in a word. -/
theorem exists_endsInWord {t : Text} (hne : t ≠ []) (h : ¬EndsInBlank t) :
    ∃ front word, EndsInWord t front word := by
  obtain ⟨us, ws, hsplit, hws, hus⟩ := exists_trailing_word (glyphs t)
  refine ⟨_, _, us, ws, hsplit, rfl, rfl, ?_, hws, hus⟩
  rintro rfl
  rw [List.append_nil] at hsplit
  subst hsplit
  cases hlast : (glyphs t).getLast? with
  | none =>
    apply hne
    rw [← ofGlyphs_glyphs t, List.getLast?_eq_none_iff.1 hlast]
    rfl
  | some u => exact h ⟨u, hlast, hus u hlast⟩

section EndsInWord

variable {t front word : Text}

theorem EndsInWord.eq_append (h : EndsInWord t front word) : t = front ++ word := by
  obtain ⟨us, ws, hsplit, rfl, rfl, -⟩ := h
  rw [← ofGlyphs_append, ← hsplit, ofGlyphs_glyphs]

theorem EndsInWord.not_isBlank (h : EndsInWord t front word) : isBlank t = false := by
  obtain ⟨us, ws, hsplit, -, -, hne, hws, -⟩ := h
  obtain ⟨w, hw⟩ := List.exists_mem_of_ne_nil ws hne
  rw [isBlank, List.all_eq_false]
  exact ⟨w, by simp [hsplit, hw], by simp [hws w hw]⟩

/-- The last byte is not that of a white space character in the ASCII range. -/
theorem EndsInWord.getLast?_ne (h : EndsInWord t front word) {b : UInt8} (hb : b < 0x80)
    (hblank : isBlankChar (Char.ofNat b.toNat) = true) : t.getLast? ≠ some b := by
  obtain ⟨us, ws, hsplit, -, -, hne, hws, -⟩ := h
  intro hlast
  obtain ⟨ws, u, rfl⟩ := (List.eq_nil_or_concat' ws).resolve_left hne
  rw [← List.append_assoc] at hsplit
  have hu := hws u (by simp)
  rw [glyphs_eq_of_getLast hsplit hlast hb] at hu
  simp [Glyph.isBlank, hblank] at hu

theorem wordsFrom_append_blank (word us ws : List Glyph) {u : Glyph} (hu : u.isBlank = true) :
    wordsFrom word (us ++ u :: ws) = wordsFrom word us ++ wordsFrom [] ws := by
  fun_induction wordsFrom word us with
  | case1 word hempty => rw [List.nil_append, wordsFrom, if_pos hu, if_pos hempty, List.nil_append]
  | case2 word hne => rw [List.nil_append, wordsFrom, if_pos hu, if_neg hne, List.singleton_append]
  | case3 word x rest hx hempty ih => rw [List.cons_append, wordsFrom, if_pos hx, if_pos hempty, ih]
  | case4 word x rest hx hne ih =>
    rw [List.cons_append, wordsFrom, if_pos hx, if_neg hne, ih, List.cons_append]
  | case5 word x rest hx ih => rw [List.cons_append, wordsFrom, if_neg hx, ih]

theorem wordsFrom_of_forall (word : List Glyph) {ws : List Glyph}
    (hws : ∀ u ∈ ws, u.isBlank = false) :
    wordsFrom word ws = wordsFrom (ws.reverse ++ word) [] := by
  induction ws generalizing word with
  | nil => rfl
  | cons w ws ih =>
    obtain ⟨hw, hrest⟩ := List.forall_mem_cons.1 hws
    have hnext : wordsFrom word (w :: ws) = wordsFrom (w :: word) ws := by simp [wordsFrom, hw]
    rw [hnext, ih (w :: word) hrest, List.reverse_cons, List.append_assoc, List.singleton_append]

/-- The word at the end is the last one of the words. -/
theorem EndsInWord.getLast_words (h : EndsInWord t front word) :
    (words t).getLast? = some word := by
  obtain ⟨us, ws, hsplit, -, rfl, hne, hws, hus⟩ := h
  have hword : wordsFrom [] ws = [ofGlyphs ws] := by
    rw [wordsFrom_of_forall [] hws, wordsFrom]
    simp [hne]
  rw [words, hsplit]
  rcases List.eq_nil_or_concat' us with rfl | ⟨us, u, rfl⟩
  · rw [List.nil_append, hword, List.getLast?_singleton]
  · have hu : u.isBlank = true := hus u (by simp)
    rw [List.append_assoc, List.singleton_append, wordsFrom_append_blank [] us ws hu, hword,
      List.getLast?_concat]

end EndsInWord

theorem wordsFrom_ne_nil {word us : List Glyph} (h : word ≠ [] ∨ ∃ u ∈ us, u.isBlank = false) :
    wordsFrom word us ≠ [] := by
  fun_induction wordsFrom word us with
  | case1 word hempty => simp_all
  | case2 word hne => exact List.cons_ne_nil _ _
  | case3 word x rest hx hempty ih =>
    obtain ⟨u, hu, hblank⟩ := h.resolve_left fun hne => hne (List.isEmpty_iff.1 hempty)
    rcases List.mem_cons.1 hu with rfl | hu
    · rw [hx] at hblank
      cases hblank
    · exact ih (.inr ⟨u, hu, hblank⟩)
  | case4 word x rest hx hne ih => exact List.cons_ne_nil _ _
  | case5 word x rest hx ih => exact ih (.inl (List.cons_ne_nil _ _))

/-- A text that is not all white space has a last word, which is not empty. -/
theorem getLastD_words_ne_nil {t : Text} (h : isBlank t = false) : (words t).getLastD [] ≠ [] := by
  obtain ⟨u, hu, hblank⟩ := List.all_eq_false.1 h
  have hne : words t ≠ [] := wordsFrom_ne_nil (.inr ⟨u, hu, by simpa using hblank⟩)
  rw [List.getLastD_eq_getLast?, List.getLast?_eq_some_getLast hne, Option.getD_some]
  exact ne_nil_of_mem_words (List.getLast_mem hne)

theorem endsWith_singleton {t : Text} {b : UInt8} :
    endsWith t [b] = true ↔ t.getLast? = some b := by
  rw [endsWith, List.isSuffixOf_iff_suffix, List.getLast?_eq_some_iff]
  exact exists_congr fun front => eq_comm

/-- The last byte of a text that ends in white space is a control character, a blank or no ASCII
    character. -/
theorem EndsInBlank.exists_getLast {t : Text} (h : EndsInBlank t) :
    ∃ b, t.getLast? = some b ∧ (b ≤ 0x20 ∨ 0x80 ≤ b) := by
  obtain ⟨u, hu, hblank⟩ := h
  obtain ⟨us, hsplit⟩ := List.getLast?_eq_some_iff.1 hu
  have hbytes := bytes_ne_nil_of_mem_glyphs (List.mem_of_getLast? hu)
  have hlast : t.getLast? = some (u.bytes.getLast hbytes) := by
    rw [getLast?_of_glyphs hsplit, List.getLast?_eq_some_getLast]
  refine ⟨_, hlast, ?_⟩
  by_cases hplain : u.bytes.getLast hbytes < 0x80
  · left
    generalize u.bytes.getLast hbytes = b at hlast hplain
    rw [glyphs_eq_of_getLast hsplit hlast hplain] at hblank
    exact le_of_isBlankChar hplain (by simpa [Glyph.isBlank] using hblank)
  · exact .inr (UInt8.not_lt.1 hplain)

end Text

/-! ### Completing the last word -/

namespace Completion

open Text (EndsInWord EndsInBlank)

/-- A line that ends in a word is completed by putting words of the vocabulary in its place. -/
theorem completions_of_endsInWord {line front word : Text} (h : EndsInWord line front word) :
    completions line = (vocabulary.filter fun w => word <+: w).map (front ++ ·) := by
  have hspace : Text.endsWith line " " = false :=
    Bool.eq_false_iff.2 fun hends =>
      h.getLast?_ne (by decide) (by decide) (Text.endsWith_singleton.1 hends)
  have htab : Text.endsWith line "\t" = false :=
    Bool.eq_false_iff.2 fun hends =>
      h.getLast?_ne (by decide) (by decide) (Text.endsWith_singleton.1 hends)
  have hlast : (Text.words line).getLastD [] = word := by
    rw [List.getLastD_eq_getLast?, h.getLast_words, Option.getD_some]
  have hfront : line.take (line.length - word.length) = front := by
    rw [h.eq_append, List.length_append, Nat.add_sub_cancel, List.take_left]
  unfold completions
  rw [h.not_isBlank, hspace, htab]
  simp only [Bool.or_self, Bool.false_eq_true, if_false, hlast, hfront]
  congr 2
  funext w
  rw [Text.startsWith, Bool.eq_iff_iff, List.isPrefixOf_iff_prefix, decide_eq_true_iff]

theorem line_prefix_of_endsInWord {line front word c : Text} (h : EndsInWord line front word)
    (hc : c ∈ completions line) : line <+: c := by
  rw [completions_of_endsInWord h] at hc
  obtain ⟨w, hw, rfl⟩ := List.mem_map.1 hc
  rw [h.eq_append, List.prefix_append_right_inj]
  simpa using (List.mem_filter.1 hw).2

theorem completions_of_endsWith {line : Text}
    (h : Text.endsWith line " " = true ∨ Text.endsWith line "\t" = true) :
    completions line = [] := by
  unfold completions
  rw [if_pos]
  rcases h with h | h <;> simp [h]

/-- No white space is in the words of the vocabulary. -/
theorem printable_of_mem_vocabulary : ∀ w ∈ vocabulary, ∀ b ∈ w, 0x20 < b ∧ b < 0x80 := by
  decide +kernel

/-- The completions of a line that ends in white space do not have it in front. -/
theorem not_line_prefix_of_endsInBlank {line c : Text} (h : EndsInBlank line)
    (hc : c ∈ completions line) : ¬line <+: c := by
  intro hline
  unfold completions at hc
  split at hc
  · cases hc
  · rename_i hguard
    simp only [Bool.or_eq_true, not_or, Bool.not_eq_true] at hguard
    obtain ⟨w, hw, rfl⟩ := List.mem_map.1 hc
    set last := (Text.words line).getLastD [] with hlast
    have hword : last ≠ [] := Text.getLastD_words_ne_nil hguard.1.1
    obtain ⟨b, hb, hblank⟩ := h.exists_getLast
    have hne : line ≠ [] := by
      rintro rfl
      cases hb
    -- What was cut off has the last byte of the line, and the completion has a word there.
    have hcut : line.drop (line.length - last.length) <+: w := by
      rw [← List.prefix_append_right_inj (line.take (line.length - last.length)),
        List.take_append_drop]
      exact hline
    have hmem : b ∈ line.drop (line.length - last.length) := by
      apply List.mem_of_getLast?
      have := List.length_pos_iff.2 hword
      have := List.length_pos_iff.2 hne
      rw [List.getLast?_drop, if_neg (by omega), hb]
    have hprintable := printable_of_mem_vocabulary w (List.mem_filter.1 hw).1 b (hcut.subset hmem)
    rcases hblank with hle | hle
    · exact absurd hprintable.1 (UInt8.not_lt.2 hle)
    · exact absurd hprintable.2 (UInt8.not_lt.2 hle)

/-- Every completion has the line in front exactly if there is none or the line does not end in
    white space. -/
theorem forall_line_prefix_iff (line : Text) :
    (∀ c ∈ completions line, line <+: c) ↔ completions line = [] ∨ ¬EndsInBlank line := by
  constructor
  · intro hline
    by_cases hempty : completions line = []
    · exact .inl hempty
    · obtain ⟨c, hc⟩ := List.exists_mem_of_ne_nil _ hempty
      exact .inr fun hblank => not_line_prefix_of_endsInBlank hblank hc (hline c hc)
  · rintro (hempty | hblank) c hc
    · rw [hempty] at hc
      cases hc
    · by_cases hline : line = []
      · subst hline
        exact List.nil_prefix
      · obtain ⟨front, word, hword⟩ := Text.exists_endsInWord hline hblank
        exact line_prefix_of_endsInWord hword hc

/-- Completions extend the line, if this does not end in white space other than a blank or a tab.
    They are the line with the word at its end replaced by each word of the vocabulary that starts
    with it, in order; there are none if the line does not end in a word. -/
theorem completions_extend_line {line : Text}
    (hline : ∀ u ∈ (Text.glyphs line).getLast?, u.isBlank = true →
      u.bytes = (" " : Text) ∨ u.bytes = ("\t" : Text)) :
    (∀ c ∈ completions line, line <+: c) ∧
    (∀ front word, EndsInWord line front word →
      completions line = (vocabulary.filter fun w => word <+: w).map (front ++ ·)) ∧
    ((∀ front word, ¬EndsInWord line front word) → completions line = []) := by
  have hnone (hblank : EndsInBlank line) : completions line = [] := by
    obtain ⟨u, hu, hblank⟩ := hblank
    obtain ⟨us, hsplit⟩ := List.getLast?_eq_some_iff.1 hu
    have hlast := Text.getLast?_of_glyphs hsplit
    rcases hline u hu hblank with hbytes | hbytes
    · rw [hbytes] at hlast
      exact completions_of_endsWith (.inl (Text.endsWith_singleton.2 hlast))
    · rw [hbytes] at hlast
      exact completions_of_endsWith (.inr (Text.endsWith_singleton.2 hlast))
  refine ⟨(forall_line_prefix_iff line).2 ?_, fun front word => completions_of_endsInWord, ?_⟩
  · by_cases hblank : EndsInBlank line
    · exact .inl (hnone hblank)
    · exact .inr hblank
  · intro hword
    by_cases hempty : line = []
    · subst hempty
      simp [completions, Text.isBlank_nil]
    · apply hnone
      by_contra hblank
      obtain ⟨front, word, h⟩ := Text.exists_endsInWord hempty hblank
      exact hword front word h

/-- A word after a no-break space is completed, and the space stays. -/
theorem completions_extend_line_spaced :
    (∀ u ∈ (Text.glyphs "Int\u00a0pri").getLast?, u.isBlank = true →
      u.bytes = (" " : Text) ∨ u.bytes = ("\t" : Text)) ∧
    EndsInWord "Int\u00a0pri" "Int\u00a0" "pri" ∧
    (∀ c ∈ completions "Int\u00a0pri", ("Int\u00a0pri" : Text) <+: c) ∧
    completions "Int\u00a0pri" = ["Int\u00a0print", "Int\u00a0printN"] := by
  have hline : ∀ u ∈ (Text.glyphs "Int\u00a0pri").getLast?, u.isBlank = true →
      u.bytes = (" " : Text) ∨ u.bytes = ("\t" : Text) := by decide +kernel
  have hword : EndsInWord "Int\u00a0pri" "Int\u00a0" "pri" :=
    ⟨Text.glyphs "Int\u00a0", Text.glyphs "pri", by decide +kernel⟩
  obtain ⟨hextend, hcompletions, -⟩ := completions_extend_line hline
  refine ⟨hline, hword, hextend, ?_⟩
  rw [hcompletions _ _ hword]
  decide +kernel

/-- If a no-break space follows the word, the completions repeat a part of the word. -/
theorem completions_before_space :
    completions "pri\u00a0" = ["prprint", "prprintN"] ∧
      ∃ c ∈ completions "pri\u00a0", ¬("pri\u00a0" : Text) <+: c := by
  have hcompletions : completions "pri\u00a0" = ["prprint", "prprintN"] := by decide +kernel
  refine ⟨hcompletions, "prprint", ?_, by decide +kernel⟩
  rw [hcompletions]
  exact List.mem_cons_self

end Completion

end Goat
