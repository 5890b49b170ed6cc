import Goat.Proofs.Partition
import Goat.Proofs.SpanBlindness

/-!
# Respaced source text

A source text can be written anew as its tokens with a blank between any two of them. A blank
keeps what it separates apart and joins no delimiter, so the new text has the same tokens. As
nothing but the values of the tokens counts, it compiles to the same code, or fails for the same
reason.
-/

namespace Goat

theorem Text.not_mem_of_mem_splitOn {separator : UInt8} {t piece : Text}
    (h : piece ∈ splitOn separator t) : separator ∉ piece := by
  induction t generalizing piece with
  | nil =>
    rw [splitOn, List.mem_singleton] at h
    rw [h]
    exact List.not_mem_nil
  | cons b t ih =>
    rw [splitOn] at h
    split at h
    · rcases List.mem_cons.1 h with rfl | h
      · exact List.not_mem_nil
      · exact ih h
    · rename_i hb
      obtain ⟨first, pieces, hpieces⟩ := List.exists_cons_of_ne_nil (splitOn_ne_nil separator t)
      rw [hpieces] at h ih
      rcases List.mem_cons.1 h with rfl | h
      · rw [List.mem_cons, not_or]
        exact ⟨Ne.symm hb, ih List.mem_cons_self⟩
      · exact ih (List.mem_cons_of_mem _ h)

namespace Token

/-- What the value of a token is like: more than white space on one line, and a delimiter or a
    text without one. -/
structure IsValue (v : Text) : Prop where
  not_blank : Text.isBlank v = false
  oneLine : OneLine v
  delimiter_or_bare : v ∈ delimiters ∨ ∀ k < v.length, ¬OpensDelimiter (v.drop k)

theorem OpensDelimiter.append {t : Text} (h : OpensDelimiter t) (rest : Text) :
    OpensDelimiter (t ++ rest) := by
  obtain ⟨d, hd, hprefix⟩ := h
  exact ⟨d, hd, hprefix.trans (List.prefix_append t rest)⟩

theorem isValue_of_mem_ofSource {source : Text} {t : Token} (h : t ∈ ofSource source) :
    IsValue t.value := by
  obtain ⟨hblank, k, front, rest, hpiece⟩ := mem_ofLines.1 h
  refine ⟨hblank, ?_, ?_⟩
  · obtain ⟨line, hline, hcut⟩ := hpiece.line
    have hnewline := Text.not_mem_of_mem_splitOn (List.mem_of_getElem? hline)
    intro hmem
    apply hnewline
    rw [← flatten_cut line, hcut]
    exact List.mem_flatten.2 ⟨t.value, by simp, hmem⟩
  · cases hpiece.cutBetween with
    | delimiter hmem _ => exact .inl hmem
    | word hbare _ _ =>
      refine .inr fun k hk hopens => hbare k hk ?_
      rw [List.drop_append_of_le_length (Nat.le_of_lt hk)]
      exact hopens.append _

/-- The text is empty or starts with a blank. -/
def Spaced (t : Text) : Prop := ∀ b ∈ t.head?, b = 0x20

theorem Spaced.delimited {t : Text} (h : Spaced t) : Delimited t := by
  intro b hb
  rw [h b hb]
  decide

theorem spaced_nil : Spaced [] := by
  intro b hb
  cases hb

theorem spaced_blank (t : Text) : Spaced (" " ++ t) := by
  intro b hb
  cases hb
  rfl

/-- No delimiter ends with a blank, but the blank itself. -/
theorem not_isPair_blank (a : UInt8) : isPair a 0x20 = false := by
  rw [isPair, decide_eq_false_iff_not]
  intro hmem
  have hsecond : ∀ pair ∈ pairs, pair[1]? ≠ some 0x20 := by decide
  exact hsecond _ hmem rfl

theorem Spaced.not_isPair {t : Text} (h : Spaced t) (a : UInt8) :
    ∀ b ∈ t.head?, isPair a b = false := by
  intro b hb
  rw [h b hb]
  exact not_isPair_blank a

/-- In front of a blank no delimiter starts in a text that has none. -/
theorem Bare.of_spaced {v t : Text} (hv : ∀ k < v.length, ¬OpensDelimiter (v.drop k))
    (ht : Spaced t) : Bare v t := by
  intro k hk hopens
  rw [List.drop_append_of_le_length (Nat.le_of_lt hk)] at hopens
  apply hv k hk
  rw [List.drop_eq_getElem_cons hk] at hopens ⊢
  rw [List.cons_append, opensDelimiter_cons] at hopens
  rw [opensDelimiter_cons]
  rcases hopens with hsingle | ⟨b, hb, hpair⟩
  · exact .inl hsingle
  · right
    cases hrest : v.drop (k + 1) with
    | nil =>
      rw [hrest, List.nil_append] at hb
      rw [ht.not_isPair _ b hb] at hpair
      cases hpair
    | cons c rest =>
      rw [hrest, List.cons_append] at hb
      exact ⟨b, hb, hpair⟩

theorem cutFrom_of_not_opens {a : UInt8} {t : Text} (h : ¬OpensDelimiter (a :: t)) (word : Text) :
    cutFrom word (a :: t) = cutFrom (a :: word) t := by
  rw [opensDelimiter_cons, not_or] at h
  cases t with
  | nil => simp [cutFrom, h.1]
  | cons b t =>
    have hpair : ¬isPair a b = true := fun hpair => h.2 ⟨b, rfl, hpair⟩
    simp [cutFrom, h.1, hpair]

theorem cutFrom_bare {v t : Text} (h : Bare v t) (word : Text) :
    cutFrom word (v ++ t) = cutFrom (v.reverse ++ word) t := by
  induction v generalizing word with
  | nil => rfl
  | cons a v ih =>
    have hfirst : ¬OpensDelimiter (a :: (v ++ t)) := h 0 (Nat.succ_pos _)
    have hrest : Bare v t := fun k hk => h (k + 1) (Nat.succ_lt_succ hk)
    rw [List.cons_append, cutFrom_of_not_opens hfirst, ih hrest, List.reverse_cons,
      List.append_assoc]
    rfl

/-- In front of a blank the value of a token is a token. -/
theorem valuesFrom_value {v t : Text} (hv : IsValue v) (ht : Spaced t) :
    valuesFrom [] (v ++ t) = v :: valuesFrom [] t := by
  rcases hv.delimiter_or_bare with hmem | hbare
  · rcases List.mem_append.1 hmem with hmem | hmem
    · obtain ⟨a, b, rfl, hpair⟩ := exists_of_mem_pairs hmem
      exact valuesFrom_pair hpair hv.not_blank t
    · obtain ⟨a, ha, rfl⟩ := List.mem_map.1 hmem
      rw [List.singleton_append, valuesFrom_single (decide_eq_true ha) (ht.not_isPair a),
        hv.not_blank]
      rfl
  · obtain ⟨pieces, hpieces⟩ := cutFrom_delimited ht.delimited
    rw [valuesFrom, valuesFrom, cutFrom_bare (.of_spaced hbare ht), hpieces, hpieces,
      List.append_nil, List.reverse_reverse, List.filter_cons, List.filter_cons, hv.not_blank,
      List.reverse_nil, Text.isBlank_nil]
    rfl

/-- Values of tokens with blanks between them are the tokens of the text that they make. -/
theorem valuesFrom_intercalate {values : List Text} (h : ∀ v ∈ values, IsValue v) :
    valuesFrom [] (Text.intercalate " " values) = values := by
  have hnil : valuesFrom [] [] = [] := by simp [valuesFrom, cutFrom, Text.isBlank_nil]
  induction values with
  | nil => exact hnil
  | cons v rest ih =>
    obtain ⟨hv, hrest⟩ := List.forall_mem_cons.1 h
    cases rest with
    | nil =>
      have hlast := valuesFrom_value hv spaced_nil
      rwa [List.append_nil, hnil] at hlast
    | cons w rest =>
      rw [Text.intercalate, List.append_assoc, valuesFrom_value hv (spaced_blank _),
        valuesFrom_blank, ih hrest]
      simp

end Token

/-- The tokens of a source text with a blank between any two of them. -/
def Token.respaced (source : Text) : Text :=
  Text.intercalate " " ((Token.ofSource source).map Token.value)

/-- The tokens stay what they are when they are written with blanks between them. -/
theorem Token.values_respaced (source : Text) :
    (Token.ofSource (Token.respaced source)).map Token.value =
      (Token.ofSource source).map Token.value := by
  have hvalues : ∀ v ∈ (Token.ofSource source).map Token.value, Token.IsValue v := by
    intro v hv
    obtain ⟨t, ht, rfl⟩ := List.mem_map.1 hv
    exact Token.isValue_of_mem_ofSource ht
  have hlines : Text.lines (Token.respaced source) = [Token.respaced source] :=
    Text.splitOn_of_not_mem (OneLine.intercalate (by decide) fun v hv => (hvalues v hv).oneLine)
  rw [Token.values_ofSource (Token.respaced source), hlines, List.flatMap_singleton]
  exact Token.valuesFrom_intercalate hvalues

/-- Writing a source text anew, as its tokens with a blank between any two of them, changes
    neither the tokens nor what they compile to: it is the same code with the same variables, or
    the same failure at another place. -/
theorem compile_respaced (source : Text) :
    (Token.ofSource (Token.respaced source)).map Token.value =
      (Token.ofSource source).map Token.value ∧
    ((∃ c, compile source = .ok c ∧ compile (Token.respaced source) = .ok c) ∨
      ∃ f f', compile source = .error f ∧ compile (Token.respaced source) = .error f' ∧
        f'.code = f.code ∧ f'.message = f.message ∧ f' = f.located f'.span) := by
  have hvalues := Token.values_respaced source
  refine ⟨hvalues, ?_⟩
  have hsame := compile_eq_of_values hvalues
  rcases hcompile : compile source with f | c <;>
    rcases hrespaced : compile (Token.respaced source) with f' | c' <;>
    rw [hcompile, hrespaced] at hsame
  · have hplace : f'.withoutSpan = f.withoutSpan := Except.error.inj hsame
    have hlocated : f' = f.located f'.span :=
      calc f' = f'.withoutSpan.located f'.span := rfl
        _ = f.withoutSpan.located f'.span := by rw [hplace]
        _ = f.located f'.span := rfl
    have hcode : f'.code = (f.located f'.span).code := congrArg Failure.code hlocated
    have hmessage : f'.message = (f.located f'.span).message := congrArg Failure.message hlocated
    exact .inr ⟨f, f', rfl, rfl, hcode, hmessage, hlocated⟩
  · cases hsame
  · cases hsame
  · cases hsame
    exact .inl ⟨_, rfl, rfl⟩

end Goat
