import Goat.Compilation.Log
import Mathlib.Data.List.Induction

/-!
# Labelled lines

The entries of a log fall into lines. Every label is midway through a line exactly if an entry has
come in since the last line ended, so all labels put themselves in front of the same entries: the
first ones of the lines. A buffer and a stream behind the same labels hold the same text.
-/

namespace Goat

theorem Text.intercalate_isPrefix (separator : Text) (xs ys : List Text) :
    intercalate separator xs <+: intercalate separator (xs ++ ys) := by
  by_cases hxs : xs = []
  · subst hxs
    exact List.nil_prefix
  by_cases hys : ys = []
  · subst hys
    simp
  · rw [intercalate_append separator hxs hys, List.append_assoc]
    exact List.prefix_append _ _

namespace Log

/-- Takes entries one after the other. -/
def writeAll (log : Log) (entries : List Entry) : Log := entries.foldl write log

theorem writeAll_concat (log : Log) (entries : List Entry) (entry : Entry) :
    log.writeAll (entries ++ [entry]) = (log.writeAll entries).write entry := by
  simp [writeAll]

/-! ### Lines of entries -/

/-- Entries cut where a line ends: finished lines, whose last entries end them, and an unfinished
    one. -/
structure AreLines (entries : List Entry) (finished : List (List Entry)) (unfinished : List Entry) :
    Prop where
  flatten : finished.flatten ++ unfinished = entries
  ends : ∀ line ∈ finished, ∃ front last,
    line = front ++ [last] ∧ last.endsLine = true ∧ ∀ e ∈ front, e.endsLine = false
  goesOn : ∀ e ∈ unfinished, e.endsLine = false

section

variable {entries unfinished : List Entry} {finished : List (List Entry)} {entry : Entry}

/-- An entry that ends a line finishes the unfinished one. -/
theorem AreLines.finish (h : AreLines entries finished unfinished) (hends : entry.endsLine = true) :
    AreLines (entries ++ [entry]) (finished ++ [unfinished ++ [entry]]) [] where
  flatten := by simp [← h.flatten]
  ends line hline := by
    rcases List.mem_append.1 hline with hline | hline
    · exact h.ends line hline
    · rw [List.mem_singleton.1 hline]
      exact ⟨unfinished, entry, rfl, hends, h.goesOn⟩
  goesOn := by simp

/-- Another entry goes on the unfinished line. -/
theorem AreLines.goOn (h : AreLines entries finished unfinished) (hends : entry.endsLine = false) :
    AreLines (entries ++ [entry]) finished (unfinished ++ [entry]) where
  flatten := by simp [← h.flatten]
  ends := h.ends
  goesOn e he := by
    rcases List.mem_append.1 he with he | he
    · exact h.goesOn e he
    · rw [List.mem_singleton.1 he]
      exact hends

end

/-- The text of the entries of a line: the labels stand in front of the values of the first entry
    and nowhere else. -/
def lineText (labels : List Text) : List Entry → Text
  | [] => []
  | first :: rest =>
    showAll (labels.map .text ++ first.values) ++ rest.flatMap fun e => showAll e.values

@[simp] theorem lineText_nil (labels : List Text) : lineText labels [] = [] := rfl

/-- A line with an entry starts with the labels. -/
theorem labels_prefix_lineText (labels : List Text) {line : List Entry} (hline : line ≠ []) :
    Text.intercalate " " labels <+: lineText labels line := by
  obtain ⟨first, rest, rfl⟩ := List.exists_cons_of_ne_nil hline
  have hshown : (labels.map Value.text ++ first.values).map Value.show =
      labels ++ first.values.map Value.show := by
    simp [Function.comp_def, Value.show]
  rw [lineText, showAll, hshown]
  exact (Text.intercalate_isPrefix " " labels _).trans (List.prefix_append _ _)

/-! ### Passing labels -/

/-- Labels that are all midway through a line, or all at its start; the outermost first. -/
def labelsAt (labels : List Text) (midway : Bool) : List Label :=
  labels.reverse.map fun text => ⟨text, midway⟩

theorem passAll_midway (texts : List Text) (entry : Entry) :
    passAll (texts.map fun text => ⟨text, true⟩) entry =
      (texts.map fun text => ⟨text, !entry.endsLine⟩, entry) := by
  induction texts with
  | nil => rfl
  | cons text texts ih =>
    simp only [List.map_cons, passAll, Label.pass, if_true, ih]

theorem passAll_start (texts : List Text) (entry : Entry) :
    passAll (texts.map fun text => ⟨text, false⟩) entry =
      (texts.map fun text => ⟨text, !entry.endsLine⟩,
        { entry with values := texts.reverse.map .text ++ entry.values }) := by
  induction texts generalizing entry with
  | nil => rfl
  | cons text texts ih =>
    simp only [List.map_cons, passAll, Label.pass, Bool.false_eq_true, if_false, ih]
    simp

/-- The entry as it reaches the sink: labels come in front of it if it is the first of its line. -/
def reaching (labels : List Text) (unfinished : List Entry) (entry : Entry) : Entry :=
  if unfinished.isEmpty then { entry with values := labels.map .text ++ entry.values } else entry

theorem endsLine_reaching (labels : List Text) (unfinished : List Entry) (entry : Entry) :
    (reaching labels unfinished entry).endsLine = entry.endsLine := by
  unfold reaching
  split <;> rfl

theorem lineText_concat (labels : List Text) (unfinished : List Entry) (entry : Entry) :
    lineText labels (unfinished ++ [entry]) =
      lineText labels unfinished ++ showAll (reaching labels unfinished entry).values := by
  cases unfinished with
  | nil => simp [lineText, reaching]
  | cons first rest => simp [lineText, reaching]

theorem passAll_labelsAt (labels : List Text) (unfinished : List Entry) (entry : Entry) :
    passAll (labelsAt labels !unfinished.isEmpty) entry =
      (labelsAt labels !entry.endsLine, reaching labels unfinished entry) := by
  cases unfinished with
  | nil =>
    rw [labelsAt, List.isEmpty_nil, Bool.not_true, passAll_start, List.reverse_reverse]
    rfl
  | cons first rest =>
    rw [labelsAt, List.isEmpty_cons, Bool.not_false, passAll_midway]
    rfl

/-! ### Writing lines -/

/-- A log behind labels with the entries of an unfinished line. -/
def behind (labels : List Text) (unfinished : List Entry) (sink : Sink) : Log :=
  ⟨labelsAt labels !unfinished.isEmpty, sink⟩

/-- The entries of the unfinished line after another entry. -/
def unfinishedAfter (unfinished : List Entry) (entry : Entry) : List Entry :=
  if entry.endsLine then [] else unfinished ++ [entry]

/-- The labels stay in step with the lines. -/
theorem write_behind (labels : List Text) (unfinished : List Entry) (sink : Sink) (entry : Entry) :
    (behind labels unfinished sink).write entry =
      behind labels (unfinishedAfter unfinished entry)
        (sink.write (reaching labels unfinished entry)) := by
  have hmidway : (!(unfinishedAfter unfinished entry).isEmpty) = !entry.endsLine := by
    unfold unfinishedAfter
    cases entry.endsLine <;> simp
  simp only [behind, write, passAll_labelsAt, hmidway]

/-- A buffer that holds the lines of some entries. -/
def bufferOf (labels : List Text) (finished : List (List Entry)) (unfinished : List Entry) : Sink :=
  .buffer (finished.map (lineText labels)) (lineText labels unfinished)

section

variable {labels : List Text} {finished : List (List Entry)} {unfinished : List Entry}
  {entry : Entry}

/-- The last entry of a line makes one more finished line, in a buffer and in a stream. -/
theorem write_finish (hends : entry.endsLine = true) :
    (bufferOf labels finished unfinished).write (reaching labels unfinished entry) =
        bufferOf labels (finished ++ [unfinished ++ [entry]]) [] ∧
      (Sink.stream (bufferOf labels finished unfinished).text).write
          (reaching labels unfinished entry) =
        .stream (bufferOf labels (finished ++ [unfinished ++ [entry]]) []).text := by
  simp only [bufferOf, Sink.write, Sink.text, endsLine_reaching, hends, if_true, List.append_assoc,
    lineText_concat, List.map_append, List.map_cons, List.map_nil, lineText_nil]
  simp [Text.join]

/-- Any other entry makes the unfinished line longer. -/
theorem write_goOn (hends : entry.endsLine = false) :
    (bufferOf labels finished unfinished).write (reaching labels unfinished entry) =
        bufferOf labels finished (unfinished ++ [entry]) ∧
      (Sink.stream (bufferOf labels finished unfinished).text).write
          (reaching labels unfinished entry) =
        .stream (bufferOf labels finished (unfinished ++ [entry])).text := by
  simp only [bufferOf, Sink.write, Sink.text, endsLine_reaching, hends, Bool.false_eq_true,
    if_false, List.append_assoc, lineText_concat, and_self]

end

/-- A buffer and a stream behind the same labels hold the lines of the entries that they took. -/
theorem exists_lines_writeAll (labels : List Text) (entries : List Entry) :
    ∃ finished unfinished, AreLines entries finished unfinished ∧
      (new (.buffer [] []) labels).writeAll entries =
        behind labels unfinished (bufferOf labels finished unfinished) ∧
      (new (.stream []) labels).writeAll entries =
        behind labels unfinished (.stream (bufferOf labels finished unfinished).text) := by
  induction entries using List.reverseRecOn with
  | nil => exact ⟨[], [], ⟨rfl, by simp, by simp⟩, rfl, rfl⟩
  | append_singleton entries entry ih =>
    obtain ⟨finished, unfinished, hlines, hbuffer, hstream⟩ := ih
    rw [writeAll_concat, writeAll_concat, hbuffer, hstream, write_behind, write_behind]
    cases hends : entry.endsLine with
    | true =>
      obtain ⟨hbuffer', hstream'⟩ := @write_finish labels finished unfinished entry hends
      refine ⟨_, [], hlines.finish hends, ?_, ?_⟩
      · rw [hbuffer', unfinishedAfter, if_pos hends]
      · rw [hstream', unfinishedAfter, if_pos hends]
    | false =>
      obtain ⟨hbuffer', hstream'⟩ := @write_goOn labels finished unfinished entry hends
      refine ⟨finished, _, hlines.goOn hends, ?_, ?_⟩
      · rw [hbuffer', unfinishedAfter, hends, if_neg Bool.false_ne_true]
      · rw [hstream', unfinishedAfter, hends, if_neg Bool.false_ne_true]

/-- Behind the same labels, a stream has written the text of a buffer that took the same entries.
    The buffer holds the lines of the entries, with the labels once in front of every finished line
    and of an unfinished one that is not empty. -/
theorem buffer_stream_agree (labels : List Text) (entries : List Entry) :
    ((new (.stream []) labels).writeAll entries).sink =
        .stream ((new (.buffer [] []) labels).writeAll entries).sink.text ∧
      ∃ finished unfinished, AreLines entries finished unfinished ∧
        ((new (.buffer [] []) labels).writeAll entries).sink =
          .buffer (finished.map (lineText labels)) (lineText labels unfinished) ∧
        (∀ line ∈ ((new (.buffer [] []) labels).writeAll entries).sink.lines,
          Text.intercalate " " labels <+: line) ∧
        (lineText labels unfinished ≠ [] →
          Text.intercalate " " labels <+: lineText labels unfinished) := by
  obtain ⟨finished, unfinished, hlines, hbuffer, hstream⟩ := exists_lines_writeAll labels entries
  rw [hbuffer, hstream]
  refine ⟨rfl, finished, unfinished, hlines, rfl, ?_, ?_⟩
  · intro line hline
    obtain ⟨es, hes, rfl⟩ := List.mem_map.1 hline
    obtain ⟨front, last, rfl, -, -⟩ := hlines.ends es hes
    exact labels_prefix_lineText labels (by simp)
  · intro hne
    apply labels_prefix_lineText
    rintro rfl
    exact hne rfl

end Log

end Goat
