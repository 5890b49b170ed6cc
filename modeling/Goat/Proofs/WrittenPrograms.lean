import Goat.Container.Basic
import Goat.Proofs.Compression
import Goat.Proofs.PrintedTokens
import Goat.Tape.Command

/-!
# Written programs read back unchanged

Whatever the format, the level and the width of the lines, reading gives the commands that were
written. The compressed formats are told by their first bytes, and the plain one by starting with
none of these. A plain file is made of lines of the wanted width, the last of which may be
shorter, and ends with the line break of its last line.
-/

namespace Goat

/-! ### Lines of equal width -/

namespace Text

/-- Every piece but the last one has the full size, and the last one is empty only if there is
    nothing to cut. -/
theorem exists_chunks (size : Nat) (t : Text) :
    ∃ front last, chunks size t = front ++ [last] ∧ (∀ row ∈ front, row.length = size + 1) ∧
      last.length ≤ size + 1 ∧ (last = [] → t = []) := by
  fun_induction chunks size t with
  | case1 t hdrop => exact ⟨[], t, rfl, List.forall_mem_nil _, List.drop_eq_nil_iff.1 hdrop, id⟩
  | case2 t b rest hdrop _ ih =>
    obtain ⟨front, last, hchunks, hfront, hlast, hnil⟩ := ih
    have hlength := congrArg List.length hdrop
    rw [List.length_drop, List.length_cons] at hlength
    have hfull : (t.take (size + 1)).length = size + 1 := by
      rw [List.length_take]
      omega
    refine ⟨t.take (size + 1) :: front, last, ?_, List.forall_mem_cons.2 ⟨hfull, hfront⟩, hlast, ?_⟩
    · rw [hchunks, List.cons_append]
    · intro hempty
      cases hnil hempty

/-- The lines that a text is set in: as long as the width says, the last one perhaps shorter. -/
theorem exists_rows (width : Int) (t : Text) :
    ∃ front last, wrapAt width t = intercalate newline (front ++ [last]) ∧
      (front ++ [last]).flatten = t ∧ (last = [] → t = []) ∧
      (0 < width → (∀ row ∈ front, (row.length : Int) = width) ∧ (last.length : Int) ≤ width) := by
  unfold wrapAt
  split
  · rename_i size
    obtain ⟨front, last, hchunks, hfront, hlast, hnil⟩ := exists_chunks size t
    refine ⟨front, last, by rw [hchunks], by rw [← hchunks, flatten_chunks], hnil, ?_⟩
    refine fun _ => ⟨?_, ?_⟩
    · intro row hrow
      rw [hfront row hrow]
      rfl
    · exact Int.ofNat_le.2 hlast
  · rename_i hwidth
    refine ⟨[], t, rfl, List.flatten_singleton, id, fun hpos => ?_⟩
    obtain ⟨size, rfl⟩ := Int.eq_succ_of_zero_lt hpos
    exact absurd rfl (hwidth size)

/-- Parts with a separator between them have one behind every part but the last. -/
theorem intercalate_concat (separator : Text) (front : List Text) (last : Text) :
    intercalate separator (front ++ [last]) = front.flatMap (· ++ separator) ++ last := by
  induction front with
  | nil => rfl
  | cons part front ih =>
    rw [List.cons_append, intercalate, ih, List.flatMap_cons, List.append_assoc, List.append_assoc,
      List.append_assoc]
    simp

section

variable {t : Text}

/-- What is left of the lines without the line breaks is the text. -/
theorem filter_wrapAt {p : UInt8 → Bool} (hp : p 0x0a = false) (ht : ∀ b ∈ t, p b = true)
    (width : Int) : (wrapAt width t).filter p = t := by
  have hlines (front : List Text) :
      (front.flatMap (· ++ newline)).filter p = front.flatten.filter p := by
    induction front with
    | nil => rfl
    | cons row front ih =>
      rw [List.flatMap_cons, List.filter_append, ih, List.filter_append, List.flatten_cons,
        List.filter_append, newline, List.filter_cons_of_neg (by rw [hp]; exact Bool.false_ne_true),
        List.filter_nil, List.append_nil]
  obtain ⟨front, last, hwrap, hflatten, -⟩ := exists_rows width t
  rw [hwrap, intercalate_concat, List.filter_append, hlines, ← List.filter_append]
  rw [List.flatten_append, List.flatten_singleton] at hflatten
  rw [hflatten, List.filter_eq_self]
  exact ht

theorem startsWith_iff {head : Text} : startsWith t head = true ↔ head <+: t :=
  List.isPrefixOf_iff_prefix

theorem endsWith_newline_iff : endsWith t newline = true ↔ t.getLast? = some 0x0a := by
  rw [endsWith, List.isSuffixOf_iff_suffix, newline, List.singleton_suffix_iff_getLast?_eq_some]

theorem wrapAt_nil (width : Int) : wrapAt width [] = [] := by
  unfold wrapAt
  split
  · rw [chunks]
    rfl
  · rfl

/-- The lines have line breaks between them, but none behind the last one. -/
theorem endsWith_wrapAt (ht : OneLine t) (width : Int) :
    endsWith (wrapAt width t) newline = false := by
  rw [← Bool.not_eq_true, endsWith_newline_iff]
  intro hends
  obtain ⟨front, last, hwrap, hflatten, hnil, -⟩ := exists_rows width t
  cases hlast : last.getLast? with
  | none =>
    rw [hnil (List.getLast?_eq_none_iff.1 hlast), wrapAt_nil] at hends
    cases hends
  | some b =>
    rw [hwrap, intercalate_concat, List.getLast?_append, hlast] at hends
    cases hends
    have hmem : (0x0a : UInt8) ∈ (front ++ [last]).flatten := by
      simp [List.mem_of_getLast? hlast]
    exact ht (hflatten ▸ hmem)

end

end Text

/-! ### Files -/

namespace Container

/-- The codecs unpack what they pack, and start it with the first bytes of the format. -/
structure Codecs.Lawful (codecs : Codecs) : Prop where
  gunzip_gzip : ∀ level t, codecs.gunzip (codecs.gzip level t) = .ok t
  magic_gzip : ∀ level t, Gzip.magic <+: codecs.gzip level t
  unzstd_zstd : ∀ level t, codecs.unzstd (codecs.zstd level t) = .ok t
  magic_zstd : ∀ level t, Zstd.magic <+: codecs.zstd level t

theorem Codecs.lawful_stored : Codecs.stored.Lawful where
  gunzip_gzip level t := Gzip.decode_encode level.gzipMark t
  magic_gzip level t := by
    show Gzip.magic <+: Gzip.encode level.gzipMark t
    rw [Gzip.encode, List.append_assoc, List.append_assoc]
    exact List.prefix_append _ _
  unzstd_zstd _ t := Zstd.decode_encode t
  magic_zstd _ t := by
    show Zstd.magic <+: Zstd.encode t
    rw [Zstd.encode, List.append_assoc]
    exact List.prefix_append _ _

section

variable {codecs : Codecs}

theorem decodeWith_gzip {data t : Text} (hmagic : Gzip.magic <+: data)
    (h : codecs.gunzip data = .ok t) : decodeWith codecs data = .ok (joinLines t) := by
  rw [decodeWith, unpackWith, if_pos (Text.startsWith_iff.2 hmagic), h]
  rfl

theorem decodeWith_zstd {data t : Text} (hmagic : Zstd.magic <+: data)
    (h : codecs.unzstd data = .ok t) : decodeWith codecs data = .ok (joinLines t) := by
  have hgzip : Text.startsWith data Gzip.magic = false := by
    obtain ⟨rest, rfl⟩ := hmagic
    rfl
  rw [decodeWith, unpackWith, hgzip, if_neg Bool.false_ne_true,
    if_pos (Text.startsWith_iff.2 hmagic), h]
  rfl

/-- A text without the bytes that compressed data start with is taken as it is. -/
theorem decodeWith_plain {data : Text} (hgzip : 0x1f ∉ data) (hzstd : 0x28 ∉ data) :
    decodeWith codecs data = .ok (joinLines data) := by
  have hunmarked {magic : Text} {b : UInt8} (hmagic : magic.head? = some b) (hb : b ∉ data) :
      Text.startsWith data magic = false := by
    rw [← Bool.not_eq_true, Text.startsWith_iff]
    intro hstarts
    exact hb (hstarts.mem (List.mem_of_head? hmagic))
  rw [decodeWith, unpackWith, hunmarked rfl hgzip, hunmarked rfl hzstd,
    if_neg Bool.false_ne_true, if_neg Bool.false_ne_true]
  rfl

end

/-- Plain text is the lines, the last one with a line break of its own. -/
theorem encodeWith_plain {t : Text} (ht : OneLine t) (codecs : Codecs) {options : Options}
    (h : options.format = .plain) :
    encodeWith codecs options t = Text.wrapAt options.lineWidth t ++ Text.newline := by
  rw [encodeWith, h]
  simp only [endLine, Text.endsWith_wrapAt ht, Bool.false_eq_true, if_false]

/-! ### The bytes of commands -/

theorem mem_of_mem_toText {code : List Command} {b : UInt8} (h : b ∈ Command.toText code) :
    b ∈ ("+-<>.,[]" : Text) := by
  obtain ⟨c, -, rfl⟩ := List.mem_map.1 h
  cases c <;> decide

theorem oneLine_toText (code : List Command) : OneLine (Command.toText code) := by
  intro h
  exact absurd (mem_of_mem_toText h) (by decide)

theorem joinLines_toText (code : List Command) :
    joinLines (Command.toText code) = Command.toText code := by
  rw [joinLines, List.filter_eq_self]
  intro b hb
  have hall : ("+-<>.,[]" : Text).all (fun b => b != 0x0a && b != 0x0d) = true := rfl
  exact List.all_eq_true.1 hall b (mem_of_mem_toText hb)

theorem filter_wrapAt_toText (code : List Command) (width : Int) :
    (Text.wrapAt width (Command.toText code)).filter (· != 0x0a) = Command.toText code := by
  refine Text.filter_wrapAt rfl (fun b hb => bne_iff_ne.2 ?_) width
  rintro rfl
  exact oneLine_toText code hb

/-- A line of commands is read as it is written, over as many lines as it takes. -/
theorem decodeWith_wrapAt (codecs : Codecs) (width : Int) (code : List Command) :
    decodeWith codecs (Text.wrapAt width (Command.toText code) ++ Text.newline) =
      .ok (Command.toText code) := by
  have hbytes {b : UInt8} (hb : b ∈ Text.wrapAt width (Command.toText code) ++ Text.newline) :
      b ∈ ("\n+-<>.,[]" : Text) := by
    rcases List.mem_append.1 hb with hb | hb
    · by_cases hbreak : b = 0x0a
      · exact hbreak ▸ List.mem_cons_self
      · have hmem : b ∈ (Text.wrapAt width (Command.toText code)).filter (· != 0x0a) :=
          List.mem_filter.2 ⟨hb, bne_iff_ne.2 hbreak⟩
        rw [filter_wrapAt_toText] at hmem
        exact List.mem_cons_of_mem _ (mem_of_mem_toText hmem)
    · exact List.mem_singleton.1 hb ▸ List.mem_cons_self
  rw [decodeWith_plain (fun h => absurd (hbytes h) (by decide))
    (fun h => absurd (hbytes h) (by decide)), joinLines, List.filter_append,
    Text.filter_wrapAt rfl (List.filter_eq_self.1 (joinLines_toText code))]
  exact congrArg _ (List.append_nil _)

/-- Programs in any format, at any level and in lines of any width read back as they were. Plain
    files have lines of the wanted width, with a shorter one at most at the end, and end with
    one line break. -/
theorem decodeWith_encodeWith {codecs : Codecs} (hcodecs : codecs.Lawful) (options : Options)
    (code : List Command) :
    decodeWith codecs (encodeWith codecs options (Command.toText code)) =
      .ok (Command.toText code) ∧
    (∀ width, (Text.wrapAt width (Command.toText code)).filter (· != 0x0a) =
      Command.toText code) ∧
    (options.format = .plain →
      (0 < options.lineWidth → ∃ front last,
        Text.lines (encodeWith codecs options (Command.toText code)) = front ++ [last, []] ∧
        (∀ line ∈ front, (line.length : Int) = options.lineWidth) ∧
        (last.length : Int) ≤ options.lineWidth) ∧
      ∃ body, encodeWith codecs options (Command.toText code) = body ++ Text.newline ∧
        Text.endsWith body Text.newline = false) := by
  have hline := oneLine_toText code
  refine ⟨?_, filter_wrapAt_toText code, fun hplain => ⟨fun hwidth => ?_, ?_⟩⟩
  · cases hformat : options.format with
    | plain => rw [encodeWith_plain hline codecs hformat, decodeWith_wrapAt]
    | gzip =>
      rw [encodeWith, hformat]
      rw [decodeWith_gzip (hcodecs.magic_gzip _ _) (hcodecs.gunzip_gzip _ _), joinLines_toText]
    | zstd =>
      rw [encodeWith, hformat]
      rw [decodeWith_zstd (hcodecs.magic_zstd _ _) (hcodecs.unzstd_zstd _ _), joinLines_toText]
  · obtain ⟨front, last, hwrap, hflatten, -, hlengths⟩ :=
      Text.exists_rows options.lineWidth (Command.toText code)
    obtain ⟨hfront, hlast⟩ := hlengths hwidth
    refine ⟨front, last, ?_, hfront, hlast⟩
    have htext : encodeWith codecs options (Command.toText code) =
        Text.intercalate Text.newline (front ++ [last] ++ [[]]) := by
      rw [encodeWith_plain hline codecs hplain, hwrap, Text.intercalate_concat,
        Text.intercalate_concat, List.flatMap_append, List.append_nil, List.append_assoc,
        List.flatMap_singleton]
    have hrows : ∀ row ∈ front ++ [last] ++ [[]], OneLine row := by
      intro row hrow hbreak
      rcases List.mem_append.1 hrow with hrow | hrow
      · exact hline (hflatten ▸ List.mem_flatten.2 ⟨row, hrow, hbreak⟩)
      · rw [List.mem_singleton.1 hrow] at hbreak
        cases hbreak
    rw [htext, Text.lines_intercalate (by simp) hrows, List.append_assoc]
    rfl
  · exact ⟨_, encodeWith_plain hline codecs hplain, Text.endsWith_wrapAt hline _⟩

/-- The width divides the length, so that the last line is a full one. -/
theorem decodeWith_encodeWith_stored :
    Codecs.stored.Lawful ∧
      Text.lines (encode ⟨.plain, .standard, 2⟩ "+[.]") = (["+[", ".]", ""] : List Text) ∧
      decode (encode ⟨.plain, .standard, 2⟩ "+[.]") = .ok "+[.]" ∧
      decode (encode ⟨.gzip, .best, 2⟩ "+[.]") = .ok "+[.]" ∧
      decode (encode ⟨.zstd, .fastest, -1⟩ "+[.]") = .ok "+[.]" := by
  have hread (options : Options) : decode (encode options "+[.]") = .ok "+[.]" :=
    (decodeWith_encodeWith Codecs.lawful_stored options
      [.increment, .loopStart, .write, .loopEnd]).1
  exact ⟨Codecs.lawful_stored, by decide +kernel, hread _, hread _, hread _⟩

end Container

end Goat
