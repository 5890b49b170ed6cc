import Goat.Config.Environment
import Mathlib.Data.List.TakeWhile

/-!
# References in a text

A text with references splits into plain text and references, each taken at the first place at
or behind the end of the one before it where a reference starts. There is one such split, and
interpolation puts the value of every reference in its place.
-/

namespace Goat.Environment

/-! ### Reading one reference -/

/-- The reference can be written: its name is not empty, and no byte ends the name, the fallback
    or the reference too early. -/
structure Reference.WellFormed (r : Reference) : Prop where
  name_ne_nil : r.name ≠ []
  name_bytes : ∀ b ∈ r.name, b ≠ 0x7d ∧ b ≠ 0x3a
  fallback_bytes : ∀ t ∈ r.fallback, ∀ b ∈ t, b ≠ 0x7d

/-- What is written behind the name. -/
def tailText : Option Text → Text
  | none => [0x7d]
  | some t => 0x3a :: 0x2d :: (t ++ [0x7d])

theorem Reference.toText_eq (r : Reference) :
    r.toText = 0x24 :: 0x7b :: (r.name ++ tailText r.fallback) := by
  have hopening : Text.ofString "$\x7b" = [0x24, 0x7b] := rfl
  have hmark : Text.ofString ":-" = [0x3a, 0x2d] := rfl
  have hclosing : Text.ofString "\x7d" = [0x7d] := rfl
  cases hfallback : r.fallback <;>
    simp [Reference.toText, Text.join, tailText, hfallback, hopening, hmark, hclosing]

section

variable {name t rest : Text} {r : Reference}

theorem isFallbackByte_iff {b : UInt8} : isFallbackByte b = true ↔ b ≠ 0x7d := by
  simp [isFallbackByte]

theorem isNameByte_iff {b : UInt8} : isNameByte b = true ↔ b ≠ 0x7d ∧ b ≠ 0x3a := by
  simp [isNameByte]

theorem readTail_tailText {fallback : Option Text}
    (hbytes : ∀ t ∈ fallback, ∀ b ∈ t, b ≠ 0x7d) (rest : Text) :
    readTail? name (tailText fallback ++ rest) = some (⟨name, fallback⟩, rest) := by
  cases fallback with
  | none => rfl
  | some t =>
    have hall : ∀ b ∈ t, isFallbackByte b = true := by
      intro b hb
      exact isFallbackByte_iff.2 (hbytes t rfl b hb)
    have hend : isFallbackByte 0x7d = false := rfl
    simp only [tailText, List.cons_append, List.append_assoc, List.nil_append, readTail?]
    rw [List.dropWhile_append_of_pos hall, List.takeWhile_append_of_pos hall,
      List.dropWhile_cons_of_neg (by simp [hend]), List.takeWhile_cons_of_neg (by simp [hend]),
      List.append_nil]
    rfl

theorem eq_of_readTail (h : readTail? name t = some (r, rest)) :
    r.name = name ∧ (∀ f ∈ r.fallback, ∀ b ∈ f, b ≠ 0x7d) ∧ t = tailText r.fallback ++ rest := by
  unfold readTail? at h
  split at h
  · obtain ⟨rfl, rfl⟩ := by simpa using h
    exact ⟨rfl, by simp, rfl⟩
  · rename_i tail
    split at h
    · rename_i after hafter
      obtain ⟨rfl, rfl⟩ := by simpa using h
      refine ⟨rfl, ?_, ?_⟩
      · intro f hf b hb
        obtain rfl : tail.takeWhile isFallbackByte = f := by simpa using hf
        exact isFallbackByte_iff.1 (List.mem_takeWhile_imp hb)
      · have hsplit := List.takeWhile_append_dropWhile (p := isFallbackByte) (l := tail)
        rw [hafter] at hsplit
        simp only [tailText, List.cons_append, List.append_assoc, List.nil_append, hsplit]
    · simp at h
  · simp at h

/-- A reference is read where it is written, and nowhere else. -/
theorem reference_eq_some_iff :
    reference? t = some (r, rest) ↔ r.WellFormed ∧ t = r.toText ++ rest := by
  constructor
  · intro h
    unfold reference? at h
    split at h
    · rename_i body
      have hsplit := List.takeWhile_append_dropWhile (p := isNameByte) (l := body)
      simp only at h
      split at h
      · simp at h
      · rename_i hne
        obtain ⟨hname, hfallback, htail⟩ := eq_of_readTail h
        refine ⟨⟨?_, ?_, hfallback⟩, ?_⟩
        · rw [hname]
          simpa using hne
        · rw [hname]
          intro b hb
          exact isNameByte_iff.1 (List.mem_takeWhile_imp hb)
        · rw [r.toText_eq, hname, List.cons_append, List.cons_append, List.append_assoc, ← htail,
            hsplit]
    · simp at h
  · rintro ⟨hr, rfl⟩
    have hall : ∀ b ∈ r.name, isNameByte b = true := by
      intro b hb
      exact isNameByte_iff.2 (hr.name_bytes b hb)
    -- The first byte behind the name is no byte of a name.
    obtain ⟨b, after, hafter, hb⟩ : ∃ b after,
        tailText r.fallback ++ rest = b :: after ∧ isNameByte b = false := by
      cases r.fallback with
      | none => exact ⟨_, _, rfl, rfl⟩
      | some f => exact ⟨_, _, rfl, rfl⟩
    have htake : (r.name ++ (b :: after)).takeWhile isNameByte = r.name := by
      rw [List.takeWhile_append_of_pos hall, List.takeWhile_cons_of_neg (by simp [hb]),
        List.append_nil]
    have hdrop : (r.name ++ (b :: after)).dropWhile isNameByte = b :: after := by
      rw [List.dropWhile_append_of_pos hall, List.dropWhile_cons_of_neg (by simp [hb])]
    rw [r.toText_eq, List.cons_append, List.cons_append, List.append_assoc, hafter]
    simp only [reference?, htake, hdrop]
    rw [if_neg (by simpa using hr.name_ne_nil), ← hafter]
    exact readTail_tailText hr.fallback_bytes rest

end

/-- The text starts with a reference. -/
def StartsReference (t : Text) : Prop := ∃ r rest, Reference.WellFormed r ∧ t = r.toText ++ rest

theorem not_startsReference_iff {t : Text} : ¬ StartsReference t ↔ reference? t = none := by
  constructor
  · intro h
    cases hread : reference? t with
    | none => rfl
    | some found => exact absurd ⟨found.1, found.2, reference_eq_some_iff.1 hread⟩ h
  · rintro h ⟨r, rest, hr⟩
    rw [reference_eq_some_iff.2 hr] at h
    cases h

section

variable {t rest : Text} {r : Reference} {b : UInt8}

theorem interpolate_nil (lookup : Lookup) : interpolate lookup [] = [] := by
  rw [interpolate]
  rfl

theorem interpolate_of_reference (h : reference? t = some (r, rest)) (lookup : Lookup) :
    interpolate lookup t = r.value lookup ++ interpolate lookup rest := by
  rw [interpolate]
  split
  · rename_i r' rest' hread
    obtain ⟨rfl, rfl⟩ : r = r' ∧ rest = rest' := by simpa using h.symm.trans hread
    rfl
  · rename_i hread
    cases h.symm.trans hread

theorem interpolate_cons (h : reference? (b :: rest) = none) (lookup : Lookup) :
    interpolate lookup (b :: rest) = b :: interpolate lookup rest := by
  rw [interpolate]
  split
  · rename_i hread
    cases h.symm.trans hread
  · rfl

end

/-! ### Splitting a text -/

/-- Plain text and references in turn; plain text comes last. -/
inductive Split where
  | last (t : Text)
  | next (t : Text) (r : Reference) (rest : Split)
  deriving DecidableEq, Repr

namespace Split

/-- The text that is split. -/
def source : Split → Text
  | last t => t
  | next t r rest => t ++ (r.toText ++ rest.source)

/-- The text with the value of every reference in its place. -/
def output (lookup : Lookup) : Split → Text
  | last t => t
  | next t r rest => t ++ (r.value lookup ++ rest.output lookup)

/-- No reference starts inside `t` when `after` follows it. -/
def Plain (t after : Text) : Prop := ∀ n < t.length, ¬ StartsReference ((t ++ after).drop n)

/-- All references are taken, each where the first one behind the one before it starts. -/
def Leftmost : Split → Prop
  | last t => Plain t []
  | next t r rest => r.WellFormed ∧ Plain t (r.toText ++ rest.source) ∧ rest.Leftmost

/-- The split with a byte in front. -/
def cons (b : UInt8) : Split → Split
  | last t => last (b :: t)
  | next t r rest => next (b :: t) r rest

section

variable {b : UInt8} {s s' : Split} {t t' after after' : Text} {r : Reference}

theorem source_cons (b : UInt8) (s : Split) : (s.cons b).source = b :: s.source := by
  cases s <;> rfl

theorem output_cons (b : UInt8) (s : Split) (lookup : Lookup) :
    (s.cons b).output lookup = b :: s.output lookup := by
  cases s <;> rfl

theorem plain_cons (hstart : ¬ StartsReference (b :: (t ++ after))) (h : Plain t after) :
    Plain (b :: t) after := by
  intro n hn
  cases n with
  | zero => exact hstart
  | succ n => exact h n (Nat.lt_of_succ_lt_succ hn)

theorem leftmost_cons (hstart : ¬ StartsReference (b :: s.source)) (h : s.Leftmost) :
    (s.cons b).Leftmost := by
  cases s with
  | last t =>
    apply plain_cons _ h
    rwa [List.append_nil]
  | next t r rest =>
    obtain ⟨hr, hplain, hrest⟩ := h
    exact ⟨hr, plain_cons hstart hplain, hrest⟩

/-- Every text has a split, and interpolation puts the values in their places. -/
theorem exists_split (t : Text) :
    ∃ s : Split, s.source = t ∧ s.Leftmost ∧ ∀ lookup, interpolate lookup t = s.output lookup := by
  -- The names of the references are gathered by the recursion that interpolation has.
  fun_induction names t with
  | case1 t r rest hread hlt ih =>
    obtain ⟨s, hsource, hleft, houtput⟩ := ih
    obtain ⟨hr, ht⟩ := reference_eq_some_iff.1 hread
    refine ⟨next [] r s, ?_, ⟨hr, by simp [Plain], hleft⟩, ?_⟩
    · rw [source, hsource, ht, List.nil_append]
    · intro lookup
      rw [interpolate_of_reference hread, houtput, output, List.nil_append]
  | case2 hread => exact ⟨last [], rfl, by simp [Leftmost, Plain], interpolate_nil⟩
  | case3 b rest hread ih =>
    obtain ⟨s, hsource, hleft, houtput⟩ := ih
    refine ⟨s.cons b, ?_, ?_, ?_⟩
    · rw [source_cons, hsource]
    · apply leftmost_cons _ hleft
      rw [hsource]
      exact not_startsReference_iff.2 hread
    · intro lookup
      rw [interpolate_cons hread, houtput, output_cons]

/-- Plain text does not reach beyond a place where a reference starts. -/
theorem Plain.length_le (h : Plain t after) (hsame : t ++ after = t' ++ after')
    (hstart : StartsReference after') : t.length ≤ t'.length := by
  by_contra hlt
  apply h t'.length (Nat.lt_of_not_le hlt)
  rwa [hsame, List.drop_left]

/-- A split that takes no reference is of no text that has one. -/
theorem Plain.ne_append (h : Plain t []) (hr : r.WellFormed) : t ≠ t' ++ (r.toText ++ after) := by
  intro hsame
  have hle := h.length_le ((List.append_nil t).trans hsame) ⟨r, after, hr, rfl⟩
  rw [hsame, r.toText_eq] at hle
  simp only [List.length_append, List.length_cons] at hle
  omega

/-- A text has one split at most. -/
theorem Leftmost.unique (h : s.Leftmost) (h' : s'.Leftmost) (hsame : s.source = s'.source) :
    s = s' := by
  induction s generalizing s' with
  | last t =>
    cases s' with
    | last t' => exact congrArg last hsame
    | next t' r' rest' => exact absurd hsame (Plain.ne_append h h'.1)
  | next t r rest ih =>
    cases s' with
    | last t' => exact absurd hsame.symm (Plain.ne_append h' h.1)
    | next t' r' rest' =>
      obtain ⟨hr, hplain, hrest⟩ := h
      obtain ⟨hr', hplain', hrest'⟩ := h'
      have hlength : t.length = t'.length := by
        apply Nat.le_antisymm
        · exact hplain.length_le hsame ⟨r', _, hr', rfl⟩
        · exact hplain'.length_le hsame.symm ⟨r, _, hr, rfl⟩
      obtain ⟨rfl, hafter⟩ := List.append_inj hsame hlength
      have hread : reference? (r'.toText ++ rest'.source) = some (r, rest.source) :=
        reference_eq_some_iff.2 ⟨hr, hafter.symm⟩
      rw [reference_eq_some_iff.2 ⟨hr', rfl⟩] at hread
      obtain ⟨rfl, hsource⟩ : r' = r ∧ rest'.source = rest.source := by simpa using hread
      rw [ih hrest hrest' hsource.symm]

end

end Split

/-- A text splits in just one way into plain text and references, each taken at the leftmost place
    behind the one before it, and interpolation puts the value of each in its place. A text
    without references stays as it is. -/
theorem interpolate_leftmost (t : Text) :
    ∃ s : Split, s.source = t ∧ s.Leftmost ∧
      (∀ s' : Split, s'.source = t → s'.Leftmost → s' = s) ∧
      (∀ lookup, interpolate lookup t = s.output lookup) ∧
      ((∀ n, ¬ StartsReference (t.drop n)) → ∀ lookup, interpolate lookup t = t) := by
  obtain ⟨s, hsource, hleft, houtput⟩ := Split.exists_split t
  have hunique : ∀ s' : Split, s'.source = t → s'.Leftmost → s' = s := by
    intro s' hsource' hleft'
    exact hleft'.unique hleft (hsource'.trans hsource.symm)
  refine ⟨s, hsource, hleft, hunique, houtput, ?_⟩
  intro hplain lookup
  have hlast : (Split.last t).Leftmost := by
    intro n _
    rw [List.append_nil]
    exact hplain n
  rw [houtput, ← hunique (.last t) rfl hlast]
  rfl

end Goat.Environment
