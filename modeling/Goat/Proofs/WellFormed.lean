import Goat.Compilation.Basic
import Goat.Proofs.Control
import Goat.Proofs.Declarations
import Goat.Proofs.Grammar

/-!
# Exactly the well-formed programs are accepted

A program read from a source text can be emitted if and only if it is well-formed: the
checks that are interleaved with the emission of code amount to a check that only follows
the scope.
-/

namespace Goat

/-! ### Words of a source text -/

/-- The value is no number with a plus sign in front. -/
def Unsigned (value : Text) : Prop := ∀ rest, value = 0x2b :: rest → rest = []

namespace Token

/-- A piece between delimiters holds none; the other pieces are delimiters. -/
theorem unsigned_of_mem_cutFrom {word line piece : Text}
    (hword : ∀ b ∈ word, isSingle b = false) (h : piece ∈ cutFrom word line) : Unsigned piece := by
  have hplain {w : Text} (hw : ∀ b ∈ w, isSingle b = false) : Unsigned w.reverse := by
    intro rest heq
    have hmem : (0x2b : UInt8) ∈ w := by
      rw [← List.mem_reverse, heq]
      exact List.mem_cons_self
    exact absurd (hw _ hmem) (by decide)
  have hpair {a b : UInt8} (hab : isPair a b = true) : Unsigned [a, b] := by
    rintro rest heq
    cases heq
    have : ∀ pair ∈ pairs, pair.head? ≠ some 0x2b := by decide
    exact absurd rfl (this _ (of_decide_eq_true hab))
  have hsingle (a : UInt8) : Unsigned [a] := by
    rintro rest heq
    cases heq
    rfl
  have hnil : ∀ b ∈ ([] : Text), isSingle b = false := List.forall_mem_nil _
  fun_induction cutFrom word line with
  | case1 word =>
    rw [List.mem_singleton] at h
    exact h ▸ hplain hword
  | case2 word a ha =>
    simp only [List.mem_cons, List.not_mem_nil, or_false] at h
    rcases h with rfl | rfl | rfl
    · exact hplain hword
    · exact hsingle a
    · exact hplain hnil
  | case3 word a ha =>
    rw [List.mem_singleton] at h
    exact h ▸ hplain (List.forall_mem_cons.2 ⟨by simpa using ha, hword⟩)
  | case4 word a b rest hab ih =>
    simp only [List.mem_cons] at h
    rcases h with rfl | rfl | h
    · exact hplain hword
    · exact hpair hab
    · exact ih hnil h
  | case5 word a b rest hab ha ih =>
    simp only [List.mem_cons] at h
    rcases h with rfl | rfl | h
    · exact hplain hword
    · exact hsingle a
    · exact ih hnil h
  | case6 word a b rest hab ha ih =>
    exact ih (List.forall_mem_cons.2 ⟨by simpa using ha, hword⟩) h

theorem unsigned_of_mem_ofSource {source : Text} {t : Token} (h : t ∈ ofSource source) :
    Unsigned t.value := by
  have hvalue : t.value ∈ (ofSource source).map value := List.mem_map_of_mem h
  rw [values_ofSource, List.mem_flatMap] at hvalue
  obtain ⟨line, -, hvalue⟩ := hvalue
  exact unsigned_of_mem_cutFrom (List.forall_mem_nil _) (List.mem_of_mem_filter hvalue)

end Token

theorem numeralLength?_cons {b : UInt8} (hb : Text.isDigit b = false) (rest : Text) :
    numeralLength? (b :: rest) = none := by
  rw [numeralLength?, Text.toNat?, Text.readDigits, if_neg (by simp [hb])]
  · rfl
  · simp

/-- A length is far from the end of the 64-bit range. -/
theorem listLength?_eq_bind (value : Text) :
    listLength? value =
      (Text.toInt? value).bind fun k => if 1 ≤ k ∧ k ≤ 255 then some k.toNat else none := by
  rw [listLength?, Text.toInt64?]
  cases Text.toInt? value with
  | none => rfl
  | some k =>
    by_cases hk : 1 ≤ k ∧ k ≤ 255
    · have hfits : (-Text.maxInt64 - 1 ≤ k && k ≤ Text.maxInt64) = true := by
        rw [Bool.and_eq_true, decide_eq_true_iff, decide_eq_true_iff, Text.maxInt64]
        omega
      rw [Option.filter_some, if_pos hfits]
      rfl
    · rw [Option.bind_some, if_neg hk, Option.filter_some]
      split
      · exact if_neg hk
      · rfl

/-- Without a plus sign, the lengths that cells are given out for are those that numerals give. -/
theorem listLength?_eq_numeralLength? {value : Text} (h : Unsigned value) :
    listLength? value = numeralLength? value := by
  rw [listLength?_eq_bind]
  unfold Text.toInt?
  split
  · -- no number with a minus sign is a length
    rename_i rest
    rw [numeralLength?_cons (by decide)]
    cases Text.toNat? rest with
    | none => rfl
    | some n =>
      have hneg : ¬(1 ≤ -(n : Int) ∧ -(n : Int) ≤ 255) := by omega
      exact if_neg hneg
  · rename_i rest
    obtain rfl := h rest rfl
    rfl
  · rw [numeralLength?]
    cases Text.toNat? value with
    | none => rfl
    | some n =>
      rw [Option.map_some, Option.bind_some, Option.filter_some]
      by_cases hn : 1 ≤ n ∧ n ≤ 255
      · rw [if_pos (by rw [Int.ofNat_eq_natCast]; omega), if_pos (by simpa using hn)]
        rfl
      · rw [if_neg (by rw [Int.ofNat_eq_natCast]; omega), if_neg (by simpa using hn)]

/-! ### Declarations come from the source -/

mutual

/-- The type arguments of the declarations in a statement stand among its values. -/
theorem Stmt.argument_mem : (s : Stmt) → {vs : List Text} → s.Spelling vs → {d : Declaration} →
    d ∈ s.declarations → {t : Token} → t ∈ d.argument → t.value ∈ vs
  | .declaration d, vs, .declaration h, d', hd, t, ht => by
    obtain rfl : d' = d := by simpa [Stmt.declarations] using hd
    rw [Option.mem_def] at ht
    cases h
    simp [Declaration.headValues, ht]
  | .assignment a, vs, _, d, hd, t, ht => by
    cases hd
  | .call name arguments blocks span, _, .call ha hb, d, hd, t, ht => by
    rw [Stmt.declarations] at hd
    exact List.mem_cons_of_mem _ (List.mem_append_right _ (Block.argument_mem blocks hb hd ht))

theorem Block.argument_mem : (blocks : List Block) → {vs : List Text} →
    Block.AllSpelling blocks vs → {d : Declaration} → d ∈ Block.allDeclarations blocks →
    {t : Token} → t ∈ d.argument → t.value ∈ vs
  | [], _, _, d, hd, t, ht => by
    cases hd
  | .mk name body span :: rest, _, .cons hl hb hrest, d, hd, t, ht => by
    rw [Block.allDeclarations, Block.declarations, List.mem_append] at hd
    rcases hd with hd | hd
    · have := Stmt.argument_mem_all body hb hd ht
      simp [enclosed, this]
    · exact List.mem_append_right _ (Block.argument_mem rest hrest hd ht)

theorem Stmt.argument_mem_all : (stmts : List Stmt) → {vs : List Text} →
    Stmt.AllSpelling stmts vs → {d : Declaration} → d ∈ Stmt.allDeclarations stmts →
    {t : Token} → t ∈ d.argument → t.value ∈ vs
  | [], _, _, d, hd, t, ht => by
    cases hd
  | s :: rest, _, .cons h hrest, d, hd, t, ht => by
    rw [Stmt.allDeclarations, List.mem_append] at hd
    rcases hd with hd | hd
    · exact List.mem_append_left _ (Stmt.argument_mem s h hd ht)
    · exact List.mem_append_right _ (Stmt.argument_mem_all rest hrest hd ht)

end

theorem Uncommented.mem {ts rest : List Token} (h : Uncommented ts rest) {t : Token}
    (ht : t ∈ rest) : t ∈ ts := by
  induction h with
  | nil => exact ht
  | keep _ _ _ ih =>
    rcases List.mem_cons.1 ht with rfl | ht
    · exact List.mem_cons_self
    · exact List.mem_cons_of_mem _ (ih ht)
  | comment _ _ _ _ ih =>
    exact List.mem_cons_of_mem _ (List.mem_append_right _ (List.mem_cons_of_mem _ (ih ht)))

/-- In a program from a source text, cells are given out for the kinds that are declared. -/
theorem Program.allocatedKind?_eq_kind? {source : Text} {p : Program}
    (h : Program.ofSource source = .ok p) :
    ∀ d ∈ Stmt.allDeclarations p.statements, d.allocatedKind? = d.kind? := by
  obtain ⟨rest, hrest, h⟩ := exists_of_bind_eq_ok h
  obtain ⟨stmts, hstmts, h⟩ := exists_of_bind_eq_ok h
  cases h
  intro d hd
  rw [Declaration.allocatedKind?, Declaration.kind?, Declaration.kindBy?, Declaration.kindBy?]
  split
  · rfl
  · rename_i argument _ hargument
    have hmem := Stmt.argument_mem_all stmts (Stmt.spelling_readAll rest hstmts) hd hargument
    obtain ⟨t, ht, heq⟩ := List.mem_map.1 hmem
    have hunsigned := Token.unsigned_of_mem_ofSource
      ((uncommented_stripComments _ hrest).mem ht)
    rw [heq] at hunsigned
    rw [listLength?_eq_numeralLength? hunsigned]
  · rfl

/-! ### The check of a program -/

section

variable {kindOf? kindOf?' : Declaration → Option Kind}

mutual

/-- Statements are checked alike if their declarations are. -/
theorem Stmt.scope?_congr : (s : Stmt) → (∀ d ∈ s.declarations, kindOf? d = kindOf?' d) →
    s.scope? kindOf? = s.scope? kindOf?'
  | .declaration d, h => by
    funext Γ
    rw [Stmt.scope?, Stmt.scope?, h d (by simp [Stmt.declarations])]
  | .assignment a, _ => by
    funext Γ
    rw [Stmt.scope?, Stmt.scope?]
  | .call name arguments blocks span, h => by
    funext Γ
    rw [Stmt.scope?, Stmt.scope?, Block.scopes_congr blocks h]

theorem Stmt.scopeAll?_congr : (body : List Stmt) →
    (∀ d ∈ Stmt.allDeclarations body, kindOf? d = kindOf?' d) →
    Stmt.scopeAll? kindOf? body = Stmt.scopeAll? kindOf?' body
  | [], _ => by
    funext Γ
    rw [Stmt.scopeAll?, Stmt.scopeAll?]
  | s :: rest, h => by
    rw [Stmt.allDeclarations, List.forall_mem_append] at h
    funext Γ
    rw [Stmt.scopeAll?, Stmt.scopeAll?, Stmt.scope?_congr s h.1, Stmt.scopeAll?_congr rest h.2]

theorem Block.scopes_congr : (blocks : List Block) →
    (∀ d ∈ Block.allDeclarations blocks, kindOf? d = kindOf?' d) →
    Block.scopes kindOf? blocks = Block.scopes kindOf?' blocks
  | [], _ => by
    rw [Block.scopes, Block.scopes]
  | .mk label body span :: rest, h => by
    rw [Block.allDeclarations, Block.declarations, List.forall_mem_append] at h
    rw [Block.scopes, Block.scopes, Block.scope, Block.scope, Stmt.scopeAll?_congr body h.1,
      Block.scopes_congr rest h.2]

end

end

/-- The scope at the end of a program, if it is well-formed. -/
def Program.scope? (p : Program) : Option Scope :=
  Stmt.scopeAll? Declaration.kind? p.statements Scope.empty

/-- The program is well-formed. -/
def Program.WellFormed (p : Program) : Prop := p.scope?.isSome = true

instance (p : Program) : Decidable p.WellFormed :=
  inferInstanceAs (Decidable (p.scope?.isSome = true))

theorem Declared.scope_nil : Declared.scope [] = Scope.empty := rfl

/-- A program that is read from a source text can be emitted if and only if it is
    well-formed, and then its declared variables are those of the scope at its end. -/
theorem Program.emits_iff_wellFormed {source : Text} {p : Program}
    (h : Program.ofSource source = .ok p) :
    ((∃ e, Emitter.run {} (emitProgram p) = (.ok (), e)) ↔ p.WellFormed) ∧
      ∀ e, Emitter.run {} (emitProgram p) = (.ok (), e) →
        p.scope? = some (Declared.scope e.declared) := by
  have haccepts := accepts_stmts p.statements Arranged.nil
  rw [Declared.scope_nil, Stmt.scopeAll?_congr p.statements (Program.allocatedKind?_eq_kind? h)]
    at haccepts
  rw [Program.WellFormed, Program.scope?]
  cases hscope : Stmt.scopeAll? Declaration.kind? p.statements Scope.empty with
  | none =>
    rw [hscope] at haccepts
    obtain ⟨f, e', hrejects⟩ := haccepts {} Layout.sound_empty rfl rfl
    have hfails : ∀ e, Emitter.run {} (emitProgram p) ≠ (.ok (), e) := by
      intro e hrun
      cases hrun.symm.trans hrejects
    exact ⟨⟨fun ⟨e, hrun⟩ => absurd hrun (hfails e), fun hnone => by cases hnone⟩,
      fun e hrun => absurd hrun (hfails e)⟩
  | some Γ =>
    rw [hscope] at haccepts
    obtain ⟨new, live', hbuilds, -, rfl⟩ := haccepts
    obtain ⟨e', hrun', hbuilt⟩ := hbuilds {} Layout.sound_empty rfl rfl
    refine ⟨⟨fun _ => rfl, fun _ => ⟨e', hrun'⟩⟩, fun e hrun => ?_⟩
    obtain rfl : e' = e := congrArg Prod.snd (hrun'.symm.trans hrun)
    rw [hbuilt.declared]

/-- A list is filled from a variable, indexed by it and read into. -/
def Program.scopedSource : Text :=
  "Int a = 1 IntList<2> k = [a, (a + 2)] if(k[a]) \x7b print(k) \x7d else \x7b inputN(k[1]) \x7d"

theorem Program.emits_iff_wellFormed_scoped :
    ∃ p, Program.ofSource Program.scopedSource = .ok p ∧ p.WellFormed ∧
      ∃ e, Emitter.run {} (emitProgram p) = (.ok (), e) ∧
        p.scope? = some (Declared.scope e.declared) := by
  have hread : (Program.ofSource Program.scopedSource).toOption.any
      (fun p => decide p.WellFormed) = true := by decide +kernel
  obtain ⟨p, hp, hformed⟩ := exists_ok_of_any hread
  have hformed : p.WellFormed := of_decide_eq_true hformed
  obtain ⟨hiff, hscope⟩ := Program.emits_iff_wellFormed hp
  obtain ⟨e, hrun⟩ := hiff.2 hformed
  exact ⟨p, hp, hformed, e, hrun, hscope e hrun⟩

end Goat
