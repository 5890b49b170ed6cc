import Goat.Proofs.Preservation
import Goat.Proofs.Reading

/-!
# Accepted programs close their brackets

Reading takes groups between brackets as a whole, so what it leaves is as deep in brackets as what
it was given. Only the names in front of a statement are taken unseen: a bracket could stand
there. Emission knows no such name, and therefore an accepted program has as many closing
brackets as opening ones outside its comments.
-/

namespace Goat

/-- How a value changes the number of open brackets. -/
def nestingOf (value : Text) : Int :=
  if (closerOf? value).isSome then 1 else if isCloser value then -1 else 0

/-- How many more brackets the tokens open than they close. -/
def Token.depth : List Token → Int
  | [] => 0
  | t :: rest => nestingOf t.value + Token.depth rest

/-- The brackets. -/
def brackets : List Text := ["(", "\x7b", "[", ")", "\x7d", "]"]

theorem nestingOf_of_not_mem {value : Text} (h : value ∉ brackets) : nestingOf value = 0 := by
  simp only [brackets, List.mem_cons, List.not_mem_nil, or_false, not_or] at h
  simp [nestingOf, closerOf?, isCloser, h]

/-- What a test rejects brackets for is no bracket. -/
theorem nestingOf_of_test {p : Text → Bool} (hp : brackets.all (fun b => !p b) = true)
    {value : Text} (h : p value = true) : nestingOf value = 0 := by
  refine nestingOf_of_not_mem fun hmem => ?_
  have hbracket := List.all_eq_true.1 hp value hmem
  rw [h] at hbracket
  cases hbracket

theorem nestingOf_identifier {value : Text} (h : isIdentifier value = true) : nestingOf value = 0 :=
  nestingOf_of_test (p := isIdentifier) (by decide) h

theorem nestingOf_opener {value closer : Text} (h : closerOf? value = some closer) :
    nestingOf value = 1 := by
  rw [nestingOf, h, if_pos Option.isSome_some]

/-! ### What reading takes is balanced -/

namespace Group

theorem depth_takeFrom {outer : List Text} {want : Text} {seen : List Token} {last : Token}
    {tokens : List Token} {g : Group} (h : takeFrom outer want seen last tokens = .ok g) :
    Token.depth tokens = Token.depth g.rest - (outer.length + 1) := by
  induction tokens generalizing outer want seen last with
  | nil => cases h
  | cons t rest ih =>
    unfold takeFrom at h
    rw [Token.depth]
    split at h
    · rename_i closer hcloser
      rw [nestingOf_opener hcloser, ih h, List.length_cons]
      omega
    · rename_i hopener
      split at h
      · rename_i hcloser
        have hnesting : nestingOf t.value = -1 := by simp [nestingOf, hopener, hcloser]
        split at h
        · split at h
          · cases h
            simp only [hnesting, List.length_nil]
            omega
          · rw [hnesting, ih h, List.length_cons]
            omega
        · cases h
      · rename_i hcloser
        have hnesting : nestingOf t.value = 0 := by simp [nestingOf, hopener, hcloser]
        rw [hnesting, ih h, Int.zero_add]

/-- A group with its brackets is balanced. -/
theorem depth_take {opener : Token} {closer : Text} {tokens : List Token} {g : Group}
    (hopener : nestingOf opener.value = 1) (h : take opener closer tokens = .ok g) :
    Token.depth (opener :: tokens) = Token.depth g.rest := by
  rw [Token.depth, hopener, depth_takeFrom h, List.length_nil]
  omega

end Group

theorem Expr.depth_read {tokens : List Token} {reading : Reading}
    (h : Expr.read tokens = .ok (some reading)) :
    Token.depth tokens = Token.depth reading.rest := by
  cases Expr.readAs_of_read h with
  | binary ht hg => exact Group.depth_take (by rw [ht]; decide) hg
  | list ht hg => exact Group.depth_take (by rw [ht]; decide) hg
  | number hnumeral =>
    rw [Token.depth, nestingOf_of_test (p := isNumeral) (by decide) hnumeral, Int.zero_add]
  | var hname => rw [Token.depth, nestingOf_identifier hname, Int.zero_add]
  | element hname hopener hg =>
    rw [Token.depth, nestingOf_identifier hname, Int.zero_add]
    exact Group.depth_take (by rw [hopener]; decide) hg

theorem depth_readValue {equals : Token} {tokens : List Token} {reading : Reading}
    (h : readValue equals tokens = .ok reading) :
    Token.depth tokens = Token.depth reading.rest := by
  obtain ⟨found, hfound, h⟩ := exists_of_bind_eq_ok h
  split at h
  · cases h
    exact Expr.depth_read hfound
  · split at h <;> cases h

/-- The names in front of a statement, which reading takes as they are. -/
def Stmt.headNames : Stmt → List Text
  | .declaration d => d.typeName :: d.name :: d.argument.toList.map Token.value
  | .assignment a => [a.name]
  | .call name _ _ _ => [name]

/-- The statement has no brackets for names. -/
def Stmt.Named (s : Stmt) : Prop := ∀ name ∈ s.headNames, nestingOf name = 0

theorem DeclarationHead.depth_read {tokens : List Token} {head : DeclarationHead}
    (h : read? tokens = some head) (htype : nestingOf head.type.value = 0)
    (hname : nestingOf head.name.value = 0)
    (hargument : ∀ t ∈ head.argument, nestingOf t.value = 0) :
    Token.depth tokens = Token.depth head.rest := by
  have hsymbols : nestingOf "<" = 0 ∧ nestingOf ">" = 0 ∧ nestingOf "=" = 0 := by decide
  obtain ⟨hless, hgreater, hequals⟩ := hsymbols
  unfold read? at h
  split at h
  · rename_i type a b c d e rest
    split at h
    · rename_i hvalues
      cases h
      simp only [Token.depth, hvalues, htype, hname, hargument b rfl, hless, hgreater, hequals]
      omega
    · split at h
      · rename_i hvalue
        cases h
        simp only [Token.depth, hvalue, htype, hname, hequals]
        omega
      · cases h
  · split at h
    · rename_i hvalue
      cases h
      simp only [Token.depth, hvalue, htype, hname, hequals]
      omega
    · cases h
  · cases h

theorem BlockHead.depth_read {tokens : List Token} {head : BlockHead}
    (h : read? tokens = some head) : nestingOf head.opener.value = 1 ∧
      Token.depth tokens = Token.depth (head.opener :: head.rest) := by
  have hbrace : nestingOf "\x7b" = 1 := by decide
  unfold read? at h
  split at h
  · cases h
  · split at h
    · rename_i ht
      cases h
      exact ⟨by rw [ht, hbrace], rfl⟩
    · cases h
  · split at h
    · rename_i ht
      cases h
      exact ⟨by rw [ht, hbrace], rfl⟩
    · split at h
      · rename_i hlabel
        cases h
        refine ⟨by rw [hlabel.2, hbrace], ?_⟩
        rw [Token.depth, nestingOf_identifier hlabel.1, Int.zero_add]
      · cases h

theorem Block.depth_readFront {tokens rest : List Token} {blocks : List Block}
    (h : Block.readFront tokens = .ok (blocks, rest)) : Token.depth tokens = Token.depth rest := by
  rcases Block.readFront_cases h with ⟨-, rfl⟩ | ⟨head, g, body, others, hh, hg, -, h, hlength, -⟩
  · rfl
  · obtain ⟨hopener, hdepth⟩ := BlockHead.depth_read hh
    rw [hdepth, Group.depth_take hopener hg, Block.depth_readFront h]
  termination_by tokens.length
  decreasing_by omega

theorem Assignment.depth_readValueOf {name equals : Token} {index : Option Expr}
    {tokens rest : List Token} {a : Assignment}
    (h : readValueOf name index equals tokens = .ok (a, rest)) :
    a.name = name.value ∧ Token.depth tokens = Token.depth rest := by
  obtain ⟨value, hvalue, h⟩ := exists_of_bind_eq_ok h
  cases h
  exact ⟨rfl, depth_readValue hvalue⟩

theorem Assignment.depth_readElement {name opener : Token} {tokens rest : List Token}
    {a : Assignment} (hopener : opener.value = "[")
    (h : readElement name opener tokens = .ok (a, rest)) :
    a.name = name.value ∧ Token.depth (opener :: tokens) = Token.depth rest := by
  have hequals : nestingOf "=" = 0 := by decide
  obtain ⟨g, hg, h⟩ := exists_of_bind_eq_ok h
  obtain ⟨index, -, h⟩ := exists_of_bind_eq_ok h
  rw [Group.depth_take (by rw [hopener]; decide) hg]
  split at h
  · rename_i equals after hrest
    split at h
    · rename_i hvalue
      obtain ⟨hname, hdepth⟩ := depth_readValueOf h
      exact ⟨hname, by rw [hrest, Token.depth, hvalue, hequals, Int.zero_add, hdepth]⟩
    · cases h
  · cases h

theorem CallHead.depth_read {name opener : Token} {tokens : List Token} {head : CallHead}
    (hopener : opener.value = "(") (h : read name opener tokens = .ok head) :
    Token.depth (opener :: tokens) = Token.depth head.rest := by
  obtain ⟨g, hg, h⟩ := exists_of_bind_eq_ok h
  obtain ⟨arguments, -, h⟩ := exists_of_bind_eq_ok h
  cases h
  exact Group.depth_take (by rw [hopener]; decide) hg

theorem Stmt.depth_readFirst {tokens rest : List Token} {s : Stmt}
    (h : Stmt.readFirst tokens = .ok (s, rest)) (hs : s.Named) :
    Token.depth tokens = Token.depth rest := by
  have hequals : nestingOf "=" = 0 := by decide
  have hfirst {name : Token} (hname : nestingOf name.value = 0) (more : List Token) :
      Token.depth (name :: more) = Token.depth more := by
    rw [Token.depth, hname, Int.zero_add]
  obtain ⟨⟨front, left⟩, hfront, h⟩ := exists_of_bind_eq_ok h
  cases Front.readAs_of_read hfront with
  | declaration hhead hd =>
    cases h
    obtain ⟨value, hvalue, hd⟩ := exists_of_bind_eq_ok hd
    cases hd
    rw [← depth_readValue hvalue]
    simp only [Stmt.Named, Stmt.headNames, List.forall_mem_cons] at hs
    refine DeclarationHead.depth_read hhead hs.1 hs.2.1 fun t ht => hs.2.2 t.value ?_
    exact List.mem_map_of_mem (Option.mem_toList.2 ht)
  | value hnone hnext ha =>
    cases h
    obtain ⟨hname, hdepth⟩ := Assignment.depth_readValueOf ha
    rw [hfirst (hs _ (hname ▸ List.mem_cons_self)), hfirst (hnext ▸ hequals), hdepth]
  | element hnone hnext ha =>
    cases h
    obtain ⟨hname, hdepth⟩ := Assignment.depth_readElement hnext ha
    rw [hfirst (hs _ (hname ▸ List.mem_cons_self)), hdepth]
  | call hnone hnext hhead =>
    obtain ⟨⟨blocks, left⟩, hblocks, h⟩ := exists_of_bind_eq_ok h
    cases h
    rw [hfirst (hs _ List.mem_cons_self), CallHead.depth_read hnext hhead,
      Block.depth_readFront hblocks]

theorem Stmt.depth_readAll {tokens : List Token} {stmts : List Stmt}
    (h : Stmt.readAll tokens = .ok stmts) (hstmts : ∀ s ∈ stmts, s.Named) :
    Token.depth tokens = 0 := by
  cases tokens with
  | nil => rfl
  | cons t more =>
    rw [Stmt.readAll_cons] at h
    obtain ⟨⟨s, rest⟩, hs, h⟩ := exists_of_bind_eq_ok h
    obtain ⟨others, hothers, h⟩ := exists_of_bind_eq_ok h
    cases h
    obtain ⟨hfirst, hstmts⟩ := List.forall_mem_cons.1 hstmts
    have hlength := Stmt.length_rest_readFirst hs
    rw [Stmt.depth_readFirst hs hfirst, Stmt.depth_readAll hothers hstmts]
  termination_by tokens.length

/-! ### What emission accepts has names -/

/-- Every variable in scope has an identifier for its name. -/
def Scope.Named (Γ : Scope) : Prop := ∀ name kind, Γ name = some kind → isIdentifier name = true

theorem Scope.Declares.named {kindOf? : Declaration → Option Kind} {Γ Γ' : Scope}
    {ds : List Declaration} (h : Scope.Declares kindOf? Γ ds Γ') (hΓ : Γ.Named) : Γ'.Named := by
  induction h with
  | nil => exact hΓ
  | @cons Γ Γ' d ds kind hid _ _ _ ih =>
    refine ih fun name kind' hname => ?_
    rw [Scope.declare] at hname
    split at hname
    · rename_i heq
      exact heq ▸ hid
    · exact hΓ name kind' hname

theorem Declaration.nestingOf_of_kind {d : Declaration} {kind : Kind}
    (h : d.allocatedKind? = some kind) : nestingOf d.typeName = 0 ∧
      ∀ t ∈ d.argument, nestingOf t.value = 0 := by
  rw [Declaration.allocatedKind?, Declaration.kindBy?] at h
  have htype {type : DataType} (htype : DataType.ofName? d.typeName = some type) :
      nestingOf d.typeName = 0 :=
    nestingOf_of_test (p := fun name => (DataType.ofName? name).isSome) (by decide)
      (Option.isSome_of_eq_some htype)
  split at h
  · rename_i hint hnone
    rw [hnone]
    exact ⟨htype hint, fun t ht => by cases ht⟩
  · rename_i argument hlist hsome
    obtain ⟨n, hn, -⟩ := Option.map_eq_some_iff.1 h
    refine ⟨htype hlist, fun t ht => ?_⟩
    rw [hsome] at ht
    cases ht
    exact nestingOf_of_test (p := fun value => (listLength? value).isSome) (by decide)
      (Option.isSome_of_eq_some hn)
  · cases h

theorem Stmt.named_of_scope {s : Stmt} {Γ Γ' : Scope} (hΓ : Γ.Named)
    (h : s.scope? Declaration.allocatedKind? Γ = some Γ') : s.Named := by
  intro name hname
  cases s with
  | declaration d =>
    rw [Stmt.scope?] at h
    split at h
    · rename_i kind hkind
      obtain ⟨htype, hargument⟩ := Declaration.nestingOf_of_kind hkind
      split at h
      · rename_i hcond
        rcases List.mem_cons.1 hname with rfl | hname
        · exact htype
        · rcases List.mem_cons.1 hname with rfl | hname
          · exact nestingOf_identifier hcond.1
          · obtain ⟨t, ht, rfl⟩ := List.mem_map.1 hname
            exact hargument t (Option.mem_toList.1 ht)
      · cases h
    · cases h
  | assignment a =>
    obtain rfl := List.mem_singleton.1 hname
    rw [Stmt.scope?] at h
    split at h
    · rename_i hlookup _
      exact nestingOf_identifier (hΓ _ _ hlookup)
    · rename_i hlookup _
      exact nestingOf_identifier (hΓ _ _ hlookup)
    · cases h
  | call function arguments blocks span =>
    obtain rfl := List.mem_singleton.1 hname
    rw [Stmt.scope?] at h
    obtain ⟨b, hb, -⟩ := Option.bind_eq_some_iff.1 h
    exact nestingOf_of_test (p := fun name => (Builtin.ofName? name).isSome) (by decide)
      (Option.isSome_of_eq_some hb)

theorem Stmt.named_of_scopeAll {stmts : List Stmt} {Γ Γ' : Scope} (hΓ : Γ.Named)
    (h : Stmt.scopeAll? Declaration.allocatedKind? stmts Γ = some Γ') : ∀ s ∈ stmts, s.Named := by
  induction stmts generalizing Γ with
  | nil => exact List.forall_mem_nil _
  | cons s rest ih =>
    rw [Stmt.scopeAll?] at h
    obtain ⟨Γ₁, h₁, h⟩ := Option.bind_eq_some_iff.1 h
    exact List.forall_mem_cons.2
      ⟨Stmt.named_of_scope hΓ h₁, ih ((Stmt.declares s h₁).named hΓ) h⟩

/-- The tokens of an accepted source text open as many brackets outside comments as they close. -/
theorem exists_balanced_of_compile {source : Text} {c : Compilation} (h : compile source = .ok c) :
    ∃ kept, stripComments (Token.ofSource source) = .ok kept ∧ Token.depth kept = 0 := by
  obtain ⟨p, e, hp, hrun, -⟩ := exists_emitted h
  obtain ⟨kept, hkept, hp⟩ := exists_of_bind_eq_ok hp
  obtain ⟨stmts, hstmts, hp⟩ := exists_of_bind_eq_ok hp
  cases hp
  obtain ⟨hscope, -, -⟩ := Accepts.built (accepts_stmts stmts Arranged.nil) hrun
  have hempty : Scope.Named (Declared.scope []) := fun name kind hname => by cases hname
  exact ⟨kept, hkept, Stmt.depth_readAll hstmts (Stmt.named_of_scopeAll hempty hscope)⟩

end Goat
