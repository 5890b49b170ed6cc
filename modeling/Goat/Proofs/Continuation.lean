import Goat.Proofs.Composition
import Goat.Proofs.Ownership
import Goat.Proofs.Preservation
import Goat.Proofs.RoundTrip

/-!
# Programs that go on

A source text is continued by another one on the lines below it. If what follows cannot belong
to the last statement in front of it, then the statements of both are read one after the other,
and the code of the longer program starts with the code of the shorter one.
-/

namespace Goat

/-! ### Tokens -/

theorem Token.ofLinesFrom_append (number : Nat) (xs ys : List Text) :
    Token.ofLinesFrom number (xs ++ ys) =
      Token.ofLinesFrom number xs ++ Token.ofLinesFrom (number + xs.length) ys := by
  induction xs generalizing number with
  | nil => rfl
  | cons line xs ih =>
    rw [List.cons_append, Token.ofLinesFrom, Token.ofLinesFrom, ih, List.append_assoc,
      List.length_cons, Nat.add_assoc, Nat.add_comm 1]

/-- The tokens of a text come first, and those of the lines below it have the values that they
    have by themselves. -/
theorem Token.exists_ofSource_append (source entry : Text) :
    ∃ more, Token.ofSource (source ++ Text.newline ++ entry) = Token.ofSource source ++ more ∧
      more.map Token.value = (Token.ofSource entry).map Token.value := by
  have hlines : Text.lines (source ++ Text.newline ++ entry) =
      Text.lines source ++ Text.lines entry := by
    rw [Text.newline, List.append_assoc, List.singleton_append, Text.lines, Text.splitOn_append]
    rfl
  refine ⟨Token.ofLinesFrom (1 + (Text.lines source).length) (Text.lines entry), ?_, ?_⟩
  · rw [Token.ofSource, Token.ofLines, hlines, Token.ofLinesFrom_append]
    rfl
  · rw [Token.values_ofLinesFrom, Token.values_ofSource]

/-! ### Comments -/

theorem exists_of_map_eq_ok {ε α β : Type} {x : Except ε α} {f : α → β} {b : β}
    (h : x.map f = .ok b) : ∃ a, x = .ok a ∧ f a = b := by
  cases x with
  | error e => cases h
  | ok a => exact ⟨a, rfl, Except.ok.inj h⟩

theorem skipComment?_append {tokens rest : List Token} (h : skipComment? tokens = some rest)
    (more : List Token) : skipComment? (tokens ++ more) = some (rest ++ more) := by
  induction tokens with
  | nil => cases h
  | cons t tail ih =>
    rw [skipComment?] at h
    rw [List.cons_append, skipComment?]
    split
    · rename_i ht
      rw [if_pos ht] at h
      cases h
      rfl
    · rename_i ht
      rw [if_neg ht] at h
      exact ih h

/-- Comments that end in the tokens in front have no say in those that follow. -/
theorem stripComments_append {tokens rest : List Token} (h : stripComments tokens = .ok rest)
    (more : List Token) :
    stripComments (tokens ++ more) = (stripComments more).map (rest ++ ·) := by
  fun_induction stripComments tokens generalizing rest with
  | case1 =>
    cases h
    cases hmore : stripComments more <;> simp [Except.map, hmore]
  | case2 => cases h
  | case3 t tail ht after hs ih =>
    rw [← ih h, List.cons_append, stripComments, if_pos ht]
    split
    · rename_i hs'
      cases hs'.symm.trans (skipComment?_append hs more)
    · rename_i after' hs'
      cases hs'.symm.trans (skipComment?_append hs more)
      rfl
  | case4 => cases h
  | case5 t tail hopen hclose ih =>
    obtain ⟨kept, hkept, h⟩ := exists_of_bind_eq_ok h
    cases h
    rw [List.cons_append, stripComments, if_neg hopen, if_neg hclose, ih hkept]
    cases stripComments more <;> rfl

theorem exists_skipComment? {tokens tokens' rest : List Token}
    (hvalues : tokens.map Token.value = tokens'.map Token.value)
    (h : skipComment? tokens = some rest) :
    ∃ rest', skipComment? tokens' = some rest' ∧ rest.map Token.value = rest'.map Token.value := by
  induction tokens generalizing tokens' with
  | nil => cases h
  | cons t tail ih =>
    obtain ⟨t', tail', rfl, ht, htail⟩ := List.map_eq_cons_iff.1 hvalues.symm
    rw [skipComment?] at h ⊢
    rw [ht]
    split at h
    · rename_i hclose
      cases h
      exact ⟨tail', if_pos hclose, htail.symm⟩
    · rename_i hclose
      rw [if_neg hclose]
      exact ih htail.symm h

/-- What stands outside comments is a matter of the values. -/
theorem exists_stripComments {tokens tokens' rest : List Token}
    (hvalues : tokens.map Token.value = tokens'.map Token.value)
    (h : stripComments tokens = .ok rest) :
    ∃ rest', stripComments tokens' = .ok rest' ∧ rest.map Token.value = rest'.map Token.value := by
  fun_induction stripComments tokens generalizing tokens' rest with
  | case1 =>
    cases h
    obtain rfl := List.map_eq_nil_iff.1 hvalues.symm
    exact ⟨[], by rw [stripComments], rfl⟩
  | case2 => cases h
  | case3 t tail hopen after hs ih =>
    obtain ⟨t', tail', rfl, ht, htail⟩ := List.map_eq_cons_iff.1 hvalues.symm
    obtain ⟨after', hs', hafter⟩ := exists_skipComment? htail.symm hs
    obtain ⟨rest', hrest', hvalues'⟩ := ih hafter h
    refine ⟨rest', ?_, hvalues'⟩
    rw [stripComments, if_pos (ht.trans hopen)]
    split
    · rename_i hnone
      cases hnone.symm.trans hs'
    · rename_i after'' hs''
      cases hs''.symm.trans hs'
      exact hrest'
  | case4 => cases h
  | case5 t tail hopen hclose ih =>
    obtain ⟨t', tail', rfl, ht, htail⟩ := List.map_eq_cons_iff.1 hvalues.symm
    obtain ⟨kept, hkept, h⟩ := exists_of_bind_eq_ok h
    cases h
    obtain ⟨kept', hkept', hvalues'⟩ := ih htail.symm hkept
    refine ⟨t' :: kept', ?_, by rw [List.map_cons, List.map_cons, ht, hvalues']⟩
    rw [stripComments, if_neg (ht ▸ hopen), if_neg (ht ▸ hclose), hkept']
    rfl

/-! ### Expressions -/

theorem Group.takeFrom_append {outer : List Text} {want : Text} {seen : List Token} {last : Token}
    {tokens : List Token} {g : Group} (h : takeFrom outer want seen last tokens = .ok g)
    (more : List Token) :
    takeFrom outer want seen last (tokens ++ more) = .ok { g with rest := g.rest ++ more } := by
  induction tokens generalizing outer want seen last with
  | nil => cases h
  | cons t tail ih =>
    rw [takeFrom.eq_def] at h
    rw [List.cons_append, takeFrom.eq_def]
    simp only at h ⊢
    split at h
    · exact ih h
    · split at h
      · rename_i hcloser
        rw [if_pos hcloser]
        split at h
        · rename_i hwant
          rw [if_pos hwant]
          split at h
          · cases h
            rfl
          · exact ih h
        · cases h
      · rename_i hcloser
        rw [if_neg hcloser]
        exact ih h

theorem Group.take_append {opener : Token} {closer : Text} {tokens : List Token} {g : Group}
    (h : take opener closer tokens = .ok g) (more : List Token) :
    take opener closer (tokens ++ more) = .ok { g with rest := g.rest ++ more } :=
  takeFrom_append h more

theorem Group.exists_cons_of_take {opener : Token} {closer : Text} {tokens : List Token} {g : Group}
    (h : take opener closer tokens = .ok g) : ∃ t rest, tokens = t :: rest := by
  cases tokens with
  | nil => cases h
  | cons t rest => exact ⟨t, rest, rfl⟩

/-- An expression is read alike when more tokens follow that do not index it. -/
theorem Expr.read_append {tokens : List Token} {reading : Reading}
    (h : Expr.read tokens = .ok (some reading)) {more : List Token}
    (hmore : opensIndex more = false) :
    Expr.read (tokens ++ more) = .ok (some { reading with rest := reading.rest ++ more }) := by
  cases Expr.readAs_of_read h with
  | binary ht hg hthree hop hl hr =>
    exact Expr.read_binary ht (Group.take_append hg more) hthree
      (Operator.symbol_of_ofSymbol? hop).symm hl hr
  | list ht hg hitems => exact Expr.read_list ht (Group.take_append hg more) hitems
  | number hnumeral hn => exact Expr.read_number hnumeral hn _
  | @var t rest hname hrest =>
    cases rest with
    | nil => exact Expr.read_var hname hmore
    | cons opener tail => exact Expr.read_var hname hrest
  | element hname hopener hg hindex =>
    exact Expr.read_element hname hopener (Group.take_append hg more) hindex

/-- An expression starts with a token that is neither an equals sign nor a comparison. -/
theorem Expr.exists_cons_of_read {tokens : List Token} {reading : Reading}
    (h : Expr.read tokens = .ok (some reading)) :
    ∃ t rest, tokens = t :: rest ∧ t.value ≠ "=" ∧ t.value ≠ ">" := by
  cases tokens with
  | nil =>
    rw [Expr.read] at h
    cases h
  | cons t rest =>
    refine ⟨t, rest, rfl, ?_, ?_⟩ <;>
    · intro ht
      rw [Expr.read.eq_def] at h
      simp only [ht] at h
      cases h

theorem readValue_append {equals : Token} {tokens : List Token} {reading : Reading}
    (h : readValue equals tokens = .ok reading) {more : List Token}
    (hmore : opensIndex more = false) :
    readValue equals (tokens ++ more) = .ok { reading with rest := reading.rest ++ more } := by
  obtain ⟨found, hfound, h⟩ := exists_of_bind_eq_ok h
  split at h
  · cases h
    rw [readValue.eq_def, Expr.read_append hfound hmore]
    rfl
  · split at h <;> cases h

theorem exists_cons_of_readValue {equals : Token} {tokens : List Token} {reading : Reading}
    (h : readValue equals tokens = .ok reading) :
    ∃ t rest, tokens = t :: rest ∧ t.value ≠ "=" ∧ t.value ≠ ">" := by
  obtain ⟨found, hfound, h⟩ := exists_of_bind_eq_ok h
  split at h
  · cases h
    exact Expr.exists_cons_of_read hfound
  · split at h <;> cases h

/-! ### Statements -/

/-- An equals sign in third place starts a declaration, whatever its name, unless the token
    after it closes a type argument. -/
theorem DeclarationHead.read?_of_equals (type name : Token) {equals t : Token}
    (hequals : equals.value = "=") (ht : t.value ≠ ">") (rest : List Token) :
    read? (type :: name :: equals :: t :: rest) = some ⟨type, none, name, equals, t :: rest⟩ := by
  unfold read?
  split
  · rename_i heq
    cases heq
    rw [if_neg fun h => ht h.2.1, if_pos hequals]
  · rename_i heq
    cases heq
    rw [if_pos hequals]
  · rename_i hother
    exact absurd rfl (hother _ _ _ _)

theorem DeclarationHead.read?_append {tokens : List Token} {head : DeclarationHead}
    (h : read? tokens = some head) {t : Token} {rest : List Token} (hrest : head.rest = t :: rest)
    (ht : t.value ≠ ">") (more : List Token) :
    read? (tokens ++ more) = some { head with rest := head.rest ++ more } := by
  unfold read? at h
  split at h
  · split at h
    · rename_i hargument
      cases h
      exact DeclarationHead.read?_argument hargument.1 hargument.2.1 hargument.2.2 _
    · split at h
      · rename_i hequals
        cases h
        cases hrest
        exact DeclarationHead.read?_of_equals _ _ hequals ht _
      · cases h
  · split at h
    · rename_i hequals
      cases h
      obtain rfl : _ = t :: rest := hrest
      exact DeclarationHead.read?_of_equals _ _ hequals ht _
    · cases h
  · cases h

/-- What is no declaration does not become one by what follows it, unless it starts with a
    type argument. -/
theorem DeclarationHead.read?_append_eq_none {name next third : Token} {tokens : List Token}
    (h : read? (name :: next :: third :: tokens) = none) (hnext : next.value ≠ "<")
    (more : List Token) : read? (name :: next :: third :: tokens ++ more) = none := by
  refine DeclarationHead.read?_eq_none name hnext (fun hthird => ?_) _
  rw [DeclarationHead.read?_plain hnext hthird] at h
  cases h

theorem Assignment.readValueOf_append {name equals : Token} {index : Option Expr}
    {tokens rest : List Token} {a : Assignment}
    (h : readValueOf name index equals tokens = .ok (a, rest)) {more : List Token}
    (hmore : opensIndex more = false) :
    readValueOf name index equals (tokens ++ more) = .ok (a, rest ++ more) := by
  obtain ⟨value, hvalue, h⟩ := exists_of_bind_eq_ok h
  cases h
  exact Assignment.readValueOf_eq name index (readValue_append hvalue hmore)

theorem Assignment.readElement_append {name opener : Token} {tokens rest : List Token}
    {a : Assignment} (h : readElement name opener tokens = .ok (a, rest)) {more : List Token}
    (hmore : opensIndex more = false) :
    readElement name opener (tokens ++ more) = .ok (a, rest ++ more) := by
  obtain ⟨g, hg, h⟩ := exists_of_bind_eq_ok h
  obtain ⟨index, hindex, h⟩ := exists_of_bind_eq_ok h
  split at h
  · rename_i equals tail hrest
    split at h
    · rename_i hequals
      rw [Assignment.readElement_eq (Group.take_append hg more) hindex
        (by rw [hrest, List.cons_append]) hequals]
      exact readValueOf_append h hmore
    · cases h
  · cases h

theorem CallHead.read_append {name opener : Token} {tokens : List Token} {head : CallHead}
    (h : read name opener tokens = .ok head) (more : List Token) :
    read name opener (tokens ++ more) = .ok { head with rest := head.rest ++ more } := by
  obtain ⟨g, hg, h⟩ := exists_of_bind_eq_ok h
  obtain ⟨arguments, harguments, h⟩ := exists_of_bind_eq_ok h
  cases h
  rw [CallHead.read, Group.take_append hg more]
  simp only [bind, Except.bind, harguments]
  rfl

/-- The front of a statement is read alike when more tokens follow that do not index it. -/
theorem Front.read_append {tokens rest : List Token} {front : Front}
    (h : Front.read tokens = .ok (front, rest)) {more : List Token}
    (hmore : opensIndex more = false) :
    Front.read (tokens ++ more) = .ok (front, rest ++ more) := by
  cases Front.readAs_of_read h with
  | declaration hhead hd =>
    obtain ⟨value, hvalue, hd⟩ := exists_of_bind_eq_ok hd
    cases hd
    obtain ⟨t, tail, htail, -, ht⟩ := exists_cons_of_readValue hvalue
    exact Front.read_of_head (DeclarationHead.read?_append hhead htail ht more)
      (readValue_append hvalue hmore)
  | value hnone hnext ha =>
    obtain ⟨value, hvalue, -⟩ := exists_of_bind_eq_ok ha
    obtain ⟨third, tail, rfl, -⟩ := exists_cons_of_readValue hvalue
    exact Front.read_of_equals (DeclarationHead.read?_append_eq_none hnone
      (by rw [hnext]; decide) more) hnext (Assignment.readValueOf_append ha hmore)
  | element hnone hnext ha =>
    obtain ⟨g, hg, -⟩ := exists_of_bind_eq_ok ha
    obtain ⟨third, tail, rfl⟩ := Group.exists_cons_of_take hg
    exact Front.read_of_bracket (DeclarationHead.read?_append_eq_none hnone
      (by rw [hnext]; decide) more) hnext (Assignment.readElement_append ha hmore)
  | call hnone hnext hhead =>
    obtain ⟨g, hg, -⟩ := exists_of_bind_eq_ok hhead
    obtain ⟨third, tail, rfl⟩ := Group.exists_cons_of_take hg
    exact Front.read_of_parenthesis (DeclarationHead.read?_append_eq_none hnone
      (by rw [hnext]; decide) more) hnext (CallHead.read_append hhead more)

theorem BlockHead.read?_append {tokens : List Token} {head : BlockHead}
    (h : read? tokens = some head) (more : List Token) :
    read? (tokens ++ more) = some { head with rest := head.rest ++ more } := by
  unfold read? at h
  split at h
  · cases h
  · split at h
    · rename_i ht
      cases h
      exact BlockHead.read?_brace ht more
    · cases h
  · split at h
    · rename_i ht
      cases h
      exact BlockHead.read?_brace ht _
    · split at h
      · rename_i hlabel
        cases h
        exact BlockHead.read?_label hlabel.1 hlabel.2 _
      · cases h

/-- The values start a statement that cannot belong to one in front of it: they are none, or the
    first is a name and no brace comes next. -/
def startsAnew : List Text → Bool
  | [] => true
  | [first] => isIdentifier first
  | first :: second :: _ => isIdentifier first && decide (second ≠ "\x7b")

theorem opensIndex_of_startsAnew {tokens : List Token}
    (h : startsAnew (tokens.map Token.value) = true) : opensIndex tokens = false := by
  match tokens with
  | [] => rfl
  | [t] => exact decide_eq_false ((IsWord.of_isIdentifier h).ne (by decide))
  | t :: next :: rest =>
    have ht : isIdentifier t.value = true := (Bool.and_eq_true_iff.1 h).1
    exact decide_eq_false ((IsWord.of_isIdentifier ht).ne (by decide))

theorem BlockHead.read?_of_startsAnew {tokens : List Token}
    (h : startsAnew (tokens.map Token.value) = true) : BlockHead.read? tokens = none := by
  match tokens with
  | [] => rfl
  | [t] => exact if_neg ((IsWord.of_isIdentifier h).ne (by decide))
  | t :: next :: rest =>
    obtain ⟨ht, hnext⟩ := Bool.and_eq_true_iff.1 h
    rw [BlockHead.read?, if_neg ((IsWord.of_isIdentifier ht).ne (by decide)),
      if_neg fun hlabel => of_decide_eq_true hnext hlabel.2]

/-- Statements that start with no block do not start with one when more of them follow. -/
theorem BlockHead.read?_append_eq_none {tokens : List Token} (h : read? tokens = none)
    {stmts : List Stmt} (hstmts : Stmt.readAll tokens = .ok stmts) {more : List Token}
    (hmore : startsAnew (more.map Token.value) = true) : read? (tokens ++ more) = none := by
  match tokens, h with
  | [], _ => exact BlockHead.read?_of_startsAnew hmore
  | [t], _ =>
    -- A single token is no statement.
    rw [Stmt.readAll.eq_def] at hstmts
    cases hstmts
  | t :: next :: rest, h =>
    rw [read?] at h
    rw [List.cons_append, List.cons_append, read?]
    split at h
    · cases h
    · rename_i hbrace
      split at h
      · cases h
      · rename_i hlabel
        rw [if_neg hbrace, if_neg hlabel]

mutual

/-- The statements of tokens that start anew are read after the statements in front of them. -/
theorem Stmt.readAll_append (tokens : List Token) {stmts : List Stmt}
    (h : Stmt.readAll tokens = .ok stmts) {more : List Token}
    (hmore : startsAnew (more.map Token.value) = true) :
    Stmt.readAll (tokens ++ more) = (Stmt.readAll more).map (stmts ++ ·) := by
  rcases Stmt.readAll_cases h with ⟨rfl, rfl⟩ | ⟨s, rest, others, hf, hlength, hothers, rfl⟩ |
    ⟨name, arguments, span, rest, blocks, others, hf, hlength, hblocks, rfl⟩
  · rw [List.nil_append]
    cases Stmt.readAll more <;> rfl
  · rw [Stmt.readAll_of_whole (Front.read_append hf (opensIndex_of_startsAnew hmore)),
      Stmt.readAll_append rest hothers hmore]
    cases Stmt.readAll more <;> rfl
  · rw [Stmt.readAll_of_call (Front.read_append hf (opensIndex_of_startsAnew hmore)),
      Block.readAll_append rest hblocks hmore]
    cases Stmt.readAll more <;> rfl
  termination_by 2 * tokens.length
  decreasing_by all_goals omega

/-- The statements of tokens that start anew are read after the blocks in front of them. -/
theorem Block.readAll_append (tokens : List Token) {blocks : List Block} {others : List Stmt}
    (h : Block.readAll tokens = .ok (blocks, others)) {more : List Token}
    (hmore : startsAnew (more.map Token.value) = true) :
    Block.readAll (tokens ++ more) =
      (Stmt.readAll more).map fun stmts => (blocks, others ++ stmts) := by
  rcases Block.readAll_cases h with
    ⟨hnone, hothers, rfl⟩ | ⟨head, g, body, blocks, hh, hg, hbody, hblocks, hlength, rfl⟩
  · rw [Block.readAll_of_none (BlockHead.read?_append_eq_none hnone hothers hmore),
      Stmt.readAll_append tokens hothers hmore]
    cases Stmt.readAll more <;> rfl
  · rw [Block.readAll_of_head (BlockHead.read?_append hh more) (Group.take_append hg more) hbody,
      Block.readAll_append g.rest hblocks hmore]
    cases Stmt.readAll more <;> rfl
  termination_by 2 * tokens.length + 1
  decreasing_by all_goals omega

end

/-! ### Programs -/

/-- The text has no token outside comments, or the first one is a name that no brace follows. -/
def standsAlone (source : Text) : Bool :=
  (stripComments (Token.ofSource source)).toOption.all fun tokens =>
    startsAnew (tokens.map Token.value)

/-- The statements of a text that stands alone come after those of the text above it. -/
theorem Program.exists_ofSource_append {source entry : Text} {p all : Program}
    (hp : Program.ofSource source = .ok p)
    (hall : Program.ofSource (source ++ Text.newline ++ entry) = .ok all)
    (hentry : standsAlone entry = true) :
    ∃ others, all.statements = p.statements ++ others := by
  obtain ⟨more, htokens, hvalues⟩ := Token.exists_ofSource_append source entry
  obtain ⟨rest, hrest, hp⟩ := exists_of_bind_eq_ok hp
  obtain ⟨stmts, hstmts, hp⟩ := exists_of_bind_eq_ok hp
  cases hp
  rw [Program.ofSource, htokens] at hall
  obtain ⟨restAll, hrestAll, hall⟩ := exists_of_bind_eq_ok hall
  obtain ⟨stmtsAll, hstmtsAll, hall⟩ := exists_of_bind_eq_ok hall
  cases hall
  rw [stripComments_append hrest] at hrestAll
  obtain ⟨restMore, hrestMore, rfl⟩ := exists_of_map_eq_ok hrestAll
  have hanew : startsAnew (restMore.map Token.value) = true := by
    obtain ⟨restEntry, hrestEntry, hsame⟩ := exists_stripComments hvalues hrestMore
    rw [standsAlone, hrestEntry] at hentry
    rwa [hsame]
  rw [Stmt.readAll_append rest hstmts hanew] at hstmtsAll
  obtain ⟨others, -, rfl⟩ := exists_of_map_eq_ok hstmtsAll
  exact ⟨others, rfl⟩

/-- The code of a program starts with the code of the program above its last text. -/
theorem compile_append {source entry : Text} {c c' : Compilation} (hc : compile source = .ok c)
    (hc' : compile (source ++ Text.newline ++ entry) = .ok c') (hentry : standsAlone entry = true) :
    c.code <+: c'.code := by
  obtain ⟨p, e, hp, hrun, rfl⟩ := exists_emitted hc
  obtain ⟨p', e', hp', hrun', rfl⟩ := exists_emitted hc'
  obtain ⟨others, hothers⟩ := Program.exists_ofSource_append hp hp' hentry
  rw [emitProgram, hothers] at hrun'
  obtain ⟨e₁, hfront, hrest⟩ := run_emitStmts_append hrun'
  obtain rfl : e = e₁ := congrArg Prod.snd (hrun.symm.trans hfront)
  obtain ⟨piece, -, hpiece⟩ := (alike_emitStmts others).exists_added e
  rw [hrest] at hpiece
  exact ⟨piece, hpiece.symm⟩

end Goat
