import Goat.Program.Parser

/-!
# Equations of the reader

The reader of programs ends because every step leaves fewer tokens, and its definitions keep the
facts that say so. Here are the same definitions as plain steps one after the other, which is the
form in which two ways of reading are compared.
-/

namespace Goat

/-- Reads the operands and the operator of a group in parentheses. -/
def Expr.readBinary (opener : Token) (g : Group) : Except Failure (Option Reading) :=
  match operands g.inside with
  | [left, op :: extra, right] =>
    match Operator.ofSymbol? op.value, extra with
    | some operator, [] => do
      let l ← Expr.readWhole left
      let r ← Expr.readWhole right
      return some ⟨.binary operator l r (opener.span.merge g.close.span), g.close, g.rest⟩
    | _, _ => .error (.ofCause (.invalidOperator op.value) op.span)
  | items => .error (operandCountFailure g.close items)

/-- Reads the items of a group in square brackets. -/
def Expr.readBracketed (opener : Token) (g : Group) : Except Failure (Option Reading) := do
  let items ← Expr.readList "list item" opener g.inside
  return some ⟨.list items (opener.span.merge g.close.span), g.close, g.rest⟩

/-- Reads the index of a name. -/
def Expr.readElement (name opener : Token) (g : Group) : Except Failure (Option Reading) := do
  let index ← Expr.readIndex opener g.close g.inside
  return some ⟨.element name.value index (name.span.merge g.close.span), g.close, g.rest⟩

/-- Reads a name, with its index if a bracket follows. -/
def Expr.readName (name : Token) : List Token → Except Failure (Option Reading)
  | [] => .ok (some ⟨.var name.value name.span, name, []⟩)
  | opener :: more =>
    if opener.value = "[" then Group.take opener "]" more >>= Expr.readElement name opener
    else .ok (some ⟨.var name.value name.span, name, opener :: more⟩)

/-- The first token decides what is read. -/
theorem Expr.read_cons (t : Token) (rest : List Token) : Expr.read (t :: rest) =
    if t.value = "(" then Group.take t ")" rest >>= Expr.readBinary t
    else if t.value = "[" then Group.take t "]" rest >>= Expr.readBracketed t
    else if isNumeral t.value then do
      let n ← readNumber t
      return some ⟨.number n t.span, t, rest⟩
    else if isIdentifier t.value then Expr.readName t rest
    else .ok none := by
  rw [Expr.read.eq_def]
  simp only
  split
  · cases Group.take t ")" rest with
    | error f => rfl
    | ok g =>
      have hbind : (Except.ok g >>= Expr.readBinary t) = Expr.readBinary t g := rfl
      rw [hbind, Expr.readBinary]
      simp only
      split
      · rename_i left op extra right ho
        simp only [ho]
        cases Operator.ofSymbol? op.value <;> cases extra <;> rfl
      · rename_i hitems
        split
        · rename_i ho
          exact absurd ho (hitems _ _ _ _)
        · rfl
  · split
    · cases Group.take t "]" rest with
      | error f => rfl
      | ok g => rfl
    · split
      · rfl
      · split
        · cases rest with
          | nil => rfl
          | cons opener more =>
            simp only [Expr.readName]
            split
            · cases Group.take opener "]" more with
              | error f => rfl
              | ok g => rfl
            · rfl
        · rfl

/-- What an expression is read from: its first token decides. -/
inductive Expr.ReadAs : List Token → Reading → Prop where
  | binary {t op : Token} {rest left right : List Token} {g : Group} {operator : Operator}
      {l r : Expr} (ht : t.value = "(") (hg : Group.take t ")" rest = .ok g)
      (hthree : operands g.inside = [left, [op], right])
      (hop : Operator.ofSymbol? op.value = some operator) (hl : Expr.readWhole left = .ok l)
      (hr : Expr.readWhole right = .ok r) :
      ReadAs (t :: rest) ⟨.binary operator l r (t.span.merge g.close.span), g.close, g.rest⟩
  | list {t : Token} {rest : List Token} {g : Group} {items : List Expr} (ht : t.value = "[")
      (hg : Group.take t "]" rest = .ok g)
      (hitems : Expr.readList "list item" t g.inside = .ok items) :
      ReadAs (t :: rest) ⟨.list items (t.span.merge g.close.span), g.close, g.rest⟩
  | number {t : Token} {rest : List Token} {n : Nat} (hnumeral : isNumeral t.value = true)
      (hn : readNumber t = .ok n) : ReadAs (t :: rest) ⟨.number n t.span, t, rest⟩
  | var {t : Token} {rest : List Token} (hname : isIdentifier t.value = true)
      (hrest : opensIndex rest = false) : ReadAs (t :: rest) ⟨.var t.value t.span, t, rest⟩
  | element {t opener : Token} {more : List Token} {g : Group} {index : Expr}
      (hname : isIdentifier t.value = true) (hopener : opener.value = "[")
      (hg : Group.take opener "]" more = .ok g)
      (hindex : Expr.readIndex opener g.close g.inside = .ok index) :
      ReadAs (t :: opener :: more)
        ⟨.element t.value index (t.span.merge g.close.span), g.close, g.rest⟩

theorem Expr.readAs_of_read {tokens : List Token} {reading : Reading}
    (h : Expr.read tokens = .ok (some reading)) : Expr.ReadAs tokens reading := by
  cases tokens with
  | nil =>
    rw [Expr.read] at h
    cases h
  | cons t rest =>
    rw [Expr.read_cons] at h
    split at h
    · rename_i ht
      obtain ⟨g, hg, h⟩ := exists_of_bind_eq_ok h
      rw [Expr.readBinary] at h
      split at h
      · rename_i left op extra right hthree
        split at h
        · rename_i operator hop
          obtain ⟨l, hl, h⟩ := exists_of_bind_eq_ok h
          obtain ⟨r, hr, h⟩ := exists_of_bind_eq_ok h
          cases h
          exact .binary ht hg hthree hop hl hr
        · cases h
      · cases h
    · split at h
      · rename_i ht
        obtain ⟨g, hg, h⟩ := exists_of_bind_eq_ok h
        obtain ⟨items, hitems, h⟩ := exists_of_bind_eq_ok h
        cases h
        exact .list ht hg hitems
      · split at h
        · rename_i hnumeral
          obtain ⟨n, hn, h⟩ := exists_of_bind_eq_ok h
          cases h
          exact .number hnumeral hn
        · split at h
          · rename_i hname
            cases rest with
            | nil =>
              cases h
              exact .var hname rfl
            | cons opener more =>
              rw [Expr.readName] at h
              split at h
              · rename_i hopener
                obtain ⟨g, hg, h⟩ := exists_of_bind_eq_ok h
                obtain ⟨index, hindex, h⟩ := exists_of_bind_eq_ok h
                cases h
                exact .element hname hopener hg hindex
              · rename_i hopener
                cases h
                exact .var hname (decide_eq_false hopener)
          · cases h

theorem eq_of_operands {tokens left right : List Token} {op : Token}
    (h : operands tokens = [left, [op], right]) : tokens = left ++ op :: right := by
  rw [← flatten_operands tokens, h]
  simp

/-- An expression that takes all of the tokens leaves none of them. -/
theorem Expr.exists_read_of_readWhole {tokens : List Token} {e : Expr}
    (h : Expr.readWhole tokens = .ok e) : ∃ last, Expr.read tokens = .ok (some ⟨e, last, []⟩) := by
  rw [Expr.readWhole.eq_def] at h
  obtain ⟨found, hfound, h⟩ := exists_of_bind_eq_ok h
  split at h
  · cases h
  · rename_i reading
    obtain ⟨e', last, rest⟩ := reading
    cases rest with
    | nil =>
      cases h
      exact ⟨last, hfound⟩
    | cons t rest => cases h

theorem Expr.exists_read_of_readIndex {opener close : Token} {tokens : List Token} {e : Expr}
    (h : Expr.readIndex opener close tokens = .ok e) :
    ∃ last, Expr.read tokens = .ok (some ⟨e, last, []⟩) := by
  rw [Expr.readIndex.eq_def] at h
  split at h
  · cases h
  · obtain ⟨found, hfound, h⟩ := exists_of_bind_eq_ok h
    split at h
    · cases h
    · rename_i reading
      obtain ⟨e', last, rest⟩ := reading
      cases rest with
      | nil =>
        cases h
        exact ⟨last, hfound⟩
      | cons t rest => cases h

/-- An item, the comma after it and what follows are the tokens given. -/
theorem splitItem_eq {depth : Nat} {tokens item : List Token} {more : Option (Token × List Token)}
    (h : splitItem depth tokens = (item, more)) :
    (more = none ∧ tokens = item) ∨
      ∃ comma rest, more = some (comma, rest) ∧ comma.value = "," ∧
        tokens = item ++ comma :: rest := by
  induction tokens generalizing depth item with
  | nil =>
    cases h
    exact .inl ⟨rfl, rfl⟩
  | cons t tail ih =>
    unfold splitItem at h
    split at h
    · rename_i hcomma
      cases h
      exact .inr ⟨t, tail, rfl, hcomma.1, rfl⟩
    · cases h
      rcases ih rfl with ⟨hnone, heq⟩ | ⟨comma, rest, hmore, hvalue, heq⟩
      · exact .inl ⟨hnone, congrArg (t :: ·) heq⟩
      · exact .inr ⟨comma, rest, hmore, hvalue, congrArg (t :: ·) heq⟩

theorem Expr.readItems_eq (what : Text) (before : Token) (tokens : List Token) :
    Expr.readItems what before tokens =
      match splitItem 0 tokens with
      | (item, none) =>
        if item.isEmpty then .error (.ofCause (.missingItem what) before.span)
        else do return [← Expr.readWhole item]
      | (item, some (comma, rest)) =>
        if item.isEmpty then .error (.ofCause (.missingItem what) comma.span)
        else do
          let first ← Expr.readWhole item
          let others ← Expr.readItems what comma rest
          return first :: others := by
  rw [Expr.readItems.eq_def]
  rcases splitItem 0 tokens with ⟨item, _ | ⟨comma, rest⟩⟩ <;> rfl

/-- Items that were read are one expression, or one up to a comma and the items after it. -/
theorem Expr.readItems_eq_ok {what : Text} {before : Token} {tokens : List Token}
    {items : List Expr} (h : Expr.readItems what before tokens = .ok items) :
    (∃ e, items = [e] ∧ Expr.readWhole tokens = .ok e) ∨
      ∃ (item : List Token) (comma : Token) (rest : List Token) (e : Expr) (others : List Expr),
        tokens = item ++ comma :: rest ∧ comma.value = "," ∧ items = e :: others ∧
        Expr.readWhole item = .ok e ∧ Expr.readItems what comma rest = .ok others := by
  rw [Expr.readItems_eq] at h
  rcases hs : splitItem 0 tokens with ⟨item, more⟩
  rw [hs] at h
  rcases splitItem_eq hs with ⟨rfl, rfl⟩ | ⟨comma, rest, rfl, hcomma, rfl⟩
  · simp only at h
    split at h
    · cases h
    · obtain ⟨e, he, h⟩ := exists_of_bind_eq_ok h
      cases h
      exact .inl ⟨e, rfl, he⟩
  · simp only at h
    split at h
    · cases h
    · obtain ⟨e, he, h⟩ := exists_of_bind_eq_ok h
      obtain ⟨others, hothers, h⟩ := exists_of_bind_eq_ok h
      cases h
      exact .inr ⟨item, comma, rest, e, others, rfl, hcomma, rfl, he, hothers⟩

/-- Reads the blocks of a call; yields the tokens after them too. -/
def Block.readFront (tokens : List Token) : Except Failure (List Block × List Token) :=
  match _hh : BlockHead.read? tokens with
  | none => .ok ([], tokens)
  | some head =>
    match _hg : Group.take head.opener "\x7d" head.rest with
    | .error f => .error f
    | .ok g => do
      let body ← Stmt.readAll g.inside
      let (blocks, rest) ← Block.readFront g.rest
      return (.mk head.name body (head.first.span.merge g.close.span) :: blocks, rest)
  termination_by tokens.length
  decreasing_by
    have := BlockHead.length_rest_read _hh
    have := Group.length_take _hg
    omega

theorem Block.readFront_eq (tokens : List Token) : Block.readFront tokens =
    match BlockHead.read? tokens with
    | none => .ok ([], tokens)
    | some head => do
      let g ← Group.take head.opener "\x7d" head.rest
      let body ← Stmt.readAll g.inside
      let (blocks, rest) ← Block.readFront g.rest
      return (.mk head.name body (head.first.span.merge g.close.span) :: blocks, rest) := by
  rw [Block.readFront.eq_def]
  cases BlockHead.read? tokens with
  | none => rfl
  | some head =>
    simp only
    cases Group.take head.opener "\x7d" head.rest with
    | error f => rfl
    | ok g => rfl

/-- The blocks of a call are read, then the statements after them. -/
theorem Block.readAll_eq (tokens : List Token) : Block.readAll tokens = do
    let (blocks, rest) ← Block.readFront tokens
    let others ← Stmt.readAll rest
    return (blocks, others) := by
  rw [Block.readAll.eq_def, Block.readFront_eq]
  cases hh : BlockHead.read? tokens with
  | none => rfl
  | some head =>
    simp only
    cases hg : Group.take head.opener "\x7d" head.rest with
    | error f => rfl
    | ok g =>
      have := BlockHead.length_rest_read hh
      have := Group.length_take hg
      have hpure : (.ok g : Except Failure Group) = pure g := rfl
      simp only [Block.readAll_eq g.rest, hpure, bind_assoc, pure_bind]
  termination_by tokens.length

/-- What the front of a statement is read from: the head of a declaration, or else its second
    token decides. -/
inductive Front.ReadAs : List Token → Front → List Token → Prop where
  | declaration {tokens rest : List Token} {head : DeclarationHead} {d : Declaration}
      (hhead : DeclarationHead.read? tokens = some head)
      (hd : Declaration.read head = .ok (d, rest)) : ReadAs tokens (.whole (.declaration d)) rest
  | value {name next : Token} {tail rest : List Token} {a : Assignment}
      (hnone : DeclarationHead.read? (name :: next :: tail) = none) (hnext : next.value = "=")
      (ha : Assignment.readValueOf name none next tail = .ok (a, rest)) :
      ReadAs (name :: next :: tail) (.whole (.assignment a)) rest
  | element {name next : Token} {tail rest : List Token} {a : Assignment}
      (hnone : DeclarationHead.read? (name :: next :: tail) = none) (hnext : next.value = "[")
      (ha : Assignment.readElement name next tail = .ok (a, rest)) :
      ReadAs (name :: next :: tail) (.whole (.assignment a)) rest
  | call {name next : Token} {tail : List Token} {head : CallHead}
      (hnone : DeclarationHead.read? (name :: next :: tail) = none) (hnext : next.value = "(")
      (hhead : CallHead.read name next tail = .ok head) :
      ReadAs (name :: next :: tail) (.call name.value head.arguments head.span) head.rest

theorem Front.readAs_of_read {tokens rest : List Token} {front : Front}
    (h : Front.read tokens = .ok (front, rest)) : Front.ReadAs tokens front rest := by
  unfold Front.read at h
  split at h
  · rename_i head hhead
    obtain ⟨⟨d, left⟩, hd, h⟩ := exists_of_bind_eq_ok h
    cases h
    exact .declaration hhead hd
  · rename_i hnone
    split at h
    · cases h
    · cases h
    · split at h
      · rename_i hnext
        obtain ⟨⟨a, left⟩, ha, h⟩ := exists_of_bind_eq_ok h
        cases h
        exact .value hnone hnext ha
      · split at h
        · rename_i hnext
          obtain ⟨⟨a, left⟩, ha, h⟩ := exists_of_bind_eq_ok h
          cases h
          exact .element hnone hnext ha
        · split at h
          · rename_i hnext
            obtain ⟨head, hhead, h⟩ := exists_of_bind_eq_ok h
            cases h
            exact .call hnone hnext hhead
          · cases h

/-- Reads one statement; yields the tokens after it too. -/
def Stmt.readFirst (tokens : List Token) : Except Failure (Stmt × List Token) := do
  match ← Front.read tokens with
  | (.whole s, rest) => return (s, rest)
  | (.call name arguments span, rest) =>
    let (blocks, rest) ← Block.readFront rest
    return (.call name arguments blocks span, rest)

theorem Stmt.readFirst_declaration {tokens : List Token} {head : DeclarationHead}
    (h : DeclarationHead.read? tokens = some head) : Stmt.readFirst tokens = do
      let (d, rest) ← Declaration.read head
      return (.declaration d, rest) := by
  rw [Stmt.readFirst, Front.read.eq_def, h]
  simp only [bind_assoc, pure_bind]

/-- The second token of a statement that is no declaration decides what is read. -/
theorem Stmt.readFirst_second {name next : Token} {rest : List Token}
    (h : DeclarationHead.read? (name :: next :: rest) = none) :
    Stmt.readFirst (name :: next :: rest) =
      if next.value = "=" then do
        let (a, rest) ← Assignment.readValueOf name none next rest
        return (.assignment a, rest)
      else if next.value = "[" then do
        let (a, rest) ← Assignment.readElement name next rest
        return (.assignment a, rest)
      else if next.value = "(" then do
        let head ← CallHead.read name next rest
        let (blocks, rest) ← Block.readFront head.rest
        return (.call name.value head.arguments blocks head.span, rest)
      else .error (.ofCause (.unrecognizedStatement name.value) name.span) := by
  rw [Stmt.readFirst, Front.read.eq_def, h]
  simp only
  split
  · simp only [bind_assoc, pure_bind]
  · split
    · simp only [bind_assoc, pure_bind]
    · split
      · simp only [bind_assoc, pure_bind]
      · rfl

/-- Blocks that were read from tokens are none, or one between braces and the others behind it. -/
theorem Block.readFront_cases {tokens rest : List Token} {blocks : List Block}
    (h : Block.readFront tokens = .ok (blocks, rest)) :
    (blocks = [] ∧ rest = tokens) ∨ ∃ head g body others, BlockHead.read? tokens = some head ∧
      Group.take head.opener "\x7d" head.rest = .ok g ∧ Stmt.readAll g.inside = .ok body ∧
      Block.readFront g.rest = .ok (others, rest) ∧
      g.inside.length + g.rest.length < tokens.length ∧
      blocks = .mk head.name body (head.first.span.merge g.close.span) :: others := by
  rw [Block.readFront_eq] at h
  cases hh : BlockHead.read? tokens with
  | none =>
    rw [hh] at h
    cases h
    exact .inl ⟨rfl, rfl⟩
  | some head =>
    rw [hh] at h
    obtain ⟨g, hg, h⟩ := exists_of_bind_eq_ok h
    obtain ⟨body, hbody, h⟩ := exists_of_bind_eq_ok h
    obtain ⟨⟨others, left⟩, hothers, h⟩ := exists_of_bind_eq_ok h
    cases h
    have hhead := BlockHead.length_rest_read hh
    have hgroup := Group.length_take hg
    exact .inr ⟨head, g, body, others, rfl, hg, hbody, hothers, by omega, rfl⟩

theorem Block.length_rest_readFront {tokens rest : List Token} {blocks : List Block}
    (h : Block.readFront tokens = .ok (blocks, rest)) : rest.length ≤ tokens.length := by
  rcases Block.readFront_cases h with ⟨-, rfl⟩ | ⟨head, g, body, others, -, -, -, h, hlength, -⟩
  · exact Nat.le_refl _
  · have hrest := Block.length_rest_readFront h
    omega
  termination_by tokens.length

/-- A statement leaves fewer tokens than it was read from. -/
theorem Stmt.length_rest_readFirst {tokens rest : List Token} {s : Stmt}
    (h : Stmt.readFirst tokens = .ok (s, rest)) : rest.length < tokens.length := by
  obtain ⟨⟨front, left⟩, hfront, h⟩ := exists_of_bind_eq_ok h
  have hlength := Front.length_rest_read hfront
  cases front with
  | whole s' =>
    cases h
    exact hlength
  | call name arguments span =>
    obtain ⟨⟨blocks, more⟩, hblocks, h⟩ := exists_of_bind_eq_ok h
    cases h
    exact Nat.lt_of_le_of_lt (Block.length_rest_readFront hblocks) hlength

/-- Statements are read one after the other. -/
theorem Stmt.readAll_cons (t : Token) (more : List Token) : Stmt.readAll (t :: more) = do
    let (s, rest) ← Stmt.readFirst (t :: more)
    return s :: (← Stmt.readAll rest) := by
  rw [Stmt.readAll.eq_def, Stmt.readFirst]
  simp only
  rcases Front.read (t :: more) with f | ⟨_ | ⟨name, arguments, span⟩, rest⟩
  · rfl
  · rfl
  · have hpure : (.ok (.call name arguments span, rest) : Except Failure (Front × List Token)) =
      pure (.call name arguments span, rest) := rfl
    simp only [Block.readAll_eq rest, hpure, bind_assoc, pure_bind]

/-- Statements that were read from tokens are none, one that stands by itself and those behind it,
    or a call and the statements behind its blocks. -/
theorem Stmt.readAll_cases {tokens : List Token} {stmts : List Stmt}
    (h : Stmt.readAll tokens = .ok stmts) : (tokens = [] ∧ stmts = []) ∨
      (∃ s rest others, Front.read tokens = .ok (.whole s, rest) ∧
        rest.length < tokens.length ∧ Stmt.readAll rest = .ok others ∧ stmts = s :: others) ∨
      ∃ name arguments span rest blocks others,
        Front.read tokens = .ok (.call name arguments span, rest) ∧
        rest.length < tokens.length ∧ Block.readAll rest = .ok (blocks, others) ∧
        stmts = .call name arguments blocks span :: others := by
  cases tokens with
  | nil =>
    rw [Stmt.readAll] at h
    cases h
    exact .inl ⟨rfl, rfl⟩
  | cons t more =>
    rw [Stmt.readAll.eq_def] at h
    simp only at h
    split at h
    · cases h
    · rename_i s rest hf
      obtain ⟨others, hothers, h⟩ := exists_of_bind_eq_ok h
      cases h
      exact .inr (.inl ⟨s, rest, others, hf, Front.length_rest_read hf, hothers, rfl⟩)
    · rename_i name arguments span rest hf
      obtain ⟨⟨blocks, others⟩, hblocks, h⟩ := exists_of_bind_eq_ok h
      cases h
      exact .inr (.inr ⟨name, arguments, span, rest, blocks, others, hf,
        Front.length_rest_read hf, hblocks, rfl⟩)

/-- Blocks and the statements behind them were read with no block in front, or with one. -/
theorem Block.readAll_cases {tokens : List Token} {blocks : List Block} {others : List Stmt}
    (h : Block.readAll tokens = .ok (blocks, others)) :
    (BlockHead.read? tokens = none ∧ Stmt.readAll tokens = .ok others ∧ blocks = []) ∨
      ∃ head g body more, BlockHead.read? tokens = some head ∧
        Group.take head.opener "\x7d" head.rest = .ok g ∧ Stmt.readAll g.inside = .ok body ∧
        Block.readAll g.rest = .ok (more, others) ∧
        g.inside.length + g.rest.length < tokens.length ∧
        blocks = .mk head.name body (head.first.span.merge g.close.span) :: more := by
  rw [Block.readAll.eq_def] at h
  split at h
  · rename_i hnone
    obtain ⟨stmts, hstmts, h⟩ := exists_of_bind_eq_ok h
    cases h
    exact .inl ⟨hnone, hstmts, rfl⟩
  · rename_i head hh
    split at h
    · cases h
    · rename_i g hg
      obtain ⟨body, hbody, h⟩ := exists_of_bind_eq_ok h
      obtain ⟨⟨more, stmts⟩, hmore, h⟩ := exists_of_bind_eq_ok h
      cases h
      have hhead := BlockHead.length_rest_read hh
      have hgroup := Group.length_take hg
      exact .inr ⟨head, g, body, more, hh, hg, hbody, hmore, by omega, rfl⟩

theorem stripComments_cons (t : Token) (rest : List Token) : stripComments (t :: rest) =
    if t.value = "/*" then
      match skipComment? rest with
      | none => .error (.ofCause (.expected "*/") t.span)
      | some after => stripComments after
    else if t.value = "*/" then .error (.ofCause (.unexpected "*/") t.span)
    else do return t :: (← stripComments rest) := by
  rw [stripComments.eq_def]
  simp only
  split
  · cases skipComment? rest with
    | none => rfl
    | some after => rfl
  · rfl

end Goat
