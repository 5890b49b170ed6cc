import Goat.Proofs.Brackets
import Goat.Proofs.Positional
import Goat.Proofs.Reading

/-!
# Expressions by positions

An expression that is read by positions is the one that is read from the tokens: a range of
positions stands for the tokens in it, a position for the tokens from there on. Brackets match
between a bracket and its partner, so the partners that items and operands are cut at are found
again, and no check of the reader by positions fails.
-/

namespace Goat

/-! ### Ranges of tokens -/

/-- The tokens from position `i` up to `stop`. -/
def slice (tokens : List Token) (i stop : Nat) : List Token := (tokens.take stop).drop i

section Slices

variable {tokens : List Token} {i stop : Nat}

theorem slice_of_le (h : stop ≤ i) : slice tokens i stop = [] := by
  rw [slice, List.drop_eq_nil_iff, List.length_take]
  omega

theorem slice_eq_cons (h : i < stop) (hstop : stop ≤ tokens.length) :
    ∃ t, tokens[i]? = some t ∧ slice tokens i stop = t :: slice tokens (i + 1) stop := by
  have hi : i < (tokens.take stop).length := by
    rw [List.length_take]
    omega
  refine ⟨tokens[i], List.getElem?_eq_getElem (by omega), ?_⟩
  rw [slice, List.drop_eq_getElem_cons hi, List.getElem_take]
  rfl

theorem slice_singleton {t : Token} (h : tokens[i]? = some t) : slice tokens i (i + 1) = [t] := by
  obtain ⟨hi, -⟩ := List.getElem?_eq_some_iff.1 h
  obtain ⟨t', ht', hslice⟩ := slice_eq_cons (Nat.lt_succ_self i) hi
  cases h.symm.trans ht'
  rw [hslice, slice_of_le (Nat.le_refl _)]

theorem of_slice_eq_cons {t : Token} {rest : List Token} (h : slice tokens i stop = t :: rest) :
    i < stop ∧ tokens[i]? = some t ∧ rest = slice tokens (i + 1) stop := by
  have hlt : i < stop := by
    rcases Nat.lt_or_ge i stop with hlt | hge
    · exact hlt
    · rw [slice_of_le hge] at h
      cases h
  have hhead : (tokens.take stop)[i]? = some t := by
    rw [← Nat.add_zero i, ← List.getElem?_drop]
    exact congrArg (·[0]?) h
  refine ⟨hlt, by rwa [List.getElem?_take_of_lt hlt] at hhead, ?_⟩
  rw [slice, ← List.tail_drop]
  exact (congrArg List.tail h).symm

theorem slice_append {k : Nat} (hi : i ≤ k) (hk : k ≤ stop) (hstop : stop ≤ tokens.length) :
    slice tokens i stop = slice tokens i k ++ slice tokens k stop := by
  have hsplit : tokens.take stop = tokens.take k ++ (tokens.take stop).drop k := by
    conv =>
      lhs
      rw [← List.take_append_drop k (tokens.take stop), List.take_take, Nat.min_eq_left hk]
  have hlength : i ≤ (tokens.take k).length := by
    rw [List.length_take]
    omega
  rw [slice, hsplit, List.drop_append_of_le_length hlength]
  rfl

theorem slice_length (tokens : List Token) : slice tokens 0 tokens.length = tokens := by
  rw [slice, List.take_length, List.drop_zero]

end Slices

/-! ### Groups -/

/-- What looking for a partner goes on with after the innermost bracket is closed. -/
def Group.afterClose (outer : List Text) (seen : List Token) (close : Token) (rest : List Token) :
    Except Failure Group :=
  match outer with
  | [] => .ok ⟨seen.reverse, close, rest⟩
  | next :: outer => takeFrom outer next (close :: seen) close rest

/-- The brackets match up to the partner that is found. -/
theorem Group.exists_nested {outer : List Text} {want : Text} {seen : List Token} {last : Token}
    {tokens : List Token} {g : Group} (h : takeFrom outer want seen last tokens = .ok g)
    (hmarks : ∀ t ∈ tokens, t.value ≠ "/*" ∧ t.value ≠ "*/") :
    ∃ inside close rest, tokens = inside ++ close :: rest ∧
      Nested (fun _ => True) (inside.map Token.value) ∧ close.value = want ∧
      afterClose outer (inside.reverse ++ seen) close rest = .ok g := by
  induction hn : tokens.length using Nat.strongRecOn generalizing outer want seen last tokens with
  | _ n ih =>
    cases tokens with
    | nil => cases h
    | cons t tokens =>
      rw [List.length_cons] at hn
      obtain ⟨hmark, hmarks⟩ := List.forall_mem_cons.1 hmarks
      rw [takeFrom.eq_def] at h
      simp only at h
      cases hcloser : closerOf? t.value with
      | some closer =>
        -- The group that opens here ends first, and the search goes on after it.
        simp only [hcloser] at h
        obtain ⟨inside, close, rest, rfl, hinside, hclose, hafter⟩ :=
          ih tokens.length (by omega) h hmarks rfl
        have hlength : rest.length < n := by
          rw [List.length_append, List.length_cons] at hn
          omega
        obtain ⟨inside', close', rest', rfl, hinside', hclose', hafter'⟩ :=
          ih rest.length hlength hafter
            (fun u hu => hmarks u (List.mem_append_right _ (List.mem_cons_of_mem _ hu))) rfl
        refine ⟨t :: (inside ++ close :: inside'), close', rest', by simp, ?_, hclose', ?_⟩
        · have hgroup := Nested.group hcloser hinside hinside'
          simpa [enclosed, hclose] using hgroup
        · simpa using hafter'
      | none =>
        simp only [hcloser] at h
        split at h
        · split at h
          · rename_i hwant
            exact ⟨[], t, tokens, rfl, .nil, hwant, h⟩
          · cases h
        · rename_i hinner
          obtain ⟨inside, close, rest, rfl, hinside, hclose, hafter⟩ :=
            ih tokens.length (by omega) h hmarks rfl
          refine ⟨t :: inside, close, rest, rfl, ?_, hclose, by simpa using hafter⟩
          exact .inner ⟨hcloser, Bool.eq_false_iff.2 hinner, hmark⟩ trivial hinside

theorem Group.nested_inside {opener : Token} {closer : Text} {tokens : List Token} {g : Group}
    (h : take opener closer tokens = .ok g)
    (hmarks : ∀ t ∈ tokens, t.value ≠ "/*" ∧ t.value ≠ "*/") :
    Nested (fun _ => True) (g.inside.map Token.value) := by
  obtain ⟨inside, close, rest, -, hinside, -, hafter⟩ := Group.exists_nested h hmarks
  cases hafter
  simpa using hinside

theorem Nested.of_cons {P : Text → Prop} {v : Text} {vs : List Text} (h : Nested P (v :: vs)) :
    (IsInner v ∧ P v ∧ Nested P vs) ∨ ∃ closer inside rest, closerOf? v = some closer ∧
      vs = inside ++ closer :: rest ∧ Nested (fun _ => True) inside ∧ Nested P rest := by
  generalize hall : v :: vs = all at h
  cases h with
  | nil => cases hall
  | inner hv hP h =>
    cases hall
    exact .inl ⟨hv, hP, h⟩
  | group ho hi h =>
    simp only [enclosed, List.cons_append, List.append_assoc, List.nil_append] at hall
    cases hall
    exact .inr ⟨_, _, _, ho, rfl, hi, h⟩

/-- The parentheses and square brackets among the values that are outside any other match. -/
inductive Grouped : List Text → Prop where
  | nil : Grouped []
  | single {v : Text} {vs} (hv : ¬(v = "(" ∨ v = "[")) (h : Grouped vs) : Grouped (v :: vs)
  | group {opener : Text} {inside closer vs} (hopen : opener = "(" ∨ opener = "[")
      (ho : closerOf? opener = some closer) (hi : Nested (fun _ => True) inside) (h : Grouped vs) :
      Grouped (enclosed opener inside closer ++ vs)

namespace Grouped

theorem append {vs ws : List Text} (h : Grouped vs) (h' : Grouped ws) : Grouped (vs ++ ws) := by
  induction h with
  | nil => exact h'
  | single hv _ ih => exact .single hv ih
  | group hopen ho hi _ ih =>
    rw [List.append_assoc]
    exact .group hopen ho hi ih

theorem of_nested {P : Text → Prop} {vs : List Text} (h : Nested P vs) : Grouped vs := by
  induction h with
  | nil => exact .nil
  | inner hv _ _ ih =>
    refine .single ?_ ih
    rintro (rfl | rfl)
    · exact absurd hv (by decide)
    · exact absurd hv (by decide)
  | @group _ opener inside closer vs ho hi _ ihi ih =>
    by_cases hopen : opener = "(" ∨ opener = "["
    · exact .group hopen ho hi ih
    · -- A brace and its partner are tokens like any other here.
      obtain ⟨-, hnone, -⟩ := bracket_facts ho
      have hclose : ¬(closer = "(" ∨ closer = "[") := by
        rintro (rfl | rfl)
        · exact absurd hnone (by decide)
        · exact absurd hnone (by decide)
      have hrest : Grouped (inside ++ closer :: vs) := ihi.append (.single hclose ih)
      simpa [enclosed] using Grouped.single hopen hrest

theorem of_cons {v : Text} {vs : List Text} (h : Grouped (v :: vs)) :
    (¬(v = "(" ∨ v = "[") ∧ Grouped vs) ∨ ∃ closer inside rest, (v = "(" ∨ v = "[") ∧
      closerOf? v = some closer ∧ vs = inside ++ closer :: rest ∧
      Nested (fun _ => True) inside ∧ Grouped rest := by
  generalize hall : v :: vs = all at h
  cases h with
  | nil => cases hall
  | single hv h =>
    cases hall
    exact .inl ⟨hv, h⟩
  | group hopen ho hi h =>
    simp only [enclosed, List.cons_append, List.append_assoc, List.nil_append] at hall
    cases hall
    exact .inr ⟨_, _, _, hopen, ho, rfl, hi, h⟩

end Grouped

namespace Positional

/-! ### Steps that match -/

section Steps

variable {α β γ δ : Type} {R : α → β → Prop} {S : γ → δ → Prop}

/-- The step does not fault. It fails as `x` does, or both have results, which are related. -/
def Matches (R : α → β → Prop) (m : Positional α) (x : Except Failure β) : Prop :=
  (∃ a b, m = pure a ∧ x = .ok b ∧ R a b) ∨ ∃ f : SyntaxError, m = throw f ∧ x = .error f.val

theorem Matches.pure {a : α} {b : β} (h : R a b) : Matches R (Pure.pure a) (.ok b) :=
  .inl ⟨a, b, rfl, rfl, h⟩

theorem Matches.fail {cause : Diagnostic.Cause} {span : Span} {h : cause.kind = .syntaxError} :
    Matches R (fail cause span h) (.error (.ofCause cause span)) :=
  .inr ⟨_, rfl, rfl⟩

theorem Matches.bind {m : Positional α} {x : Except Failure β} {k : α → Positional γ}
    {g : β → Except Failure δ} (hm : Matches R m x) (hk : ∀ a b, R a b → Matches S (k a) (g b)) :
    Matches S (m >>= k) (x >>= g) := by
  rcases hm with ⟨a, b, rfl, rfl, hab⟩ | ⟨f, rfl, rfl⟩
  · rw [pure_bind]
    exact hk a b hab
  · exact .inr ⟨f, rfl, rfl⟩

theorem Matches.of_ok {m : Positional α} {b : β} (h : Matches R m (.ok b)) :
    ∃ a, m = Pure.pure a ∧ R a b := by
  rcases h with ⟨a, b', hm, hb, hab⟩ | ⟨f, -, hf⟩
  · cases hb
    exact ⟨a, hm, hab⟩
  · cases hf

theorem Matches.imp {R' : α → β → Prop} {m : Positional α} {x : Except Failure β}
    (h : Matches R m x) (hR : ∀ a b, x = .ok b → R a b → R' a b) : Matches R' m x := by
  rcases h with ⟨a, b, hm, hx, hab⟩ | h
  · exact .inl ⟨a, b, hm, hx, hR a b hx hab⟩
  · exact .inr h

theorem Matches.map_left {m : Positional α} {x : Except Failure β} {f : α → γ} {S : γ → β → Prop}
    (h : Matches R m x) (hf : ∀ a b, R a b → S (f a) b) :
    Matches S (do let a ← m; return f a) x := by
  rcases h with ⟨a, b, rfl, rfl, hab⟩ | ⟨e, rfl, rfl⟩
  · rw [pure_bind]
    exact .pure (hf a b hab)
  · exact .inr ⟨e, rfl, rfl⟩

end Steps

section Tokens

variable {tokens : List Token} {i stop : Nat}

theorem tokenAt_eq {t : Token} (h : tokens[i]? = some t) : tokenAt tokens i = pure t := by
  rw [tokenAt, h]

theorem spanOf_eq {first last : Nat} {t u : Token} (ht : tokens[first]? = some t)
    (hu : tokens[last]? = some u) : spanOf tokens first last = pure (t.span.merge u.span) := by
  rw [spanOf, tokenAt_eq ht, pure_bind, tokenAt_eq hu, pure_bind]

theorem valueAt_of_cons {t : Token} {rest : List Token} (h : slice tokens i stop = t :: rest) :
    valueAt tokens i stop = pure t.value := by
  obtain ⟨hlt, ht, -⟩ := of_slice_eq_cons h
  rw [valueAt, if_pos hlt, tokenAt_eq ht, pure_bind]

theorem valueAt_of_nil (hstop : stop ≤ tokens.length) (h : slice tokens i stop = []) :
    valueAt tokens i stop = pure [] := by
  have hge : ¬i < stop := by
    intro hlt
    obtain ⟨t, -, hcons⟩ := slice_eq_cons hlt hstop
    rw [h] at hcons
    cases hcons
  rw [valueAt, if_neg hge]

theorem lastSpan_eq {last : Token} (hstop : i + 1 ≤ tokens.length) (h : tokens[i]? = some last) :
    lastSpan tokens (i + 1) = pure last.span := by
  rw [lastSpan, if_pos ⟨Nat.succ_pos i, hstop⟩, tokenBefore, tokenAt_eq h, pure_bind]

theorem exists_lastSpan {stop : Nat} (hlt : i < stop) (hstop : stop ≤ tokens.length) :
    ∃ span, lastSpan tokens stop = pure span := by
  obtain ⟨last, rfl⟩ := Nat.exists_eq_add_of_lt hlt
  exact ⟨_, lastSpan_eq hstop (List.getElem?_eq_getElem hstop)⟩

end Tokens

/-! ### Brackets -/

section Brackets

variable {tokens : List Token}

/-- The bracket at position `m` closes a group; the tokens `seen`, in reverse, belong to it, and so
    do those from position `i` on. -/
structure Closes (tokens : List Token) (seen : List Token) (i stop m : Nat) (g : Group) : Prop where
  le : i ≤ m
  lt : m < stop
  inside : g.inside = seen.reverse ++ slice tokens i m
  close : tokens[m]? = some g.close
  rest : g.rest = slice tokens (m + 1) stop

theorem Closes.pop {t : Token} {seen : List Token} {i stop m : Nat} {g : Group}
    (h : Closes tokens (t :: seen) (i + 1) stop m g) (ht : tokens[i]? = some t)
    (hstop : stop ≤ tokens.length) : Closes tokens seen i stop m g := by
  have hle := h.le
  have hlt := h.lt
  have hm : m ≤ tokens.length := by omega
  obtain ⟨t', ht', hslice⟩ := slice_eq_cons (Nat.lt_of_succ_le hle) hm
  cases ht.symm.trans ht'
  exact ⟨by omega, hlt, by rw [h.inside, hslice]; simp, h.close, h.rest⟩

/-- Looking for a partner by positions is looking for it in the tokens. -/
theorem matches_partnerFrom {stop j : Nat} (hj : j + 1 ≤ stop) (hstop : stop ≤ tokens.length)
    {last : Token} (hlast : tokens[j]? = some last) (outer : List Text) (want : Text)
    (seen : List Token) :
    Matches (Closes tokens seen (j + 1) stop) (partnerFrom tokens stop (want :: outer) (j + 1))
      (Group.takeFrom outer want seen last (slice tokens (j + 1) stop)) := by
  rw [partnerFrom]
  split
  · rename_i hlt
    obtain ⟨t, ht, hslice⟩ := slice_eq_cons hlt hstop
    have hnext (outer : List Text) (want : Text) :
        Matches (Closes tokens seen (j + 1) stop) (partnerFrom tokens stop (want :: outer) (j + 2))
          (Group.takeFrom outer want (t :: seen) t (slice tokens (j + 2) stop)) :=
      (matches_partnerFrom hlt hstop ht outer want (t :: seen)).imp
        fun m g _ h => h.pop ht hstop
    rw [tokenAt_eq ht, pure_bind, hslice, Group.takeFrom.eq_def]
    simp only
    cases closerOf? t.value with
    | some closer => exact hnext (want :: outer) closer
    | none =>
      simp only [innermost, pure_bind]
      split
      · split
        · cases outer with
          | nil => exact .pure ⟨Nat.le_refl _, hlt, by simp [slice_of_le], ht, rfl⟩
          | cons next outer => exact hnext outer next
        · exact .fail
      · exact hnext outer want
  · rename_i hge
    obtain rfl : stop = j + 1 := by omega
    rw [slice_of_le (Nat.le_refl _), Group.takeFrom, innermost, pure_bind, lastSpan_eq hstop hlast,
      pure_bind]
    exact .fail
  termination_by stop - j

theorem matches_partner {opener stop : Nat} (hlt : opener < stop) (hstop : stop ≤ tokens.length)
    {t : Token} (ht : tokens[opener]? = some t) {closer : Text}
    (hcloser : closerOf? t.value = some closer) :
    Matches (Closes tokens [] (opener + 1) stop) (partner tokens opener stop)
      (Group.take t closer (slice tokens (opener + 1) stop)) := by
  rw [partner, tokenAt_eq ht, pure_bind, hcloser]
  exact matches_partnerFrom hlt hstop ht [] closer []

/-- The bracket at position `m` is the partner of the one at `opener`, and they enclose a group. -/
structure Encloses (tokens : List Token) (opener stop m : Nat) (g : Group) : Prop where
  opener_lt : opener < m
  lt : m < stop
  inside : g.inside = slice tokens (opener + 1) m
  close : tokens[m]? = some g.close
  rest : g.rest = slice tokens (m + 1) stop
  nested : Nested (fun _ => True) ((slice tokens (opener + 1) m).map Token.value)
  ne_comma : g.close.value ≠ ","

/-- Outside comments brackets match between a bracket and its partner. -/
theorem matches_group (hmarks : ∀ t ∈ tokens, t.value ≠ "/*" ∧ t.value ≠ "*/") {opener stop : Nat}
    (hlt : opener < stop) (hstop : stop ≤ tokens.length) {t : Token} (ht : tokens[opener]? = some t)
    {closer : Text} (hcloser : closerOf? t.value = some closer) :
    Matches (Encloses tokens opener stop) (partner tokens opener stop)
      (Group.take t closer (slice tokens (opener + 1) stop)) := by
  refine (matches_partner hlt hstop ht hcloser).imp ?_
  intro m g hg hcloses
  have hinside : g.inside = slice tokens (opener + 1) m := hcloses.inside
  have hmarks' : ∀ u ∈ slice tokens (opener + 1) stop, u.value ≠ "/*" ∧ u.value ≠ "*/" :=
    fun u hu => hmarks u (List.mem_of_mem_take (List.mem_of_mem_drop hu))
  obtain ⟨-, -, -, hcomma, -⟩ := bracket_facts hcloser
  exact {
    opener_lt := hcloses.le
    lt := hcloses.lt
    inside := hinside
    close := hcloses.close
    rest := hcloses.rest
    nested := hinside ▸ Group.nested_inside hg hmarks'
    ne_comma := by
      rw [Option.some.inj (Group.close_takeFrom hg)]
      exact hcomma }

/-- Where brackets match, the partner of an opening bracket is found. -/
theorem exists_partner {k close : Nat} (hk : k < close) (hclose : close ≤ tokens.length)
    {t : Token} (ht : tokens[k]? = some t) {closer : Text}
    (hcloser : closerOf? t.value = some closer) {inside rest : List Text}
    (hvalues : (slice tokens (k + 1) close).map Token.value = inside ++ closer :: rest)
    (hinside : Nested (fun _ => True) inside) :
    ∃ m within c, partner tokens k close = pure m ∧ k < m ∧ m < close ∧ c.value = closer ∧
      Spells within inside ∧ slice tokens k (m + 1) = t :: (within ++ [c]) ∧
      (slice tokens (m + 1) close).map Token.value = rest := by
  obtain ⟨within, after, hslice, hwithin, hafter⟩ := Spells.exists_append hvalues
  obtain ⟨c, after, rfl, hc, hafter⟩ := Spells.exists_cons hafter
  have htake := Group.take_nested after hinside hwithin hcloser hc
  have hmatches := matches_partner hk hclose ht hcloser
  rw [hslice, htake] at hmatches
  obtain ⟨m, hm, hcloses⟩ := hmatches.of_ok
  have hle := hcloses.le
  have hlt := hcloses.lt
  have hrest : after = slice tokens (m + 1) close := hcloses.rest
  refine ⟨m, within, c, hm, hle, hlt, hc, hwithin, ?_, by rw [← hrest]; exact hafter⟩
  obtain ⟨t', ht', hfirst⟩ := slice_eq_cons hk hclose
  cases ht.symm.trans ht'
  have hall : slice tokens k (m + 1) ++ slice tokens (m + 1) close =
      (t :: (within ++ [c])) ++ slice tokens (m + 1) close := by
    rw [← slice_append (by omega) (by omega) hclose, hfirst, hslice, hrest]
    simp
  exact List.append_cancel_right hall

end Brackets

/-! ### Expressions -/

section Expressions

variable {tokens : List Token}

/-- The reader by positions got as far as the reader of tokens did. -/
structure Reached (tokens : List Token) (r : TokenRange) (e : Expr) (next : Nat)
    (reading : Reading) : Prop where
  expr : e = reading.expr
  rest : reading.rest = slice tokens next r.stop
  lt : r.start < next
  le : next ≤ r.stop
  last : ∃ j, next = j + 1 ∧ tokens[j]? = some reading.last

/-- An expression that ends at the partner of a bracket leaves what follows the group. -/
theorem Encloses.reached {r : TokenRange} {opener m : Nat} {g : Group}
    (hg : Encloses tokens opener r.stop m g) (hstart : r.start ≤ opener) (e : Expr) :
    Reached tokens r e (m + 1) ⟨e, g.close, g.rest⟩ where
  expr := rfl
  rest := hg.rest
  lt := Nat.lt_succ_of_lt (Nat.lt_of_le_of_lt hstart hg.opener_lt)
  le := hg.lt
  last := ⟨m, rfl, hg.close⟩

/-- Both readers found no expression, or the same one. -/
def Reads (tokens : List Token) (r : TokenRange) : Option Expr × Nat → Option Reading → Prop
  | (none, _), none => True
  | (some e, next), some reading => Reached tokens r e next reading
  | _, _ => False

variable {recur : TokenRange → Positional (Option Expr × Nat)}

theorem Reads.cases {r : TokenRange} {found : Option Expr} {next : Nat} {found' : Option Reading}
    (h : Reads tokens r (found, next) found') :
    (found = none ∧ found' = none) ∨
      ∃ e reading, found = some e ∧ found' = some reading ∧ Reached tokens r e next reading := by
  cases found with
  | none =>
    cases found' with
    | none => exact .inl ⟨rfl, rfl⟩
    | some reading => exact h.elim
  | some e =>
    cases found' with
    | none => exact h.elim
    | some reading => exact .inr ⟨e, reading, rfl, rfl, h⟩

/-- Both readers take the expression if it fills the range, and point at the token after it if
    it does not. -/
theorem Reached.matches_whole {r : TokenRange} {e : Expr} {next : Nat} {reading : Reading}
    (h : Reached tokens r e next reading) (hstop : r.stop ≤ tokens.length)
    (cause : Token → Diagnostic.Cause) (hcause : ∀ t, (cause t).kind = .syntaxError) :
    Matches Eq
      (if next = r.stop then pure e else do
        let t ← tokenAt tokens next
        fail (cause t) t.span (hcause t))
      (match reading.rest with
        | [] => .ok reading.expr
        | t :: _ => .error (.ofCause (cause t) t.span)) := by
  rw [h.rest]
  split
  · rename_i heq
    rw [slice_of_le (Nat.le_of_eq heq.symm)]
    exact .pure h.expr
  · rename_i hne
    obtain ⟨t, ht, hslice⟩ := slice_eq_cons (Nat.lt_of_le_of_ne h.le hne) hstop
    rw [hslice, tokenAt_eq ht, pure_bind]
    exact .fail

theorem matches_readWhole {r : TokenRange} (hlt : r.start < r.stop) (hstop : r.stop ≤ tokens.length)
    (hrecur : Matches (Reads tokens r) (recur r) (Expr.read (slice tokens r.start r.stop))) :
    Matches Eq (readWhole tokens recur r) (Expr.readWhole (slice tokens r.start r.stop)) := by
  rw [readWhole, Expr.readWhole.eq_def]
  refine hrecur.bind ?_
  rintro ⟨found, next⟩ found' h
  obtain ⟨rfl, rfl⟩ | ⟨e, reading, rfl, rfl, h⟩ := h.cases
  · obtain ⟨t, ht, hslice⟩ := slice_eq_cons hlt hstop
    simp only [tokenAt_eq ht, pure_bind, hslice, List.head?_cons, Option.map_some, Option.getD_some]
    exact .fail
  · exact h.matches_whole hstop (fun t => .unexpected t.value) fun _ => rfl

theorem matches_readIndex {opener close : Nat} (hlt : opener < close)
    (hclose : close < tokens.length) {o c : Token} (ho : tokens[opener]? = some o)
    (hc : tokens[close]? = some c)
    (hrecur : Matches (Reads tokens ⟨opener + 1, close⟩) (recur ⟨opener + 1, close⟩)
      (Expr.read (slice tokens (opener + 1) close))) :
    Matches Eq (readIndex tokens recur opener close)
      (Expr.readIndex o c (slice tokens (opener + 1) close)) := by
  rw [readIndex]
  split
  · rename_i hempty
    rw [slice_of_le (Nat.le_of_eq hempty), Expr.readIndex, spanOf_eq ho hc, pure_bind]
    exact .fail
  · rename_i hne
    have hstop : close ≤ tokens.length := Nat.le_of_lt hclose
    obtain ⟨t, ht, hslice⟩ := slice_eq_cons (show opener + 1 < close by omega) hstop
    rw [hslice] at hrecur ⊢
    rw [Expr.readIndex]
    refine hrecur.bind ?_
    rintro ⟨found, next⟩ found' h
    obtain ⟨rfl, rfl⟩ | ⟨e, reading, rfl, rfl, h⟩ := h.cases
    · simp only [tokenAt_eq ht, pure_bind]
      exact .fail
    · exact h.matches_whole hstop (fun _ => .invalidIndex) fun _ => rfl

/-- The tokens from `k` up to `k'` belong to one item. -/
def SameItem (tokens : List Token) (close k k' : Nat) : Prop :=
  splitItem 0 (slice tokens k close) =
    (slice tokens k k' ++ (splitItem 0 (slice tokens k' close)).1,
      (splitItem 0 (slice tokens k' close)).2)

theorem SameItem.refl (close k : Nat) : SameItem tokens close k k := by
  rw [SameItem, slice_of_le (Nat.le_refl k)]
  rfl

theorem SameItem.trans {close k k' k'' : Nat} (h : SameItem tokens close k k')
    (h' : SameItem tokens close k' k'') (hk : k ≤ k') (hk' : k' ≤ k'')
    (hlength : k'' ≤ tokens.length) : SameItem tokens close k k'' := by
  rw [SameItem] at h h' ⊢
  rw [h, h', slice_append hk hk' hlength, List.append_assoc]

/-- Tokens with matched brackets and no comma outside them belong to one item. -/
theorem SameItem.of_nested {close k k' : Nat} (hk : k ≤ k') (hk' : k' ≤ close)
    (hclose : close ≤ tokens.length) {vs : List Text} (hvs : Nested NotComma vs)
    (hspells : Spells (slice tokens k k') vs) : SameItem tokens close k k' := by
  rw [SameItem, slice_append hk hk' hclose]
  exact splitItem_nested hvs hspells 0 (fun _ v hv => hv) _

/-- An item from `start` up to `k` is missing, or is read and put in front of the others. -/
theorem matches_item {start k : Nat} (hstart : start ≤ k) (hk : k ≤ tokens.length)
    (hrecur : start < k → Matches (Reads tokens ⟨start, k⟩) (recur ⟨start, k⟩)
      (Expr.read (slice tokens start k)))
    {missing others : Positional (List Expr)} {failure : Failure} {r : Except Failure (List Expr)}
    (hmissing : k = start → Matches Eq missing (.error failure))
    (hothers : start < k → Matches Eq others r) :
    Matches Eq (if k = start then missing else do
        let item ← readWhole tokens recur ⟨start, k⟩
        let more ← others
        return item :: more)
      (if (slice tokens start k).isEmpty then .error failure else do
        let first ← Expr.readWhole (slice tokens start k)
        let more ← r
        return first :: more) := by
  rcases Nat.eq_or_lt_of_le hstart with rfl | hlt
  · simp only [slice_of_le (Nat.le_refl _), List.isEmpty_nil, if_true]
    exact hmissing rfl
  · obtain ⟨t, -, hslice⟩ := slice_eq_cons hlt hk
    rw [if_neg (Nat.ne_of_gt hlt), if_neg (by rw [hslice]; simp)]
    refine (matches_readWhole hlt hk (hrecur hlt)).bind ?_
    rintro e _ rfl
    refine (hothers hlt).bind ?_
    rintro more _ rfl
    exact .pure rfl

/-- Reading items by positions is reading them from the tokens. -/
theorem matches_readItems {close : Nat} (hclose : close < tokens.length) {c : Token}
    (hc : tokens[close]? = some c) (hcomma : c.value ≠ ",") (what : Text) {start k : Nat}
    (hstart : start ≤ k) (hk : k ≤ close)
    (hrecur : ∀ r : TokenRange, start ≤ r.start → r.start < r.stop → r.stop ≤ close →
      Matches (Reads tokens r) (recur r) (Expr.read (slice tokens r.start r.stop)))
    {before : Token} (hbefore : tokenBefore tokens start = pure before)
    (hnested : Nested (fun _ => True) ((slice tokens k close).map Token.value))
    (hitem : SameItem tokens close start k) :
    Matches Eq (readItems tokens recur close what start k)
      (Expr.readItems what before (slice tokens start close)) := by
  have hstop : close ≤ tokens.length := Nat.le_of_lt hclose
  rw [readItems, dif_pos hk]
  rcases Nat.eq_or_lt_of_le hk with rfl | hlt
  · -- The last item ends at the closing bracket.
    have hsplit : splitItem 0 (slice tokens start k) = (slice tokens start k, none) := by
      rw [hitem, slice_of_le (Nat.le_refl k), splitItem, List.append_nil]
    have hend : readItems tokens recur k what (k + 1) (k + 1) = pure [] := by
      rw [readItems, dif_neg (by omega)]
    rw [tokenAt_eq hc, pure_bind, if_neg (fun h => Nat.lt_irrefl k h.2), if_neg (fun h => h.2 rfl),
      if_neg hcomma, Expr.readItems_eq, hsplit, hend]
    refine matches_item (r := .ok []) hstart hstop
      (fun hlt => hrecur ⟨start, k⟩ (Nat.le_refl _) hlt (Nat.le_refl _)) ?_ fun _ => .pure rfl
    rintro rfl
    rw [hbefore, pure_bind]
    exact .fail
  · obtain ⟨t, ht, hslice⟩ := slice_eq_cons hlt hstop
    rw [tokenAt_eq ht, pure_bind]
    rw [hslice, List.map_cons] at hnested
    rcases hnested.of_cons with
      ⟨hinner, -, hrest⟩ | ⟨closer, inside, rest, hcloser, hvalues, hin, hrest⟩
    · have hopens : ¬((closerOf? t.value).isSome ∧ k < close) := by simp [hinner.1]
      rw [if_neg hopens]
      by_cases hsep : t.value = ","
      · -- A comma ends the item, and the next one starts after it.
        have hsplit : splitItem 0 (slice tokens start close) =
            (slice tokens start k, some (t, slice tokens (k + 1) close)) := by
          rw [hitem, hslice, splitItem, if_pos ⟨hsep, rfl⟩, List.append_nil]
        rw [if_neg (fun h => h.1 hsep), if_pos hsep, Expr.readItems_eq, hsplit]
        refine matches_item hstart (Nat.le_trans hk hstop)
          (fun hlt => hrecur ⟨start, k⟩ (Nat.le_refl _) hlt hk) (fun _ => .fail) fun _ => ?_
        exact matches_readItems hclose hc hcomma what (Nat.le_refl (k + 1)) hlt
          (fun r hr => hrecur r (by omega)) (tokenAt_eq ht) hrest (.refl close (k + 1))
      · rw [if_pos ⟨hsep, Nat.ne_of_lt hlt⟩]
        have hspells : Spells (slice tokens k (k + 1)) [t.value] := by
          rw [slice_singleton ht]
          rfl
        have hpassed : SameItem tokens close k (k + 1) :=
          .of_nested (Nat.le_succ k) hlt hstop (.singleton hinner hsep) hspells
        exact matches_readItems hclose hc hcomma what (by omega) hlt hrecur hbefore hrest
          (hitem.trans hpassed hstart (Nat.le_succ k) (by omega))
    · -- A bracket is passed over together with what it encloses.
      obtain ⟨m, within, d, hm, hkm, hmclose, hd, hwithin, hgroup, hafter⟩ :=
        exists_partner hlt hstop ht hcloser hvalues hin
      have hopens : (closerOf? t.value).isSome ∧ k < close := ⟨by simp [hcloser], hlt⟩
      have hspells : Spells (slice tokens k (m + 1)) (enclosed t.value inside closer) := by
        rw [hgroup, enclosed, Spells, List.map_cons, List.map_append, hwithin, List.map_singleton,
          hd]
      have hpassed : SameItem tokens close k (m + 1) :=
        .of_nested (by omega) hmclose hstop (.of_group hcloser hin) hspells
      rw [if_pos hopens, hm, pure_bind, advance, dif_pos (by omega)]
      exact matches_readItems hclose hc hcomma what (by omega) hmclose hrecur hbefore
        (by rw [hafter]; exact hrest) (hitem.trans hpassed hstart (by omega) (by omega))
  termination_by close + 1 - k

theorem matches_readList {opener close : Nat} (hlt : opener < close)
    (hclose : close < tokens.length) {o c : Token} (ho : tokens[opener]? = some o)
    (hc : tokens[close]? = some c) (hcomma : c.value ≠ ",") (what : Text)
    (hrecur : ∀ r : TokenRange, opener + 1 ≤ r.start → r.start < r.stop → r.stop ≤ close →
      Matches (Reads tokens r) (recur r) (Expr.read (slice tokens r.start r.stop)))
    (hnested : Nested (fun _ => True) ((slice tokens (opener + 1) close).map Token.value)) :
    Matches Eq (readList tokens recur opener close what)
      (Expr.readList what o (slice tokens (opener + 1) close)) := by
  rw [readList]
  split
  · rename_i hempty
    rw [slice_of_le (Nat.le_of_eq hempty), Expr.readList]
    exact .pure rfl
  · rename_i hne
    have hitems := matches_readItems hclose hc hcomma what (Nat.le_refl (opener + 1)) hlt hrecur
      (tokenAt_eq ho) hnested (.refl close (opener + 1))
    obtain ⟨t, -, hslice⟩ := slice_eq_cons (show opener + 1 < close by omega) (Nat.le_of_lt hclose)
    rw [hslice] at hitems ⊢
    rw [Expr.readList]
    exact hitems

/-- A group in parentheses or square brackets ends the operand it stands in. -/
theorem exists_operandGroup {k close : Nat} (hk : k < close) (hclose : close ≤ tokens.length)
    {t : Token} (ht : tokens[k]? = some t) (hopen : t.value = "(" ∨ t.value = "[")
    {closer : Text} (hcloser : closerOf? t.value = some closer) {inside rest : List Text}
    (hvalues : (slice tokens (k + 1) close).map Token.value = inside ++ closer :: rest)
    (hinside : Nested (fun _ => True) inside) :
    ∃ m, partner tokens k close = pure m ∧ k < m ∧ m < close ∧
      (slice tokens (m + 1) close).map Token.value = rest ∧
      ∀ item, operandsFrom 0 item (slice tokens k close) =
        (item.reverse ++ slice tokens k (m + 1)) ::
          operandsFrom 0 [] (slice tokens (m + 1) close) := by
  obtain ⟨m, within, c, hm, hkm, hmclose, hc, hwithin, hgroup, hafter⟩ :=
    exists_partner hk hclose ht hcloser hvalues hinside
  refine ⟨m, hm, hkm, hmclose, hafter, ?_⟩
  intro item
  rw [slice_append (show k ≤ m + 1 by omega) hmclose hclose, hgroup, List.cons_append,
    List.append_assoc]
  exact operandsFrom_group hinside hwithin hopen (hc ▸ hcloser) item _

/-- The operand that starts at `k` ends at `next`, and the others follow it. -/
theorem exists_operandEnd {close k : Nat} (hk : k < close) (hclose : close ≤ tokens.length)
    (hgrouped : Grouped ((slice tokens k close).map Token.value)) :
    ∃ next, operandEnd tokens close k = pure next ∧ k < next ∧ next ≤ close ∧
      Grouped ((slice tokens next close).map Token.value) ∧
      operandsFrom 0 [] (slice tokens k close) =
        slice tokens k next :: operandsFrom 0 [] (slice tokens next close) := by
  obtain ⟨t, ht, hslice⟩ := slice_eq_cons hk hclose
  rw [operandEnd, tokenAt_eq ht, pure_bind]
  rw [hslice, List.map_cons] at hgrouped
  rcases hgrouped.of_cons with
    ⟨hsingle, hrest⟩ | ⟨closer, inside, rest, hopen, hcloser, hvalues, hin, hrest⟩
  · rw [if_neg hsingle]
    have hone : slice tokens k (k + 1) = [t] := slice_singleton ht
    have hplain (hname : ¬(isIdentifier t.value ∧ opensIndex (slice tokens (k + 1) close))) :
        operandsFrom 0 [] (slice tokens k close) =
          slice tokens k (k + 1) :: operandsFrom 0 [] (slice tokens (k + 1) close) := by
      rw [hone, hslice, operandsFrom, if_pos rfl, if_neg hsingle, if_neg (by simpa using hname)]
      rfl
    cases hafter : slice tokens (k + 1) close with
    | nil =>
      rw [valueAt_of_nil hclose hafter, pure_bind, if_neg (fun h => absurd h.2 (by decide))]
      exact ⟨k + 1, rfl, Nat.lt_succ_self k, hk, hrest, hplain (by simp [hafter, opensIndex])⟩
    | cons u after =>
      rw [valueAt_of_cons hafter, pure_bind]
      split
      · -- A name and its index are one operand.
        rename_i hname
        obtain ⟨hlt, hu, rfl⟩ := of_slice_eq_cons hafter
        have hindex := hrest
        rw [hafter, List.map_cons] at hindex
        rcases hindex.of_cons with
          ⟨hno, -⟩ | ⟨closer, inside, rest, hopen, hcloser, hvalues, hin, hrest⟩
        · exact absurd (.inr hname.2) hno
        · obtain ⟨m, hm, hkm, hmclose, hvalues, hgroup⟩ :=
            exists_operandGroup hlt hclose hu hopen hcloser hvalues hin
          rw [hm, pure_bind]
          refine ⟨m + 1, rfl, by omega, hmclose, by rw [hvalues]; exact hrest, ?_⟩
          rw [hslice, operandsFrom, if_pos rfl, if_neg hsingle,
            if_pos (by simp [hafter, opensIndex, hname]), hgroup,
            slice_append (show k ≤ k + 1 by omega) (show k + 1 ≤ m + 1 by omega) (by omega), hone]
          rfl
      · rename_i hname
        exact ⟨k + 1, rfl, Nat.lt_succ_self k, hk, hrest,
          hplain (by simpa [hafter, opensIndex] using hname)⟩
  · obtain ⟨m, hm, hkm, hmclose, hvalues, hgroup⟩ :=
      exists_operandGroup hk hclose ht hopen hcloser hvalues hin
    rw [if_pos hopen, hm, pure_bind]
    exact ⟨m + 1, rfl, by omega, hmclose, by rw [hvalues]; exact hrest, hgroup []⟩

/-- The ranges of the operands stand for the operands, and lie between the parentheses. -/
theorem exists_operandRanges {close k : Nat} (hk : k ≤ close) (hclose : close ≤ tokens.length)
    (hgrouped : Grouped ((slice tokens k close).map Token.value)) :
    ∃ ranges, operandRanges tokens close k = pure ranges ∧
      operandsFrom 0 [] (slice tokens k close) =
        ranges.map (fun r => slice tokens r.start r.stop) ∧
      ∀ r ∈ ranges, k ≤ r.start ∧ r.start < r.stop ∧ r.stop ≤ close := by
  rw [operandRanges]
  rcases Nat.eq_or_lt_of_le hk with rfl | hlt
  · rw [dif_neg (Nat.lt_irrefl k), slice_of_le (Nat.le_refl k)]
    exact ⟨[], rfl, rfl, by simp⟩
  · obtain ⟨next, hnext, hknext, hnextclose, hothers, hfirst⟩ :=
      exists_operandEnd hlt hclose hgrouped
    obtain ⟨ranges, hranges, hrest, hinside⟩ := exists_operandRanges hnextclose hclose hothers
    rw [dif_pos hlt, hnext, pure_bind, advance, dif_pos hknext, hranges, pure_bind]
    refine ⟨⟨k, next⟩ :: ranges, rfl, by rw [hfirst, hrest]; rfl, List.forall_mem_cons.2 ⟨?_, ?_⟩⟩
    · exact ⟨Nat.le_refl k, hknext, hnextclose⟩
    · intro r hr
      obtain ⟨hstart, hr⟩ := hinside r hr
      exact ⟨by omega, hr⟩
  termination_by close - k

theorem matches_readOperands {opener close : Nat} (hlt : opener < close)
    (hclose : close < tokens.length) {o : Token} {g : Group} (ho : tokens[opener]? = some o)
    (hc : tokens[close]? = some g.close) (hinside : g.inside = slice tokens (opener + 1) close)
    (hrecur : ∀ r : TokenRange, opener + 1 ≤ r.start → r.start < r.stop → r.stop ≤ close →
      Matches (Reads tokens r) (recur r) (Expr.read (slice tokens r.start r.stop)))
    (hnested : Nested (fun _ => True) (g.inside.map Token.value)) :
    Matches (fun e found => found = some ⟨e, g.close, g.rest⟩)
      (readOperands tokens recur opener close) (Expr.readBinary o g) := by
  have hstop : close ≤ tokens.length := Nat.le_of_lt hclose
  obtain ⟨ranges, hranges, hoperands, hall⟩ :=
    exists_operandRanges hlt hstop (hinside ▸ Grouped.of_nested hnested)
  rw [readOperands, hranges, pure_bind, Expr.readBinary, operands, hinside, hoperands]
  have hread (r : TokenRange) (hr : r ∈ ranges) : Matches Eq (readWhole tokens recur r)
      (Expr.readWhole (slice tokens r.start r.stop)) := by
    obtain ⟨hstart, hr, hend⟩ := hall r hr
    exact matches_readWhole hr (by omega) (hrecur r hstart hr hend)
  have hfirst (r : TokenRange) (hr : r ∈ ranges) : ∃ t, tokens[r.start]? = some t ∧
      slice tokens r.start r.stop = t :: slice tokens (r.start + 1) r.stop := by
    obtain ⟨-, hr, hend⟩ := hall r hr
    exact slice_eq_cons hr (by omega)
  rcases ranges with _ | ⟨left, _ | ⟨op, _ | ⟨right, _ | ⟨fourth, more⟩⟩⟩⟩
  · simp only [tokenAt_eq hc, pure_bind]
    exact .fail
  · simp only [tokenAt_eq hc, pure_bind]
    exact .fail
  · obtain ⟨t, -, hslice⟩ := hfirst op (by simp)
    simp only [List.map_cons, List.map_nil, hslice, tokenAt_eq hc, pure_bind]
    exact .fail
  · obtain ⟨t, ht, hslice⟩ := hfirst op (by simp)
    have hop := hall op (by simp)
    simp only [List.map_cons, List.map_nil, hslice, tokenAt_eq ht, pure_bind]
    cases hsymbol : Operator.ofSymbol? t.value with
    | none => exact .fail
    | some operator =>
      simp only
      split
      · rename_i hone
        rw [slice_of_le (Nat.le_of_eq hone)]
        refine (hread left (by simp)).bind ?_
        rintro l _ rfl
        refine (hread right (by simp)).bind ?_
        rintro r _ rfl
        rw [spanOf_eq ho hc, pure_bind]
        exact .pure rfl
      · rename_i hone
        obtain ⟨u, -, hmore⟩ := slice_eq_cons (show op.start + 1 < op.stop by omega)
          (show op.stop ≤ tokens.length by omega)
        rw [hmore]
        exact .fail
  · obtain ⟨t, ht, hslice⟩ := hfirst fourth (by simp)
    obtain ⟨u, -, hsecond⟩ := hfirst op (by simp)
    simp only [List.map_cons, tokenAt_eq hc, List.getElem?_cons_succ, List.getElem?_cons_zero,
      tokenAt_eq ht, pure_bind, operandCountFailure, hslice, hsecond, List.length_cons,
      List.length_map]
    exact .fail

theorem matches_readNumeral (t : Token) : Matches Eq (readNumeral t) (readNumber t) := by
  rw [readNumeral, readNumber]
  cases Text.toNat? t.value with
  | none => exact .fail
  | some n =>
    simp only
    split
    · exact .pure rfl
    · exact .fail

/-- What stands between brackets in a range is a smaller range. -/
theorem inside_of_enclosed {r inner : TokenRange} {opener close : Nat} (hstart : r.start ≤ opener)
    (hlt : opener < close) (hclose : close < r.stop) (hinner : opener + 1 ≤ inner.start)
    (hstop : inner.stop ≤ close) : inner.Inside r := by
  simp only [TokenRange.Inside, TokenRange.length]
  omega

variable (hmarks : ∀ t ∈ tokens, t.value ≠ "/*" ∧ t.value ≠ "*/")

include hmarks

theorem matches_readExprWith {r : TokenRange} (hstop : r.stop ≤ tokens.length)
    (hrecur : ∀ inner : TokenRange, inner.Inside r →
      Matches (Reads tokens inner) (recur inner)
        (Expr.read (slice tokens inner.start inner.stop))) :
    Matches (Reads tokens r) (readExprWith tokens recur r)
      (Expr.read (slice tokens r.start r.stop)) := by
  rw [readExprWith]
  split
  · rename_i hlt
    obtain ⟨t, ht, hslice⟩ := slice_eq_cons hlt hstop
    rw [tokenAt_eq ht, pure_bind, hslice, Expr.read_cons]
    have hparts {opener close : Nat} (hstart : r.start ≤ opener) (hopen : opener < close)
        (hclose : close < r.stop) (inner : TokenRange) (hinner : opener + 1 ≤ inner.start)
        (_ : inner.start < inner.stop) (hend : inner.stop ≤ close) :
        Matches (Reads tokens inner) (recur inner)
          (Expr.read (slice tokens inner.start inner.stop)) :=
      hrecur inner (inside_of_enclosed hstart hopen hclose hinner hend)
    split
    · rename_i hvalue
      refine (matches_group hmarks hlt hstop ht (by rw [hvalue]; decide)).bind ?_
      intro m g hg
      have hm : m < tokens.length := by have := hg.lt; omega
      refine (matches_readOperands hg.opener_lt hm ht hg.close hg.inside
        (hparts (Nat.le_refl _) hg.opener_lt hg.lt) (hg.inside ▸ hg.nested)).map_left ?_
      rintro e _ rfl
      exact hg.reached (Nat.le_refl _) e
    · split
      · rename_i hvalue
        refine (matches_group hmarks hlt hstop ht (by rw [hvalue]; decide)).bind ?_
        intro m g hg
        have hm : m < tokens.length := by have := hg.lt; omega
        rw [Expr.readBracketed, hg.inside]
        refine (matches_readList hg.opener_lt hm ht hg.close hg.ne_comma "list item"
          (hparts (Nat.le_refl _) hg.opener_lt hg.lt) hg.nested).bind ?_
        rintro items _ rfl
        rw [spanOf_eq ht hg.close, pure_bind]
        exact .pure (hg.reached (Nat.le_refl _) _)
      · split
        · refine (matches_readNumeral t).bind ?_
          rintro n _ rfl
          exact .pure ⟨rfl, rfl, Nat.lt_succ_self _, hlt, r.start, rfl, ht⟩
        · split
          · have hname : Matches (Reads tokens r)
                (pure (some (.var t.value t.span), r.start + 1))
                (.ok (some ⟨.var t.value t.span, t, slice tokens (r.start + 1) r.stop⟩)) :=
              .pure ⟨rfl, rfl, Nat.lt_succ_self _, hlt, r.start, rfl, ht⟩
            cases hafter : slice tokens (r.start + 1) r.stop with
            | nil =>
              rw [valueAt_of_nil hstop hafter, pure_bind, if_neg (by decide), Expr.readName,
                ← hafter]
              exact hname
            | cons o more =>
              obtain ⟨hlt', ho, rfl⟩ := of_slice_eq_cons hafter
              rw [valueAt_of_cons hafter, pure_bind, Expr.readName]
              split
              · rename_i hvalue
                refine (matches_group hmarks hlt' hstop ho (by rw [hvalue]; decide)).bind ?_
                intro m g hg
                have hm : m < tokens.length := by have := hg.lt; omega
                rw [Expr.readElement, hg.inside]
                refine (matches_readIndex hg.opener_lt hm ho hg.close (hrecur ⟨r.start + 2, m⟩
                  (inside_of_enclosed (Nat.le_succ _) hg.opener_lt hg.lt (Nat.le_refl _)
                    (Nat.le_refl _)))).bind ?_
                rintro index _ rfl
                rw [spanOf_eq ht hg.close, pure_bind]
                exact .pure (hg.reached (Nat.le_succ _) _)
              · rw [← hafter]
                exact hname
          · exact .pure trivial
  · rename_i hge
    rw [slice_of_le (Nat.le_of_not_lt hge), Expr.read]
    exact .pure trivial

/-- Reading an expression by positions is reading it from the tokens. -/
theorem matches_readExpr (r : TokenRange) (hstop : r.stop ≤ tokens.length) :
    Matches (Reads tokens r) (readExpr tokens r) (Expr.read (slice tokens r.start r.stop)) := by
  rw [readExpr]
  refine matches_readExprWith hmarks hstop ?_
  intro inner hinner
  have hsmaller := hinner.2.2
  rw [dif_pos hinner]
  exact matches_readExpr inner (Nat.le_trans hinner.2.1 hstop)
  termination_by r.length

/-- Reading the value after an equals sign by positions is reading it from the tokens. -/
theorem matches_readValue {equals stop : Nat} (hstop : stop ≤ tokens.length) {t : Token}
    (ht : tokens[equals]? = some t) :
    Matches (fun p => Reached tokens ⟨equals + 1, stop⟩ p.1 p.2) (readValue tokens equals stop)
      (Goat.readValue t (slice tokens (equals + 1) stop)) := by
  rw [readValue, Goat.readValue.eq_def]
  refine (matches_readExpr hmarks ⟨equals + 1, stop⟩ hstop).bind ?_
  rintro ⟨found, next⟩ found' h
  cases found with
  | some e =>
    cases found' with
    | some reading => exact .pure h
    | none => cases h
  | none =>
    cases found' with
    | some reading => cases h
    | none =>
      simp only
      split
      · rename_i hlt
        obtain ⟨u, hu, hslice⟩ := slice_eq_cons hlt hstop
        rw [tokenAt_eq hu, pure_bind, hslice]
        exact .fail
      · rename_i hge
        rw [slice_of_le (Nat.le_of_not_lt hge), tokenAt_eq ht, pure_bind]
        exact .fail

end Expressions

end Positional

end Goat
