import Goat.Program.Bracket
import Goat.Program.Operator
import Goat.Proofs.PrintedTokens

/-!
# Tokens with matched brackets

Tokens whose values nest are passed over as a whole: the search for a closing
bracket ends at the bracket after them, a comma inside a bracket ends no item, and
an operand in brackets stays one operand.
-/

namespace Goat

/-- The tokens have these values. -/
def Spells (tokens : List Token) (values : List Text) : Prop := tokens.map Token.value = values

namespace Spells

theorem eq_nil {ts : List Token} (h : Spells ts []) : ts = [] := List.map_eq_nil_iff.1 h

theorem exists_cons {ts : List Token} {v : Text} {vs : List Text} (h : Spells ts (v :: vs)) :
    ∃ t rest, ts = t :: rest ∧ t.value = v ∧ Spells rest vs := List.map_eq_cons_iff.1 h

theorem exists_append {ts : List Token} {vs ws : List Text} (h : Spells ts (vs ++ ws)) :
    ∃ front rest, ts = front ++ rest ∧ Spells front vs ∧ Spells rest ws :=
  List.map_eq_append_iff.1 h

theorem exists_enclosed {ts : List Token} {opener closer : Text} {inside rest : List Text}
    (h : Spells ts (enclosed opener inside closer ++ rest)) :
    ∃ open' within close after, ts = open' :: (within ++ close :: after) ∧ open'.value = opener ∧
      Spells within inside ∧ close.value = closer ∧ Spells after rest := by
  simp only [enclosed, List.cons_append, List.append_assoc, List.nil_append] at h
  obtain ⟨open', ts, rfl, hopen, h⟩ := h.exists_cons
  obtain ⟨within, ts, rfl, hwithin, h⟩ := h.exists_append
  obtain ⟨close, after, rfl, hclose, h⟩ := h.exists_cons
  exact ⟨open', within, close, after, rfl, hopen, hwithin, hclose, h⟩

theorem exists_group {ts : List Token} {opener closer : Text} {inside : List Text}
    (h : Spells ts (enclosed opener inside closer)) :
    ∃ open' within close, ts = open' :: (within ++ [close]) ∧ open'.value = opener ∧
      Spells within inside ∧ close.value = closer := by
  rw [← List.append_nil (enclosed _ _ _)] at h
  obtain ⟨open', within, close, after, rfl, hopen, hwithin, hclose, hafter⟩ := h.exists_enclosed
  cases hafter.eq_nil
  exact ⟨open', within, close, rfl, hopen, hwithin, hclose⟩

end Spells

/-- The value is neither a bracket nor a comment mark. -/
def IsInner (value : Text) : Prop :=
  closerOf? value = none ∧ isCloser value = false ∧ value ≠ "/*" ∧ value ≠ "*/"

instance (value : Text) : Decidable (IsInner value) := by
  unfold IsInner
  infer_instance

/-- The brackets among the values match, and the values outside brackets satisfy `P`. -/
inductive Nested : (P : Text → Prop) → List Text → Prop where
  | nil {P} : Nested P []
  | inner {P v vs} (hv : IsInner v) (hP : P v) (h : Nested P vs) : Nested P (v :: vs)
  | group {P opener inside closer vs} (ho : closerOf? opener = some closer)
      (hi : Nested (fun _ => True) inside) (h : Nested P vs) :
      Nested P (enclosed opener inside closer ++ vs)

namespace Nested

variable {P Q : Text → Prop} {vs ws : List Text}

theorem append (h : Nested P vs) (h' : Nested P ws) : Nested P (vs ++ ws) := by
  induction h with
  | nil => exact h'
  | inner hv hP _ ih => exact .inner hv hP (ih h')
  | group ho hi _ _ ih =>
    rw [List.append_assoc]
    exact .group ho hi (ih h')

theorem mono (hPQ : ∀ v, P v → Q v) (h : Nested P vs) : Nested Q vs := by
  induction h with
  | nil => exact .nil
  | inner hv hP _ ih => exact .inner hv (hPQ _ hP) (ih hPQ)
  | group ho hi _ _ ih => exact .group ho hi (ih hPQ)

theorem of_group {opener inside closer} (ho : closerOf? opener = some closer)
    (hi : Nested (fun _ => True) inside) : Nested P (enclosed opener inside closer) := by
  rw [← List.append_nil (enclosed opener inside closer)]
  exact .group ho hi .nil

theorem singleton {v : Text} (hv : IsInner v) (hP : P v) : Nested P [v] := .inner hv hP .nil

end Nested

/-- What closes a bracket is one of the three closing brackets. -/
theorem mem_of_closerOf?_eq_some {opener closer : Text} (h : closerOf? opener = some closer) :
    (opener, closer) ∈ [(("(" : Text), (")" : Text)), ("\x7b", "\x7d"), ("[", "]")] := by
  unfold closerOf? at h
  split at h
  · cases h
    simp_all
  · split at h
    · cases h
      simp_all
    · split at h
      · cases h
        simp_all
      · cases h

/-- Neither a bracket nor its partner can be taken for something else. -/
theorem bracket_facts {opener closer : Text} (h : closerOf? opener = some closer) :
    isCloser closer = true ∧ closerOf? closer = none ∧ opener ≠ "," ∧ closer ≠ "," ∧
      opener ≠ "/*" ∧ opener ≠ "*/" ∧ closer ≠ "/*" ∧ closer ≠ "*/" := by
  have hall : ∀ pair ∈ [(("(" : Text), (")" : Text)), ("\x7b", "\x7d"), ("[", "]")],
      isCloser pair.2 = true ∧ closerOf? pair.2 = none ∧ pair.1 ≠ "," ∧ pair.2 ≠ "," ∧
        pair.1 ≠ "/*" ∧ pair.1 ≠ "*/" ∧ pair.2 ≠ "/*" ∧ pair.2 ≠ "*/" := by decide
  exact hall _ (mem_of_closerOf?_eq_some h)

/-- Nested values hold no comment mark. -/
theorem Nested.ne_comment {P : Text → Prop} {vs : List Text} (h : Nested P vs) :
    ∀ v ∈ vs, v ≠ "/*" ∧ v ≠ "*/" := by
  induction h with
  | nil => simp
  | inner hv _ _ ih => exact List.forall_mem_cons.2 ⟨⟨hv.2.2.1, hv.2.2.2⟩, ih⟩
  | group ho _ _ ihi ih =>
    obtain ⟨-, -, -, -, h⟩ := bracket_facts ho
    intro v hv
    simp only [enclosed, List.cons_append, List.append_assoc, List.nil_append, List.mem_cons,
      List.mem_append] at hv
    rcases hv with rfl | hv | rfl | hv
    · exact ⟨h.1, h.2.1⟩
    · exact ihi v hv
    · exact ⟨h.2.2.1, h.2.2.2⟩
    · exact ih v hv

namespace Group

variable {t : Token} (outer : List Text) (want : Text) (seen : List Token) (last : Token)
  (rest : List Token)

theorem takeFrom_inner (h : IsInner t.value) :
    takeFrom outer want seen last (t :: rest) = takeFrom outer want (t :: seen) t rest := by
  rw [takeFrom.eq_def]
  simp only [h.1, h.2.1, Bool.false_eq_true, if_false]

theorem takeFrom_opener {closer : Text} (h : closerOf? t.value = some closer) :
    takeFrom outer want seen last (t :: rest) =
      takeFrom (want :: outer) closer (t :: seen) t rest := by
  rw [takeFrom.eq_def]
  simp only [h]

theorem takeFrom_closer {opener : Text} (h : closerOf? opener = some t.value) :
    takeFrom (want :: outer) t.value seen last (t :: rest) =
      takeFrom outer want (t :: seen) t rest := by
  obtain ⟨hcloser, hnone, -⟩ := bracket_facts h
  rw [takeFrom.eq_def]
  simp only [hnone, hcloser, if_true]

variable {P : Text → Prop} {vs : List Text}

/-- The search for a closing bracket passes over nested tokens. -/
theorem takeFrom_nested (h : Nested P vs) {tokens : List Token} (hs : Spells tokens vs) :
    ∃ last', takeFrom outer want seen last (tokens ++ rest) =
      takeFrom outer want (tokens.reverse ++ seen) last' rest := by
  induction h generalizing tokens outer want seen last rest with
  | nil =>
    cases hs.eq_nil
    exact ⟨last, rfl⟩
  | inner hv _ _ ih =>
    obtain ⟨t, ts, rfl, rfl, hts⟩ := hs.exists_cons
    obtain ⟨last', h⟩ := ih outer want (t :: seen) t rest hts
    refine ⟨last', ?_⟩
    rw [List.cons_append, takeFrom_inner _ _ _ _ _ hv, h]
    simp
  | group ho _ _ ihi ih =>
    obtain ⟨open', within, close, after, rfl, rfl, hwithin, rfl, hafter⟩ := hs.exists_enclosed
    obtain ⟨last₁, h₁⟩ := ihi (want :: outer) close.value (open' :: seen) open'
      (close :: (after ++ rest)) hwithin
    obtain ⟨last₂, h₂⟩ := ih outer want (close :: (within.reverse ++ open' :: seen)) close rest
      hafter
    refine ⟨last₂, ?_⟩
    simp only [List.cons_append, List.append_assoc]
    rw [takeFrom_opener _ _ _ _ _ ho, h₁, takeFrom_closer _ _ _ _ _ ho, h₂]
    simp

/-- An opening bracket, nested tokens and the partner of the bracket are a group. -/
theorem take_nested (h : Nested P vs) {within : List Token} (hs : Spells within vs)
    {opener close : Token} {closer : Text} (ho : closerOf? opener.value = some closer)
    (hc : close.value = closer) :
    take opener closer (within ++ close :: rest) = .ok ⟨within, close, rest⟩ := by
  obtain ⟨last, hlast⟩ := takeFrom_nested [] closer [] opener (close :: rest) h hs
  obtain ⟨hcloser, hnone, -⟩ := bracket_facts ho
  rw [take, hlast, takeFrom.eq_def]
  simp [hc, hcloser, hnone]

end Group

theorem depthAfter_inner {t : Token} (h : IsInner t.value) (depth : Nat) :
    depthAfter depth t = depth := by
  simp [depthAfter, h.1, h.2.1]

theorem depthAfter_opener {t : Token} {closer : Text} (h : closerOf? t.value = some closer)
    (depth : Nat) : depthAfter depth t = depth + 1 := by
  simp [depthAfter, h]

theorem depthAfter_closer {t : Token} {opener : Text} (h : closerOf? opener = some t.value)
    (depth : Nat) : depthAfter (depth + 1) t = depth := by
  obtain ⟨hcloser, hnone, -⟩ := bracket_facts h
  simp [depthAfter, hcloser, hnone]

/-- Nested tokens belong to the item they stand in, unless a comma ends it. -/
theorem splitItem_nested {P : Text → Prop} {vs : List Text} (h : Nested P vs)
    {tokens : List Token} (hs : Spells tokens vs) (depth : Nat)
    (hP : depth = 0 → ∀ v, P v → v ≠ ",") (rest : List Token) :
    splitItem depth (tokens ++ rest) =
      (tokens ++ (splitItem depth rest).1, (splitItem depth rest).2) := by
  induction h generalizing tokens depth rest with
  | nil =>
    cases hs.eq_nil
    rfl
  | inner hv hPv _ ih =>
    obtain ⟨t, ts, rfl, rfl, hts⟩ := hs.exists_cons
    have hcomma : ¬(t.value = "," ∧ depth = 0) := fun hboth => hP hboth.2 _ hPv hboth.1
    rw [List.cons_append, splitItem, if_neg hcomma, depthAfter_inner hv, ih hts _ hP]
    rfl
  | group ho _ _ ihi ih =>
    obtain ⟨open', within, close, after, rfl, rfl, hwithin, rfl, hafter⟩ := hs.exists_enclosed
    obtain ⟨-, -, hopen, hclose, -⟩ := bracket_facts ho
    simp only [List.cons_append, List.append_assoc]
    rw [splitItem, if_neg fun hboth => hopen hboth.1, depthAfter_opener ho,
      ihi hwithin _ (fun hzero => absurd hzero (by omega)), splitItem,
      if_neg fun hboth => hclose hboth.1, depthAfter_closer ho, ih hafter _ hP]

/-- Nested tokens inside a bracket belong to the operand being read. -/
theorem operandsFrom_nested {P : Text → Prop} {vs : List Text} (h : Nested P vs)
    {tokens : List Token} (hs : Spells tokens vs) (depth : Nat) (item rest : List Token) :
    operandsFrom (depth + 1) item (tokens ++ rest) =
      operandsFrom (depth + 1) (tokens.reverse ++ item) rest := by
  induction h generalizing tokens depth item rest with
  | nil =>
    cases hs.eq_nil
    rfl
  | inner hv _ _ ih =>
    obtain ⟨t, ts, rfl, rfl, hts⟩ := hs.exists_cons
    rw [List.cons_append, operandsFrom, if_neg (by omega), depthAfter_inner hv,
      if_neg (by omega), ih hts]
    simp
  | group ho _ _ ihi ih =>
    obtain ⟨open', within, close, after, rfl, rfl, hwithin, rfl, hafter⟩ := hs.exists_enclosed
    simp only [List.cons_append, List.append_assoc]
    rw [operandsFrom, if_neg (by omega), depthAfter_opener ho, if_neg (by omega), ihi hwithin,
      operandsFrom, if_neg (by omega), depthAfter_closer ho, if_neg (by omega), ih hafter]
    simp

/-- A group in parentheses or square brackets ends the operand it stands in. -/
theorem operandsFrom_group {P : Text → Prop} {vs : List Text} (h : Nested P vs)
    {within : List Token} (hs : Spells within vs) {opener close : Token}
    (hopen : opener.value = "(" ∨ opener.value = "[")
    (ho : closerOf? opener.value = some close.value) (item rest : List Token) :
    operandsFrom 0 item (opener :: (within ++ close :: rest)) =
      (item.reverse ++ opener :: (within ++ [close])) :: operandsFrom 0 [] rest := by
  rw [operandsFrom, if_pos rfl, if_pos hopen, operandsFrom_nested h hs, operandsFrom,
    if_neg (by omega), depthAfter_closer ho, if_pos rfl]
  simp

end Goat
