import Goat.Proofs.Folding
import Mathlib.Data.List.Infix
import Mathlib.Data.Nat.Find
import Mathlib.Order.Bounds.Basic

/-!
# Which texts can be loaded

A text can be loaded if its brackets pair up. Otherwise loading stops at the first closing bracket
without a partner or, if there is none, counts the opening brackets that are left. What was loaded
has the brackets that are not part of a clearing loop, each with the place of its partner.

The brackets of a text are followed by its excess of opening over closing brackets: loading has as
many brackets open as the text so far has in excess.
-/

namespace Goat.Machine

open Plain (Character)

/-- The character of an opening bracket. -/
abbrev openBracket : UInt8 := Command.loopStart.toByte

/-- The character of a closing bracket. -/
abbrev closeBracket : UInt8 := Command.loopEnd.toByte

/-- The brackets of a text pair up: no part of it, from its start on, has more closing than opening
    brackets, and the whole text has as many of either kind. -/
def PairUp (text : Text) : Prop :=
  (∀ head, head <+: text → head.count closeBracket ≤ head.count openBracket) ∧
    text.count closeBracket = text.count openBracket

/-- The brackets at two offsets are partners: those between them pair up. -/
def Partners (text : Text) (i j : Nat) : Prop :=
  i < j ∧ text[i]? = some openBracket ∧ text[j]? = some closeBracket ∧
    PairUp ((text.take j).drop (i + 1))

/-- There is a closing bracket without a partner at an offset. -/
def Unmatched (text : Text) (j : Nat) : Prop :=
  text[j]? = some closeBracket ∧ ∀ i, ¬Partners text i j

/-- How many more opening than closing brackets a text has. -/
def excess (text : Text) : Int := text.count openBracket - text.count closeBracket

/-- What a character adds to the excess. -/
def weight : Character → Int
  | some .loopStart => 1
  | some .loopEnd => -1
  | _ => 0

section Excess

variable {text : Text} {i j n : Nat} {b : UInt8}

@[simp] theorem excess_nil : excess [] = 0 := rfl

theorem excess_append (xs ys : Text) : excess (xs ++ ys) = excess xs + excess ys := by
  simp only [excess, List.count_append]
  omega

theorem ofByte?_eq_some_iff {c : Command} : Command.ofByte? b = some c ↔ b = c.toByte := by
  constructor
  · intro h
    unfold Command.ofByte? at h
    split_ifs at h with h₁ h₂ h₃ h₄ h₅ h₆ h₇ h₈ <;> cases h <;> assumption
  · rintro rfl
    exact Command.ofByte_toByte c

theorem excess_singleton (b : UInt8) : excess [b] = weight (Command.ofByte? b) := by
  by_cases hopen : b = openBracket
  · subst hopen
    rfl
  · by_cases hclose : b = closeBracket
    · subst hclose
      rfl
    · have hweight : weight (Command.ofByte? b) = 0 := by
        cases hc : Command.ofByte? b with
        | none => rfl
        | some c =>
          rw [ofByte?_eq_some_iff] at hc
          cases c <;> simp_all [weight]
      rw [hweight, excess, List.count_singleton, List.count_singleton]
      simp [hopen, hclose]

theorem excess_take_succ (h : text[n]? = some b) :
    excess (text.take (n + 1)) = excess (text.take n) + weight (Command.ofByte? b) := by
  rw [List.take_add_one, h, Option.toList_some, excess_append, excess_singleton]

theorem excess_drop_take (h : i ≤ j) :
    excess ((text.take j).drop i) = excess (text.take j) - excess (text.take i) := by
  have hsplit : excess (text.take j) =
      excess ((text.take j).take i) + excess ((text.take j).drop i) := by
    rw [← excess_append, List.take_append_drop]
  rw [List.take_take, Nat.min_eq_left h] at hsplit
  omega

theorem pairUp_iff :
    PairUp text ↔ (∀ n, 0 ≤ excess (text.take n)) ∧ excess text = 0 := by
  constructor
  · rintro ⟨hheads, hall⟩
    refine ⟨fun n => ?_, ?_⟩
    · have := hheads _ (List.take_prefix n text)
      rw [excess]
      omega
    · rw [excess]
      omega
  · rintro ⟨hheads, hall⟩
    refine ⟨fun head hhead => ?_, ?_⟩
    · have := hheads head.length
      rw [← List.prefix_iff_eq_take.1 hhead, excess] at this
      omega
    · rw [excess] at hall
      omega

/-- Past its end a text has no more brackets. -/
theorem excess_take_of_length_le (h : text.length ≤ n) : excess (text.take n) = excess text := by
  rw [List.take_of_length_le h]

end Excess

section Partners

variable {text : Text} {i j : Nat}

/-- The brackets between partners and the partners themselves cancel out. -/
theorem Partners.excess_eq (h : Partners text i j) :
    excess (text.take (j + 1)) = excess (text.take i) := by
  obtain ⟨hlt, hi, hj, hbetween⟩ := h
  have hpair := (pairUp_iff.1 hbetween).2
  rw [excess_drop_take (by omega)] at hpair
  rw [excess_take_succ hj]
  rw [excess_take_succ hi] at hpair
  simp only [Command.ofByte_toByte, weight] at hpair ⊢
  omega

/-- A closing bracket at which the text has not closed too much has a partner. -/
theorem exists_partners (hj : text[j]? = some closeBracket)
    (hnonneg : ∀ n ≤ j + 1, 0 ≤ excess (text.take n)) : ∃ i, Partners text i j := by
  have hlast : excess (text.take (j + 1)) = excess (text.take j) - 1 := by
    rw [excess_take_succ hj, Command.ofByte_toByte]
    rfl
  have hdeep : 0 < excess (text.take j) := by
    have := hnonneg (j + 1) (Nat.le_refl _)
    omega
  -- The partner is where the text was last less deep than it is at the closing bracket.
  let P : Nat → Prop := fun n => excess (text.take n) < excess (text.take j)
  let i := Nat.findGreatest P j
  have hP : P i := Nat.findGreatest_spec (Nat.zero_le j) (by simpa [P] using hdeep)
  have hbelow : ∀ n, i < n → n ≤ j → excess (text.take j) ≤ excess (text.take n) :=
    fun n hn hnj => not_lt.1 (Nat.findGreatest_is_greatest hn hnj)
  have hij : i < j := by
    refine lt_of_le_of_ne (Nat.findGreatest_le j) fun heq => ?_
    rw [heq] at hP
    exact lt_irrefl _ hP
  have hlength : j < text.length := (List.getElem?_eq_some_iff.1 hj).1
  obtain ⟨b, hi⟩ : ∃ b, text[i]? = some b := ⟨_, List.getElem?_eq_getElem (by omega)⟩
  have hnext := hbelow (i + 1) (by omega) hij
  have hless : excess (text.take i) < excess (text.take j) := hP
  rw [excess_take_succ hi] at hnext
  have hopen : Command.ofByte? b = some .loopStart := by
    match hc : Command.ofByte? b with
    | some .loopStart => rfl
    | some .loopEnd | none | some .increment | some .decrement | some .left | some .right
    | some .write | some .read =>
      rw [hc] at hnext
      simp only [weight] at hnext
      omega
  rw [hopen] at hnext
  simp only [weight] at hnext
  refine ⟨i, hij, ?_, hj, pairUp_iff.2 ⟨fun n => ?_, ?_⟩⟩
  · rw [hi, ofByte?_eq_some_iff.1 hopen]
  · rw [List.take_drop, List.take_take, excess_drop_take (by omega), excess_take_succ hi, hopen]
    have := hbelow (min (i + 1 + n) j) (by omega) (by omega)
    simp only [weight]
    omega
  · rw [excess_drop_take (by omega), excess_take_succ hi, hopen]
    simp only [weight]
    omega

/-- The first closing bracket without a partner is the first at which the text closes more than it
    has opened. -/
theorem unmatched_isLeast (hj : text[j]? = some closeBracket)
    (hnonneg : ∀ n ≤ j, 0 ≤ excess (text.take n)) (hzero : excess (text.take j) = 0) :
    IsLeast {k | Unmatched text k} j := by
  constructor
  · refine ⟨hj, fun i hpartners => ?_⟩
    have hexcess := hpartners.excess_eq
    have hbefore := hnonneg i (Nat.le_of_lt hpartners.1)
    rw [excess_take_succ hj, Command.ofByte_toByte, hzero] at hexcess
    simp only [weight] at hexcess
    omega
  · rintro k ⟨hk, hunmatched⟩
    by_contra hlt
    obtain ⟨i, hpartners⟩ := exists_partners hk fun n hn => hnonneg n (by omega)
    exact hunmatched i hpartners

theorem not_unmatched (hnonneg : ∀ n, 0 ≤ excess (text.take n)) (j : Nat) : ¬Unmatched text j := by
  rintro ⟨hj, hunmatched⟩
  obtain ⟨i, hpartners⟩ := exists_partners hj fun n _ => hnonneg n
  exact hunmatched i hpartners

end Partners

section Outcome

/-- What loading a text comes to, as far as its brackets decide it. -/
def Decides (text : Text) : Except LoadError Code → Prop
  | .ok _ => (∀ n, 0 ≤ excess (text.take n)) ∧ excess text = 0
  | .error (.unmatchedEnd offset) => text[offset]? = some closeBracket ∧
      (∀ n ≤ offset, 0 ≤ excess (text.take n)) ∧ excess (text.take offset) = 0
  | .error (.unmatchedStarts count) =>
      (∀ n, 0 ≤ excess (text.take n)) ∧ excess text = count ∧ 0 < count

/-- Loading has come to an offset of a text: the rest is to be loaded, and as many brackets are
    open as the text so far has in excess. -/
structure Reading (text : Text) (offset : Nat) (starts : List Nat) (chars : List Character) :
    Prop where
  rest : (text.drop offset).map Command.ofByte? = chars
  depth : (starts.length : Int) = excess (text.take offset)
  nonneg : ∀ n ≤ offset, 0 ≤ excess (text.take n)

namespace Reading

variable {text : Text} {offset : Nat} {starts starts' : List Nat} {c : Character}
  {chars : List Character}

theorem exists_byte (h : Reading text offset starts (c :: chars)) :
    ∃ b, text[offset]? = some b ∧ Command.ofByte? b = c ∧
      (text.drop (offset + 1)).map Command.ofByte? = chars := by
  obtain ⟨b, rest, hdrop, hb, hrest⟩ := List.map_eq_cons_iff.1 h.rest
  have hbyte : text[offset]? = some b := by rw [← List.head?_drop, hdrop, List.head?_cons]
  refine ⟨b, hbyte, hb, ?_⟩
  rw [← hrest, ← List.tail_drop, hdrop, List.tail_cons]

theorem next (h : Reading text offset starts (c :: chars))
    (hdepth : (starts'.length : Int) = starts.length + weight c) :
    Reading text (offset + 1) starts' chars := by
  obtain ⟨b, hbyte, rfl, hrest⟩ := h.exists_byte
  have hexcess := excess_take_succ hbyte
  rw [← h.depth, ← hdepth] at hexcess
  refine ⟨hrest, hexcess.symm, fun n hn => ?_⟩
  rcases Nat.lt_or_eq_of_le hn with hlt | rfl
  · exact h.nonneg n (Nat.le_of_lt_succ hlt)
  · rw [hexcess]
    exact Int.natCast_nonneg _

theorem level (h : Reading text offset starts (c :: chars)) (hc : weight c = 0) :
    Reading text (offset + 1) starts chars :=
  h.next (by rw [hc, Int.add_zero])

theorem opened (h : Reading text offset starts (some .loopStart :: chars)) (p : Nat) :
    Reading text (offset + 1) (p :: starts) chars :=
  h.next rfl

theorem closed {p : Nat} (h : Reading text offset (p :: starts) (some .loopEnd :: chars)) :
    Reading text (offset + 1) starts chars := by
  refine h.next ?_
  rw [List.length_cons, weight]
  omega

/-- At the end of the text nothing else follows. -/
theorem atEnd (h : Reading text offset starts []) :
    (∀ n, 0 ≤ excess (text.take n)) ∧ excess text = starts.length := by
  have hlength : text.length ≤ offset := by simpa using h.rest
  have hdepth := h.depth
  rw [excess_take_of_length_le hlength] at hdepth
  refine ⟨fun n => ?_, hdepth.symm⟩
  by_cases hn : n ≤ offset
  · exact h.nonneg n hn
  · rw [excess_take_of_length_le (by omega)]
    omega

end Reading

theorem loadFrom_decides {text : Text} {offset : Nat} {starts : List Nat}
    {code : Array Instruction} {chars : List Character} (h : Reading text offset starts chars) :
    Decides text (Code.loadFrom offset starts code chars) := by
  fun_induction Code.loadFrom offset starts code chars with
  | case1 offset starts code hempty =>
    obtain rfl := List.isEmpty_iff.1 hempty
    exact h.atEnd
  | case2 offset starts code hne =>
    refine ⟨h.atEnd.1, h.atEnd.2, List.length_pos_iff.2 fun hnil => hne ?_⟩
    rw [hnil, List.isEmpty_nil]
  | case3 offset starts code rest ih => exact ih (((h.opened 0).level rfl).closed)
  | case4 offset starts code rest ih => exact ih (((h.opened 0).level rfl).closed)
  | case12 offset starts code rest _ _ ih => exact ih (h.opened _)
  | case13 offset code rest =>
    obtain ⟨b, hbyte, hb, -⟩ := h.exists_byte
    rw [ofByte?_eq_some_iff.1 hb] at hbyte
    exact ⟨hbyte, h.nonneg, h.depth.symm⟩
  | case14 offset code rest start starts code' _ _ ih => exact ih h.closed
  | _ =>
    rename_i ih
    exact ih (h.level rfl)

theorem load_decides (text : Text) : Decides text (Code.load text) :=
  loadFrom_decides ⟨by simp, rfl, by simp⟩

end Outcome

section Links

/-- The instruction at a place, if the code stands from place `base` on. -/
def placed (base : Nat) (code : List Instruction) (p : Nat) : Option Instruction :=
  if base ≤ p then code[p - base]? else none

/-- The brackets of code that stands from place `base` on know their partners, which come after
    the opening ones, and no two pairs cross. -/
structure LinkedFrom (base : Nat) (code : List Instruction) : Prop where
  partner : ∀ a b, placed base code a = some (.loopStart b) ↔ placed base code b = some (.loopEnd a)
  lt : ∀ a b, placed base code a = some (.loopStart b) → a < b
  nested : ∀ a b c d, placed base code a = some (.loopStart b) →
    placed base code c = some (.loopStart d) → a < c → c < b → d < b

variable {base p : Nat} {code is js : List Instruction} {x : Instruction}

theorem placed_bounds (h : placed base code p = some x) : base ≤ p ∧ p < base + code.length := by
  rw [placed] at h
  split at h
  · have := (List.getElem?_eq_some_iff.1 h).1
    omega
  · cases h

@[simp] theorem placed_nil (base p : Nat) : placed base [] p = none := by
  simp [placed]

theorem placed_singleton {i : Instruction} :
    placed base [i] p = some x ↔ p = base ∧ i = x := by
  constructor
  · intro h
    have hbounds := placed_bounds h
    obtain rfl : p = base := by
      simp only [List.length_singleton] at hbounds
      omega
    simpa [placed] using h
  · rintro ⟨rfl, rfl⟩
    simp [placed]

theorem placed_append : placed base (is ++ js) p = some x ↔
    placed base is p = some x ∨ placed (base + is.length) js p = some x := by
  by_cases hp : p < base + is.length
  · have hright : placed (base + is.length) js p = none := if_neg (by omega)
    rw [hright, placed, placed]
    split
    · rw [List.getElem?_append_left (by omega)]
      simp
    · simp
  · have hleft : placed base is p ≠ some x := fun h => hp (placed_bounds h).2
    have hshift : p - (base + is.length) = p - base - is.length := by omega
    rw [or_iff_right hleft, placed, placed, if_pos (by omega), if_pos (by omega),
      List.getElem?_append_right (by omega), hshift]

namespace LinkedFrom

theorem nil (base : Nat) : LinkedFrom base [] where
  partner a b := by simp
  lt a b h := by simp at h
  nested a b c d h := by simp at h

/-- An instruction that is no bracket. -/
theorem single {i : Instruction} (hstart : ∀ b, i ≠ .loopStart b) (hend : ∀ a, i ≠ .loopEnd a)
    (base : Nat) : LinkedFrom base [i] where
  partner a b := by simp [placed_singleton, hstart, hend]
  lt a b h := absurd (placed_singleton.1 h).2 (hstart b)
  nested a b c d h := absurd (placed_singleton.1 h).2 (hstart b)

theorem append (hi : LinkedFrom base is) (hj : LinkedFrom (base + is.length) js) :
    LinkedFrom base (is ++ js) where
  partner a b := by
    rw [placed_append, placed_append]
    exact or_congr (hi.partner a b) (hj.partner a b)
  lt a b h := (placed_append.1 h).elim (hi.lt a b) (hj.lt a b)
  nested a b c d ha hc hac hcb := by
    rcases placed_append.1 ha with ha | ha <;> rcases placed_append.1 hc with hc | hc
    · exact hi.nested a b c d ha hc hac hcb
    · have := placed_bounds ((hi.partner a b).1 ha)
      have := placed_bounds hc
      omega
    · have := placed_bounds ha
      have := placed_bounds hc
      omega
    · exact hj.nested a b c d ha hc hac hcb

theorem placed_loop {last : Nat} :
    placed base (.loopStart last :: code ++ [.loopEnd base]) p = some x ↔
    (p = base ∧ .loopStart last = x) ∨ placed (base + 1) code p = some x ∨
      (p = base + 1 + code.length ∧ .loopEnd base = x) := by
  rw [List.cons_append, ← List.singleton_append, placed_append, placed_append, placed_singleton,
    placed_singleton, List.length_singleton]

theorem loop (h : LinkedFrom (base + 1) code) :
    LinkedFrom base (.loopStart (base + 1 + code.length) :: code ++ [.loopEnd base]) where
  partner a b := by
    simp only [placed_loop, h.partner a b, Instruction.loopStart.injEq, Instruction.loopEnd.injEq,
      reduceCtorEq, and_false, or_false, false_or]
    constructor
    · rintro (⟨rfl, rfl⟩ | hcode)
      · exact .inr ⟨rfl, rfl⟩
      · exact .inl hcode
    · rintro (hcode | ⟨rfl, rfl⟩)
      · exact .inr hcode
      · exact .inl ⟨rfl, rfl⟩
  lt a b ha := by
    rcases placed_loop.1 ha with ⟨rfl, hb⟩ | ha | ⟨-, hb⟩
    · cases hb
      omega
    · exact h.lt a b ha
    · cases hb
  nested a b c d ha hc hac hcb := by
    rcases placed_loop.1 hc with ⟨rfl, -⟩ | hc | ⟨-, hd⟩
    · rcases placed_loop.1 ha with ⟨rfl, -⟩ | ha | ⟨-, hb⟩
      · omega
      · have := placed_bounds ha
        omega
      · cases hb
    · rcases placed_loop.1 ha with ⟨rfl, hb⟩ | ha | ⟨-, hb⟩
      · have := placed_bounds ((h.partner c d).1 hc)
        cases hb
        omega
      · exact h.nested a b c d ha hc hac hcb
      · cases hb
    · cases hd

end LinkedFrom

/-- What a text is folded into has brackets that know their partners. -/
theorem Folds.linkedFrom {chars : List Character} (h : Folds chars base code) :
    LinkedFrom base code := by
  induction h with
  | nil base => exact .nil base
  | comment base => exact .nil base
  | @run kind chars n h hne base =>
    refine .single ?_ ?_ base <;> cases kind <;> simp [RunKind.instruction]
  | write base => exact .single (by simp) (by simp) base
  | read base => exact .single (by simp) (by simp) base
  | clear hc base => exact .single (by simp) (by simp) base
  | loop _ ih => exact ih.loop
  | append _ _ ihx ihy => exact ihx.append ihy

end Links

/-- Every bracket of the code knows the place of its partner, an opening bracket comes before its
    partner, and a loop that starts inside another ends inside it. -/
structure Code.Linked (code : Code) : Prop where
  partner : ∀ a b : Nat, code.instructions[a]? = some (.loopStart b) ↔
    code.instructions[b]? = some (.loopEnd a)
  lt : ∀ a b : Nat, code.instructions[a]? = some (.loopStart b) → a < b
  nested : ∀ a b c d : Nat, code.instructions[a]? = some (.loopStart b) →
    code.instructions[c]? = some (.loopStart d) → a < c → c < b → d < b

theorem LinkedFrom.linked {code : Code} (h : LinkedFrom 0 code.instructions.toList) :
    code.Linked := by
  have hplaced (p : Nat) : placed 0 code.instructions.toList p = code.instructions[p]? := by
    simp [placed]
  exact ⟨by simpa only [hplaced] using h.partner, by simpa only [hplaced] using h.lt,
    by simpa only [hplaced] using h.nested⟩

theorem count_ofText (c : Command) (text : Text) :
    (Command.ofText text).count c = text.count c.toByte := by
  rw [Command.ofText, List.count_filterMap, List.count]
  refine List.countP_congr fun b _ => ?_
  simp [ofByte?_eq_some_iff]

/-- Comments do not matter to the brackets. -/
theorem PairUp.balanced {text : Text} (h : PairUp text) : Balanced (Command.ofText text) := by
  refine ⟨fun head hhead => ?_, ?_⟩
  · obtain ⟨part, hpart, rfl⟩ := List.prefix_filterMap_iff.1 hhead
    have hcount := h.1 part hpart
    rwa [← count_ofText, ← count_ofText] at hcount
  · rw [count_ofText, count_ofText]
    exact h.2

theorem folds_of_load {text : Text} {code : Code} (hload : Code.load text = .ok code) :
    Folds (Plain.characters text) 0 code.instructions.toList := by
  have hdecides := load_decides text
  rw [hload] at hdecides
  obtain ⟨code', hload', hfolds⟩ := load_folds (pairUp_iff.2 hdecides).balanced
  obtain rfl : code = code' := Except.ok.inj (hload.symm.trans hload')
  exact hfolds

theorem linked_of_load {text : Text} {code : Code} (hload : Code.load text = .ok code) :
    code.Linked := (folds_of_load hload).linkedFrom.linked

/-- A text can be loaded just if its brackets pair up, and then it is folded into instructions in
    which every bracket knows its partner. Otherwise loading fails and names the first closing
    bracket without a partner or, if there is none, the number of opening brackets that are left. -/
theorem load_pairs_brackets (text : Text) :
    ((∃ code, Code.load text = .ok code) ↔ PairUp text) ∧
    (∀ offset, Code.load text = .error (.unmatchedEnd offset) ↔
      IsLeast {j | Unmatched text j} offset) ∧
    (∀ count, Code.load text = .error (.unmatchedStarts count) ↔
      (∀ j, ¬Unmatched text j) ∧ 0 < count ∧
        text.count openBracket = text.count closeBracket + count) ∧
    ∀ code, Code.load text = .ok code →
      code.Linked ∧ Folds (Plain.characters text) 0 code.instructions.toList := by
  have hdecides := load_decides text
  refine ⟨?_, ?_, ?_, fun code h => ⟨linked_of_load h, folds_of_load h⟩⟩ <;>
    rcases hload : Code.load text with (first | left) | code <;> rw [hload] at hdecides
  -- when the text can be loaded
  · obtain ⟨hbracket, hnonneg, hzero⟩ := hdecides
    refine iff_of_false (by simp) fun hpair => ?_
    exact not_unmatched (pairUp_iff.1 hpair).1 _ (unmatched_isLeast hbracket hnonneg hzero).1
  · refine iff_of_false (by simp) fun hpair => ?_
    have hnone := (pairUp_iff.1 hpair).2
    have := hdecides.2
    omega
  · exact iff_of_true ⟨code, rfl⟩ (pairUp_iff.2 hdecides)
  -- when a closing bracket has no partner
  · obtain ⟨hbracket, hnonneg, hzero⟩ := hdecides
    have hfirst := unmatched_isLeast hbracket hnonneg hzero
    intro offset
    constructor
    · rintro ⟨⟩
      exact hfirst
    · intro hoffset
      rw [hfirst.unique hoffset]
  · exact fun offset => iff_of_false (by simp) fun h => not_unmatched hdecides.1 _ h.1
  · exact fun offset => iff_of_false (by simp) fun h => not_unmatched hdecides.1 _ h.1
  -- when opening brackets are left
  · obtain ⟨hbracket, hnonneg, hzero⟩ := hdecides
    have hfirst := unmatched_isLeast hbracket hnonneg hzero
    exact fun count => iff_of_false (by simp) fun h => h.1 _ hfirst.1
  · obtain ⟨hnonneg, hexcess, hpos⟩ := hdecides
    rw [excess] at hexcess
    intro count
    constructor
    · rintro ⟨⟩
      exact ⟨not_unmatched hnonneg, hpos, by omega⟩
    · rintro ⟨-, -, hcount⟩
      obtain rfl : left = count := by omega
      rfl
  · have hexcess := hdecides.2
    rw [excess] at hexcess
    refine fun count => iff_of_false (by simp) ?_
    rintro ⟨-, hpos, hcount⟩
    omega

end Goat.Machine
