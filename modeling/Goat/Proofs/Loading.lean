import Goat.Proofs.Folding

/-!
# Loading, one character after the other

What the loader does with each character is said once, by `KeptByLoading`: a property of the
characters left, the open brackets and the code so far that every character keeps holds of the
code that was loaded.
-/

namespace Goat.Machine

open Plain

/-- The characters start a loop that is loaded as a single instruction. -/
def StartsClear (chars : List Character) : Prop :=
  ∃ c rest, (c = Command.decrement ∨ c = .increment) ∧ chars = some c :: some .loopEnd :: rest

/-- The property is kept by loading: if it holds of the characters left, the places of the open
    brackets and the code so far, then it holds of them after the next characters. -/
structure KeptByLoading (I : List Character → List Nat → Array Instruction → Prop) : Prop where
  comment : ∀ {rest starts code}, I (none :: rest) starts code → I rest starts code
  run : ∀ {rest starts code} (kind : RunKind) {c : Command} {k : Int},
    kind.amount? (some c) = some k → I (some c :: rest) starts code →
      I rest starts (kind.push code k)
  write : ∀ {rest starts code}, I (some .write :: rest) starts code →
    I rest starts (code.push .write)
  read : ∀ {rest starts code}, I (some .read :: rest) starts code →
    I rest starts (code.push .read)
  clear : ∀ {rest starts code} {c : Command}, c = .decrement ∨ c = .increment →
    I (some .loopStart :: some c :: some .loopEnd :: rest) starts code →
      I rest starts (code.push .clear)
  openLoop : ∀ {rest starts code}, ¬StartsClear rest → some .loopEnd ∈ rest →
    I (some .loopStart :: rest) starts code →
      I rest (code.size :: starts) (code.push (.loopStart 0))
  closeLoop : ∀ {rest start starts code}, I (some .loopEnd :: rest) (start :: starts) code →
    I rest starts ((code.setIfInBounds start (.loopStart code.size)).push (.loopEnd start))

theorem not_startsClear {rest : List Character}
    (hdecrement : ∀ more, rest = some .decrement :: some .loopEnd :: more →
      Command.loopStart = .loopStart → False)
    (hincrement : ∀ more, rest = some .increment :: some .loopEnd :: more →
      Command.loopStart = .loopStart → False) : ¬StartsClear rest := by
  rintro ⟨c, more, rfl | rfl, hrest⟩
  · exact hdecrement more hrest rfl
  · exact hincrement more hrest rfl

/-- A text that is loaded inside a loop closes it. -/
theorem loopEnd_mem_of_load {offset : Nat} {starts : List Nat} {code : Array Instruction}
    {chars : List Character} {result : Code} (hopen : starts ≠ [])
    (hload : Code.loadFrom offset starts code chars = .ok result) : some .loopEnd ∈ chars := by
  fun_induction Code.loadFrom offset starts code chars with
  | case1 offset starts code hempty => exact absurd (List.isEmpty_iff.1 hempty) hopen
  | case2 => cases hload
  | case13 => cases hload
  | _ => simp_all

theorem KeptByLoading.loaded {I : List Character → List Nat → Array Instruction → Prop}
    (hI : KeptByLoading I) {offset : Nat} {starts : List Nat} {code : Array Instruction}
    {chars : List Character} {result : Code} (h : I chars starts code)
    (hload : Code.loadFrom offset starts code chars = .ok result) :
    I [] [] result.instructions := by
  fun_induction Code.loadFrom offset starts code chars with
  | case1 offset starts code hempty =>
    cases hload
    rwa [List.isEmpty_iff.1 hempty] at h
  | case2 => cases hload
  | case3 offset starts code rest ih => exact ih (hI.clear (.inl rfl) h) hload
  | case4 offset starts code rest ih => exact ih (hI.clear (.inr rfl) h) hload
  | case5 offset starts code rest ih => exact ih (hI.comment h) hload
  | case6 offset starts code rest _ _ ih => exact ih (hI.run .add rfl h) hload
  | case7 offset starts code rest _ _ ih => exact ih (hI.run .add rfl h) hload
  | case8 offset starts code rest _ _ ih => exact ih (hI.run .move rfl h) hload
  | case9 offset starts code rest _ _ ih => exact ih (hI.run .move rfl h) hload
  | case10 offset starts code rest _ _ ih => exact ih (hI.write h) hload
  | case11 offset starts code rest _ _ ih => exact ih (hI.read h) hload
  | case12 offset starts code rest hdecrement hincrement ih =>
    exact ih (hI.openLoop (not_startsClear hdecrement hincrement)
      (loopEnd_mem_of_load (by simp) hload) h) hload
  | case13 => cases hload
  | case14 offset code rest start starts code' _ _ ih => exact ih (hI.closeLoop h) hload

theorem startsClear_of_append {xs ys : List Character} (hend : some .loopEnd ∈ xs)
    (h : StartsClear (xs ++ ys)) : StartsClear xs := by
  obtain ⟨c, rest, hc, happend⟩ := h
  match xs, hend, happend with
  | [x], hend, happend =>
    rcases hc with rfl | rfl <;> simp_all
  | x :: y :: more, _, happend =>
    simp only [List.cons_append, List.cons.injEq] at happend
    obtain ⟨rfl, rfl, -⟩ := happend
    exact ⟨c, more, hc, rfl⟩

/-- Characters that are left to load after others give the result that all of them give. -/
theorem keptByLoading_append (ys : List Character) (result : Code) :
    KeptByLoading fun xs starts code =>
      ∃ offset, Code.loadFrom offset starts code (xs ++ ys) = .ok result where
  comment := by
    rintro rest starts code ⟨offset, h⟩
    exact ⟨offset + 1, h⟩
  run := by
    rintro rest starts code kind c k hk ⟨offset, h⟩
    refine ⟨offset + 1, ?_⟩
    cases kind <;> cases c <;> cases hk <;> exact h
  write := by
    rintro rest starts code ⟨offset, h⟩
    exact ⟨offset + 1, h⟩
  read := by
    rintro rest starts code ⟨offset, h⟩
    exact ⟨offset + 1, h⟩
  clear := by
    rintro rest starts code c hc ⟨offset, h⟩
    refine ⟨offset + 3, ?_⟩
    rcases hc with rfl | rfl <;> exact h
  openLoop := by
    rintro rest starts code hclear hend ⟨offset, h⟩
    refine ⟨offset + 1, ?_⟩
    have hclear' : ¬StartsClear (rest ++ ys) := fun h => hclear (startsClear_of_append hend h)
    rw [List.cons_append, Code.loadFrom] at h
    · exact h
    · intro more hmore _
      exact hclear' ⟨.decrement, more, .inl rfl, hmore⟩
    · intro more hmore _
      exact hclear' ⟨.increment, more, .inr rfl, hmore⟩
  closeLoop := by
    rintro rest start starts code ⟨offset, h⟩
    exact ⟨offset + 1, h⟩

/-- A text that can be loaded by itself is loaded first when another one follows it. -/
theorem exists_load_append {xs ys : List Character} {loaded result : Code}
    (hload : Code.loadFrom 0 [] #[] xs = .ok loaded)
    (hall : Code.loadFrom 0 [] #[] (xs ++ ys) = .ok result) :
    ∃ offset, Code.loadFrom offset [] loaded.instructions ys = .ok result :=
  (keptByLoading_append ys result).loaded ⟨0, hall⟩ hload

/-- The characters of commands spell them. -/
theorem characters_toText (commands : List Command) :
    (Command.toText commands).map Command.ofByte? = commands.map some := by
  simp [Command.toText]

section Push

variable {code : Array Instruction} {i : Nat} {x y : Instruction}

theorem kept_of_push (h : code[i]? = some x) : (code.push y)[i]? = some x := by
  have hlt : i < code.size := (Array.getElem?_eq_some_iff.1 h).1
  rw [Array.getElem?_push, if_neg (by omega), h]

theorem cases_of_push (h : (code.push y)[i]? = some x) :
    i = code.size ∧ y = x ∨ code[i]? = some x := by
  rw [Array.getElem?_push] at h
  split at h
  · exact .inl ⟨‹_›, Option.some.inj h⟩
  · exact .inr h

end Push

/-- Adding to a run changes or adds an instruction of its kind only. -/
theorem RunKind.getElem?_push_of_ne (kind : RunKind) {code : Array Instruction} {k : Int}
    {i : Nat} {instruction : Instruction} (h : ∀ n, instruction ≠ kind.instruction n) :
    (kind.push code k)[i]? = some instruction ↔ code[i]? = some instruction := by
  rw [← Array.getElem?_toList, ← Array.getElem?_toList]
  rcases kind.toList_push code k with ⟨is, m, hcode, hpush⟩ | hpush
  · rw [hcode, hpush, List.getElem?_append, List.getElem?_append]
    split
    · rfl
    · cases hi : i - is.length <;> simp [Ne.symm (h _)]
  · rw [hpush, List.getElem?_append]
    split
    · rfl
    · rename_i hi
      rw [List.getElem?_eq_none (l := code.toList) (by omega)]
      cases hi : i - code.toList.length <;> simp [Ne.symm (h _)]

end Goat.Machine
