import Goat.Proofs.Loading
import Goat.Proofs.Runs

/-!
# Code that goes on

Loading a text that continues another one gives the instructions of the other one first. Only
its last instruction may differ, where the text goes on with a run of the same kind; but nothing
is written there, and a run of the other code ends with it. What a run of the other code writes
is therefore the first part of what a run of all of the code writes.
-/

namespace Goat.Machine

open Plain

/-- The code has the instructions of another one, but for a run at the end of the other one. -/
def GoesOn (short long : Array Instruction) : Prop :=
  ∀ (i : Nat) (x : Instruction), short[i]? = some x →
    long[i]? = some x ∨ i + 1 = short.size ∧ ∃ kind n, x = RunKind.instruction kind n

namespace GoesOn

variable {short long : Array Instruction}

theorem refl (code : Array Instruction) : GoesOn code code := fun _ _ h => .inl h

theorem push (h : GoesOn short long) (x : Instruction) : GoesOn short (long.push x) :=
  fun i y hi => (h i y hi).imp_left kept_of_push

/-- A run that is added to is the last instruction, so it is that of the other code as well if
    there is no more code. -/
theorem run (h : GoesOn short long) (hsize : short.size ≤ long.size) (kind : RunKind) (k : Int) :
    GoesOn short (kind.push long k) := by
  intro i x hi
  have hlt : i < short.size := (Array.getElem?_eq_some_iff.1 hi).1
  rcases h i x hi with hlong | hlast
  · rw [← Array.getElem?_toList] at hlong ⊢
    rcases kind.toList_push long k with ⟨is, m, hcode, hpush⟩ | hpush
    · have hlength : long.size = is.length + 1 := by rw [← Array.length_toList, hcode]; simp
      by_cases hbefore : i < is.length
      · rw [hcode, List.getElem?_append_left hbefore] at hlong
        rw [hpush, List.getElem?_append_left hbefore]
        exact .inl hlong
      · obtain rfl : i = is.length := by omega
        rw [hcode, List.getElem?_concat_length] at hlong
        exact .inr ⟨by omega, kind, m, (Option.some.inj hlong).symm⟩
    · rw [hpush, List.getElem?_append_left (by simp; omega)]
      exact .inl hlong
  · exact .inr hlast

theorem setIfInBounds (h : GoesOn short long) {start : Nat} (hstart : short.size ≤ start)
    (x : Instruction) : GoesOn short (long.setIfInBounds start x) := by
  intro i y hi
  have hlt : i < short.size := (Array.getElem?_eq_some_iff.1 hi).1
  rw [Array.getElem?_setIfInBounds_ne (by omega)]
  exact h i y hi

end GoesOn

theorem size_le_push (kind : RunKind) (code : Array Instruction) (k : Int) :
    code.size ≤ (kind.push code k).size := by
  rw [← Array.length_toList, ← Array.length_toList]
  rcases kind.toList_push code k with ⟨is, m, hcode, hpush⟩ | hpush
  · simp [hcode, hpush]
  · simp [hpush]

/-- Loading more characters leaves the instructions in place that were there before. -/
theorem keptByLoading_goesOn (short : Array Instruction) :
    KeptByLoading fun _ starts code =>
      GoesOn short code ∧ short.size ≤ code.size ∧ ∀ s ∈ starts, short.size ≤ s where
  comment h := h
  run kind c k _ h := ⟨h.1.run h.2.1 kind k, h.2.1.trans (size_le_push kind _ k), h.2.2⟩
  write := by
    rintro rest starts code ⟨hon, hsize, hstarts⟩
    exact ⟨hon.push _, by rw [Array.size_push]; omega, hstarts⟩
  read := by
    rintro rest starts code ⟨hon, hsize, hstarts⟩
    exact ⟨hon.push _, by rw [Array.size_push]; omega, hstarts⟩
  clear := by
    rintro rest starts code c - ⟨hon, hsize, hstarts⟩
    exact ⟨hon.push _, by rw [Array.size_push]; omega, hstarts⟩
  openLoop := by
    rintro rest starts code - - ⟨hon, hsize, hstarts⟩
    exact ⟨hon.push _, by rw [Array.size_push]; omega, List.forall_mem_cons.2 ⟨hsize, hstarts⟩⟩
  closeLoop := by
    rintro rest start starts code ⟨hon, hsize, hstarts⟩
    obtain ⟨hstart, hstarts⟩ := List.forall_mem_cons.1 hstarts
    exact ⟨(hon.setIfInBounds hstart _).push _,
      by rw [Array.size_push, Array.size_setIfInBounds]; omega, hstarts⟩

theorem goesOn_of_load {xs ys : List Command} {short long : Code}
    (hshort : Code.load (Command.toText xs) = .ok short)
    (hlong : Code.load (Command.toText (xs ++ ys)) = .ok long) :
    GoesOn short.instructions long.instructions := by
  rw [Code.load, characters_toText] at hshort hlong
  rw [List.map_append] at hlong
  obtain ⟨offset, hload⟩ := exists_load_append hshort hlong
  exact ((keptByLoading_goesOn short.instructions).loaded
    ⟨.refl _, le_rfl, List.forall_mem_nil _⟩ hload).1

/-- A run only adds to its cell or moves, and goes on with the next instruction. -/
theorem execute_run {m m' : Machine} {pc next : Nat} {kind : RunKind} {n : Int}
    (he : m.execute pc (kind.instruction n) = (.ok next, m')) :
    next = pc + 1 ∧ m'.output = m.output := by
  cases kind with
  | add =>
    cases he
    exact ⟨rfl, rfl⟩
  | move =>
    rw [RunKind.instruction, execute] at he
    split at he <;> cases he
    exact ⟨rfl, rfl⟩

/-- What a run of code writes that finishes is written first by the code that goes on after it. -/
theorem output_prefix_of_goesOn {short long : Code}
    (h : GoesOn short.instructions long.instructions) (fuel fuel' pc : Nat) (m : Machine)
    (hshort : (runFrom short none fuel pc m).1 = .finished)
    (hlong : (runFrom long none fuel' pc m).1 = .finished) :
    (runFrom short none fuel pc m).2.output.toList <+:
      (runFrom long none fuel' pc m).2.output.toList := by
  refine runFrom_induction (motive := fun _ pc m result => result.1 = .finished → ∀ fuel',
    (runFrom long none fuel' pc m).1 = .finished →
      result.2.output.toList <+: (runFrom long none fuel' pc m).2.output.toList)
    ?_ ?_ ?_ ?_ ?_ fuel pc m hshort fuel' hlong
  · intro fuel pc m _ _ fuel' _
    exact output_grows_runFrom long none fuel' pc m
  · intro pc m i _ hfinished
    cases hfinished
  · intro fuel pc m i fault _ _ hfinished
    cases hfinished
  · intro fuel pc m i fault m' _ _ _ hfinished
    cases hfinished
  · intro fuel pc m i pc' m' hi hcount he ih hfinished fuel' hlong
    rcases h pc i hi with hsame | ⟨hlast, kind, n, rfl⟩
    · cases fuel' with
      | zero =>
        rw [runFrom_without_fuel hsame] at hlong
        cases hlong
      | succ fuel' =>
        rw [runFrom_next hsame hcount he] at hlong ⊢
        exact ih hfinished fuel' hlong
    · -- The run of the shorter code ends here, and nothing is written any more.
      obtain ⟨rfl, houtput⟩ := execute_run he
      rw [runFrom_past_end (Array.getElem?_eq_none hlast.ge), houtput, counted_output]
      exact output_grows_runFrom long none fuel' pc m

end Goat.Machine
