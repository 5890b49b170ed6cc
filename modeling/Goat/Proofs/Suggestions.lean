import Goat.Diagnostic.Failure
import Goat.Proofs.EditDistance

/-!
# The best suggestion

The candidates are gone through in dictionary order, and one is taken over only from one that is
farther away. What is left is the first in dictionary order of the candidates closest to the
input. It depends on which candidates there are, and not on their order or how often they occur.
-/

namespace Goat

namespace Diagnostic

/-- How many edits a candidate is away from the input, without regard to case. -/
def editsTo (input candidate : Text) : Nat :=
  editDistance (Text.lower input) (Text.lower candidate)

/-- The candidate is the first in dictionary order of those closest to the input. -/
structure IsNearest (input : Text) (candidates : List Text) (c : Text) : Prop where
  mem : c ∈ candidates
  closest : ∀ other ∈ candidates, editsTo input c ≤ editsTo input other
  first : ∀ other ∈ candidates, editsTo input other = editsTo input c → Text.le c other = true

namespace IsNearest

variable {input c c' : Text} {candidates others : List Text}

/-- There is at most one such candidate. -/
theorem unique (h : IsNearest input candidates c) (h' : IsNearest input candidates c') :
    c = c' := by
  have hsame : editsTo input c = editsTo input c' :=
    Nat.le_antisymm (h.closest c' h'.mem) (h'.closest c h.mem)
  exact Text.le_antisymm (h.first c' h'.mem hsame.symm) (h'.first c h.mem hsame)

theorem congr (hsame : ∀ t, t ∈ others ↔ t ∈ candidates) (h : IsNearest input candidates c) :
    IsNearest input others c where
  mem := (hsame c).2 h.mem
  closest other hother := h.closest other ((hsame other).1 hother)
  first other hother := h.first other ((hsame other).1 hother)

theorem singleton (input c : Text) : IsNearest input [c] c where
  mem := List.mem_singleton_self c
  closest other hother := by rw [List.mem_singleton.1 hother]
  first other hother _ := by
    rw [List.mem_singleton.1 hother]
    exact Text.le_refl c

/-- A candidate that is farther away changes nothing. -/
theorem cons_far {far : Text} (h : IsNearest input candidates c)
    (hfar : editsTo input c < editsTo input far) : IsNearest input (far :: candidates) c where
  mem := List.mem_cons_of_mem _ h.mem
  closest := List.forall_mem_cons.2 ⟨Nat.le_of_lt hfar, h.closest⟩
  first := List.forall_mem_cons.2 ⟨fun hsame => absurd hsame (Nat.ne_of_gt hfar), h.first⟩

/-- Neither does a candidate behind another one that is as close. -/
theorem cons_behind {front late : Text} (h : IsNearest input (front :: candidates) c)
    (hclose : editsTo input front ≤ editsTo input late) (hle : Text.le front late = true) :
    IsNearest input (front :: late :: candidates) c := by
  have hfront := h.closest front List.mem_cons_self
  refine ⟨?_, ?_, ?_⟩
  · rcases List.mem_cons.1 h.mem with rfl | hmem
    · exact List.mem_cons_self
    · exact List.mem_cons_of_mem _ (List.mem_cons_of_mem _ hmem)
  · have hrest := (List.forall_mem_cons.1 h.closest).2
    exact List.forall_mem_cons.2 ⟨hfront, List.forall_mem_cons.2 ⟨by omega, hrest⟩⟩
  · obtain ⟨hfirst, hrest⟩ := List.forall_mem_cons.1 h.first
    refine List.forall_mem_cons.2 ⟨hfirst, List.forall_mem_cons.2 ⟨fun hsame => ?_, hrest⟩⟩
    exact Text.le_trans (hfirst (by omega)) hle

end IsNearest

/-! ### Going through the candidates -/

/-- In dictionary order, the scan ends with the first of the closest candidates, together with
    its distance. -/
theorem isNearest_nearest {input best : Text} {rest : List Text}
    (hsorted : (best :: rest).Pairwise fun a b => Text.le a b = true) :
    IsNearest input (best :: rest)
        (nearest (Text.lower input) (best, editsTo input best) rest).1 ∧
      (nearest (Text.lower input) (best, editsTo input best) rest).2 =
        editsTo input (nearest (Text.lower input) (best, editsTo input best) rest).1 := by
  induction rest generalizing best with
  | nil => exact ⟨.singleton input best, rfl⟩
  | cons candidate rest ih =>
    obtain ⟨hbest, hrest⟩ := List.pairwise_cons.1 hsorted
    rw [nearest, ← editsTo]
    split
    · rename_i hcloser
      obtain ⟨hfound, hdistance⟩ := ih hrest
      have hle := hfound.closest candidate List.mem_cons_self
      exact ⟨hfound.cons_far (Nat.lt_of_le_of_lt hle hcloser), hdistance⟩
    · rename_i hfarther
      have hsublist : (best :: rest).Pairwise fun a b => Text.le a b = true :=
        hsorted.sublist ((List.sublist_cons_self candidate rest).cons_cons best)
      obtain ⟨hfound, hdistance⟩ := ih hsublist
      exact ⟨hfound.cons_behind (Nat.le_of_not_lt hfarther) (hbest candidate List.mem_cons_self),
        hdistance⟩

theorem exists_isNearest (input : Text) {candidates : List Text} (h : candidates ≠ []) :
    ∃ c, IsNearest input candidates c := by
  have hsame (t : Text) : t ∈ candidates ↔ t ∈ Text.sort candidates := Text.mem_sort.symm
  cases hsort : Text.sort candidates with
  | nil =>
    obtain ⟨t, ht⟩ := List.exists_mem_of_ne_nil _ h
    rw [hsame, hsort] at ht
    cases ht
  | cons first rest =>
    have hsorted := Text.pairwise_sort candidates
    rw [hsort] at hsorted hsame
    exact ⟨_, (isNearest_nearest hsorted).1.congr hsame⟩

theorem closest?_nil (input : Text) : closest? input [] = none := by
  rw [closest?, Text.sort, List.mergeSort_nil]
  split <;> rfl

/-- The nearest candidate is suggested if it is close enough, but not if it is the input itself. -/
theorem closest?_of_isNearest {input c : Text} {candidates : List Text}
    (h : IsNearest input candidates c) :
    closest? input candidates =
      if input ≠ [] ∧ 1 ≤ editsTo input c ∧ editsTo input c ≤ editLimit input.length ∧ c ≠ [] then
        some c
      else none := by
  have hsame (t : Text) : t ∈ Text.sort candidates ↔ t ∈ candidates := Text.mem_sort
  cases hsort : Text.sort candidates with
  | nil =>
    have hmem := (hsame c).2 h.mem
    rw [hsort] at hmem
    cases hmem
  | cons first rest =>
    have hsorted := Text.pairwise_sort candidates
    rw [hsort] at hsorted hsame
    obtain ⟨hfound, hdistance⟩ := @isNearest_nearest input first rest hsorted
    have hc := hfound.unique (h.congr hsame)
    rw [hc] at hdistance
    have hscan : closest? input candidates =
        if input.isEmpty then none
        else
          let found := nearest (Text.lower input) (first, editsTo input first) rest
          if found.2 = 0 || editLimit input.length < found.2 || found.1.isEmpty then none
          else some found.1 := by
      rw [closest?, hsort]
      rfl
    simp only [hscan, hc, hdistance, List.isEmpty_iff, Bool.or_eq_true, decide_eq_true_eq]
    by_cases hinput : input = []
    · rw [if_pos hinput, if_neg (fun hall => hall.1 hinput)]
    · rw [if_neg hinput]
      split
      · rename_i hreject
        rw [if_neg]
        rintro ⟨-, hlow, hhigh, hne⟩
        rcases hreject with (hzero | hfar) | hempty
        · omega
        · omega
        · exact hne hempty
      · rename_i haccept
        rw [not_or, not_or] at haccept
        rw [if_pos ⟨hinput, by omega, by omega, haccept.2⟩]

/-- Candidates are as good in any order, and however often they occur. -/
theorem closest?_congr (input : Text) {candidates others : List Text}
    (hsame : ∀ t, t ∈ others ↔ t ∈ candidates) :
    closest? input others = closest? input candidates := by
  by_cases h : candidates = []
  · subst h
    have hnil : others = [] := List.eq_nil_iff_forall_not_mem.2 fun t ht => by
      cases (hsame t).1 ht
    rw [hnil]
  · obtain ⟨c, hc⟩ := exists_isNearest input h
    rw [closest?_of_isNearest hc, closest?_of_isNearest (hc.congr hsame)]

/-- The suggestion is the first in dictionary order of the candidates that the fewest edits lead
    to, if they are at least one and no more than the length of the input admits; no suggestion
    counts as the empty text. Neither it nor the hint depends on the order or the number of times
    in which the candidates are given. -/
theorem suggestion_optimal (input : Text) (candidates : List Text) :
    (∀ c, IsLeast {n | Edits n (Text.lower input) (Text.lower c)} (editsTo input c)) ∧
    (candidates = [] → (closest? input candidates).getD [] = []) ∧
    (candidates ≠ [] → ∃ c, IsNearest input candidates c) ∧
    (∀ c, IsNearest input candidates c →
      (closest? input candidates).getD [] =
        if input ≠ [] ∧ 1 ≤ editsTo input c ∧
            editsTo input c ≤ (if input.length < 4 then 1 else if input.length ≤ 6 then 2 else 3)
        then c else []) ∧
    ∀ others, (∀ t, t ∈ others ↔ t ∈ candidates) →
      closest? input others = closest? input candidates ∧
      ∀ f : Failure, f.suggesting input others = f.suggesting input candidates := by
  refine ⟨fun c => isLeast_editDistance _ _, ?_, exists_isNearest input, fun c hc => ?_, ?_⟩
  · rintro rfl
    rw [closest?_nil, Option.getD_none]
  · rw [closest?_of_isNearest hc, editLimit]
    by_cases hempty : c = []
    · rw [if_neg (fun hall => hall.2.2.2 hempty), hempty, ite_self, Option.getD_none]
    · simp only [ne_eq, hempty, not_false_eq_true, and_true]
      exact apply_ite (Option.getD · []) _ _ _
  · intro others hsame
    have hclosest := closest?_congr input hsame
    exact ⟨hclosest, fun f => by rw [Failure.suggesting, Failure.suggesting, hclosest]⟩

/-- Two candidates are one edit away, and the first of them in dictionary order is not the first
    that is given. -/
theorem suggestion_optimal_tied :
    IsNearest "PRIN" ["printN", "print", "grin", "print"] "grin" ∧
      editsTo "PRIN" "print" = editsTo "PRIN" "grin" ∧
      (closest? "PRIN" ["printN", "print", "grin", "print"]).getD [] = "grin" ∧
      closest? "PRIN" ["grin", "printN", "print"] =
        closest? "PRIN" ["printN", "print", "grin", "print"] := by
  have hprintN : editsTo "PRIN" "printN" = 2 := by decide +kernel
  have hprint : editsTo "PRIN" "print" = 1 := by decide +kernel
  have hgrin : editsTo "PRIN" "grin" = 1 := by decide +kernel
  have hnearest : IsNearest "PRIN" ["printN", "print", "grin", "print"] "grin" :=
    ⟨by decide, by simp [hprintN, hprint, hgrin], by
      simp only [List.forall_mem_cons, hprintN, hprint, hgrin]
      decide +kernel⟩
  obtain ⟨-, -, -, hfound, hsame⟩ := suggestion_optimal "PRIN" ["printN", "print", "grin", "print"]
  refine ⟨hnearest, hprint.trans hgrin.symm, ?_, (hsame _ fun t => ?_).1⟩
  · rw [hfound _ hnearest, hgrin]
    rfl
  · simp only [List.mem_cons, List.not_mem_nil, or_false]
    tauto

end Diagnostic

end Goat
