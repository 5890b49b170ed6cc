import Goat.Proofs.Plain
import Mathlib.Data.List.Induction
import Mathlib.Data.List.Infix

/-!
# Folded texts

Loading folds a program text into instructions. `Folds` relates a stretch of text
to the instructions it is folded into, and `load_folds` says that a text whose
brackets pair up can be loaded and is so related to what was loaded.
-/

namespace Goat.Machine

open Plain

/-- The two kinds of commands that are folded into one instruction. -/
inductive RunKind where
  | add
  | move
  deriving DecidableEq

/-- What a character contributes to a run; comments contribute nothing. -/
def RunKind.amount? : RunKind → Character → Option Int
  | _, none => some 0
  | add, some .increment => some 1
  | add, some .decrement => some (-1)
  | move, some .right => some 1
  | move, some .left => some (-1)
  | _, _ => none

theorem RunKind.amount?_none (kind : RunKind) : kind.amount? none = some 0 := by
  cases kind <;> rfl

/-- The instruction of a run. -/
def RunKind.instruction : RunKind → Int → Instruction
  | add => .add
  | move => .move

/-- The characters form a run of some amount. -/
inductive Run (kind : RunKind) : List Character → Int → Prop
  | nil : Run kind [] 0
  | snoc {chars : List Character} {c : Character} {n k : Int} (h : Run kind chars n)
      (hc : kind.amount? c = some k) : Run kind (chars ++ [c]) (n + k)

theorem Run.append {kind : RunKind} {xs ys : List Character} {m n : Int} (hx : Run kind xs m)
    (hy : Run kind ys n) : Run kind (xs ++ ys) (m + n) := by
  induction hy with
  | nil => simpa using hx
  | snoc h hc ih =>
    rw [← List.append_assoc, ← Int.add_assoc]
    exact ih.snoc hc

theorem Run.of_comments (kind : RunKind) {xs : List Character} (h : ∀ c ∈ xs, c = none) :
    Run kind xs 0 := by
  induction xs using List.reverseRecOn with
  | nil => exact .nil
  | append_singleton xs c ih =>
    obtain rfl : c = none := h c (by simp)
    have hxs : Run kind xs 0 := ih fun c hc => h c (by simp [hc])
    exact hxs.snoc kind.amount?_none

/-- A stretch of text is folded into instructions that stand from place `base` on. -/
inductive Folds : List Character → Nat → List Instruction → Prop
  | nil (base : Nat) : Folds [] base []
  | comment (base : Nat) : Folds [none] base []
  | run {kind : RunKind} {chars : List Character} {n : Int} (h : Run kind chars n)
      (hne : chars ≠ []) (base : Nat) : Folds chars base [kind.instruction n]
  | write (base : Nat) : Folds [some .write] base [.write]
  | read (base : Nat) : Folds [some .read] base [.read]
  | clear {c : Command} (hc : c = .decrement ∨ c = .increment) (base : Nat) :
      Folds [some .loopStart, some c, some .loopEnd] base [.clear]
  | loop {body : List Character} {base : Nat} {code : List Instruction}
      (h : Folds body (base + 1) code) :
      Folds (some .loopStart :: body ++ [some .loopEnd]) base
        (.loopStart (base + 1 + code.length) :: code ++ [.loopEnd base])
  | append {xs ys : List Character} {base : Nat} {is js : List Instruction}
      (hx : Folds xs base is) (hy : Folds ys (base + is.length) js) :
      Folds (xs ++ ys) base (is ++ js)

theorem Folds.level {chars : List Character} {base : Nat} {code : List Instruction}
    (h : Folds chars base code) : Level chars := by
  induction h with
  | nil => exact .nil
  | comment => exact .single (by simp) (by simp)
  | @run kind chars n h =>
    clear * - h
    induction h with
    | nil => exact .nil
    | snoc _ hc ih =>
      refine ih.append (.single ?_ ?_)
      · rintro rfl
        cases kind <;> cases hc
      · rintro rfl
        cases kind <;> cases hc
  | write => exact .single (by simp) (by simp)
  | read => exact .single (by simp) (by simp)
  | @clear c hc =>
    have hbody : Level [some c] := by
      rcases hc with rfl | rfl <;> exact .single (by simp) (by simp)
    exact hbody.loop
  | loop _ ih => exact ih.loop
  | append _ _ ihx ihy => exact ihx.append ihy

/-- Text that is folded into nothing is made of comments. -/
theorem Folds.comments {chars : List Character} {base : Nat} {code : List Instruction}
    (h : Folds chars base code) (hcode : code = []) : ∀ c ∈ chars, c = none := by
  induction h with
  | nil => simp
  | comment => simp
  | run => simp at hcode
  | write => simp at hcode
  | read => simp at hcode
  | clear => simp at hcode
  | loop => simp at hcode
  | append _ _ ihx ihy =>
    obtain ⟨hi, hj⟩ := List.append_eq_nil_iff.1 hcode
    intro c hc
    rcases List.mem_append.1 hc with hc | hc
    · exact ihx hi c hc
    · exact ihy hj c hc

theorem RunKind.instruction_injective {kind kind' : RunKind} {m n : Int}
    (h : kind.instruction m = kind'.instruction n) : kind = kind' ∧ m = n := by
  cases kind <;> cases kind' <;> cases h <;> exact ⟨rfl, rfl⟩

theorem RunKind.eq_of_singleton_eq {kind : RunKind} {i : Instruction} {is : List Instruction}
    {n : Int} (h : [i] = is ++ [kind.instruction n]) : is = [] ∧ i = kind.instruction n := by
  rw [← List.nil_append [i]] at h
  obtain ⟨his, hlast⟩ := List.append_inj' h rfl
  exact ⟨his.symm, (List.cons.inj hlast).1⟩

/-- A run at the end of a stretch of text can be continued: the last instruction
    takes up what follows. -/
theorem Folds.extend {chars ys : List Character} {base : Nat} {code is : List Instruction}
    {kind : RunKind} {m n : Int} (h : Folds chars base code)
    (hcode : code = is ++ [kind.instruction m]) (hy : Run kind ys n) :
    Folds (chars ++ ys) base (is ++ [kind.instruction (m + n)]) := by
  induction h generalizing is ys m n with
  | nil => simp at hcode
  | comment => simp at hcode
  | @run kind' chars k hrun hne base =>
    obtain ⟨rfl, hlast⟩ := RunKind.eq_of_singleton_eq hcode
    obtain ⟨rfl, rfl⟩ := RunKind.instruction_injective hlast
    exact .run (hrun.append hy) (by simp [hne]) base
  | write =>
    obtain ⟨_, hlast⟩ := RunKind.eq_of_singleton_eq hcode
    cases kind <;> cases hlast
  | read =>
    obtain ⟨_, hlast⟩ := RunKind.eq_of_singleton_eq hcode
    cases kind <;> cases hlast
  | clear =>
    obtain ⟨_, hlast⟩ := RunKind.eq_of_singleton_eq hcode
    cases kind <;> cases hlast
  | loop =>
    obtain ⟨_, hlast⟩ := List.append_inj' hcode rfl
    cases kind <;> simp [RunKind.instruction] at hlast
  | @append xs zs base is' js hx hz ihx ihz =>
    rcases List.eq_nil_or_concat js with rfl | ⟨js', last, rfl⟩
    · -- What follows the run is made of comments, which become part of it.
      have hcomments : Run kind zs 0 := .of_comments kind (hz.comments rfl)
      have := ihx (by simpa using hcode) (hcomments.append hy)
      rwa [Int.zero_add, ← List.append_assoc] at this
    · rw [List.concat_eq_append, ← List.append_assoc] at hcode
      obtain ⟨rfl, hlast⟩ := List.append_inj' hcode rfl
      have hjs : js'.concat last = js' ++ [kind.instruction m] := by
        rw [List.concat_eq_append, hlast]
      have := ihz hjs hy
      rw [List.append_assoc, List.append_assoc]
      exact hx.append this

/-- What loading has read and kept when it is inside some loops: `starts` are the
    places of their opening brackets, the innermost first, which have no partner yet. -/
inductive Opened : List Character → List Nat → List Instruction → Prop
  | base {xs : List Character} {is : List Instruction} (h : Folds xs 0 is) : Opened xs [] is
  | nest {xs ys : List Character} {starts : List Nat} {is js : List Instruction}
      (h : Opened xs starts is) (hy : Folds ys (is.length + 1) js) :
      Opened (xs ++ some .loopStart :: ys) (is.length :: starts) (is ++ .loopStart 0 :: js)

namespace Opened

variable {xs ys : List Character} {starts : List Nat} {is js : List Instruction}

theorem append (h : Opened xs starts is) (hy : Folds ys is.length js) :
    Opened (xs ++ ys) starts (is ++ js) := by
  cases h with
  | base h =>
    refine .base (h.append ?_)
    rwa [Nat.zero_add]
  | @nest xs zs starts is ks h hz =>
    have hlength : (is ++ Instruction.loopStart 0 :: ks).length = is.length + 1 + ks.length := by
      simp
      omega
    rw [hlength] at hy
    have := h.nest (hz.append hy)
    simpa using this

/-- The last instruction takes up a command of its kind. -/
theorem extend {kind : RunKind} {m n : Int} {c : Character}
    (h : Opened xs starts (is ++ [kind.instruction m])) (hc : kind.amount? c = some n) :
    Opened (xs ++ [c]) starts (is ++ [kind.instruction (m + n)]) := by
  have hrun : Run kind [c] n := by simpa using Run.nil.snoc hc
  generalize hcode : is ++ [kind.instruction m] = code at h
  cases h with
  | base h => exact .base (h.extend hcode.symm hrun)
  | @nest xs zs starts ks ls h hz =>
    rcases List.eq_nil_or_concat ls with rfl | ⟨ls, last, rfl⟩
    · -- An opening bracket is no run.
      obtain ⟨_, hlast⟩ := List.append_inj' hcode rfl
      cases kind <;> simp [RunKind.instruction] at hlast
    · rw [List.concat_eq_append] at hcode hz
      have hsplit :
          ks ++ .loopStart 0 :: (ls ++ [last]) = (ks ++ .loopStart 0 :: ls) ++ [last] := by
        simp
      rw [hsplit] at hcode
      obtain ⟨rfl, hlast⟩ := List.append_inj' hcode rfl
      have hls : ls ++ [last] = ls ++ [kind.instruction m] := by rw [hlast]
      have := h.nest (hz.extend hls hrun)
      simpa using this

theorem openLoop (h : Opened xs starts is) :
    Opened (xs ++ [some .loopStart]) (is.length :: starts) (is ++ [.loopStart 0]) :=
  h.nest (.nil _)

/-- A closing bracket gives the innermost opening bracket its partner. -/
theorem closeLoop {start : Nat} (h : Opened xs (start :: starts) is) :
    Opened (xs ++ [some .loopEnd]) starts
      (is.set start (.loopStart is.length) ++ [.loopEnd start]) := by
  cases h with
  | @nest xs zs starts is js h hz =>
    have := h.append hz.loop
    have hlength : (is ++ Instruction.loopStart 0 :: js).length = is.length + 1 + js.length := by
      simp
      omega
    rw [hlength, List.set_append_right _ _ (Nat.le_refl _)]
    simpa using this

end Opened

/-- What adding a command of a run does to the code. -/
def RunKind.push : RunKind → Array Instruction → Int → Array Instruction
  | add => Code.pushAdd
  | move => Code.pushMove

theorem RunKind.toList_push (kind : RunKind) (code : Array Instruction) (k : Int) :
    (∃ is m, code.toList = is ++ [kind.instruction m] ∧
        (kind.push code k).toList = is ++ [kind.instruction (m + k)]) ∨
      (kind.push code k).toList = code.toList ++ [kind.instruction k] := by
  rcases List.eq_nil_or_concat code.toList with hcode | ⟨is, last, hcode⟩
  · right
    obtain rfl : code = #[] := by simpa using hcode
    cases kind <;> rfl
  · rw [List.concat_eq_append] at hcode
    obtain rfl : code = (is.toArray.push last) := by
      apply Array.ext'
      simpa using hcode
    cases kind <;> cases last <;>
      simp [push, Code.pushAdd, Code.pushMove, RunKind.instruction]

theorem Opened.push {xs : List Character} {starts : List Nat} {code : Array Instruction}
    {c : Character} {k : Int} (h : Opened xs starts code.toList) (kind : RunKind)
    (hc : kind.amount? c = some k) : Opened (xs ++ [c]) starts (kind.push code k).toList := by
  rcases kind.toList_push code k with ⟨is, m, hcode, hpush⟩ | hpush
  · rw [hpush]
    rw [hcode] at h
    exact h.extend hc
  · rw [hpush]
    have hrun : Run kind [c] k := by simpa using Run.nil.snoc hc
    exact h.append (.run hrun (by simp) _)

/-- The brackets of the commands pair up when `depth` loops are open in front of
    them. -/
def Closes (depth : Nat) (code : List Command) : Prop :=
  (∀ head, head <+: code → head.count .loopEnd ≤ depth + head.count .loopStart) ∧
    code.count .loopEnd = depth + code.count .loopStart

/-- The brackets of the commands pair up: no closing bracket comes before its
    partner, and there are as many of either kind. -/
def Balanced (code : List Command) : Prop :=
  (∀ head, head <+: code → head.count .loopEnd ≤ head.count .loopStart) ∧
    code.count .loopEnd = code.count .loopStart

instance (code : List Command) : Decidable (Balanced code) :=
  decidable_of_iff ((∀ head ∈ code.inits, head.count .loopEnd ≤ head.count .loopStart) ∧
    code.count .loopEnd = code.count .loopStart) (by simp only [List.mem_inits, Balanced])

theorem Balanced.closes {code : List Command} (h : Balanced code) : Closes 0 code := by
  simpa [Closes, Balanced] using h

namespace Closes

variable {depth : Nat} {code : List Command} {c : Command}

theorem of_cons_start (h : Closes depth (.loopStart :: code)) : Closes (depth + 1) code := by
  obtain ⟨hheads, hall⟩ := h
  refine ⟨fun head hhead => ?_, ?_⟩
  · have := hheads (.loopStart :: head) (List.cons_prefix_cons.2 ⟨rfl, hhead⟩)
    simp only [List.count_cons, beq_iff_eq, reduceCtorEq, if_false, if_true] at this
    omega
  · simp only [List.count_cons, beq_iff_eq, reduceCtorEq, if_false, if_true] at hall
    omega

theorem of_cons_end (h : Closes depth (.loopEnd :: code)) :
    ∃ outer, depth = outer + 1 ∧ Closes outer code := by
  obtain ⟨hheads, hall⟩ := h
  have hfirst := hheads [.loopEnd] (List.cons_prefix_cons.2 ⟨rfl, List.nil_prefix⟩)
  simp only [List.count_cons, beq_iff_eq, reduceCtorEq, if_false, if_true, List.count_nil] at hfirst
  refine ⟨depth - 1, by omega, fun head hhead => ?_, ?_⟩
  · have := hheads (.loopEnd :: head) (List.cons_prefix_cons.2 ⟨rfl, hhead⟩)
    simp only [List.count_cons, beq_iff_eq, reduceCtorEq, if_false, if_true] at this
    omega
  · simp only [List.count_cons, beq_iff_eq, reduceCtorEq, if_false, if_true] at hall
    omega

theorem of_cons (hs : c ≠ .loopStart) (he : c ≠ .loopEnd) (h : Closes depth (c :: code)) :
    Closes depth code := by
  obtain ⟨hheads, hall⟩ := h
  refine ⟨fun head hhead => ?_, ?_⟩
  · have := hheads (c :: head) (List.cons_prefix_cons.2 ⟨rfl, hhead⟩)
    simpa only [List.count_cons, beq_iff_eq, hs, he, if_false, Nat.add_zero] using this
  · simpa only [List.count_cons, beq_iff_eq, hs, he, if_false, Nat.add_zero] using hall

/-- A loop around a single command is closed as soon as it is opened. -/
theorem of_loop (hs : c ≠ .loopStart) (he : c ≠ .loopEnd)
    (h : Closes depth (.loopStart :: c :: .loopEnd :: code)) : Closes depth code := by
  obtain ⟨outer, hdepth, hrest⟩ := (h.of_cons_start.of_cons hs he).of_cons_end
  obtain rfl := Nat.succ.inj hdepth
  exact hrest

end Closes

/-- The commands among some characters. -/
def commandsOf (chars : List Character) : List Command := chars.filterMap id

/-- Loading goes through if the brackets pair up, and folds the text. -/
theorem loadFrom_folds (offset : Nat) (starts : List Nat) (code : Array Instruction)
    (chars seen : List Character) (hopen : Opened seen starts code.toList)
    (hcloses : Closes starts.length (commandsOf chars)) :
    ∃ result, Code.loadFrom offset starts code chars = .ok result ∧
      Folds (seen ++ chars) 0 result.instructions.toList := by
  fun_induction Code.loadFrom offset starts code chars generalizing seen with
  | case1 offset starts code hempty =>
    obtain rfl := List.isEmpty_iff.1 hempty
    cases hopen with
    | base h => exact ⟨⟨code⟩, rfl, by simpa using h⟩
  | case2 offset starts code hne =>
    have := hcloses.2
    simp only [commandsOf, List.filterMap_nil, List.count_nil] at this
    have hstarts : starts = [] := List.length_eq_zero_iff.1 (by omega)
    simp [hstarts] at hne
  | case3 offset starts code rest ih =>
    have := ih (seen ++ [some .loopStart, some .decrement, some .loopEnd])
      (by simpa using hopen.append (.clear (.inl rfl) _)) (hcloses.of_loop (by simp) (by simp))
    simpa using this
  | case4 offset starts code rest ih =>
    have := ih (seen ++ [some .loopStart, some .increment, some .loopEnd])
      (by simpa using hopen.append (.clear (.inr rfl) _)) (hcloses.of_loop (by simp) (by simp))
    simpa using this
  | case5 offset starts code rest ih =>
    have := ih (seen ++ [none]) (by simpa using hopen.append (.comment _)) hcloses
    simpa using this
  | case6 offset starts code rest _ _ ih =>
    have := ih (seen ++ [some .increment]) (hopen.push .add rfl)
      (hcloses.of_cons (by simp) (by simp))
    simpa using this
  | case7 offset starts code rest _ _ ih =>
    have := ih (seen ++ [some .decrement]) (hopen.push .add rfl)
      (hcloses.of_cons (by simp) (by simp))
    simpa using this
  | case8 offset starts code rest _ _ ih =>
    have := ih (seen ++ [some .right]) (hopen.push .move rfl)
      (hcloses.of_cons (by simp) (by simp))
    simpa using this
  | case9 offset starts code rest _ _ ih =>
    have := ih (seen ++ [some .left]) (hopen.push .move rfl)
      (hcloses.of_cons (by simp) (by simp))
    simpa using this
  | case10 offset starts code rest _ _ ih =>
    have := ih (seen ++ [some .write]) (by simpa using hopen.append (.write _))
      (hcloses.of_cons (by simp) (by simp))
    simpa using this
  | case11 offset starts code rest _ _ ih =>
    have := ih (seen ++ [some .read]) (by simpa using hopen.append (.read _))
      (hcloses.of_cons (by simp) (by simp))
    simpa using this
  | case12 offset starts code rest _ _ ih =>
    have := ih (seen ++ [some .loopStart]) (by simpa using hopen.openLoop) hcloses.of_cons_start
    simpa using this
  | case13 offset code rest =>
    obtain ⟨outer, hdepth, _⟩ := hcloses.of_cons_end
    simp at hdepth
  | case14 offset code rest start starts code' _ _ ih =>
    obtain ⟨outer, hdepth, hrest⟩ := hcloses.of_cons_end
    obtain rfl := Nat.succ.inj hdepth
    have := ih (seen ++ [some .loopEnd]) (by simpa [code'] using hopen.closeLoop) hrest
    simpa using this

/-- A text whose brackets pair up can be loaded, and is folded into what was loaded. -/
theorem load_folds {text : Text} (h : Balanced (Command.ofText text)) :
    ∃ code, Code.load text = .ok code ∧ Folds (characters text) 0 code.instructions.toList := by
  have hcommands : commandsOf (characters text) = Command.ofText text := by
    simp [commandsOf, characters, Command.ofText, List.filterMap_map]
  exact loadFrom_folds 0 [] #[] (characters text) [] (.base (.nil 0))
    (by simpa [hcommands] using h.closes)

end Goat.Machine
