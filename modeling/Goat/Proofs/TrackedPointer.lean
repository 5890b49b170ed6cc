import Goat.Proofs.BracketPairs
import Goat.Proofs.FoldedRun
import Goat.Tape.Builder

/-!
# The tracked pointer

A builder tracks the data pointer through the code it writes. A machine that runs this code stands,
whatever its tape and input, where the builder had the pointer when it wrote the place that the
machine has come to: on the cell of a loop whenever the loop is tested, and at the end of the code
on the tracked pointer.

A text tells where the pointer stands at each of its characters if every loop is closed on the cell
on which it was opened. `Trail.follow?` goes through a text and checks this. In what is loaded from
such a text the moves between a bracket and its partner cancel out, so the pointer at a place is
given by the moves before it, `Code.pointerAt`, however often loops are repeated or skipped.
-/

namespace Goat

open Plain (Character)

/-! ### Pointers through a text -/

/-- Where the pointer stands after some characters, as far as these tell. -/
@[ext]
structure Trail where
  pointer : Int
  /-- For every loop that is open, the innermost first, its cell. -/
  opened : List Int
  /-- The cells of all loops so far, in the order of their opening brackets. -/
  cells : List Int

namespace Trail

/-- Goes past a character. A loop can be closed on its own cell only. -/
def next? (t : Trail) : Character → Option Trail
  | some .right => some { t with pointer := t.pointer + 1 }
  | some .left => some { t with pointer := t.pointer - 1 }
  | some .loopStart => some ⟨t.pointer, t.pointer :: t.opened, t.cells ++ [t.pointer]⟩
  | some .loopEnd =>
    match t.opened with
    | cell :: outer => if cell = t.pointer then some { t with opened := outer } else none
    | [] => none
  | _ => some t

/-- Goes past some characters. -/
def follow? (t : Trail) : List Character → Option Trail
  | [] => some t
  | c :: rest => (t.next? c).bind fun t => t.follow? rest

variable {t t' : Trail}

theorem follow?_append (t : Trail) (xs ys : List Character) :
    t.follow? (xs ++ ys) = (t.follow? xs).bind fun t => t.follow? ys := by
  induction xs generalizing t with
  | nil => rfl
  | cons c xs ih =>
    rw [List.cons_append, follow?, follow?, Option.bind_assoc]
    exact congrArg _ (funext ih)

theorem follow?_singleton (t : Trail) (c : Character) : t.follow? [c] = t.next? c := by
  simp [follow?]

/-- A closing bracket is passed on the cell of the innermost loop. -/
theorem next?_loopEnd (h : t.next? (some .loopEnd) = some t') :
    t.opened = t.pointer :: t'.opened ∧ t'.pointer = t.pointer ∧ t'.cells = t.cells := by
  rcases t with ⟨p, _ | ⟨cell, outer⟩, cells⟩
  · cases h
  · have hclosed : (if cell = p then some ⟨p, outer, cells⟩ else none) = some t' := h
    split at hclosed
    · rename_i hcell
      cases hclosed
      exact ⟨by rw [hcell], rfl, rfl⟩
    · cases hclosed

/-- As many loops are open as brackets are left without a partner. -/
theorem count_of_follow {code : List Command} (h : t.follow? (code.map some) = some t') :
    code.count .loopEnd + t'.opened.length = t.opened.length + code.count .loopStart := by
  induction code generalizing t with
  | nil =>
    cases h
    simp
  | cons c code ih =>
    obtain ⟨t₁, hnext, hrest⟩ := Option.bind_eq_some_iff.1 h
    have hcount := ih hrest
    cases c with
    | loopStart =>
      cases hnext
      simp only [List.count_cons_self, List.length_cons, reduceCtorEq, ne_eq, not_false_eq_true,
        List.count_cons_of_ne] at hcount ⊢
      omega
    | loopEnd =>
      have hopened := congrArg List.length (next?_loopEnd hnext).1
      simp only [List.count_cons_self, List.length_cons, reduceCtorEq, ne_eq, not_false_eq_true,
        List.count_cons_of_ne] at hopened ⊢
      omega
    | _ =>
      cases hnext
      simpa using hcount

/-- The brackets of a text pair up if the pointer can be followed through it and no loop is open
    before or after it. -/
theorem balanced_of_follow {code : List Command} (h : t.follow? (code.map some) = some t')
    (hstart : t.opened = []) (hend : t'.opened = []) : Machine.Balanced code := by
  constructor
  · rintro head ⟨tail, rfl⟩
    rw [List.map_append, follow?_append] at h
    obtain ⟨t₁, hhead, -⟩ := Option.bind_eq_some_iff.1 h
    have hcount := count_of_follow hhead
    rw [hstart] at hcount
    simp only [List.length_nil] at hcount
    omega
  · simpa [hstart, hend] using count_of_follow h

end Trail

/-! ### Pointers through loaded code -/

namespace Machine

/-- How far the moves among some instructions lead. -/
def drift : List Instruction → Int
  | [] => 0
  | .move distance :: rest => distance + drift rest
  | _ :: rest => drift rest

/-- The instruction starts a loop, or is a whole one. -/
def Instruction.opensLoop : Instruction → Bool
  | .loopStart _ => true
  | .clear => true
  | _ => false

/-- The cells of the loops among some instructions, if the pointer is on cell `p` in front of them
    and no loop changes it. -/
def loopCells (p : Int) : List Instruction → List Int
  | [] => []
  | i :: rest => if i.opensLoop then p :: loopCells p rest else loopCells (p + drift [i]) rest

theorem drift_append (is js : List Instruction) : drift (is ++ js) = drift is + drift js := by
  induction is with
  | nil => simp [drift]
  | cons i is ih => cases i <;> simp [drift, ih, Int.add_assoc]

theorem drift_of_opensLoop {i : Instruction} (h : i.opensLoop = true) : drift [i] = 0 := by
  cases i <;> first | rfl | cases h

theorem loopCells_append (p : Int) (is js : List Instruction) :
    loopCells p (is ++ js) = loopCells p is ++ loopCells (p + drift is) js := by
  induction is generalizing p with
  | nil => simp [loopCells, drift]
  | cons i is ih =>
    have hdrift : p + drift (i :: is) = p + drift [i] + drift is := by
      rw [← List.singleton_append, drift_append, Int.add_assoc]
    rw [hdrift, List.cons_append, loopCells, loopCells]
    split
    · rename_i hopens
      rw [ih, drift_of_opensLoop hopens, Int.add_zero, List.cons_append]
    · rw [ih]

theorem length_loopCells (p : Int) (is : List Instruction) :
    (loopCells p is).length = is.countP Instruction.opensLoop := by
  induction is generalizing p with
  | nil => rfl
  | cons i is ih =>
    rw [loopCells, List.countP_cons]
    split
    · rw [List.length_cons, ih]
    · rw [ih, Nat.add_zero]

section Folded

variable {t t' : Trail} {chars body : List Character} {base : Nat} {is : List Instruction}

/-- A run leads as far as the instruction it is folded into. -/
theorem Run.follow {kind : RunKind} {n : Int} (h : Run kind chars n) (t : Trail) :
    t.follow? chars = some { t with pointer := t.pointer + drift [kind.instruction n] } := by
  induction h with
  | nil => cases kind <;> simp [Trail.follow?, RunKind.instruction, drift]
  | @snoc chars c n k _ hc ih =>
    rw [Trail.follow?_append, ih, Option.bind_some, Trail.follow?_singleton]
    cases kind with
    | add =>
      rcases c with _ | c
      · rfl
      · cases c <;> cases hc <;> rfl
    | move =>
      rcases c with _ | c
      · cases hc
        simp [Trail.next?, RunKind.instruction]
      · cases c <;> cases hc <;> simp [Trail.next?, RunKind.instruction, drift] <;> omega

/-- Going past a loop is going through its body, from its cell and back to it. -/
theorem follow_loop (h : t.follow? (some .loopStart :: body ++ [some .loopEnd]) = some t') :
    ∃ t₁, Trail.follow? ⟨t.pointer, t.pointer :: t.opened, t.cells ++ [t.pointer]⟩ body = some t₁ ∧
      t₁.opened = t₁.pointer :: t'.opened ∧ t'.pointer = t₁.pointer ∧ t'.cells = t₁.cells := by
  rw [List.cons_append, Trail.follow?, Trail.next?, Option.bind_some, Trail.follow?_append] at h
  obtain ⟨t₁, hbody, hclose⟩ := Option.bind_eq_some_iff.1 h
  rw [Trail.follow?_singleton] at hclose
  exact ⟨t₁, hbody, Trail.next?_loopEnd hclose⟩

/-- A text leads as far as the instructions it is folded into, and its loops are theirs. -/
theorem Folds.follow (h : Folds chars base is) (ht : t.follow? chars = some t') :
    t' = ⟨t.pointer + drift is, t.opened, t.cells ++ loopCells t.pointer is⟩ := by
  induction h generalizing t t' with
  | nil | comment | write | read =>
    cases ht
    simp [drift, loopCells, Instruction.opensLoop]
  | @run kind chars n hrun =>
    rw [hrun.follow] at ht
    cases ht
    cases kind <;> simp [RunKind.instruction, loopCells, Instruction.opensLoop]
  | @clear c hc base =>
    rcases hc with rfl | rfl
    · simp [Trail.follow?, Trail.next?] at ht
      simp [← ht, drift, loopCells, Instruction.opensLoop]
    · simp [Trail.follow?, Trail.next?] at ht
      simp [← ht, drift, loopCells, Instruction.opensLoop]
  | @loop body base code _ ih =>
    obtain ⟨t₁, hbody, hopened, hpointer, hcells⟩ := follow_loop ht
    have ht₁ := ih hbody
    subst ht₁
    obtain ⟨hzero, houter⟩ := List.cons.inj hopened
    have hdrift : drift (.loopStart (base + 1 + code.length) :: code ++ [.loopEnd base]) =
        drift code := by
      rw [drift_append]
      exact Int.add_zero _
    ext1
    · rw [hpointer, hdrift]
    · exact houter.symm
    · rw [hcells, loopCells_append]
      simp [loopCells, Instruction.opensLoop]
  | append _ _ ihx ihy =>
    rw [Trail.follow?_append] at ht
    obtain ⟨t₁, hx, hy⟩ := Option.bind_eq_some_iff.1 ht
    have ht₁ := ihx hx
    subst ht₁
    rw [ihy hy, drift_append, loopCells_append, Int.add_assoc, List.append_assoc]

/-- The moves in a loop whose pointer can be followed cancel out. -/
theorem Folds.drift_body (h : Folds body base is)
    (ht : t.follow? (some .loopStart :: body ++ [some .loopEnd]) = some t') : drift is = 0 := by
  obtain ⟨t₁, hbody, hopened, -⟩ := follow_loop ht
  have ht₁ := h.follow hbody
  subst ht₁
  have := (List.cons.inj hopened).1
  simp only at this
  omega

end Folded

/-- Where the pointer is at a place of the code, if it is on cell `p` at its start and no loop
    changes it. -/
def Code.pointerAt (p : Int) (code : Code) (place : Nat) : Int :=
  p + drift (code.instructions.toList.take place)

section PointerAt

variable {p : Int} {code : Code} {place base : Nat} {i : Instruction} {is : List Instruction}

theorem Code.pointerAt_succ (h : code.instructions[place]? = some i) :
    code.pointerAt p (place + 1) = code.pointerAt p place + drift [i] := by
  rw [pointerAt, pointerAt, List.take_add_one, Array.getElem?_toList, h, Option.toList_some,
    drift_append, Int.add_assoc]

theorem Code.pointerAt_succ_of_stays (h : code.instructions[place]? = some i)
    (hstays : drift [i] = 0) : code.pointerAt p (place + 1) = code.pointerAt p place := by
  rw [pointerAt_succ h, hstays, Int.add_zero]

theorem Code.pointerAt_past_end (h : code.instructions[place]? = none) :
    code.pointerAt p place = p + drift code.instructions.toList := by
  rw [pointerAt, List.take_of_length_le (by simpa using h)]

theorem Code.HoldsAt.pointerAt_add (h : code.HoldsAt base is) :
    code.pointerAt p (base + is.length) = code.pointerAt p base + drift is := by
  induction is generalizing base with
  | nil => simp [drift]
  | cons i is ih =>
    have hrest : code.HoldsAt (base + 1) is := by
      rw [← List.singleton_append] at h
      exact h.right
    have hlength : base + (i :: is).length = base + 1 + is.length := by
      rw [List.length_cons]
      omega
    rw [hlength, ih hrest, Code.pointerAt_succ h.head, Int.add_assoc, ← drift_append,
      List.singleton_append]

/-- The pointer is on the same cell at an opening bracket and at its partner. -/
theorem Folds.pointerAt_partner {chars : List Character} {t t' : Trail} {a b : Nat}
    (h : Folds chars base is) (hcode : code.HoldsAt base is) (ht : t.follow? chars = some t')
    (ha : placed base is a = some (.loopStart b)) : code.pointerAt p b = code.pointerAt p a := by
  induction h generalizing t t' with
  | nil => simp at ha
  | comment => simp at ha
  | @run kind => cases kind <;> cases (placed_singleton.1 ha).2
  | write => cases (placed_singleton.1 ha).2
  | read => cases (placed_singleton.1 ha).2
  | clear => cases (placed_singleton.1 ha).2
  | @loop body base is hbody ih =>
    have hinner : code.HoldsAt (base + 1) is := by
      have hleft := hcode.left
      rw [← List.singleton_append] at hleft
      exact hleft.right
    rcases LinkedFrom.placed_loop.1 ha with ⟨rfl, hb⟩ | ha | ⟨-, hb⟩
    · cases hb
      rw [hinner.pointerAt_add, hbody.drift_body ht, Int.add_zero,
        Code.pointerAt_succ_of_stays hcode.left.head rfl]
    · obtain ⟨t₁, hfollow, -⟩ := follow_loop ht
      exact ih hinner hfollow ha
    · cases hb
  | append _ _ ihx ihy =>
    rw [Trail.follow?_append] at ht
    obtain ⟨t₁, hx, hy⟩ := Option.bind_eq_some_iff.1 ht
    rcases placed_append.1 ha with ha | ha
    · exact ihx hcode.left hx ha
    · exact ihy hcode.right hy ha

end PointerAt

/-- The pointer can be read off the code: it is on cell `p` at the start and on cell `q` at the end,
    the loops are on `cells`, and a bracket is on the same cell as its partner. -/
structure Code.Charted (code : Code) (p q : Int) (cells : List Int) : Prop where
  linked : code.Linked
  pointerAt_partner : ∀ a b : Nat, code.instructions[a]? = some (.loopStart b) →
    code.pointerAt p b = code.pointerAt p a
  drift_eq : p + drift code.instructions.toList = q
  loopCells_eq : loopCells p code.instructions.toList = cells

/-- A text through which the pointer can be followed is loaded into code off which it can be
    read. -/
theorem exists_charted {text : List Command} {p q : Int} {cells : List Int}
    (h : Trail.follow? ⟨p, [], []⟩ (text.map some) = some ⟨q, [], cells⟩) :
    ∃ code, Code.load (Command.toText text) = .ok code ∧ code.Charted p q cells := by
  have hbalanced : Balanced (Command.ofText (Command.toText text)) := by
    rw [Command.ofText_toText]
    exact Trail.balanced_of_follow h rfl rfl
  obtain ⟨code, hload, hfolds⟩ := load_folds hbalanced
  rw [← Plain.characters_toText] at h
  have htrail := hfolds.follow h
  simp only [Trail.mk.injEq, true_and, List.nil_append] at htrail
  refine ⟨code, hload, linked_of_load hload, fun a b ha => ?_, htrail.1.symm, htrail.2.symm⟩
  exact hfolds.pointerAt_partner code.holdsAt_self h (by simpa [placed] using ha)

/-! ### The pointer of a machine -/

section Machines

variable {code : Code} {p q : Int} {cells : List Int} {m m' : Machine} {pc next : Nat}
  {i : Instruction}

theorem pointer_read (m : Machine) : m.read.pointer = m.pointer := by
  unfold read
  cases m.input <;> rfl

theorem destination_eq {distance : Int} {target : Nat} (h : m.destination distance = .ok target) :
    (target : Int) = m.pointer + distance := by
  unfold destination at h
  simp only at h
  split at h
  · cases h
  · split at h
    · split at h
      · cases h
      · cases h
        omega
    · cases h
      omega

/-- Every instruction takes the pointer to where it is read off the code at the next place. -/
theorem Code.Charted.execute (h : code.Charted p q cells) (hi : code.instructions[pc]? = some i)
    (hm : (m.pointer : Int) = code.pointerAt p pc) (he : m.execute pc i = (.ok next, m')) :
    (m'.pointer : Int) = code.pointerAt p next := by
  have hstays (hdrift : drift [i] = 0) : (m.pointer : Int) = code.pointerAt p (pc + 1) := by
    rw [Code.pointerAt_succ_of_stays hi hdrift, hm]
  cases i with
  | add amount =>
    cases he
    exact hstays rfl
  | move distance =>
    rw [Machine.execute] at he
    cases hd : m.destination distance with
    | error fault =>
      rw [hd] at he
      cases he
    | ok target =>
      rw [hd] at he
      cases he
      have hdrift : drift [.move distance] = distance := Int.add_zero distance
      rw [Code.pointerAt_succ hi, hdrift, ← hm]
      exact destination_eq hd
  | write =>
    cases he
    exact hstays rfl
  | read =>
    cases he
    rw [pointer_read]
    exact hstays rfl
  | clear =>
    cases he
    exact hstays rfl
  | loopStart partner =>
    cases he
    split
    · have hpartner := (h.linked.partner pc partner).1 hi
      rw [Code.pointerAt_succ_of_stays hpartner rfl, h.pointerAt_partner pc partner hi, hm]
    · exact hstays rfl
  | loopEnd partner =>
    cases he
    split
    · exact hstays rfl
    · have hpartner := (h.linked.partner partner pc).2 hi
      rw [Code.pointerAt_succ_of_stays hpartner rfl, ← h.pointerAt_partner partner pc hpartner, hm]

/-- A run has stopped where the pointer is read off the code. -/
structure StopsOnTrack (code : Code) (p q : Int) (result : Outcome × Machine) : Prop where
  finished : result.1 = .finished → (result.2.pointer : Int) = q
  place : ∀ next, result.1 = .outOfFuel next → (result.2.pointer : Int) = code.pointerAt p next

/-- So every run does, from any place of the code. -/
theorem Code.Charted.runFrom (h : code.Charted p q cells) (pending : Option Interruption)
    (fuel pc : Nat) (hm : (m.pointer : Int) = code.pointerAt p pc) :
    StopsOnTrack code p q (runFrom code pending fuel pc m) := by
  refine runFrom_induction
    (motive := fun _ pc m result => (m.pointer : Int) = code.pointerAt p pc →
      StopsOnTrack code p q result) ?_ ?_ ?_ ?_ ?_ fuel pc m hm
  · intro fuel pc m hi hm
    rw [Code.pointerAt_past_end hi, h.drift_eq] at hm
    exact ⟨fun _ => hm, by simp⟩
  · intro pc m i _ hm
    refine ⟨by simp, fun next hnext => ?_⟩
    cases hnext
    exact hm
  · intro fuel pc m i fault _ _ _
    exact ⟨by simp, by simp⟩
  · intro fuel pc m i fault m' _ _ _ _
    exact ⟨by simp, by simp⟩
  · intro fuel pc m i next m' hi _ he ih hm
    have hcounted : (m.counted.pointer : Int) = code.pointerAt p pc := hm
    exact ih (h.execute hi hcounted he)

theorem Code.Charted.runInterrupted (h : code.Charted p q cells) (hm : (m.pointer : Int) = p)
    (patience fuel : Nat) (cause : Interruption) :
    StopsOnTrack code p q (m.runInterrupted code patience fuel cause) := by
  have hstart : (m.pointer : Int) = code.pointerAt p 0 := hm.trans (Int.add_zero p).symm
  have hfirst : StopsOnTrack code p q (m.run code patience) := h.runFrom none patience 0 hstart
  unfold Machine.runInterrupted
  rcases hrun : m.run code patience with ⟨outcome, m₁⟩
  rw [hrun] at hfirst
  cases outcome with
  | outOfFuel next => exact h.runFrom (some cause) fuel next (hfirst.place next rfl)
  | finished => exact hfirst
  | failed fault => exact hfirst

/-- The number of loops that start before a place of the code. -/
def Code.loopsBefore (code : Code) (place : Nat) : Nat :=
  (code.instructions.toList.take place).countP Instruction.opensLoop

/-- The loop whose cell is looked at by the instruction at a place of the code: the number of loops
    that start before it. The instruction that clears a cell is a loop of its own. -/
def Code.tested? (code : Code) (place : Nat) : Option Nat :=
  match code.instructions[place]? with
  | some (.loopStart _) => some (code.loopsBefore place)
  | some (.loopEnd start) => some (code.loopsBefore start)
  | some .clear => some (code.loopsBefore place)
  | _ => none

theorem Code.Charted.getElem?_cells (h : code.Charted p q cells)
    (hi : code.instructions[pc]? = some i) (hopens : i.opensLoop = true) :
    cells[code.loopsBefore pc]? = some (code.pointerAt p pc) := by
  obtain ⟨hpc, hget⟩ := Array.getElem?_eq_some_iff.1 hi
  have hsplit : code.instructions.toList =
      code.instructions.toList.take pc ++ i :: code.instructions.toList.drop (pc + 1) := by
    rw [← hget, ← Array.getElem_toList, List.cons_getElem_drop_succ, List.take_append_drop]
  rw [← h.loopCells_eq, hsplit, loopCells_append, Code.loopsBefore, ← length_loopCells p,
    List.getElem?_append_right (Nat.le_refl _), Nat.sub_self, loopCells, if_pos hopens]
  rfl

/-- A loop is on the cell where the pointer is read off the code when the loop is tested. -/
theorem Code.Charted.cell_of_tested (h : code.Charted p q cells) {n : Nat}
    (htest : code.tested? pc = some n) : cells[n]? = some (code.pointerAt p pc) := by
  unfold Code.tested? at htest
  split at htest
  · rename_i partner hi
    cases htest
    exact h.getElem?_cells hi rfl
  · rename_i start hi
    cases htest
    have hstart := (h.linked.partner start pc).2 hi
    rw [h.pointerAt_partner start pc hstart]
    exact h.getElem?_cells hstart rfl
  · rename_i hi
    cases htest
    exact h.getElem?_cells hi rfl
  · cases htest

/-- Every loop among some instructions starts somewhere, behind the loops that are counted before
    it. -/
theorem exists_opensLoop {is : List Instruction} {n : Nat}
    (hn : n < is.countP Instruction.opensLoop) :
    ∃ place i, is[place]? = some i ∧ i.opensLoop = true ∧
      (is.take place).countP Instruction.opensLoop = n := by
  induction is generalizing n with
  | nil => cases hn
  | cons i is ih =>
    rw [List.countP_cons] at hn
    by_cases hfirst : i.opensLoop = true ∧ n = 0
    · exact ⟨0, i, rfl, hfirst.1, hfirst.2.symm⟩
    · obtain ⟨place, j, hj, hopens, hcount⟩ :=
        ih (n := n - if i.opensLoop = true then 1 else 0) (by grind)
      refine ⟨place + 1, j, hj, hopens, ?_⟩
      rw [List.take_succ_cons, List.countP_cons, hcount]
      grind

/-- The loops that are tested are those that have a cell. -/
theorem Code.Charted.lt_length_iff_tested (h : code.Charted p q cells) (n : Nat) :
    n < cells.length ↔ ∃ place, code.tested? place = some n := by
  constructor
  · intro hn
    rw [← h.loopCells_eq, length_loopCells] at hn
    obtain ⟨place, i, hi, hopens, hcount⟩ := exists_opensLoop hn
    rw [Array.getElem?_toList] at hi
    refine ⟨place, ?_⟩
    unfold Code.tested?
    rw [hi]
    cases i with
    | loopStart | clear => exact congrArg some hcount
    | _ => cases hopens
  · rintro ⟨place, htest⟩
    exact (List.getElem?_eq_some_iff.1 (h.cell_of_tested htest)).1

end Machines

end Machine

/-! ### What a builder writes -/

open Machine (Run RunKind drift openBracket closeBracket)

/-- `b'` is `b` after some code was written. The tracked pointer is the one that the code leads to,
    and the loops in the code are on `cells`. -/
def Builder.LeadsTo (b b' : Builder) (cells : List Int) : Prop :=
  ∃ piece, b'.code.toList = b.code.toList ++ piece ∧
    ∀ opened found, Trail.follow? ⟨b.layout.pointer, opened, found⟩ (piece.map some) =
      some ⟨b'.layout.pointer, opened, found ++ cells⟩

theorem run_replicate {kind : RunKind} {c : Character} {k : Int} (hc : kind.amount? c = some k)
    (n : Nat) : Run kind (List.replicate n c) (n * k) := by
  induction n with
  | zero => simpa using Run.nil
  | succ n ih =>
    have hsum : ((n + 1 : Nat) : Int) * k = n * k + k := by
      rw [Int.natCast_succ, Int.add_mul, Int.one_mul]
    rw [List.replicate_succ', hsum]
    exact ih.snoc hc

/-- The commands that bring the pointer to a cell are a run. -/
theorem run_moves (p q : Int) : Run .move ((Layout.moves p q).map some) (q - p) := by
  have hright : RunKind.move.amount? (some .right) = some 1 := rfl
  have hleft : RunKind.move.amount? (some .left) = some (-1) := rfl
  unfold Layout.moves
  split
  · obtain ⟨n, hn⟩ := Int.eq_ofNat_of_zero_le (show 0 ≤ q - p by omega)
    rw [List.map_replicate, hn, Int.toNat_natCast]
    simpa using run_replicate hright n
  · obtain ⟨n, hn⟩ := Int.eq_ofNat_of_zero_le (show 0 ≤ p - q by omega)
    have hdistance : q - p = n * (-1) := by omega
    rw [List.map_replicate, hn, Int.toNat_natCast, hdistance]
    exact run_replicate hleft n

namespace Builder.LeadsTo

variable {b b₁ b₂ : Builder} {cells more : List Int}

theorem refl (b : Builder) : b.LeadsTo b [] := ⟨[], by simp, by simp [Trail.follow?]⟩

theorem trans (h₁ : b.LeadsTo b₁ cells) (h₂ : b₁.LeadsTo b₂ more) :
    b.LeadsTo b₂ (cells ++ more) := by
  obtain ⟨piece₁, hcode₁, hfollow₁⟩ := h₁
  obtain ⟨piece₂, hcode₂, hfollow₂⟩ := h₂
  refine ⟨piece₁ ++ piece₂, by rw [hcode₂, hcode₁, List.append_assoc], fun opened found => ?_⟩
  rw [List.map_append, Trail.follow?_append, hfollow₁, Option.bind_some, hfollow₂,
    List.append_assoc]

/-- A run of commands of one kind. -/
theorem of_run {kind : RunKind} {n : Int} {piece : List Command} (h : Run kind (piece.map some) n)
    (hcode : b₁.code.toList = b.code.toList ++ piece)
    (hpointer : b₁.layout.pointer = b.layout.pointer + drift [kind.instruction n]) :
    b.LeadsTo b₁ [] := by
  refine ⟨piece, hcode, fun opened found => ?_⟩
  rw [h.follow, hpointer, List.append_nil]

/-- A command that is no bracket. -/
theorem push {c : Command} (hs : c ≠ .loopStart) (he : c ≠ .loopEnd) (b : Builder) :
    b.LeadsTo (b.push c) [] := by
  refine ⟨[c], by simp [Builder.push], fun opened found => ?_⟩
  rw [List.map_singleton, Trail.follow?_singleton, List.append_nil]
  cases c with
  | loopStart => contradiction
  | loopEnd => contradiction
  | _ => rfl

theorem emit {code : List Command} (hcode : ∀ c ∈ code, c ≠ .loopStart ∧ c ≠ .loopEnd)
    (b : Builder) : b.LeadsTo (b.emit code) [] := by
  induction code generalizing b with
  | nil => exact refl b
  | cons c code ih =>
    obtain ⟨⟨hs, he⟩, hrest⟩ := List.forall_mem_cons.1 hcode
    exact (push hs he b).trans (ih hrest (b.push c))

theorem moveTo (b : Builder) (cell : Int) : b.LeadsTo (b.moveTo cell) [] := by
  refine of_run (run_moves b.layout.pointer cell) (by simp [Builder.moveTo, Layout.moveTo]) ?_
  simp only [Builder.moveTo, Layout.moveTo, RunKind.instruction, drift]
  omega

theorem add (b : Builder) (cell n : Int) : b.LeadsTo (b.add cell n) [] := by
  have happend {c : Command} {k : Int} (hc : RunKind.add.amount? (some c) = some k) (n : Nat) :
      b.LeadsTo ((b.moveTo cell).append (List.replicate n c)) [] := by
    have hrun : Run .add ((List.replicate n c).map some) (n * k) := by
      rw [List.map_replicate]
      exact run_replicate hc n
    exact (moveTo b cell).trans (of_run hrun (by simp [Builder.append]) (Int.add_zero _).symm)
  unfold Builder.add
  split
  · exact refl b
  · split
    · exact happend rfl _
    · exact happend rfl _

theorem clear (b : Builder) (cell : Int) : b.LeadsTo (b.clear cell) [cell] := by
  refine (moveTo b cell).trans
    ⟨[.loopStart, .decrement, .loopEnd], by simp [Builder.clear, Builder.append], ?_⟩
  intro opened found
  have hpointer : (b.moveTo cell).layout.pointer = cell := rfl
  simp [Trail.follow?, Trail.next?, Builder.clear, Builder.append, hpointer]

/-- A loop on a cell, if its body starts with the loop open. -/
theorem loop {cell : Int} (h : (b.openLoop cell).LeadsTo b₁ cells) :
    b.LeadsTo (b₁.closeLoop cell) (cell :: cells) := by
  obtain ⟨before, hbefore, hfollow⟩ := moveTo b cell
  obtain ⟨body, hbody, hfollowBody⟩ := h
  obtain ⟨after, hafter, hfollowAfter⟩ := moveTo b₁ cell
  refine ⟨before ++ .loopStart :: (body ++ (after ++ [.loopEnd])), ?_, fun opened found => ?_⟩
  · simp [Builder.closeLoop, Builder.append, hafter, hbody, Builder.openLoop, hbefore]
  · have hpointer : (b.openLoop cell).layout.pointer = cell := rfl
    have hreturned : (b₁.moveTo cell).layout.pointer = cell := rfl
    have hentered : (b.moveTo cell).layout.pointer = cell := rfl
    rw [hpointer] at hfollowBody
    rw [hreturned] at hfollowAfter
    rw [hentered] at hfollow
    simp only [List.map_append, List.map_cons, List.map_nil, Trail.follow?_append, hfollow,
      Option.bind_some, Trail.follow?, Trail.next?, hfollowBody, hfollowAfter, if_true]
    simp [Builder.closeLoop, Builder.append, hreturned]

end Builder.LeadsTo

namespace BuildStep

/-- A step after which the tracked pointer is known: it does not fail, and it writes no brackets but
    those of the loops that the builder opens and closes. -/
inductive Tracked : BuildStep → Prop
  | emit {code : Text} (hopen : openBracket ∉ code) (hclose : closeBracket ∉ code) :
      Tracked (.emit code)
  | moveTo (cell : Int) : Tracked (.moveTo cell)
  | add (cell n : Int) : Tracked (.add cell n)
  | clear (cell : Int) : Tracked (.clear cell)
  | loop {body : List BuildStep} (cell : Int) (h : ∀ step ∈ body, Tracked step) :
      Tracked (.loop cell body)
  | tryLoop {body : List BuildStep} (cell : Int) (h : ∀ step ∈ body, Tracked step) :
      Tracked (.tryLoop cell body)

mutual

/-- The cells of the loops of a step, each loop before those in it. Clearing a cell is a loop. -/
def loopCells : BuildStep → List Int
  | .clear cell => [cell]
  | .loop cell body => cell :: loopCellsAll body
  | .tryLoop cell body => cell :: loopCellsAll body
  | _ => []

/-- The cells of the loops of some steps, in order. -/
def loopCellsAll : List BuildStep → List Int
  | [] => []
  | step :: rest => step.loopCells ++ loopCellsAll rest

end

/-- The step does not fail, and the builder knows where its code leads. -/
def Leads (step : BuildStep) : Prop :=
  ∀ b, (step.run b).2 = false ∧ b.LeadsTo (step.run b).1 step.loopCells

theorem Leads.all {steps : List BuildStep} (h : ∀ step ∈ steps, step.Leads) (b : Builder) :
    tryAll b steps = (runAll b steps, false) ∧ b.LeadsTo (runAll b steps) (loopCellsAll steps) := by
  induction steps generalizing b with
  | nil => exact ⟨rfl, .refl b⟩
  | cons step rest ih =>
    obtain ⟨hstep, hrest⟩ := List.forall_mem_cons.1 h
    obtain ⟨hsucceeds, hleads⟩ := hstep b
    obtain ⟨htry, hleadsRest⟩ := ih hrest (step.run b).1
    refine ⟨?_, hleads.trans hleadsRest⟩
    have hrun : step.run b = ((step.run b).1, false) := by rw [← hsucceeds]
    rw [tryAll, hrun]
    exact htry

theorem Tracked.leads {step : BuildStep} (h : step.Tracked) : step.Leads := by
  induction h with
  | emit hopen hclose =>
    refine fun b => ⟨rfl, .emit (fun c hc => ?_) b⟩
    obtain ⟨byte, hbyte, hcommand⟩ := List.mem_filterMap.1 hc
    rw [Machine.ofByte?_eq_some_iff] at hcommand
    subst hcommand
    constructor
    · rintro rfl
      exact hopen hbyte
    · rintro rfl
      exact hclose hbyte
  | moveTo cell => exact fun b => ⟨rfl, .moveTo b cell⟩
  | add cell n => exact fun b => ⟨rfl, .add b cell n⟩
  | clear cell => exact fun b => ⟨rfl, .clear b cell⟩
  | loop cell _ ih => exact fun b => ⟨rfl, .loop (Leads.all ih (b.openLoop cell)).2⟩
  | tryLoop cell _ ih =>
    intro b
    obtain ⟨htry, hleads⟩ := Leads.all ih (b.openLoop cell)
    rw [run, htry]
    exact ⟨rfl, hleads.loop⟩

/-- The tracked pointer is the pointer of every machine that runs what was built. The steps succeed,
    the text they write has brackets that pair up, and so it can be loaded. Each loop that was
    built is tested somewhere in the code, and no other loop is. However a run of it from the
    pointer at which building started is cut short, the pointer is on the cell of a loop if this
    loop is tested next; and if the run comes to its end, it ends on the tracked pointer. -/
theorem tracked_pointer {steps : List BuildStep} (hsteps : ∀ step ∈ steps, step.Tracked)
    (layout : Layout) :
    ∃ b code, tryAll { layout } steps = (b, false) ∧ runAll { layout } steps = b ∧
      Machine.PairUp (Command.toText b.code.toList) ∧
      b.code.size = (Command.toText b.code.toList).length ∧
      Machine.Code.load (Command.toText b.code.toList) = .ok code ∧
      (∀ n, n < (loopCellsAll steps).length ↔ ∃ place, code.tested? place = some n) ∧
      ∀ m : Machine, (m.pointer : Int) = layout.pointer →
        ∀ patience fuel cause outcome m',
          m.runInterrupted code patience fuel cause = (outcome, m') →
          (outcome = .finished → (m'.pointer : Int) = b.layout.pointer) ∧
          ∀ place n, outcome = .outOfFuel place → code.tested? place = some n →
            (loopCellsAll steps)[n]? = some (m'.pointer : Int) := by
  obtain ⟨htry, piece, hpiece, hfollow⟩ :=
    Leads.all (fun step h => (hsteps step h).leads) { layout }
  rw [Array.toList_empty, List.nil_append] at hpiece
  obtain ⟨code, hload, hcharted⟩ := Machine.exists_charted (hfollow [] [])
  rw [← hpiece] at hload
  have hdecides := Machine.load_decides (Command.toText (runAll { layout } steps).code.toList)
  rw [hload] at hdecides
  refine ⟨_, code, htry, rfl, Machine.pairUp_iff.2 hdecides, by simp [Command.toText], hload,
    hcharted.lt_length_iff_tested, ?_⟩
  intro m hm patience fuel cause outcome m' hrun
  have hstops := hcharted.runInterrupted hm patience fuel cause
  rw [hrun] at hstops
  refine ⟨hstops.finished, fun place n houtcome htest => ?_⟩
  rw [← List.nil_append (loopCellsAll steps), hcharted.cell_of_tested htest]
  exact congrArg some (hstops.place place houtcome).symm

/-- One loop in another, built and run on a tape that is not empty. The inner loop is repeated in
    the first round of the outer one and skipped in the second. The machine folds the first moves,
    which lead left of the tape and back, into none. -/
theorem tracked_pointer_nested :
    ∃ (steps : List BuildStep) (code : Machine.Code) (m m₁ m₂ : Machine),
      (∀ step ∈ steps, step.Tracked) ∧ loopCellsAll steps = [2, 5, 4] ∧
      Command.toText (runAll {} steps).code.toList = "+<>>>++[->>>[<[-]>,]<<<<<+>>]<" ∧
      Machine.Code.load "+<>>>++[->>>[<[-]>,]<<<<<+>>]<" = .ok code ∧
      (∃ place, code.tested? place = some 2) ∧ ¬ (∃ place, code.tested? place = some 3) ∧
      m.pointer = 0 ∧
      m.runInterrupted code 23 0 .canceled = (.outOfFuel 6, m₁) ∧ code.tested? 6 = some 1 ∧
      m₁.current = 0 ∧ m₁.pointer = 5 ∧
      m.runInterrupted code 99 0 .canceled = (.finished, m₂) ∧ m₂.pointer = 1 := by
  let steps : List BuildStep :=
    [.emit "+<>", .add 2 2, .loop 2 [.add 2 (-1), .tryLoop 5 [.clear 4, .emit ">,"], .add 0 1],
      .moveTo 1]
  let code : Machine.Code :=
    ⟨#[.add 1, .move 2, .add 2, .loopStart 15, .add (-1), .move 3, .loopStart 11, .move (-1),
      .clear, .move 1, .read, .loopEnd 6, .move (-5), .add 1, .move 2, .loopEnd 3, .move (-1)]⟩
  let m : Machine := { config := {}, tape := #[0, 0, 0, 0, 9, 1], input := [7] }
  have hinner : ∀ step ∈ ([.clear 4, .emit ">,"] : List BuildStep), step.Tracked := by
    simp only [List.forall_mem_cons, List.not_mem_nil, false_imp_iff, implies_true, and_true]
    exact ⟨.clear 4, .emit (by decide) (by decide)⟩
  have hsteps : ∀ step ∈ steps, step.Tracked := by
    simp only [steps, List.forall_mem_cons, List.not_mem_nil, false_imp_iff, implies_true, and_true]
    refine ⟨.emit (by decide) (by decide), .add 2 2, .loop 2 ?_, .moveTo 1⟩
    simp only [List.forall_mem_cons, List.not_mem_nil, false_imp_iff, implies_true, and_true]
    exact ⟨.add 2 (-1), .tryLoop 5 hinner, .add 0 1⟩
  have htext : Command.toText (runAll {} steps).code.toList = "+<>>>++[->>>[<[-]>,]<<<<<+>>]<" := by
    decide +kernel
  have hload : Machine.Code.load "+<>>>++[->>>[<[-]>,]<<<<<+>>]<" = .ok code := by decide +kernel
  obtain ⟨m₁, hpaused, hzero⟩ :
      ∃ m₁, m.runInterrupted code 23 0 .canceled = (.outOfFuel 6, m₁) ∧ m₁.current = 0 :=
    ⟨{ m with tape := #[2, 0, 0, 0, 0, 0], pointer := 5, steps := 23, input := [] },
      by decide +kernel, by decide +kernel⟩
  obtain ⟨m₂, hended⟩ : ∃ m₂, m.runInterrupted code 99 0 .canceled = (.finished, m₂) :=
    ⟨{ m with tape := #[3, 0, 0, 0, 0, 0], pointer := 1, steps := 29, input := [] },
      by decide +kernel⟩
  have hcells : loopCellsAll steps = [2, 5, 4] := by decide +kernel
  obtain ⟨b, code', -, rfl, -, -, hload', hloops, htracks⟩ := tracked_pointer hsteps {}
  rw [htext, hload] at hload'
  obtain rfl := Except.ok.inj hload'
  have htested := (htracks m rfl 23 0 .canceled _ m₁ hpaused).2 6 1 rfl (by decide +kernel)
  have hfinal := (htracks m rfl 99 0 .canceled _ m₂ hended).1 rfl
  rw [hcells] at hloops htested
  refine ⟨steps, code, m, m₁, m₂, hsteps, hcells, htext, hload, (hloops 2).1 (by decide),
    fun h => absurd ((hloops 3).2 h) (by decide), rfl, hpaused, by decide +kernel, hzero, ?_,
    hended, ?_⟩
  · have hcell : ([2, 5, 4] : List Int)[1]? = some 5 := rfl
    rw [hcell] at htested
    exact (Int.ofNat_inj.1 (Option.some.inj htested)).symm
  · have hpointer : (runAll {} steps).layout.pointer = 1 := by decide +kernel
    rw [hpointer] at hfinal
    exact Int.ofNat_inj.1 hfinal

end BuildStep

end Goat
