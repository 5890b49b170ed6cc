import Goat.Emitter.CellList
import Goat.Proofs.Segments

/-!
# Walking along a list

The code that reaches a computed index moves a packet of four cells along the list. Here
its walks are run on the plain machine: the forward walk brings the packet in front of the
element asked for, and the walk back restores every element that was passed.
-/

namespace Goat.CellList

open Plain (Settings Contents Runs Closed)

variable {settings : Settings}

section Pieces

theorem moves_add (x d : Int) : Layout.moves x (x + d) = Layout.moves 0 d := by
  have hleft : x + d - x = d := by omega
  have hright : x - (x + d) = 0 - d := by omega
  by_cases hd : 0 < d
  · rw [Layout.moves, Layout.moves, if_pos (by omega), if_pos hd, hleft, Int.sub_zero]
  · rw [Layout.moves, Layout.moves, if_neg (by omega), if_neg hd, hright]

theorem runs_shift (s : Contents) {x y : Int} (d : Int) (hy : x + d = y) (hx : settings.HasCell x)
    (hxy : settings.HasCell y) : Runs settings (Layout.moves 0 d) (s.tape x) (s.tape y) := by
  rw [← moves_add x d, hy]
  exact Plain.runs_moves s hx hxy

/-- Moves the value of a cell to the cell `d` places further. -/
def drainCode (d : Int) : List Command :=
  .loopStart :: ((.decrement :: (Layout.moves 0 d ++ .increment :: Layout.moves 0 (-d))) ++
    [.loopEnd])

theorem closed_drainBody (d : Int) :
    Closed (.decrement :: (Layout.moves 0 d ++ .increment :: Layout.moves 0 (-d))) :=
  (Closed.single (by decide) (by decide)).append
    ((Plain.closed_moves 0 d).append
      ((Closed.single (by decide) (by decide)).append (Plain.closed_moves 0 (-d))))

theorem closed_drainCode (d : Int) : Closed (drainCode d) := (closed_drainBody d).loop

theorem runs_drainCode (s : Contents) {x y : Int} (d : Int) (hy : x + d = y) (hd : x ≠ y)
    (hx : settings.HasCell x) (hxy : settings.HasCell y) :
    Runs settings (drainCode d) (s.tape x)
      (((s.set x 0).set y (s.cells y + s.cells x)).tape x) := by
  let g (k : Nat) : Contents := (s.set x (s.cells x - UInt8.ofNat k)).set y
    (s.cells y + UInt8.ofNat k)
  have hround (k : Nat) : Runs settings
      (.decrement :: (Layout.moves 0 d ++ .increment :: Layout.moves 0 (-d)))
      ((g k).tape x) ((g (k + 1)).tape x) := by
    let u : Contents := (g k).set x ((g k).cells x - 1)
    have hnext : g (k + 1) = u.set y (u.cells y + 1) := by
      refine Contents.ext (funext fun z => ?_) rfl rfl
      simp only [u, g, Contents.set_cells, UInt8.ofNat_add]
      grind
    have hdown : Runs settings [.decrement] ((g k).tape x) (u.tape x) :=
      .single (by decide) (by decide) rfl
    have hup : Runs settings [.increment] (u.tape y) ((u.set y (u.cells y + 1)).tape y) :=
      .single (by decide) (by decide) rfl
    rw [hnext]
    exact hdown.append ((runs_shift u d hy hx hxy).append
      (hup.append (runs_shift _ (-d) (by omega) hxy hx)))
  have hcell (k : Nat) : (g k).cells x = s.cells x - UInt8.ofNat k := by
    simp [g, Contents.set_cells, hd]
  have hloop := Plain.runs_countdown (closed_drainBody d) (s.cells x) g hcell fun k _ => hround k
  have hstart : g 0 = s := by
    refine Contents.ext (funext fun z => ?_) rfl rfl
    simp only [g, Contents.set_cells]
    grind
  have hend : g (s.cells x).toNat = (s.set x 0).set y (s.cells y + s.cells x) := by
    simp only [g, UInt8.ofNat_toNat, UInt8.sub_self]
  rwa [hstart, hend] at hloop

end Pieces

/-- What the tape holds when the packet of a list at `p` is `k` steps along the list. The
    elements that were passed stand in front of the packet. -/
def packet (s : Contents) (p : Int) (k : Nat) (value countdown steps : UInt8) : Contents :=
  { s with cells := fun x =>
      if p ≤ x ∧ x < p + k then s.cells (x + 4)
      else if x = p + k then value
      else if x = p + k + 1 then countdown
      else if x = p + k + 2 then steps
      else if x = p + k + 3 then 0
      else s.cells x }

/-- A step forward, from countdown cell to countdown cell. -/
def forwardStep : List Command :=
  [.decrement] ++ (Layout.moves 0 1 ++ ([.increment] ++ (drainCode 1 ++ (Layout.moves 0 (-1) ++
    (drainCode 1 ++ (Layout.moves 0 (-1) ++ (drainCode 1 ++ (Layout.moves 0 4 ++
      (drainCode (-4) ++ Layout.moves 0 (-2))))))))))

theorem walkForward_eq : walkForward = .loopStart :: (forwardStep ++ [.loopEnd]) := by decide

theorem runs_decrement_single (s : Contents) (x : Int) :
    Runs settings [.decrement] (s.tape x) ((s.set x (s.cells x - 1)).tape x) :=
  .single (by decide) (by decide) rfl

theorem runs_increment_single (s : Contents) (x : Int) :
    Runs settings [.increment] (s.tape x) ((s.set x (s.cells x + 1)).tape x) :=
  .single (by decide) (by decide) rfl

theorem runs_forwardStep (s : Contents) (p : Int) (k : Nat) (v c t : UInt8)
    (hcell : ∀ x, p + k ≤ x → x ≤ p + k + 4 → settings.HasCell x) :
    Runs settings forwardStep ((packet s p k v c t).tape (p + k + 1))
      ((packet s p (k + 1) v (c - 1) (t + 1)).tape (p + k + 2)) := by
  have h₀ := hcell (p + k) (by omega) (by omega)
  have h₁ := hcell (p + k + 1) (by omega) (by omega)
  have h₂ := hcell (p + k + 2) (by omega) (by omega)
  have h₃ := hcell (p + k + 3) (by omega) (by omega)
  have h₄ := hcell (p + k + 4) (by omega) (by omega)
  refine .append (runs_decrement_single _ _) (.append (runs_shift _ 1 (by omega) h₁ h₂) ?_)
  refine .append (runs_increment_single _ _) ?_
  refine .append (runs_drainCode _ 1 (by omega) (by omega) h₂ h₃) ?_
  refine .append (runs_shift _ (-1) (by omega) h₂ h₁) ?_
  refine .append (runs_drainCode _ 1 (by omega) (by omega) h₁ h₂) ?_
  refine .append (runs_shift _ (-1) (by omega) h₁ h₀) ?_
  refine .append (runs_drainCode _ 1 (by omega) (by omega) h₀ h₁) ?_
  refine .append (runs_shift _ 4 (by omega) h₀ h₄) ?_
  refine .append (runs_drainCode _ (-4) (by omega) (by omega) h₄ h₀) ?_
  refine (runs_shift _ (-2) (by omega) h₄ h₂).to ?_
  refine Contents.ext (funext fun z => ?_) rfl rfl
  simp only [packet, Contents.set_cells]
  grind

theorem closed_forwardStep : Closed forwardStep := by
  have hdrain (d : Int) := closed_drainCode d
  have hmove (d : Int) := Plain.closed_moves 0 d
  have hsingle : Closed [.decrement] ∧ Closed [.increment] :=
    ⟨.single (by decide) (by decide), .single (by decide) (by decide)⟩
  exact hsingle.1.append ((hmove 1).append (hsingle.2.append ((hdrain 1).append
    ((hmove (-1)).append ((hdrain 1).append ((hmove (-1)).append ((hdrain 1).append
      ((hmove 4).append ((hdrain (-4)).append (hmove (-2)))))))))))

/-- The forward walk brings the packet in front of the element that the countdown says. -/
theorem runs_walkForward (s : Contents) (p : Int) (v c : UInt8)
    (hcell : ∀ x, p ≤ x → x ≤ p + c.toNat + 4 → settings.HasCell x) :
    Runs settings walkForward ((packet s p 0 v c 0).tape (p + 1))
      ((packet s p c.toNat v 0 c).tape (p + c.toNat + 1)) := by
  let g (k : Nat) : Plain.Tape :=
    (packet s p k v (c - UInt8.ofNat k) (UInt8.ofNat k)).tape (p + k + 1)
  have hcountdown (k : Nat) : (g k).current = c - UInt8.ofNat k := by
    simp only [g, Contents.tape_current, packet]
    grind
  have hrounds :
      Rounds Plain.Tape.Enters (Runs settings forwardStep) c.toNat (g 0) (g c.toNat) := by
    refine .of_forall g fun k hk => ⟨?_, ?_⟩
    · rw [Plain.Tape.Enters, hcountdown]
      exact sub_ofNat_ne_zero hk
    · have hstep := runs_forwardStep s p k v (c - UInt8.ofNat k) (UInt8.ofNat k)
        fun x hx hx' => hcell x (by omega) (by omega)
      have hpointer : p + (k + 1 : Nat) + 1 = p + k + 2 := by omega
      have hup : UInt8.ofNat (k + 1) = UInt8.ofNat k + 1 := UInt8.ofNat_add k 1
      have hdown : c - (UInt8.ofNat k + 1) = c - UInt8.ofNat k - 1 := by grind
      simp only [g, hpointer, hup, hdown]
      exact hstep
  have hzero : (g c.toNat).current = 0 := by rw [hcountdown, sub_ofNat_toNat]
  have hwalk := Runs.loop closed_forwardStep hrounds hzero
  have hnone : UInt8.ofNat 0 = 0 := rfl
  simpa only [walkForward_eq, g, UInt8.ofNat_toNat, UInt8.sub_self, Int.natCast_zero, Int.add_zero,
    UInt8.sub_zero, hnone] using hwalk

/-- A step back, from step count to step count. -/
def backStep : List Command :=
  [.decrement] ++ (Layout.moves 0 (-3) ++ (drainCode 4 ++ (Layout.moves 0 1 ++ (drainCode (-1) ++
    (Layout.moves 0 1 ++ (drainCode (-1) ++ (Layout.moves 0 1 ++ (drainCode (-1) ++
      Layout.moves 0 (-1)))))))))

theorem walkBack_eq : walkBack = .loopStart :: (backStep ++ [.loopEnd]) := by decide

theorem closed_backStep : Closed backStep := by
  have hdrain (d : Int) := closed_drainCode d
  have hmove (d : Int) := Plain.closed_moves 0 d
  have hsingle : Closed [.decrement] := .single (by decide) (by decide)
  exact hsingle.append ((hmove (-3)).append ((hdrain 4).append ((hmove 1).append
    ((hdrain (-1)).append ((hmove 1).append ((hdrain (-1)).append ((hmove 1).append
      ((hdrain (-1)).append (hmove (-1))))))))))

theorem runs_backStep (s : Contents) (p : Int) (k : Nat) (v t : UInt8)
    (hcell : ∀ x, p + k ≤ x → x ≤ p + k + 4 → settings.HasCell x) :
    Runs settings backStep ((packet s p (k + 1) v 0 t).tape (p + k + 3))
      ((packet s p k v 0 (t - 1)).tape (p + k + 2)) := by
  have h₀ := hcell (p + k) (by omega) (by omega)
  have h₁ := hcell (p + k + 1) (by omega) (by omega)
  have h₂ := hcell (p + k + 2) (by omega) (by omega)
  have h₃ := hcell (p + k + 3) (by omega) (by omega)
  have h₄ := hcell (p + k + 4) (by omega) (by omega)
  refine .append (runs_decrement_single _ _) (.append (runs_shift _ (-3) (by omega) h₃ h₀) ?_)
  refine .append (runs_drainCode _ 4 (by omega) (by omega) h₀ h₄) ?_
  refine .append (runs_shift _ 1 (by omega) h₀ h₁) ?_
  refine .append (runs_drainCode _ (-1) (by omega) (by omega) h₁ h₀) ?_
  refine .append (runs_shift _ 1 (by omega) h₁ h₂) ?_
  refine .append (runs_drainCode _ (-1) (by omega) (by omega) h₂ h₁) ?_
  refine .append (runs_shift _ 1 (by omega) h₂ h₃) ?_
  refine .append (runs_drainCode _ (-1) (by omega) (by omega) h₃ h₂) ?_
  refine (runs_shift _ (-1) (by omega) h₃ h₂).to ?_
  refine Contents.ext (funext fun z => ?_) rfl rfl
  simp only [packet, Contents.set_cells]
  grind

/-- The walk back restores the elements that were passed. -/
theorem runs_walkBack (s : Contents) (p : Int) (v c : UInt8)
    (hcell : ∀ x, p ≤ x → x ≤ p + c.toNat + 4 → settings.HasCell x) :
    Runs settings walkBack ((packet s p c.toNat v 0 c).tape (p + c.toNat + 2))
      ((packet s p 0 v 0 0).tape (p + 2)) := by
  let g (k : Nat) : Plain.Tape :=
    (packet s p (c.toNat - k) v 0 (c - UInt8.ofNat k)).tape (p + (c.toNat - k : Nat) + 2)
  have hsteps (k : Nat) : (g k).current = c - UInt8.ofNat k := by
    simp only [g, Contents.tape_current, packet]
    grind
  have hrounds : Rounds Plain.Tape.Enters (Runs settings backStep) c.toNat (g 0) (g c.toNat) := by
    refine .of_forall g fun k hk => ⟨?_, ?_⟩
    · rw [Plain.Tape.Enters, hsteps]
      exact sub_ofNat_ne_zero hk
    · have hstep := runs_backStep s p (c.toNat - (k + 1)) v (c - UInt8.ofNat k)
        fun x hx hx' => hcell x (by omega) (by omega)
      have hbefore : c.toNat - (k + 1) + 1 = c.toNat - k := by omega
      have hpointer : p + (c.toNat - (k + 1) : Nat) + 3 = p + (c.toNat - k : Nat) + 2 := by omega
      have hdown : c - UInt8.ofNat (k + 1) = c - UInt8.ofNat k - 1 := by
        rw [UInt8.ofNat_add]
        grind
      rw [hbefore, hpointer] at hstep
      simp only [g, hdown]
      exact hstep
  have hzero : (g c.toNat).current = 0 := by rw [hsteps, sub_ofNat_toNat]
  have hwalk := Runs.loop closed_backStep hrounds hzero
  have hnone : UInt8.ofNat 0 = 0 := rfl
  simpa only [walkBack_eq, g, UInt8.ofNat_toNat, UInt8.sub_self, Int.natCast_zero, Int.add_zero,
    Nat.sub_zero, UInt8.sub_zero, hnone, Nat.sub_self] using hwalk

/-- Takes one from an element and adds it to the value and to the last cell of the packet. -/
def copyStep : List Command :=
  [.decrement] ++ (Layout.moves 0 (-4) ++ ([.increment] ++ (Layout.moves 0 3 ++ ([.increment] ++
    Layout.moves 0 1))))

theorem closed_copyStep : Closed copyStep := by
  have hmove (d : Int) := Plain.closed_moves 0 d
  have hup : Closed [.increment] := .single (by decide) (by decide)
  have hdown : Closed [.decrement] := .single (by decide) (by decide)
  exact hdown.append ((hmove (-4)).append (hup.append ((hmove 3).append (hup.append (hmove 1)))))

theorem runs_copyLoop (s : Contents) (q : Int)
    (hcell : ∀ x, q ≤ x → x ≤ q + 4 → settings.HasCell x) :
    Runs settings (.loopStart :: (copyStep ++ [.loopEnd])) (s.tape (q + 4))
      ((((s.set (q + 4) 0).set q (s.cells q + s.cells (q + 4))).set (q + 3)
        (s.cells (q + 3) + s.cells (q + 4))).tape (q + 4)) := by
  have h₀ := hcell q (by omega) (by omega)
  have h₃ := hcell (q + 3) (by omega) (by omega)
  have h₄ := hcell (q + 4) (by omega) (by omega)
  let g (k : Nat) : Contents :=
    ((s.set (q + 4) (s.cells (q + 4) - UInt8.ofNat k)).set q (s.cells q + UInt8.ofNat k)).set
      (q + 3) (s.cells (q + 3) + UInt8.ofNat k)
  have hround (k : Nat) : Runs settings copyStep ((g k).tape (q + 4))
      ((g (k + 1)).tape (q + 4)) := by
    refine .append (runs_decrement_single _ _) (.append (runs_shift _ (-4) (by omega) h₄ h₀) ?_)
    refine .append (runs_increment_single _ _) (.append (runs_shift _ 3 (by omega) h₀ h₃) ?_)
    refine .append (runs_increment_single _ _) ((runs_shift _ 1 (by omega) h₃ h₄).to ?_)
    refine Contents.ext (funext fun z => ?_) rfl rfl
    simp only [g, Contents.set_cells, UInt8.ofNat_add]
    grind
  have hcount (k : Nat) : (g k).cells (q + 4) = s.cells (q + 4) - UInt8.ofNat k := by
    simp only [g, Contents.set_cells]
    grind
  have hloop := Plain.runs_countdown closed_copyStep _ g hcount fun k _ => hround k
  have hstart : g 0 = s := by
    refine Contents.ext (funext fun z => ?_) rfl rfl
    simp only [g, Contents.set_cells]
    grind
  have hend : g (s.cells (q + 4)).toNat = ((s.set (q + 4) 0).set q
      (s.cells q + s.cells (q + 4))).set (q + 3) (s.cells (q + 3) + s.cells (q + 4)) := by
    simp only [g, UInt8.ofNat_toNat, UInt8.sub_self]
  rwa [hstart, hend] at hloop

theorem readElement_eq : readElement =
    Layout.moves 0 3 ++ (.loopStart :: (copyStep ++ [.loopEnd]) ++ (Layout.moves 0 (-1) ++
      (drainCode 1 ++ Layout.moves 0 (-1)))) := by
  decide

theorem closed_readElement : Closed readElement := by
  have hmove (d : Int) := Plain.closed_moves 0 d
  rw [readElement_eq]
  exact (hmove 3).append (closed_copyStep.loop.append ((hmove (-1)).append
    ((closed_drainCode 1).append (hmove (-1)))))

theorem runs_readElement (s : Contents) (p : Int) (k : Nat) (t : UInt8)
    (hcell : ∀ x, p + k ≤ x → x ≤ p + k + 4 → settings.HasCell x) :
    Runs settings readElement ((packet s p k 0 0 t).tape (p + k + 1))
      ((packet s p k (s.cells (p + k + 4)) 0 t).tape (p + k + 2)) := by
  have h₁ := hcell (p + k + 1) (by omega) (by omega)
  have h₂ := hcell (p + k + 2) (by omega) (by omega)
  have h₃ := hcell (p + k + 3) (by omega) (by omega)
  have h₄ := hcell (p + k + 4) (by omega) (by omega)
  rw [readElement_eq]
  refine .append (runs_shift _ 3 (by omega) h₁ h₄) (.append (runs_copyLoop _ (p + k) hcell) ?_)
  refine .append (runs_shift _ (-1) (by omega) h₄ h₃) ?_
  refine .append (runs_drainCode _ 1 (by omega) (by omega) h₃ h₄) ?_
  refine (runs_shift _ (-1) (by omega) h₃ h₂).to ?_
  refine Contents.ext (funext fun z => ?_) rfl rfl
  simp only [packet, Contents.set_cells]
  grind

theorem writeElement_eq : writeElement =
    Layout.moves 0 3 ++ ([.loopStart, .decrement, .loopEnd] ++ (Layout.moves 0 (-4) ++
      (drainCode 4 ++ Layout.moves 0 2))) := by
  decide

theorem closed_writeElement : Closed writeElement := by
  have hmove (d : Int) := Plain.closed_moves 0 d
  have hclear : Closed [.loopStart, .decrement, .loopEnd] :=
    .loop (.single (by decide) (by decide))
  rw [writeElement_eq]
  exact (hmove 3).append (hclear.append ((hmove (-4)).append
    ((closed_drainCode 4).append (hmove 2))))

theorem runs_writeElement (s : Contents) (p : Int) (k : Nat) (v t : UInt8)
    (hcell : ∀ x, p + k ≤ x → x ≤ p + k + 4 → settings.HasCell x) :
    Runs settings writeElement ((packet s p k v 0 t).tape (p + k + 1))
      ((packet (s.set (p + k + 4) v) p k 0 0 t).tape (p + k + 2)) := by
  have h₀ := hcell (p + k) (by omega) (by omega)
  have h₁ := hcell (p + k + 1) (by omega) (by omega)
  have h₂ := hcell (p + k + 2) (by omega) (by omega)
  have h₄ := hcell (p + k + 4) (by omega) (by omega)
  rw [writeElement_eq]
  refine .append (runs_shift _ 3 (by omega) h₁ h₄) (.append (Plain.runs_clear _ _) ?_)
  refine .append (runs_shift _ (-4) (by omega) h₄ h₀) ?_
  refine .append (runs_drainCode _ 4 (by omega) (by omega) h₀ h₄) ?_
  refine (runs_shift _ 2 (by omega) h₀ h₂).to ?_
  refine Contents.ext (funext fun z => ?_) rfl rfl
  simp only [packet, Contents.set_cells]
  grind

end Goat.CellList
