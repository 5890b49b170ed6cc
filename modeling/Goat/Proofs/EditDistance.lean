import Goat.Diagnostic.Suggestion
import Mathlib.Order.Bounds.Basic
import Mathlib.Order.MinMax

/-!
# The edit distance

A text is edited by inserting, deleting or replacing one byte at a time, anywhere in it. The
distance of two texts has a recursive equation on their first bytes, and no edit changes it by
more than one, so it is the least number of edits between them. The entries of the distance
table are the distances of the front parts of the texts, which are compared from their last
bytes on: two rows of it are enough to get from one to the next.
-/

namespace Goat.Diagnostic

/-! ### Edits -/

/-- The second text is the first one with one byte inserted, deleted or replaced. -/
inductive Edit : Text → Text → Prop where
  | insert (front back : Text) (y : UInt8) : Edit (front ++ back) (front ++ y :: back)
  | delete (front back : Text) (x : UInt8) : Edit (front ++ x :: back) (front ++ back)
  | substitute (front back : Text) (x y : UInt8) : Edit (front ++ x :: back) (front ++ y :: back)

/-- The first text is turned into the second one by `n` edits, one after the other. -/
inductive Edits : Nat → Text → Text → Prop where
  | refl (a : Text) : Edits 0 a a
  | tail {n : Nat} {a b c : Text} (h : Edits n a b) (last : Edit b c) : Edits (n + 1) a c

namespace Edit

variable {a b : Text}

theorem symm (h : Edit a b) : Edit b a := by
  cases h with
  | insert front back y => exact .delete front back y
  | delete front back x => exact .insert front back x
  | substitute front back x y => exact .substitute front back y x

theorem cons (z : UInt8) (h : Edit a b) : Edit (z :: a) (z :: b) := by
  cases h with
  | insert front back y => exact .insert (z :: front) back y
  | delete front back x => exact .delete (z :: front) back x
  | substitute front back x y => exact .substitute (z :: front) back x y

theorem reverse (h : Edit a b) : Edit a.reverse b.reverse := by
  have hcons (front back : Text) (z : UInt8) :
      (front ++ z :: back).reverse = back.reverse ++ z :: front.reverse := by simp
  cases h with
  | insert front back y =>
    rw [hcons, List.reverse_append]
    exact .insert _ _ y
  | delete front back x =>
    rw [hcons, List.reverse_append]
    exact .delete _ _ x
  | substitute front back x y =>
    rw [hcons, hcons]
    exact .substitute _ _ x y

end Edit

namespace Edits

variable {m n : Nat} {a b c : Text}

theorem single (h : Edit a b) : Edits 1 a b := (refl a).tail h

theorem trans (h : Edits m a b) (h' : Edits n b c) : Edits (m + n) a c := by
  induction h' with
  | refl => exact h
  | tail _ last ih => exact (ih h).tail last

theorem symm (h : Edits n a b) : Edits n b a := by
  induction h with
  | refl a => exact refl a
  | tail _ last ih =>
    rw [Nat.add_comm]
    exact (single last.symm).trans ih

theorem cons (z : UInt8) (h : Edits n a b) : Edits n (z :: a) (z :: b) := by
  induction h with
  | refl a => exact refl _
  | tail _ last ih => exact ih.tail (last.cons z)

theorem reverse (h : Edits n a b) : Edits n a.reverse b.reverse := by
  induction h with
  | refl a => exact refl _
  | tail _ last ih => exact ih.tail last.reverse

theorem eq_of_zero (h : Edits 0 a b) : a = b := by
  cases h
  rfl

end Edits

/-! ### The recursive equation -/

/-- The distance of two texts by their first bytes: the first text loses its first byte, or the
    second one's is inserted in front of it, or the one becomes the other. -/
def distance : Text → Text → Nat
  | [], b => b.length
  | x :: a, [] => (x :: a).length
  | x :: a, y :: b =>
    min (min (distance a (y :: b) + 1) (distance (x :: a) b + 1))
      (distance a b + if x = y then 0 else 1)
termination_by a b => a.length + b.length

theorem distance_nil_left (b : Text) : distance [] b = b.length := by rw [distance]

theorem distance_nil_right (a : Text) : distance a [] = a.length := by
  cases a <;> rw [distance]

theorem distance_cons_cons (x y : UInt8) (a b : Text) :
    distance (x :: a) (y :: b) =
      min (min (distance a (y :: b) + 1) (distance (x :: a) b + 1))
        (distance a b + if x = y then 0 else 1) := by
  rw [distance]

theorem distance_self (a : Text) : distance a a = 0 := by
  induction a with
  | nil => rw [distance_nil_left, List.length_nil]
  | cons x a ih => rw [distance_cons_cons, if_pos rfl, ih, Nat.add_zero, Nat.min_zero]

/-- The distance can be bridged. -/
theorem edits_distance (a b : Text) : Edits (distance a b) a b := by
  fun_induction distance a b with
  | case1 b =>
    induction b with
    | nil => exact .refl _
    | cons y b ih => exact ih.tail (.insert [] b y)
  | case2 x a =>
    have hdelete (a : Text) : Edits a.length a [] := by
      induction a with
      | nil => exact .refl _
      | cons x a ih =>
        rw [List.length_cons, Nat.add_comm]
        exact (Edits.single (.delete [] a x)).trans ih
    exact hdelete (x :: a)
  | case3 x a y b ihdelete ihinsert ihreplace =>
    have hdelete : Edits (distance a (y :: b) + 1) (x :: a) (y :: b) := by
      rw [Nat.add_comm]
      exact (Edits.single (.delete [] a x)).trans ihdelete
    have hinsert : Edits (distance (x :: a) b + 1) (x :: a) (y :: b) :=
      ihinsert.tail (.insert [] b y)
    have hreplace : Edits (distance a b + if x = y then 0 else 1) (x :: a) (y :: b) := by
      split
      · rename_i hsame
        exact hsame ▸ ihreplace.cons x
      · exact (ihreplace.cons x).tail (.substitute [] b x y)
    rcases min_choice (min (distance a (y :: b) + 1) (distance (x :: a) b + 1))
      (distance a b + if x = y then 0 else 1) with h | h
    · rw [h]
      rcases min_choice (distance a (y :: b) + 1) (distance (x :: a) b + 1) with h | h
      · rwa [h]
      · rwa [h]
    · rwa [h]

/-! ### One edit changes the distance by one at most -/

section

variable {b c : Text}

theorem distance_cons_right_le (a : Text) (y : UInt8) (b : Text) :
    distance a (y :: b) ≤ distance a b + 1 := by
  cases a with
  | nil => rw [distance_nil_left, distance_nil_left, List.length_cons]
  | cons x a =>
    rw [distance_cons_cons]
    omega

theorem distance_cons_left_le (x : UInt8) (a b : Text) :
    distance (x :: a) b ≤ distance a b + 1 := by
  cases b with
  | nil => rw [distance_nil_right, distance_nil_right, List.length_cons]
  | cons y b =>
    rw [distance_cons_cons]
    omega

theorem distance_le_cons_right (a : Text) (y : UInt8) (b : Text) :
    distance a b ≤ distance a (y :: b) + 1 := by
  induction a with
  | nil =>
    rw [distance_nil_left, distance_nil_left, List.length_cons]
    omega
  | cons x a ih =>
    have hleft := distance_cons_left_le x a b
    rw [distance_cons_cons]
    omega

theorem distance_replace_le (a : Text) (x y : UInt8) (b : Text) :
    distance a (y :: b) ≤ distance a (x :: b) + 1 := by
  induction a with
  | nil =>
    rw [distance_nil_left, distance_nil_left, List.length_cons, List.length_cons]
    omega
  | cons z a ih =>
    rw [distance_cons_cons, distance_cons_cons]
    split <;> split <;> omega

/-- A byte in front of both texts does not make the change larger. -/
theorem distance_cons_le (z : UInt8) (h : ∀ a, distance a c ≤ distance a b + 1) (a : Text) :
    distance a (z :: c) ≤ distance a (z :: b) + 1 := by
  induction a with
  | nil =>
    have hnil := h []
    rw [distance_nil_left, distance_nil_left] at hnil ⊢
    simp only [List.length_cons]
    omega
  | cons x a ih =>
    have hwhole := h (x :: a)
    have hrest := h a
    rw [distance_cons_cons, distance_cons_cons]
    omega

theorem Edit.distance_le (h : Edit b c) : ∀ a, distance a c ≤ distance a b + 1 := by
  have hfront (front : Text) {b c : Text} (h : ∀ a, distance a c ≤ distance a b + 1) :
      ∀ a, distance a (front ++ c) ≤ distance a (front ++ b) + 1 := by
    induction front with
    | nil => exact h
    | cons z front ih => exact distance_cons_le z ih
  cases h with
  | insert front back y => exact hfront front fun a => distance_cons_right_le a y back
  | delete front back x => exact hfront front fun a => distance_le_cons_right a x back
  | substitute front back x y => exact hfront front fun a => distance_replace_le a x y back

end

theorem Edits.distance_le {n : Nat} {a b : Text} (h : Edits n a b) : distance a b ≤ n := by
  induction h with
  | refl a => rw [distance_self]
  | @tail n a b c _ last ih =>
    have hlast := last.distance_le a
    omega

/-! ### The two rows -/

namespace Rows

/-- The first columns of a row, up to that of `front`, hold the distances of the row's text to
    the front parts of `b`. The texts are compared from their ends. -/
structure FilledTo (p b front : Text) (row : Array Nat) : Prop where
  size : row.size = b.length + 1
  entry : ∀ k ≤ front.length, row.getD k 0 = distance p (b.take k).reverse

/-- All the columns of a row are filled. -/
def Filled (p b : Text) (row : Array Nat) : Prop := FilledTo p b b row

variable {p b front back : Text} {above below : Array Nat}

theorem getD_setIfInBounds (row : Array Nat) {i : Nat} (hi : i < row.size) (v k : Nat) :
    (row.setIfInBounds i v).getD k 0 = if i = k then v else row.getD k 0 := by
  rw [Array.getD_eq_getD_getElem?, Array.getD_eq_getD_getElem?, Array.getElem?_setIfInBounds]
  split
  · rw [Option.getD_some]
  · rfl

theorem take_length_succ (front back : Text) (y : UInt8) :
    (front ++ y :: back).take (front.length + 1) = front ++ [y] := by
  rw [← List.singleton_append, ← List.append_assoc]
  exact List.take_left' List.length_append

/-- What is written behind the filled columns leaves these as they are. -/
theorem FilledTo.push (h : FilledTo p b front below) {y : UInt8} (hb : b = front ++ y :: back)
    {v : Nat} (hv : v = distance p (y :: front.reverse)) :
    FilledTo p b (front ++ [y]) (below.setIfInBounds (front.length + 1) v) := by
  have hsize : front.length + 1 < below.size := by
    rw [h.size, hb, List.length_append, List.length_cons]
    omega
  refine ⟨by rw [Array.size_setIfInBounds, h.size], fun k hk => ?_⟩
  rw [List.length_append, List.length_singleton] at hk
  rw [getD_setIfInBounds below hsize]
  split
  · rename_i hlast
    rw [hb, ← hlast, take_length_succ, List.reverse_append, List.reverse_singleton,
      List.singleton_append, hv]
  · exact h.entry k (by omega)

/-- An entry is the distance if those above, before and diagonally before it are. -/
theorem entry_eq {x y : UInt8} (habove : Filled p b above)
    (hbelow : FilledTo (x :: p) b front below) (hb : b = front ++ y :: back) :
    (Rows.mk above below).entry x y front.length = distance (x :: p) (y :: front.reverse) := by
  have hlength : front.length + 1 ≤ b.length := by
    rw [hb, List.length_append, List.length_cons]
    omega
  have htake : b.take (front.length + 1) = front ++ [y] := by rw [hb, take_length_succ]
  have hfront : b.take front.length = front := by rw [hb, List.take_left]
  rw [Rows.entry, habove.entry _ hlength, habove.entry _ (by omega),
    hbelow.entry _ (Nat.le_refl _), htake, hfront, List.reverse_append, List.reverse_singleton,
    List.singleton_append, distance_cons_cons]

/-- From the columns of `front` on, the row below is filled to its end; the row above stays. -/
theorem filled_fillFrom {x : UInt8} (habove : Filled p b above)
    (hbelow : FilledTo (x :: p) b front below) (hb : b = front ++ back) :
    (fillFrom x front.length back ⟨above, below⟩).above = above ∧
      Filled (x :: p) b (fillFrom x front.length back ⟨above, below⟩).below := by
  induction back generalizing front below with
  | nil =>
    rw [List.append_nil] at hb
    exact ⟨rfl, hb ▸ hbelow⟩
  | cons y back ih =>
    have hnext := hbelow.push hb (entry_eq habove hbelow hb)
    have hrest := ih hnext (by rw [hb, List.append_assoc, List.singleton_append])
    rw [List.length_append, List.length_singleton] at hrest
    exact hrest

/-- A row leads to the next one, and what is left over can be filled again. -/
theorem filled_next {rows : Rows} {i : Nat} (x : UInt8) (habove : Filled p b rows.above)
    (hsize : rows.below.size = b.length + 1) (hi : i = p.length + 1) :
    Filled (x :: p) b (next b i x rows).above ∧
      (next b i x rows).below.size = b.length + 1 := by
  have hstart : FilledTo (x :: p) b [] (rows.below.setIfInBounds 0 i) := by
    refine ⟨by rw [Array.size_setIfInBounds, hsize], fun k hk => ?_⟩
    obtain rfl : k = 0 := Nat.le_zero.1 hk
    rw [getD_setIfInBounds _ (by omega), if_pos rfl, List.take_zero, List.reverse_nil,
      distance_nil_right, List.length_cons, hi]
  obtain ⟨hkept, hfilled⟩ := filled_fillFrom habove hstart rfl
  refine ⟨hfilled, ?_⟩
  rw [next]
  exact (congrArg Array.size hkept).trans habove.size

theorem filled_nextAll {rows : Rows} {i : Nat} (a : Text) (habove : Filled p b rows.above)
    (hsize : rows.below.size = b.length + 1) (hi : i = p.length + 1) :
    Filled (a.reverse ++ p) b (nextAll b i a rows).above := by
  induction a generalizing p i rows with
  | nil => exact habove
  | cons x a ih =>
    obtain ⟨hfilled, hsize⟩ := filled_next x habove hsize hi
    rw [List.reverse_cons, List.append_assoc, List.singleton_append]
    exact ih hfilled hsize (by rw [hi, List.length_cons])

theorem filled_first (b : Text) : Filled [] b (first b.length).above := by
  refine ⟨Array.size_range, fun k hk => ?_⟩
  have hlt : k < (Array.range (b.length + 1)).size := by
    rw [Array.size_range]
    omega
  rw [first, Array.getD_eq_getD_getElem?, Array.getElem?_eq_getElem hlt, Array.getElem_range,
    distance_nil_left, List.length_reverse, List.length_take, Nat.min_eq_left hk]
  rfl

end Rows

/-- The last entry of the last row is the distance of the whole texts. -/
theorem editDistance_eq (a b : Text) : editDistance a b = distance a.reverse b.reverse := by
  rw [editDistance]
  split
  · rename_i ha
    rw [List.isEmpty_iff.1 ha, List.reverse_nil, distance_nil_left, List.length_reverse]
  · split
    · rename_i hb
      rw [List.isEmpty_iff.1 hb, List.reverse_nil, distance_nil_right, List.length_reverse]
    · have hrow : Rows.Filled (a.reverse ++ []) b
          (Rows.nextAll b 1 a (Rows.first b.length)).above :=
        Rows.filled_nextAll a (Rows.filled_first b) Array.size_replicate rfl
      rw [hrow.entry _ (Nat.le_refl _), List.append_nil, List.take_length]

theorem edits_editDistance (a b : Text) : Edits (editDistance a b) a b := by
  have h := (edits_distance a.reverse b.reverse).reverse
  rwa [List.reverse_reverse, List.reverse_reverse, ← editDistance_eq] at h

theorem Edits.editDistance_le {n : Nat} {a b : Text} (h : Edits n a b) : editDistance a b ≤ n := by
  rw [editDistance_eq]
  exact h.reverse.distance_le

theorem isLeast_editDistance (a b : Text) : IsLeast {n | Edits n a b} (editDistance a b) :=
  ⟨edits_editDistance a b, fun _ h => h.editDistance_le⟩

/-- The distance is the least number of edits that turn one text into the other, and thereby a
    metric. -/
theorem editDistance_isLeast (a b : Text) :
    IsLeast {n | Edits n a b} (editDistance a b) ∧ (editDistance a b = 0 ↔ a = b) ∧
      editDistance a b = editDistance b a ∧
      ∀ c, editDistance a c ≤ editDistance a b + editDistance b c := by
  have hab := edits_editDistance a b
  have hba := edits_editDistance b a
  refine ⟨isLeast_editDistance a b, ⟨fun hzero => ?_, ?_⟩, ?_, fun c => ?_⟩
  · rw [hzero] at hab
    exact hab.eq_of_zero
  · rintro rfl
    exact Nat.le_zero.1 (Edits.refl a).editDistance_le
  · exact Nat.le_antisymm hba.symm.editDistance_le hab.symm.editDistance_le
  · exact (hab.trans (edits_editDistance b c)).editDistance_le

end Goat.Diagnostic
