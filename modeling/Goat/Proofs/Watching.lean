import Goat.Watch.Schedule

/-!
# Changes are not lost

The parts of a watcher work side by side: changes are noted, timers fire, a timer that has fired
takes the lock and removes a record, and the loop takes the paths that are offered to it. Here
these are steps that follow each other in any order. A timer that has fired may remove the record
of a later timer of its path, so the records do not tell which timers are armed. What is kept is
that a record never names a timer of another path; so noting a change stops no timer but those of
its own path, for which it starts a new one.
-/

namespace Goat.Watch

/-- What can happen while files are watched. -/
inductive Action where
  /-- A change of a file is noted. -/
  | note (path : Text) (due : Instant)
  /-- A timer runs out. -/
  | fire (t : Timer)
  /-- A timer that has fired removes the record of its path and offers the path. -/
  | release (t : Timer)
  /-- A path that is offered is handed over, and is handled from now on. -/
  | handle (path : Text)
  deriving DecidableEq, Repr

namespace Schedule

/-- Hands over a path that waits, be it the first one or not. -/
def handOver (s : Schedule) (path : Text) : Schedule := { s with settled := s.settled.erase path }

/-- One step of a watcher. -/
inductive Step : Schedule → Action → Schedule → Prop
  | note (s : Schedule) (path : Text) (due : Instant) : Step s (.note path due) (s.note path due)
  | fire {s : Schedule} {t : Timer} (h : t ∈ s.armed) : Step s (.fire t) (s.fire t)
  | release {s : Schedule} {t : Timer} (h : t ∈ s.fired) : Step s (.release t) (s.release t)
  | handle {s : Schedule} {path : Text} (h : path ∈ s.settled) :
      Step s (.handle path) (s.handOver path)

/-- Steps in a row, with what happened in them. -/
inductive Run : Schedule → List Action → Schedule → Prop
  | nil (s : Schedule) : Run s [] s
  | cons {a : Action} {history : List Action} {s s₁ s₂ : Schedule} (hstep : Step s a s₁)
      (h : Run s₁ history s₂) : Run s (a :: history) s₂

/-- A timer of the path is armed, or has fired and its path was not handed over yet. -/
def Attends (s : Schedule) (path : Text) : Prop :=
  (∃ t ∈ s.armed, t.path = path) ∨ (∃ t ∈ s.fired, t.path = path) ∨ path ∈ s.settled

/-- A change of the path was noted after the path was handled last. -/
def Changed (history : List Action) (path : Text) : Prop :=
  ∃ before due after, history = before ++ .note path due :: after ∧ .handle path ∉ after

/-- Numbers of timers are not used twice, and a record names no timer of another path. -/
structure Consistent (s : Schedule) : Prop where
  armed_lt : ∀ t ∈ s.armed, t.id < s.nextId
  recorded_lt : ∀ entry ∈ s.recorded, entry.2 < s.nextId
  names : ∀ entry ∈ s.recorded, ∀ t ∈ s.armed, t.id = entry.2 → t.path = entry.1

section Parts

variable {s : Schedule} {path : Text} {t : Timer}

theorem mem_unrecord {entry : Text × Nat} (h : entry ∈ (s.unrecord path).recorded) :
    entry ∈ s.recorded :=
  (List.mem_filter.1 h).1

theorem mem_armed_of_stop (h : t ∈ (s.stop path).armed) : t ∈ s.armed := by
  unfold stop at h
  split at h
  · exact h
  · exact (List.mem_filter.1 h).1

@[simp] theorem stop_recorded (s : Schedule) (path : Text) :
    (s.stop path).recorded = s.recorded := by
  unfold stop
  split <;> rfl

@[simp] theorem stop_fired (s : Schedule) (path : Text) : (s.stop path).fired = s.fired := by
  unfold stop
  split <;> rfl

@[simp] theorem stop_settled (s : Schedule) (path : Text) :
    (s.stop path).settled = s.settled := by
  unfold stop
  split <;> rfl

/-- Stopping the recorded timer of a path leaves the timers of all other paths armed. -/
theorem Consistent.armed_stop (hs : s.Consistent) (ht : t ∈ s.armed) (hne : t.path ≠ path) :
    t ∈ (s.stop path).armed := by
  unfold stop
  split
  · exact ht
  · rename_i id hlookup
    obtain ⟨before, after, hrecorded, -⟩ := List.lookup_eq_some_iff.1 hlookup
    have hrecord : (path, id) ∈ s.recorded := by simp [hrecorded]
    have hid : t.id ≠ id := fun heq => hne (hs.names _ hrecord t ht heq)
    exact List.mem_filter.2 ⟨ht, by simpa using hid⟩

theorem mem_armed_note {due : Instant} (h : t ∈ (s.note path due).armed) :
    t ∈ s.armed ∨ t = ⟨s.nextId, path, due⟩ := by
  rcases List.mem_append.1 h with h | h
  · exact .inl (mem_armed_of_stop h)
  · exact .inr (List.mem_singleton.1 h)

theorem mem_recorded_note {due : Instant} {entry : Text × Nat}
    (h : entry ∈ (s.note path due).recorded) : entry ∈ s.recorded ∨ entry = (path, s.nextId) := by
  rcases List.mem_cons.1 h with h | h
  · exact .inr h
  · have hold := mem_unrecord h
    rw [stop_recorded] at hold
    exact .inl hold

theorem fire_of_mem (h : t ∈ s.armed) :
    s.fire t = { s with armed := s.armed.erase t, fired := s.fired ++ [t] } := if_pos h

theorem release_of_mem (h : t ∈ s.fired) :
    s.release t = { s.unrecord t.path with
      fired := s.fired.erase t, settled := s.settled ++ [t.path] } := if_pos h

end Parts

section Steps

variable {s s' : Schedule} {a : Action} {path : Text}

theorem Consistent.start : Consistent {} where
  armed_lt := by simp
  recorded_lt := by simp
  names := by simp

/-- A note keeps records and timers apart: the new timer has a number that none had before. -/
theorem Consistent.note (hs : s.Consistent) (path : Text) (due : Instant) :
    (s.note path due).Consistent where
  armed_lt t ht := by
    show t.id < s.nextId + 1
    rcases mem_armed_note ht with ht | rfl
    · have := hs.armed_lt t ht
      omega
    · exact Nat.lt_succ_self _
  recorded_lt entry hentry := by
    show entry.2 < s.nextId + 1
    rcases mem_recorded_note hentry with hentry | rfl
    · have := hs.recorded_lt entry hentry
      omega
    · exact Nat.lt_succ_self _
  names entry hentry t ht hid := by
    rcases mem_recorded_note hentry with hentry | rfl
    · rcases mem_armed_note ht with ht | rfl
      · exact hs.names entry hentry t ht hid
      · have := hs.recorded_lt entry hentry
        exact absurd hid (by simp only; omega)
    · rcases mem_armed_note ht with ht | rfl
      · have := hs.armed_lt t ht
        exact absurd hid (by simp only; omega)
      · rfl

/-- Every step keeps records and timers apart. -/
theorem Consistent.step (hs : s.Consistent) (hstep : Step s a s') : s'.Consistent := by
  cases hstep with
  | note path due => exact hs.note path due
  | fire ht =>
    rw [fire_of_mem ht]
    exact ⟨fun t ht => hs.armed_lt t (List.mem_of_mem_erase ht), hs.recorded_lt,
      fun entry hentry t ht => hs.names entry hentry t (List.mem_of_mem_erase ht)⟩
  | release ht =>
    rw [release_of_mem ht]
    exact ⟨hs.armed_lt, fun entry hentry => hs.recorded_lt entry (mem_unrecord hentry),
      fun entry hentry => hs.names entry (mem_unrecord hentry)⟩
  | handle hpath => exact ⟨hs.armed_lt, hs.recorded_lt, hs.names⟩

/-- A path that was noted is attended to. -/
theorem attends_note (s : Schedule) (path : Text) (due : Instant) :
    (s.note path due).Attends path :=
  .inl ⟨⟨s.nextId, path, due⟩, List.mem_append_right _ (List.mem_singleton_self _), rfl⟩

theorem Attends.note (h : s.Attends path) (hs : s.Consistent) (other : Text) (due : Instant) :
    (s.note other due).Attends path := by
  by_cases hother : path = other
  · subst hother
    exact attends_note s path due
  rcases h with ⟨t, ht, rfl⟩ | ⟨t, ht, rfl⟩ | h
  · exact .inl ⟨t, List.mem_append_left _ (hs.armed_stop ht hother), rfl⟩
  · refine .inr (.inl ⟨t, ?_, rfl⟩)
    show t ∈ (s.stop other).fired
    rwa [stop_fired]
  · refine .inr (.inr ?_)
    show path ∈ (s.stop other).settled
    rwa [stop_settled]

theorem Attends.fire (h : s.Attends path) {t : Timer} (ht : t ∈ s.armed) :
    (s.fire t).Attends path := by
  rw [fire_of_mem ht]
  rcases h with ⟨t', ht', rfl⟩ | ⟨t', ht', rfl⟩ | h
  · by_cases heq : t' = t
    · subst heq
      exact .inr (.inl ⟨t', List.mem_append_right _ (List.mem_singleton_self _), rfl⟩)
    · exact .inl ⟨t', (List.mem_erase_of_ne heq).2 ht', rfl⟩
  · exact .inr (.inl ⟨t', List.mem_append_left _ ht', rfl⟩)
  · exact .inr (.inr h)

theorem Attends.release (h : s.Attends path) {t : Timer} (ht : t ∈ s.fired) :
    (s.release t).Attends path := by
  rw [release_of_mem ht]
  rcases h with h | ⟨t', ht', rfl⟩ | h
  · exact .inl h
  · by_cases heq : t' = t
    · subst heq
      exact .inr (.inr (List.mem_append_right _ (List.mem_singleton_self _)))
    · exact .inr (.inl ⟨t', (List.mem_erase_of_ne heq).2 ht', rfl⟩)
  · exact .inr (.inr (List.mem_append_left _ h))

/-- No step but its handling takes away that a path is attended to. -/
theorem Attends.step (h : s.Attends path) (hs : s.Consistent) (hstep : Step s a s')
    (ha : a ≠ .handle path) : s'.Attends path := by
  cases hstep with
  | note other due => exact h.note hs other due
  | fire ht => exact h.fire ht
  | release ht => exact h.release ht
  | @handle other hother =>
    rcases h with h | h | h
    · exact .inl h
    · exact .inr (.inl h)
    · have hne : path ≠ other := fun heq => ha (by rw [heq])
      exact .inr (.inr ((List.mem_erase_of_ne hne).2 h))

end Steps

section Runs

variable {s s' : Schedule} {history later : List Action} {path : Text}

theorem Run.append {s'' : Schedule} (h : Run s history s') (h' : Run s' later s'') :
    Run s (history ++ later) s'' := by
  induction h with
  | nil => exact h'
  | cons hstep _ ih => exact .cons hstep (ih h')

theorem Run.of_append (h : Run s (history ++ later) s') :
    ∃ s₁, Run s history s₁ ∧ Run s₁ later s' := by
  induction history generalizing s with
  | nil => exact ⟨s, .nil s, h⟩
  | cons a history ih =>
    cases h with
    | cons hstep hrest =>
      obtain ⟨s₁, hhistory, hlater⟩ := ih hrest
      exact ⟨s₁, .cons hstep hhistory, hlater⟩

theorem Run.consistent (h : Run s history s') (hs : s.Consistent) : s'.Consistent := by
  induction h with
  | nil => exact hs
  | cons hstep _ ih => exact ih (hs.step hstep)

/-- A path is attended to until it is handled. -/
theorem Run.attends (h : Run s history s') (hs : s.Consistent) (hpath : s.Attends path)
    (hnot : .handle path ∉ history) : s'.Attends path := by
  induction h with
  | nil => exact hpath
  | cons hstep _ ih =>
    rw [List.mem_cons, not_or] at hnot
    exact ih (hs.step hstep) (hpath.step hs hstep (Ne.symm hnot.1)) hnot.2

/-- A watcher loses no change: in whatever order changes are noted, timers fire and release, and
    paths are handed over, a path that changed since it was handled last has an armed timer, or
    one that has fired and whose path was not handed over yet. -/
theorem loses_no_change (hrun : Run {} history s) (hchanged : Changed history path) :
    s.Attends path := by
  obtain ⟨before, due, after, rfl, hafter⟩ := hchanged
  obtain ⟨s₁, hbefore, hrest⟩ := hrun.of_append
  cases hrest with
  | cons hstep hlater =>
    cases hstep
    have hs₁ := hbefore.consistent .start
    exact hlater.attends (hs₁.note path due) (attends_note s₁ path due) hafter

/-- A timer fires and a further change arms another one before the first takes its record away;
    so the third change finds no record, and stops neither. The path is handled once, and
    changes again. -/
def overtaken : List Action :=
  [.note "a" 1, .fire ⟨0, "a", 1⟩, .note "a" 2, .release ⟨0, "a", 1⟩, .note "a" 3, .handle "a",
    .fire ⟨1, "a", 2⟩, .note "b" 3, .note "a" 4]

theorem loses_no_change_overtaken : ∃ s, Run {} overtaken s ∧ Changed overtaken "a" ∧
    Changed overtaken "b" ∧ s.Attends "a" ∧ s.Attends "b" := by
  have hrun : ∃ s, Run {} overtaken s :=
    ⟨_, .cons (.note _ _ _) <| .cons (.fire (by decide)) <| .cons (.note _ _ _) <|
      .cons (.release (by decide)) <| .cons (.note _ _ _) <| .cons (.handle (by decide)) <|
        .cons (.fire (by decide)) <| .cons (.note _ _ _) <| .cons (.note _ _ _) (.nil _)⟩
  have ha : Changed overtaken "a" := ⟨overtaken.take 8, 4, [], rfl, by simp⟩
  have hb : Changed overtaken "b" := ⟨overtaken.take 7, 3, [.note "a" 4], rfl, by simp⟩
  obtain ⟨s, hrun⟩ := hrun
  exact ⟨s, hrun, ha, hb, loses_no_change hrun ha, loses_no_change hrun hb⟩

end Runs

/-! ### Rounds of a host -/

section Rounds

variable {s : Schedule} {path : Text}

/-- A timer fires and releases its path at once, if it is armed. -/
theorem exists_run_fire_release (s : Schedule) (t : Timer) :
    ∃ history, Run s history ((s.fire t).release t) ∧ ∀ path, .handle path ∉ history := by
  have hrelease (s : Schedule) : ∃ history, Run s history (s.release t) ∧
      ∀ path, .handle path ∉ history := by
    by_cases ht : t ∈ s.fired
    · exact ⟨[.release t], .cons (.release ht) (.nil _), by simp⟩
    · rw [release, if_neg ht]
      exact ⟨[], .nil s, by simp⟩
  by_cases ht : t ∈ s.armed
  · obtain ⟨history, hrun, hnot⟩ := hrelease (s.fire t)
    exact ⟨.fire t :: history, .cons (.fire ht) hrun, fun path => by simpa using hnot path⟩
  · rw [fire, if_neg ht]
    exact hrelease s

/-- What a host does when time has passed is made of steps. -/
theorem exists_run_advance (s : Schedule) (now : Instant) :
    ∃ history, Run s history (s.advance now) ∧ ∀ path, .handle path ∉ history := by
  unfold advance
  generalize s.armed.filter _ = due
  induction due generalizing s with
  | nil => exact ⟨[], .nil s, by simp⟩
  | cons t due ih =>
    obtain ⟨first, hfirst, hnot⟩ := exists_run_fire_release s t
    obtain ⟨rest, hrest, hnot'⟩ := ih ((s.fire t).release t)
    exact ⟨first ++ rest, hfirst.append hrest, fun path => by simp [hnot path, hnot' path]⟩

/-- So is handing over all paths that wait. -/
theorem run_receiveAll (s : Schedule) : Run s (s.receiveAll.1.map .handle) s.receiveAll.2 := by
  show Run s (s.settled.map .handle) { s with settled := [] }
  generalize hsettled : s.settled = paths
  induction paths generalizing s with
  | nil =>
    cases s
    cases hsettled
    exact .nil _
  | cons path paths ih =>
    have hstep : Step s (.handle path) (s.handOver path) := .handle (by simp [hsettled])
    refine .cons hstep (ih (s.handOver path) ?_)
    simp [handOver, hsettled]

/-- A path that changed is handed over in a round of a host, or is attended to after it. -/
theorem attends_after_round (hs : s.Consistent) (hpath : s.Attends path) (now : Instant)
    (hnot : path ∉ (s.advance now).receiveAll.1) : (s.advance now).receiveAll.2.Attends path := by
  obtain ⟨history, hadvance, hhandles⟩ := exists_run_advance s now
  refine (hadvance.append (run_receiveAll _)).attends hs hpath fun hmem => ?_
  rcases List.mem_append.1 hmem with hmem | hmem
  · exact hhandles path hmem
  · obtain ⟨other, hother, heq⟩ := List.mem_map.1 hmem
    cases heq
    exact hnot hother

end Rounds

end Schedule

end Goat.Watch
