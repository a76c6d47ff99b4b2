import Mathlib.Algebra.GroupWithZero.Nat
import Mathlib.Data.List.Basic
import Mathlib.Data.Nat.Notation

/-!
# Processes

Three things that programs made of system calls have in common. A descriptor table maps small
numbers to open objects and hands out the lowest free one; where only part of a process is
modelled, the other parts have taken some of the numbers. A routine of calls that may fail goes
through its steps up to the first failure; what every step keeps, the routine keeps. And a process
that is interrupted by events is a machine, whose runs are the lists of events that it admits.
-/

namespace Process

/-! ## Descriptor tables -/

section Table

variable {α : Type}

/-- The object behind a descriptor, if it is open -/
def fd (table : List (Option α)) (k : ℕ) : Option α :=
  table[k]?.join

/-- The lowest descriptor that is free and not one of `others` -/
def lowest (others : List ℕ) (table : List (Option α)) : ℕ :=
  ((List.range (table.length + others.sum + 1)).find? fun k =>
    (fd table k).isNone && !others.contains k).getD (table.length + others.sum + 1)

/-- The table with an object at a descriptor -/
def opened (table : List (Option α)) (k : ℕ) (x : α) : List (Option α) :=
  (table ++ List.replicate (k + 1 - table.length) none).set k (some x)

/-- The table with a descriptor closed -/
def closed (table : List (Option α)) (k : ℕ) : List (Option α) :=
  table.set k none

theorem fd_lowest (others : List ℕ) (table : List (Option α)) :
    fd table (lowest others table) = none := by
  rw [lowest]
  rcases hfind : (List.range (table.length + others.sum + 1)).find? fun k =>
      (fd table k).isNone && !others.contains k with _ | k
  · rw [Option.getD_none, fd, List.getElem?_eq_none (by omega), Option.join_none]
  · have hfree := List.find?_some hfind
    rw [Bool.and_eq_true] at hfree
    exact Option.isNone_iff_eq_none.mp hfree.1

theorem fd_opened (table : List (Option α)) (n : ℕ) (x : α) (k : ℕ) :
    fd (opened table n x) k = if k = n then some x else fd table k := by
  rw [opened, fd, List.getElem?_set]
  by_cases hk : k = n
  · rw [if_pos hk.symm, if_pos hk, if_pos, Option.join_some]
    rw [List.length_append, List.length_replicate]
    omega
  · rw [if_neg (Ne.symm hk), if_neg hk, fd]
    by_cases hlt : k < table.length
    · rw [List.getElem?_append_left hlt]
    · -- the table is padded with free descriptors
      rw [List.getElem?_append_right (Nat.le_of_not_lt hlt),
        List.getElem?_eq_none (Nat.le_of_not_lt hlt), List.getElem?_replicate]
      split <;> rfl

theorem fd_closed (table : List (Option α)) (n k : ℕ) :
    fd (closed table n) k = if k = n then none else fd table k := by
  rw [closed, fd, List.getElem?_set]
  by_cases hk : k = n
  · rw [if_pos hk.symm, if_pos hk]
    split <;> rfl
  · rw [if_neg (Ne.symm hk), if_neg hk, fd]

theorem fd_map {β : Type} (f : α → β) (table : List (Option α)) (k : ℕ) :
    fd (table.map (Option.map f)) k = (fd table k).map f := by
  rw [fd, fd, List.getElem?_map]
  cases table[k]? with
  | none => rfl
  | some x => rfl

end Table

/-! ## Routines -/

section Steps

variable {σ : Type}

/-- Goes through the steps up to the first that fails; a step says whether it succeeded. -/
def runSteps : List (σ → Bool × σ) → σ → Bool × σ
  | [], w => (true, w)
  | step :: steps, w =>
    match step w with
    | (false, w) => (false, w)
    | (true, w) => runSteps steps w

theorem runSteps_cons_true {step : σ → Bool × σ} {steps : List (σ → Bool × σ)} {w w' : σ}
    (h : step w = (true, w')) : runSteps (step :: steps) w = runSteps steps w' := by
  rw [runSteps, h]

theorem runSteps_cons_false {step : σ → Bool × σ} {steps : List (σ → Bool × σ)} {w w' : σ}
    (h : step w = (false, w')) : runSteps (step :: steps) w = (false, w') := by
  rw [runSteps, h]

theorem runSteps_append (steps more : List (σ → Bool × σ)) (w : σ) :
    runSteps (steps ++ more) w =
      match runSteps steps w with
      | (false, w) => (false, w)
      | (true, w) => runSteps more w := by
  induction steps generalizing w with
  | nil => rfl
  | cons step steps ih =>
    rw [List.cons_append]
    rcases hstep : step w with ⟨_ | _, w'⟩
    · rw [runSteps_cons_false hstep, runSteps_cons_false hstep]
    · rw [runSteps_cons_true hstep, runSteps_cons_true hstep, ih]

/-- A routine that gets through has got through its parts. -/
theorem runSteps_append_true {steps more : List (σ → Bool × σ)} {w w' : σ}
    (h : runSteps (steps ++ more) w = (true, w')) :
    ∃ w₁, runSteps steps w = (true, w₁) ∧ runSteps more w₁ = (true, w') := by
  rw [runSteps_append] at h
  rcases hfirst : runSteps steps w with ⟨_ | _, w₁⟩
  · rw [hfirst] at h
    cases h
  · rw [hfirst] at h
    exact ⟨w₁, rfl, h⟩

theorem runSteps_singleton (step : σ → Bool × σ) (w : σ) : runSteps [step] w = step w := by
  rcases hstep : step w with ⟨_ | _, w'⟩
  · exact runSteps_cons_false hstep
  · exact runSteps_cons_true hstep

/-- A routine that is called as a step of another -/
theorem runSteps_nested (steps more : List (σ → Bool × σ)) (w : σ) :
    runSteps (runSteps steps :: more) w = runSteps (steps ++ more) w := by
  rw [runSteps_append, runSteps]

/-- What every step keeps, whether it succeeds or fails, the routine keeps. -/
theorem runSteps_keeps {inv : σ → Prop} {steps : List (σ → Bool × σ)}
    (hsteps : ∀ step ∈ steps, ∀ w, inv w → inv (step w).2) {w : σ} (hw : inv w) :
    inv (runSteps steps w).2 := by
  induction steps generalizing w with
  | nil => exact hw
  | cons step steps ih =>
    have hkeep := hsteps step (List.mem_cons_self ..) w hw
    rcases hstep : step w with ⟨_ | _, w'⟩
    · rw [runSteps_cons_false hstep]
      rwa [hstep] at hkeep
    · rw [runSteps_cons_true hstep]
      rw [hstep] at hkeep
      exact ih (fun step hmem => hsteps step (List.mem_cons_of_mem _ hmem)) hkeep

end Steps

/-! ## Runs -/

section Runs

variable {σ ε : Type} {step : σ → ε → Option σ}

/-- A run of a machine: there is none if the machine does not admit an event where it stands. -/
def run (step : σ → ε → Option σ) (s : σ) : List ε → Option σ
  | [] => some s
  | e :: events => (step s e).bind fun s' => run step s' events

/-- What every step keeps, every run keeps. -/
theorem run_keeps {inv : σ → Prop} (hstep : ∀ s e s', inv s → step s e = some s' → inv s')
    {s s' : σ} (hs : inv s) {events : List ε} (h : run step s events = some s') : inv s' := by
  induction events generalizing s with
  | nil =>
    cases h
    exact hs
  | cons e events ih =>
    obtain ⟨s₁, hfirst, hrest⟩ := Option.bind_eq_some_iff.mp h
    exact ih (hstep s e s₁ hs hfirst) hrest

theorem run_append {s s₁ : σ} {past : List ε} (h : run step s past = some s₁) (events : List ε) :
    run step s (past ++ events) = run step s₁ events := by
  induction past generalizing s with
  | nil =>
    cases h
    rfl
  | cons e past ih =>
    obtain ⟨s', hfirst, hrest⟩ := Option.bind_eq_some_iff.mp h
    rw [List.cons_append, run, hfirst, Option.bind_some, ih hrest]

/-- The same for what also depends on the events so far. -/
theorem run_keeps_past {inv : List ε → σ → Prop} {s : σ}
    (hstep : ∀ past s₁ e s₂, run step s past = some s₁ → inv past s₁ → step s₁ e = some s₂ →
      inv (past ++ [e]) s₂)
    (hs : inv [] s) {events : List ε} {s' : σ} (h : run step s events = some s') :
    inv events s' := by
  have hfrom : ∀ (events past : List ε) (s₁ : σ), run step s past = some s₁ → inv past s₁ →
      run step s₁ events = some s' → inv (past ++ events) s' := by
    intro events
    induction events with
    | nil =>
      intro past s₁ _ hinv hrun
      cases hrun
      rwa [List.append_nil]
    | cons e events ih =>
      intro past s₁ hpast hinv hrun
      obtain ⟨s₂, hfirst, hrest⟩ := Option.bind_eq_some_iff.mp hrun
      have hpast' : run step s (past ++ [e]) = some s₂ := by
        rw [run_append hpast, run, hfirst]
        rfl
      rw [List.append_cons]
      exact ih (past ++ [e]) s₂ hpast' (hstep past s₁ e s₂ hpast hinv hfirst) hrest
  exact hfrom events [] s rfl hs h

/-- Where every step reaches a goal, or keeps an invariant and pays for its event with the rank, a
run reaches the goal before the rank is used up. -/
theorem run_within {inv goal : σ → Prop} {rank : σ → ℕ} {cost : ε → ℕ}
    (hstep : ∀ s e s', inv s → step s e = some s' →
      goal s' ∨ inv s' ∧ rank s' + cost e ≤ rank s) {s s' : σ} (hs : inv s) {events : List ε}
    (h : run step s events = some s') :
    (∃ front back s₁, events = front ++ back ∧ run step s front = some s₁ ∧ goal s₁) ∨
      inv s' ∧ rank s' + (events.map cost).sum ≤ rank s := by
  induction events generalizing s with
  | nil =>
    cases h
    exact Or.inr ⟨hs, Nat.le_refl _⟩
  | cons e events ih =>
    obtain ⟨s₁, hfirst, hrest⟩ := Option.bind_eq_some_iff.mp h
    have hcons : ∀ front, run step s (e :: front) = run step s₁ front := by
      intro front
      rw [run, hfirst, Option.bind_some]
    rcases hstep s e s₁ hs hfirst with hgoal | ⟨hs₁, hrank⟩
    · exact Or.inl ⟨[e], events, s₁, rfl, hcons [], hgoal⟩
    rcases ih hs₁ hrest with ⟨front, back, s₂, rfl, hfront, hgoal⟩ | ⟨hs', hrest'⟩
    · exact Or.inl ⟨e :: front, back, s₂, rfl, (hcons front).trans hfront, hgoal⟩
    · rw [List.map_cons, List.sum_cons]
      exact Or.inr ⟨hs', by omega⟩

/-- Every event of a run meets a condition in the state where it happens. -/
def Meets (step : σ → ε → Option σ) (ok : σ → ε → Prop) (s : σ) : List ε → Prop
  | [] => True
  | e :: events => ok s e ∧ ∀ s', step s e = some s' → Meets step ok s' events

instance Meets.decidable (ok : σ → ε → Prop) [∀ s e, Decidable (ok s e)] :
    ∀ (s : σ) (events : List ε), Decidable (Meets step ok s events)
  | _, [] => isTrue trivial
  | s, e :: events =>
    match h : step s e with
    | none => decidable_of_iff (ok s e) (by simp [Meets, h])
    | some s' =>
      have := Meets.decidable ok s' events
      decidable_of_iff (ok s e ∧ Meets step ok s' events) (by simp [Meets, h])

theorem meets_of_mem {ok : σ → ε → Prop} {events : List ε} (h : ∀ e ∈ events, ∀ s, ok s e)
    (s : σ) : Meets step ok s events := by
  induction events generalizing s with
  | nil => trivial
  | cons e events ih =>
    refine ⟨h e (List.mem_cons_self ..) s, fun s' _ => ?_⟩
    exact ih (fun e he => h e (List.mem_cons_of_mem _ he)) s'

theorem Meets.imp {ok ok' : σ → ε → Prop} {s : σ} {events : List ε}
    (h : Meets step ok s events) (himp : ∀ s e, ok s e → ok' s e) : Meets step ok' s events := by
  induction events generalizing s with
  | nil => trivial
  | cons e events ih => exact ⟨himp s e h.1, fun s' hs' => ih (h.2 s' hs')⟩

theorem Meets.and {ok ok' : σ → ε → Prop} {s : σ} {events : List ε}
    (h : Meets step ok s events) (h' : Meets step ok' s events) :
    Meets step (fun s e => ok s e ∧ ok' s e) s events := by
  induction events generalizing s with
  | nil => trivial
  | cons e events ih =>
    exact ⟨⟨h.1, h'.1⟩, fun s' hs' => ih (h.2 s' hs') (h'.2 s' hs')⟩

theorem meets_append {ok : σ → ε → Prop} {s s' : σ} {events : List ε}
    (h : run step s events = some s') (more : List ε) :
    Meets step ok s (events ++ more) ↔ Meets step ok s events ∧ Meets step ok s' more := by
  induction events generalizing s with
  | nil =>
    cases h
    rw [List.nil_append]
    exact (iff_of_eq (true_and _)).symm
  | cons e events ih =>
    obtain ⟨s₁, hfirst, hrest⟩ := Option.bind_eq_some_iff.mp h
    have hnext : ∀ events', (∀ s', step s e = some s' → Meets step ok s' events') ↔
        Meets step ok s₁ events' := by
      intro events'
      refine ⟨fun h => h s₁ hfirst, fun h s' hs' => ?_⟩
      rw [hfirst] at hs'
      cases hs'
      exact h
    rw [List.cons_append, Meets, Meets, hnext, hnext, ih hrest, and_assoc]

/-- What every step that meets the condition keeps, every run whose events meet it keeps. -/
theorem run_keeps_of_meets {ok : σ → ε → Prop} {inv : σ → Prop}
    (hstep : ∀ s e s', inv s → ok s e → step s e = some s' → inv s') {s s' : σ} (hs : inv s)
    {events : List ε} (hok : Meets step ok s events) (h : run step s events = some s') :
    inv s' := by
  induction events generalizing s with
  | nil =>
    cases h
    exact hs
  | cons e events ih =>
    obtain ⟨s₁, hfirst, hrest⟩ := Option.bind_eq_some_iff.mp h
    exact ih (hstep s e s₁ hs hok.1 hfirst) (hok.2 s₁ hfirst) hrest

end Runs

end Process
