import Mathlib.Data.List.Infix

/-!
# Step Machines

A step machine is a partial function `step : σ → ℓ → Option σ`: the label resolves every choice
the machine has, and `none` says that the label is not enabled. Runs are finite lists of labels.

## Main rules

- `run_invariant`: what one step preserves, a whole run preserves.
- `run_visits`: what holds at the end because some state on the way has a property.
- `run_trace`, `run_flag`: what the labels of a run leave in a state.
- `run_simulation`: a relation to what a fold of the labels computes.
- `run_reaches`: a rank that drops with every step leads to a goal.
- `stepsAll_iff`: two properties of steps that agree on the states of an invariant agree on
  whole runs.
- `statesAll_iff_stepsAll`: a property that a step keeps exactly when it satisfies `Q` holds in all
  states of a run exactly when all its steps satisfy `Q`.
- `not_stepsAll_iff`: a property of steps that does not hold of a run fails at one of its steps.
- `run_invariant_of_stepsAll`: what the steps with a property preserve holds at the end of a run of
  such steps.
- `stepsAll_of_stepsAll`: what the steps with a property have, in the states that they preserve.
- `state_iff_stepsAll`: a property of states that a step keeps exactly when it satisfies `Q` holds
  at the end of a run exactly when all its steps satisfy `Q`.
-/

namespace StepMachine

variable {σ ℓ : Type*} (step : σ → ℓ → Option σ)

/-- The state after the labels `ls`, `none` when one of them is not enabled. -/
def run : σ → List ℓ → Option σ
  | s, [] => some s
  | s, l :: ls => (step s l).bind fun s' => run s' ls

@[simp] theorem run_nil (s : σ) : run step s [] = some s := rfl

theorem run_cons_eq_some {s s' : σ} {l : ℓ} {ls : List ℓ} :
    run step s (l :: ls) = some s' ↔ ∃ t, step s l = some t ∧ run step t ls = some s' := by
  simp only [run, Option.bind_eq_some_iff]

/-- A run splits at every point. -/
theorem run_append_eq_some {s s' : σ} {ls ls' : List ℓ} :
    run step s (ls ++ ls') = some s' ↔
      ∃ t, run step s ls = some t ∧ run step t ls' = some s' := by
  induction ls generalizing s with
  | nil => simp
  | cons l ls ih =>
    simp only [List.cons_append, run_cons_eq_some, ih]
    constructor
    · rintro ⟨u, hu, t, ht, hs⟩
      exact ⟨t, ⟨u, hu, ht⟩, hs⟩
    · rintro ⟨t, ⟨u, hu, ht⟩, hs⟩
      exact ⟨u, hu, t, ht, hs⟩

/-- **Invariant rule**: a property that every step preserves holds at the end of every run that
starts in it. -/
theorem run_invariant {I : σ → Prop} (hstep : ∀ s l s', I s → step s l = some s' → I s')
    {s s' : σ} {ls : List ℓ} (hs : I s) (hrun : run step s ls = some s') : I s' := by
  induction ls generalizing s with
  | nil =>
    simp only [run_nil, Option.some.injEq] at hrun
    exact hrun ▸ hs
  | cons l ls ih =>
    obtain ⟨t, ht, hrest⟩ := (run_cons_eq_some step).mp hrun
    exact ih (hstep s l t hs ht) hrest

/-- **Visit rule**: a property that holds after a step exactly if it held before or the new state has
`Q` holds at the end of a run exactly if it held at first or the run has come to a state with `Q`. -/
theorem run_visits {I P Q : σ → Prop} (hstep : ∀ s l s', I s → step s l = some s' → I s')
    (hPQ : ∀ s l s', I s → step s l = some s' → (P s' ↔ P s ∨ Q s'))
    {s s' : σ} {ls : List ℓ} (hs : I s) (hrun : run step s ls = some s') :
    P s' ↔ P s ∨ ∃ i t, 0 < i ∧ i ≤ ls.length ∧ run step s (ls.take i) = some t ∧ Q t := by
  induction ls generalizing s with
  | nil =>
    simp only [run_nil, Option.some.injEq] at hrun
    subst hrun
    refine (or_iff_left ?_).symm
    rintro ⟨i, t, hi, hle, -⟩
    exact absurd hle (Nat.not_le.mpr hi)
  | cons l ls ih =>
    obtain ⟨u, hu, hrest⟩ := (run_cons_eq_some step).mp hrun
    rw [ih (hstep s l u hs hu) hrest, hPQ s l u hs hu, or_assoc]
    refine or_congr_right ⟨?_, ?_⟩
    · rintro (hQ | ⟨i, t, -, hle, ht, hQ⟩)
      · exact ⟨1, u, Nat.one_pos, Nat.succ_pos _, (run_cons_eq_some step).mpr ⟨u, hu, rfl⟩, hQ⟩
      · exact ⟨i + 1, t, Nat.succ_pos _, Nat.succ_le_succ hle,
          (run_cons_eq_some step).mpr ⟨u, hu, ht⟩, hQ⟩
    · rintro ⟨i, t, hi, hle, ht, hQ⟩
      obtain ⟨j, rfl⟩ := Nat.exists_eq_add_one.mpr hi
      obtain ⟨v, hv, ht⟩ := (run_cons_eq_some step).mp ht
      obtain rfl := Option.some.inj (hu.symm.trans hv)
      cases j with
      | zero =>
        obtain rfl := Option.some.inj ht
        exact .inl hQ
      | succ j => exact .inr ⟨j + 1, t, Nat.succ_pos _, Nat.le_of_succ_le_succ hle, ht, hQ⟩

/-- **Trace rule**: a record of the state to which every step appends the entries of its label has,
at the end of a run, the entries of all labels appended. -/
theorem run_trace {β : Type*} {f : σ → List β} {out : ℓ → List β}
    (hstep : ∀ s l s', step s l = some s' → f s' = f s ++ out l)
    {s s' : σ} {ls : List ℓ} (hrun : run step s ls = some s') : f s' = f s ++ ls.flatMap out := by
  induction ls generalizing s with
  | nil =>
    simp only [run_nil, Option.some.injEq] at hrun
    rw [hrun, List.flatMap_nil, List.append_nil]
  | cons l ls ih =>
    obtain ⟨t, ht, hrest⟩ := (run_cons_eq_some step).mp hrun
    rw [ih hrest, hstep s l t ht, List.flatMap_cons, List.append_assoc]

/-- **Flag rule**: a property that holds after a step exactly if it held before or the label sets it
holds at the end of a run exactly if it held at first or one of the labels sets it. -/
theorem run_flag {P : σ → Prop} {sets : ℓ → Prop}
    (hstep : ∀ s l s', step s l = some s' → (P s' ↔ P s ∨ sets l))
    {s s' : σ} {ls : List ℓ} (hrun : run step s ls = some s') : P s' ↔ P s ∨ ∃ l ∈ ls, sets l := by
  induction ls generalizing s with
  | nil =>
    simp only [run_nil, Option.some.injEq] at hrun
    simp [hrun]
  | cons l ls ih =>
    obtain ⟨t, ht, hrest⟩ := (run_cons_eq_some step).mp hrun
    rw [ih hrest, hstep s l t ht, List.exists_mem_cons_iff, or_assoc]

/-- **Simulation rule**: what every step preserves, when `f` follows its label, relates the end of a
run to the fold of its labels. -/
theorem run_simulation {α : Type*} {R : σ → α → Prop} {f : α → ℓ → α}
    (hstep : ∀ s a l s', R s a → step s l = some s' → R s' (f a l))
    {s s' : σ} {a : α} {ls : List ℓ} (hs : R s a) (hrun : run step s ls = some s') :
    R s' (ls.foldl f a) := by
  induction ls generalizing s a with
  | nil =>
    simp only [run_nil, Option.some.injEq] at hrun
    exact hrun ▸ hs
  | cons l ls ih =>
    obtain ⟨t, ht, hrest⟩ := (run_cons_eq_some step).mp hrun
    exact ih (hstep s a l t hs ht) hrest

/-- **Variant rule**: inside the invariant `I` a rank that drops with every label of the kind `L`, as
long as the goal is not reached, leads to the goal along every list of such labels that is long
enough. -/
theorem run_reaches {I goal : σ → Prop} {r : σ → ℕ} {L : ℓ → Prop}
    (hzero : ∀ s, I s → r s = 0 → goal s)
    (hstep : ∀ s l, I s → ¬ goal s → L l → ∃ s', step s l = some s' ∧ I s' ∧ r s' < r s)
    {s : σ} {ls : List ℓ} (hs : I s) (hL : ∀ l ∈ ls, L l) (hrank : r s ≤ ls.length) :
    ∃ ls' s', ls' <+: ls ∧ run step s ls' = some s' ∧ I s' ∧ goal s' := by
  induction ls generalizing s with
  | nil => exact ⟨[], s, List.prefix_refl _, rfl, hs, hzero s hs (Nat.le_zero.mp hrank)⟩
  | cons l ls ih =>
    by_cases hgoal : goal s
    · exact ⟨[], s, List.nil_prefix, rfl, hs, hgoal⟩
    · obtain ⟨t, ht, hI, hlt⟩ := hstep s l hs hgoal (hL l List.mem_cons_self)
      have hrest : r t ≤ ls.length := by
        rw [List.length_cons] at hrank
        omega
      obtain ⟨ls', s', hpre, hrun, hI', hgoal'⟩ :=
        ih hI (fun l' hl' => hL l' (List.mem_cons_of_mem _ hl')) hrest
      exact ⟨l :: ls', s', (List.prefix_cons_inj l).mpr hpre,
        (run_cons_eq_some step).mpr ⟨t, ht, hrun⟩, hI', hgoal'⟩

/-! ## Properties of all steps of a run -/

/-- Every step of the run from `s` along `ls` satisfies `P`. -/
def StepsAll (P : σ → ℓ → σ → Prop) : σ → List ℓ → Prop
  | _, [] => True
  | s, l :: ls => ∀ s', step s l = some s' → P s l s' ∧ StepsAll P s' ls

/-- Properties of steps that agree inside an invariant agree on the runs that start in it. -/
theorem stepsAll_iff {I : σ → Prop} {P Q : σ → ℓ → σ → Prop}
    (hstep : ∀ s l s', I s → step s l = some s' → I s')
    (hPQ : ∀ s l s', I s → step s l = some s' → (P s l s' ↔ Q s l s'))
    {s : σ} (ls : List ℓ) (hs : I s) : StepsAll step P s ls ↔ StepsAll step Q s ls := by
  induction ls generalizing s with
  | nil => exact Iff.rfl
  | cons l ls ih =>
    simp only [StepsAll]
    refine forall₂_congr fun s' hs' => ?_
    exact and_congr (hPQ s l s' hs hs') (ih (hstep s l s' hs hs'))

/-- A property of labels holds of all steps of a run exactly if it holds of its labels. -/
theorem stepsAll_labels (Q : ℓ → Prop) {s s' : σ} {ls : List ℓ} (hrun : run step s ls = some s') :
    StepsAll step (fun _ l _ => Q l) s ls ↔ ∀ l ∈ ls, Q l := by
  induction ls generalizing s with
  | nil => simp [StepsAll]
  | cons l ls ih =>
    obtain ⟨t, ht, hrest⟩ := (run_cons_eq_some step).mp hrun
    simp [StepsAll, ht, ih hrest]

/-- A property fails in a run at one of its steps. -/
theorem not_stepsAll_iff {P : σ → ℓ → σ → Prop} {s : σ} {ls : List ℓ} :
    ¬ StepsAll step P s ls ↔
      ∃ ls₁ l ls₂ t t', ls = ls₁ ++ l :: ls₂ ∧ run step s ls₁ = some t ∧ step t l = some t' ∧
        ¬ P t l t' := by
  induction ls generalizing s with
  | nil => simp [StepsAll]
  | cons l ls ih =>
    constructor
    · intro h
      simp only [StepsAll, not_forall] at h
      obtain ⟨s', hs', h⟩ := h
      by_cases hP : P s l s'
      -- the first step has the property, so a later one has not
      · obtain ⟨ls₁, l', ls₂, t, t', rfl, hrun, ht', hnot⟩ := ih.mp fun hall => h ⟨hP, hall⟩
        exact ⟨l :: ls₁, l', ls₂, t, t', rfl, (run_cons_eq_some step).mpr ⟨s', hs', hrun⟩, ht', hnot⟩
      · exact ⟨[], l, ls, s, s', rfl, rfl, hs', hP⟩
    · rintro ⟨ls₁, l', ls₂, t, t', heq, hrun, ht', hnot⟩ hall
      cases ls₁ with
      | nil =>
        obtain ⟨rfl, rfl⟩ := List.cons.inj heq
        obtain rfl := Option.some.inj hrun
        exact hnot (hall t' ht').1
      | cons x ls₁ =>
        obtain ⟨rfl, rfl⟩ := List.cons.inj heq
        obtain ⟨u, hu, hrest⟩ := (run_cons_eq_some step).mp hrun
        exact ih.mpr ⟨ls₁, l', ls₂, t, t', rfl, hrest, ht', hnot⟩ (hall u hu).2

/-- **Conditional invariant rule**: a property that the steps with `Q` preserve holds at the end of
every run whose steps all have `Q`. -/
theorem run_invariant_of_stepsAll {I : σ → Prop} {Q : σ → ℓ → σ → Prop}
    (hstep : ∀ s l s', I s → step s l = some s' → Q s l s' → I s')
    {s s' : σ} {ls : List ℓ} (hs : I s) (hrun : run step s ls = some s')
    (hall : StepsAll step Q s ls) : I s' := by
  induction ls generalizing s with
  | nil =>
    simp only [run_nil, Option.some.injEq] at hrun
    exact hrun ▸ hs
  | cons l ls ih =>
    obtain ⟨t, ht, hrest⟩ := (run_cons_eq_some step).mp hrun
    obtain ⟨hQ, hall'⟩ := hall t ht
    exact ih (hstep s l t hs ht hQ) hrest hall'

/-- **Conditional step rule**: if the steps with `Q` preserve `I` and have `P`, every run whose steps
all have `Q` has steps that all have `P`. -/
theorem stepsAll_of_stepsAll {I : σ → Prop} {P Q : σ → ℓ → σ → Prop}
    (hstep : ∀ s l s', I s → step s l = some s' → Q s l s' → I s' ∧ P s l s')
    {s : σ} (ls : List ℓ) (hs : I s) (hall : StepsAll step Q s ls) : StepsAll step P s ls := by
  induction ls generalizing s with
  | nil => trivial
  | cons l ls ih =>
    intro s' hs'
    obtain ⟨hQ, hall'⟩ := hall s' hs'
    obtain ⟨hI, hP⟩ := hstep s l s' hs hs' hQ
    exact ⟨hP, ih hI hall'⟩

/-- **Exactness rule**: if a step keeps `P` and satisfies `Q` exactly when `P` holds after it, then
`P` holds at the end of a run exactly when all its steps satisfy `Q`. -/
theorem state_iff_stepsAll {I P : σ → Prop} {Q : σ → ℓ → σ → Prop}
    (hstep : ∀ s l s', I s → step s l = some s' → I s')
    (hPQ : ∀ s l s', I s → step s l = some s' → (P s' ↔ P s ∧ Q s l s'))
    {s s' : σ} {ls : List ℓ} (hs : I s) (hrun : run step s ls = some s') :
    P s' ↔ P s ∧ StepsAll step Q s ls := by
  induction ls generalizing s with
  | nil =>
    simp only [run_nil, Option.some.injEq] at hrun
    simp only [← hrun, StepsAll, and_true]
  | cons l ls ih =>
    obtain ⟨t, ht, hrest⟩ := (run_cons_eq_some step).mp hrun
    rw [ih (hstep s l t hs ht) hrest, hPQ s l t hs ht, and_assoc]
    refine and_congr_right fun _ => ⟨fun h u hu => ?_, fun h => h t ht⟩
    rw [ht, Option.some.injEq] at hu
    exact hu ▸ h

/-- **Exactness rule for properties of states**: if, while `P` holds, a step keeps it exactly when
the step satisfies `Q`, then `P` holds in all states of a run exactly when all its steps satisfy
`Q`. -/
theorem statesAll_iff_stepsAll {I P : σ → Prop} {Q : σ → ℓ → σ → Prop}
    (hstep : ∀ s l s', I s → step s l = some s' → I s')
    (hPQ : ∀ s l s', I s → P s → step s l = some s' → (P s' ↔ Q s l s'))
    {s : σ} (ls : List ℓ) (hs : I s) (hP : P s) :
    StepsAll step (fun _ _ s' => P s') s ls ↔ StepsAll step Q s ls := by
  induction ls generalizing s with
  | nil => exact Iff.rfl
  | cons l ls ih =>
    simp only [StepsAll]
    refine forall₂_congr fun s' hs' => ?_
    rw [← hPQ s l s' hs hP hs']
    exact and_congr_right fun hP' => ih (hstep s l s' hs hs') hP'

end StepMachine
