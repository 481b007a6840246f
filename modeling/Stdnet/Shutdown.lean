import Stdnet.ConnectOutcome
import Stdnet.Coroutines

/-!
# Coroutines that Request Stops

A coroutine may request the stop of the source whose token it was itself spawned with, as the
clients of `examples/server.cpp` do. The request has returned before the coroutine awaits its next
operation, which is started with a stop already requested.

## Main results

- `stopped_of_asked`, `stopped_iff_asked`: the stops that are requested are those that some coroutine
  was to request.
- `Obedient.step`: the stop that a coroutine requests comes before the operation it awaits then.
- `own_stop`: a coroutine that has requested its own stop is resumed with nothing else.
- `own_stop_undefined`: its operation is completed inside `_Start`, so that the event loop is not
  entered again.
- `Coherent.resumed_of_stopReturned`: when the request has returned no coroutine of the source is
  suspended.
-/

namespace Stdnet

namespace LibeventContext

open ListEntries History World

namespace Tasks

variable {α σ ε : Type*} {C : Coroutine α σ ε} {c c' : Tasks α σ ε} {a : TaskAction α ε}
  {as : List (TaskAction α ε)} {k i : ℕ} {p : Task α σ ε} {s : σ} {src : Source}

/-! ## Requests -/

/-- Some coroutine was resumed in a state in which it requests the stop of `src`. -/
def Asked (C : Coroutine α σ ε) (c : Tasks α σ ε) (src : Source) : Prop :=
  ∃ (k : ℕ) (p : Task α σ ε) (i : ℕ) (s : σ), c.tasks[k]? = some p ∧ 0 < i ∧
    i ≤ p.resumed.length ∧ C.run (C.call p.arg) (p.resumed.take i) = some s ∧
    C.stops s = some src

/-- The stop of `src` was requested, or a receiver on the call stack will request it. -/
def Requested (c : Tasks α σ ε) (src : Source) : Prop :=
  c.world.stopped src = true ∨ .requestStop src ∈ c.receivers.flatten

/-- Code that is not a coroutine's requests a stop. -/
def IsRequest : TaskAction α ε → Prop
  | .step (.requestStop _) _ => True
  | _ => False

theorem stopped_eq {w w' : LibeventWorld} {l : Label} (hw : w.step l = some w')
    (hl : ∀ src, l ≠ .requestStop src) : w'.stopped = w.stopped := by
  obtain ⟨-, hcases⟩ := step_cases hw
  cases hcases with
  | requestStop hmay => exact absurd rfl (hl _)
  | perform | ready => exact apply_stopped _ _ _ _
  | _ => rfl

/-- The start of an operation requests no stop. -/
theorem stopped_start {w w' : LibeventWorld} {d : Desc} {token : Source}
    (hw : w.step (.start d token) = some w') : w'.stopped = w.stopped :=
  stopped_eq hw fun src heq => by cases heq

/-- The step that signals an operation requests no stop. -/
theorem stopped_signal {w w' : LibeventWorld} {l : Label} {x : OpId × Signal}
    (hw : w.step l = some w') (hsome : delivery w l = some x) : w'.stopped = w.stopped := by
  refine stopped_eq hw fun src heq => ?_
  rw [heq] at hsome
  cases hsome

theorem stopped_requestStop {w w' : LibeventWorld} {s : Source}
    (hw : w.step (.requestStop s) = some w') :
    w'.stopped src = true ↔ w.stopped src = true ∨ src = s := by
  obtain ⟨-, hcases⟩ := step_cases hw
  cases hcases with
  | requestStop hmay =>
    unfold World.requestStop
    split
    next hstopped =>
      refine ⟨.inl, fun h => h.elim id ?_⟩
      rintro rfl
      exact hstopped
    next => by_cases heq : src = s <;> simp [Function.update, heq]

theorem requestStop_mem_duties {s : σ} : .requestStop src ∈ duties C k s ↔ C.stops s = some src := by
  unfold duties
  split <;> simp

/-- No coroutine is resumed: those that there are have the same past, and new ones have none. -/
theorem asked_congr
    (hnew : ∀ (k : ℕ) (p' : Task α σ ε), c'.tasks[k]? = some p' → p'.resumed = [] ∨
      ∃ p, c.tasks[k]? = some p ∧ p'.arg = p.arg ∧ p'.resumed = p.resumed)
    (hold : ∀ (k : ℕ) (p : Task α σ ε), c.tasks[k]? = some p →
      ∃ p', c'.tasks[k]? = some p' ∧ p'.arg = p.arg ∧ p'.resumed = p.resumed) :
    Asked C c' src ↔ Asked C c src := by
  constructor
  · rintro ⟨k, p', i, s, hp', hi, hle, hrun, hstops⟩
    rcases hnew k p' hp' with hnil | ⟨p, hp, harg, hresumed⟩
    · rw [hnil] at hle
      exact absurd hle (Nat.not_le.mpr hi)
    · exact ⟨k, p, i, s, hp, hi, hresumed ▸ hle, harg ▸ hresumed ▸ hrun, hstops⟩
  · rintro ⟨k, p, i, s, hp, hi, hle, hrun, hstops⟩
    obtain ⟨p', hp', harg, hresumed⟩ := hold k p hp
    exact ⟨k, p', i, s, hp', hi, hresumed ▸ hle, by rw [harg, hresumed]; exact hrun, hstops⟩

/-- The coroutine `k` is resumed. -/
theorem asked_resume (hrun : C.run (C.call p.arg) p.resumed = some p.state)
    (hp : c.tasks[k]? = some p) {y : Signal × ε} {s' : σ}
    (hresume : C.resume p.state y.1 y.2 = some s')
    (htasks : c'.tasks = c.tasks.set k { p with state := s', resumed := p.resumed ++ [y] }) :
    Asked C c' src ↔ Asked C c src ∨ C.stops s' = some src := by
  have hnow : C.run (C.call p.arg) (p.resumed ++ [y]) = some s' :=
    (StepMachine.run_append_eq_some _).mpr
      ⟨_, hrun, (StepMachine.run_cons_eq_some _).mpr ⟨_, hresume, rfl⟩⟩
  constructor
  · rintro ⟨k', p', i, s, hp', hi, hle, hrun', hstops⟩
    rw [htasks] at hp'
    rcases getElem?_set_cases hp' with ⟨rfl, rfl⟩ | ⟨-, hp'⟩
    · rcases Nat.lt_or_ge p.resumed.length i with hlt | hge
      · rw [List.take_of_length_le (by rw [List.length_append]; exact hlt), hnow,
          Option.some.injEq] at hrun'
        exact .inr (hrun' ▸ hstops)
      · rw [List.take_append_of_le_length hge] at hrun'
        exact .inl ⟨k', p, i, s, hp, hi, hge, hrun', hstops⟩
    · exact .inl ⟨k', p', i, s, hp', hi, hle, hrun', hstops⟩
  · rintro (⟨k', p', i, s, hp', hi, hle, hrun', hstops⟩ | hstops)
    · by_cases heq : k = k'
      · subst heq
        cases hp.symm.trans hp'
        refine ⟨k, _, i, s, by rw [htasks]; exact getElem?_set_of_some hp, hi, ?_, ?_, hstops⟩
        · rw [List.length_append]
          exact hle.trans (Nat.le_add_right _ _)
        · rw [List.take_append_of_le_length hle]
          exact hrun'
      · exact ⟨k', p', i, s, by rw [htasks, List.getElem?_set_ne heq]; exact hp', hi, hle, hrun',
          hstops⟩
    · refine ⟨k, _, p.resumed.length + 1, s', by rw [htasks]; exact getElem?_set_of_some hp,
        Nat.succ_pos _, by simp, ?_, hstops⟩
      rw [List.take_of_length_le (by simp)]
      exact hnow

/-- What a step asks for: a stop that a coroutine requests which it resumes, or nothing. -/
inductive AskedCases (C : Coroutine α σ ε) (c : Tasks α σ ε) (a : TaskAction α ε)
    (c' : Tasks α σ ε) : Prop where
  | resumed {s' : σ} (hasked : ∀ src, Asked C c' src ↔ Asked C c src ∨ C.stops s' = some src)
      (hrequested : ∀ src, Requested c' src ↔ Requested c src ∨ C.stops s' = some src) :
      AskedCases C c a c'
  | request (hother : IsRequest a) (hasked : ∀ src, Asked C c' src ↔ Asked C c src)
      (hrequested : ∀ src, Requested c src → Requested c' src) : AskedCases C c a c'
  | nothing (hasked : ∀ src, Asked C c' src ↔ Asked C c src)
      (hrequested : ∀ src, Requested c' src ↔ Requested c src) : AskedCases C c a c'

theorem requested_congr (hstopped : c'.world.stopped = c.world.stopped)
    (hmem : .requestStop src ∈ c'.receivers.flatten ↔ .requestStop src ∈ c.receivers.flatten) :
    Requested c' src ↔ Requested c src := by
  rw [Requested, hstopped, hmem, Requested]

theorem requested_pop {d : Duty α} {ds : List (Duty α)} {rest : List (List (Duty α))}
    (hrs : c.receivers = (d :: ds) :: rest) (hd : .requestStop src ≠ d) :
    .requestStop src ∈ (ds :: rest).flatten ↔ .requestStop src ∈ c.receivers.flatten := by
  rw [hrs]
  show _ ↔ _ ∈ d :: (ds :: rest).flatten
  rw [List.mem_cons, or_iff_right hd]

/-- The innermost receiver requests a stop that it had to request. -/
theorem requested_requestStop {s : Source} {ds : List (Duty α)} {rest : List (List (Duty α))}
    {w : LibeventWorld} (hrs : c.receivers = (.requestStop s :: ds) :: rest)
    (hw : c.world.step (.requestStop s) = some w) :
    Requested { c with world := w, receivers := ds :: rest } src ↔ Requested c src := by
  show w.stopped src = true ∨ _ ∈ (ds :: rest).flatten ↔ _ ∨ _ ∈ c.receivers.flatten
  rw [stopped_requestStop hw, hrs]
  show _ ↔ _ ∨ _ ∈ .requestStop s :: (ds :: rest).flatten
  rw [List.mem_cons, Duty.requestStop.injEq, or_assoc]

/-- The coroutine `k` is resumed, and may have to request a stop. -/
theorem requested_resume {l : Label} {w : LibeventWorld} (hw : c.world.step l = some w)
    {x : OpId × Signal} (hsome : delivery c.world l = some x) {s' : σ} (hworld : c'.world = w)
    (hreceivers : c'.receivers = duties C k s' :: c.receivers) :
    Requested c' src ↔ Requested c src ∨ C.stops s' = some src := by
  rw [Requested, hworld, hreceivers, stopped_signal hw hsome, List.flatten_cons, List.mem_append,
    requestStop_mem_duties, Requested, or_left_comm, or_comm]

theorem ActionCases.asked (hcases : ActionCases C c a c') (h : Coherent C c) :
    AskedCases C c a c' := by
  have hnew : ∀ (k : ℕ) (x p' : Task α σ ε), p'.resumed = [] → (c.tasks ++ [p'])[k]? = some x →
      x.resumed = [] ∨ ∃ p, c.tasks[k]? = some p ∧ x.arg = p.arg ∧ x.resumed = p.resumed := by
    intro k x p' hnil hx
    rcases getElem?_concat_cases hx with ⟨-, rfl⟩ | ⟨-, hx⟩
    · exact .inl hnil
    · exact .inr ⟨x, hx, rfl, rfl⟩
  cases hcases with
  | spawn hd hw =>
    refine .nothing (fun src => asked_congr (fun k x => hnew k x _ rfl) fun k p hp => ?_)
      fun src => requested_congr (stopped_start hw) Iff.rfl
    exact ⟨p, getElem?_concat_of_some hp, rfl, rfl⟩
  | spawned hrs hd hw =>
    refine .nothing (fun src => asked_congr (fun k x => hnew k x _ rfl) fun k p hp => ?_)
      fun src => requested_congr (stopped_start hw) (requested_pop hrs fun heq => by cases heq)
    exact ⟨p, getElem?_concat_of_some hp, rfl, rfl⟩
  | requestStop hrs hw =>
    exact .nothing (fun src => Iff.rfl) fun src => requested_requestStop hrs hw
  | @await k ds rest p d w hrs hp hd hw =>
    have hset : (c.tasks.set k { p with ops := p.ops ++ [c.world.ops.length] }).map Task.past =
        c.tasks.map Task.past := map_set hp rfl
    refine .nothing (fun src => asked_congr (fun k' p' hp' => .inr ?_) fun k' p' hp' => ?_)
      fun src => requested_congr (stopped_start hw) (requested_pop hrs fun heq => by cases heq)
    · obtain ⟨x, hx, heq⟩ := exists_of_map_eq hset hp'
      exact ⟨x, hx, Prod.mk.inj heq⟩
    · obtain ⟨x, hx, heq⟩ := exists_of_map_eq hset.symm hp'
      exact ⟨x, hx, Prod.mk.inj heq.symm⟩
  | start hw =>
    exact .nothing (fun src => Iff.rfl) fun src => requested_congr (stopped_start hw) Iff.rfl
  | @quiet l x w hl hbusy hw hnone =>
    by_cases hrequest : ∃ s, l = .requestStop s
    · obtain ⟨s, rfl⟩ := hrequest
      exact .request trivial (fun src => Iff.rfl) fun src h => h.imp_left (step_stopped hw)
    · have hstopped := stopped_eq hw fun s hs => hrequest ⟨s, hs⟩
      exact .nothing (fun src => Iff.rfl)
        fun src => requested_congr hstopped (flatten_quiet hbusy ▸ Iff.rfl)
  | @other l x o s w hw hsome ho =>
    have hstopped := stopped_signal hw hsome
    exact .nothing (fun src => Iff.rfl) fun src => requested_congr hstopped Iff.rfl
  | resumed hw hsome ho hp hresume =>
    exact .resumed (fun src => asked_resume (h.ordered _ _ hp).run hp hresume rfl)
      fun src => requested_resume hw hsome rfl rfl

theorem AskedCases.check (h : AskedCases C c a c') : AskedCases C c a c'.check := by
  cases h with
  | resumed hasked hrequested => exact .resumed hasked hrequested
  | request hother hasked hrequested => exact .request hother hasked hrequested
  | nothing hasked hrequested => exact .nothing hasked hrequested

theorem asked_cases (h : Coherent C c) (hstep : c.step C a = some c') : AskedCases C c a c' := by
  obtain ⟨-, c₁, hcases, rfl⟩ := action_cases hstep
  exact (hcases.asked h).check

theorem requested_of_asked (hrun : Tasks.run C {} as = some c) :
    Coherent C c ∧ ∀ src, Asked C c src → Requested c src := by
  refine StepMachine.run_invariant (Tasks.step C)
    (I := fun c => Coherent C c ∧ ∀ src, Asked C c src → Requested c src)
    (fun c a c' h hstep => ⟨h.1.step hstep, fun src hsrc => ?_⟩) ⟨coherent_initial C, ?_⟩ hrun
  · cases asked_cases h.1 hstep with
    | resumed hasked hrequested =>
      exact (hrequested src).mpr (((hasked src).mp hsrc).imp_left (h.2 src))
    | request hother hasked hrequested => exact hrequested src (h.2 src ((hasked src).mp hsrc))
    | nothing hasked hrequested => exact (hrequested src).mpr (h.2 src ((hasked src).mp hsrc))
  · rintro src ⟨k, p, i, s, hp, -⟩
    cases hp

theorem asked_of_requested (hrun : Tasks.run C {} as = some c) (has : ∀ a ∈ as, ¬ IsRequest a) :
    ∀ src, Requested c src → Asked C c src := by
  refine (StepMachine.run_invariant_of_stepsAll (Tasks.step C)
    (I := fun c => Coherent C c ∧ ∀ src, Requested c src → Asked C c src)
    (fun c a c' h hstep hno => ⟨h.1.step hstep, fun src hsrc => ?_⟩) ⟨coherent_initial C, ?_⟩ hrun
    ((StepMachine.stepsAll_labels (Tasks.step C) _ hrun).mpr has)).2
  · cases asked_cases h.1 hstep with
    | resumed hasked hrequested =>
      exact (hasked src).mpr (((hrequested src).mp hsrc).imp_left (h.2 src))
    | request hother hasked hrequested => exact absurd hother hno
    | nothing hasked hrequested => exact (hasked src).mpr (h.2 src ((hrequested src).mp hsrc))
  · rintro src (hstopped | hmem)
    · cases hstopped
    · cases hmem

/-- The stops that coroutines were to request have been requested when the event loop is entered. -/
theorem stopped_of_asked (hrun : Tasks.run C {} as = some c) (hloop : InEventLoop c.world)
    (hasked : Asked C c src) : c.world.stopped src = true := by
  obtain ⟨hc, h⟩ := requested_of_asked hrun
  rcases h src hasked with hstopped | hmem
  · exact hstopped
  · rw [hc.receivers_nil hloop] at hmem
    cases hmem

/-- Where no other code requests stops, these are all. -/
theorem stopped_iff_asked (hrun : Tasks.run C {} as = some c) (hloop : InEventLoop c.world)
    (has : ∀ a ∈ as, ¬ IsRequest a) : c.world.stopped src = true ↔ Asked C c src :=
  ⟨fun hstopped => asked_of_requested hrun has src (.inl hstopped), stopped_of_asked hrun hloop⟩

/-! ## Obedience -/

/-- When a coroutine has awaited an operation, the stop that it was to request before has been
requested, and what it is resumed with then follows from that: if the operation has the token of
that source, its stop callback is called while it is constructed. -/
structure Obedient (C : Coroutine α σ ε) (c : Tasks α σ ε) : Prop where
  first : ∀ ds ∈ c.receivers, ∀ (k : ℕ) (p : Task α σ ε) (src : Source), .await k ∈ ds →
    c.tasks[k]? = some p → C.stops p.state = some src →
    ds.head? = some (.requestStop src) ∨ c.world.stopped src = true
  started : ∀ (k : ℕ) (p : Task α σ ε) (i : ℕ) (s : σ) (src : Source), c.tasks[k]? = some p →
    0 < i → i < p.ops.length → C.run (C.call p.arg) (p.resumed.take i) = some s →
    C.stops s = some src → c.world.stopped src = true
  obeyed : ∀ (k : ℕ) (p : Task α σ ε) (i : ℕ) (s : σ) (y : Signal × ε), c.tasks[k]? = some p →
    0 < i → C.run (C.call p.arg) (p.resumed.take i) = some s → C.stops s = some p.token →
    p.resumed[i]? = some y → y.1 = .stopped
  atStart : ∀ (k : ℕ) (p : Task α σ ε) (i : ℕ) (s : σ) (o : OpId) (op : CpoState),
    c.tasks[k]? = some p → 0 < i → C.run (C.call p.arg) (p.resumed.take i) = some s →
    C.stops s = some p.token → p.ops[i]? = some o → c.world.ops[o]? = some op →
    StopsAtStart c.world o op

theorem obedient_initial (C : Coroutine α σ ε) : Obedient C {} where
  first ds h := by cases h
  started k p i s src h := by cases h
  obeyed k p i s y h := by cases h
  atStart k p i s o op h := by cases h

/-- What the operation of a coroutine does at its start, a step of the context does not change. -/
theorem Coherent.stopsAtStart (h : Coherent C c) {w : LibeventWorld} {l : Label}
    (hw : c.world.step l = some w) (hp : c.tasks[k]? = some p) {o : OpId} (ho : p.ops[i]? = some o)
    (hold : ∀ op, c.world.ops[o]? = some op → StopsAtStart c.world o op) {op' : CpoState}
    (hop' : w.ops[o]? = some op') : StopsAtStart w o op' := by
  obtain ⟨op, -, hop, -⟩ := (h.ordered k p hp).entries i o ho
  obtain ⟨x, hx, -, hstops⟩ := (hold op hop).step hop hw
  cases hx.symm.trans hop'
  exact hstops

/-- A step that resumes no coroutine and adds nothing for the receivers to do. -/
theorem Obedient.keep (h : Obedient C c) (hc : Coherent C c) {l : Label}
    (hw : c.world.step l = some c'.world)
    (hreceivers : ∀ ds ∈ c'.receivers, ds = [] ∨ ds ∈ c.receivers)
    (htasks : c'.tasks = c.tasks) : Obedient C c' where
  first ds hds k p src hk hp hs := by
    rcases hreceivers ds hds with rfl | hds
    · cases hk
    · exact (h.first ds hds k p src hk (htasks ▸ hp) hs).imp_right (step_stopped hw)
  started k p i s src hp hi hlt hrun hs :=
    step_stopped hw (h.started k p i s src (htasks ▸ hp) hi hlt hrun hs)
  obeyed k p i s y hp := h.obeyed k p i s y (htasks ▸ hp)
  atStart k p i s o op hp hi hrun hs ho hop := by
    rw [htasks] at hp
    exact hc.stopsAtStart hw hp ho (fun op => h.atStart k p i s o op hp hi hrun hs ho) hop

/-- The innermost receiver requests the stop. -/
theorem Obedient.requestStop (h : Obedient C c) (hc : Coherent C c) {s : Source}
    {ds : List (Duty α)}
    {rest : List (List (Duty α))} {w : LibeventWorld}
    (hrs : c.receivers = (.requestStop s :: ds) :: rest)
    (hw : c.world.step (.requestStop s) = some w) :
    Obedient C { c with world := w, receivers := ds :: rest } where
  first ds' hds k p src hk hp hs := by
    rcases List.mem_cons.mp hds with rfl | hds
    · have hmem : (.requestStop s :: ds') ∈ c.receivers := hrs ▸ List.mem_cons_self
      refine .inr ?_
      rcases h.first _ hmem k p src (List.mem_cons_of_mem _ hk) hp hs with hhead | hstopped
      · cases hhead
        exact (stopped_requestStop hw).mpr (.inr rfl)
      · exact step_stopped hw hstopped
    · exact (h.first ds' (hrs ▸ List.mem_cons_of_mem _ hds) k p src hk hp hs).imp_right
        (step_stopped hw)
  started k p i s src hp hi hlt hrun hs := step_stopped hw (h.started k p i s src hp hi hlt hrun hs)
  obeyed := h.obeyed
  atStart k p i s o op hp hi hrun hs ho hop :=
    hc.stopsAtStart hw hp ho (fun op => h.atStart k p i s o op hp hi hrun hs ho) hop

/-- The innermost receiver has something to do that is not a stop. -/
theorem Obedient.next (h : Obedient C c) {d : Duty α} {ds : List (Duty α)}
    {rest : List (List (Duty α))} (hrs : c.receivers = (d :: ds) :: rest)
    (hd : ∀ src, d ≠ .requestStop src) : Obedient C { c with receivers := ds :: rest } where
  first ds' hds k p src hk hp hs := by
    rcases List.mem_cons.mp hds with rfl | hds
    · have hmem : (d :: ds') ∈ c.receivers := hrs ▸ List.mem_cons_self
      rcases h.first _ hmem k p src (List.mem_cons_of_mem _ hk) hp hs with hhead | hstopped
      · exact absurd (Option.some.inj hhead) (hd src)
      · exact .inr hstopped
    · exact h.first ds' (hrs ▸ List.mem_cons_of_mem _ hds) k p src hk hp hs
  started := h.started
  obeyed := h.obeyed
  atStart := h.atStart

theorem Obedient.spawn (h : Obedient C c) (hc : Coherent C c) {parent : Option ℕ} {a : α}
    {token : Source} {d : Desc} {w : LibeventWorld}
    (hw : c.world.step (.start d token) = some w) :
    Obedient C (c.spawned C w parent a token) where
  first ds hds k p src hk hp hs := by
    rcases getElem?_concat_cases hp with ⟨rfl, -⟩ | ⟨-, hp⟩
    · -- no receiver has to do anything for the new coroutine
      have hlt := hc.known c.tasks.length
        (List.mem_filterMap.mpr ⟨_, List.mem_flatten.mpr ⟨ds, hds, hk⟩, rfl⟩)
      exact absurd hlt (lt_irrefl _)
    · exact (h.first ds hds k p src hk hp hs).imp_right (step_stopped hw)
  started k p i s src hp hi hlt hrun hs := by
    rcases getElem?_concat_cases hp with ⟨-, rfl⟩ | ⟨-, hp⟩
    · exact absurd hlt (by simp only [List.length_singleton]; omega)
    · exact step_stopped hw (h.started k p i s src hp hi hlt hrun hs)
  obeyed k p i s y hp hi hrun hs hy := by
    rcases getElem?_concat_cases hp with ⟨-, rfl⟩ | ⟨-, hp⟩
    · cases hy
    · exact h.obeyed k p i s y hp hi hrun hs hy
  atStart k p i s o op hp hi hrun hs ho hop := by
    rcases getElem?_concat_cases hp with ⟨-, rfl⟩ | ⟨-, hp⟩
    · have hlt := (List.getElem?_eq_some_iff.mp ho).1
      exact absurd hlt (by simp only [List.length_singleton]; omega)
    · exact hc.stopsAtStart hw hp ho (fun op => h.atStart k p i s o op hp hi hrun hs ho) hop

/-- The coroutine that the innermost receiver lets go on has had its stop requested. -/
theorem Obedient.requested (h : Obedient C c) {ds : List (Duty α)} {rest : List (List (Duty α))}
    (hrs : c.receivers = (.await k :: ds) :: rest) (hp : c.tasks[k]? = some p)
    (hs : C.stops p.state = some src) : c.world.stopped src = true := by
  have hmem : (.await k :: ds) ∈ c.receivers := hrs ▸ List.mem_cons_self
  rcases h.first _ hmem k p src List.mem_cons_self hp hs with hhead | hstopped
  · cases hhead
  · exact hstopped

/-- It is between two operations. -/
theorem Coherent.between (h : Coherent C c) {ds : List (Duty α)} {rest : List (List (Duty α))}
    (hrs : c.receivers = (.await k :: ds) :: rest) (hp : c.tasks[k]? = some p) :
    p.ops.length = p.resumed.length ∧
      ∀ i s, p.ops.length ≤ i → C.run (C.call p.arg) (p.resumed.take i) = some s → p.state = s := by
  have hmem : (.await k :: ds) ∈ c.receivers := hrs ▸ List.mem_cons_self
  have hk : k ∈ awaiting c.receivers :=
    List.mem_filterMap.mpr ⟨_, List.mem_flatten.mpr ⟨_, hmem, List.mem_cons_self⟩, rfl⟩
  have hlength := ((h.due k p hp).mp hk).1
  refine ⟨hlength, fun i s hle hrun => ?_⟩
  rw [List.take_of_length_le (by omega), (h.ordered k p hp).run] at hrun
  exact Option.some.inj hrun

/-- The coroutine awaits its operation: the stop was requested before. -/
theorem Obedient.await (h : Obedient C c) (hc : Coherent C c) {ds : List (Duty α)}
    {rest : List (List (Duty α))} (hrs : c.receivers = (.await k :: ds) :: rest)
    (hp : c.tasks[k]? = some p) {d : Desc} {w : LibeventWorld}
    (hw : c.world.step (.start d p.token) = some w) :
    Obedient C { c with
      world := w
      tasks := c.tasks.set k { p with ops := p.ops ++ [c.world.ops.length] }
      owners := c.owners ++ [some k]
      receivers := ds :: rest } where
  first ds' hds k' p' src hk' hp' hs := by
    obtain ⟨x, hx, hstate⟩ := exists_of_getElem?_set (f := Task.state) hp hp' rfl
    rw [hstate] at hs
    rcases List.mem_cons.mp hds with rfl | hds
    · have hmem : (.await k :: ds') ∈ c.receivers := hrs ▸ List.mem_cons_self
      rcases h.first _ hmem k' x src (List.mem_cons_of_mem _ hk') hx hs with hhead | hstopped
      · cases hhead
      · exact .inr (step_stopped hw hstopped)
    · exact (h.first ds' (hrs ▸ List.mem_cons_of_mem _ hds) k' x src hk' hx hs).imp_right
        (step_stopped hw)
  started k' p' i s src hp' hi hlt hrun hs := by
    rcases getElem?_set_cases hp' with ⟨rfl, rfl⟩ | ⟨-, hp'⟩
    · by_cases hold : i < p.ops.length
      · exact step_stopped hw (h.started k' p i s src hp hi hold hrun hs)
      · -- the operation that it awaits now
        obtain rfl := (hc.between hrs hp).2 i s (Nat.le_of_not_lt hold) hrun
        exact step_stopped hw (h.requested hrs hp hs)
    · exact step_stopped hw (h.started k' p' i s src hp' hi hlt hrun hs)
  obeyed k' p' i s y hp' hi hrun hs hy := by
    rcases getElem?_set_cases hp' with ⟨rfl, rfl⟩ | ⟨-, hp'⟩
    · exact h.obeyed k' p i s y hp hi hrun hs hy
    · exact h.obeyed k' p' i s y hp' hi hrun hs hy
  atStart k' p' i s o op hp' hi hrun hs ho hop := by
    rcases getElem?_set_cases hp' with ⟨rfl, rfl⟩ | ⟨-, hp'⟩
    · rcases getElem?_concat_cases ho with ⟨rfl, rfl⟩ | ⟨-, ho⟩
      · obtain rfl := (hc.between hrs hp).2 _ s le_rfl hrun
        obtain rfl := step_start hw
        obtain rfl := Option.some.inj (List.getElem?_concat_length.symm.trans hop)
        exact stopsAtStart_start (h.requested hrs hp hs)
      · exact hc.stopsAtStart hw hp ho (fun op => h.atStart k' p i s o op hp hi hrun hs ho) hop
    · exact hc.stopsAtStart hw hp' ho (fun op => h.atStart k' p' i s o op hp' hi hrun hs ho) hop

/-- An operation whose stop was requested signals nothing else. -/
theorem stopped_of_delivery {w : LibeventWorld} {l : Label} {o : OpId} {op : CpoState} {s : Signal}
    (h : Coherent C c) (hw : c.world.step l = some w) (hs : Signals c w o s)
    (hop : c.world.ops[o]? = some op) (hstop : c.world.stopped op.token = true) : s = .stopped := by
  have hnil := Composed.unsignalled_of_step hs.reachable hs.only hop
  obtain ⟨op', hop', -, -, hsignals⟩ := hs.only o op hop
  rw [if_pos rfl, hnil, List.nil_append] at hsignals
  rcases h.reachable.inv.signal_cases (h.reachable.unstopped hop) hop hw hop' hnil (s := s)
    (by rw [hsignals]; exact List.mem_singleton_self s) with ⟨-, hstopped⟩ | ⟨hno, -⟩
  · exact hstopped
  · rw [hstop] at hno
    cases hno

/-- The coroutine is resumed with the signal of the operation that it was suspended in. -/
theorem Obedient.resume (h : Obedient C c) (hc : Coherent C c) {l : Label} {o : OpId} {s : Signal}
    {x : ε} {s' : σ} {w : LibeventWorld} (hw : c.world.step l = some w)
    (hsome : delivery c.world l = some (o, s)) (ho : c.owners[o]? = some (some k))
    (hp : c.tasks[k]? = some p) :
    Obedient C { c with
      world := w
      tasks := c.tasks.set k { p with state := s', resumed := p.resumed ++ [(s, x)] }
      receivers := duties C k s' :: c.receivers
      undefined := C.undefined s' } := by
  have hs := hc.signals hw hsome
  obtain ⟨op, hop, htoken, -, -, hlength, hidle⟩ := hc.suspended hs ho hp
  refine ⟨fun ds hds k' p' src hk' hp' hstops => ?_, fun k' p' i t src hp' hi hlt hrun hstops => ?_,
    fun k' p' i t y hp' hi hrun hstops hy => ?_,
    fun k' p' i t o' op' hp' hi hrun hstops ho' hop' => ?_⟩
  · rcases List.mem_cons.mp hds with rfl | hold
    -- it has to request the stop before it awaits the next operation
    · obtain rfl : k' = k := task_of_mem_duties hk' rfl
      rcases getElem?_set_cases hp' with ⟨-, rfl⟩ | ⟨hne, -⟩
      · refine .inl ?_
        rw [duties, hstops]
        rfl
      · exact absurd rfl hne
    · have hne : k' ≠ k := by
        rintro rfl
        exact hidle (List.mem_filterMap.mpr ⟨_, List.mem_flatten.mpr ⟨ds, hold, hk'⟩, rfl⟩)
      rcases getElem?_set_cases hp' with ⟨heq, -⟩ | ⟨-, hp'⟩
      · exact absurd heq hne
      · exact (h.first ds hold k' p' src hk' hp' hstops).imp_right (step_stopped hw)
  · rcases getElem?_set_cases hp' with ⟨rfl, rfl⟩ | ⟨-, hp'⟩
    · have hlt' : i < p.ops.length := hlt
      rw [List.take_append_of_le_length (by omega)] at hrun
      exact step_stopped hw (h.started k' p i t src hp hi hlt' hrun hstops)
    · exact step_stopped hw (h.started k' p' i t src hp' hi hlt hrun hstops)
  · rcases getElem?_set_cases hp' with ⟨rfl, rfl⟩ | ⟨-, hp'⟩
    · rcases getElem?_concat_cases hy with ⟨rfl, rfl⟩ | ⟨hlt, hy⟩
      · rw [List.take_left'] at hrun
        · have hstop := h.started k' p _ t p.token hp hi (by omega)
            (by rw [List.take_length]; exact hrun) hstops
          exact stopped_of_delivery hc hw hs hop (htoken ▸ hstop)
        · rfl
      · rw [List.take_append_of_le_length hlt.le] at hrun
        exact h.obeyed k' p i t y hp hi hrun hstops hy
    · exact h.obeyed k' p' i t y hp' hi hrun hstops hy
  · rcases getElem?_set_cases hp' with ⟨rfl, rfl⟩ | ⟨-, hp'⟩
    · have hlt : i < p.ops.length := (List.getElem?_eq_some_iff.mp ho').1
      rw [List.take_append_of_le_length (by omega)] at hrun
      exact hc.stopsAtStart hw hp ho'
        (fun op => h.atStart k' p i t o' op hp hi hrun hstops ho') hop'
    · exact hc.stopsAtStart hw hp' ho'
        (fun op => h.atStart k' p' i t o' op hp' hi hrun hstops ho') hop'

theorem Obedient.act (h : Obedient C c) (hc : Coherent C c) (hcases : ActionCases C c a c') :
    Obedient C c' := by
  cases hcases with
  | spawn hd hw => exact h.spawn hc hw
  | @spawned k a token ds rest d w hrs hd hw =>
    have hc' : Coherent C { c with receivers := ds :: rest } :=
      hc.receivers (by rw [hrs]; rfl) (by rw [hrs]; rfl)
    exact (h.next hrs fun src heq => by cases heq).spawn hc' hw
  | requestStop hrs hw => exact h.requestStop hc hrs hw
  | await hrs hp hd hw => exact h.await hc hrs hp hw
  | resumed hw hsome ho hp hresume => exact h.resume hc hw hsome ho hp
  | start hw => exact h.keep hc hw (fun ds hds => .inr hds) rfl
  | other hw hsome ho => exact h.keep hc hw (fun ds hds => List.mem_cons.mp hds) rfl
  | quiet hl hbusy hw hnone =>
    refine h.keep hc hw (fun ds hds => .inr ?_) rfl
    simp only at hds
    split at hds
    · exact List.mem_of_mem_tail hds
    · exact hds

theorem Obedient.step (h : Obedient C c) (hc : Coherent C c) (hstep : c.step C a = some c') :
    Obedient C c' := by
  obtain ⟨-, c₁, hcases, rfl⟩ := action_cases hstep
  have hc₁ := h.act hc hcases
  exact ⟨hc₁.first, hc₁.started, hc₁.obeyed, hc₁.atStart⟩

theorem obedient_run (hrun : Tasks.run C {} as = some c) : Coherent C c ∧ Obedient C c := by
  refine StepMachine.run_invariant (Tasks.step C) (I := fun c => Coherent C c ∧ Obedient C c)
    (fun c a c' h hstep => ?_) ⟨coherent_initial C, obedient_initial C⟩ hrun
  exact ⟨h.1.step hstep, h.2.step h.1 hstep⟩

/-- An operation that the event loop completes resumes its coroutine while no other receiver's code
is executing. -/
theorem Coherent.receivers_of_value (h : Coherent C c) {w : LibeventWorld} {l : Label} {o : OpId}
    {v : Value} (hw : c.world.step l = some w) (hs : Signals c w o (.value v)) {op : CpoState}
    (hop : c.world.ops[o]? = some op)
    (hdesc : ∀ env x, op.desc.submitEnd env = some x → ∃ e, x = .error e) :
    c.receivers = [] := by
  have hnil := Composed.unsignalled_of_step hs.reachable hs.only hop
  obtain ⟨op', hop', -, -, hsignals⟩ := hs.only o op hop
  rw [if_pos rfl, hnil, List.nil_append] at hsignals
  obtain ⟨ms, htodo⟩ := h.reachable.alone_of_value hw hop hop' hnil (v := v)
    (by rw [hsignals]; exact List.mem_singleton_self _) hdesc
  rw [← List.length_eq_zero_iff, h.depth, htodo, ← List.append_nil (ms.map _), userFrames_ops]
  rfl

/-- A coroutine is resumed with a stop only when that was requested. -/
theorem stopped_of_resumed (hrun : Tasks.run C {} as = some c) (hp : c.tasks[k]? = some p)
    {y : Signal × ε} (hy : y ∈ p.resumed) (hstopped : y.1 = .stopped) :
    c.world.stopped p.token = true := by
  have hc := coherent_run hrun
  obtain ⟨i, hi⟩ := List.mem_iff_getElem?.mp hy
  have hp' := hc.ordered k p hp
  have hlt : i < p.ops.length := (List.getElem?_eq_some_iff.mp hi).1.trans_le hp'.resumed_le
  obtain ⟨op, t, hop, htoken, -, -, hsignals⟩ := hp'.entries i _ (List.getElem?_eq_getElem hlt)
  rw [hi] at hsignals
  rw [← htoken]
  rcases hc.reachable.inv.phase _ op hop with hphase | ⟨-, hdropped⟩
  · rcases hphase.signals_or_done with hnil | ⟨s, hdone, -⟩
    · rw [hnil] at hsignals
      cases hsignals
    · rw [hdone.signals] at hsignals
      obtain rfl : s = .stopped := (List.singleton_inj.mp hsignals).trans hstopped
      rcases hdone.cause with ⟨-, -, hstop⟩ | ⟨x, -, hreports⟩
      · exact hstop
      · exact absurd hreports not_reports_stopped
  · rw [hdropped.signals] at hsignals
    cases hsignals

/-- A coroutine that has requested the stop of its own source is resumed with nothing else. -/
theorem own_stop (hrun : Tasks.run C {} as = some c) (hp : c.tasks[k]? = some p) (hi : 0 < i)
    (hs : C.run (C.call p.arg) (p.resumed.take i) = some s) (hstops : C.stops s = some p.token)
    {y : Signal × ε} (hy : p.resumed[i]? = some y) : y.1 = .stopped :=
  (obedient_run hrun).2.obeyed k p i s y hp hi hs hstops hy

/-- The code of the program or of a receiver is running, and a `request_stop` on the source has
returned. -/
structure StopReturned (w : LibeventWorld) (src : Source) : Prop where
  alive : w.crashed = false
  code : w.userMay = true
  requested : w.stopped src = true
  returned : .stopLoop src ∉ w.todo

/-- Then no coroutine of the source is suspended any more. -/
theorem Coherent.resumed_of_stopReturned (h : Coherent C c) (hp : c.tasks[k]? = some p)
    (hret : StopReturned c.world p.token) : p.ops.length = p.resumed.length := by
  have hp' := h.ordered k p hp
  by_contra hne
  have hlt : p.resumed.length < p.ops.length := lt_of_le_of_ne hp'.resumed_le (Ne.symm hne)
  obtain ⟨op, -, hop, htoken, -, -, hsignals⟩ := hp'.entries _ _ (List.getElem?_eq_getElem hlt)
  rw [List.getElem?_length] at hsignals
  -- the stop callback would be registered with no loop left to call it
  have hinv := h.reachable.inv
  obtain ⟨hpending, -⟩ := hinv.pending_of_userMay hret.alive hret.code hop hsignals
  have hmem := hinv.waiting _ op hop hpending.callback (htoken ▸ hret.requested)
  exact hret.returned (htoken ▸ hmem)

/-- When a coroutine has requested its own stop the event loop is not entered again: `_Start`
completes the operation that it awaits then, and uses it after that. -/
theorem own_stop_undefined (hrun : Tasks.run C {} as = some c) (hp : c.tasks[k]? = some p)
    (hi : 0 < i) (hle : i ≤ p.resumed.length)
    (hs : C.run (C.call p.arg) (p.resumed.take i) = some s) (hstops : C.stops s = some p.token)
    (hawait : (C.await s).isSome) : ¬ InEventLoop c.world := by
  intro hloop
  obtain ⟨hc, h⟩ := obedient_run hrun
  -- no receiver is left to let it go on, so it has awaited the operation
  have hlt : i < p.ops.length := by
    by_contra hge
    have hp' := hc.ordered k p hp
    have hlength : p.ops.length = p.resumed.length := by
      have hresumed := hp'.resumed_le
      omega
    rw [List.take_of_length_le (by omega), hp'.run, Option.some.injEq] at hs
    have hdue := (hc.due k p hp).mpr ⟨hlength, hs ▸ hawait⟩
    rw [hc.receivers_nil hloop] at hdue
    cases hdue
  have ho := List.getElem?_eq_getElem hlt
  obtain ⟨op, -, hop, -⟩ := (hc.ordered k p hp).entries i _ ho
  obtain ⟨-, hmem | hframe⟩ := h.atStart k p i s _ op hp hi hs hstops ho hop
  · exact (deferred_of_loop hrun hloop hp (List.getElem_mem hlt) hop).1 hmem
  · rw [hloop.1] at hframe
    cases hframe

end Tasks

end LibeventContext

end Stdnet
