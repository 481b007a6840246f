import Stdnet.Coroutines

/-!
# Coroutines that Spawn Others

What a coroutine spawns when it is resumed is started within the receiver's code, before it awaits
its next operation: a server accepts a connection, spawns the coroutine that serves it and accepts
the next one. The operations that are started may complete at once and resume further coroutines
before the spawning one goes on.

## Main results

- `Spawning.step`: what a coroutine has spawned, followed by what it has still to spawn, is what its
  code spawns.
- `children_prefix`, `children_eq`: nothing else is spawned, nothing is lost and the order is kept.
-/

namespace Stdnet

/-- What a coroutine spawns when it is resumed with these signals, one after the other. -/
def Coroutine.spawned {α σ ε : Type*} (C : Coroutine α σ ε) :
    σ → List (Signal × ε) → List (α × Source)
  | _, [] => []
  | s, x :: xs =>
    match C.resume s x.1 x.2 with
    | none => []
    | some s' => C.spawns s' ++ C.spawned s' xs

theorem Coroutine.spawned_concat {α σ ε : Type*} (C : Coroutine α σ ε) {s t s' : σ}
    {xs : List (Signal × ε)} {x : Signal × ε} (hrun : C.run s xs = some t)
    (hresume : C.resume t x.1 x.2 = some s') :
    C.spawned s (xs ++ [x]) = C.spawned s xs ++ C.spawns s' := by
  induction xs generalizing s with
  | nil =>
    obtain rfl := Option.some.inj hrun
    simp [Coroutine.spawned, hresume]
  | cons y xs ih =>
    obtain ⟨u, hu, hrest⟩ := (StepMachine.run_cons_eq_some _).mp hrun
    simp only [List.cons_append, Coroutine.spawned, hu, ih hrest, List.append_assoc]

/-- The coroutine that `k` is to spawn with this. -/
def Duty.childOf {α : Type*} (k : ℕ) : Duty α → Option (α × Source)
  | .spawn k' a token => if k' = k then some (a, token) else none
  | .requestStop _ | .await _ => none

/-- The coroutine that `k` has spawned. -/
def Task.childOf {α σ ε : Type*} (k : ℕ) (p : Task α σ ε) : Option (α × Source) :=
  if p.parent = some k then some (p.arg, p.token) else none

namespace LibeventContext

open ListEntries History World

namespace Tasks

variable {α σ ε : Type*} {C : Coroutine α σ ε} {c c' : Tasks α σ ε} {a : TaskAction α ε}
  {as : List (TaskAction α ε)} {k : ℕ} {p : Task α σ ε}

/-- The coroutines that `k` has spawned. -/
def children (c : Tasks α σ ε) (k : ℕ) : List (α × Source) := c.tasks.filterMap (Task.childOf k)

/-- The coroutines that `k` is to spawn before the receivers return. -/
def unborn (rs : List (List (Duty α))) (k : ℕ) : List (α × Source) :=
  rs.flatten.filterMap (Duty.childOf k)

/-- What the coroutines have spawned is what their code spawns, as far as they have come. -/
structure Spawning (C : Coroutine α σ ε) (c : Tasks α σ ε) : Prop where
  born : ∀ (k : ℕ) (p : Task α σ ε), c.tasks[k]? = some p →
    c.children k ++ unborn c.receivers k = C.spawned (C.call p.arg) p.resumed
  /-- a coroutine that spawns is not suspended -/
  awake : ∀ k, unborn c.receivers k ≠ [] →
    ∃ p, c.tasks[k]? = some p ∧ p.ops.length = p.resumed.length
  /-- it awaits its operation when it has spawned all -/
  last : c.receivers.flatten.Pairwise fun d d' => ∀ k, d.task = some k → d'.childOf k = none
  parents : ∀ p ∈ c.tasks, ∀ k, p.parent = some k → k < c.tasks.length

theorem spawning_initial (C : Coroutine α σ ε) : Spawning C {} where
  born k p h := by cases h
  awake k h := absurd rfl h
  last := .nil
  parents p h := by cases h

/-- A step that no coroutine takes. -/
theorem Spawning.keep (h : Spawning C c) (hflatten : c'.receivers.flatten = c.receivers.flatten)
    (htasks : c'.tasks = c.tasks) : Spawning C c' where
  born k p hp := by
    rw [children, unborn, htasks, hflatten]
    exact h.born k p (htasks ▸ hp)
  awake k hk := by
    rw [unborn, hflatten] at hk
    rw [htasks]
    exact h.awake k hk
  last := by
    rw [hflatten]
    exact h.last
  parents := by
    rw [htasks]
    exact h.parents

theorem children_nil (h : Spawning C c) : c.children c.tasks.length = [] := by
  rw [children, List.filterMap_eq_nil_iff]
  intro p hp
  exact if_neg fun hparent => (h.parents p hp _ hparent).ne rfl

theorem unborn_nil (h : Spawning C c) : unborn c.receivers c.tasks.length = [] := by
  by_contra hne
  obtain ⟨p, hp, -⟩ := h.awake _ hne
  rw [List.getElem?_length] at hp
  cases hp

theorem unborn_cons (d : Duty α) (ds : List (Duty α)) (rest : List (List (Duty α))) (k : ℕ) :
    unborn ((d :: ds) :: rest) k = (d.childOf k).toList ++ unborn (ds :: rest) k := by
  show List.filterMap _ (d :: (ds ++ rest.flatten)) = _
  rw [List.filterMap_cons]
  cases d.childOf k <;> rfl

theorem children_spawned (c : Tasks α σ ε) (w : LibeventWorld) (parent : Option ℕ) (arg : α)
    (token : Source) (k : ℕ) : (c.spawned C w parent arg token).children k =
      c.children k ++ (if parent = some k then some (arg, token) else none).toList := by
  rw [children, Tasks.spawned, List.filterMap_append, children, List.filterMap_cons]
  simp only [Task.childOf]
  split
  next hnone => rw [hnone]; rfl
  next hsome => rw [hsome]; rfl

theorem Spawning.parents_concat (h : Spawning C c) {q : Task α σ ε}
    (hq : ∀ k, q.parent = some k → k < c.tasks.length) :
    ∀ p ∈ c.tasks ++ [q], ∀ k, p.parent = some k → k < (c.tasks ++ [q]).length := by
  intro p hp k hk
  rw [List.length_append]
  rcases List.mem_append.mp hp with hp | hp
  · exact (h.parents p hp k hk).trans_le (Nat.le_add_right _ _)
  · obtain rfl := List.mem_singleton.mp hp
    exact (hq k hk).trans_le (Nat.le_add_right _ _)

theorem Spawning.parents_set (h : Spawning C c) {q : Task α σ ε} (hp : c.tasks[k]? = some p)
    (hq : q.parent = p.parent) :
    ∀ p' ∈ c.tasks.set k q, ∀ k', p'.parent = some k' → k' < (c.tasks.set k q).length := by
  intro p' hp' k' hk'
  rw [List.length_set]
  rcases List.mem_or_eq_of_mem_set hp' with hp' | rfl
  · exact h.parents p' hp' k' hk'
  · exact h.parents p (List.mem_of_getElem? hp) k' (hq ▸ hk')

/-- A coroutine is started that the receivers on the call stack do not spawn. -/
theorem Spawning.spawn (h : Spawning C c) {arg : α} {token : Source} {w : LibeventWorld} :
    Spawning C (c.spawned C w none arg token) where
  born k p hp := by
    rw [children_spawned, if_neg (Option.some_ne_none k).symm]
    show c.children k ++ [] ++ unborn c.receivers k = _
    rw [List.append_nil]
    rcases getElem?_concat_cases hp with ⟨rfl, rfl⟩ | ⟨-, hp⟩
    · rw [children_nil h, unborn_nil h]
      rfl
    · exact h.born k p hp
  awake k hk := by
    obtain ⟨p, hp, hlength⟩ := h.awake k hk
    exact ⟨p, getElem?_concat_of_some hp, hlength⟩
  last := h.last
  parents := h.parents_concat fun k hk => by cases hk

section Receivers

variable {d : Duty α} {ds : List (Duty α)} {rest : List (List (Duty α))}

theorem unborn_ne_nil_of_cons (hrs : c.receivers = (d :: ds) :: rest) {k : ℕ}
    (hk : unborn (ds :: rest) k ≠ []) : unborn c.receivers k ≠ [] := by
  rw [hrs, unborn_cons]
  exact List.append_ne_nil_of_right_ne_nil _ hk

theorem Spawning.last_cons (h : Spawning C c) (hrs : c.receivers = (d :: ds) :: rest) :
    (ds :: rest).flatten.Pairwise fun d d' => ∀ k, d.task = some k → d'.childOf k = none := by
  have hlast := h.last
  rw [hrs] at hlast
  exact hlast.of_cons

/-- The innermost receiver requests a stop. -/
theorem Spawning.requestStop (h : Spawning C c) {src : Source} {w : LibeventWorld}
    (hrs : c.receivers = (.requestStop src :: ds) :: rest) :
    Spawning C { c with world := w, receivers := ds :: rest } where
  born k p hp := by
    have hold := h.born k p hp
    rw [hrs, unborn_cons] at hold
    exact hold
  awake k hk := h.awake k (unborn_ne_nil_of_cons hrs hk)
  last := h.last_cons hrs
  parents := h.parents

/-- The innermost receiver spawns a coroutine. -/
theorem Spawning.spawned (h : Spawning C c) {arg : α} {token : Source} {w : LibeventWorld}
    (hrs : c.receivers = (.spawn k arg token :: ds) :: rest) :
    Spawning C ({ c with receivers := ds :: rest }.spawned C w (some k) arg token) := by
  have hunborn : unborn c.receivers k = (arg, token) :: unborn (ds :: rest) k := by
    rw [hrs, unborn_cons]
    show (if k = k then some (arg, token) else none).toList ++ _ = _
    rw [if_pos rfl]
    rfl
  obtain ⟨parent, hparent, -⟩ := h.awake k (by rw [hunborn]; exact List.cons_ne_nil _ _)
  have hlt : k < c.tasks.length := (List.getElem?_eq_some_iff.mp hparent).1
  refine ⟨fun k' p hp => ?_, fun k' hk' => ?_, h.last_cons hrs,
    h.parents_concat fun k' hk' => Option.some.inj hk' ▸ hlt⟩
  · rw [children_spawned]
    show c.children k' ++ _ ++ unborn (ds :: rest) k' = _
    rcases getElem?_concat_cases hp with ⟨rfl, rfl⟩ | ⟨-, hp⟩
    · have hnew := unborn_nil h
      rw [hrs, unborn_cons] at hnew
      rw [children_nil h, (List.append_eq_nil_iff.mp hnew).2, if_neg]
      · rfl
      · rw [Option.some.injEq]
        exact hlt.ne
    · have hold := h.born k' p hp
      rw [hrs, unborn_cons] at hold
      simpa [Duty.childOf] using hold
  · obtain ⟨p, hp, hlength⟩ := h.awake k' (unborn_ne_nil_of_cons hrs hk')
    exact ⟨p, getElem?_concat_of_some hp, hlength⟩

/-- The coroutine awaits its operation. -/
theorem Spawning.await (h : Spawning C c) (hrs : c.receivers = (.await k :: ds) :: rest)
    (hp : c.tasks[k]? = some p) {w : LibeventWorld} {o : OpId} :
    Spawning C { c with
      world := w
      tasks := c.tasks.set k { p with ops := p.ops ++ [o] }
      owners := c.owners ++ [some k]
      receivers := ds :: rest } := by
  have hself : unborn (ds :: rest) k = [] := by
    have hlast := h.last
    rw [hrs] at hlast
    rw [unborn, List.filterMap_eq_nil_iff]
    intro d hd
    exact List.rel_of_pairwise_cons hlast hd k rfl
  have hchildren : ∀ k', (c.tasks.set k { p with ops := p.ops ++ [o] }).filterMap
      (Task.childOf k') = c.children k' := fun k' => filterMap_set hp rfl
  refine ⟨fun k' p' hp' => ?_, fun k' hk' => ?_, h.last_cons hrs, h.parents_set hp rfl⟩
  · show (c.tasks.set k _).filterMap _ ++ unborn (ds :: rest) k' = _
    rw [hchildren]
    obtain ⟨x, hx, heq⟩ := exists_of_getElem?_set (f := Task.past) hp hp' rfl
    obtain ⟨harg, hresumed⟩ := Prod.mk.inj heq
    have hold := h.born k' x hx
    rw [hrs, unborn_cons] at hold
    rw [harg, hresumed]
    exact hold
  · obtain ⟨p', hp', hlength⟩ := h.awake k' (unborn_ne_nil_of_cons hrs hk')
    have hne : k ≠ k' := by
      rintro rfl
      exact hk' hself
    exact ⟨p', (List.getElem?_set_ne hne).trans hp', hlength⟩

end Receivers

section Duties

variable {s' : σ} {rs : List (List (Duty α))} {k' : ℕ}

/-- Of what a coroutine has to do when it is resumed, only what it spawns is to be spawned. -/
theorem unborn_duties :
    unborn (duties C k s' :: rs) k' =
      ((C.spawns s').map fun x => Duty.spawn k x.1 x.2).filterMap (Duty.childOf k') ++
        unborn rs k' := by
  have hstops : ((C.stops s').toList.map (Duty.requestStop : Source → Duty α)).filterMap
      (Duty.childOf k') = [] := by
    cases C.stops s' <;> rfl
  have hawait : (if (C.await s').isSome then [(Duty.await k : Duty α)] else []).filterMap
      (Duty.childOf k') = [] := by
    split <;> rfl
  rw [unborn, List.flatten_cons, List.filterMap_append, duties, List.filterMap_append,
    List.filterMap_append, hstops, hawait, List.nil_append, List.append_nil, unborn]

theorem unborn_duties_self : unborn (duties C k s' :: rs) k = C.spawns s' ++ unborn rs k := by
  rw [unborn_duties, List.filterMap_map]
  have hall : (Duty.childOf k ∘ fun x : α × Source => Duty.spawn k x.1 x.2) = some := by
    funext x
    exact if_pos rfl
  rw [hall, List.filterMap_some]

theorem unborn_duties_of_ne (hne : k' ≠ k) : unborn (duties C k s' :: rs) k' = unborn rs k' := by
  rw [unborn_duties, List.filterMap_map]
  have hnone : (Duty.childOf k' ∘ fun x : α × Source => Duty.spawn k x.1 x.2) = fun _ => none := by
    funext x
    exact if_neg hne.symm
  rw [hnone, List.filterMap_none, List.nil_append]

/-- Behind what it spawns stands the operation that it awaits then. -/
theorem duties_last : (duties C k s').Pairwise fun d d' =>
    ∀ k, d.task = some k → d'.childOf k = none := by
  rw [duties, List.pairwise_append]
  have hnone : ∀ d ∈ (C.stops s').toList.map (Duty.requestStop : Source → Duty α) ++
      (C.spawns s').map fun x => Duty.spawn k x.1 x.2, ∀ d' : Duty α, ∀ j, d.task = some j →
      d'.childOf j = none := by
    intro d hd d' j hj
    rw [task_eq_none hd] at hj
    cases hj
  refine ⟨?_, ?_, fun d hd d' _ => hnone d hd d'⟩
  · exact List.pairwise_of_forall_mem_list fun d hd d' _ => hnone d hd d'
  · split
    · exact List.pairwise_singleton _ _
    · exact .nil

theorem mem_spawns_of_mem_duties {a : α} {token : Source}
    (hd : .spawn k' a token ∈ duties C k s') : (a, token) ∈ C.spawns s' := by
  rcases List.mem_append.mp hd with hd | hd
  · rcases List.mem_append.mp hd with hd | hd
    · obtain ⟨src, -, heq⟩ := List.mem_map.mp hd
      cases heq
    · obtain ⟨x, hx, heq⟩ := List.mem_map.mp hd
      cases heq
      exact hx
  · split at hd
    · cases List.mem_singleton.mp hd
    · cases hd

end Duties

/-- The coroutine `k` is resumed. -/
theorem Spawning.resume (h : Spawning C c) (hc : Coherent C c) {o : OpId} {op : CpoState}
    (hsuspended : SuspendedIn c k p o op) (hp : c.tasks[k]? = some p) {s : Signal} {x : ε} {s' : σ}
    (hresume : C.resume p.state s x = some s') {w : LibeventWorld} :
    Spawning C { c with
      world := w
      tasks := c.tasks.set k { p with state := s', resumed := p.resumed ++ [(s, x)] }
      receivers := duties C k s' :: c.receivers
      undefined := C.undefined s' } := by
  have hself : unborn c.receivers k = [] := by
    by_contra hne
    obtain ⟨p', hp', hlength⟩ := h.awake k hne
    cases hp.symm.trans hp'
    have hsuspended := hsuspended.length
    omega
  have hchildren : ∀ k', (c.tasks.set k { p with
      state := s', resumed := p.resumed ++ [(s, x)] }).filterMap (Task.childOf k') =
      c.children k' := fun k' => filterMap_set hp rfl
  refine ⟨fun k' p' hp' => ?_, fun k' hk' => ?_, ?_, h.parents_set hp rfl⟩
  · show (c.tasks.set k _).filterMap _ ++ unborn (duties C k s' :: c.receivers) k' = _
    rw [hchildren]
    rcases getElem?_set_cases hp' with ⟨rfl, rfl⟩ | ⟨hne, hp'⟩
    · have hold := h.born k' p hp
      rw [hself, List.append_nil] at hold
      rw [unborn_duties_self, hself, List.append_nil, hold]
      exact (Coroutine.spawned_concat C (hc.ordered k' p hp).run hresume).symm
    · rw [unborn_duties_of_ne hne]
      exact h.born k' p' hp'
  · by_cases heq : k' = k
    · subst heq
      refine ⟨_, getElem?_set_of_some hp, ?_⟩
      rw [hsuspended.length, List.length_append]
      rfl
    · replace hk' : unborn (duties C k s' :: c.receivers) k' ≠ [] := hk'
      rw [unborn_duties_of_ne heq] at hk'
      obtain ⟨p', hp', hlength⟩ := h.awake k' hk'
      exact ⟨p', (List.getElem?_set_ne (Ne.symm heq)).trans hp', hlength⟩
  · rw [List.flatten_cons, List.pairwise_append]
    refine ⟨duties_last, h.last, fun d hd d' hd' j hj => ?_⟩
    obtain rfl := task_of_mem_duties hd hj
    exact List.filterMap_eq_nil_iff.mp hself d' hd'

theorem Spawning.act (h : Spawning C c) (hc : Coherent C c) (hcases : ActionCases C c a c') :
    Spawning C c' := by
  cases hcases with
  | spawn hd hw => exact h.spawn
  | spawned hrs hd hw => exact h.spawned hrs
  | requestStop hrs hw => exact h.requestStop hrs
  | await hrs hp hd hw => exact h.await hrs hp
  | start hw => exact h.keep rfl rfl
  | other hw hsome ho => exact h.keep rfl rfl
  | quiet hl hbusy hw hnone => exact h.keep (flatten_quiet hbusy) rfl
  | resumed hw hsome ho hp hresume =>
    obtain ⟨op, hsuspended⟩ := hc.suspended (hc.signals hw hsome) ho hp
    exact h.resume hc hsuspended hp hresume

theorem Spawning.step (h : Spawning C c) (hc : Coherent C c) (hstep : c.step C a = some c') :
    Spawning C c' := by
  obtain ⟨-, c₁, hcases, rfl⟩ := action_cases hstep
  exact (h.act hc hcases).keep rfl rfl

theorem spawning_run (hrun : Tasks.run C {} as = some c) : Coherent C c ∧ Spawning C c := by
  refine StepMachine.run_invariant (Tasks.step C) (I := fun c => Coherent C c ∧ Spawning C c)
    (fun c a c' h hstep => ?_) ⟨coherent_initial C, spawning_initial C⟩ hrun
  exact ⟨h.1.step hstep, h.2.step h.1 hstep⟩

/-- A coroutine has spawned what its code spawns, in this order, as far as it has come. -/
theorem children_prefix (hrun : Tasks.run C {} as = some c) (hp : c.tasks[k]? = some p) :
    c.children k <+: C.spawned (C.call p.arg) p.resumed :=
  ⟨_, (spawning_run hrun).2.born k p hp⟩

/-- It has spawned all of it where no function is executing. -/
theorem children_eq (hrun : Tasks.run C {} as = some c) (hloop : InEventLoop c.world)
    (hp : c.tasks[k]? = some p) : c.children k = C.spawned (C.call p.arg) p.resumed := by
  obtain ⟨hc, h⟩ := spawning_run hrun
  rw [← h.born k p hp, hc.receivers_nil hloop]
  exact (List.append_nil _).symm

end Tasks

end LibeventContext

end Stdnet
