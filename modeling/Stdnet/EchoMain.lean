import Stdnet.EchoServer
import Stdnet.Shutdown
import Stdnet.Spawning

/-!
# The Program of the Echo Server

`main` of `examples/server.cpp`. One coroutine accepts connections and spawns a `make_client` for
each of them, another one waits for timers. All of them are spawned in one scope, whose stop a
connection requests that has received "exit".

Nothing catches an exception that leaves the coroutines of the acceptor or of the timers. It ends up
in `exec::async_scope`, which is not part of the repository, and the program is followed up to there.

## Main results

- `echoes`, `exit_not_echoed`: what each connection sends back.
- `connections_served`: each accepted connection has one coroutine.
- `accepts_until_exit`: when an acceptor returns.
- `exit_undefined`: a message that begins with "exit" does not end the program, it makes its
  behaviour undefined.
-/

namespace Stdnet

namespace Echo

open History Http ListEntries LibeventContext

/-! ## The coroutines -/

/-- A coroutine that is spawned, with its arguments. -/
inductive Call where
  | acceptor (id : SocketId) (scope : Source)
  /-- `clock i` is what `system_clock::now()` returns in iteration `i` -/
  | timers (clock : ℕ → ℤ)
  | client (a : Arguments)

/-- The socket of the connection that a coroutine serves. -/
def Call.stream : Call → Option SocketId
  | .client a => some a.stream
  | .acceptor _ _ | .timers _ => none

/-- Where a coroutine is suspended. -/
inductive Activation where
  /-- `accepted` is spawned before the next connection is accepted -/
  | accepting (id : SocketId) (scope : Source) (accepted : Option Arguments)
  /-- `fired` timers have fired -/
  | waiting (clock : ℕ → ℤ) (fired : ℕ)
  | serving (c : Client)
  /-- an acceptor or the timers were stopped, or the last timer has fired -/
  | returned
  /-- an exception has left them -/
  | thrown

/-- The timer that is awaited when `fired` of them have fired, two in each iteration. -/
def timer (clock : ℕ → ℤ) (fired : ℕ) : Desc :=
  if fired % 2 = 0 then .resumeAfter 1000000 else .resumeAt (clock (fired / 2) + 1000000000)

/-- The coroutines of the program. With an accepted connection comes what the array of its
`make_client` holds at first. -/
def program : Coroutine Call Activation Text where
  call
    | .acceptor id scope => .accepting id scope none
    | .timers clock => .waiting clock 0
    | .client a => .serving (makeClient.call a)
  await
    | .accepting id _ _ => some (.accept id)
    | .waiting clock fired => some (timer clock fired)
    | .serving c => makeClient.await c
    | .returned | .thrown => none
  resume
    | .accepting id scope _, .value (.socket (some stream)), data =>
      if h : data.length = 8 then some (.accepting id scope (some ⟨stream, scope, data, h⟩))
      else none
    | .waiting clock fired, .value .unit, _ =>
      if fired + 1 = 200 then some .returned else some (.waiting clock (fired + 1))
    | .accepting _ _ _, .error _, _ | .waiting _ _, .error _, _ => some .thrown
    | .accepting _ _ _, .stopped, _ | .waiting _ _, .stopped, _ => some .returned
    | .serving c, s, data => (makeClient.resume c s data).map .serving
    | _, _, _ => none
  stops
    | .serving c => makeClient.stops c
    | _ => none
  spawns
    | .accepting _ scope (some a) => [(.client a, scope)]
    | _ => []
  undefined
    | .thrown => true
    | _ => false

/-! ## Runs of a coroutine -/

section Runs

variable {b : Call} {s s' : Activation} {x : Client} {xs : List (Signal × Text)} {a : Arguments}

/-- What a coroutine does when it is resumed. -/
inductive ResumeCases : Activation → Signal × Text → Activation → Prop where
  | accepted {id stream : SocketId} {scope : Source} {old : Option Arguments} {data : Text}
      (hsize : data.length = 8) :
      ResumeCases (.accepting id scope old) (.value (.socket (some stream)), data)
        (.accepting id scope (some ⟨stream, scope, data, hsize⟩))
  | fired {clock : ℕ → ℤ} {n : ℕ} {data : Text} (hn : n + 1 ≠ 200) :
      ResumeCases (.waiting clock n) (.value .unit, data) (.waiting clock (n + 1))
  | finished {clock : ℕ → ℤ} {n : ℕ} {data : Text} (hn : n + 1 = 200) :
      ResumeCases (.waiting clock n) (.value .unit, data) .returned
  | thrown {s : Activation} {e : ErrorCode} {data : Text} (hs : ∀ c, s ≠ .serving c) :
      ResumeCases s (.error e, data) .thrown
  | stopped {s : Activation} {data : Text} (hs : ∀ c, s ≠ .serving c) :
      ResumeCases s (.stopped, data) .returned
  | served {c c' : Client} {y : Signal × Text} (hresume : makeClient.resume c y.1 y.2 = some c') :
      ResumeCases (.serving c) y (.serving c')

theorem resume_cases {y : Signal × Text} (hresume : program.resume s y.1 y.2 = some s') :
    ResumeCases s y s' := by
  obtain ⟨signal, data⟩ := y
  simp only [program] at hresume
  split at hresume
  next =>
    split at hresume
    next hsize =>
      obtain rfl := Option.some.inj hresume
      exact .accepted hsize
    next => cases hresume
  next =>
    split at hresume
    next hn =>
      obtain rfl := Option.some.inj hresume
      exact .finished hn
    next hn =>
      obtain rfl := Option.some.inj hresume
      exact .fired hn
  next =>
    obtain rfl := Option.some.inj hresume
    exact .thrown fun c heq => by cases heq
  next =>
    obtain rfl := Option.some.inj hresume
    exact .thrown fun c heq => by cases heq
  next =>
    obtain rfl := Option.some.inj hresume
    exact .stopped fun c heq => by cases heq
  next =>
    obtain rfl := Option.some.inj hresume
    exact .stopped fun c heq => by cases heq
  next =>
    obtain ⟨c', hc', rfl⟩ := Option.map_eq_some_iff.mp hresume
    exact .served hc'
  next => cases hresume

theorem run_serving (c : Client) (xs : List (Signal × Text)) :
    program.run (.serving c) xs = (makeClient.run c xs).map .serving := by
  induction xs generalizing c with
  | nil => rfl
  | cons y xs ih =>
    show ((makeClient.resume c y.1 y.2).map Activation.serving).bind (program.run · xs) =
      ((makeClient.resume c y.1 y.2).bind (makeClient.run · xs)).map _
    cases makeClient.resume c y.1 y.2 with
    | none => rfl
    | some c' => exact ih c'

/-- The activations of a call. -/
inductive Of : Call → Activation → Prop where
  | accepting {id : SocketId} {scope : Source} {accepted : Option Arguments}
      (h : ∀ a, accepted = some a → a.scope = scope) :
      Of (.acceptor id scope) (.accepting id scope accepted)
  | waiting {clock : ℕ → ℤ} {fired : ℕ} : Of (.timers clock) (.waiting clock fired)
  | client {a : Arguments} {c : Client} : Of (.client a) (.serving c)
  | returned {b : Call} (hb : ∀ a, b ≠ .client a) : Of b .returned
  | thrown {b : Call} (hb : ∀ a, b ≠ .client a) : Of b .thrown

theorem Of.not_client (h : Of b s) (hs : ∀ c, s ≠ .serving c) (a : Arguments) : b ≠ .client a := by
  rintro rfl
  cases h with
  | client => exact hs _ rfl
  | returned hb | thrown hb => exact hb a rfl

theorem of_resume {y : Signal × Text} (h : Of b s)
    (hresume : program.resume s y.1 y.2 = some s') : Of b s' := by
  cases resume_cases hresume with
  | accepted hsize =>
    cases h with
    | accepting h => exact .accepting fun a ha => by rw [← Option.some.inj ha]
  | fired hn =>
    cases h with
    | waiting => exact .waiting
  | finished hn =>
    cases h with
    | waiting => exact .returned fun a heq => by cases heq
  | thrown hs => exact .thrown (h.not_client hs)
  | stopped hs => exact .returned (h.not_client hs)
  | served hc =>
    cases h with
    | client => exact .client

theorem of_run (hrun : program.run (program.call b) xs = some s) : Of b s := by
  refine StepMachine.run_invariant _ (I := Of b) (fun _ _ _ h hresume => of_resume h hresume) ?_ hrun
  cases b with
  | acceptor id scope => exact .accepting fun a ha => by cases ha
  | timers clock => exact .waiting
  | client a => exact .client

theorem Of.serving (h : Of (.client a) s) : ∃ x, s = .serving x := by
  cases h with
  | client => exact ⟨_, rfl⟩
  | returned hb | thrown hb => exact absurd rfl (hb a)

/-- A coroutine that serves a connection is a `make_client` alone. -/
theorem serving_of_run (hrun : program.run (program.call b) xs = some (.serving x)) :
    ∃ a, b = .client a ∧ makeClient.run (makeClient.call a) xs = some x := by
  cases of_run hrun with
  | @client a c =>
    refine ⟨a, rfl, ?_⟩
    rw [show program.call (.client a) = .serving (makeClient.call a) from rfl, run_serving] at hrun
    obtain ⟨c, hc, heq⟩ := Option.map_eq_some_iff.mp hrun
    cases heq
    exact hc

/-- A coroutine that has ended is not resumed again. -/
theorem eq_nil_of_run (hs : s = .returned ∨ s = .thrown) (hrun : program.run s xs = some s') :
    xs = [] := by
  cases xs with
  | nil => rfl
  | cons y xs =>
    obtain ⟨t, ht, -⟩ := (StepMachine.run_cons_eq_some _).mp hrun
    rcases hs with rfl | rfl <;> cases ht

/-- The socket of a connection that was accepted. -/
def accepted (y : Signal × Text) : Option SocketId :=
  match y.1 with
  | .value (.socket id) => id
  | _ => none

/-- An acceptor spawns a `make_client` for each connection. -/
theorem spawned_accepting {id : SocketId} {scope : Source} {old : Option Arguments}
    (hrun : program.run (.accepting id scope old) xs = some s) :
    (program.spawned (.accepting id scope old) xs).map (fun z => (z.1.stream, z.2)) =
      (xs.filterMap accepted).map fun stream => (some stream, scope) := by
  induction xs generalizing old with
  | nil => rfl
  | cons y xs ih =>
    obtain ⟨t, ht, hrest⟩ := (StepMachine.run_cons_eq_some _).mp hrun
    rw [Coroutine.spawned, ht]
    cases resume_cases ht with
    | accepted hsize =>
      rw [List.map_append, ih hrest]
      rfl
    | thrown hs =>
      obtain rfl := eq_nil_of_run (.inr rfl) hrest
      rfl
    | stopped hs =>
      obtain rfl := eq_nil_of_run (.inl rfl) hrest
      rfl

/-- It returns when it is stopped. -/
theorem stopped_of_returned {id : SocketId} {scope : Source} {old : Option Arguments}
    (hrun : program.run (.accepting id scope old) xs = some .returned) : ∃ y ∈ xs, y.1 = .stopped := by
  induction xs generalizing old with
  | nil => cases hrun
  | cons y xs ih =>
    obtain ⟨t, ht, hrest⟩ := (StepMachine.run_cons_eq_some _).mp hrun
    cases resume_cases ht with
    | accepted hsize =>
      obtain ⟨z, hz, hstopped⟩ := ih hrest
      exact ⟨z, List.mem_cons_of_mem _ hz, hstopped⟩
    | thrown hs =>
      obtain rfl := eq_nil_of_run (.inr rfl) hrest
      cases hrest
    | stopped hs => exact ⟨_, List.mem_cons_self, rfl⟩

/-- Nothing but an acceptor spawns anything. -/
theorem accepting_of_spawned {z : Call × Source} (hz : z ∈ program.spawned s xs) :
    ∃ id scope old, s = .accepting id scope old := by
  induction xs generalizing s with
  | nil => cases hz
  | cons y xs ih =>
    rw [Coroutine.spawned] at hz
    split at hz
    next => cases hz
    next t ht =>
      have hnext : ∃ id scope old, t = .accepting id scope old := by
        rcases List.mem_append.mp hz with hz | hz
        · cases t with
          | accepting id scope old => exact ⟨id, scope, old, rfl⟩
          | waiting | serving | returned | thrown => cases hz
        · exact ih hz
      obtain ⟨id, scope, old, rfl⟩ := hnext
      cases resume_cases ht with
      | accepted hsize => exact ⟨_, _, _, rfl⟩

theorem acceptor_of_spawned {z : Call × Source} (hz : z ∈ program.spawned (program.call b) xs) :
    ∃ id scope, b = .acceptor id scope := by
  obtain ⟨id, scope, old, heq⟩ := accepting_of_spawned hz
  cases b with
  | acceptor id scope => exact ⟨id, scope, rfl⟩
  | timers clock => cases heq
  | client a => cases heq

end Runs

/-! ## The program -/

/-- What `main` and the rest of the program do: only acceptors and timers are spawned by `main`, all
in one scope, and no other code starts operations or requests stops. -/
def ByMain (scope : Source) : TaskAction Call Text → Prop
  | .spawn (.acceptor _ scope') token => scope' = scope ∧ token = scope
  | .spawn (.timers _) token => token = scope
  | .spawn (.client _) _ => False
  | .resume => True
  | .step (.start _ _) _ | .step (.requestStop _) _ => False
  | .step _ _ => True

/-- The coroutine is given the scope, if it is given one. -/
def Call.In (scope : Source) : Call → Prop
  | .acceptor _ scope' => scope' = scope
  | .timers _ => True
  | .client a => a.scope = scope

/-- Every operation is a coroutine's, every coroutine was spawned in the scope, and each client by
another coroutine. -/
structure OfMain (scope : Source) (c : Tasks Call Activation Text) : Prop where
  owners : none ∉ c.owners
  tasks : ∀ p ∈ c.tasks, p.token = scope ∧ p.arg.In scope ∧
    ∀ a, p.arg = .client a → p.parent ≠ none
  duties : ∀ (k : ℕ) (b : Call) (token : Source), .spawn k b token ∈ c.receivers.flatten →
    token = scope ∧ b.In scope

section Program

variable {c c' : Tasks Call Activation Text} {as : List (TaskAction Call Text)} {k : ℕ}
  {p : Task Call Activation Text} {x : Client} {m : Text} {scope : Source}

theorem ofMain_initial : OfMain scope {} where
  owners h := by cases h
  tasks p hp := by cases hp
  duties k b token hmem := by cases hmem

theorem OfMain.keep (h : OfMain scope c) (howners : none ∉ c'.owners)
    (htasks : ∀ p' ∈ c'.tasks, ∃ p ∈ c.tasks,
      p'.token = p.token ∧ p'.arg = p.arg ∧ p'.parent = p.parent)
    (hduties : ∀ (k : ℕ) (b : Call) (token : Source), .spawn k b token ∈ c'.receivers.flatten →
      .spawn k b token ∈ c.receivers.flatten) : OfMain scope c' where
  owners := howners
  tasks p' hp' := by
    obtain ⟨p, hp, htoken, harg, hparent⟩ := htasks p' hp'
    rw [htoken, harg, hparent]
    exact h.tasks p hp
  duties k b token hmem := h.duties k b token (hduties k b token hmem)

theorem OfMain.spawn (h : OfMain scope c) {w : LibeventWorld} {parent : Option ℕ} {b : Call}
    {token : Source} (htoken : token = scope) (hb : b.In scope)
    (hparent : ∀ a, b = .client a → parent ≠ none) :
    OfMain scope (c.spawned program w parent b token) where
  owners := by
    rw [Tasks.spawned, List.mem_append, not_or]
    exact ⟨h.owners, by simp⟩
  tasks p hp := by
    rcases List.mem_append.mp hp with hp | hp
    · exact h.tasks p hp
    · obtain rfl := List.mem_singleton.mp hp
      exact ⟨htoken, hb, hparent⟩
  duties := h.duties

theorem mem_of_set {ts : List (Task Call Activation Text)} {q p' : Task Call Activation Text}
    (hp : ts[k]? = some p) (hp' : p' ∈ ts.set k q)
    (hsame : q.token = p.token ∧ q.arg = p.arg ∧ q.parent = p.parent) :
    ∃ p ∈ ts, p'.token = p.token ∧ p'.arg = p.arg ∧ p'.parent = p.parent := by
  rcases List.mem_or_eq_of_mem_set hp' with hp' | rfl
  · exact ⟨p', hp', rfl, rfl, rfl⟩
  · exact ⟨p, List.mem_of_getElem? hp, hsame⟩

/-- What the coroutine spawns is given the scope that it was given itself. -/
theorem in_of_spawns {b : Call} {s : Activation} (h : Of b s) (hb : b.In scope)
    {z : Call × Source} (hz : z ∈ program.spawns s) : z.2 = scope ∧ z.1.In scope := by
  cases h with
  | @accepting id scope' accepted h =>
    cases accepted with
    | none => cases hz
    | some a =>
      obtain rfl := List.mem_singleton.mp hz
      exact ⟨hb, (h a rfl).trans hb⟩
  | waiting | client | returned | thrown => cases hz

theorem OfMain.act {a : TaskAction Call Text} (h : OfMain scope c)
    (hc : Tasks.Coherent program c) (hcases : Tasks.ActionCases program c a c')
    (ha : ByMain scope a) : OfMain scope c' := by
  have hkept : ∀ p ∈ c.tasks, ∃ q ∈ c.tasks,
      p.token = q.token ∧ p.arg = q.arg ∧ p.parent = q.parent := fun p hp => ⟨p, hp, rfl, rfl, rfl⟩
  cases hcases with
  | @spawn b token d w hd hw =>
    cases b with
    | acceptor id scope' => exact h.spawn ha.2 ha.1 fun a heq => by cases heq
    | timers clock => exact h.spawn ha trivial fun a heq => by cases heq
    | client a => cases ha
  | @spawned k b token ds rest d w hrs hd hw =>
    have hhead : .spawn k b token ∈ c.receivers.flatten := by
      rw [hrs]
      exact List.mem_cons_self
    obtain ⟨htoken, hb⟩ := h.duties k b token hhead
    have hnext : OfMain scope { c with receivers := ds :: rest } :=
      h.keep h.owners hkept fun k b token hmem => by rw [hrs]; exact List.mem_cons_of_mem _ hmem
    exact hnext.spawn htoken hb fun a heq => Option.some_ne_none k
  | requestStop hrs hw =>
    exact h.keep h.owners hkept fun k b token hmem => by
      rw [hrs]; exact List.mem_cons_of_mem _ hmem
  | await hrs hp hd hw =>
    refine h.keep ?_ (fun p' hp' => mem_of_set hp hp' ⟨rfl, rfl, rfl⟩) fun k b token hmem => by
      rw [hrs]; exact List.mem_cons_of_mem _ hmem
    rw [List.mem_append, not_or]
    exact ⟨h.owners, by simp⟩
  | start hw => cases ha
  | quiet hl hbusy hw hnone =>
    exact h.keep h.owners hkept fun k b token hmem => Tasks.flatten_quiet hbusy ▸ hmem
  | other hw hsome ho => exact h.keep h.owners hkept fun k b token hmem => hmem
  | @resumed l x o s k p s' w hw hsome ho hp hresume =>
    have harg := (h.tasks p (List.mem_of_getElem? hp)).2.1
    have hof := of_resume (y := (s, x)) (of_run (hc.ordered k p hp).run) hresume
    refine ⟨h.owners, fun p' hp' => ?_, fun k' b token hmem => ?_⟩
    · obtain ⟨q, hq, htoken, hsame, hparent⟩ := mem_of_set hp hp' ⟨rfl, rfl, rfl⟩
      rw [htoken, hsame, hparent]
      exact h.tasks q hq
    · rcases List.mem_append.mp hmem with hmem | hmem
      · exact in_of_spawns hof harg (Tasks.mem_spawns_of_mem_duties hmem)
      · exact h.duties k' b token hmem

theorem OfMain.step {a : TaskAction Call Text} (h : OfMain scope c)
    (hc : Tasks.Coherent program c) (hstep : c.step program a = some c') (ha : ByMain scope a) :
    OfMain scope c' := by
  obtain ⟨-, c₁, hcases, rfl⟩ := Tasks.action_cases hstep
  have h₁ := h.act hc hcases ha
  exact ⟨h₁.owners, h₁.tasks, h₁.duties⟩

theorem ofMain_run (hmain : ∀ a ∈ as, ByMain scope a) (hrun : Tasks.run program {} as = some c) :
    OfMain scope c := by
  refine (StepMachine.run_invariant_of_stepsAll (Tasks.step program)
    (I := fun c => Tasks.Coherent program c ∧ OfMain scope c)
    (fun c a c' h hstep ha => ⟨h.1.step hstep, h.2.step h.1 hstep ha⟩)
    ⟨Tasks.coherent_initial program, ofMain_initial⟩ hrun
    ((StepMachine.stepsAll_labels (Tasks.step program) _ hrun).mpr hmain)).2

/-- A coroutine that serves a connection is a `make_client`, whatever the others do. -/
theorem serving (hrun : Tasks.run program {} as = some c) (hp : c.tasks[k]? = some p)
    (hx : p.state = .serving x) :
    ∃ a, p.arg = .client a ∧ makeClient.run (makeClient.call a) p.resumed = some x :=
  serving_of_run (hx ▸ ((Tasks.coherent_run hrun).ordered k p hp).run)

def performs (n : ℕ) : List (TaskAction Call Text) := List.replicate n (.step (.perform {}) [])

/-- The program accepts a connection and serves it. -/
def served : List (TaskAction Call Text) :=
  [.step (.makeSocket 5) [], .spawn (.acceptor 0 0) 0] ++ performs 4 ++
    [.spawn (.timers fun _ => 0) 0] ++ performs 4 ++
    [.step (.ready 0 { results := [.ok 9] }) []] ++ performs 1 ++
    -- the acceptor spawns the client, which receives, and accepts again
    [.step (.perform {}) (List.replicate 8 'x'), .resume] ++ performs 4 ++ [.resume] ++ performs 4 ++
    [.step .userReturn []]

/-- The client sends "ab", which is sent back to it. -/
def sentBack : List (TaskAction Call Text) :=
  served ++ [.step (.ready 2 { results := [.ok 2] }) []] ++ performs 1 ++
    [.step (.perform {}) "ab".toList, .resume] ++ performs 4 ++ [.step .userReturn []] ++
    [.step (.ready 4 { results := [.ok 2] }) []] ++ performs 2 ++ [.resume] ++ performs 4 ++
    [.step .userReturn []]

/-- The client sends "exit": the coroutine requests the stop, which calls the stop callbacks of the
timer and of the acceptor, and `request_stop` returns. -/
def exitReceived : List (TaskAction Call Text) :=
  served ++ [.step (.ready 2 { results := [.ok 4] }) []] ++ performs 1 ++
    [.step (.perform {}) "exit".toList, .resume] ++
    [.step (.callback 1) []] ++ performs 4 ++ [.step .userReturn []] ++ performs 1 ++
    [.step (.callback 3) []] ++ performs 4 ++ [.step .userReturn []] ++ performs 1 ++
    [.step .stopDone []]

/-- The send is started, and stopped. -/
def exitSent : List (TaskAction Call Text) :=
  exitReceived ++ [.resume] ++ performs 6 ++ [.step .userReturn []]

/-- `_Start` goes on with the send, which is gone. -/
def exitUndefined : List (TaskAction Call Text) := exitSent ++ performs 3

theorem byMain_exitUndefined : ∀ a ∈ exitUndefined, ByMain 0 a := by
  simp [exitUndefined, exitSent, exitReceived, served, performs, ByMain]

theorem byMain_exitSent : ∀ a ∈ exitSent, ByMain 0 a := fun a ha =>
  byMain_exitUndefined a (List.mem_append_left _ ha)

theorem byMain_exitReceived : ∀ a ∈ exitReceived, ByMain 0 a := by
  intro a ha
  refine byMain_exitSent a ?_
  rw [exitSent, List.append_assoc, List.append_assoc]
  exact List.mem_append_left _ ha

theorem byMain_served : ∀ a ∈ served, ByMain 0 a := by
  simp [served, performs, ByMain]

theorem run_served : ∃ c q, Tasks.run program {} served = some c ∧ InEventLoop c.world ∧
    c.tasks[0]? = some q ∧ q.arg = .acceptor 0 0 :=
  ⟨_, _, rfl, ⟨rfl, rfl⟩, rfl, rfl⟩

theorem run_exitReceived : ∃ c q, Tasks.run program {} exitReceived = some c ∧
    c.undefined = false ∧ c.tasks[0]? = some q ∧ q.arg = .acceptor 0 0 ∧
    Tasks.StopReturned c.world 0 := by
  have hrun : ∃ c q, Tasks.run program {} exitReceived = some c ∧ c.undefined = false ∧
      c.tasks[0]? = some q ∧ q.arg = .acceptor 0 0 ∧ c.world.crashed = false ∧
      c.world.stopped 0 = true ∧ c.world.todo = [.user] :=
    ⟨_, _, rfl, rfl, rfl, rfl, rfl, rfl, rfl⟩
  obtain ⟨c, q, hrun, hdefined, hq, harg, hcrashed, hstopped, htodo⟩ := hrun
  exact ⟨c, q, hrun, hdefined, hq, harg, hcrashed, by rw [World.userMay, htodo], hstopped,
    by simp [htodo]⟩

/-- In every run of the program, whatever else it does, a connection sends back of each message, in
order, what its one send transfers; that is all it has received exactly if every send has transferred
its whole message. -/
theorem echoes (hrun : Tasks.run program {} as = some c) (hp : c.tasks[k]? = some p)
    (hx : p.state = .serving x) : Echoes x := by
  obtain ⟨a, -, hown⟩ := serving hrun hp hx
  exact (run_invariant hown).returned

theorem run_sentBack : ∃ c p x, Tasks.run program {} sentBack = some c ∧
    c.tasks[2]? = some p ∧ p.state = .serving x ∧ x.output = "ab".toList :=
  ⟨_, _, _, rfl, rfl, rfl, rfl⟩

theorem echoes_sentBack : ∃ c p x, Tasks.run program {} sentBack = some c ∧
    c.tasks[2]? = some p ∧ p.state = .serving x ∧ x.output = "ab".toList ∧ Echoes x := by
  obtain ⟨c, p, x, hrun, hp, hx, houtput⟩ := run_sentBack
  exact ⟨c, p, x, hrun, hp, hx, houtput, echoes hrun hp hx⟩

/-- In every run of the program each connection that an acceptor has accepted is served by one
coroutine, in the order in which they were accepted, and every client's coroutine serves a
connection that some acceptor has accepted. -/
theorem connections_served (hmain : ∀ a ∈ as, ByMain scope a)
    (hrun : Tasks.run program {} as = some c) :
    (∀ (k : ℕ) (p : Task Call Activation Text) (id : SocketId), c.tasks[k]? = some p →
      p.arg = .acceptor id scope →
        (c.children k).map (fun z => (z.1.stream, z.2)) <+:
          (p.resumed.filterMap accepted).map (fun stream => (some stream, scope)) ∧
        (InEventLoop c.world → (c.children k).map (fun z => (z.1.stream, z.2)) =
          (p.resumed.filterMap accepted).map fun stream => (some stream, scope))) ∧
      ∀ p ∈ c.tasks, ∀ a, p.arg = .client a → ∃ (k : ℕ) (q : Task Call Activation Text)
        (id : SocketId), p.parent = some k ∧ c.tasks[k]? = some q ∧ q.arg = .acceptor id scope := by
  obtain ⟨hc, h⟩ := Tasks.spawning_run hrun
  have hof := ofMain_run hmain hrun
  refine ⟨fun k p id hp harg => ?_, fun p hp a ha => ?_⟩
  · have hown := (hc.ordered k p hp).run
    rw [harg] at hown
    have hspawned := spawned_accepting hown
    have hchildren := Tasks.children_prefix hrun hp
    rw [harg] at hchildren
    refine ⟨hspawned ▸ hchildren.map _, fun hloop => ?_⟩
    rw [Tasks.children_eq hrun hloop hp, harg]
    exact hspawned
  · obtain ⟨k, hk⟩ := Option.ne_none_iff_exists'.mp ((hof.tasks p hp).2.2 a ha)
    have hlt := h.parents p hp k hk
    have hq : c.tasks[k]? = some c.tasks[k] := List.getElem?_eq_getElem hlt
    have hchild : (p.arg, p.token) ∈ c.children k :=
      List.mem_filterMap.mpr ⟨p, hp, if_pos hk⟩
    obtain ⟨id, scope', harg⟩ := acceptor_of_spawned ((Tasks.children_prefix hrun hq).subset hchild)
    obtain rfl : scope' = scope := by
      have hin := (hof.tasks _ (List.mem_of_getElem? hq)).2.1
      rw [harg] at hin
      exact hin
    exact ⟨k, _, id, hk, hq, harg⟩

theorem connections_served_served : ∃ c q, Tasks.run program {} served = some c ∧
    c.tasks[0]? = some q ∧ (c.children 0).map (fun z => (z.1.stream, z.2)) =
      (q.resumed.filterMap accepted).map fun stream => (some stream, 0) := by
  obtain ⟨c, q, hrun, hloop, hq, harg⟩ := run_served
  exact ⟨c, q, hrun, hq, ((connections_served byMain_served hrun).1 0 q 0 hq harg).2 hloop⟩

/-- A message that begins with "exit" is the last one of its connection, and nothing of it is sent
back: the send is started when the stop was requested. -/
theorem exit_not_echoed (hmain : ∀ a ∈ as, ByMain scope a)
    (hrun : Tasks.run program {} as = some c) (hp : c.tasks[k]? = some p)
    (hx : p.state = .serving x) :
    ∀ m ∈ x.messages.take x.sent.length, ¬ "exit".toList <+: m := by
  obtain ⟨a, harg, hown⟩ := serving hrun hp hx
  obtain ⟨htoken, hscope, -⟩ := (ofMain_run hmain hrun).tasks p (List.mem_of_getElem? hp)
  rw [harg] at hscope
  apply exits_unsent hown
  by_contra hsome
  obtain ⟨xs, y, ys, t, t', hsplit, hxs, -, hnot⟩ := (StepMachine.not_stepsAll_iff _).mp hsome
  obtain ⟨hexits, hother⟩ := Classical.not_imp.mp hnot
  apply hother
  apply Tasks.own_stop hrun hp (i := xs.length) (s := .serving t)
  · cases xs with
    | nil =>
      obtain rfl := Option.some.inj hxs
      cases hexits
    | cons => exact Nat.succ_pos _
  · rw [hsplit, List.take_left, harg]
    exact (run_serving _ _).trans (congrArg (Option.map Activation.serving) hxs)
  · refine stops_eq_some.mpr ⟨hexits, ?_⟩
    rw [(run_args hxs).2, htoken]
    exact hscope
  · rw [hsplit]
    simp

theorem run_exitSent : ∃ c p x, Tasks.run program {} exitSent = some c ∧
    c.tasks[2]? = some p ∧ p.state = .serving x ∧ x.messages = ["exit".toList] :=
  ⟨_, _, _, rfl, rfl, rfl, rfl⟩

theorem exit_not_echoed_exitSent : ∃ c p x, Tasks.run program {} exitSent = some c ∧
    c.tasks[2]? = some p ∧ p.state = .serving x ∧ x.messages = ["exit".toList] ∧
    ∀ m ∈ x.messages.take x.sent.length, ¬ "exit".toList <+: m := by
  obtain ⟨c, p, x, hrun, hp, hx, hmessages⟩ := run_exitSent
  exact ⟨c, p, x, hrun, hp, hx, hmessages, exit_not_echoed byMain_exitSent hrun hp hx⟩

/-- Some connection has received a message that begins with "exit". -/
def ExitReceived (c : Tasks Call Activation Text) : Prop :=
  ∃ (k : ℕ) (p : Task Call Activation Text) (x : Client), c.tasks[k]? = some p ∧
    p.state = .serving x ∧ ∃ m ∈ x.messages, "exit".toList <+: m

/-- A stop is asked for exactly if such a message was received. -/
theorem asked_iff (hmain : ∀ a ∈ as, ByMain scope a) (hrun : Tasks.run program {} as = some c) :
    Tasks.Asked program c scope ↔ ExitReceived c := by
  have hc := Tasks.coherent_run hrun
  constructor
  · rintro ⟨k, p, i, s, hp, hi, hle, htake, hstops⟩
    cases s with
    | serving t =>
      obtain ⟨a, harg, ht⟩ := serving_of_run htake
      have hown := (hc.ordered k p hp).run
      obtain ⟨x, hx⟩ := (harg ▸ of_run hown : Of (.client a) p.state).serving
      obtain ⟨a', harg', hrun'⟩ := serving hrun hp hx
      obtain rfl := Call.client.inj (harg.symm.trans harg')
      exact ⟨k, p, x, hp, hx,
        (exits_iff hrun').mpr ⟨i, t, hi, hle, ht, (stops_eq_some.mp hstops).1⟩⟩
    | accepting | waiting | returned | thrown => cases hstops
  · rintro ⟨k, p, x, hp, hx, hm⟩
    obtain ⟨a, harg, hown⟩ := serving hrun hp hx
    obtain ⟨i, t, hi, hle, ht, hexits⟩ := (exits_iff hown).mp hm
    refine ⟨k, p, i, .serving t, hp, hi, hle, ?_, stops_eq_some.mpr ⟨hexits, ?_⟩⟩
    · rw [harg]
      exact (run_serving _ _).trans (congrArg (Option.map Activation.serving) ht)
    · have hscope := ((ofMain_run hmain hrun).tasks p (List.mem_of_getElem? hp)).2.1
      rw [harg] at hscope
      exact (run_args ht).2.trans hscope

theorem not_isRequest {a : TaskAction Call Text} (ha : ByMain scope a) : ¬ Tasks.IsRequest a := by
  unfold Tasks.IsRequest
  split
  next => exact fun _ => ha
  next => exact id

/-- The scope is stopped only if such a message was received. -/
theorem exitReceived_of_stopped (hmain : ∀ a ∈ as, ByMain scope a)
    (hrun : Tasks.run program {} as = some c) (hstop : c.world.stopped scope = true) :
    ExitReceived c :=
  (asked_iff hmain hrun).mp (Tasks.asked_of_requested hrun
    (fun a ha => not_isRequest (hmain a ha)) scope (.inl hstop))

/-- What makes the behaviour of the program undefined. -/
theorem broken_iff : Tasks.Broken program c ↔
    ∃ (k : ℕ) (p : Task Call Activation Text), c.tasks[k]? = some p ∧ p.state = .thrown := by
  refine exists_congr fun k => exists_congr fun p => and_congr_right fun hp => ?_
  cases p.state <;> simp [program]

theorem undefined_iff_thrown (hrun : Tasks.run program {} as = some c) :
    c.undefined = true ↔
      (∃ (k : ℕ) (p : Task Call Activation Text), c.tasks[k]? = some p ∧ p.state = .thrown) ∨
        ∃ op, c.Dangles op := by
  have hcall : ∀ b, program.undefined (program.call b) = false := by
    intro b
    cases b <;> rfl
  rw [Tasks.task_undefined_iff hcall hrun, broken_iff]

theorem not_thrown (hrun : Tasks.run program {} as = some c) (hdefined : c.undefined = false)
    (hp : c.tasks[k]? = some p) : p.state ≠ .thrown := by
  intro hthrown
  rw [(undefined_iff_thrown hrun).mpr (.inl ⟨k, p, hp, hthrown⟩)] at hdefined
  cases hdefined

/-- When such a message was received the event loop is not entered again. -/
theorem not_inEventLoop_of_exit (hmain : ∀ a ∈ as, ByMain scope a)
    (hrun : Tasks.run program {} as = some c) (hexit : ExitReceived c) :
    ¬ InEventLoop c.world := by
  obtain ⟨k, p, x, hp, hx, hm⟩ := hexit
  obtain ⟨a, harg, hown⟩ := serving hrun hp hx
  obtain ⟨i, t, hi, hle, ht, hexits⟩ := (exits_iff hown).mp hm
  obtain ⟨htoken, hscope, -⟩ := (ofMain_run hmain hrun).tasks p (List.mem_of_getElem? hp)
  rw [harg] at hscope
  obtain ⟨size, hawait⟩ := (run_invariant ht).await_of_exits hexits
  refine Tasks.own_stop_undefined hrun hp hi hle (s := .serving t) ?_ ?_ ?_
  · rw [harg]
    exact (run_serving _ _).trans (congrArg (Option.map Activation.serving) ht)
  · refine stops_eq_some.mpr ⟨hexits, ?_⟩
    rw [(run_args ht).2, htoken]
    exact hscope
  · show (t.await.desc t.stream).isSome
    rw [hawait]
    rfl

/-! ## Acceptors -/

/-- Once the stop is to be requested no acceptor is between two connections. -/
def Resting (scope : Source) (c : Tasks Call Activation Text) : Prop :=
  Tasks.Requested c scope → ∀ (k : ℕ) (p : Task Call Activation Text),
    k ∈ Tasks.awaiting c.receivers → c.tasks[k]? = some p →
    ∀ id scope' old, p.state ≠ .accepting id scope' old

theorem Resting.keep (h : Resting scope c)
    (hrequested : Tasks.Requested c' scope ↔ Tasks.Requested c scope)
    (hawaiting : ∀ k ∈ Tasks.awaiting c'.receivers, k ∈ Tasks.awaiting c.receivers)
    (htasks : ∀ (k : ℕ) (p' : Task Call Activation Text), k ∈ Tasks.awaiting c'.receivers →
      c'.tasks[k]? = some p' → ∃ p, c.tasks[k]? = some p ∧ p'.state = p.state) :
    Resting scope c' := by
  intro hreq k p' hk hp'
  obtain ⟨p, hp, hstate⟩ := htasks k p' hk hp'
  rw [hstate]
  exact h (hrequested.mp hreq) k p (hawaiting k hk) hp

/-- A value that a receive or an `accept` has brought comes from the event loop. -/
theorem receivers_of_value {l : Label} {o : OpId} {v : Value} {w : LibeventWorld} {d : Desc}
    (hc : Tasks.Coherent program c) (hw : c.world.step l = some w)
    (hsome : delivery c.world l = some (o, .value v)) (ho : c.owners[o]? = some (some k))
    (hp : c.tasks[k]? = some p) (hawait : program.await p.state = some d)
    (hd : ∀ env x, d.submitEnd env = some x → ∃ e, x = .error e) :
    c.receivers = [] := by
  have hs := hc.signals hw hsome
  obtain ⟨op, hop, -, -, hlast, hlength, -⟩ := hc.suspended hs ho hp
  obtain ⟨op', s, hop', -, htake, hdesc, -⟩ := (hc.ordered k p hp).entries _ o hlast
  cases hop.symm.trans hop'
  rw [List.take_length, (hc.ordered k p hp).run, Option.some.injEq] at htake
  subst htake
  obtain rfl := Option.some.inj (hawait.symm.trans hdesc)
  exact hc.receivers_of_value hw hs hop hd

theorem submitEnd_error {d : Desc} {id : SocketId} (hd : d = .accept id ∨ d = .receive id)
    {env : Env} {x : WorkEnd} (hx : d.submitEnd env = some x) : ∃ e, x = .error e := by
  have hmap : (env.eventNew.map fun e => WorkEnd.error ⟨e, .libevent⟩) = some x := by
    rcases hd with rfl | rfl <;> exact hx
  obtain ⟨e, -, rfl⟩ := Option.map_eq_some_iff.mp hmap
  exact ⟨_, rfl⟩

/-- A coroutine is resumed: a stop is requested and a connection accepted only when no other
receiver's code is executing, and no connection is accepted once the stop was requested. -/
theorem Resting.resume {l : Label} {o : OpId} {s : Signal} {x : Text} {s' : Activation}
    {w : LibeventWorld} (h : Resting scope c) (hc : Tasks.Coherent program c)
    (hmain : OfMain scope c) (hw : c.world.step l = some w)
    (hsome : delivery c.world l = some (o, s)) (ho : c.owners[o]? = some (some k))
    (hp : c.tasks[k]? = some p) (hresume : program.resume p.state s x = some s') :
    Resting scope { c with
      world := w
      tasks := c.tasks.set k { p with state := s', resumed := p.resumed ++ [(s, x)] }
      receivers := Tasks.duties program k s' :: c.receivers
      undefined := program.undefined s' } := by
  intro hreq k' p' hk' hp' id scope' old hstate
  have hs := hc.signals hw hsome
  obtain ⟨op, hop, htoken, -, -, -, hidle⟩ := hc.suspended hs ho hp
  replace hreq := (Tasks.requested_resume hw hsome rfl rfl).mp hreq
  have hown := (hc.ordered k p hp).run
  rw [Tasks.awaiting_duties] at hk'
  generalize hstate₀ : p.state = s₀ at hresume
  have hcases := resume_cases (y := (s, x)) hresume
  rcases getElem?_set_cases hp' with ⟨rfl, rfl⟩ | ⟨hne, hp'⟩
  · -- it has accepted a connection, though the stop was requested before
    obtain rfl : s' = .accepting id scope' old := hstate
    cases hcases with
    | accepted hsize =>
      have hnil := receivers_of_value hc hw hsome ho hp (by rw [hstate₀]; rfl)
        fun env y => submitEnd_error (.inl rfl)
      rcases hreq with hstopped | hmem
      · rcases hstopped with hstopped | hmem
        · rw [← (hmain.tasks p (List.mem_of_getElem? hp)).1, ← htoken] at hstopped
          cases Tasks.stopped_of_delivery hc hw hs hop hstopped
        · rw [hnil] at hmem
          cases hmem
      · cases hmem
  · have hk : k' ∈ Tasks.awaiting c.receivers := by
      split at hk'
      · exact (List.mem_cons.mp hk').resolve_left hne
      · exact hk'
    rcases hreq with hreq | hstops
    · exact h hreq k' p' hk hp' id scope' old hstate
    · -- the stop is requested by a connection, whose receive was completed by the event loop
      cases hcases with
      | @served x₀ x' y hserved =>
        obtain ⟨a, -, hx⟩ := serving_of_run (hstate₀ ▸ hown)
        obtain ⟨hawait, n, hvalue⟩ := received_of_exits (run_invariant hx) hserved
          (stops_eq_some.mp hstops).1
        obtain rfl : s = .value (.count n) := hvalue
        have hdesc : program.await p.state = some (.receive x₀.stream) := by
          rw [hstate₀]
          show x₀.await.desc x₀.stream = _
          rw [hawait]
          rfl
        have hnil := receivers_of_value hc hw hsome ho hp hdesc
          fun env y => submitEnd_error (.inr rfl)
        rw [hnil] at hk
        cases hk
      | accepted | fired | finished | thrown | stopped => cases hstops

theorem Resting.act {a : TaskAction Call Text} (h : Resting scope c)
    (hc : Tasks.Coherent program c) (hmain : OfMain scope c)
    (hcases : Tasks.ActionCases program c a c') (ha : ByMain scope a) : Resting scope c' := by
  have hnew : ∀ (q : Task Call Activation Text) (k : ℕ) (p' : Task Call Activation Text),
      k ∈ Tasks.awaiting c.receivers → (c.tasks ++ [q])[k]? = some p' →
      ∃ p, c.tasks[k]? = some p ∧ p'.state = p.state := by
    intro q k p' hk hp'
    rcases getElem?_concat_cases hp' with ⟨rfl, -⟩ | ⟨-, hp'⟩
    · exact absurd (hc.known _ hk) (lt_irrefl _)
    · exact ⟨p', hp', rfl⟩
  cases hcases with
  | spawn hd hw =>
    exact h.keep (Tasks.requested_congr (Tasks.stopped_start hw) Iff.rfl) (fun k hk => hk) (hnew _)
  | @spawned k b token ds rest d w hrs hd hw =>
    have hawaiting : Tasks.awaiting (ds :: rest) = Tasks.awaiting c.receivers := by
      rw [hrs]
      rfl
    refine h.keep (Tasks.requested_congr (Tasks.stopped_start hw)
      (Tasks.requested_pop hrs fun heq => by cases heq)) (fun k hk => hawaiting ▸ hk) ?_
    exact fun k p' hk => hnew _ k p' (hawaiting ▸ hk)
  | requestStop hrs hw =>
    refine h.keep (Tasks.requested_requestStop hrs hw) (fun k hk => ?_)
      fun k p' _ hp' => ⟨p', hp', rfl⟩
    rw [hrs]
    exact hk
  | @await k ds rest p d w hrs hp hd hw =>
    refine h.keep (Tasks.requested_congr (Tasks.stopped_start hw)
      (Tasks.requested_pop hrs fun heq => by cases heq)) (fun k' hk' => ?_)
      fun k' p' _ hp' => exists_of_getElem?_set (f := Task.state) hp hp' rfl
    rw [hrs]
    exact List.mem_cons_of_mem _ hk'
  | start hw => cases ha
  | @quiet l x w hl hbusy hw hnone =>
    have hstopped := Tasks.stopped_eq hw fun src heq => by subst heq; exact ha
    refine h.keep (Tasks.requested_congr hstopped (Tasks.flatten_quiet hbusy ▸ Iff.rfl))
      (fun k hk => ?_) fun k p' _ hp' => ⟨p', hp', rfl⟩
    rw [← Tasks.awaiting_quiet hbusy]
    exact hk
  | @other l x o s w hw hsome ho =>
    have hstopped := Tasks.stopped_signal hw hsome
    exact h.keep (Tasks.requested_congr hstopped Iff.rfl) (fun k hk => hk)
      fun k p' _ hp' => ⟨p', hp', rfl⟩
  | resumed hw hsome ho hp hresume => exact h.resume hc hmain hw hsome ho hp hresume

theorem resting_run (hmain : ∀ a ∈ as, ByMain scope a) (hrun : Tasks.run program {} as = some c) :
    Resting scope c := by
  refine (StepMachine.run_invariant_of_stepsAll (Tasks.step program)
    (I := fun c => Tasks.Coherent program c ∧ OfMain scope c ∧ Resting scope c)
    (fun c a c' h hstep ha => ?_)
    ⟨Tasks.coherent_initial program, ofMain_initial, fun _ k p hk => by cases hk⟩ hrun
    ((StepMachine.stepsAll_labels (Tasks.step program) _ hrun).mpr hmain)).2.2
  refine ⟨h.1.step hstep, h.2.1.step h.1 hstep ha, ?_⟩
  obtain ⟨-, c₁, hcases, rfl⟩ := Tasks.action_cases hstep
  have h₁ : Resting scope c₁ := h.2.2.act h.1 h.2.1 hcases ha
  exact h₁

/-- An acceptor accepts connections until a message that begins with "exit" is received. Where no
function is executing there was none, and it is suspended in an `async_accept` that waits in the
event base or was left behind; when the `request_stop` of a connection has returned it has returned
as well. It does not return before such a message is received. -/
theorem accepts_until_exit (hmain : ∀ a ∈ as, ByMain scope a)
    (hrun : Tasks.run program {} as = some c) (hp : c.tasks[k]? = some p) {id : SocketId}
    (harg : p.arg = .acceptor id scope) :
    (InEventLoop c.world → ¬ ExitReceived c ∧
      ∃ o op, p.ops.getLast? = some o ∧ c.world.ops[o]? = some op ∧ op.desc = .accept id ∧
        (op.isArmed = true ∨ LeftBehind c.world op)) ∧
    (Tasks.StopReturned c.world scope → c.undefined = false → p.state = .returned) ∧
    (p.state = .returned → ExitReceived c) := by
  have hc := Tasks.coherent_run hrun
  have hown := (hc.ordered k p hp).run
  have hof := of_run hown
  rw [harg] at hown hof
  have htoken := ((ofMain_run hmain hrun).tasks p (List.mem_of_getElem? hp)).1
  have hreturned : p.state = .returned → ExitReceived c := by
    intro hstate
    obtain ⟨y, hy, hstopped⟩ := stopped_of_returned (hstate ▸ hown)
    exact exitReceived_of_stopped hmain hrun
      (htoken ▸ Tasks.stopped_of_resumed hrun hp hy hstopped)
  refine ⟨fun hloop => ?_, fun hret hdefined => ?_, hreturned⟩
  · have hno : ¬ ExitReceived c := fun hexit => not_inEventLoop_of_exit hmain hrun hexit hloop
    refine ⟨hno, ?_⟩
    have hsettles := hc.settles hloop hp
    generalize hstate : p.state = s at hof
    cases hof with
    | @accepting id scope accepted h =>
      rw [hstate] at hsettles
      rcases hsettles with ⟨hnone, -⟩ | ⟨-, -, o, op, hlast, hop, hawait, hwaits⟩
      · cases hnone
      · exact ⟨o, op, hlast, hop, (Option.some.inj hawait).symm, hwaits⟩
    | returned hb => exact absurd (hreturned hstate) hno
    | thrown hb => exact absurd hstate (not_thrown hrun (Tasks.defined_of_loop hrun hloop) hp)
  · have hlength := hc.resumed_of_stopReturned hp (htoken ▸ hret)
    generalize hstate : p.state = s at hof
    cases hof with
    | @accepting id scope accepted h =>
      -- no receiver is to let it accept another connection
      have hdue := (hc.due k p hp).mpr ⟨hlength, by rw [hstate]; rfl⟩
      exact absurd hstate (resting_run hmain hrun (.inl hret.requested) k p hdue hp _ _ _)
    | returned hb => rfl
    | thrown hb => exact absurd hstate (not_thrown hrun hdefined hp)

theorem accepts_until_exit_exitReceived :
    (∃ c q o op, Tasks.run program {} served = some c ∧ c.tasks[0]? = some q ∧
      q.ops.getLast? = some o ∧ c.world.ops[o]? = some op ∧ op.desc = .accept 0) ∧
    ∃ c q, Tasks.run program {} exitReceived = some c ∧ c.tasks[0]? = some q ∧
      q.state = .returned ∧ c.undefined = false := by
  obtain ⟨c, q, hrun, hloop, hq, harg⟩ := run_served
  obtain ⟨-, o, op, hlast, hop, hdesc, -⟩ :=
    (accepts_until_exit byMain_served hrun hq harg).1 hloop
  obtain ⟨c', q', hrun', hdefined, hq', harg', hret⟩ := run_exitReceived
  exact ⟨⟨c, q, o, op, hrun, hq, hlast, hop, hdesc⟩, c', q', hrun', hq',
    (accepts_until_exit byMain_exitReceived hrun' hq' harg').2.1 hret hdefined, hdefined⟩

/-- When a message that begins with "exit" was received the program does not get back to the event
loop: its send is started with the stop requested, so that `async_scope` destroys the coroutine
within `set_stopped`, and `_Start` uses the operation afterwards. Besides that only an exception
that leaves an acceptor or the timers makes the behaviour undefined, or another operation that
`_Start` has completed. -/
theorem exit_undefined (hmain : ∀ a ∈ as, ByMain scope a)
    (hrun : Tasks.run program {} as = some c) :
    (ExitReceived c → ¬ InEventLoop c.world) ∧
      (c.undefined = true ↔
        (∃ (k : ℕ) (p : Task Call Activation Text), c.tasks[k]? = some p ∧ p.state = .thrown) ∨
          ∃ op, c.Dangles op ∧ ¬ Deferred op.desc op.history) := by
  refine ⟨not_inEventLoop_of_exit hmain hrun, ?_⟩
  have hc := Tasks.coherent_run hrun
  rw [undefined_iff_thrown hrun]
  exact or_congr_right (exists_congr fun op =>
    ⟨fun hop => ⟨hop, hc.not_deferred hop⟩, And.left⟩)

theorem run_exitUndefined : ∃ c, Tasks.run program {} exitUndefined = some c ∧
    c.undefined = true :=
  ⟨_, rfl, rfl⟩

theorem exit_undefined_exitUndefined : ∃ c, Tasks.run program {} exitUndefined = some c ∧
    c.undefined = true ∧
    ((∃ (k : ℕ) (p : Task Call Activation Text), c.tasks[k]? = some p ∧ p.state = .thrown) ∨
      ∃ op, c.Dangles op ∧ ¬ Deferred op.desc op.history) := by
  obtain ⟨c, hrun, hundefined⟩ := run_exitUndefined
  exact ⟨c, hrun, hundefined, (exit_undefined byMain_exitUndefined hrun).2.mp hundefined⟩

end Program

end Echo

end Stdnet
