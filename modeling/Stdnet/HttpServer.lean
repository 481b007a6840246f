import Stdnet.Coroutines
import Stdnet.HttpSession

/-!
# The HTTP Server

All connections of `examples/simple-http-server.cpp` on one context. Each of them is a coroutine
`make_client`, among the others and beside whatever else the program does: it accepts connections,
it lets timers run out, it requests stops.

## Main results

- `server_connections`: every connection of every run of the server is one of
  `Stdnet/HttpConnection.lean`, driven by what its own operations signal, and what became of it when
  the event loop is entered.
- `server_undefined_iff`: what makes the behaviour of the server undefined: one peer is enough, or
  one operation that `_Start` completes.
-/

namespace Stdnet

namespace Http

open History LibeventContext

/-- `make_client` with its `stream` and the files that it answers with. -/
structure Client where
  stream : SocketId
  files : ℕ → Text → Text
  connection : Connection := {}

/-- The operation that the coroutine is suspended in. -/
def Await.desc (stream : SocketId) : Await → Option Desc
  | .receive => some (.receive stream)
  | .sendHead _ _ _ | .sendBody _ _ _ => some (.send stream)
  | .finished | .undefined => none

/-- What it is to the coroutine that its operation has signalled `s`; a receive has stored `data`. -/
def completion (receives : Bool) (s : Signal) (data : Text) : Option Event :=
  match s with
  | .value (.count n) =>
    if receives then if data.length = n then some (.received data) else none else some (.sent n)
  | .value _ => none
  | .error _ | .stopped => some .failed

/-- The stream that `make_client` is called with, and the files. -/
abbrev Arguments := SocketId × (ℕ → Text → Text)

def makeClient : Coroutine Arguments Client Text where
  call a := { stream := a.1, files := a.2 }
  await c := c.connection.await.desc c.stream
  resume c s data :=
    (completion (c.connection.await == .receive) s data).bind fun e =>
      (c.connection.step c.files e).map fun x => { c with connection := x }
  undefined c := decide (c.connection.await = .undefined)

/-- The event is what the signal and the bytes stored with it are to the connection. -/
def Completes (x : Signal × Text) : Event → Prop
  | .received data => x = (.value (.count data.length), data)
  | .sent n => x.1 = .value (.count n)
  | .failed => x.1 = .stopped ∨ ∃ e, x.1 = .error e

theorem completes_of_completion {receives : Bool} {s : Signal} {data : Text} {e : Event}
    (h : completion receives s data = some e) : Completes (s, data) e := by
  unfold completion at h
  split at h
  next n =>
    split at h
    next =>
      simp only [Option.ite_none_right_eq_some, Option.some.injEq] at h
      obtain ⟨rfl, rfl⟩ := h
      rfl
    next =>
      obtain rfl := Option.some.inj h
      rfl
  next => cases h
  next code =>
    obtain rfl := Option.some.inj h
    exact .inr ⟨code, rfl⟩
  next =>
    obtain rfl := Option.some.inj h
    exact .inl rfl

/-- A coroutine that is resumed by its operations is a connection that they complete. -/
theorem run_makeClient {c x : Client} {xs : List (Signal × Text)}
    (hrun : makeClient.run c xs = some x) :
    x.stream = c.stream ∧ x.files = c.files ∧
      ∃ es, Connection.run c.files c.connection es = some x.connection ∧
        List.Forall₂ Completes xs es := by
  induction xs generalizing c with
  | nil =>
    obtain rfl := Option.some.inj hrun
    exact ⟨rfl, rfl, [], rfl, .nil⟩
  | cons y xs ih =>
    obtain ⟨c', hresume, hrest⟩ := (StepMachine.run_cons_eq_some _).mp hrun
    obtain ⟨e, he, hmap⟩ := Option.bind_eq_some_iff.mp hresume
    obtain ⟨connection, hstep, rfl⟩ := Option.map_eq_some_iff.mp hmap
    obtain ⟨hstream, hfiles, es, hes, hcompletes⟩ := ih hrest
    exact ⟨hstream, hfiles, e :: es, (StepMachine.run_cons_eq_some _).mpr ⟨_, hstep, hes⟩,
      .cons (completes_of_completion he) hcompletes⟩

theorem await_desc_eq_none {stream : SocketId} {a : Await} :
    a.desc stream = none ↔ a = .finished ∨ a = .undefined := by
  cases a <;> simp [Await.desc]

variable {c : Tasks Arguments Client Text}
  {as : List (TaskAction Arguments Text)} {k : ℕ}
  {p : Task Arguments Client Text}

/-- Every connection of the server is one that the signals of its own operations have completed,
whatever the others do. Where no function is executing, its coroutine has returned or it is
suspended in the one operation it has outstanding: that one waits in the event base or was left
behind, and its stop was not requested. -/
theorem server_connections (hrun : Tasks.run makeClient {} as = some c)
    (hp : c.tasks[k]? = some p) :
    (∃ es, Connection.run p.arg.2 {} es = some p.state.connection ∧
        List.Forall₂ Completes p.resumed es) ∧
      (InEventLoop c.world →
        (p.state.connection.await = .finished ∨ p.state.connection.await = .undefined) ∨
          (c.world.stopped p.token = false ∧
            ∃ o op, p.ops.getLast? = some o ∧ c.world.ops[o]? = some op ∧
              p.state.connection.await.desc p.arg.1 = some op.desc ∧
              (op.isArmed = true ∨ LeftBehind c.world op))) := by
  have h := Tasks.coherent_run hrun
  obtain ⟨hstream, -, es, hes, hcompletes⟩ := run_makeClient (h.ordered k p hp).run
  refine ⟨⟨es, hes, hcompletes⟩, fun hloop => ?_⟩
  have hawait : makeClient.await p.state = p.state.connection.await.desc p.arg.1 := by
    show p.state.connection.await.desc p.state.stream = _
    rw [hstream]
    rfl
  rcases h.settles hloop hp with ⟨hnone, -⟩ | ⟨-, hstop, hwaits⟩
  · rw [hawait] at hnone
    exact .inl (await_desc_eq_none.mp hnone)
  · rw [hawait] at hwaits
    exact .inr ⟨hstop, hwaits⟩

/-- The first connection breaks while the second one waits. -/
def oneBreaks : List (TaskAction Arguments Text) :=
  [.step (.makeSocket 7) [], .step (.makeSocket 8) [],
    .spawn (0, fun _ _ => []) 0, .step (.perform {}) [], .step (.perform {}) [],
    .step (.perform {}) [], .step (.perform {}) [],
    .spawn (1, fun _ _ => []) 0, .step (.perform {}) [], .step (.perform {}) [],
    .step (.perform {}) [], .step (.perform {}) [],
    .step (.ready 0 { results := [.fail 5] }) [], .step (.perform {}) [], .step (.perform {}) [],
    .step .userReturn []]

theorem run_oneBreaks : ∃ c p, Tasks.run makeClient {} oneBreaks = some c ∧ InEventLoop c.world ∧
    c.tasks[0]? = some p ∧ p.state.connection.await = .finished ∧ c.undefined = false :=
  ⟨_, _, rfl, ⟨rfl, rfl⟩, rfl, rfl, rfl⟩

theorem server_connections_oneBreaks : ∃ c p, Tasks.run makeClient {} oneBreaks = some c ∧
    c.tasks[0]? = some p ∧
    ∃ es, Connection.run p.arg.2 {} es = some p.state.connection ∧
      List.Forall₂ Completes p.resumed es := by
  obtain ⟨c, p, hrun, -, hp, -⟩ := run_oneBreaks
  exact ⟨c, p, hrun, hp, (server_connections hrun hp).1⟩

/-- The receive of a connection finds that the peer has closed it. -/
theorem completion_nil_iff {s : Signal} {data : Text} {e : Event}
    (he : completion true s data = some e) :
    e = .received [] ↔ s = .value (.count 0) ∧ data = [] := by
  have hcompletes := completes_of_completion he
  constructor
  · rintro rfl
    obtain ⟨rfl, rfl⟩ := Prod.mk.inj hcompletes
    exact ⟨rfl, rfl⟩
  · rintro ⟨rfl, rfl⟩
    exact (Option.some.inj he).symm

theorem undefined_run {a : Arguments} {xs : List (Signal × Text)} {x : Client}
    (hrun : makeClient.run (makeClient.call a) xs = some x) :
    x.connection.await = .undefined ↔
      ∃ ys y, xs = ys ++ [(.value (.count 0), [])] ∧
        makeClient.run (makeClient.call a) ys = some y ∧
        y.connection.await = .receive ∧ y.connection.begun = true := by
  rcases List.eq_nil_or_concat xs with rfl | ⟨ys, z, rfl⟩
  · obtain rfl := Option.some.inj hrun
    exact iff_of_false nofun (by simp)
  · rw [List.concat_eq_append] at hrun ⊢
    obtain ⟨y, hys, hlast⟩ := (StepMachine.run_append_eq_some _).mp hrun
    obtain ⟨x', hresume, hnil⟩ := (StepMachine.run_cons_eq_some _).mp hlast
    obtain rfl := Option.some.inj hnil
    obtain ⟨e, he, hmap⟩ := Option.bind_eq_some_iff.mp hresume
    obtain ⟨connection, hstep, rfl⟩ := Option.map_eq_some_iff.mp hmap
    obtain ⟨-, hfiles, es, hes, -⟩ := run_makeClient hys
    rw [hfiles] at hstep
    -- the last step is one of a connection that keeps its invariant
    refine (undefined_step (session_run hes) hstep).trans ?_
    constructor
    · rintro ⟨hawait, hbegun, hreceived⟩
      rw [hawait] at he
      obtain ⟨hs, hdata⟩ := (completion_nil_iff he).mp hreceived
      exact ⟨ys, y, by rw [← hs, ← hdata], hys, hawait, hbegun⟩
    · rintro ⟨zs, y', heq, hzs, hawait, hbegun⟩
      obtain ⟨rfl, hz⟩ := List.append_inj' heq rfl
      obtain rfl := Option.some.inj (hys.symm.trans hzs)
      rw [hawait] at he
      refine ⟨hawait, hbegun, (completion_nil_iff he).mpr ?_⟩
      exact Prod.mk.inj (List.singleton_inj.mp hz)

/-- Some peer has closed its connection when `read_head` had received something that was not yet a
head. -/
def ClosedWithinHead (c : Tasks Arguments Client Text) : Prop :=
  ∃ (k : ℕ) (p : Task Arguments Client Text) (xs : List (Signal × Text)) (x : Client),
    c.tasks[k]? = some p ∧ p.resumed = xs ++ [(.value (.count 0), [])] ∧
    makeClient.run (makeClient.call p.arg) xs = some x ∧
    x.connection.await = .receive ∧ x.connection.begun = true

/-- `_Start` has completed the operation itself: its stop was requested before, or `event_new` has
failed. -/
def CompletedInside (op : CpoState) : Prop :=
  .emplaced true ∈ op.history ∨
    ∃ env n e, .submitted env n ∈ op.history ∧ env.eventNew = some e

/-- The coroutine awaits the operations of its stream only. -/
theorem makeClient_await {x : Client} {d : Desc} (hawait : makeClient.await x = some d) :
    d = .receive x.stream ∨ d = .send x.stream := by
  have hdesc : x.connection.await.desc x.stream = some d := hawait
  cases hx : x.connection.await with
  | receive =>
    rw [hx] at hdesc
    exact .inl (Option.some.inj hdesc).symm
  | sendHead | sendBody =>
    rw [hx] at hdesc
    exact .inr (Option.some.inj hdesc).symm
  | finished | undefined =>
    rw [hx] at hdesc
    cases hdesc

/-- The operations of a connection that are not left to the event loop. -/
theorem not_deferred_iff (h : Tasks.Coherent makeClient c) (hp : c.tasks[k]? = some p) {o : OpId}
    (ho : o ∈ p.ops) {op : CpoState} (hop : c.world.ops[o]? = some op) :
    ¬ Deferred op.desc op.history ↔ CompletedInside op := by
  obtain ⟨i, hi⟩ := List.mem_iff_getElem?.mp ho
  obtain ⟨op', x, hop', -, -, hawait, -⟩ := (h.ordered k p hp).entries i o hi
  cases hop.symm.trans hop'
  have hend : ∀ env, op.desc.submitEnd env = none ↔ env.eventNew = none := by
    intro env
    rcases makeClient_await hawait with hdesc | hdesc <;>
      rw [hdesc, Desc.submitEnd, Option.map_eq_none_iff]
  simp only [Deferred, hend, not_and_or, not_not, not_forall, Option.ne_none_iff_exists',
    CompletedInside, exists_prop, ← ne_eq, exists_and_left]

/-- The behaviour of the server is undefined exactly if some peer has closed its connection when
`read_head` had received something that was not yet a head, or `_Start` has used an operation of a
connection that it had completed itself. No such operation is there when the event loop is entered:
the use comes before that. -/
theorem server_undefined_iff (hrun : Tasks.run makeClient {} as = some c) :
    (c.undefined = true ↔
      ClosedWithinHead c ∨ ∃ op, c.Dangles op ∧ CompletedInside op) ∧
    (InEventLoop c.world → ∀ (k : ℕ) (p : Task Arguments Client Text) (o : OpId) (op : CpoState),
      c.tasks[k]? = some p → o ∈ p.ops → c.world.ops[o]? = some op → ¬ CompletedInside op) := by
  have h := Tasks.coherent_run hrun
  have hclosed : Tasks.Broken makeClient c ↔ ClosedWithinHead c := by
    constructor
    · rintro ⟨k, p, hp, hundefined⟩
      obtain ⟨xs, x, hresumed, hx⟩ :=
        (undefined_run (h.ordered k p hp).run).mp (of_decide_eq_true hundefined)
      exact ⟨k, p, xs, x, hp, hresumed, hx⟩
    · rintro ⟨k, p, xs, x, hp, hresumed, hx⟩
      exact ⟨k, p, hp, decide_eq_true
        ((undefined_run (h.ordered k p hp).run).mpr ⟨xs, x, hresumed, hx⟩)⟩
  have hdangles : ∀ op, c.Dangles op ↔ c.Dangles op ∧ CompletedInside op := by
    intro op
    refine ⟨fun hop => ⟨hop, ?_⟩, And.left⟩
    have hnot := h.not_deferred hop
    obtain ⟨k, p, o, hp, ho, hop, -⟩ := hop
    exact (not_deferred_iff h hp ho hop).mp hnot
  refine ⟨?_, fun hloop k p o op hp ho hop hinside => ?_⟩
  · rw [Tasks.task_undefined_iff (fun a => rfl) hrun, hclosed, exists_congr hdangles]
  · exact (not_deferred_iff h hp ho hop).mpr hinside (Tasks.deferred_of_loop hrun hloop hp ho hop)

/-- No event is made for the receive of a connection. -/
def noEvent : List (TaskAction Arguments Text) :=
  [.step (.makeSocket 7) [], .spawn (0, fun _ _ => []) 0, .step (.perform {}) [],
    .step (.perform {}) [], .step (.perform {}) [], .step (.perform { eventNew := some 12 }) [],
    .step (.perform {}) [], .step (.perform {}) [], .step .userReturn [], .step (.perform {}) []]

theorem run_noEvent : ∃ c, Tasks.run makeClient {} noEvent = some c ∧ c.undefined = true :=
  ⟨_, rfl, rfl⟩

/-- A connection that breaks does not make it undefined, one whose receive is not submitted does. -/
theorem server_undefined_iff_oneBreaks :
    (∃ c, Tasks.run makeClient {} oneBreaks = some c ∧ ¬ ClosedWithinHead c ∧
      ¬ ∃ op, c.Dangles op ∧ CompletedInside op) ∧
    ∃ c, Tasks.run makeClient {} noEvent = some c ∧
      (ClosedWithinHead c ∨ ∃ op, c.Dangles op ∧ CompletedInside op) := by
  obtain ⟨c, p, hrun, -, -, -, hdefined⟩ := run_oneBreaks
  obtain ⟨c', hrun', hundefined'⟩ := run_noEvent
  refine ⟨⟨c, hrun, not_or.mp fun hundefined => ?_⟩,
    ⟨c', hrun', (server_undefined_iff hrun').1.mp hundefined'⟩⟩
  rw [(server_undefined_iff hrun).1.mpr hundefined] at hdefined
  cases hdefined

end Http

end Stdnet
