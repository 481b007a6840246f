import Stdnet.HttpServer

/-!
# The Echo Server

`make_client` of `examples/server.cpp`: a message is what one receive of at most 8 bytes has brought;
it is sent back by one operation. A message that begins with "exit" requests the stop of the scope
that the coroutine is given.

## Main results

- `Invariant.step`, `Invariant.returned`: what a connection sends back of what it receives.
- `exits_iff`: when it requests the stop.
- `bytes_echoed`: one byte at a time, no text ends the server.
-/

namespace Stdnet

namespace Echo

open Http LibeventContext

/-- The `client` and the `scope` that `make_client` is called with, and what its array holds at
first. -/
structure Arguments where
  stream : SocketId
  scope : Source
  buffer : Text
  size : buffer.length = 8

/-- Where the coroutine is suspended. -/
inductive Await where
  | receive
  /-- in the `async_send` of the first `size` bytes of the array -/
  | send (size : ℕ)
  | finished
  deriving DecidableEq, Repr

/-- `make_client` with what it received and sent; no function reads that. -/
structure Client where
  stream : SocketId
  scope : Source
  buffer : Text
  await : Await := .receive
  /-- the message begins with "exit" -/
  exits : Bool := false
  messages : List Text := []
  /-- how much each send has transferred -/
  sent : List ℕ := []
  output : Text := []

namespace Client

/-- `std::string_view message(+buffer, size)` when the receive has stored `data`. -/
def message (c : Client) (data : Text) : Text :=
  ((Iovec.mk 0 8).store c.buffer data).take data.length

def step (c : Client) : Http.Event → Option Client
  | .received data =>
    match c.await with
    | .receive =>
      if data.length ≤ 8 then
        if data.length = 0 then some { c with await := .finished }
        else
          some { c with
            buffer := (Iovec.mk 0 8).store c.buffer data
            await := .send data.length
            exits := "exit".toList.isPrefixOf (c.message data)
            messages := c.messages ++ [c.message data] }
      else none
    | _ => none
  | .sent n =>
    match c.await with
    | .send size =>
      if n ≤ size then
        some { c with
          await := .receive
          exits := false
          sent := c.sent ++ [n]
          output := c.output ++ ((Iovec.mk 0 size).load c.buffer).take n }
      else none
    | _ => none
  | .failed =>
    match c.await with
    | .receive | .send _ => some { c with await := .finished, exits := false }
    | .finished => none

end Client

/-- The operation that the coroutine is suspended in. -/
def Await.desc (stream : SocketId) : Await → Option Desc
  | .receive => some (.receive stream)
  | .send _ => some (.send stream)
  | .finished => none

def makeClient : Coroutine Arguments Client Text where
  call a := { stream := a.stream, scope := a.scope, buffer := a.buffer }
  await c := c.await.desc c.stream
  resume c s data := (completion (c.await == .receive) s data).bind c.step
  stops c := if c.exits then some c.scope else none

/-! ## Steps -/

section Steps

variable {c c' : Client} {e : Http.Event}

/-- What a step can do, with everything that it requires. -/
inductive StepCases (c : Client) : Http.Event → Client → Prop where
  | closed (hawait : c.await = .receive) : StepCases c (.received []) { c with await := .finished }
  | received {data : Text} (hawait : c.await = .receive) (hne : data ≠ []) (hle : data.length ≤ 8) :
      StepCases c (.received data) { c with
        buffer := (Iovec.mk 0 8).store c.buffer data
        await := .send data.length
        exits := "exit".toList.isPrefixOf data
        messages := c.messages ++ [data] }
  | sent {size n : ℕ} (hawait : c.await = .send size) (hn : n ≤ size) :
      StepCases c (.sent n) { c with
        await := .receive
        exits := false
        sent := c.sent ++ [n]
        output := c.output ++ ((Iovec.mk 0 size).load c.buffer).take n }
  | failed (hawait : c.await ≠ .finished) :
      StepCases c .failed { c with await := .finished, exits := false }

/-- The message is what the receive has brought. -/
theorem message_eq (c : Client) (data : Text) : c.message data = data := by
  have h := BufferedStream.take_store (v := ⟨0, 8⟩) (Nat.zero_le c.buffer.length) data
  rwa [Nat.zero_add, List.take_zero, List.nil_append] at h

theorem step_cases (hstep : c.step e = some c') : StepCases c e c' := by
  unfold Client.step at hstep
  cases e with
  | received data =>
    simp only at hstep
    split at hstep
    next hawait =>
      simp only [Option.ite_none_right_eq_some, List.length_eq_zero_iff, message_eq] at hstep
      obtain ⟨hle, hstep⟩ := hstep
      split at hstep
      next hnil =>
        obtain rfl := Option.some.inj hstep
        exact hnil ▸ .closed hawait
      next hne =>
        obtain rfl := Option.some.inj hstep
        exact .received hawait hne hle
    next => cases hstep
  | sent n =>
    simp only at hstep
    split at hstep
    next size hawait =>
      simp only [Option.ite_none_right_eq_some, Option.some.injEq] at hstep
      obtain ⟨hn, rfl⟩ := hstep
      exact .sent hawait hn
    next => cases hstep
  | failed =>
    simp only at hstep
    split at hstep
    next hawait =>
      obtain rfl := Option.some.inj hstep
      exact .failed (by simp [hawait])
    next hawait =>
      obtain rfl := Option.some.inj hstep
      exact .failed (by simp [hawait])
    next => cases hstep

end Steps

/-! ## The messages -/

/-- What is sent back of the messages. -/
def echoed (messages : List Text) (sent : List ℕ) : Text :=
  (List.zipWith List.take sent messages).flatten

/-- No send transfers more than the message. -/
abbrev Fits : List ℕ → List Text → Prop := List.Forall₂ fun n m => n ≤ m.length

section Echoed

variable {messages ms : List Text} {sent : List ℕ} {m : Text} {n : ℕ}

theorem echoed_concat (h : Fits sent ms) :
    echoed (ms ++ [m]) (sent ++ [n]) = echoed ms sent ++ m.take n := by
  rw [echoed, List.zipWith_append h.length_eq, List.flatten_append]
  simp [echoed]

/-- A message that was not sent back yet. -/
theorem echoed_unsent (h : Fits sent ms) : echoed (ms ++ [m]) sent = echoed ms sent := by
  rw [echoed, echoed, ← List.append_nil sent, List.zipWith_append h.length_eq, List.append_nil]
  simp

theorem echoed_sublist (h : Fits sent ms) : (echoed ms sent).Sublist ms.flatten := by
  induction h with
  | nil => exact List.Sublist.slnil
  | cons hle hrest ih => exact (List.take_sublist _ _).append ih

/-- Everything is sent back exactly if no send was short. -/
theorem echoed_eq_iff (h : Fits sent ms) :
    echoed ms sent = ms.flatten ↔ sent = ms.map List.length := by
  induction h with
  | nil => simp [echoed]
  | @cons n m sent ms hle hrest ih =>
    have hlength := (echoed_sublist hrest).length_le
    show m.take n ++ echoed ms sent = m ++ ms.flatten ↔ n :: sent = m.length :: ms.map List.length
    rw [List.cons.injEq, ← ih]
    constructor
    · intro heq
      have hcount := congrArg List.length heq
      simp only [List.length_append, List.length_take] at hcount
      obtain rfl : n = m.length := by omega
      rw [List.take_length] at heq
      exact ⟨rfl, List.append_cancel_left heq⟩
    · rintro ⟨rfl, heq⟩
      rw [List.take_length, heq]

end Echoed

/-- What holds where the coroutine is suspended. -/
inductive Suspended (c : Client) : Await → Prop where
  | receive (hfits : Fits c.sent c.messages) (hexits : c.exits = false) : Suspended c .receive
  | send {ms : List Text} {m : Text} (hmessages : c.messages = ms ++ [m]) (hfits : Fits c.sent ms)
      (hload : (Iovec.mk 0 m.length).load c.buffer = m)
      (hexits : c.exits = "exit".toList.isPrefixOf m) : Suspended c (.send m.length)
  | finished {ms rest : List Text} (hmessages : c.messages = ms ++ rest) (hfits : Fits c.sent ms)
      (hrest : rest.length ≤ 1) (hexits : c.exits = false) : Suspended c .finished

/-- The invariant of a connection. -/
structure Invariant (c : Client) : Prop where
  size : c.buffer.length = 8
  output : c.output = echoed c.messages c.sent
  message : ∀ m ∈ c.messages, m ≠ [] ∧ m.length ≤ 8
  suspended : Suspended c c.await

theorem invariant_call (a : Arguments) : Invariant (makeClient.call a) where
  size := a.size
  output := rfl
  message m h := by cases h
  suspended := .receive .nil rfl

section Invariant

variable {c c' : Client} {e : Http.Event}

/-- The messages, but for one that is not sent back yet. -/
theorem Suspended.fits (h : Suspended c c.await) :
    ∃ ms rest, c.messages = ms ++ rest ∧ Fits c.sent ms ∧ rest.length ≤ 1 := by
  generalize c.await = await at h
  cases h with
  | receive hfits hexits => exact ⟨_, [], (List.append_nil _).symm, hfits, Nat.zero_le _⟩
  | send hmessages hfits hload hexits => exact ⟨_, _, hmessages, hfits, le_refl _⟩
  | finished hmessages hfits hrest hexits => exact ⟨_, _, hmessages, hfits, hrest⟩

theorem load_store (buffer data : Text) :
    (Iovec.mk 0 data.length).load ((Iovec.mk 0 8).store buffer data) = data := by
  have h := BufferedStream.take_store (v := ⟨0, 8⟩) (Nat.zero_le buffer.length) data
  rw [Nat.zero_add, List.take_zero, List.nil_append] at h
  rw [Iovec.load, List.drop_zero, h]

theorem Invariant.step (h : Invariant c) (hstep : c.step e = some c') : Invariant c' := by
  cases step_cases hstep with
  | closed hawait =>
    cases (hawait ▸ h.suspended : Suspended c .receive) with
    | receive hfits hexits =>
      exact ⟨h.size, h.output, h.message,
        .finished (List.append_nil _).symm hfits (Nat.zero_le _) hexits⟩
  | @received data hawait hne hle =>
    cases (hawait ▸ h.suspended : Suspended c .receive) with
    | receive hfits hexits =>
      refine ⟨?_, ?_, ?_, .send rfl hfits (load_store _ _) rfl⟩
      · have hfit : (Iovec.mk 0 8).base + data.length ≤ c.buffer.length := by
          rw [h.size]
          simpa using hle
        exact (BufferedStream.length_store hfit).trans h.size
      · show c.output = echoed (c.messages ++ [data]) c.sent
        rw [h.output, echoed_unsent hfits]
      · intro m hm
        rcases List.mem_append.mp hm with hm | hm
        · exact h.message m hm
        · obtain rfl := List.mem_singleton.mp hm
          exact ⟨hne, hle⟩
  | @sent size n hawait hn =>
    have hsuspended := hawait ▸ h.suspended
    cases hsuspended with
    | @send ms m hmessages hfits hload hexits =>
      have hall : Fits (c.sent ++ [n]) c.messages := by
        rw [hmessages]
        exact List.rel_append hfits (.cons hn .nil)
      refine ⟨h.size, ?_, h.message, .receive hall rfl⟩
      show c.output ++ _ = echoed c.messages (c.sent ++ [n])
      rw [h.output, hmessages, echoed_concat hfits, echoed_unsent hfits, hload]
  | failed hawait =>
    obtain ⟨ms, rest, hmessages, hfits, hrest⟩ := h.suspended.fits
    exact ⟨h.size, h.output, h.message, .finished hmessages hfits hrest rfl⟩

end Invariant

/-! ## Runs of a connection -/

/-- The message ends the server. -/
abbrev Exits (m : Text) : Prop := "exit".toList <+: m

section Runs

variable {x x' : Client} {y : Signal × Text} {xs : List (Signal × Text)} {a : Arguments} {m : Text}

theorem step_args {e : Http.Event} (hstep : x.step e = some x') :
    x'.stream = x.stream ∧ x'.scope = x.scope := by
  cases step_cases hstep with
  | _ => exact ⟨rfl, rfl⟩

/-- What the coroutine makes of what it is resumed with. -/
theorem event_of_resume (hresume : makeClient.resume x y.1 y.2 = some x') :
    ∃ e, Completes y e ∧ x.step e = some x' := by
  obtain ⟨e, he, hstep⟩ := Option.bind_eq_some_iff.mp hresume
  exact ⟨e, completes_of_completion he, hstep⟩

theorem run_args (hrun : makeClient.run x xs = some x') :
    x'.stream = x.stream ∧ x'.scope = x.scope := by
  refine StepMachine.run_invariant _ (I := fun x' => x'.stream = x.stream ∧ x'.scope = x.scope)
    (fun t y t' h hstep => ?_) ⟨rfl, rfl⟩ hrun
  obtain ⟨e, -, hstep⟩ := event_of_resume hstep
  obtain ⟨hstream, hscope⟩ := step_args hstep
  exact ⟨hstream.trans h.1, hscope.trans h.2⟩

theorem Invariant.resume (h : Invariant x) (hresume : makeClient.resume x y.1 y.2 = some x') :
    Invariant x' := by
  obtain ⟨e, -, hstep⟩ := event_of_resume hresume
  exact h.step hstep

theorem run_invariant (hrun : makeClient.run (makeClient.call a) xs = some x) : Invariant x :=
  StepMachine.run_invariant _ (fun _ _ _ h hresume => h.resume hresume) (invariant_call a) hrun

/-- What a connection sends back of what it receives. -/
structure Echoes (x : Client) : Prop where
  message : ∀ m ∈ x.messages, m ≠ [] ∧ m.length ≤ 8
  output : x.output = (List.zipWith List.take x.sent x.messages).flatten
  sublist : x.output.Sublist x.messages.flatten
  behind : x.sent.length ≤ x.messages.length ∧ x.messages.length ≤ x.sent.length + 1
  all : x.await = .receive → (x.output = x.messages.flatten ↔ x.sent = x.messages.map List.length)

theorem Invariant.returned (h : Invariant x) : Echoes x := by
  obtain ⟨ms, rest, hmessages, hfits, hrest⟩ := h.suspended.fits
  have hlength := hfits.length_eq
  refine ⟨h.message, h.output, ?_, ?_, fun hawait => ?_⟩
  · have hsame : echoed (ms ++ rest) x.sent = echoed ms x.sent := by
      cases rest with
      | nil => rw [List.append_nil]
      | cons m rest =>
        obtain rfl := List.length_eq_zero_iff.mp (Nat.le_zero.mp (Nat.le_of_succ_le_succ hrest))
        exact echoed_unsent hfits
    rw [h.output, hmessages, hsame, List.flatten_append]
    exact (echoed_sublist hfits).trans (List.sublist_append_left _ _)
  · rw [hmessages, List.length_append, hlength]
    omega
  · rw [h.output]
    cases (hawait ▸ h.suspended : Suspended x .receive) with
    | receive hfits hexits => exact echoed_eq_iff hfits

theorem stops_eq_some {src : Source} :
    makeClient.stops x = some src ↔ x.exits = true ∧ x.scope = src := by
  show (if x.exits then some x.scope else none) = some src ↔ _
  rw [Option.ite_none_right_eq_some, Option.some.injEq]

/-- A step receives a message that ends the server exactly if it leads to the request of the
stop. -/
theorem exits_step (h : Invariant x) (hresume : makeClient.resume x y.1 y.2 = some x') :
    (∃ m ∈ x'.messages, Exits m) ↔ (∃ m ∈ x.messages, Exits m) ∨ x'.exits = true := by
  obtain ⟨e, -, hstep⟩ := event_of_resume hresume
  cases step_cases hstep with
  | closed hawait =>
    cases (hawait ▸ h.suspended : Suspended x .receive) with
    | receive hfits hexits => exact (or_iff_left (by simp [hexits])).symm
  | sent hawait hn => exact (or_iff_left (by simp)).symm
  | failed hawait => exact (or_iff_left (by simp)).symm
  | @received data hawait hne hle =>
    show (∃ m ∈ x.messages ++ [data], Exits m) ↔ _ ∨ "exit".toList.isPrefixOf data = true
    rw [List.isPrefixOf_iff_prefix]
    constructor
    · rintro ⟨m, hm, hexits⟩
      rcases List.mem_append.mp hm with hm | hm
      · exact .inl ⟨m, hm, hexits⟩
      · exact .inr (List.mem_singleton.mp hm ▸ hexits)
    · rintro (⟨m, hm, hexits⟩ | hexits)
      · exact ⟨m, List.mem_append_left _ hm, hexits⟩
      · exact ⟨data, List.mem_append_right _ (List.mem_singleton_self data), hexits⟩

/-- The stop is requested before a message is sent back. -/
theorem Invariant.await_of_exits (h : Invariant x) (hexits : x.exits = true) :
    ∃ size, x.await = .send size := by
  have hsuspended := h.suspended
  generalize x.await = await at hsuspended
  cases hsuspended with
  | receive _ hno | finished _ _ _ hno =>
    rw [hno] at hexits
    cases hexits
  | send => exact ⟨_, rfl⟩

/-- It is requested when a receive has brought the message. -/
theorem received_of_exits (h : Invariant x) (hresume : makeClient.resume x y.1 y.2 = some x')
    (hexits : x'.exits = true) : x.await = .receive ∧ ∃ n, y.1 = .value (.count n) := by
  obtain ⟨e, he, hstep⟩ := event_of_resume hresume
  cases step_cases hstep with
  | closed hawait =>
    cases (hawait ▸ h.suspended : Suspended x .receive) with
    | receive _ hno =>
      have hexits : x.exits = true := hexits
      rw [hno] at hexits
      cases hexits
  | received hawait => exact ⟨hawait, _, congrArg Prod.fst he⟩
  | sent | failed => cases hexits

/-- A connection has received a message that ends the server exactly if it was to request the
stop. -/
theorem exits_iff (hrun : makeClient.run (makeClient.call a) xs = some x) :
    (∃ m ∈ x.messages, Exits m) ↔ ∃ i t, 0 < i ∧ i ≤ xs.length ∧
      makeClient.run (makeClient.call a) (xs.take i) = some t ∧ t.exits = true := by
  have hvisits := StepMachine.run_visits _ (I := Invariant)
    (P := fun x : Client => ∃ m ∈ x.messages, Exits m) (Q := fun x : Client => x.exits = true)
    (fun _ _ _ h hresume => h.resume hresume) (fun _ _ _ h hresume => exits_step h hresume)
    (invariant_call a) hrun
  rw [hvisits, or_iff_right]
  rintro ⟨m, hm, -⟩
  cases hm

/-- If every operation that is started in a state that requests the stop is stopped, no message that
ends the server is sent back. -/
theorem exits_unsent (hrun : makeClient.run (makeClient.call a) xs = some x)
    (hall : StepMachine.StepsAll (fun s x => makeClient.resume s x.1 x.2)
      (fun x y _ => x.exits = true → y.1 = .stopped) (makeClient.call a) xs) :
    ∀ m ∈ x.messages.take x.sent.length, ¬ Exits m := by
  refine (StepMachine.run_invariant_of_stepsAll _ (I := fun x : Client => Invariant x ∧
    ∀ m ∈ x.messages.take x.sent.length, ¬ Exits m) (fun x y x' h hresume hstop => ?_)
    ⟨invariant_call a, by rintro m hm; cases hm⟩ hrun hall).2
  obtain ⟨e, he, hstep⟩ := event_of_resume hresume
  refine ⟨h.1.step hstep, ?_⟩
  cases step_cases hstep with
  | closed hawait => exact h.2
  | failed hawait => exact h.2
  | @received data hawait hne hle =>
    cases (hawait ▸ h.1.suspended : Suspended x .receive) with
    | receive hfits hexits =>
      show ∀ m ∈ (x.messages ++ [data]).take x.sent.length, ¬ Exits m
      rw [List.take_append_of_le_length hfits.length_eq.le]
      exact h.2
  | @sent size n hawait hn =>
    have hsuspended := hawait ▸ h.1.suspended
    cases hsuspended with
    | @send ms m' hmessages hfits hload hexits =>
      have hlength := hfits.length_eq
      have hnot : ¬ Exits m' := by
        intro hbegins
        have hstopped := hstop (hexits.trans (List.isPrefixOf_iff_prefix.mpr hbegins))
        rw [show y.1 = .value (.count n) from he] at hstopped
        cases hstopped
      have hold := h.2
      rw [hmessages, List.take_append_of_le_length hlength.le, hlength, List.take_length] at hold
      intro m hm
      have hm : m ∈ (ms ++ [m']).take (x.sent ++ [n]).length := hmessages ▸ hm
      rw [List.length_append, hlength, List.take_of_length_le (by simp)] at hm
      rcases List.mem_append.mp hm with hm | hm
      · exact hold m hm
      · obtain rfl := List.mem_singleton.mp hm
        exact hnot

/-- A message is received, and all of it is sent back. -/
def exchange (m : Text) : List (Signal × Text) :=
  [(.value (.count m.length), m), (.value (.count m.length), [])]

/-- No step of the coroutine requests a stop. -/
abbrev Unstopped (x : Client) (xs : List (Signal × Text)) : Prop :=
  StepMachine.StepsAll (fun s x => makeClient.resume s x.1 x.2)
    (fun _ _ x' => makeClient.stops x' = none) x xs

theorem message_echoed (hsize : x.buffer.length = 8) (hawait : x.await = .receive) (hne : m ≠ [])
    (hle : m.length ≤ 8) (rest : List (Signal × Text)) :
    ∃ x', x'.buffer.length = 8 ∧ x'.await = .receive ∧ x'.messages = x.messages ++ [m] ∧
      x'.output = x.output ++ m ∧
      makeClient.run x (exchange m ++ rest) = makeClient.run x' rest ∧
      (Unstopped x (exchange m ++ rest) ↔ ¬ Exits m ∧ Unstopped x' rest) := by
  let x₁ : Client := { x with
    buffer := (Iovec.mk 0 8).store x.buffer m
    await := .send m.length
    exits := "exit".toList.isPrefixOf m
    messages := x.messages ++ [m] }
  let x₂ : Client := { x₁ with
    await := .receive
    exits := false
    sent := x.sent ++ [m.length]
    output := x.output ++ m }
  have h₁ : makeClient.resume x (.value (.count m.length)) m = some x₁ := by
    show (completion (x.await == .receive) _ m).bind x.step = _
    have hnil : ¬ m.length = 0 := fun hzero => hne (List.length_eq_zero_iff.mp hzero)
    rw [hawait]
    simp [completion, Client.step, hawait, hle, hnil, message_eq, x₁]
  have h₂ : makeClient.resume x₁ (.value (.count m.length)) [] = some x₂ := by
    show (completion false (.value (.count m.length)) []).bind x₁.step = _
    simp [completion, Client.step, load_store, x₁, x₂]
  have hbuffer : x₂.buffer.length = 8 := by
    have hfit : (Iovec.mk 0 8).base + m.length ≤ x.buffer.length := by
      rw [hsize]
      simpa using hle
    exact (BufferedStream.length_store hfit).trans hsize
  refine ⟨x₂, hbuffer, rfl, rfl, rfl, ?_, ?_⟩
  · simp [exchange, Coroutine.run, StepMachine.run, h₁, h₂]
  · have hstops : makeClient.stops x₁ = none ↔ ¬ Exits m := by
      show (if "exit".toList.isPrefixOf m then some x.scope else none) = none ↔ _
      rw [Exits, ← List.isPrefixOf_iff_prefix]
      simp
    have hnone : makeClient.stops x₂ = none := rfl
    simp [exchange, Unstopped, StepMachine.StepsAll, h₁, h₂, hstops, hnone]

theorem messages_echoed (ms : List Text) (hsize : x.buffer.length = 8) (hawait : x.await = .receive)
    (hms : ∀ m ∈ ms, m ≠ [] ∧ m.length ≤ 8) :
    ∃ x', makeClient.run x (ms.flatMap exchange) = some x' ∧ x'.await = .receive ∧
      x'.messages = x.messages ++ ms ∧ x'.output = x.output ++ ms.flatten ∧
      (Unstopped x (ms.flatMap exchange) ↔ ∀ m ∈ ms, ¬ Exits m) := by
  induction ms generalizing x with
  | nil => exact ⟨x, rfl, hawait, by simp, by simp, by simp [StepMachine.StepsAll]⟩
  | cons m ms ih =>
    obtain ⟨hne, hle⟩ := hms m List.mem_cons_self
    obtain ⟨x₁, hsize₁, hawait₁, hmessages₁, houtput₁, hrun₁, hstops₁⟩ :=
      message_echoed hsize hawait hne hle (ms.flatMap exchange)
    obtain ⟨x', hrun, hawait', hmessages, houtput, hstops⟩ :=
      ih hsize₁ hawait₁ fun m hm => hms m (List.mem_cons_of_mem _ hm)
    refine ⟨x', hrun₁.trans hrun, hawait', ?_, ?_, ?_⟩
    · rw [hmessages, hmessages₁, List.append_assoc, List.singleton_append]
    · rw [houtput, houtput₁, List.append_assoc, List.flatten_cons]
    · rw [List.flatMap_cons, hstops₁, hstops, List.forall_mem_cons]

/-- Received one byte at a time every text is sent back, one that begins with "exit" as well, and no
stop is requested: only what one receive has brought is compared. -/
theorem bytes_echoed (a : Arguments) (text : Text) :
    ∃ x, makeClient.run (makeClient.call a) ((text.map ([·])).flatMap exchange) = some x ∧
      x.await = .receive ∧ x.output = text ∧
      Unstopped (makeClient.call a) ((text.map ([·])).flatMap exchange) := by
  obtain ⟨x, hrun, hawait, -, houtput, hstops⟩ := messages_echoed (x := makeClient.call a)
    (text.map ([·])) a.size rfl (by simp)
  refine ⟨x, hrun, hawait, ?_, hstops.mpr fun m hm hexits => ?_⟩
  · rw [houtput, ← List.flatMap_def, List.flatMap_singleton']
    rfl
  · obtain ⟨ch, -, rfl⟩ := List.mem_map.mp hm
    have hle := hexits.length_le
    simp at hle

end Runs

end Echo

end Stdnet
