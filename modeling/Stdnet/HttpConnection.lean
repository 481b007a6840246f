import Stdnet.Buffers
import Stdnet.HttpResponse
import Stdnet.Library.StepMachine

/-!
# A Connection of the HTTP Server

`make_client` of `examples/simple-http-server.cpp` with `read_head`, `consume` and `write_response`
of its `buffered_stream`: a coroutine that is suspended in one receive or send at a time and goes on
when that completes. How many bytes a receive brings or a send takes is up to the operating system.

Every connection is accompanied by what it received and sent, the heads that `read_head` returned
and the calls of `write_response`; no function reads these.

## Main results

- `Session.step`: what is kept and what was returned make up what was received.
-/

namespace Stdnet

namespace Http

open Delimiters

/-- Where the coroutine is suspended. -/
inductive Await where
  /-- in the `async_receive` of `read_head` -/
  | receive
  /-- in `write_response`, sending the head from `p` on; whether another request is read then -/
  | sendHead (r : Reply) (again : Bool) (p : ℕ)
  /-- in `write_response`, sending the body from `p` on -/
  | sendBody (r : Reply) (again : Bool) (p : ℕ)
  /-- the coroutine has returned or was left by an exception or a stop -/
  | finished
  /-- the behaviour of the program is undefined -/
  | undefined
  deriving DecidableEq, Repr

/-- The coroutine and what became of the connection. -/
structure Connection where
  stream : BufferedStream := {}
  await : Await := .receive
  /-- the bytes received -/
  input : Text := []
  /-- the heads that `read_head` returned, without the empty one -/
  heads : List Text := []
  /-- the `read_head` that is waiting has received something -/
  begun : Bool := false
  /-- `read_http_request` has returned the request without a head -/
  ended : Bool := false
  /-- the calls of `write_response` -/
  replies : List Reply := []
  /-- the bytes that the sends transferred -/
  output : Text := []
  /-- an operation failed, or a send that had something to transfer transferred nothing -/
  cutOff : Bool := false
  deriving DecidableEq, Repr

/-- The completion of the operation that the coroutine is suspended in. -/
inductive Event where
  /-- `async_receive` has received this; nothing when the peer has closed the connection -/
  | received (data : Text)
  /-- `async_send` has transferred this many bytes; none when the peer is gone -/
  | sent (n : ℕ)
  /-- the operation completed with an error or was stopped -/
  | failed
  deriving DecidableEq, Repr

namespace Connection

/-- One pass of the loop of `read_head`, up to its `co_await`. -/
def receive (c : Connection) (begun : Bool) : Connection :=
  { c with stream := c.stream.grow, await := .receive, begun := begun }

/-- `while (keep_alive)`. -/
def proceed (c : Connection) (again : Bool) : Connection :=
  if again then c.receive false else { c with await := .finished }

/-- `make_client` with a request: `write_response` is called unless the method is unknown. -/
def respond (c : Connection) (files : Text → Text) (r : Request) : Connection :=
  match answer files r with
  | some y => { c with await := .sendHead y (keepAlive r) 0, replies := c.replies ++ [y] }
  | none => c.proceed (keepAlive r)

/-- The rest of `read_http_request` when `read_head` has returned `head`. -/
def handle (c : Connection) (files : Text → Text) (head : Text) : Connection :=
  match readHttpRequest head with
  | none => { c with await := .undefined }
  | some r =>
    match c.stream.consume with
    | none => { c with await := .undefined }
    | some stream => { c with stream := stream, ended := c.ended || head == [] }.respond files r

/-- `async_receive` has received `data`. -/
def stored (c : Connection) (data : Text) : Connection :=
  { c with stream := (c.stream.received data).1, input := c.input ++ data }

/-- `read_head` returns a head that is not empty. -/
def found (c : Connection) (head : Text) : Connection := { c with heads := c.heads ++ [head] }

/-- An `async_send` of `text` from `p` on has transferred `n` bytes. -/
def transfer (c : Connection) (text : Text) (p n : ℕ) : Connection :=
  let region : Iovec := ⟨p, text.length - p⟩
  { c with
    output := c.output ++ (region.load text).take n
    cutOff := c.cutOff || (n == 0 && region.len != 0) }

/-- `while (0 < n && (p += n) != text.size())`. -/
def SendsMore (text : Text) (p n : ℕ) : Prop := 0 < n ∧ p + n ≠ text.length

instance (text : Text) (p n : ℕ) : Decidable (SendsMore text p n) :=
  inferInstanceAs (Decidable (_ ∧ _))

/-- `files n` gives the contents of the files when the request with number `n` is answered. -/
def step (files : ℕ → Text → Text) (c : Connection) : Event → Option Connection
  | .received data =>
    match c.await with
    | .receive =>
      -- `recvmsg` stores no more than the region takes
      if data.length ≤ c.stream.region.len then
        match (c.stream.received data).2 with
        | none => some ((c.stored data).receive true)
        | some [] => some ((c.stored data).handle (files c.heads.length) [])
        | some head => some (((c.stored data).found head).handle (files c.heads.length) head)
      else none
    | _ => none
  | .sent n =>
    match c.await with
    | .sendHead r again p =>
      -- nor does `sendmsg` transfer more than it is given
      if n ≤ r.head.length - p then
        some { c.transfer r.head p n with
          await :=
            if SendsMore r.head p n then .sendHead r again (p + n) else .sendBody r again 0 }
      else none
    | .sendBody r again p =>
      if n ≤ r.response.length - p then
        if SendsMore r.response p n then
          some { c.transfer r.response p n with await := .sendBody r again (p + n) }
        else some ((c.transfer r.response p n).proceed again)
      else none
    | _ => none
  | .failed =>
    match c.await with
    | .receive | .sendHead .. | .sendBody .. =>
      some { c with await := .finished, cutOff := true }
    | .finished | .undefined => none

/-- The connections after a list of completions. -/
abbrev run (files : ℕ → Text → Text) (c : Connection) (es : List Event) : Option Connection :=
  StepMachine.run (step files) c es

/-- What the coroutine keeps of its input. -/
def pending (c : Connection) : Text := c.stream.pending

/-! ## Steps -/

variable {files : ℕ → Text → Text} {c c' : Connection} {e : Event}

/-- A head is not empty: it has a delimiter. -/
theorem received_ne_nil {b : BufferedStream} {data : Text} (hne : data ≠ [])
    (hstop : b.stop ≤ b.buffer.length) (hfits : data.length ≤ b.region.len) :
    (b.received data).2 ≠ some [] := by
  obtain ⟨-, -, -, -, hcut⟩ := BufferedStream.received_spec hne hstop hfits
  rw [hcut]
  intro h
  obtain ⟨⟨m, s⟩, hm, rfl⟩ := Option.map_eq_some_iff.mp h
  exact ((cut_eq_some_iff (by decide)).mp hm).2.ne_nil (by decide) rfl

/-- What a step can do, with everything that it requires. -/
inductive StepCases (files : ℕ → Text → Text) (c : Connection) : Event → Connection → Prop where
  | again {data : Text} (hawait : c.await = .receive) (hne : data ≠ [])
      (hfits : data.length ≤ c.stream.region.len)
      (hcut : cut sep (c.pending ++ data) = none) :
      StepCases files c (.received data) ((c.stored data).receive true)
  | ended (hawait : c.await = .receive) :
      StepCases files c (.received []) (c.handle (files c.heads.length) [])
  | head {data head rest : Text} (hawait : c.await = .receive) (hne : data ≠ [])
      (hfits : data.length ≤ c.stream.region.len)
      (hcut : cut sep (c.pending ++ data) = some (head, rest)) :
      StepCases files c (.received data)
        (((c.stored data).found head).handle (files c.heads.length) head)
  | sentHead {r : Reply} {again : Bool} {p n : ℕ} (hawait : c.await = .sendHead r again p)
      (hn : n ≤ r.head.length - p) :
      StepCases files c (.sent n)
        { c.transfer r.head p n with
          await :=
            if SendsMore r.head p n then .sendHead r again (p + n) else .sendBody r again 0 }
  | sentBody {r : Reply} {again : Bool} {p n : ℕ} (hawait : c.await = .sendBody r again p)
      (hn : n ≤ r.response.length - p) (hmore : SendsMore r.response p n) :
      StepCases files c (.sent n)
        { c.transfer r.response p n with await := .sendBody r again (p + n) }
  | sentAll {r : Reply} {again : Bool} {p n : ℕ} (hawait : c.await = .sendBody r again p)
      (hn : n ≤ r.response.length - p) (hlast : ¬ SendsMore r.response p n) :
      StepCases files c (.sent n) ((c.transfer r.response p n).proceed again)
  | failed (hawait : c.await ≠ .finished ∧ c.await ≠ .undefined) :
      StepCases files c .failed { c with await := .finished, cutOff := true }

theorem step_cases (hstop : c.stream.stop ≤ c.stream.buffer.length)
    (hstep : c.step files e = some c') : StepCases files c e c' := by
  cases e with
  | received data =>
    simp only [step] at hstep
    split at hstep
    next hawait =>
      simp only [Option.ite_none_right_eq_some] at hstep
      obtain ⟨hfits, hstep⟩ := hstep
      by_cases hne : data = []
      · subst hne
        simp only [stored, BufferedStream.received, List.length_nil, if_true, List.append_nil,
          Option.some.injEq] at hstep
        exact hstep ▸ .ended hawait
      · obtain ⟨-, -, -, -, hcut⟩ := BufferedStream.received_spec hne hstop hfits
        split at hstep
        next hnone =>
          rw [hnone, eq_comm, Option.map_eq_none_iff] at hcut
          exact Option.some.inj hstep ▸ .again hawait hne hfits hcut
        next hnil => exact absurd hnil (received_ne_nil hne hstop hfits)
        next head _ hsome =>
          rw [hsome, eq_comm, Option.map_eq_some_iff] at hcut
          obtain ⟨⟨m, rest⟩, hm, rfl⟩ := hcut
          exact Option.some.inj hstep ▸ .head hawait hne hfits hm
    next => cases hstep
  | sent n =>
    simp only [step] at hstep
    split at hstep
    next r again p hawait =>
      simp only [Option.ite_none_right_eq_some, Option.some.injEq] at hstep
      exact hstep.2 ▸ .sentHead hawait hstep.1
    next r again p hawait =>
      simp only [Option.ite_none_right_eq_some] at hstep
      obtain ⟨hn, hstep⟩ := hstep
      split at hstep
      next hmore => exact Option.some.inj hstep ▸ .sentBody hawait hn hmore
      next hlast => exact Option.some.inj hstep ▸ .sentAll hawait hn hlast
    next => cases hstep
  | failed =>
    simp only [step] at hstep
    split at hstep
    all_goals
      next hawait =>
        first
        | exact Option.some.inj hstep ▸ .failed (by simp [hawait])
        | cases hstep

/-- A receive that completes a head. -/
theorem step_of_head (hstop : c.stream.stop ≤ c.stream.buffer.length) {data head rest : Text}
    (hawait : c.await = .receive) (hne : data ≠ []) (hfits : data.length ≤ c.stream.region.len)
    (hcut : cut sep (c.pending ++ data) = some (head, rest)) :
    c.step files (.received data) =
      some (((c.stored data).found head).handle (files c.heads.length) head) := by
  obtain ⟨-, -, -, -, hhead⟩ := BufferedStream.received_spec hne hstop hfits
  rw [show cut sep (c.stream.pending ++ data) = some (head, rest) from hcut, Option.map_some]
    at hhead
  simp only [step, hawait, if_pos hfits]
  cases hempty : head with
  | nil => exact absurd (hempty ▸ hhead) (received_ne_nil hne hstop hfits)
  | cons x head => simp only [hhead, hempty]

/-- A receive that completes no head. -/
theorem step_of_part (hstop : c.stream.stop ≤ c.stream.buffer.length) {data : Text}
    (hawait : c.await = .receive) (hne : data ≠ []) (hfits : data.length ≤ c.stream.region.len)
    (hcut : cut sep (c.pending ++ data) = none) :
    c.step files (.received data) = some ((c.stored data).receive true) := by
  obtain ⟨-, -, -, -, hhead⟩ := BufferedStream.received_spec hne hstop hfits
  rw [show cut sep (c.stream.pending ++ data) = none from hcut, Option.map_none] at hhead
  simp only [step, hawait, if_pos hfits, hhead]

/-- The peer has closed the connection. -/
theorem step_of_end (hawait : c.await = .receive) :
    c.step files (.received []) = some (c.handle (files c.heads.length) []) := by
  have hstored : c.stored [] = c := by
    simp only [stored, BufferedStream.received, List.length_nil, if_true, List.append_nil]
  simp only [step, hawait, List.length_nil, Nat.zero_le, if_true, BufferedStream.received, hstored]

end Connection

/-! ## Sessions -/

/-- The answer to the request with number `k`, which has this head. -/
def reply (files : ℕ → Text → Text) (k : ℕ) (head : Text) : Option Reply :=
  (readHttpRequest head).bind (answer (files k))

/-- The answers to the requests with these heads. -/
def answers (files : ℕ → Text → Text) (heads : List Text) : List Reply :=
  heads.zipIdx.filterMap fun x => reply files x.2 x.1

/-- After this request another one is read. -/
def staysOpen (head : Text) : Bool := (readHttpRequest head).any keepAlive

/-- The answer to the end of the input. -/
def errorReply : Reply := ⟨"550 ERROR".toList, []⟩

theorem answer_of_nil (files : Text → Text) {r : Request} (h : r.method = []) :
    answer files r = some errorReply := by
  rw [answer, if_pos h]
  rfl

theorem readHttpRequest_nil : readHttpRequest [] = some {} := if_pos rfl

theorem answers_concat (files : ℕ → Text → Text) (heads : List Text) (head : Text) :
    answers files (heads ++ [head]) = answers files heads ++ (reply files heads.length head).toList := by
  simp only [answers, List.zipIdx_append, List.filterMap_append, Nat.zero_add, List.zipIdx_singleton]
  cases h : reply files heads.length head with
  | none => simp [h]
  | some y => simp [h]

/-- The coroutine may go on to read another request. -/
structure Idle (c : Connection) : Prop where
  pos : c.stream.pos = some 0
  unended : c.ended = false
  alive : ∀ h ∈ c.heads, staysOpen h = true

/-- What holds where the coroutine is suspended. -/
inductive Suspended (c : Connection) : Await → Prop where
  | waiting (hbegun : c.begun = false) (hidle : Idle c)
      (hroom : c.stream.region.len = 0 → c.stream.buffer = []) : Suspended c .receive
  | reading (hbegun : c.begun = true) (hpos : c.stream.pos = none) (hended : c.ended = false)
      (halive : ∀ h ∈ c.heads, staysOpen h = true) (hkept : ¬ sep <:+: c.pending)
      (hroom : c.stream.region.len = 0 → c.stream.buffer = []) : Suspended c .receive
  | sendHead {r : Reply} {again : Bool} {p : ℕ} (hidle : again = true → Idle c) :
      Suspended c (.sendHead r again p)
  | sendBody {r : Reply} {again : Bool} {p : ℕ} (hidle : again = true → Idle c) :
      Suspended c (.sendBody r again p)
  | finished : Suspended c .finished
  | undefined : Suspended c .undefined

/-- A connection that reads has not ended, and no request told it to. -/
theorem Suspended.open {c : Connection} (h : Suspended c .receive) :
    c.ended = false ∧ ∀ x ∈ c.heads, staysOpen x = true := by
  cases h with
  | waiting hbegun hidle hroom => exact ⟨hidle.unended, hidle.alive⟩
  | reading hbegun hpos hended halive hkept hroom => exact ⟨hended, halive⟩

/-- What was received is accounted for by the heads that were answered and by what is kept. -/
structure Accounted (files : ℕ → Text → Text) (c : Connection) : Prop where
  stop_le : c.stream.stop ≤ c.stream.buffer.length
  framed : Framed sep c.input c.heads c.pending
  answered : c.replies = answers files c.heads ++ if c.ended then [errorReply] else []
  alive : ∀ h ∈ c.heads.dropLast, staysOpen h = true

/-- The invariant of a connection. -/
structure Session (files : ℕ → Text → Text) (c : Connection) : Prop extends Accounted files c where
  suspended : Suspended c c.await

variable {files : ℕ → Text → Text} {c c' : Connection} {e : Event}

theorem session_initial (files : ℕ → Text → Text) : Session files {} where
  stop_le := Nat.zero_le _
  framed := Framed.nil sep
  answered := rfl
  alive h hh := by simp at hh
  suspended := .waiting rfl ⟨rfl, rfl, fun h hh => by simp at hh⟩ fun h => by
    simp only [BufferedStream.region, List.length_replicate] at h
    omega

theorem grow_stop_le {b : BufferedStream} (h : b.stop ≤ b.buffer.length) :
    b.grow.stop ≤ b.grow.buffer.length := by
  rw [BufferedStream.grow_stop]
  unfold BufferedStream.grow
  split
  · simp only [List.length_append]
    omega
  · exact h

theorem room_grow {b : BufferedStream} (h : b.stop ≤ b.buffer.length) :
    b.grow.region.len = 0 → b.grow.buffer = [] := by
  intro hroom
  by_contra hne
  have hlt := BufferedStream.stop_lt_grow h fun hnil => hne (BufferedStream.grow_eq_nil.mpr hnil)
  simp only [BufferedStream.region, BufferedStream.grow_stop] at hroom
  omega

theorem Accounted.receive (h : Accounted files c) (begun : Bool) :
    Accounted files (c.receive begun) where
  stop_le := grow_stop_le h.stop_le
  framed := by
    rw [Connection.pending, Connection.receive, BufferedStream.grow_pending]
    exact h.framed
  answered := h.answered
  alive := h.alive

/-- The coroutine goes on after a response. -/
theorem Accounted.proceed (h : Accounted files c) {again : Bool} (hidle : again = true → Idle c) :
    Session files (c.proceed again) := by
  unfold Connection.proceed
  split
  next hagain =>
    obtain ⟨hpos, hended, halive⟩ := hidle hagain
    refine ⟨h.receive false, .waiting rfl ⟨?_, hended, halive⟩ (room_grow h.stop_le)⟩
    rw [Connection.receive, BufferedStream.grow_pos, hpos]
  next => exact ⟨⟨h.stop_le, h.framed, h.answered, h.alive⟩, .finished⟩

/-- `consume` takes off the first `n` bytes; then the request is answered. -/
theorem handle_spec {f : Text → Text} {head : Text} {r : Request} {n : ℕ}
    (hr : readHttpRequest head = some r) (hpos : c.stream.pos = some n) (hn : n ≤ c.stream.stop)
    (hstop : c.stream.stop ≤ c.stream.buffer.length) :
    ∃ b : BufferedStream, b.pending = c.pending.drop n ∧ b.pos = some 0 ∧
      b.stop ≤ b.buffer.length ∧ b.buffer.length = c.stream.buffer.length - n ∧
      c.handle f head =
        { c with stream := b, ended := c.ended || head == [] }.respond f r := by
  obtain ⟨b, hconsume, hpending, hzero, hstop', hlen⟩ :=
    BufferedStream.consume_spec hpos hstop hn
  refine ⟨b, hpending, hzero, by omega, hlen, ?_⟩
  simp only [Connection.handle, hr, hconsume]

/-- A request is answered, or passed over. -/
theorem handle_session {f : Text → Text} {head : Text} {r : Request} {n : ℕ}
    (hr : readHttpRequest head = some r) (hpos : c.stream.pos = some n) (hn : n ≤ c.stream.stop)
    (hstop : c.stream.stop ≤ c.stream.buffer.length)
    (hframed : Framed sep c.input c.heads (c.pending.drop n))
    (hanswered : c.replies ++ (answer f r).toList =
      answers files c.heads ++ if c.ended || head == [] then [errorReply] else [])
    (halive : ∀ h ∈ c.heads.dropLast, staysOpen h = true)
    (hidle : keepAlive r = true →
      (c.ended || head == []) = false ∧ ∀ h ∈ c.heads, staysOpen h = true) :
    Session files (c.handle f head) := by
  obtain ⟨b, hpending, hzero, hle, -, hhandle⟩ := handle_spec (f := f) hr hpos hn hstop
  rw [hhandle, Connection.respond]
  rw [← hpending] at hframed
  cases hanswer : answer f r with
  | some y =>
    rw [hanswer] at hanswered
    exact ⟨⟨hle, hframed, hanswered, halive⟩, .sendHead fun hagain =>
      ⟨hzero, (hidle hagain).1, (hidle hagain).2⟩⟩
  | none =>
    rw [hanswer, Option.toList_none, List.append_nil] at hanswered
    exact Accounted.proceed
      (c := { c with stream := b, ended := c.ended || head == [] })
      ⟨hle, hframed, hanswered, halive⟩ fun hagain => ⟨hzero, (hidle hagain).1, (hidle hagain).2⟩

/-- A coroutine that has received a part of a head cannot consume it. -/
theorem handle_undefined (hpos : c.stream.pos = none) (f : Text → Text) :
    c.handle f [] = { c with await := .undefined } := by
  have hconsume : c.stream.consume = none := by rw [BufferedStream.consume, hpos]
  simp only [Connection.handle, readHttpRequest_nil, hconsume]

/-- The end of the input is answered, or `consume` is undefined. -/
theorem Session.ended (h : Session files c) (hawait : c.await = .receive) :
    Session files (c.handle (files c.heads.length) []) := by
  have hsuspended := h.suspended
  rw [hawait] at hsuspended
  cases hsuspended with
  | reading hbegun hpos hended halive hkept hroom =>
    rw [handle_undefined hpos]
    exact ⟨⟨h.stop_le, h.framed, h.answered, h.alive⟩, .undefined⟩
  | waiting hbegun hidle hroom =>
    apply handle_session readHttpRequest_nil hidle.pos (Nat.zero_le _) h.stop_le h.framed
    · rw [h.answered, hidle.unended, answer_of_nil _ rfl, List.append_assoc]
      rfl
    · exact h.alive
    · intro hagain
      cases hagain

/-- What the coroutine has found when a receive completes a head. -/
structure Found (c : Connection) (data head rest : Text) : Prop where
  pos : (c.stream.received data).1.pos = some head.length
  pending : (c.stream.received data).1.pending = head ++ rest
  length_le : head.length ≤ (c.stream.received data).1.stop
  stop_le : (c.stream.received data).1.stop ≤ (c.stream.received data).1.buffer.length
  buffer : (c.stream.received data).1.buffer.length = c.stream.buffer.length
  message : IsMessage sep head

theorem Accounted.found (h : Accounted files c) {data head rest : Text} (hne : data ≠ [])
    (hfits : data.length ≤ c.stream.region.len)
    (hcut : cut sep (c.pending ++ data) = some (head, rest)) : Found c data head rest := by
  obtain ⟨hpending, hstop, hlen, hpos, -⟩ := BufferedStream.received_spec hne h.stop_le hfits
  obtain ⟨hxs, hmessage⟩ := (cut_eq_some_iff (by decide)).mp hcut
  have hpending' : (c.stream.received data).1.pending = head ++ rest := hpending.trans hxs
  refine ⟨hpos.trans (congrArg (Option.map (·.1.length)) hcut), hpending', ?_, ?_, hlen, hmessage⟩
  · have hcount := congrArg List.length hpending'
    simp only [BufferedStream.pending, List.length_append, List.length_take] at hcount
    omega
  · have hroom : c.stream.region.len = c.stream.buffer.length - c.stream.stop := rfl
    have hle := h.stop_le
    omega

/-- A head is read and its request is answered. -/
theorem Session.head (h : Session files c) (hawait : c.await = .receive) {data head rest : Text}
    (hne : data ≠ []) (hfits : data.length ≤ c.stream.region.len)
    (hcut : cut sep (c.pending ++ data) = some (head, rest)) :
    Session files (((c.stored data).found head).handle (files c.heads.length) head) := by
  have hfound := h.found hne hfits hcut
  obtain ⟨r, hr⟩ := Option.isSome_iff_exists.mp (readHttpRequest_isSome (.inr hfound.message))
  have hopen := (hawait ▸ h.suspended : Suspended c .receive).open
  have hlast : (head == []) = false := by simpa using hfound.message.ne_nil (by decide)
  apply handle_session hr hfound.pos hfound.length_le hfound.stop_le
  · show Framed sep (c.input ++ data) (c.heads ++ [head])
      ((c.stream.received data).1.pending.drop head.length)
    rw [hfound.pending, List.drop_left]
    apply Framed.take _ hfound.message
    rw [← ((cut_eq_some_iff (by decide)).mp hcut).1]
    exact h.framed.feed data
  · show c.replies ++ _ =
      answers files (c.heads ++ [head]) ++ if c.ended || head == [] then _ else _
    rw [answers_concat, reply, hr, h.answered, hopen.1, hlast]
    simp
  · show ∀ x ∈ (c.heads ++ [head]).dropLast, staysOpen x = true
    rw [List.dropLast_concat]
    exact hopen.2
  · intro hkeep
    refine ⟨by rw [hlast, Bool.or_false]; exact hopen.1, fun x hx => ?_⟩
    rcases List.mem_append.mp hx with hx | hx
    · exact hopen.2 x hx
    · rw [List.mem_singleton.mp hx, staysOpen, hr]
      exact hkeep

/-- A receive completes no head. -/
theorem Session.again (h : Session files c) (hawait : c.await = .receive) {data : Text}
    (hne : data ≠ []) (hfits : data.length ≤ c.stream.region.len)
    (hcut : cut sep (c.pending ++ data) = none) :
    Session files ((c.stored data).receive true) := by
  obtain ⟨hpending, hstop, hlen, hpos, -⟩ := BufferedStream.received_spec hne h.stop_le hfits
  obtain ⟨hended, halive⟩ := (hawait ▸ h.suspended : Suspended c .receive).open
  have hpos' : (c.stream.received data).1.pos = none :=
    hpos.trans (congrArg (Option.map (·.1.length)) hcut)
  have hle : (c.stream.received data).1.stop ≤ (c.stream.received data).1.buffer.length := by
    have hroom : c.stream.region.len = c.stream.buffer.length - c.stream.stop := rfl
    have hstop_le := h.stop_le
    omega
  have hframed : Framed sep (c.input ++ data) c.heads (c.stream.received data).1.pending := by
    rw [hpending]
    exact h.framed.feed data
  have haccounted : Accounted files (c.stored data) := ⟨hle, hframed, h.answered, h.alive⟩
  refine ⟨haccounted.receive true, .reading rfl ?_ hended halive ?_ (room_grow hle)⟩
  · rw [Connection.receive, BufferedStream.grow_pos]
    exact hpos'
  · rw [Connection.pending, Connection.receive, BufferedStream.grow_pending]
    show ¬ sep <:+: (c.stream.received data).1.pending
    rw [hpending]
    exact (cut_eq_none_iff (by decide)).mp hcut

theorem Idle.of_eq (h : Idle c) (hstream : c'.stream = c.stream) (hended : c'.ended = c.ended)
    (hheads : c'.heads = c.heads) : Idle c' :=
  ⟨hstream ▸ h.pos, hended.trans h.unended, hheads ▸ h.alive⟩

theorem Session.step (h : Session files c) (hstep : c.step files e = some c') :
    Session files c' := by
  have hsuspended := h.suspended
  cases Connection.step_cases h.stop_le hstep with
  | again hawait hne hfits hcut => exact h.again hawait hne hfits hcut
  | ended hawait => exact h.ended hawait
  | head hawait hne hfits hcut => exact h.head hawait hne hfits hcut
  | sentHead hawait hn =>
    rw [hawait] at hsuspended
    cases hsuspended with
    | sendHead hidle =>
      refine ⟨⟨h.stop_le, h.framed, h.answered, h.alive⟩, ?_⟩
      simp only
      split
      · exact .sendHead fun hagain => (hidle hagain).of_eq rfl rfl rfl
      · exact .sendBody fun hagain => (hidle hagain).of_eq rfl rfl rfl
  | sentBody hawait hn hmore =>
    rw [hawait] at hsuspended
    cases hsuspended with
    | sendBody hidle =>
      exact ⟨⟨h.stop_le, h.framed, h.answered, h.alive⟩,
        .sendBody fun hagain => (hidle hagain).of_eq rfl rfl rfl⟩
  | @sentAll r again p n hawait hn hlast =>
    rw [hawait] at hsuspended
    cases hsuspended with
    | sendBody hidle =>
      exact Accounted.proceed (c := c.transfer r.response p n)
        ⟨h.stop_le, h.framed, h.answered, h.alive⟩ fun hagain => (hidle hagain).of_eq rfl rfl rfl
  | failed hawait => exact ⟨⟨h.stop_le, h.framed, h.answered, h.alive⟩, .finished⟩

theorem session_run {es : List Event} (hrun : Connection.run files {} es = some c) :
    Session files c :=
  StepMachine.run_invariant (Connection.step files) (fun _ _ _ h hstep => h.step hstep)
    (session_initial files) hrun

end Http

end Stdnet
