import Stdnet.HttpServer

/-!
# A Server for One Request

`make_client` and `send_response` of `examples/accu-2024.cpp`. When a head was found, its characters
are erased from the vector, but not the delimiter behind them: what is kept from then on begins with
a delimiter, the head before it is empty, and no further request is found. A response is sent by one
operation, however much of it that transfers.

## Main results

- `Invariant.step`: what is kept of the input, and what was sent.
- `first_request_only`: a connection answers the first request at most.
- `keeps_everything`: it keeps all that comes after it.
- `shuts_down_iff`: which requests end the server.
- `response_read`: what a client reads back of the response.
-/

namespace Stdnet

namespace Accu

open Delimiters Http LibeventContext

/-! ## Requests and responses -/

/-- What separates words: `std::isspace` in the C locale. -/
def isSpace (c : Char) : Bool := [' ', '\t', '\n', '\x0b', '\x0c', '\r'].contains c

/-- `in >> word`: the word, and what is still to be read. -/
def extract (s : Text) : Option (Text × Text) :=
  let s := s.dropWhile isSpace
  if s = [] then none else some (s.takeWhile (!isSpace ·), s.dropWhile (!isSpace ·))

/-- `in >> method >> url >> version`. -/
def readRequest (head : Text) : Option (Text × Text × Text) :=
  (extract head).bind fun (method, s) =>
    (extract s).bind fun (url, s) => (extract s).map fun (version, _) => (method, url, version)

/-- `data`. -/
def data : List (Text × Text) :=
  [("/".toList, "data/hello.html".toList), ("fav.png".toList, "data/fav.png".toList)]

/-- The response to a head, the arguments of `send_response`, and whether the server is told to
stop when it was sent. -/
def respond (files : Text → Text) (head : Text) : Option (Reply × Bool) :=
  (readRequest head).map fun (method, url, _) =>
    if method = "GET".toList then
      match data.lookup url with
      | some name => (⟨"200 OK".toList, files name⟩, false)
      | none =>
        if url = "/exit".toList then (⟨"200 OK".toList, "shutting down".toList⟩, true)
        else (⟨"404 not found".toList, []⟩, false)
    else (⟨"404 not found".toList, []⟩, false)

/-- The text that `send_response` sends. -/
def sendResponse (r : Reply) : Text :=
  httpVersion ++ r.message ++ crlf ++ contentLength ++ Nat.toDigits 10 r.response.length ++ crlf ++
    crlf ++ r.response

theorem sendResponse_eq (r : Reply) : sendResponse r = r.wire := rfl

/-! ## The coroutine -/

/-- Where the coroutine is suspended. -/
inductive Await where
  | receive
  /-- in the `async_send` of `text`, for the head that ends at `pos`; whether it exits then -/
  | send (text : Text) (pos : ℕ) (exits : Bool)
  | finished
  deriving DecidableEq, Repr

/-- `make_client` with its `stream`, the files that it answers with, the vector `b` and `end`, which
is `stop` here. What it received, answered and sent is recorded; no function reads that. -/
structure Client where
  stream : SocketId
  files : ℕ → Text → Text
  b : Text := List.replicate 16 '\x00'
  stop : ℕ := 0
  await : Await := .receive
  /-- cleared by this coroutine; the main loop ends then -/
  keepRunning : Bool := true
  input : Text := []
  replies : List Reply := []
  /-- how much each send has transferred -/
  sent : List ℕ := []
  output : Text := []

namespace Client

/-- `stdnet::buffer(b.data() + end, b.size() - end)`. -/
def region (c : Client) : Iovec := ⟨c.stop, c.b.length - c.stop⟩

/-- `if (b.size() == end) b.resize(b.size() * 2)`, and the next receive. -/
def receive (c : Client) : Client :=
  { c with
    b := if c.b.length = c.stop then c.b ++ List.replicate c.b.length '\x00' else c.b
    await := .receive }

/-- `b.erase(b.begin(), b.begin() + pos)` and `end -= pos`. -/
def erase (c : Client) (pos : ℕ) : Client := { c with b := c.b.drop pos, stop := c.stop - pos }

/-- The receive has stored `data`. -/
def stored (c : Client) (data : Text) : Client :=
  { c with
    b := c.region.store c.b data
    stop := c.stop + data.length
    input := c.input ++ data }

/-- The head in front of the first delimiter is answered, if there is one and it has three words. -/
def handle (c : Client) : Client :=
  match (c.b.take c.stop).dropInfix? sep with
  | none => c.receive
  | some (head, _) =>
    match respond (c.files c.replies.length) (c.b.take head.length) with
    | none => (c.erase head.length).receive
    | some (y, exits) =>
      { c with await := .send (sendResponse y) head.length exits, replies := c.replies ++ [y] }

/-- The send has transferred `n` bytes; nothing depends on how many. -/
def transferred (c : Client) (text : Text) (n : ℕ) : Client :=
  { c with sent := c.sent ++ [n], output := c.output ++ text.take n }

def step (c : Client) : Http.Event → Option Client
  | .received data =>
    match c.await with
    | .receive =>
      if data.length ≤ c.region.len then
        if data.length = 0 then some { c with await := .finished } else some (c.stored data).handle
      else none
    | _ => none
  | .sent n =>
    match c.await with
    | .send text pos exits =>
      if n ≤ text.length then
        if exits then some { c.transferred text n with keepRunning := false, await := .finished }
        else some ((c.transferred text n).erase pos).receive
      else none
    | _ => none
  | .failed =>
    match c.await with
    | .receive | .send _ _ _ => some { c with await := .finished }
    | .finished => none

/-- What was received and not erased. -/
def pending (c : Client) : Text := c.b.take c.stop

end Client

/-- The operation that the coroutine is suspended in. -/
def Await.desc (stream : SocketId) : Await → Option Desc
  | .receive => some (.receive stream)
  | .send _ _ _ => some (.send stream)
  | .finished => none

def makeClient : Coroutine Arguments Client Text where
  call a := { stream := a.1, files := a.2 }
  await c := c.await.desc c.stream
  resume c s data := (completion (c.await == .receive) s data).bind c.step

/-! ## Steps -/

section Steps

variable {c c' : Client} {e : Http.Event} {data : Text}

/-- What a step can do, with everything that it requires. -/
inductive StepCases (c : Client) : Http.Event → Client → Prop where
  | closed (hawait : c.await = .receive) : StepCases c (.received []) { c with await := .finished }
  | received {data : Text} (hawait : c.await = .receive) (hne : data ≠ [])
      (hfits : data.length ≤ c.region.len) : StepCases c (.received data) (c.stored data).handle
  | sent {text : Text} {pos n : ℕ} (hawait : c.await = .send text pos false)
      (hn : n ≤ text.length) :
      StepCases c (.sent n) ((c.transferred text n).erase pos).receive
  | exited {text : Text} {pos n : ℕ} (hawait : c.await = .send text pos true)
      (hn : n ≤ text.length) :
      StepCases c (.sent n)
        { c.transferred text n with keepRunning := false, await := .finished }
  | failed (hawait : c.await ≠ .finished) : StepCases c .failed { c with await := .finished }

theorem step_cases (hstep : c.step e = some c') : StepCases c e c' := by
  unfold Client.step at hstep
  cases e with
  | received data =>
    simp only at hstep
    split at hstep
    next hawait =>
      simp only [Option.ite_none_right_eq_some, List.length_eq_zero_iff] at hstep
      obtain ⟨hfits, hstep⟩ := hstep
      split at hstep
      next hnil =>
        obtain rfl := Option.some.inj hstep
        exact hnil ▸ .closed hawait
      next hne =>
        obtain rfl := Option.some.inj hstep
        exact .received hawait hne hfits
    next => cases hstep
  | sent n =>
    simp only at hstep
    split at hstep
    next text pos exits hawait =>
      simp only [Option.ite_none_right_eq_some] at hstep
      obtain ⟨hn, hstep⟩ := hstep
      cases exits with
      | true =>
        obtain rfl := Option.some.inj hstep
        exact .exited hawait hn
      | false =>
        obtain rfl := Option.some.inj hstep
        exact .sent hawait hn
    next => cases hstep
  | failed =>
    simp only at hstep
    split at hstep
    next hawait =>
      obtain rfl := Option.some.inj hstep
      exact .failed (by simp [hawait])
    next hawait =>
      obtain rfl := Option.some.inj hstep
      exact .failed (by simp [hawait])
    next => cases hstep

theorem length_pending (hstop : c.stop ≤ c.b.length) : c.pending.length = c.stop := by
  rw [Client.pending, List.length_take, Nat.min_eq_left hstop]

theorem receive_pending (c : Client) : c.receive.pending = c.pending := by
  unfold Client.receive Client.pending
  split
  next h => simp only [← h, List.take_left', List.take_length]
  next => rfl

/-- The vector is doubled when it is full, so that there is room for the next receive. -/
theorem receive_room (hstop : c.stop ≤ c.b.length) (hpos : 0 < c.stop) :
    c.receive.stop < c.receive.b.length ∧
      c.receive.b.length ≤ max c.b.length (2 * c.stop) := by
  unfold Client.receive
  split
  · simp only [List.length_append, List.length_replicate]
    omega
  · constructor
    · simp only
      omega
    · exact Nat.le_max_left _ _

theorem erase_pending (c : Client) (pos : ℕ) : (c.erase pos).pending = c.pending.drop pos := by
  simp only [Client.pending, Client.erase, List.drop_take]

/-- A receive appends what it brings to what is kept. -/
theorem stored_spec (hstop : c.stop ≤ c.b.length) (hfits : data.length ≤ c.region.len) :
    (c.stored data).pending = c.pending ++ data ∧
      (c.stored data).b.length = c.b.length ∧
      (c.stored data).stop ≤ c.b.length := by
  have hsum : c.stop + data.length ≤ c.b.length := by
    simp only [Client.region] at hfits
    omega
  refine ⟨BufferedStream.take_store (v := c.region) hstop data, ?_, hsum⟩
  exact BufferedStream.length_store (v := c.region) hsum

theorem respond_nil (files : Text → Text) : respond files [] = none := rfl

/-- Without a delimiter the coroutine receives on. -/
theorem handle_none (h : ¬ sep <:+: c.pending) : c.handle = c.receive := by
  rw [Client.handle, show (c.b.take c.stop).dropInfix? sep = none from
    (dropInfix?_eq_none_iff (by decide)).mpr h]

/-- The text in front of the first delimiter is answered. -/
theorem handle_some {head rest : Text} (h : c.pending.dropInfix? sep = some (head, rest)) :
    c.handle =
      match respond (c.files c.replies.length) head with
      | none => (c.erase head.length).receive
      | some (y, exits) =>
        { c with await := .send y.wire head.length exits, replies := c.replies ++ [y] } := by
  have hhead : c.b.take head.length = head := by
    obtain ⟨hxs, -⟩ := (dropInfix?_eq_some_iff (by decide)).mp h
    have hpre : head <+: c.b := by
      have hpending : head <+: c.pending := by
        rw [hxs, List.append_assoc]
        exact List.prefix_append _ _
      exact hpending.trans (List.take_prefix _ _)
    exact (List.prefix_iff_eq_take.mp hpre).symm
  rw [Client.handle, show (c.b.take c.stop).dropInfix? sep = some (head, rest) from h]
  simp only [hhead, sendResponse_eq]

end Steps

/-! ## The first request -/

/-- What the first request of the input is answered. -/
def firstReply (files : ℕ → Text → Text) (input : Text) : Option (Reply × Bool) :=
  (input.dropInfix? sep).bind fun x => respond (files 0) x.1

theorem firstReply_of_none {files : ℕ → Text → Text} {input : Text} (h : ¬ sep <:+: input) :
    firstReply files input = none := by
  rw [firstReply, (dropInfix?_eq_none_iff (by decide)).mpr h, Option.bind_none]

theorem firstReply_of_some {files : ℕ → Text → Text} {input head rest : Text}
    (h : input.dropInfix? sep = some (head, rest)) :
    firstReply files input = respond (files 0) head := by
  rw [firstReply, h, Option.bind_some]

/-- What a connection has answered and sent, and whether it has told the server to stop. -/
structure Outcome (c : Client) : Prop where
  replies : c.replies = ((firstReply c.files c.input).map Prod.fst).toList
  sent : (c.sent = [] ∧ c.output = []) ∨
    ∃ n ≤ (c.replies.flatMap Reply.wire).length,
      c.sent = [n] ∧ c.output = (c.replies.flatMap Reply.wire).take n
  running : c.keepRunning = false ↔
    c.sent ≠ [] ∧ (firstReply c.files c.input).map Prod.snd = some true

/-- What holds where the coroutine is suspended. -/
inductive Suspended (c : Client) : Await → Prop where
  | searching (hinput : ¬ sep <:+: c.input) (hpending : c.pending = c.input) (hsent : c.sent = [])
      (hroom : c.stop < c.b.length) : Suspended c .receive
  | answering {head rest : Text} {y : Reply} {exits : Bool}
      (hinput : c.input.dropInfix? sep = some (head, rest)) (hpending : c.pending = c.input)
      (hrespond : respond (c.files 0) head = some (y, exits)) (hsent : c.sent = []) :
      Suspended c (.send y.wire head.length exits)
  | answered {head rest : Text} (hinput : c.input.dropInfix? sep = some (head, rest))
      (hpending : c.pending = sep ++ rest) (hroom : c.stop < c.b.length) : Suspended c .receive
  | finished : Suspended c .finished

/-- The invariant of a connection. -/
structure Invariant (c : Client) : Prop extends Outcome c where
  stop_le : c.stop ≤ c.b.length
  size_le : c.b.length ≤ max 16 (2 * c.input.length)
  suspended : Suspended c c.await

theorem invariant_call (a : Arguments) : Invariant (makeClient.call a) where
  replies := rfl
  sent := .inl ⟨rfl, rfl⟩
  running := by simp [makeClient]
  stop_le := Nat.zero_le _
  size_le := by simp [makeClient]
  suspended := .searching (by show ¬ sep <:+: []; decide) rfl rfl (by simp [makeClient])

section Invariant

variable {c c' : Client} {e : Http.Event} {data head rest : Text}

theorem length_of_headed {xs : Text} (h : xs.dropInfix? sep = some (head, rest)) :
    xs.length = head.length + (sep ++ rest).length := by
  obtain ⟨rfl, -⟩ := (dropInfix?_eq_some_iff (by decide)).mp h
  rw [List.append_assoc, List.length_append]

/-- The coroutine receives on, with some of its input kept. -/
theorem receive_kept (hstop : c.stop ≤ c.b.length) (hsize : c.b.length ≤ max 16 (2 * c.input.length))
    (hne : c.pending ≠ []) (hle : c.pending.length ≤ c.input.length) :
    c.receive.stop ≤ c.receive.b.length ∧ c.receive.b.length ≤ max 16 (2 * c.input.length) ∧
      c.receive.stop < c.receive.b.length := by
  have hlength := length_pending hstop
  have hpos := List.length_pos_iff.mpr hne
  obtain ⟨hroom, hdouble⟩ := receive_room hstop (hlength ▸ hpos)
  refine ⟨hroom.le, hdouble.trans ?_, hroom⟩
  omega

/-- The head is erased, and all behind it is kept. -/
theorem erase_kept (hstop : c.stop ≤ c.b.length)
    (hinput : c.input.dropInfix? sep = some (head, rest)) (hpending : c.pending = c.input) :
    (c.erase head.length).pending = sep ++ rest ∧
      (c.erase head.length).stop ≤ (c.erase head.length).b.length ∧
      (c.erase head.length).b.length ≤ c.b.length := by
  obtain ⟨hxs, -⟩ := (dropInfix?_eq_some_iff (by decide)).mp hinput
  refine ⟨?_, ?_, ?_⟩
  · rw [erase_pending, hpending, hxs, List.append_assoc, List.drop_left]
  · simp only [Client.erase, List.length_drop]
    omega
  · simp only [Client.erase, List.length_drop]
    omega

/-- The first head of the input is found, or none is there yet. -/
theorem handle_first (hstop : c.stop ≤ c.b.length)
    (hsize : c.b.length ≤ max 16 (2 * c.input.length)) (hpending : c.pending = c.input)
    (hne : c.input ≠ []) (hreplies : c.replies = []) (hsent : c.sent = []) (houtput : c.output = [])
    (hrunning : c.keepRunning = true) : Invariant c.handle := by
  by_cases hin : sep <:+: c.pending
  · obtain ⟨⟨head, rest⟩, hdrop⟩ := Option.ne_none_iff_exists'.mp
      fun hnone => (dropInfix?_eq_none_iff (by decide)).mp hnone hin
    have hinput : c.input.dropInfix? sep = some (head, rest) := hpending ▸ hdrop
    have hfirst : firstReply c.files c.input = respond (c.files 0) head := firstReply_of_some hinput
    rw [handle_some hdrop, hreplies]
    simp only [List.length_nil, List.nil_append]
    cases hrespond : respond (c.files 0) head with
    | none =>
      rw [hrespond] at hfirst
      obtain ⟨hkept, hstop', hle⟩ := erase_kept hstop hinput hpending
      have hlength := length_of_headed hinput
      obtain ⟨h₁, h₂, h₃⟩ := receive_kept (c := c.erase head.length) hstop' (hle.trans hsize)
        (by rw [hkept]; exact List.append_ne_nil_of_left_ne_nil (by decide) _)
        (by rw [hkept]; exact Nat.le.intro ((Nat.add_comm _ _).trans hlength.symm))
      refine ⟨⟨?_, .inl ⟨hsent, houtput⟩, ?_⟩, h₁, h₂, .answered hinput ?_ h₃⟩
      · show c.replies = ((firstReply c.files c.input).map Prod.fst).toList
        rw [hreplies, hfirst]
        rfl
      · show c.keepRunning = false ↔ c.sent ≠ [] ∧ _
        simp [hrunning, hsent]
      · rw [receive_pending, hkept]
    | some answer =>
      obtain ⟨y, exits⟩ := answer
      rw [hrespond] at hfirst
      refine ⟨⟨?_, .inl ⟨hsent, houtput⟩, ?_⟩, hstop, hsize,
        .answering hinput hpending hrespond hsent⟩
      · show [y] = ((firstReply c.files c.input).map Prod.fst).toList
        rw [hfirst]
        rfl
      · show c.keepRunning = false ↔ c.sent ≠ [] ∧ _
        simp [hrunning, hsent]
  · have hnone : firstReply c.files c.input = none := firstReply_of_none (hpending ▸ hin)
    rw [handle_none hin]
    obtain ⟨h₁, h₂, h₃⟩ := receive_kept hstop hsize (hpending ▸ hne) (hpending ▸ le_refl _)
    refine ⟨⟨?_, .inl ⟨hsent, houtput⟩, ?_⟩, h₁, h₂, .searching (hpending ▸ hin) ?_ hsent h₃⟩
    · show c.replies = ((firstReply c.files c.input).map Prod.fst).toList
      rw [hreplies, hnone]
      rfl
    · show c.keepRunning = false ↔ c.sent ≠ [] ∧ _
      simp [hrunning, hsent]
    · rw [receive_pending]
      exact hpending

/-- Once the first head was found, the delimiter behind it is all that is ever found. -/
theorem handle_again (h : Outcome c) (hstop : c.stop ≤ c.b.length)
    (hsize : c.b.length ≤ max 16 (2 * c.input.length))
    (hinput : c.input.dropInfix? sep = some (head, rest)) (hpending : c.pending = sep ++ rest) :
    Invariant c.handle := by
  have hzero : c.erase ([] : Text).length = c := rfl
  have hfirst : c.pending.dropInfix? sep = some ([], rest) := by
    rw [hpending, dropInfix?_self (by decide)]
  rw [handle_some hfirst, respond_nil]
  simp only [hzero]
  have hlength := length_of_headed hinput
  obtain ⟨h₁, h₂, h₃⟩ := receive_kept hstop hsize
    (by rw [hpending]; exact List.append_ne_nil_of_left_ne_nil (by decide) _)
    (by rw [hpending]; exact Nat.le.intro ((Nat.add_comm _ _).trans hlength.symm))
  exact ⟨⟨h.replies, h.sent, h.running⟩, h₁, h₂,
    .answered hinput ((receive_pending c).trans hpending) h₃⟩

/-- More input changes nothing once the first head was found. -/
theorem Outcome.stored (h : Outcome c) (hinput : c.input.dropInfix? sep = some (head, rest))
    (data : Text) : Outcome (c.stored data) := by
  have hsame : firstReply c.files (c.input ++ data) = firstReply c.files c.input := by
    rw [firstReply_of_some (dropInfix?_append (by decide) hinput data), firstReply_of_some hinput]
  refine ⟨?_, h.sent, ?_⟩
  · show c.replies = ((firstReply c.files (c.input ++ data)).map Prod.fst).toList
    rw [hsame]
    exact h.replies
  · show c.keepRunning = false ↔ c.sent ≠ [] ∧ (firstReply c.files (c.input ++ data)).map _ = _
    rw [hsame]
    exact h.running

/-- The receive has brought something. -/
theorem Invariant.received (h : Invariant c) (hawait : c.await = .receive) (hne : data ≠ [])
    (hfits : data.length ≤ c.region.len) : Invariant (c.stored data).handle := by
  obtain ⟨hpending', hlength, hstop⟩ := stored_spec h.stop_le hfits
  have hsize : (c.stored data).b.length ≤ max 16 (2 * (c.stored data).input.length) := by
    have hle := h.size_le
    rw [hlength]
    simp only [Client.stored, List.length_append]
    omega
  cases (hawait ▸ h.suspended : Suspended c .receive) with
  | searching hinput hpending hsent hroom =>
    have hnone : firstReply c.files c.input = none := firstReply_of_none hinput
    have hreplies := h.replies
    rw [hnone] at hreplies
    have houtput : c.output = [] := by
      rcases h.sent with hnothing | ⟨n, -, hn, -⟩
      · exact hnothing.2
      · rw [hsent] at hn
        cases hn
    have hrunning : c.keepRunning = true := by
      by_contra hstopped
      exact (h.running.mp (by simpa using hstopped)).1 hsent
    apply handle_first (hlength ▸ hstop) hsize _ _ hreplies hsent houtput hrunning
    · rw [hpending', hpending]
      rfl
    · exact List.append_ne_nil_of_right_ne_nil _ hne
  | @answered head rest hinput hpending hroom =>
    apply handle_again (h.stored hinput data) (hlength ▸ hstop) hsize
      (dropInfix?_append (by decide) hinput data)
    rw [hpending', hpending, List.append_assoc]

/-- The response was sent, or the beginning of it. -/
theorem Outcome.transferred {text : Text} {n : ℕ} {pos : ℕ} {exits : Bool} (h : Outcome c)
    (hsuspended : Suspended c (.send text pos exits)) (hn : n ≤ text.length) :
    n ≤ (c.replies.flatMap Reply.wire).length ∧ (c.transferred text n).sent = [n] ∧
      (c.transferred text n).output = (c.replies.flatMap Reply.wire).take n ∧
      (firstReply c.files c.input).map Prod.snd = some exits ∧ c.keepRunning = true := by
  cases hsuspended with
  | answering hinput hpending hrespond hsent =>
    have hfirst := (firstReply_of_some hinput).trans hrespond
    have hreplies := h.replies
    rw [hfirst] at hreplies
    have houtput : c.output = [] := by
      rcases h.sent with hnothing | ⟨n, -, hn, -⟩
      · exact hnothing.2
      · rw [hsent] at hn
        cases hn
    refine ⟨?_, ?_, ?_, by rw [hfirst]; rfl, ?_⟩
    · rw [hreplies]
      simpa using hn
    · rw [Client.transferred, hsent]
      rfl
    · rw [Client.transferred, houtput, hreplies]
      simp
    · by_contra hstopped
      exact (h.running.mp (by simpa using hstopped)).1 hsent

theorem Invariant.step (h : Invariant c) (hstep : c.step e = some c') : Invariant c' := by
  cases step_cases hstep with
  | closed hawait | failed hawait =>
    exact ⟨⟨h.replies, h.sent, h.running⟩, h.stop_le, h.size_le, .finished⟩
  | received hawait hne hfits => exact h.received hawait hne hfits
  | @exited text pos n hawait hn =>
    have hsuspended := hawait ▸ h.suspended
    obtain ⟨hle, hsent, houtput, hexits, -⟩ := h.transferred hsuspended hn
    refine ⟨⟨h.replies, .inr ⟨n, hle, hsent, houtput⟩, ?_⟩, h.stop_le, h.size_le, .finished⟩
    exact iff_of_true rfl ⟨by rw [hsent]; simp, hexits⟩
  | @sent text pos n hawait hn =>
    have hsuspended := hawait ▸ h.suspended
    obtain ⟨hcount, hsent, houtput, hexits, hrunning⟩ := h.transferred hsuspended hn
    cases hsuspended with
    | @answering head rest y exits hinput hpending hrespond hnone =>
      obtain ⟨hkept, hstop', hle⟩ := erase_kept (c := c.transferred y.wire n) h.stop_le hinput hpending
      have hlength := length_of_headed hinput
      obtain ⟨h₁, h₂, h₃⟩ := receive_kept (c := (c.transferred y.wire n).erase head.length) hstop'
        (hle.trans h.size_le)
        (by rw [hkept]; exact List.append_ne_nil_of_left_ne_nil (by decide) _)
        (by rw [hkept]; exact Nat.le.intro ((Nat.add_comm _ _).trans hlength.symm))
      refine ⟨⟨h.replies, .inr ⟨n, hcount, hsent, houtput⟩, ?_⟩, h₁, h₂, .answered hinput ?_ h₃⟩
      · refine iff_of_false ?_ fun hstopped => ?_
        · show ¬ c.keepRunning = false
          rw [hrunning]
          simp
        · have hfalse := hexits.symm.trans hstopped.2
          cases hfalse
      · rw [receive_pending, hkept]

end Invariant

/-! ## The server -/

section Server

variable {c : Tasks Arguments Client Text} {as : List (TaskAction Arguments Text)} {k : ℕ}
  {p : Task Arguments Client Text}

theorem handle_args (c : Client) : c.handle.stream = c.stream ∧ c.handle.files = c.files := by
  unfold Client.handle
  split
  next => exact ⟨rfl, rfl⟩
  next =>
    split
    next => exact ⟨rfl, rfl⟩
    next => exact ⟨rfl, rfl⟩

theorem step_args {c c' : Client} {e : Http.Event} (hstep : c.step e = some c') :
    c'.stream = c.stream ∧ c'.files = c.files := by
  cases step_cases hstep with
  | received hawait hne hfits => exact handle_args _
  | _ => exact ⟨rfl, rfl⟩

/-- Every connection of the server keeps the invariant. -/
theorem invariant_of_task (hrun : Tasks.run makeClient {} as = some c)
    (hp : c.tasks[k]? = some p) :
    (p.state.stream = p.arg.1 ∧ p.state.files = p.arg.2) ∧ Invariant p.state := by
  refine Tasks.state_invariant (C := makeClient)
    (I := fun a x => (x.stream = a.1 ∧ x.files = a.2) ∧ Invariant x)
    (fun a => ⟨⟨rfl, rfl⟩, invariant_call a⟩) ?_ hrun hp
  intro a x y data x' h hresume
  obtain ⟨e, -, hstep⟩ := Option.bind_eq_some_iff.mp hresume
  obtain ⟨hstream, hfiles⟩ := step_args hstep
  exact ⟨⟨hstream.trans h.1.1, hfiles.trans h.1.2⟩, h.2.step hstep⟩

/-- A connection answers its first request, if that has three words, and no other one, whatever it
receives; of the response one send transfers a part, and nothing is sent after it. -/
theorem first_request_only (hrun : Tasks.run makeClient {} as = some c)
    (hp : c.tasks[k]? = some p) :
    p.state.replies = ((firstReply p.arg.2 p.state.input).map Prod.fst).toList ∧
      ((p.state.sent = [] ∧ p.state.output = []) ∨
        ∃ n ≤ (p.state.replies.flatMap Reply.wire).length, p.state.sent = [n] ∧
          p.state.output = (p.state.replies.flatMap Reply.wire).take n) := by
  obtain ⟨⟨-, hfiles⟩, h⟩ := invariant_of_task hrun hp
  exact ⟨hfiles ▸ h.replies, h.sent⟩

/-- Two requests arrive together; 9 bytes of the response to the first one are sent. -/
def twoRequests : List (TaskAction Arguments Text) :=
  [.step (.makeSocket 7) [], .spawn (0, fun _ _ => "hello".toList) 0, .step (.perform {}) [],
    .step (.perform {}) [], .step (.perform {}) [], .step (.perform {}) [],
    .step (.ready 0 { results := [.ok 15] }) [], .step (.perform {}) [],
    .step (.perform {}) "GET / 1\r\n\r\nGET ".toList,
    -- the coroutine awaits the send
    .resume, .step (.perform {}) [], .step (.perform {}) [], .step (.perform {}) [],
    .step (.perform {}) [], .step .userReturn [], .step (.ready 1 { results := [.ok 9] }) [],
    .step (.perform {}) [], .step (.perform {}) [],
    -- and the next receive
    .resume, .step (.perform {}) [], .step (.perform {}) [], .step (.perform {}) [],
    .step (.perform {}) [], .step .userReturn []]

theorem run_twoRequests : ∃ c p, Tasks.run makeClient {} twoRequests = some c ∧
    c.tasks[0]? = some p ∧ p.state.await = .receive ∧ p.state.sent = [9] ∧
    p.state.output = "HTTP/1.1 ".toList ∧ p.state.pending = "\r\n\r\nGET ".toList :=
  ⟨_, _, rfl, rfl, rfl, rfl, rfl, rfl⟩

theorem first_request_only_twoRequests : ∃ c p, Tasks.run makeClient {} twoRequests = some c ∧
    c.tasks[0]? = some p ∧
    p.state.replies = ((firstReply p.arg.2 p.state.input).map Prod.fst).toList := by
  obtain ⟨c, p, hrun, hp, -⟩ := run_twoRequests
  exact ⟨c, p, hrun, hp, (first_request_only hrun hp).1⟩

/-- The length of the first head of the input. -/
def headLength (input : Text) : ℕ := ((input.dropInfix? sep).map fun x => x.1.length).getD 0

/-- A coroutine that receives has room to receive into; it keeps its whole input but for the first
head, in a vector of at most twice that size. -/
theorem keeps_everything (hrun : Tasks.run makeClient {} as = some c)
    (hp : c.tasks[k]? = some p) (hawait : p.state.await = .receive) :
    p.state.pending = p.state.input.drop (headLength p.state.input) ∧
      p.state.stop < p.state.b.length ∧
      p.state.b.length ≤ max 16 (2 * p.state.input.length) := by
  obtain ⟨-, h⟩ := invariant_of_task hrun hp
  cases (hawait ▸ h.suspended : Suspended p.state .receive) with
  | searching hinput hpending hsent hroom =>
    refine ⟨?_, hroom, h.size_le⟩
    rw [headLength, (dropInfix?_eq_none_iff (by decide)).mpr hinput]
    exact hpending
  | @answered head rest hinput hpending hroom =>
    refine ⟨?_, hroom, h.size_le⟩
    obtain ⟨hxs, -⟩ := (dropInfix?_eq_some_iff (by decide)).mp hinput
    have hlength : headLength p.state.input = head.length := by
      rw [headLength, hinput]
      rfl
    rw [hpending, hlength, hxs, List.append_assoc, List.drop_left]

theorem keeps_everything_twoRequests : ∃ c p, Tasks.run makeClient {} twoRequests = some c ∧
    c.tasks[0]? = some p ∧
    "\r\n\r\nGET ".toList = p.state.input.drop (headLength p.state.input) := by
  obtain ⟨c, p, hrun, hp, hawait, -, -, hpending⟩ := run_twoRequests
  exact ⟨c, p, hrun, hp, hpending ▸ (keeps_everything hrun hp hawait).1⟩

/-- A connection has told the server to stop exactly if its first request was answered with
"shutting down" and the send of that has ended with a count, however small. -/
theorem shuts_down_iff (hrun : Tasks.run makeClient {} as = some c) (hp : c.tasks[k]? = some p) :
    p.state.keepRunning = false ↔
      p.state.sent ≠ [] ∧ (firstReply p.arg.2 p.state.input).map Prod.snd = some true := by
  obtain ⟨⟨-, hfiles⟩, h⟩ := invariant_of_task hrun hp
  exact hfiles ▸ h.running

theorem shuts_down_iff_twoRequests : ∃ c p, Tasks.run makeClient {} twoRequests = some c ∧
    c.tasks[0]? = some p ∧ (p.state.keepRunning = false ↔
      p.state.sent ≠ [] ∧ (firstReply p.arg.2 p.state.input).map Prod.snd = some true) := by
  obtain ⟨c, p, hrun, hp, -⟩ := run_twoRequests
  exact ⟨c, p, hrun, hp, shuts_down_iff hrun hp⟩

theorem respond_message {files : Text → Text} {head : Text} {y : Reply} {exits : Bool}
    (h : respond files head = some (y, exits)) : '\r' ∉ y.message := by
  obtain ⟨⟨method, url, version⟩, -, hy⟩ := Option.map_eq_some_iff.mp h
  simp only at hy
  split at hy
  next =>
    split at hy
    next =>
      obtain ⟨rfl, -⟩ := Prod.mk.inj hy
      show '\r' ∉ String.toList _
      decide
    next =>
      split at hy
      all_goals
        obtain ⟨rfl, -⟩ := Prod.mk.inj hy
        show '\r' ∉ String.toList _
        decide
  next =>
    obtain ⟨rfl, -⟩ := Prod.mk.inj hy
    show '\r' ∉ String.toList _
    decide

/-- A client reads the response if the one send has transferred all of it, else it reads none: what
is missing is never sent. -/
theorem response_read (hrun : Tasks.run makeClient {} as = some c) (hp : c.tasks[k]? = some p) :
    readResponses p.state.output =
      if p.state.sent = [(p.state.replies.flatMap Reply.wire).length] then p.state.replies
      else [] := by
  obtain ⟨-, h⟩ := invariant_of_task hrun hp
  have hnone : readResponses [] = [] := by
    rw [readResponses]
    rfl
  have hreplies := h.replies
  cases hfirst : firstReply p.state.files p.state.input with
  | none =>
    rw [hfirst] at hreplies
    have houtput : p.state.output = [] := by
      rcases h.sent with ⟨-, houtput⟩ | ⟨n, -, -, houtput⟩
      · exact houtput
      · rw [houtput, hreplies]
        exact List.take_nil
    rw [houtput, hnone, hreplies]
    split <;> rfl
  | some answer =>
    obtain ⟨y, exits⟩ := answer
    rw [hfirst] at hreplies
    have hmessage : '\r' ∉ y.message := by
      obtain ⟨x, -, hrespond⟩ := Option.bind_eq_some_iff.mp hfirst
      exact respond_message hrespond
    have hwire : p.state.replies.flatMap Reply.wire = y.wire := by
      rw [hreplies]
      exact List.flatMap_singleton _ _
    have hall : readResponses y.wire = [y] := by
      have hread := readResponses_wire hmessage []
      rwa [List.append_nil, hnone] at hread
    rcases h.sent with ⟨hsent, houtput⟩ | ⟨n, hn, hsent, houtput⟩
    · rw [houtput, hnone, hsent, if_neg (List.cons_ne_nil _ _).symm]
    · rw [hwire] at hn houtput ⊢
      by_cases hlength : n = y.wire.length
      · rw [if_pos (by rw [hsent, hlength]), houtput, hlength, List.take_length, hall, hreplies]
        rfl
      · have hshort : p.state.sent ≠ [y.wire.length] := by
          rw [hsent]
          simpa using hlength
        -- a part of the response
        have hmissing : y.wire.drop n ≠ [] := by
          rw [ne_eq, List.drop_eq_nil_iff]
          omega
        have hpart := readResponse_of_part hmessage (List.take_append_drop n _) hmissing
        rw [if_neg hshort, houtput, readResponses, hpart]

theorem response_read_twoRequests : ∃ c p, Tasks.run makeClient {} twoRequests = some c ∧
    c.tasks[0]? = some p ∧ readResponses p.state.output =
      if p.state.sent = [(p.state.replies.flatMap Reply.wire).length] then p.state.replies
      else [] := by
  obtain ⟨c, p, hrun, hp, -⟩ := run_twoRequests
  exact ⟨c, p, hrun, hp, response_read hrun hp⟩

end Server

end Accu

end Stdnet
