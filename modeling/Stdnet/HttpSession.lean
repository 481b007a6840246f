import Stdnet.HttpConnection

/-!
# Sessions with the HTTP Server

What a client of `examples/simple-http-server.cpp` gets for what it sends, in whatever pieces the
bytes of both directions arrive.

## Main results

- `answers_first_heads`: the requests are answered in order, each one once.
- `prompt_iff`, `answers_le_receives`: a complete request may be kept back until more data arrives.
- `undefined_iff`: the peer must not close the connection within a head.
- `starved_iff`: a head that fills the vector exactly is the last one that is read.
- `output_prefix`: what the client receives is the beginning of the responses.
- `client_session`: a client that writes requests reads their answers.
-/

namespace Stdnet

namespace Http

open Delimiters

variable {files : ℕ → Text → Text} {c c' : Connection} {e : Event} {es : List Event}

/-! ## Whole requests and responses -/

/-- A request that arrives in one piece is answered. -/
theorem Session.receive_request (h : Session files c) (hawait : c.await = .receive)
    (hpending : c.pending = []) {r : WireRequest} (hfits : r.text.length ≤ c.stream.region.len) :
    ∃ b : BufferedStream, b.pending = [] ∧
      b.buffer.length = c.stream.buffer.length - r.text.length ∧
      c.step files (.received r.text) =
        some ({ c with
          stream := b
          input := c.input ++ r.text
          heads := c.heads ++ [r.text] }.respond (files c.heads.length) r.request) := by
  have hmessage := isMessage_text r
  have hne := hmessage.ne_nil (by decide)
  have hcut : cut sep (c.pending ++ r.text) = some (r.text, []) := by
    rw [hpending]
    exact (cut_eq_some_iff (by decide)).mpr ⟨(List.append_nil _).symm, hmessage⟩
  have hfound := h.found hne hfits hcut
  obtain ⟨b, hrest, -, -, hlen, hhandle⟩ := handle_spec (c := (c.stored r.text).found r.text)
    (f := files c.heads.length) (readHttpRequest_text r) hfound.pos hfound.length_le hfound.stop_le
  refine ⟨b, ?_, ?_, ?_⟩
  · rw [hrest]
    show (c.stream.received r.text).1.pending.drop r.text.length = []
    rw [hfound.pending, List.drop_left]
  · rw [hlen]
    show (c.stream.received r.text).1.buffer.length - r.text.length = _
    rw [hfound.buffer]
  · have hlast : (r.text == []) = false := by simpa using hne
    rw [Connection.step_of_head h.stop_le hawait hne hfits hcut, hhandle, hlast, Bool.or_false]
    rfl

theorem room_initial : ({} : Connection).stream.region.len = 1024 := by
  simp only [BufferedStream.region, List.length_replicate, Nat.sub_zero]

theorem pending_initial : ({} : Connection).pending = [] := by
  simp only [Connection.pending, BufferedStream.pending, List.take_zero]

/-- A response that is sent in two pieces. -/
theorem run_sends {r : Reply} {again : Bool} (hawait : c.await = .sendHead r again 0) :
    Connection.run files c [.sent r.head.length, .sent r.response.length] =
      some ({ c with output := c.output ++ r.wire, await := .sendBody r again 0 }.proceed
        again) := by
  have hpos := length_head_pos r
  have hhead : ¬ Connection.SendsMore r.head 0 r.head.length := fun h => h.2 (Nat.zero_add _)
  have hbody : ¬ Connection.SendsMore r.response 0 r.response.length :=
    fun h => h.2 (Nat.zero_add _)
  have hall : ∀ text : Text, (Iovec.load ⟨0, text.length⟩ text).take text.length = text := by
    intro text
    rw [Iovec.load, List.drop_zero, List.take_length, List.take_length]
  have hnone : (r.head.length == 0) = false := by simpa using hpos.ne'
  have hempty : (r.response.length == 0 && r.response.length != 0) = false := by
    cases h : r.response.length == 0 <;> simp [bne, h]
  simp only [Connection.run, StepMachine.run, Connection.step, hawait, Nat.sub_zero, le_refl, if_true,
    if_neg hhead, if_neg hbody, Option.bind_some, Connection.transfer, hall, hnone, hempty,
    Bool.false_and, Bool.or_false, Reply.wire, List.append_assoc]

/-- A request that asks for another one is served: the coroutine waits for that one. -/
theorem Session.serve_request (h : Session files c) (hawait : c.await = .receive)
    (hpending : c.pending = []) {r : WireRequest} (hfits : r.text.length ≤ c.stream.region.len)
    {y : Reply} (hanswer : answer (files c.heads.length) r.request = some y)
    (hkeep : keepAlive r.request = true) :
    ∃ c', Connection.run files c
        [.received r.text, .sent y.head.length, .sent y.response.length] = some c' ∧
      c'.await = .receive ∧ c'.pending = [] ∧ c'.input = c.input ++ r.text ∧
      c'.output = c.output ++ y.wire ∧ c'.cutOff = c.cutOff := by
  obtain ⟨b, hrest, -, hstep⟩ := h.receive_request hawait hpending hfits
  rw [Connection.respond, hanswer, hkeep] at hstep
  refine ⟨_, (StepMachine.run_cons_eq_some _).mpr ⟨_, hstep, run_sends rfl⟩, rfl, ?_, rfl, rfl, rfl⟩
  exact (BufferedStream.grow_pending _).trans hrest

/-- `Connection: keep-alive`. -/
def keepAliveLine : HeaderLine where
  key := "Connection".toList
  blanks := [' ']
  value := "keep-alive".toList
  key_colon := by decide
  key_cr := by decide
  blank := by simp
  value_cr := by decide
  value_head c h := by
    rw [← Option.some.inj h]
    decide

/-- A request for the start page. -/
def startPage : WireRequest where
  method := "GET".toList
  uri := "/".toList
  version := "HTTP/1.1".toList
  headers := [keepAliveLine]
  method_space := by decide
  method_cr := by decide
  uri_space := by decide
  uri_cr := by decide
  version_cr := by decide

/-- The answer to it. -/
def startReply (files : ℕ → Text → Text) : Reply :=
  ⟨"200 OK".toList, files 0 "data/hello.html".toList⟩

theorem serve_startPage (files : ℕ → Text → Text) :
    ∃ c, Connection.run files {} [.received startPage.text, .sent (startReply files).head.length,
        .sent (startReply files).response.length] = some c ∧
      c.await = .receive ∧ c.pending = [] ∧ c.input = startPage.text ∧
      c.output = (startReply files).wire ∧ c.cutOff = false := by
  have hfits : startPage.text.length ≤ ({} : Connection).stream.region.len := by
    rw [room_initial]
    decide
  exact (session_initial files).serve_request rfl pending_initial hfits
    (y := startReply files) rfl (by decide)

/-! ## The requests that are answered -/

/-- The heads that are read are the first messages of the input, all but the last one ask for
another request to be read, and the answers are those to the requests with these heads. -/
theorem answers_first_heads (hrun : Connection.run files {} es = some c) :
    c.heads <+: messages sep c.input ∧ (∀ h ∈ c.heads.dropLast, staysOpen h = true) ∧
      c.replies = answers files c.heads ++ if c.ended then [errorReply] else [] := by
  have h := session_run hrun
  exact ⟨h.framed.prefix_messages (by decide), h.alive, h.answered⟩

/-- Every complete request is answered exactly if none is kept back. -/
theorem Session.heads_eq_iff (h : Session files c) :
    c.heads = messages sep c.input ↔ ¬ sep <:+: c.pending :=
  h.framed.eq_messages_iff (by decide)

theorem answers_first_heads_startPage : ∃ c,
    Connection.run (fun _ _ => "hello".toList) {} [.received startPage.text,
      .sent (startReply fun _ _ => "hello".toList).head.length,
      .sent (startReply fun _ _ => "hello".toList).response.length] = some c ∧
    c.input = startPage.text ∧ c.heads <+: messages sep c.input ∧
    (∀ h ∈ c.heads.dropLast, staysOpen h = true) ∧
    c.replies = answers (fun _ _ => "hello".toList) c.heads ++
      if c.ended then [errorReply] else [] := by
  obtain ⟨c, hrun, -, -, hinput, -, -⟩ := serve_startPage fun _ _ => "hello".toList
  exact ⟨c, hrun, hinput, answers_first_heads hrun⟩

/-! ## Handling a head -/

/-- What the coroutine does with the head it has found. -/
theorem Found.handle {data head rest : Text} (h : Found c data head rest) (f : Text → Text) :
    ∃ r b, readHttpRequest head = some r ∧
      b.buffer.length = c.stream.buffer.length - head.length ∧
      ((c.stored data).found head).handle f head =
        { (c.stored data).found head with
          stream := b
          ended := c.ended || head == [] }.respond f r := by
  obtain ⟨r, hr⟩ := Option.isSome_iff_exists.mp (readHttpRequest_isSome (.inr h.message))
  obtain ⟨b, -, -, -, hlen, hhandle⟩ := handle_spec (c := (c.stored data).found head)
    (f := f) hr h.pos h.length_le h.stop_le
  exact ⟨r, b, hr, hlen.trans (congrArg (· - head.length) h.buffer), hhandle⟩

theorem respond_cases (c : Connection) (f : Text → Text) (r : Request) :
    (∃ y, answer f r = some y ∧
      c.respond f r =
        { c with await := .sendHead y (keepAlive r) 0, replies := c.replies ++ [y] }) ∨
    c.respond f r = c.receive false ∨
    c.respond f r = { c with await := .finished } := by
  unfold Connection.respond
  cases hanswer : answer f r with
  | some y => exact .inl ⟨y, rfl, rfl⟩
  | none =>
    simp only [Connection.proceed]
    split
    · exact .inr (.inl rfl)
    · exact .inr (.inr rfl)

/-- What the coroutine does at the end of its input. -/
theorem ended_cases (h : Session files c) (hawait : c.await = .receive) (f : Text → Text) :
    (c.begun = false ∧ ∃ b, b.buffer.length = c.stream.buffer.length ∧
      c.handle f [] = { c with stream := b, ended := true }.respond f {}) ∨
    (c.begun = true ∧ c.handle f [] = { c with await := .undefined }) := by
  cases (hawait ▸ h.suspended : Suspended c .receive) with
  | waiting hbegun hidle hroom =>
    obtain ⟨b, -, -, -, hlen, hhandle⟩ := handle_spec (f := f)
      readHttpRequest_nil hidle.pos (Nat.zero_le _) h.stop_le
    refine .inl ⟨hbegun, b, hlen, ?_⟩
    rw [hhandle, BEq.rfl, Bool.or_true]
  | reading hbegun hpos hended halive hkept hroom =>
    exact .inr ⟨hbegun, handle_undefined hpos f⟩

/-! ## Undefined behaviour -/

theorem respond_await (c : Connection) (f : Text → Text) (r : Request) :
    (c.respond f r).await ≠ .undefined := by
  obtain ⟨y, -, h⟩ | h | h := respond_cases c f r
  all_goals simp [h, Connection.receive]

theorem undefined_step (h : Session files c) (hstep : c.step files e = some c') :
    c'.await = .undefined ↔ c.await = .receive ∧ c.begun = true ∧ e = .received [] := by
  cases Connection.step_cases h.stop_le hstep with
  | again hawait hne hfits hcut => simp [Connection.receive, hne]
  | ended hawait =>
    obtain ⟨hbegun, b, -, hhandle⟩ | ⟨hbegun, hhandle⟩ :=
      ended_cases h hawait (files c.heads.length)
    · simp [hhandle, respond_await, hbegun]
    · simp [hhandle, hbegun, hawait]
  | head hawait hne hfits hcut =>
    obtain ⟨r, b, -, -, hhandle⟩ := (h.found hne hfits hcut).handle (files c.heads.length)
    simp [hhandle, respond_await, hne]
  | sentHead hawait hn =>
    simp only [hawait]
    split <;> simp
  | sentBody hawait hn hmore => simp [hawait]
  | sentAll hawait hn hlast =>
    unfold Connection.proceed Connection.receive
    split <;> simp
  | failed hawait => simp

/-- The code of a connection has undefined behaviour exactly if the peer closes the connection when
`read_head` has received something that is not yet a head. This is about the connection's own code,
not about what the library does with its operations. -/
theorem undefined_iff (hrun : Connection.run files {} es = some c) :
    c.await = .undefined ↔
      ∃ es' c', es = es' ++ [.received []] ∧ Connection.run files {} es' = some c' ∧
        c'.await = .receive ∧ c'.begun = true := by
  constructor
  · intro hundefined
    rcases List.eq_nil_or_concat es with rfl | ⟨es', e, rfl⟩
    · obtain rfl := Option.some.inj hrun
      cases hundefined
    · rw [List.concat_eq_append] at hrun ⊢
      obtain ⟨c', hrun', hlast⟩ := (StepMachine.run_append_eq_some _).mp hrun
      obtain ⟨t, hstep, hnil⟩ := (StepMachine.run_cons_eq_some _).mp hlast
      obtain rfl := Option.some.inj hnil
      obtain ⟨hawait, hbegun, rfl⟩ := (undefined_step (session_run hrun') hstep).mp hundefined
      exact ⟨es', c', rfl, hrun', hawait, hbegun⟩
  · rintro ⟨es', c', rfl, hrun', hawait, hbegun⟩
    obtain ⟨t, hrun'', hlast⟩ := (StepMachine.run_append_eq_some _).mp hrun
    obtain rfl := Option.some.inj (hrun'.symm.trans hrun'')
    obtain ⟨t, hstep, hnil⟩ := (StepMachine.run_cons_eq_some _).mp hlast
    obtain rfl := Option.some.inj hnil
    exact (undefined_step (session_run hrun') hstep).mpr ⟨hawait, hbegun, rfl⟩

theorem undefined_iff_GE : ∃ c,
    Connection.run (fun _ _ => []) {} [.received "GE".toList, .received []] = some c ∧
      c.await = .undefined := by
  have hfits : "GE".toList.length ≤ ({} : Connection).stream.region.len := by
    rw [room_initial]
    decide
  have hcut : cut sep (({} : Connection).pending ++ "GE".toList) = none := by
    rw [pending_initial]
    decide
  have hrun' : Connection.run (fun _ _ => []) {} [.received "GE".toList] = some _ :=
    (StepMachine.run_cons_eq_some _).mpr ⟨_, Connection.step_of_part
      (session_initial fun _ _ => []).stop_le rfl (by decide) hfits hcut, rfl⟩
  have hrun : Connection.run (fun _ _ => []) {} ([.received "GE".toList] ++ [.received []]) =
      some _ := (StepMachine.run_append_eq_some _).mpr
    ⟨_, hrun', (StepMachine.run_cons_eq_some _).mpr ⟨_, Connection.step_of_end rfl, rfl⟩⟩
  exact ⟨_, hrun, (undefined_iff hrun).mpr ⟨_, _, rfl, hrun', rfl, rfl⟩⟩

/-! ## Starvation -/

/-- A head is read that takes up the whole vector. -/
def Fills (c c' : Connection) : Prop :=
  ∃ head, c'.heads = c.heads ++ [head] ∧ head.length = c.stream.buffer.length

theorem respond_buffer (c : Connection) (f : Text → Text) (r : Request) :
    (c.respond f r).stream.buffer = [] ↔ c.stream.buffer = [] := by
  obtain ⟨y, -, h⟩ | h | h := respond_cases c f r
  · rw [h]
  · rw [h, Connection.receive, BufferedStream.grow_eq_nil]
  · rw [h]

theorem respond_heads (c : Connection) (f : Text → Text) (r : Request) :
    (c.respond f r).heads = c.heads := by
  obtain ⟨y, -, h⟩ | h | h := respond_cases c f r
  all_goals rw [h]
  rfl

/-- A step that reads no head keeps the vector from becoming empty. -/
theorem not_fills (hheads : c'.heads = c.heads) : ¬ Fills c c' := by
  rintro ⟨head, heq, -⟩
  rw [hheads, List.self_eq_append_right] at heq
  cases heq

theorem buffer_iff_of_heads (hheads : c'.heads = c.heads)
    (hbuffer : c'.stream.buffer = [] ↔ c.stream.buffer = []) :
    c'.stream.buffer ≠ [] ↔ c.stream.buffer ≠ [] ∧ ¬ Fills c c' := by
  rw [ne_eq, hbuffer, and_iff_left (not_fills hheads)]

/-- The vector becomes empty when a head that fills it is removed. -/
theorem buffer_step (h : Session files c) (hstep : c.step files e = some c') :
    c'.stream.buffer ≠ [] ↔ c.stream.buffer ≠ [] ∧ ¬ Fills c c' := by
  cases Connection.step_cases h.stop_le hstep with
  | again hawait hne hfits hcut =>
    obtain ⟨-, -, hlen, -, -⟩ := BufferedStream.received_spec hne h.stop_le hfits
    refine buffer_iff_of_heads rfl ?_
    rw [Connection.receive, BufferedStream.grow_eq_nil, Connection.stored,
      ← List.length_eq_zero_iff, hlen, List.length_eq_zero_iff]
  | ended hawait =>
    obtain ⟨-, b, hlen, hhandle⟩ | ⟨-, hhandle⟩ := ended_cases h hawait (files c.heads.length)
    · refine buffer_iff_of_heads (by rw [hhandle, respond_heads]) ?_
      rw [hhandle, respond_buffer, ← List.length_eq_zero_iff, hlen, List.length_eq_zero_iff]
    · rw [hhandle]
      exact buffer_iff_of_heads rfl Iff.rfl
  | @head data head rest hawait hne hfits hcut =>
    have hfound := h.found hne hfits hcut
    obtain ⟨r, b, -, hlen, hhandle⟩ := hfound.handle (files c.heads.length)
    have hle := hfound.length_le.trans hfound.stop_le
    rw [hfound.buffer] at hle
    have hpos := List.length_pos_iff.mpr (hfound.message.ne_nil (by decide))
    have hheads : (((c.stored data).found head).handle (files c.heads.length) head).heads =
        c.heads ++ [head] := by
      rw [hhandle, respond_heads]
      rfl
    have hfills : Fills c (((c.stored data).found head).handle (files c.heads.length) head) ↔
        head.length = c.stream.buffer.length := by
      constructor
      · rintro ⟨head', heq, hlen'⟩
        rw [hheads, List.append_cancel_left_eq, List.singleton_inj] at heq
        exact heq ▸ hlen'
      · exact fun heq => ⟨head, hheads, heq⟩
    rw [hfills, hhandle, ne_eq, respond_buffer, ← List.length_eq_zero_iff, ne_eq,
      ← List.length_eq_zero_iff, hlen]
    omega
  | sentHead hawait hn => exact buffer_iff_of_heads rfl Iff.rfl
  | sentBody hawait hn hmore => exact buffer_iff_of_heads rfl Iff.rfl
  | @sentAll r again p n hawait hn hlast =>
    unfold Connection.proceed
    split
    · exact buffer_iff_of_heads rfl BufferedStream.grow_eq_nil
    · exact buffer_iff_of_heads rfl Iff.rfl
  | failed hawait => exact buffer_iff_of_heads rfl Iff.rfl

/-- A connection whose vector is empty reads no more heads. -/
theorem heads_of_starved (h : Session files c) (hnil : c.stream.buffer = [])
    (hstep : c.step files e = some c') : c'.heads = c.heads ∧ c'.stream.buffer = [] := by
  have hroom : c.stream.region.len = 0 := by
    show c.stream.buffer.length - c.stream.stop = 0
    rw [hnil, List.length_nil, Nat.zero_sub]
  have hbuffer : c'.stream.buffer = [] := by
    by_contra hne
    exact ((buffer_step h hstep).mp hne).1 hnil
  refine ⟨?_, hbuffer⟩
  cases Connection.step_cases h.stop_le hstep with
  | again hawait hne hfits hcut => rfl
  | ended hawait =>
    obtain ⟨-, b, -, hhandle⟩ | ⟨-, hhandle⟩ := ended_cases h hawait (files c.heads.length)
    · rw [hhandle, respond_heads]
    · rw [hhandle]
  | head hawait hne hfits hcut =>
    -- the region has no room for any data
    rw [hroom, Nat.le_zero, List.length_eq_zero_iff] at hfits
    exact absurd hfits hne
  | sentHead hawait hn => rfl
  | sentBody hawait hn hmore => rfl
  | sentAll hawait hn hlast =>
    unfold Connection.proceed
    split <;> rfl
  | failed hawait => rfl

/-- A receive is given no room exactly if a head has filled the vector before; from then on no
request is read, whatever the peer sends. -/
theorem starved_iff (hrun : Connection.run files {} es = some c) (hawait : c.await = .receive) :
    (c.stream.region.len = 0 ↔
      ∃ es₁ e es₂ c₁ c₂, es = es₁ ++ e :: es₂ ∧ Connection.run files {} es₁ = some c₁ ∧
        c₁.step files e = some c₂ ∧ Fills c₁ c₂) ∧
      (c.stream.region.len = 0 → ∀ es' c', Connection.run files c es' = some c' →
        c'.heads = c.heads) := by
  have h := session_run hrun
  have hroom : c.stream.region.len = 0 ↔ c.stream.buffer = [] := by
    constructor
    · cases (hawait ▸ h.suspended : Suspended c .receive) with
      | waiting hbegun hidle hroom => exact hroom
      | reading hbegun hpos hended halive hkept hroom => exact hroom
    · intro hnil
      show c.stream.buffer.length - c.stream.stop = 0
      rw [hnil, List.length_nil, Nat.zero_sub]
  have hexact := StepMachine.state_iff_stepsAll (Connection.step files)
    (I := Session files) (P := fun c => c.stream.buffer ≠ []) (Q := fun c _ c' => ¬ Fills c c')
    (fun _ _ _ h hstep => h.step hstep) (fun _ _ _ h hstep => buffer_step h hstep)
    (session_initial files) hrun
  have hinitial : ({} : Connection).stream.buffer ≠ [] := List.cons_ne_nil _ _
  refine ⟨?_, fun hzero es' c' hrun' => ?_⟩
  · rw [hroom]
    constructor
    · intro hnil
      have hfails : ¬ StepMachine.StepsAll (Connection.step files) (fun c _ c' => ¬ Fills c c') {} es :=
        fun hall => hexact.mpr ⟨hinitial, hall⟩ hnil
      obtain ⟨es₁, e, es₂, c₁, c₂, heq, hrun₁, hstep, hfills⟩ :=
        (StepMachine.not_stepsAll_iff _).mp hfails
      exact ⟨es₁, e, es₂, c₁, c₂, heq, hrun₁, hstep, not_not.mp hfills⟩
    · rintro ⟨es₁, e, es₂, c₁, c₂, heq, hrun₁, hstep, hfills⟩
      by_contra hne
      exact (StepMachine.not_stepsAll_iff _).mpr
        ⟨es₁, e, es₂, c₁, c₂, heq, hrun₁, hstep, not_not.mpr hfills⟩ (hexact.mp hne).2
  · have hkept : c'.heads = c.heads ∧ Session files c' ∧ c'.stream.buffer = [] := by
      refine StepMachine.run_invariant (Connection.step files)
        (I := fun x => x.heads = c.heads ∧ Session files x ∧ x.stream.buffer = []) ?_
        ⟨rfl, h, hroom.mp hzero⟩ hrun'
      intro x e y hx hstep
      obtain ⟨hheads, hsession, hnil⟩ := hx
      obtain ⟨hheads', hnil'⟩ := heads_of_starved hsession hnil hstep
      exact ⟨hheads'.trans hheads, hsession.step hstep, hnil'⟩
    exact hkept.1

/-- A header that takes up room. -/
def paddingLine (n : ℕ) : HeaderLine where
  key := "Padding".toList
  blanks := []
  value := List.replicate n 'x'
  key_colon := by decide
  key_cr := by decide
  blank := by simp
  value_cr h := absurd (List.eq_of_mem_replicate h) (by decide)
  value_head c h := by
    rw [List.eq_of_mem_replicate (List.mem_of_head? h)]
    decide

/-- A request that is not answered, after which another one is read. -/
def post (n : ℕ) : WireRequest where
  method := "POST".toList
  uri := "/".toList
  version := "HTTP/1.1".toList
  headers := [keepAliveLine, paddingLine n]
  method_space := by decide
  method_cr := by decide
  uri_space := by decide
  uri_cr := by decide
  version_cr := by decide

theorem length_post (n : ℕ) : (post n).text.length = n + 53 := by
  have hline : (post n).line.length = 15 := rfl
  have hkeep : keepAliveLine.text.length = 22 := rfl
  have hpadding : (paddingLine n).text.length = n + 8 := by
    simp only [HeaderLine.text, paddingLine, List.nil_append, List.length_append, List.length_cons,
      List.length_replicate]
    rw [show "Padding".toList.length = 7 from rfl]
    omega
  have hheaders : (post n).headers = [keepAliveLine, paddingLine n] := rfl
  simp only [WireRequest.text, hheaders, List.map_cons, List.map_nil, List.flatMap_cons,
    List.flatMap_nil, List.length_append, hline, hkeep, hpadding, List.length_nil]
  rw [show crlf.length = 2 from rfl]
  omega

theorem keepAlive_post (n : ℕ) : keepAlive (post n).request = true := by
  have hne : "Connection".toList ≠ (paddingLine n).key := by
    rw [show (paddingLine n).key = "Padding".toList from rfl]
    decide
  have hkey : (post n).request.headers "Connection".toList = some keepAliveLine.value := by
    have hheaders : (post n).request.headers =
        HeaderLine.assign (HeaderLine.assign (fun _ => none) keepAliveLine) (paddingLine n) := rfl
    rw [hheaders, HeaderLine.assign, Function.update_of_ne hne, HeaderLine.assign]
    exact Function.update_self _ _ _
  have hmethod : (post n).request.method = "POST".toList := rfl
  rw [keepAlive, hkey, hmethod]
  decide

theorem starved_iff_post : ∃ c,
    Connection.run (fun _ _ => []) {} [.received (post 971).text] = some c ∧
      c.stream.region.len = 0 ∧
      ∀ es c', Connection.run (fun _ _ => []) c es = some c' → c'.heads = [(post 971).text] := by
  have hlen := length_post 971
  obtain ⟨b, -, hbuffer, hstep⟩ := (session_initial fun _ _ => []).receive_request rfl
    pending_initial (r := post 971) (by rw [room_initial, hlen])
  have hanswer : answer (fun _ => []) (post 971).request = none := rfl
  rw [Connection.respond, hanswer, keepAlive_post] at hstep
  have hrun := (StepMachine.run_cons_eq_some _).mpr ⟨_, hstep, StepMachine.run_nil _ _⟩
  have hroom : (b.grow).region.len = 0 := by
    have hnil : b.buffer = [] := by
      rw [← List.length_eq_zero_iff, hbuffer, hlen]
      simp only [List.length_replicate, Nat.reduceAdd, Nat.sub_self]
    show b.grow.buffer.length - b.grow.stop = 0
    rw [BufferedStream.grow_eq_nil.mpr hnil, List.length_nil, Nat.zero_sub]
  exact ⟨_, hrun, hroom, fun es c' hrun' => (starved_iff hrun rfl).2 hroom es c' hrun'⟩

/-! ## The responses -/

/-- What is still to be sent of the response that is being written. -/
def unsent : Await → Text
  | .sendHead r _ p => r.head.drop p ++ r.response
  | .sendBody r _ p => r.response.drop p
  | .receive | .finished | .undefined => []

/-- What was sent of the responses. -/
structure Sent (c : Connection) : Prop where
  part : c.output <+: c.replies.flatMap Reply.wire
  complete : c.cutOff = false → c.output ++ unsent c.await = c.replies.flatMap Reply.wire

theorem Sent.of_eq (h : Sent c) (houtput : c'.output = c.output) (hcut : c'.cutOff = c.cutOff)
    (hreplies : c'.replies = c.replies) (hunsent : unsent c'.await = unsent c.await) : Sent c' where
  part := by
    rw [houtput, hreplies]
    exact h.part
  complete hcomplete := by
    rw [houtput, hreplies, hunsent]
    exact h.complete (hcut ▸ hcomplete)

/-- A response is begun, or none is written. -/
theorem Sent.respond (h : Sent c) (hawait : c.await = .receive) {x : Connection}
    (houtput : x.output = c.output) (hcut : x.cutOff = c.cutOff) (hreplies : x.replies = c.replies)
    (f : Text → Text) (r : Request) : Sent (x.respond f r) := by
  have hnil : unsent c.await = [] := by rw [hawait, unsent]
  obtain ⟨y, -, hrespond⟩ | hrespond | hrespond := respond_cases x f r
  · rw [hrespond]
    constructor
    · show x.output <+: (x.replies ++ [y]).flatMap Reply.wire
      rw [houtput, hreplies, List.flatMap_append]
      exact h.part.trans (List.prefix_append _ _)
    · intro hcomplete
      have hall := h.complete (hcut ▸ hcomplete)
      rw [hnil, List.append_nil] at hall
      show x.output ++ (y.head.drop 0 ++ y.response) = (x.replies ++ [y]).flatMap Reply.wire
      rw [houtput, hreplies, List.flatMap_append, ← hall, List.flatMap_singleton, List.drop_zero,
        Reply.wire]
  · exact h.of_eq (by rw [hrespond]; exact houtput) (by rw [hrespond]; exact hcut)
      (by rw [hrespond]; exact hreplies) (by rw [hrespond, hnil]; rfl)
  · exact h.of_eq (by rw [hrespond]; exact houtput) (by rw [hrespond]; exact hcut)
      (by rw [hrespond]; exact hreplies) (by rw [hrespond, hnil]; rfl)

/-- A send transfers a part of what is unsent, and nothing once the peer is gone. -/
theorem Sent.transfer (h : Sent c) {text t : Text} {p n : ℕ}
    (hunsent : unsent c.await = text.drop p ++ t) (hn : n ≤ text.length - p)
    (hgone : c.cutOff = true → n = 0) (houtput : c'.output = (c.transfer text p n).output)
    (hcut : c'.cutOff = (c.transfer text p n).cutOff) (hreplies : c'.replies = c.replies)
    (hunsent' : unsent c'.await =
      if Connection.SendsMore text p n then text.drop (p + n) ++ t else t) : Sent c' := by
  have hload : c'.output = c.output ++ (text.drop p).take n := by
    rw [houtput, Connection.transfer, Iovec.load, List.take_take, Nat.min_eq_left hn]
  cases hcutOff : c.cutOff with
  | true =>
    have hcut' : c'.cutOff = true := by rw [hcut, Connection.transfer, hcutOff, Bool.true_or]
    refine ⟨?_, fun hfalse => ?_⟩
    · rw [hload, hgone hcutOff, List.take_zero, List.append_nil, hreplies]
      exact h.part
    · rw [hcut'] at hfalse
      cases hfalse
  | false =>
    have hall := h.complete hcutOff
    rw [hunsent] at hall
    refine ⟨?_, fun hcomplete => ?_⟩
    · rw [hload, hreplies, ← hall, List.prefix_append_right_inj]
      exact (List.take_prefix n _).trans (List.prefix_append _ _)
    · rw [hload, hreplies, ← hall, hunsent', List.append_assoc, List.append_cancel_left_eq]
      split
      next hmore =>
        rw [← List.append_assoc, ← List.drop_drop, List.take_append_drop]
      next hlast =>
        rw [List.append_cancel_right_eq]
        apply List.take_of_length_le
        -- all was sent, or there was nothing to send
        rw [hcut, Connection.transfer, hcutOff, Bool.false_or] at hcomplete
        simp only [Connection.SendsMore, not_and_or, not_lt, not_not] at hlast
        rw [List.length_drop]
        rcases hlast with hzero | hend
        · simp only [Nat.le_zero.mp hzero, BEq.rfl, Bool.true_and, bne_eq_false_iff_eq] at hcomplete
          omega
        · omega

theorem Sent.step (h : Sent c) (hs : Session files c) (hstep : c.step files e = some c')
    (hgone : c.cutOff = true → ∀ n, e = .sent n → n = 0) : Sent c' := by
  cases Connection.step_cases hs.stop_le hstep with
  | again hawait hne hfits hcut => exact h.of_eq rfl rfl rfl (by rw [hawait]; rfl)
  | ended hawait =>
    obtain ⟨-, b, -, hhandle⟩ | ⟨-, hhandle⟩ := ended_cases hs hawait (files c.heads.length)
    · rw [hhandle]
      refine h.respond hawait ?_ ?_ ?_ _ _
      all_goals rfl
    · rw [hhandle]
      exact h.of_eq rfl rfl rfl (by rw [hawait]; rfl)
  | head hawait hne hfits hcut =>
    obtain ⟨r, b, -, -, hhandle⟩ := (hs.found hne hfits hcut).handle (files c.heads.length)
    rw [hhandle]
    refine h.respond hawait ?_ ?_ ?_ _ _
    all_goals rfl
  | sentHead hawait hn =>
    refine h.transfer (by rw [hawait]; rfl) hn (fun hc => hgone hc _ rfl) rfl rfl rfl ?_
    simp only
    split <;> rfl
  | sentBody hawait hn hmore =>
    refine h.transfer (t := []) (by rw [hawait, List.append_nil]; rfl) hn
      (fun hc => hgone hc _ rfl) rfl rfl rfl ?_
    rw [if_pos hmore, List.append_nil]
    rfl
  | sentAll hawait hn hlast =>
    refine h.transfer (t := []) (by rw [hawait, List.append_nil]; rfl) hn
      (fun hc => hgone hc _ rfl) ?_ ?_ ?_ ?_
    · unfold Connection.proceed
      split <;> rfl
    · unfold Connection.proceed
      split <;> rfl
    · unfold Connection.proceed
      split <;> rfl
    · rw [if_neg hlast]
      unfold Connection.proceed
      split <;> rfl
  | failed hawait =>
    refine ⟨h.part, fun hcomplete => ?_⟩
    cases hcomplete

/-- Once a send has transferred nothing, the peer is gone and no send transfers anything. -/
def StaysGone (c : Connection) (e : Event) (_ : Connection) : Prop :=
  c.cutOff = true → ∀ n, e = .sent n → n = 0

/-- A connection that was cut off stays so. -/
theorem cutOff_step (h : Session files c) (hstep : c.step files e = some c')
    (hcut : c.cutOff = true) : c'.cutOff = true := by
  have hrespond : ∀ (x : Connection) f r, (x.respond f r).cutOff = x.cutOff := by
    intro x f r
    obtain ⟨y, -, h⟩ | h | h := respond_cases x f r
    all_goals rw [h]
    rfl
  cases Connection.step_cases h.stop_le hstep with
  | again hawait hne hfits hcut' => exact hcut
  | ended hawait =>
    obtain ⟨-, b, -, hhandle⟩ | ⟨-, hhandle⟩ := ended_cases h hawait (files c.heads.length)
    · rw [hhandle, hrespond]
      exact hcut
    · rw [hhandle]
      exact hcut
  | head hawait hne hfits hcut' =>
    obtain ⟨r, b, -, -, hhandle⟩ := (h.found hne hfits hcut').handle (files c.heads.length)
    rw [hhandle, hrespond]
    exact hcut
  | sentHead hawait hn => simp [Connection.transfer, hcut]
  | sentBody hawait hn hmore => simp [Connection.transfer, hcut]
  | sentAll hawait hn hlast =>
    unfold Connection.proceed
    split <;> simp [Connection.receive, Connection.transfer, hcut]
  | failed hawait => rfl

theorem sent_run (hrun : Connection.run files {} es = some c)
    (hgone : StepMachine.StepsAll (Connection.step files) StaysGone {} es) : Sent c := by
  have h : Session files c ∧ Sent c := by
    refine StepMachine.run_invariant_of_stepsAll (Connection.step files)
      (I := fun c => Session files c ∧ Sent c) ?_ ⟨session_initial files, ?_⟩ hrun hgone
    · intro c e c' h hstep hgone
      exact ⟨h.1.step hstep, h.2.step h.1 hstep hgone⟩
    · exact ⟨List.prefix_refl _, fun _ => rfl⟩
  exact h.2

/-- The client receives the beginning of the responses, and all but what is still to be sent of the
last one if the connection was not cut off. -/
theorem output_prefix (hrun : Connection.run files {} es = some c)
    (hgone : StepMachine.StepsAll (Connection.step files) StaysGone {} es) :
    c.output <+: c.replies.flatMap Reply.wire ∧
      (c.cutOff = false → c.output ++ unsent c.await = c.replies.flatMap Reply.wire) := by
  have hsent := sent_run hrun hgone
  exact ⟨hsent.part, hsent.complete⟩

/-- The sends of a connection that was not cut off have transferred what they had to. -/
theorem staysGone_of_cutOff (hrun : Connection.run files {} es = some c) (hcut : c.cutOff = false) :
    StepMachine.StepsAll (Connection.step files) StaysGone {} es := by
  by_contra hnot
  obtain ⟨es₁, e, es₂, c₁, c₂, rfl, hrun₁, hstep, hfails⟩ :=
    (StepMachine.not_stepsAll_iff _).mp hnot
  have hgone : c₁.cutOff = true := by
    by_contra hno
    exact hfails fun h => absurd h hno
  obtain ⟨c', hrun₁', hrest⟩ := (StepMachine.run_append_eq_some _).mp hrun
  obtain rfl := Option.some.inj (hrun₁.symm.trans hrun₁')
  have hkept : Session files c ∧ c.cutOff = true := by
    refine StepMachine.run_invariant (Connection.step files)
      (I := fun x => Session files x ∧ x.cutOff = true) ?_ ⟨session_run hrun₁, hgone⟩ hrest
    intro x e y hx hstep
    exact ⟨hx.1.step hstep, cutOff_step hx.1 hstep hx.2⟩
  rw [hcut] at hkept
  cases hkept.2

theorem output_prefix_startPage : ∃ c,
    Connection.run (fun _ _ => "hello".toList) {} [.received startPage.text,
      .sent (startReply fun _ _ => "hello".toList).head.length,
      .sent (startReply fun _ _ => "hello".toList).response.length] = some c ∧
    c.output = (startReply fun _ _ => "hello".toList).wire ∧
    c.output <+: c.replies.flatMap Reply.wire ∧
    (c.cutOff = false → c.output ++ unsent c.await = c.replies.flatMap Reply.wire) := by
  obtain ⟨c, hrun, -, -, -, houtput, hcut⟩ := serve_startPage fun _ _ => "hello".toList
  exact ⟨c, hrun, houtput, output_prefix hrun (staysGone_of_cutOff hrun hcut)⟩

/-! ## Requests that are kept back -/

/-- The receive brings something. -/
def Event.brings : Event → Bool
  | .received data => data != []
  | .sent _ | .failed => false

theorem heads_length_step (h : Session files c) (hstep : c.step files e = some c') :
    c'.heads.length ≤ c.heads.length + if e.brings then 1 else 0 := by
  cases Connection.step_cases h.stop_le hstep with
  | again hawait hne hfits hcut => exact Nat.le_add_right _ _
  | ended hawait =>
    obtain ⟨-, b, -, hhandle⟩ | ⟨-, hhandle⟩ := ended_cases h hawait (files c.heads.length)
    · rw [hhandle, respond_heads]
      exact Nat.le_add_right _ _
    · rw [hhandle]
      exact Nat.le_add_right _ _
  | head hawait hne hfits hcut =>
    obtain ⟨r, b, -, -, hhandle⟩ := (h.found hne hfits hcut).handle (files c.heads.length)
    rw [hhandle, respond_heads]
    simp [Connection.found, Connection.stored, Event.brings, hne]
  | sentHead hawait hn => exact Nat.le_add_right _ _
  | sentBody hawait hn hmore => exact Nat.le_add_right _ _
  | sentAll hawait hn hlast =>
    unfold Connection.proceed
    split <;> exact Nat.le_add_right _ _
  | failed hawait => exact Nat.le_add_right _ _

theorem heads_length_run {x : Connection} (h : Session files x)
    (hrun : Connection.run files x es = some c) :
    c.heads.length ≤ x.heads.length + es.countP Event.brings := by
  induction es generalizing x with
  | nil =>
    obtain rfl := Option.some.inj hrun
    exact Nat.le_add_right _ _
  | cons e es ih =>
    obtain ⟨y, hstep, hrest⟩ := (StepMachine.run_cons_eq_some _).mp hrun
    have hle := heads_length_step h hstep
    have hle' := ih (h.step hstep) hrest
    rw [List.countP_cons]
    omega

/-- Every request that is answered takes a receive of its own: requests that arrive together are
answered one by one as more data arrives. -/
theorem answers_le_receives (hrun : Connection.run files {} es = some c) :
    c.heads.length ≤ es.countP Event.brings := by
  simpa using heads_length_run (session_initial files) hrun

theorem answers_le_receives_startPage : ∃ c,
    Connection.run (fun _ _ => []) {} [.received startPage.text,
      .sent (startReply fun _ _ => []).head.length,
      .sent (startReply fun _ _ => []).response.length] = some c ∧ c.heads.length ≤ 1 := by
  obtain ⟨c, hrun, -⟩ := serve_startPage fun _ _ => []
  exact ⟨c, hrun, answers_le_receives hrun⟩

/-- What is kept does not depend on the response. -/
theorem respond_pending (c : Connection) (f : Text → Text) (r : Request) :
    (c.respond f r).pending = c.pending := by
  obtain ⟨y, -, h⟩ | h | h := respond_cases c f r
  all_goals rw [h]
  · rfl
  · exact BufferedStream.grow_pending _
  · rfl

/-- A receive that completes a head brings no complete request behind it. -/
def TakesTurns (c : Connection) (e : Event) (_ : Connection) : Prop :=
  ∀ data, e = .received data → ∀ head rest, cut sep (c.pending ++ data) = some (head, rest) →
    ¬ sep <:+: rest

/-- What is kept after a step. -/
theorem pending_step (h : Session files c) (hkept : ¬ sep <:+: c.pending)
    (hstep : c.step files e = some c') : ¬ sep <:+: c'.pending ↔ TakesTurns c e c' := by
  have hsame : c'.pending = c.pending → (∀ data, e ≠ .received data) →
      (¬ sep <:+: c'.pending ↔ TakesTurns c e c') := by
    intro heq hreceived
    rw [heq]
    exact ⟨fun _ data he => absurd he (hreceived data), fun _ => hkept⟩
  have hproceed : ∀ (x : Connection) b, (x.proceed b).pending = x.pending := by
    intro x b
    unfold Connection.proceed
    split
    · exact BufferedStream.grow_pending _
    · rfl
  cases Connection.step_cases h.stop_le hstep with
  | again hawait hne hfits hcut =>
    have hpending : ((c.stored _).receive true).pending = c.pending ++ _ :=
      (BufferedStream.grow_pending _).trans
        (BufferedStream.received_spec hne h.stop_le hfits).1
    rw [hpending]
    refine ⟨fun _ data he head rest hhead => ?_, fun _ => (cut_eq_none_iff (by decide)).mp hcut⟩
    obtain rfl := Event.received.inj he
    rw [hcut] at hhead
    cases hhead
  | ended hawait =>
    have hnone : cut sep (c.pending ++ []) = none := by
      rw [List.append_nil]
      exact (cut_eq_none_iff (by decide)).mpr hkept
    have hpending : (c.handle (files c.heads.length) []).pending = c.pending := by
      cases (hawait ▸ h.suspended : Suspended c .receive) with
      | waiting hbegun hidle hroom =>
        obtain ⟨b, hb, -, -, -, hhandle⟩ := handle_spec (f := files c.heads.length)
          readHttpRequest_nil hidle.pos (Nat.zero_le _) h.stop_le
        rw [hhandle, respond_pending]
        exact hb.trans (List.drop_zero)
      | reading hbegun hpos hended halive hkept hroom =>
        rw [handle_undefined hpos]
        rfl
    rw [hpending]
    refine ⟨fun _ data he head rest hhead => ?_, fun _ => hkept⟩
    obtain rfl := Event.received.inj he
    rw [hnone] at hhead
    cases hhead
  | @head data head rest hawait hne hfits hcut =>
    have hfound := h.found hne hfits hcut
    obtain ⟨r, hr⟩ := Option.isSome_iff_exists.mp (readHttpRequest_isSome (.inr hfound.message))
    obtain ⟨b, hb, -, -, -, hhandle⟩ := handle_spec (c := (c.stored data).found head)
      (f := files c.heads.length) hr hfound.pos hfound.length_le hfound.stop_le
    have hrest : b.pending = rest := by
      rw [hb]
      show (c.stream.received data).1.pending.drop head.length = rest
      rw [hfound.pending, List.drop_left]
    rw [hhandle, respond_pending]
    show ¬ sep <:+: b.pending ↔ _
    rw [hrest]
    constructor
    · intro hno data' he head' rest' hhead'
      obtain rfl := Event.received.inj he
      rw [hcut] at hhead'
      cases hhead'
      exact hno
    · intro hturns
      exact hturns data rfl head rest hcut
  | sentHead hawait hn => exact hsame rfl (by simp)
  | sentBody hawait hn hmore => exact hsame rfl (by simp)
  | sentAll hawait hn hlast => exact hsame (hproceed _ _) (by simp)
  | failed hawait => exact hsame rfl (by simp)

/-- Every complete request has been answered in every state exactly if the client takes turns: it
sends no complete request with the end of another one. -/
theorem prompt_iff (files : ℕ → Text → Text) (es : List Event) :
    StepMachine.StepsAll (Connection.step files)
        (fun _ _ c' => c'.heads = messages sep c'.input) {} es ↔
      StepMachine.StepsAll (Connection.step files) TakesTurns {} es := by
  rw [← StepMachine.statesAll_iff_stepsAll (Connection.step files) (I := Session files)
    (P := fun c => ¬ sep <:+: c.pending) (Q := TakesTurns)
    (fun _ _ _ h hstep => h.step hstep) (fun _ _ _ h hkept hstep => pending_step h hkept hstep)
    es (session_initial files) (by decide)]
  exact StepMachine.stepsAll_iff (Connection.step files) (fun _ _ _ h hstep => h.step hstep)
    (fun _ _ _ h hstep => (h.step hstep).heads_eq_iff) es (session_initial files)

/-! ## What a client gets -/

/-- The answers to requests that a client writes. -/
def expected (files : ℕ → Text → Text) (rs : List WireRequest) : List Reply :=
  rs.zipIdx.filterMap fun x => answer (files x.2) x.1.request

theorem framed_text (rs : List WireRequest) :
    Framed sep (rs.flatMap WireRequest.text) (rs.map WireRequest.text) [] where
  stream := by rw [List.append_nil, List.flatMap_def]
  taken m hm := by
    obtain ⟨r, -, rfl⟩ := List.mem_map.mp hm
    exact isMessage_text r

theorem messages_text (rs : List WireRequest) :
    messages sep (rs.flatMap WireRequest.text) = rs.map WireRequest.text :=
  ((framed_text rs).eq_messages_iff (by decide)).mpr (by decide) |>.symm

/-- **Round trip**: the requests that a client writes one after the other are found and read again,
the first ones of them if a part of the bytes has arrived. -/
theorem requests_round_trip (rs : List WireRequest) :
    (messages sep (rs.flatMap WireRequest.text)).map readHttpRequest =
        rs.map (fun r => some r.request) ∧
      ∀ xs, xs <+: rs.flatMap WireRequest.text →
        (messages sep xs).map readHttpRequest <+: rs.map fun r => some r.request := by
  have hall : (messages sep (rs.flatMap WireRequest.text)).map readHttpRequest =
      rs.map (fun r => some r.request) := by
    rw [messages_text, List.map_map]
    exact List.map_congr_left fun r _ => readHttpRequest_text r
  refine ⟨hall, ?_⟩
  intro xs hxs
  obtain ⟨ys, hys⟩ := hxs
  rw [← hall, ← hys]
  exact (Framed.messages_prefix (by decide) xs ys).map _

theorem answers_text (files : ℕ → Text → Text) (rs : List WireRequest) :
    answers files (rs.map WireRequest.text) = expected files rs := by
  rw [answers, expected, List.zipIdx_map, List.filterMap_map]
  apply List.filterMap_congr
  intro x hx
  simp only [Function.comp_apply, Prod.map, id, reply, readHttpRequest_text, Option.bind_some]

theorem message_of_reply (hrun : Connection.run files {} es = some c) :
    ∀ y ∈ c.replies, '\r' ∉ y.message := by
  intro y hy
  rw [(session_run hrun).answered, List.mem_append] at hy
  rcases hy with hy | hy
  · obtain ⟨x, -, hreply⟩ := List.mem_filterMap.mp hy
    obtain ⟨r, -, hanswer⟩ := Option.bind_eq_some_iff.mp hreply
    exact answer_message hanswer
  · split at hy
    · rw [List.mem_singleton.mp hy]
      show '\r' ∉ String.toList _
      decide
    · cases hy

/-- A client that writes requests, in whatever pieces they arrive, and reads the bytes that come
back, in whatever pieces they are sent, reads the answers to the first requests in their order. It
gets those to all requests if all of them have arrived and the coroutine waits with no head kept
back. -/
theorem client_session {rs : List WireRequest} (hrun : Connection.run files {} es = some c)
    (hgone : StepMachine.StepsAll (Connection.step files) StaysGone {} es)
    (hinput : c.input <+: rs.flatMap WireRequest.text) :
    ∃ k ≤ rs.length,
      readResponses c.output <+:
        expected files (rs.take k) ++ (if c.ended then [errorReply] else []) ∧
      (c.await = .receive → c.cutOff = false → ¬ sep <:+: c.pending →
        c.input = rs.flatMap WireRequest.text → readResponses c.output = expected files rs) := by
  have h := session_run hrun
  obtain ⟨hpart, hcomplete⟩ := sent_run hrun hgone
  have hread := readResponses_prefix (message_of_reply hrun) hpart
  obtain ⟨tail, htail⟩ := hinput
  have hheads : c.heads <+: rs.map WireRequest.text := by
    rw [← messages_text, ← htail]
    exact (h.framed.feed tail).prefix_messages (by decide)
  have htaken : c.heads = (rs.take c.heads.length).map WireRequest.text := by
    rw [List.map_take]
    exact List.prefix_iff_eq_take.mp hheads
  have hreplies : c.replies =
      expected files (rs.take c.heads.length) ++ if c.ended then [errorReply] else [] := by
    rw [h.answered, ← answers_text, ← htaken]
  refine ⟨c.heads.length, by simpa using hheads.length_le, hreplies ▸ hread.1, ?_⟩
  intro hawait hcut hkept hall
  have hmessages : c.heads = rs.map WireRequest.text := by
    rw [h.heads_eq_iff.mpr hkept, hall, messages_text]
  have hsent := hcomplete hcut
  rw [hawait, unsent, List.append_nil] at hsent
  rw [hread.2 hsent, h.answered, (hawait ▸ h.suspended : Suspended c .receive).open.1, hmessages,
    answers_text]
  exact List.append_nil _

theorem client_session_startPage : ∃ c,
    Connection.run (fun _ _ => "hello".toList) {} [.received startPage.text,
      .sent (startReply fun _ _ => "hello".toList).head.length,
      .sent (startReply fun _ _ => "hello".toList).response.length] = some c ∧
    readResponses c.output = expected (fun _ _ => "hello".toList) [startPage] := by
  obtain ⟨c, hrun, hawait, hpending, hinput, -, hcut⟩ := serve_startPage fun _ _ => "hello".toList
  have hall : c.input = [startPage].flatMap WireRequest.text := by
    rw [hinput, List.flatMap_singleton]
  have hfirst : c.input <+: [startPage].flatMap WireRequest.text := by rw [hall]
  obtain ⟨k, -, -, hread⟩ := client_session hrun (staysGone_of_cutOff hrun hcut) hfirst
  refine ⟨c, hrun, hread hawait hcut ?_ hall⟩
  rw [hpending]
  decide

end Http

end Stdnet
