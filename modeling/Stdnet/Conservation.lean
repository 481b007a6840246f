import Mathlib.Algebra.Group.Basic
import Mathlib.Algebra.BigOperators.Group.List.Basic
import Stdnet.LibeventRuns

/-!
# Conservation of Connections and Bytes

What an accept, a receive or a send on the libevent context tells its receiver is what its system
calls returned: no accepted connection and no transferred byte is lost or reported twice.

## Main results

- `Balanced.conserved`: what a balanced account says about the calls of an accept, receive or send.
- `Reachable.delivers`: when an accept signals its socket, the table has the accepted handle under
  the id.
- `conservation`: the two together, with the equality of the totals.
-/

namespace Stdnet

open History

/-! ## Results of the loops -/

/-- The result of a call that succeeded. -/
def SysResult.ok? : SysResult → Option ℕ
  | .ok n => some n
  | .fail _ => none

/-- The count or handle that an operation ended with. -/
def WorkEnd.value? : WorkEnd → Option ℕ
  | .value n => some n
  | .closed | .error _ | .wouldBlock => none

/-- The results of the successful calls that `_Work` made. -/
def History.successes (h : History) : List ℕ :=
  (calls h).filterMap SysResult.ok?

variable {d : Desc} {switch : ℤ → Option WorkEnd} {h : History}

theorem settle_eq_some {x : Option WorkEnd} {w : WorkEnd} :
    settle x = some w ↔ x = some w ∧ w ≠ .wouldBlock := by
  constructor
  · intro hx
    cases x with
    | none => cases hx
    | some v => cases v <;> cases hx <;> exact ⟨rfl, nofun⟩
  · rintro ⟨rfl, hw⟩
    exact settle_some hw

/-- A loop is settled by its calls, and by the failure of `event_new`. -/
theorem mem_findings (hd : d.loop? = some switch) {w : WorkEnd} :
    w ∈ findings d h ↔
      (∃ env n e, .submitted env n ∈ h ∧ env.eventNew = some e ∧ w = .error ⟨e, .libevent⟩) ∨
        ∃ r ∈ calls h, verdict switch r = some w ∧ w ≠ .wouldBlock := by
  simp only [findings, List.mem_filterMap]
  constructor
  · rintro ⟨ev, hmem, hw⟩
    cases ev with
    | called n r =>
      rw [decides_called hd, settle_eq_some] at hw
      exact .inr ⟨r, mem_calls.mpr ⟨n, hmem⟩, hw⟩
    -- a submission settles only by the failure of `event_new`
    | submitted env n =>
      left
      cases d <;> simp only [Desc.loop?, reduceCtorEq] at hd <;>
        simp only [Desc.decides, Desc.submitEnd, Option.map_eq_some_iff] at hw <;>
        (obtain ⟨e, he, rfl⟩ := hw
         exact ⟨env, n, e, hmem, he, rfl⟩)
    -- these settle a connect or a timer, which are no loops
    | soError v | worked b => cases d <;> cases hd <;> cases hw
    | ran | emplaced | refused | dispatched | stray | signalled => cases hw
  · rintro (⟨env, n, e, hmem, he, rfl⟩ | ⟨r, hr, hw⟩)
    · refine ⟨_, hmem, ?_⟩
      cases d <;> cases hd <;> simp [Desc.submitEnd, he]
    · obtain ⟨n, hn⟩ := mem_calls.mp hr
      exact ⟨_, hn, by rw [decides_called hd, settle_eq_some]; exact hw⟩

/-- The successful calls of a loop are the values among its findings. -/
theorem successes_eq (hd : d.loop? = some switch) :
    successes h = (findings d h).filterMap WorkEnd.value? := by
  -- no `errno` stands for a value
  have hswitch : ∀ e, (settle (switch e)).toList.filterMap WorkEnd.value? = [] := by
    intro e
    cases d <;> simp only [Desc.loop?, Option.some.injEq, reduceCtorEq] at hd <;> subst hd
    · simp only [acceptSwitch]
      split_ifs <;> rfl
    all_goals
      simp only [transferSwitch]
      split_ifs <;> rfl
  -- each entry contributes the same value on both sides
  induction h with
  | nil => rfl
  | cons ev h ih =>
    rw [successes] at ih ⊢
    rw [calls_cons, findings_cons, List.filterMap_append, List.filterMap_append, ih]
    congr 1
    cases ev with
    | called n r =>
      rw [decides_called hd]
      cases r with
      | ok rc => rfl
      | fail e => exact (hswitch e).symm
    | submitted env n =>
      cases d <;> cases hd <;>
        (cases hnew : env.eventNew <;> simp [Desc.submitEnd, hnew, WorkEnd.value?])
    | soError v | worked b => cases d <;> cases hd <;> rfl
    | ran | emplaced | refused | dispatched | stray | signalled => rfl

/-! ## What a verdict says about the call -/

theorem acceptSwitch_eq_error {errno : ℤ} {e : ErrorCode} :
    acceptSwitch errno = some (.error e) ↔
      e = ⟨errno, .system⟩ ∧ errno ≠ EINTR ∧ errno ≠ EWOULDBLOCK := by
  unfold acceptSwitch
  split_ifs with h1 h2
  · simp [h1]
  · simp [h2]
  · simp [h1, h2, eq_comm]

theorem transferSwitch_eq_error {errno : ℤ} {e : ErrorCode} :
    transferSwitch errno = some (.error e) ↔
      e = ⟨errno, .system⟩ ∧ errno ≠ EINTR ∧ errno ≠ EWOULDBLOCK ∧
        errno ≠ ECONNRESET ∧ errno ≠ EPIPE := by
  unfold transferSwitch
  split_ifs with h1 h2 h3
  · rcases h1 with rfl | rfl <;> simp
  · simp [h2]
  · simp [h3]
  · rw [not_or] at h1
    simp [h1, h2, h3, eq_comm]

theorem transferSwitch_eq_closed {errno : ℤ} :
    transferSwitch errno = some .closed ↔ errno = ECONNRESET ∨ errno = EPIPE := by
  unfold transferSwitch
  split_ifs with h1 h2 h3 <;> simp [h1]

theorem switch_ne_value (hd : d.loop? = some switch) (errno : ℤ) (n : ℕ) :
    switch errno ≠ some (.value n) := by
  cases d <;> simp only [Desc.loop?, Option.some.injEq, reduceCtorEq] at hd <;> subst hd
  · unfold acceptSwitch
    split_ifs <;> simp
  all_goals
    unfold transferSwitch
    split_ifs <;> simp

/-- A loop ends with a value if and only if a call returned it. -/
theorem value_mem_findings (hd : d.loop? = some switch) {n : ℕ} :
    .value n ∈ findings d h ↔ .ok n ∈ calls h := by
  rw [mem_findings hd]
  constructor
  · rintro (⟨env, k, e, -, -, hw⟩ | ⟨r, hr, hw, -⟩)
    · cases hw
    · cases r with
      | ok rc =>
        cases hw
        exact hr
      | fail e => exact absurd hw (switch_ne_value hd e n)
  · intro hn
    exact .inr ⟨_, hn, rfl, nofun⟩

theorem closed_mem_findings (hd : d.loop? = some switch) :
    .closed ∈ findings d h ↔ ∃ errno, .fail errno ∈ calls h ∧ switch errno = some .closed := by
  rw [mem_findings hd]
  constructor
  · rintro (⟨env, k, e, -, -, hw⟩ | ⟨r, hr, hw, -⟩)
    · cases hw
    · cases r with
      | ok rc => cases hw
      | fail e => exact ⟨e, hr, hw⟩
  · rintro ⟨errno, hmem, hw⟩
    exact .inr ⟨_, hmem, hw, nofun⟩

theorem error_mem_findings (hd : d.loop? = some switch) {e : ErrorCode} :
    .error e ∈ findings d h ↔
      (∃ env n v, .submitted env n ∈ h ∧ env.eventNew = some v ∧ e = ⟨v, .libevent⟩) ∨
        ∃ errno, .fail errno ∈ calls h ∧ switch errno = some (.error e) := by
  rw [mem_findings hd]
  constructor
  · rintro (⟨env, k, v, hmem, hv, hw⟩ | ⟨r, hr, hw, -⟩)
    · cases hw
      exact .inl ⟨env, k, v, hmem, hv, rfl⟩
    · cases r with
      | ok rc => cases hw
      | fail errno => exact .inr ⟨errno, hr, hw⟩
  · rintro (⟨env, k, v, hmem, hv, rfl⟩ | ⟨errno, hmem, hw⟩)
    · exact .inl ⟨env, k, v, hmem, hv, rfl⟩
    · exact .inr ⟨_, hmem, hw, nofun⟩

namespace LibeventContext

open World

variable {w w' : LibeventWorld} {o : OpId} {op op' : CpoState}

/-! ## One signal for one result -/

/-- What the receiver of an accept, a receive or a send learns, in terms of the calls that `_Work`
made and of the failure of `event_new`. -/
structure Conserved (op : CpoState) : Prop where
  once : (signals op.history).length ≤ 1
  single : (successes op.history).length ≤ 1
  /-- no success is hidden behind `set_stopped` or `set_error` -/
  stopped : .stopped ∈ signals op.history → successes op.history = []
  failed : ∀ e, .error e ∈ signals op.history → successes op.history = []
  /-- `set_error` carries libevent's error or the `errno` of a call that gave up -/
  error : ∀ e, .error e ∈ signals op.history ↔
    (∃ env n v, .submitted env n ∈ op.history ∧ env.eventNew = some v ∧ e = ⟨v, .libevent⟩) ∨
      ∃ errno, .fail errno ∈ calls op.history ∧ e = ⟨errno, .system⟩ ∧
        errno ≠ EINTR ∧ errno ≠ EWOULDBLOCK ∧
        ((∀ id, op.desc ≠ .accept id) → errno ≠ ECONNRESET ∧ errno ≠ EPIPE)
  /-- an accept signals a socket if and only if `accept` returned a handle -/
  accepted : ∀ id, op.desc = .accept id →
    ((∃ v, .value v ∈ signals op.history) ↔ ∃ fd, .ok fd ∈ calls op.history)
  /-- a receive or send signals the count of its successful call, or 0 when the peer is gone -/
  transferred : (∀ id, op.desc ≠ .accept id) → ∀ v, .value v ∈ signals op.history ↔
    (∃ n, v = .count n ∧ .ok n ∈ calls op.history) ∨
      (v = .count 0 ∧ (.fail ECONNRESET ∈ calls op.history ∨ .fail EPIPE ∈ calls op.history))

theorem Balanced.error_mem (h : Balanced op) {e : ErrorCode} :
    .error e ∈ signals op.history ↔ .error e ∈ findings op.desc op.history := by
  rcases h with ⟨hf, hs | hs⟩ | ⟨w, s, hf, hs, hr⟩
  · simp [hf, hs]
  · simp [hf, hs]
  · rw [hf, hs, List.mem_singleton, List.mem_singleton]
    constructor
    · rintro rfl
      rw [hr.eq_error]
    · rintro rfl
      exact Eq.symm hr

/-- A signal other than `set_stopped` reports a finding. -/
theorem Balanced.finding_of_signal (h : Balanced op) {s : Signal} (hs : s ∈ signals op.history)
    (hstop : s ≠ .stopped) : ∃ w ∈ findings op.desc op.history, Reports op.desc w s := by
  rcases h with ⟨-, hs' | hs'⟩ | ⟨w, s', hf, hs', hr⟩
  · simp [hs'] at hs
  · rw [hs', List.mem_singleton] at hs
    exact absurd hs hstop
  · rw [hs', List.mem_singleton] at hs
    exact ⟨w, by simp [hf], hs ▸ hr⟩

/-- A finding is reported by a signal. -/
theorem Balanced.signal_of_finding (h : Balanced op) {w : WorkEnd}
    (hw : w ∈ findings op.desc op.history) : ∃ s ∈ signals op.history, Reports op.desc w s := by
  rcases h with ⟨hf, -⟩ | ⟨w', s, hf, hs, hr⟩
  · simp [hf] at hw
  · rw [hf, List.mem_singleton] at hw
    exact ⟨s, by simp [hs], hw ▸ hr⟩

theorem Balanced.conserved (h : Balanced op) (hd : op.desc.loop? = some switch) : Conserved op where
  once := by rcases h with ⟨-, hs | hs⟩ | ⟨w, s, -, hs, -⟩ <;> simp [hs]
  single := by
    rw [successes_eq hd]
    rcases h with ⟨hf, -⟩ | ⟨w, s, hf, -, -⟩
    · simp [hf]
    · rw [hf]
      exact (List.length_filterMap_le _ _)
  stopped hmem := by
    rw [successes_eq hd]
    rcases h with ⟨hf, -⟩ | ⟨w, s, -, hs, hr⟩
    · simp [hf]
    · rw [hs, List.mem_singleton] at hmem
      subst hmem
      exact absurd hr not_reports_stopped
  failed e hmem := by
    rw [successes_eq hd]
    have hw := h.error_mem.mp hmem
    rcases h with ⟨hf, -⟩ | ⟨w, s, hf, -, -⟩
    · simp [hf]
    · rw [hf, List.mem_singleton] at hw
      simp [hf, ← hw, WorkEnd.value?]
  error e := by
    rw [h.error_mem, error_mem_findings hd]
    refine or_congr Iff.rfl (exists_congr fun errno => and_congr_right fun _ => ?_)
    cases hop : op.desc <;> simp only [hop, Desc.loop?, Option.some.injEq, reduceCtorEq] at hd <;>
      subst hd
    · rw [acceptSwitch_eq_error]
      simp
    all_goals
      rw [transferSwitch_eq_error]
      simp
  accepted id hop := by
    constructor
    · rintro ⟨v, hv⟩
      obtain ⟨w, hw, hr⟩ := h.finding_of_signal hv (by simp)
      cases w with
      | value n => exact ⟨n, (value_mem_findings hd).mp hw⟩
      | closed => simp [Reports, hop] at hr
      | error e => cases hr
      | wouldBlock => exact hr.elim
    · rintro ⟨fd, hfd⟩
      obtain ⟨s, hs, hr⟩ := h.signal_of_finding ((value_mem_findings hd).mpr hfd)
      simp only [Reports, hop] at hr
      obtain ⟨id', rfl⟩ := hr
      exact ⟨_, hs⟩
  -- the switch of a receive or send, and what their two kinds of results are reported as
  transferred hno v := by
    have hswitch : switch = transferSwitch := by
      cases hop : op.desc with
      | accept id => exact absurd hop (hno id)
      | _ => simp_all [Desc.loop?]
    have hvalue : ∀ n s, Reports op.desc (.value n) s ↔ s = .value (.count n) := by
      intro n s
      cases hop : op.desc with
      | accept id => exact absurd hop (hno id)
      | receive | send => rfl
      | connect | resumeAfter | resumeAt => simp [hop, Desc.loop?] at hd
    have hclosed : ∀ s, Reports op.desc .closed s ↔ s = .value (.count 0) := by
      intro s
      cases hop : op.desc with
      | accept id => exact absurd hop (hno id)
      | receive | send => rfl
      | connect | resumeAfter | resumeAt => simp [hop, Desc.loop?] at hd
    have hgone : .closed ∈ findings op.desc op.history ↔
        .fail ECONNRESET ∈ calls op.history ∨ .fail EPIPE ∈ calls op.history := by
      rw [closed_mem_findings hd, hswitch]
      simp only [transferSwitch_eq_closed, and_or_left, exists_or, exists_eq_right]
    constructor
    · intro hv
      obtain ⟨w, hw, hr⟩ := h.finding_of_signal hv (by simp)
      cases w with
      | value n =>
        rw [hvalue, Signal.value.injEq] at hr
        exact .inl ⟨n, hr, (value_mem_findings hd).mp hw⟩
      | closed =>
        rw [hclosed, Signal.value.injEq] at hr
        exact .inr ⟨hr, hgone.mp hw⟩
      | error e => cases hr
      | wouldBlock => exact hr.elim
    · rintro (⟨n, rfl, hn⟩ | ⟨rfl, hn⟩)
      · obtain ⟨s, hs, hr⟩ := h.signal_of_finding ((value_mem_findings hd).mpr hn)
        rw [hvalue] at hr
        exact hr ▸ hs
      · obtain ⟨s, hs, hr⟩ := h.signal_of_finding (hgone.mpr hn)
        rw [hclosed] at hr
        exact hr ▸ hs

/-! ## Delivery -/

/-- When an accept signals a socket, its id maps to the handle that `accept` returned. -/
theorem Reachable.delivers (h : Reachable w) {l : Label} (hstep : w.step l = some w')
    (hop : w.ops[o]? = some op) (hop' : w'.ops[o]? = some op') {id : SocketId}
    (hdesc : op.desc = .accept id) (hs : signals op.history = []) {v : Value}
    (hv : .value v ∈ signals op'.history) :
    ∃ (id' : SocketId) (r : SocketRecord) (fd : ℕ), v = .socket (some id') ∧
      w'.ctx.sockets.record id' = some r ∧ r.handle = fd ∧ .ok fd ∈ calls op.history := by
  -- the step that signals changes nothing in the table
  obtain ⟨hsaid, hctx⟩ := h.inv.signal_step hstep hop hop' hs hv
  rcases hsaid with hstop | ⟨w, hf, hdelivers, hsignal⟩
  · cases hstop
  · cases w with
    | value fd =>
      simp only [Delivers, hdesc] at hdelivers
      obtain ⟨id', r, hid, hr, hfd⟩ := hdelivers
      refine ⟨id', r, fd, ?_, by rw [hctx]; exact hr, hfd, ?_⟩
      · simpa [WorkEnd.signal, CpoState.setValue, hdesc, hid] using hsignal
      · have hd : op.desc.loop? = some acceptSwitch := by rw [hdesc]; rfl
        exact (value_mem_findings hd).mp (by simp [hf])
    | closed => simp [Delivers, hdesc] at hdelivers
    | error e => cases hsignal
    | wouldBlock => exact hdelivers.elim

/-! ## Totals -/

/-- The count that `set_value` passed on. -/
def Signal.count? : Signal → Option ℕ
  | .value (.count n) => some n
  | _ => none

/-- The counts that the receiver was told. -/
def reported (op : CpoState) : ℕ := ((signals op.history).filterMap Signal.count?).sum

/-- The counts that successful calls returned. -/
def transferred (op : CpoState) : ℕ := (successes op.history).sum

theorem Balanced.reported_eq (h : Balanced op)
    (hdesc : ∃ id, op.desc = .receive id ∨ op.desc = .send id) : reported op = transferred op := by
  have hd : op.desc.loop? = some transferSwitch := by
    obtain ⟨id, hdesc | hdesc⟩ := hdesc <;> rw [hdesc] <;> rfl
  rw [reported, transferred, successes_eq hd]
  -- at most one result and one signal; they carry the same count
  rcases h with ⟨hf, hs | hs⟩ | ⟨w, s, hf, hs, hr⟩
  · rw [hf, hs]
    rfl
  · rw [hf, hs]
    rfl
  · rw [hf, hs]
    obtain ⟨id, hdesc | hdesc⟩ := hdesc <;> rw [hdesc] at hr <;>
      cases w <;> first | exact hr.elim | (cases hr; rfl)

/-- **Conservation**: in every reachable state the accepts, receives and sends that have signalled,
or on which no function is executing, told their receivers exactly what their calls returned; a
socket that an accept signals maps to the accepted handle; and when no function is executing, the
counts reported by any set of receives and sends add up to the counts their calls returned. -/
theorem conservation {w : LibeventWorld} (h : Reachable w) :
    (∀ (o : OpId) (op : CpoState), w.ops[o]? = some op → op.desc.loop?.isSome →
      signals op.history ≠ [] ∨ frames o w.todo = [] → Conserved op) ∧
    (∀ (l : Label) (w' : LibeventWorld) (o : OpId) (op op' : CpoState) (id : SocketId) (v : Value),
      w.step l = some w' → w.ops[o]? = some op → w'.ops[o]? = some op' → op.desc = .accept id →
      signals op.history = [] → .value v ∈ signals op'.history →
      ∃ (id' : SocketId) (r : SocketRecord) (fd : ℕ), v = .socket (some id') ∧
        w'.ctx.sockets.record id' = some r ∧ r.handle = fd ∧ .ok fd ∈ calls op.history) ∧
    (∀ p : CpoState → Bool, w.todo = [] →
      (∀ op, p op = true → ∃ id, op.desc = .receive id ∨ op.desc = .send id) →
      ((w.ops.filter p).map reported).sum = ((w.ops.filter p).map transferred).sum) := by
  refine ⟨fun o op hop hd hend => ?_, fun l w' o op op' id v hstep hop hop' hdesc hs hv =>
    h.delivers hstep hop hop' hdesc hs hv, fun p htodo hp => ?_⟩
  · obtain ⟨switch, hd⟩ := Option.isSome_iff_exists.mp hd
    exact (h.account hop hend).conserved hd
  · refine congrArg List.sum (List.map_congr_left fun op hop => ?_)
    obtain ⟨hmem, hpop⟩ := List.mem_filter.mp hop
    obtain ⟨o, hop⟩ := List.getElem?_of_mem hmem
    exact (h.account hop (.inr (by rw [htodo]; rfl))).reported_eq (hp op hpop)

/-- Two receives on one socket: one gets 3 bytes after an EINTR, one is stopped while it is
pending. -/
def receiveAndStop : List Label :=
  [.makeSocket 7, .start (.receive 0) 0, .perform {}, .perform {}, .perform {}, .perform {},
    .start (.receive 0) 1, .perform {}, .perform {}, .perform {}, .perform {},
    .ready 0 { results := [.fail EINTR, .ok 3] }, .perform {}, .perform {}, .requestStop 1,
    .callback 1, .perform {}, .perform {}, .perform {}, .perform {}, .userReturn, .perform {},
    .stopDone, .userReturn]

/-- The two receives report the 3 bytes, once. -/
theorem conservation_receiveAndStop : ∃ w, World.run initial receiveAndStop = some w ∧
    (w.ops.map (signals ·.history)) = [[.value (.count 3)], [.stopped]] ∧
    ((w.ops.filter (·.desc = .receive 0)).map reported).sum =
      ((w.ops.filter (·.desc = .receive 0)).map transferred).sum :=
  ⟨_, rfl, rfl, (conservation ⟨receiveAndStop, rfl⟩).2.2 (·.desc = .receive 0) rfl
    fun _ hop => ⟨0, .inl (of_decide_eq_true hop)⟩⟩

end LibeventContext

end Stdnet
