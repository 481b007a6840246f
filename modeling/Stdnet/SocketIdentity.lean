import Stdnet.LibeventRuns

/-!
# The Socket an Operation Acts on

A `_Work` function looks up its handle by the id of the operation each time it is run, and ids are
used again. An operation acts on the socket it was submitted for exactly as long as no readiness
indication is delivered to it after that socket was released.

## Main results

- `RunInv.live_at`: a socket that was not released is found under the id of every operation that was
  submitted for it.
- `ownSocket_iff`: in a run every call is made on the right socket if and only if no readiness
  indication is delivered to an operation whose socket has been released.
-/

namespace Stdnet

open History

/-- An entry that a `_Work` function or a submission makes. -/
def OpEvent.onTable : OpEvent → Bool
  | .submitted _ _ | .refused | .called _ _ | .stray => true
  | _ => false

namespace LibeventContext

open World

variable {w w' : LibeventWorld} {l : Label} {ls : List Label} {o : OpId} {op op' : CpoState}
  {t t' : Table}

/-- Every call of `_Work` was made on a socket that the operation was submitted for, and no lookup
found a free slot. -/
structure OwnSocket (op : CpoState) : Prop where
  own : ∀ k r, .called k r ∈ op.history → ∃ env, .submitted env (some k) ∈ op.history
  noStray : .stray ∉ op.history

/-! ## Where the socket of an operation is -/

/-- What the history of an operation says about the socket table: it was submitted once, for a
socket that is under its own id as long as it is live; it was submitted before it was armed and
before it made calls. -/
structure Placed (t : Table) (op : CpoState) : Prop where
  unique : ∀ env n env' n', .submitted env n ∈ op.history → .submitted env' n' ∈ op.history → n = n'
  socket : ∀ env k, .submitted env (some k) ∈ op.history → op.desc.onSocket ∧ k < t.made
  place : ∀ env k, .submitted env (some k) ∈ op.history →
    ∀ id r, t.record id = some r → r.number = k → id = op.desc.id
  armed : op.isArmed = true → op.desc.onSocket → ∃ env k, .submitted env (some k) ∈ op.history
  called : ∀ k r, .called k r ∈ op.history → ∃ env k', .submitted env (some k') ∈ op.history

theorem Placed.evolves (h : Placed t op) (ht : t.Evolves t') : Placed t' op where
  unique := h.unique
  socket env k hk := ⟨(h.socket env k hk).1, (h.socket env k hk).2.trans_le ht.made⟩
  place env k hk id r hr hnum := by
    rcases ht.record id r hr with hr | hnew
    · exact h.place env k hk id r hr hnum
    · have := (h.socket env k hk).2
      omega
  armed := h.armed
  called := h.called

/-- An operation that has just been constructed. -/
theorem placed_of_nil (hhist : op.history = []) (hextra : op.extra = none) : Placed t op := by
  refine ⟨?_, ?_, ?_, ?_, ?_⟩ <;> simp [hhist, hextra, CpoState.isArmed]

/-- Entries that do not concern the table change nothing. -/
theorem Placed.grow (h : Placed t op) {added : List OpEvent} (hdesc : op'.desc = op.desc)
    (hhist : op'.history = op.history ++ added)
    (hadded : ∀ x ∈ added, (∀ env n, x ≠ .submitted env n) ∧
      ∀ k r, x = .called k r → ∃ env k', .submitted env (some k') ∈ op.history)
    (harmed : op'.isArmed = true → op.isArmed = true) : Placed t op' := by
  -- the submissions are those that were there before
  have hold : ∀ env n, .submitted env n ∈ op'.history → .submitted env n ∈ op.history := by
    intro env n hmem
    rw [hhist, List.mem_append] at hmem
    rcases hmem with hmem | hmem
    · exact hmem
    · exact absurd rfl ((hadded _ hmem).1 env n)
  have hnew : ∀ env n, .submitted env n ∈ op.history → .submitted env n ∈ op'.history := by
    intro env n hmem
    rw [hhist]
    exact List.mem_append_left _ hmem
  refine ⟨fun env n env' n' hn hn' => h.unique env n env' n' (hold _ _ hn) (hold _ _ hn'),
    fun env k hk => ?_, fun env k hk => ?_, fun ha hon => ?_, fun k r hk => ?_⟩
  · rw [hdesc]
    exact h.socket env k (hold _ _ hk)
  · rw [hdesc]
    exact h.place env k (hold _ _ hk)
  · rw [hdesc] at hon
    obtain ⟨env, k, hmem⟩ := h.armed (harmed ha) hon
    exact ⟨env, k, hnew _ _ hmem⟩
  · rw [hhist, List.mem_append] at hk
    obtain ⟨env, k', hmem⟩ : ∃ env k', .submitted env (some k') ∈ op.history := by
      rcases hk with hk | hk
      · exact h.called k r hk
      · exact (hadded _ hk).2 k r rfl
    exact ⟨env, k', hnew _ _ hmem⟩

/-- The steps other than a submission do not concern the table. -/
theorem perform_not_onTable {stopped : Bool} {env : Env} {ctx : LibeventContext} {m : AtomicStep}
    {e : Effect LibeventContext} (hm : m ≠ .submit)
    (he : m.perform stopped env ctx o op = some e) :
    (∃ added, e.op.history = op.history ++ added ∧ ∀ x ∈ added, x.onTable = false) ∧
      (e.op.isArmed = true → op.isArmed = true) := by
  cases m with
  | submit => exact absurd rfl hm
  | increment | leave | enter | testStop =>
    obtain rfl := Option.some.inj he
    exact ⟨⟨_, rfl, by simp [OpEvent.onTable]⟩, fun h => h⟩
  | contextCancel =>
    obtain rfl := Option.some.inj he
    refine ⟨⟨_, rfl, by simp [OpEvent.onTable]⟩, fun h => ?_⟩
    exact absurd ((isArmed_disarm _).symm.trans h) (by decide)
  | reset =>
    obtain rfl := Option.some.inj he
    cases hcb : op.callback <;>
      exact ⟨⟨[.ran .reset], by simp [Effect.logSignal, CpoState.log, CpoState.reset, hcb],
        by simp [OpEvent.onTable]⟩, by
          simp [Effect.logSignal, CpoState.log, CpoState.reset, CpoState.isArmed, hcb]⟩
  | emplace =>
    simp only [AtomicStep.perform, AtomicStep.exec] at he
    split at he <;> obtain rfl := Option.some.inj he <;>
      exact ⟨⟨_, List.append_assoc _ _ _, by simp [OpEvent.onTable]⟩, fun h => h⟩
  | complete | error | cancel | cancelComplete =>
    obtain rfl := Option.some.inj he
    by_cases hzero : op.outstanding - 1 = 0
    · simp only [decrement, Effect.logSignal, CpoState.log, hzero, if_true]
      exact ⟨⟨_, List.append_assoc _ _ _, by simp [OpEvent.onTable]⟩, fun h => h⟩
    · simp only [decrement, Effect.logSignal, CpoState.log, hzero, if_false]
      exact ⟨⟨_, rfl, by simp [OpEvent.onTable]⟩, fun h => h⟩

/-- An operation that has just been submitted is placed. -/
theorem placed_of_submitted (op : CpoState) {env : Env} {n : Option ℕ} (hok : t.Ok)
    (hdesc : op'.desc = op.desc)
    (hhist : op'.history = op.history ++ [.ran .submit, .submitted env n])
    (huns : Unsubmitted op.history) (hcalls : calls op.history = [])
    (hon : SubmittedOn t op.desc n) : Placed t op' := by
  -- an operation is submitted once, before it makes a call
  have honly : ∀ env' n', .submitted env' n' ∈ op'.history → n' = n := by
    intro env' n' hmem
    rw [hhist, List.mem_append] at hmem
    rcases hmem with hmem | hmem
    · exact absurd hmem (huns env' n')
    · simp only [List.mem_cons, reduceCtorEq, List.not_mem_nil, or_false, false_or,
        OpEvent.submitted.injEq] at hmem
      exact hmem.2
  have hself : .submitted env n ∈ op'.history := by simp [hhist]
  have hnone : ∀ k r, .called k r ∉ op'.history := by
    intro k r hmem
    rw [hhist, List.mem_append] at hmem
    rcases hmem with hmem | hmem
    · have : r ∈ calls op.history := mem_calls.mpr ⟨k, hmem⟩
      rw [hcalls] at this
      cases this
    · simp at hmem
  refine ⟨fun env₁ n₁ env₂ n₂ h₁ h₂ => (honly _ _ h₁).trans (honly _ _ h₂).symm, fun env' k hk => ?_,
    fun env' k hk id r hr hnum => ?_, fun _ hsock => ?_, fun k r hk => absurd hk (hnone k r)⟩
  · obtain rfl := honly _ _ hk
    obtain ⟨hsock, rec, hrec, rfl⟩ := hon
    exact ⟨by rw [hdesc]; exact hsock, (hok.liveMade _ _ hrec).1⟩
  · obtain rfl := honly _ _ hk
    obtain ⟨-, rec, hrec, hnum'⟩ := hon
    rw [hdesc]
    exact BitVec.toNat_injective (hok.numbers _ _ _ _ hr hrec (hnum.trans hnum'.symm))
  · cases n with
    | some k => exact ⟨env, k, hself⟩
    | none => exact absurd (hdesc ▸ hsock) hon

/-- The submission of an operation places it, and makes no call. -/
theorem placed_of_submit {stopped : Bool} {env : Env} {ctx : LibeventContext} {cb : Callback}
    {n : ℤ} {e : Effect LibeventContext} (h : Early op n cb) (hok : ctx.sockets.Ok)
    (he : AtomicStep.perform .submit stopped env ctx o op = some e) :
    Placed ctx.sockets e.op ∧ (OwnSocket e.op ↔ OwnSocket op) := by
  have hcalled : ∀ k r, .called k r ∉ op.history := by
    intro k r hmem
    have : r ∈ History.calls op.history := mem_calls.mpr ⟨k, hmem⟩
    rw [h.calls] at this
    cases this
  -- so whether the calls keep to the socket does not change
  have hown : ∀ {op' : CpoState} {x : OpEvent}, op'.history = op.history ++ [.ran .submit, x] →
      (∀ k r, x ≠ .called k r) → x ≠ .stray → (OwnSocket op' ↔ OwnSocket op) := by
    intro op' x hhist hx hstray
    constructor
    · rintro ⟨-, hno⟩
      exact ⟨fun k r hk => absurd hk (hcalled k r), fun hmem =>
        hno (by rw [hhist]; exact List.mem_append_left _ hmem)⟩
    · rintro ⟨-, hno⟩
      refine ⟨fun k r hk => ?_, fun hmem => ?_⟩
      · rw [hhist] at hk
        simp [hcalled k r, (hx k r).symm] at hk
      · rw [hhist] at hmem
        simp [hno, hstray.symm] at hmem
  have happ : ∀ x, op.history ++ [.ran .submit] ++ [x] = op.history ++ [.ran .submit, x] :=
    fun x => List.append_assoc _ _ _
  obtain ⟨r, hspec, rfl⟩ := perform_submit_cases he
  cases hspec with
  | refused hnone =>
    refine ⟨?_, hown (x := .refused) (happ _) (by simp) (by simp)⟩
    have hno : ∀ env n, .submitted env n ∉ op.history ++ [.ran .submit] ++ [.refused] := by
      intro env n hmem
      simp only [happ, List.mem_append, List.mem_cons, reduceCtorEq, List.not_mem_nil,
        or_false] at hmem
      exact h.unsubmitted env n hmem
    have hnocall : ∀ k r, .called k r ∉ op.history ++ [.ran .submit] ++ [.refused] := by
      intro k r hmem
      simp [hcalled k r] at hmem
    refine ⟨fun env n _ _ hmem => absurd hmem (hno env n), fun env k hmem => absurd hmem (hno _ _),
      fun env k hmem => absurd hmem (hno _ _), fun ha => ?_, fun k r hmem => absurd hmem (hnocall k r)⟩
    simp [Effect.logSignal, CpoState.log, CpoState.isArmed, h.extra] at ha
  | armed n ev hon hend harmed =>
    exact ⟨placed_of_submitted op hok rfl (happ (.submitted env n)) h.unsubmitted h.calls hon,
      hown (x := .submitted env n) (happ _) (by simp) (by simp)⟩
  | ended n w hon hend hdelivers =>
    exact ⟨placed_of_submitted op hok rfl (happ (.submitted env n)) h.unsubmitted h.calls hon,
      hown (x := .submitted env n) (happ _) (by simp) (by simp)⟩

/-- What a dispatch adds to the history: a failed lookup, or calls on the socket that is under the
id now. -/
theorem callback_entries {env : Env} {ctx : LibeventContext} {e : Effect LibeventContext}
    (he : callback ctx op env = some e) :
    e.op.desc = op.desc ∧ e.op.isArmed = false ∧
      ((op.desc.onSocket ∧ ctx.sockets.record op.desc.id = none ∧
          e.op.history = op.history ++ [.dispatched, .stray]) ∨
        ∃ added, e.op.history = op.history ++ .dispatched :: added ∧ (∀ x ∈ added, IsWork x) ∧
          CallsOn ctx.sockets op added) := by
  have hdis := isArmed_disarm op
  simp only [callback, Option.map_eq_some_iff] at he
  obtain ⟨wk, hwk, rfl⟩ := he
  cases work_spec hwk with
  | stray hon hnone _ hop _ =>
    simp only [hop]
    exact ⟨rfl, hdis, .inl ⟨hon, hnone, by simp [CpoState.log, disarm]⟩⟩
  | settled w a n added _ hadded hcalls hop =>
    simp only [hop]
    exact ⟨rfl, hdis, .inr ⟨added, by simp [CpoState.log, disarm], hadded,
      hcalls.number, hcalls.some_call⟩⟩
  | waiting added _ hadded hcalls hop =>
    simp only [hop]
    exact ⟨rfl, hdis, .inr ⟨added, by simp [CpoState.log, disarm], hadded,
      hcalls.number, hcalls.some_call⟩⟩

/-- Every step keeps operations placed. -/
theorem Placed.step (h : RunInv w) (hp : Placed w.ctx.sockets op) (hop : w.ops[o]? = some op)
    (hstep : w.step l = some w') (hop' : w'.ops[o]? = some op') : Placed w'.ctx.sockets op' := by
  refine Placed.evolves ?_ (h.step_evolves hstep)
  obtain ⟨hc, -⟩ := step_cases hstep
  have hphase := h.phase_of hc hop
  cases step_op hstep hop hop' with
  | same => exact hp
  | callback => exact ⟨hp.unique, hp.socket, hp.place, hp.armed, hp.called⟩
  | @perform env m rest e htodo he =>
    rw [htodo, frames_op_self] at hphase
    -- only `_Submit` looks the id up
    by_cases hm : m = .submit
    · subst hm
      exact (placed_of_submit hphase.early_of_submit h.table he).1
    · obtain ⟨⟨added, hhist, hadded⟩, harmed⟩ := perform_not_onTable hm he
      refine hp.grow (perform_kept he).desc hhist (fun x hx => ⟨?_, ?_⟩) harmed
      · rintro env n rfl
        cases hadded _ hx
      · rintro k r rfl
        cases hadded _ hx
  | @ready env e htodo hreg he =>
    obtain ⟨hdesc, hdis, hentries⟩ := callback_entries he
    -- the event was removed from the event base before `_Work`
    have harmed : e.op.isArmed = true → op.isArmed = true := by
      rw [hdis]
      exact nofun
    rcases hentries with ⟨-, -, hhist⟩ | ⟨added, hhist, hadded, hcalls⟩
    · exact hp.grow hdesc hhist (by simp) harmed
    · refine hp.grow hdesc hhist (fun x hx => ?_) harmed
      rcases List.mem_cons.mp hx with rfl | hx
      · exact ⟨nofun, nofun⟩
      · refine ⟨?_, ?_⟩
        · rintro env n rfl
          exact (hadded _ hx).elim
        · rintro k r rfl
          exact hp.armed hreg (hcalls.some_call.mpr ⟨k, r, hx⟩)

/-- The invariant of runs, with all operations placed. -/
structure PlacedInv (w : LibeventWorld) : Prop where
  inv : RunInv w
  placed : ∀ (o : OpId) (op : CpoState), w.ops[o]? = some op → Placed w.ctx.sockets op

theorem PlacedInv.step (h : PlacedInv w) (hstep : w.step l = some w') : PlacedInv w' where
  inv := h.inv.step hstep
  placed o op' hop' := by
    cases hold : w.ops[o]? with
    | some op => exact (h.placed o op hold).step h.inv hold hstep hop'
    | none =>
      obtain ⟨d, token, rfl, rfl, rfl, rfl⟩ := step_new_op hstep hold hop'
      exact placed_of_nil rfl rfl

theorem placedInv_initial : PlacedInv initial where
  inv := runInv_initial
  placed o op hop := by simp [initial] at hop

/-! ## Calls on the right socket -/

/-- A socket that was not released is found under the id of the operation submitted for it. -/
theorem RunInv.live_at (h : RunInv w) (hp : Placed w.ctx.sockets op) {env : Env} {k : ℕ}
    (hk : .submitted env (some k) ∈ op.history) (hlive : k ∉ w.ctx.sockets.released) :
    ∃ r, w.ctx.sockets.record op.desc.id = some r ∧ r.number = k := by
  obtain ⟨id, r, hr, hnum⟩ := h.table.exists_record (hp.socket env k hk).2 hlive
  have hid := hp.place env k hk id r hr hnum
  exact ⟨r, by rw [← hid]; exact hr, hnum⟩

/-- The socket of every operation that a step delivers a readiness indication to is not released. -/
def DeliveredLive (w : LibeventWorld) (l : Label) (_ : LibeventWorld) : Prop :=
  ∀ o env, l = .ready o env → ∀ op, w.ops[o]? = some op →
    ∀ env' n, .submitted env' (some n) ∈ op.history → n ∉ w.ctx.sockets.released

/-- A dispatch keeps to the socket of the operation exactly when that socket was not released. -/
theorem ownSocket_dispatch (h : RunInv w) (hp : Placed w.ctx.sockets op)
    (harmed : op.isArmed = true)
    {env : Env} {e : Effect LibeventContext} (he : callback w.ctx op env = some e)
    (hp' : ∀ env n env' n', .submitted env n ∈ e.op.history → .submitted env' n' ∈ e.op.history →
      n = n') :
    OwnSocket e.op ↔ OwnSocket op ∧
      ∀ env' n, .submitted env' (some n) ∈ op.history → n ∉ w.ctx.sockets.released := by
  obtain ⟨-, -, ⟨hon, hnone, hhist⟩ | ⟨added, hhist, hadded, hcalls⟩⟩ := callback_entries he
  · -- the lookup failed: the socket of the operation is not live
    refine iff_of_false (fun hown => hown.noStray (by simp [hhist])) fun ⟨_, hlive⟩ => ?_
    obtain ⟨env', k, hk⟩ := hp.armed harmed hon
    obtain ⟨r, hr, -⟩ := h.live_at hp hk (hlive env' k hk)
    rw [hnone] at hr
    cases hr
  -- calls were made, on the socket that is under the id now
  · have hin : ∀ env' n, .submitted env' n ∈ e.op.history ↔ .submitted env' n ∈ op.history := by
      intro env' n
      rw [hhist, List.mem_append]
      refine ⟨fun hmem => hmem.elim id fun hmem => ?_, .inl⟩
      rcases List.mem_cons.mp hmem with heq | hmem
      · cases heq
      · exact (hadded _ hmem).elim
    have hstray : .stray ∈ e.op.history ↔ .stray ∈ op.history := by
      rw [hhist, List.mem_append]
      refine ⟨fun hmem => hmem.elim id fun hmem => ?_, .inl⟩
      rcases List.mem_cons.mp hmem with heq | hmem
      · cases heq
      · exact (hadded _ hmem).elim
    constructor
    · intro hown
      refine ⟨⟨fun k r hk => ?_, fun hmem => hown.noStray (hstray.mpr hmem)⟩, fun env' n hn hrel => ?_⟩
      · obtain ⟨env', hmem⟩ := hown.own k r (by rw [hhist]; exact List.mem_append_left _ hk)
        exact ⟨env', (hin env' _).mp hmem⟩
      · -- the call was made on a live socket, so not on the released one
        obtain ⟨k, r, hk⟩ := hcalls.some_call.mp (hp.socket env' n hn).1
        obtain ⟨rec, hrec, rfl⟩ := hcalls.number k r hk
        obtain ⟨env'', hmem⟩ := hown.own rec.number r (by simp [hhist, hk])
        have heq := hp' _ _ _ _ ((hin _ _).mpr hn) hmem
        cases heq
        exact (h.table.liveMade _ _ hrec).2 hrel
    · rintro ⟨hown, hlive⟩
      refine ⟨fun k r hk => ?_, fun hmem => hown.noStray (hstray.mp hmem)⟩
      rw [hhist, List.mem_append, List.mem_cons] at hk
      rcases hk with hk | hk | hk
      · obtain ⟨env', hmem⟩ := hown.own k r hk
        exact ⟨env', (hin env' _).mpr hmem⟩
      · cases hk
      -- a socket that was not released is still under its id
      · obtain ⟨env', n, hn⟩ := hp.armed harmed (hcalls.some_call.mpr ⟨k, r, hk⟩)
        obtain ⟨rec, hrec, rfl⟩ := h.live_at hp hn (hlive env' n hn)
        obtain ⟨rec', hrec', rfl⟩ := hcalls.number k r hk
        cases hrec.symm.trans hrec'
        exact ⟨env', (hin env' _).mpr hn⟩

theorem ownSocket_step (h : PlacedInv w) (hop : w.ops[o]? = some op) (hstep : w.step l = some w')
    (hop' : w'.ops[o]? = some op') :
    OwnSocket op' ↔ OwnSocket op ∧ ∀ env, l = .ready o env →
      ∀ env' n, .submitted env' (some n) ∈ op.history → n ∉ w.ctx.sockets.released := by
  obtain ⟨hc, -⟩ := step_cases hstep
  have hp := h.placed o op hop
  have hp' := hp.step h.inv hop hstep hop'
  cases step_op hstep hop hop' with
  | same hl => exact (and_iff_left fun env heq => absurd heq (hl env)).symm
  | callback =>
    refine ⟨fun hown => ⟨⟨hown.own, hown.noStray⟩, nofun⟩, fun ⟨hown, _⟩ => ⟨hown.own, hown.noStray⟩⟩
  | @perform env m rest e htodo he =>
    refine Iff.trans ?_ (and_iff_left nofun).symm
    have hphase := h.inv.phase_of hc hop
    rw [htodo, frames_op_self] at hphase
    by_cases hm : m = .submit
    · subst hm
      exact (placed_of_submit hphase.early_of_submit h.inv.table he).2
    · obtain ⟨⟨added, hhist, hadded⟩, -⟩ := perform_not_onTable hm he
      -- the step adds no entry that the property is about
      have hin : ∀ x : OpEvent, x.onTable = true → (x ∈ e.op.history ↔ x ∈ op.history) := by
        intro x hx
        rw [hhist, List.mem_append]
        refine ⟨fun hmem => hmem.elim id fun hmem => ?_, .inl⟩
        rw [hadded x hmem] at hx
        cases hx
      constructor
      · rintro ⟨hown, hno⟩
        refine ⟨fun k r hk => ?_, fun hmem => hno ((hin _ rfl).mpr hmem)⟩
        obtain ⟨env', hmem⟩ := hown k r ((hin _ rfl).mpr hk)
        exact ⟨env', (hin _ rfl).mp hmem⟩
      · rintro ⟨hown, hno⟩
        refine ⟨fun k r hk => ?_, fun hmem => hno ((hin _ rfl).mp hmem)⟩
        obtain ⟨env', hmem⟩ := hown k r ((hin _ rfl).mp hk)
        exact ⟨env', (hin _ rfl).mpr hmem⟩
  | @ready env e htodo hreg he =>
    rw [ownSocket_dispatch h.inv hp hreg he hp'.unique]
    refine and_congr_right fun _ => ⟨fun hlive env' heq => hlive, fun hlive => hlive env rfl⟩

/-- All operations have kept to their own sockets. -/
def OwnSockets (w : LibeventWorld) : Prop :=
  ∀ (o : OpId) (op : CpoState), w.ops[o]? = some op → OwnSocket op

theorem ownSockets_step (h : PlacedInv w) (hstep : w.step l = some w') :
    OwnSockets w' ↔ OwnSockets w ∧ DeliveredLive w l w' := by
  have hfind : ∀ (o : OpId) (op : CpoState), w.ops[o]? = some op → ∃ op', w'.ops[o]? = some op' := by
    intro o op hop
    obtain ⟨op', hop', -⟩ := step_grows hstep hop
    exact ⟨op', hop'⟩
  constructor
  · intro hown
    refine ⟨fun o op hop => ?_, fun o env heq op hop => ?_⟩
    · obtain ⟨op', hop'⟩ := hfind o op hop
      exact ((ownSocket_step h hop hstep hop').mp (hown o op' hop')).1
    · obtain ⟨op', hop'⟩ := hfind o op hop
      exact ((ownSocket_step h hop hstep hop').mp (hown o op' hop')).2 env heq
  · rintro ⟨hown, hlive⟩ o op' hop'
    cases hold : w.ops[o]? with
    | some op =>
      exact (ownSocket_step h hold hstep hop').mpr
        ⟨hown o op hold, fun env heq => hlive o env heq op hold⟩
    | none =>
      obtain ⟨d, token, rfl, rfl, rfl, rfl⟩ := step_new_op hstep hold hop'
      exact ⟨by simp, by simp⟩

/-- **Socket identity**: at the end of a run, every call of every operation was made on the socket
that the operation was submitted for, and none through the id of a free slot, if and only if in no
step a readiness indication was delivered to an operation whose socket had been released. An
operation is submitted for the socket that its id names when `_Submit` runs. -/
theorem ownSocket_iff {ls : List Label} {w : LibeventWorld}
    (hrun : World.run initial ls = some w) :
    OwnSockets w ↔ StepMachine.StepsAll World.step DeliveredLive initial ls := by
  rw [StepMachine.state_iff_stepsAll World.step (I := PlacedInv) (fun _ _ _ => PlacedInv.step)
    (fun _ _ _ => ownSockets_step) placedInv_initial hrun]
  exact and_iff_right fun o op hop => by simp [initial] at hop

/-- A receive gets its bytes before its socket is released. -/
def receiveThenRelease : List Label :=
  [.makeSocket 7, .start (.receive 0) 0, .perform {}, .perform {}, .perform {}, .perform {},
    .ready 0 { results := [.ok 3] }, .perform {}, .perform {}, .userReturn, .release 0 (.ok 0)]

theorem ownSocket_iff_receive : ∃ w, World.run initial receiveThenRelease = some w ∧
    (OwnSockets w ↔ StepMachine.StepsAll World.step DeliveredLive initial receiveThenRelease) :=
  ⟨_, rfl, ownSocket_iff rfl⟩

/-- The socket of a pending receive is released and another socket gets its id and its handle. -/
def releaseAndReuse : List Label :=
  [.makeSocket 7, .start (.receive 0) 0, .perform {}, .perform {}, .perform {}, .perform {},
    .release 0 (.ok 0), .makeSocket 7, .ready 0 { results := [.ok 3] }]

/-- The receive that was submitted for the first socket takes the bytes of the second. -/
theorem not_ownSockets : ¬ ∀ (ls : List Label) (w : LibeventWorld),
    World.run initial ls = some w → OwnSockets w := by
  intro h
  have hown := h releaseAndReuse _ rfl 0 _ rfl
  obtain ⟨env, hmem⟩ := hown.own 1 (.ok 3) (by decide)
  have hmem' : OpEvent.submitted env (some 1) ∈ [OpEvent.ran .increment, .ran .emplace,
      .emplaced false, .ran .testStop, .ran .submit, .submitted {} (some 0), .dispatched,
      .called 1 (.ok 3), .worked true] := hmem
  simp at hmem'

end LibeventContext

end Stdnet
