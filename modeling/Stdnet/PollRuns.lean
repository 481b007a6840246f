import Stdnet.PollPhase

/-!
# Runs of the poll Context

The invariant of single-threaded programs on the poll context: every operation is in a phase with
the steps that the call stack holds for it, the two vectors are parallel, and the operations in them
are distinct and have been submitted. When the socket table is well formed, the entry of an
operation has the handle of the socket that the operation was submitted for.

## Main results

- `RunInv.step`: every step of the program and of the event loop preserves the invariant.
- `RunInv.run`: it holds in every state that a program reaches, whatever sockets there were at
  first.
- `Watched.step`: the entries of `_D_poll` stay those of their operations.
-/

namespace Stdnet

namespace PollContext

open ListEntries History World SwapRemove

/-- A program that runs a poll context. -/
abbrev PollWorld := World PollContext

/-- A state with the sockets `t`, no operation and nothing on the call stack. -/
def idle (t : Table) : PollWorld := { ctx := { sockets := t } }

/-- The invariant of runs. If `prompt`, all sockets are in blocking mode. -/
structure RunInv (prompt : Prop) (w : PollWorld) : Prop extends Stack w where
  blocking : prompt → w.ctx.sockets.AllBlocking
  parallel : w.ctx.Parallel
  nodup : w.ctx.outstanding.Nodup
  submitted : ∀ o ∈ w.ctx.outstanding, ∃ op, w.ops[o]? = some op ∧ ¬ Unsubmitted op.history
  phase : w.crashed = false → ∀ (o : OpId) (op : CpoState), w.ops[o]? = some op →
    Phase prompt (w.stopped op.token) op (frames o w.todo)

theorem runInv_idle {prompt : Prop} {t : Table} (h : prompt → t.AllBlocking) :
    RunInv prompt (idle t) where
  known o m h := by simp [idle] at h
  top o op h := by simp [idle] at h
  blocking := h
  parallel := rfl
  nodup := List.nodup_nil
  submitted o h := by simp [idle] at h
  phase _ o op h := by simp [idle] at h

section Step

variable {prompt : Prop} {stopped stopped' : Bool} {w w' : PollWorld} {o : OpId} {op op' : CpoState}
  {fs : List AtomicStep}

/-- A phase depends on the stop token only while a step is going to ask it. -/
theorem Phase.weaken (h : Phase prompt stopped op fs)
    (hstop : stopped' = stopped ∨
      (stopped = true → stopped' = true) ∧ (signals op.history = [] → fs = [])) :
    Phase prompt stopped' op fs := by
  rcases hstop with rfl | ⟨hmono, hnil⟩
  · exact h
  · cases h with
    | halting h hs hfs => exact .halting h (hmono hs) hfs
    | answered h hfs => exact .answered h hfs
    | starting h | emplacing h | testing h | submitting h | resetting h | answering h =>
      exact absurd (hnil h.signals) (by simp)

/-- While something else runs than the steps of an operation, its callback is not registered. -/
theorem Phase.not_registered (h : Phase prompt stopped op fs)
    (hnil : signals op.history = [] → fs = []) : op.callback ≠ .registered := by
  cases h with
  | halting h => exact h.unregistered
  | answered h => exact h.unregistered
  | starting h | emplacing h | testing h | submitting h | resetting h | answering h =>
    exact absurd (hnil h.signals) (by simp)

theorem Phase.early_of_submit {rest : List AtomicStep}
    (h : Phase prompt stopped op (.submit :: rest)) : Early op 1 .registered := by
  generalize hfs : AtomicStep.submit :: rest = fs at h
  cases h with
  | submitting h => exact h
  | halting h hstop hsteps =>
    generalize op.outstanding = out at hsteps
    cases hsteps <;> cases hfs
  | answering h =>
    cases hfs
    rcases h.reporting with hm | ⟨e, hm⟩ <;> cases hm
  | answered h hsteps =>
    subst hfs
    rcases hsteps with hnil | ⟨m, hm, hsteps | hsteps⟩
    · cases hnil
    · cases hsteps
    · cases hsteps
      rcases hm with hm | ⟨e, hm⟩ <;> cases hm
  | _ => cases hfs

theorem not_unsubmitted_of_prefix (h : ¬ Unsubmitted op.history)
    (hpre : op.history <+: op'.history) : ¬ Unsubmitted op'.history := by
  obtain ⟨added, hhist⟩ := hpre
  rw [← hhist, unsubmitted_append]
  exact fun hboth => h hboth.1

/-- What a step leaves of the vectors, before and after the operation `o` itself is looked at. -/
theorem RunInv.submitted_step (h : RunInv prompt w) {l : Label} (hstep : w.step l = some w')
    (hmem : o ∈ w.ctx.outstanding) : ∃ op', w'.ops[o]? = some op' ∧ ¬ Unsubmitted op'.history := by
  obtain ⟨op, hop, hsub⟩ := h.submitted o hmem
  obtain ⟨op', hop', -, -, hpre⟩ := step_grows hstep hop
  exact ⟨op', hop', not_unsubmitted_of_prefix hsub hpre⟩

/-- What a step does to the vectors: nothing, or the operation it submits is appended, with the
handle of the socket that its id names, or the one that is dispatched is removed. -/
inductive VectorCases (w : PollWorld) : Label → PollWorld → Prop where
  | same {l : Label} {w' : PollWorld} (hpoll : w'.ctx.poll = w.ctx.poll)
      (hout : w'.ctx.outstanding = w.ctx.outstanding) : VectorCases w l w'
  | added {env env' : Env} {w' : PollWorld} {o : OpId} {op op' : CpoState} {r : SocketRecord}
      (hop : w.ops[o]? = some op) (huns : Unsubmitted op.history)
      (hrec : w.ctx.sockets.record op.desc.id = some r)
      (hop' : w'.ops[o]? = some op') (hsub : .submitted env' (some r.number) ∈ op'.history)
      (hpoll : w'.ctx.poll = w.ctx.poll ++ [{ fd := r.handle, events := op.desc.events }])
      (hout : w'.ctx.outstanding = w.ctx.outstanding ++ [o]) : VectorCases w (.perform env) w'
  | removed {env : Env} {w' : PollWorld} {o : OpId} (hmem : o ∈ w.ctx.outstanding)
      (hpoll : w'.ctx.poll = swapRemove w.ctx.poll (w.ctx.outstanding.idxOf o))
      (hout : w'.ctx.outstanding = swapRemove w.ctx.outstanding (w.ctx.outstanding.idxOf o)) :
      VectorCases w (.ready o env) w'

theorem RunInv.vector_cases (h : RunInv prompt w) {l : Label} (hstep : w.step l = some w') :
    VectorCases w l w' ∧ w.ctx.sockets.Steps w'.ctx.sockets := by
  obtain ⟨hc, hcases⟩ := step_cases hstep
  cases hcases with
  | start | notReleased | userReturn | callback | stopDone => exact ⟨.same rfl rfl, .refl _⟩
  | requestStop =>
    unfold World.requestStop
    split <;> exact ⟨.same rfl rfl, .refl _⟩
  | makeSocket hmay hfresh hmake => exact ⟨.same rfl rfl, .of_makeSocket hfresh hmake⟩
  | released hmay hrelease => exact ⟨.same rfl rfl, .of_release hrelease⟩
  | @perform env o m rest op e htodo hop he =>
    cases hf : e.fault with
    | true =>
      rw [apply_of_fault hf]
      exact ⟨.same rfl rfl, .refl _⟩
    | false =>
      have hctx : (w.apply o rest e).ctx = e.ctx := apply_ctx hf
      have hphase := h.phase hc o op hop
      rw [htodo, frames_op_self] at hphase
      by_cases hm : m = .submit
      · subst hm
        have hearly := hphase.early_of_submit
        obtain ⟨-, -, hsteps, hvector⟩ := perform_submit hearly h.blocking he hf
        rw [hctx]
        refine ⟨?_, hsteps⟩
        cases hvector with
        | added env' r hrec hreg hsub =>
          refine .added hop hearly.unsubmitted hrec ?_ hsub ?_ ?_
          · rw [apply_ops]
            exact getElem?_set_of_some hop
          · rw [hctx, hreg]
            rfl
          · rw [hctx, hreg]
            rfl
        | same hpoll hout => exact .same (by rw [hctx, hpoll]) (by rw [hctx, hout])
      · have hsame := (hphase.perform h.blocking he hf).2 hm
        rw [hctx, hsame]
        exact ⟨.same (by rw [hctx, hsame]) (by rw [hctx, hsame]), .refl _⟩
  | @ready env o op e htodo hop hreg he =>
    cases hf : e.fault with
    | true =>
      rw [apply_of_fault hf]
      exact ⟨.same rfl rfl, .refl _⟩
    | false =>
      have hctx : (w.apply o [] e).ctx = e.ctx := apply_ctx hf
      have hmem : o ∈ w.ctx.outstanding := mem_of_isRegistered hreg
      obtain ⟨op', hop', hsub⟩ := h.submitted o hmem
      cases hop.symm.trans hop'
      have hphase := h.phase hc o op hop
      rw [htodo, World.frames_nil] at hphase
      obtain ⟨-, hpoll, hout, hsteps, -⟩ := hphase.dispatch hsub he hf
      rw [hctx]
      exact ⟨.removed hmem (by rw [hctx, hpoll]) (by rw [hctx, hout]), hsteps⟩

/-- Every step leads from phase to phase. -/
theorem RunInv.phase_step (h : RunInv prompt w) {l : Label} (hstep : w.step l = some w')
    (hc' : w'.crashed = false) (hop' : w'.ops[o]? = some op') :
    Phase prompt (w'.stopped op'.token) op' (frames o w'.todo) := by
  obtain ⟨hc, -⟩ := step_cases hstep
  cases hold : w.ops[o]? with
  | none =>
    obtain ⟨d, token, rfl, rfl, rfl, rfl⟩ := step_new_op hstep hold hop'
    rw [World.start, frames_append, h.frames_length, frames_map_self, List.append_nil]
    exact .starting ⟨rfl, rfl, rfl, by simp, by simp, rfl, rfl, rfl, rfl⟩
  | some op =>
    have hphase := h.phase hc o op hold
    cases step_op hstep hold hop' with
    | same hl hframes =>
      rw [hframes]
      refine hphase.weaken ?_
      rcases step_stopped_eq hstep with heq | hmay
      · exact .inl (by rw [heq])
      · exact .inr ⟨step_stopped hstep, h.frames_nil hold (ne_op_of_userMay hmay o)⟩
    | callback htodo hcb =>
      -- no callback is registered while the stop source looks for one
      have hidle := ne_op_of_cons (o := o) htodo (by simp)
      exact absurd hcb (hphase.not_registered (h.frames_nil hold hidle))
    | @perform env m rest e htodo he =>
      have hf := fault_eq_false hc'
      rw [htodo, frames_op_self] at hphase
      rw [frames_apply_self hf, apply_stopped, (perform_kept he).token]
      exact (hphase.perform h.blocking he hf).1
    | @ready env e htodo hreg he =>
      have hf := fault_eq_false hc'
      have hmem : o ∈ w.ctx.outstanding := mem_of_isRegistered hreg
      obtain ⟨y, hy, hsub⟩ := h.submitted o hmem
      cases hold.symm.trans hy
      rw [htodo, World.frames_nil] at hphase
      rw [frames_apply_self hf, World.frames_nil, List.append_nil, apply_stopped,
        (dispatch_silent he).token]
      exact (hphase.dispatch hsub he hf).1

/-- **Invariant step**: every step of the program and of the event loop preserves the invariant. -/
theorem RunInv.step {l : Label} (h : RunInv prompt w) (hstep : w.step l = some w') :
    RunInv prompt w' := by
  obtain ⟨hvector, hsteps⟩ := h.vector_cases hstep
  refine ⟨h.toStack.step hstep, fun hp => hsteps.blocking (h.blocking hp), ?_, ?_, ?_,
    fun hc' o op' hop' => h.phase_step hstep hc' hop'⟩
  · cases hvector with
    | same hpoll hout =>
      rw [Parallel, hpoll, hout]
      exact h.parallel
    | added _ _ _ _ _ hpoll hout =>
      rw [Parallel, hpoll, hout, List.length_append, List.length_append, h.parallel]
      rfl
    | removed hmem hpoll hout =>
      rw [Parallel, hpoll, hout]
      exact length_swapRemove_eq h.parallel (h.parallel.idxOf_lt hmem)
  · cases hvector with
    | same _ heq =>
      rw [heq]
      exact h.nodup
    | @added _ _ _ o op _ _ hop huns _ _ _ _ heq =>
      rw [heq]
      refine List.nodup_append.mpr ⟨h.nodup, List.nodup_singleton o, fun a ha b hb hab => ?_⟩
      -- what is in the vectors has been submitted before
      obtain ⟨op', hop', hsub⟩ := h.submitted a ha
      rw [hab, List.mem_singleton.mp hb] at hop'
      cases hop.symm.trans hop'
      exact hsub huns
    | removed hmem _ heq =>
      rw [heq]
      exact nodup_swapRemove h.nodup hmem
  · cases hvector with
    | same _ heq =>
      rw [heq]
      exact fun o hmem => h.submitted_step hstep hmem
    | @added _ env' _ o op op' r hop huns _ hop' hsub _ heq =>
      rw [heq]
      intro o' hmem
      rcases List.mem_append.mp hmem with hmem | hmem
      · exact h.submitted_step hstep hmem
      · rw [List.mem_singleton.mp hmem]
        exact ⟨op', hop', fun huns' => huns' env' _ hsub⟩
    | removed hmem _ heq =>
      rw [heq]
      exact fun o' hmem' => h.submitted_step hstep ((mem_swapRemove h.nodup hmem o').mp hmem').2

theorem RunInv.run {ls : List Label} (h : RunInv prompt w) (hrun : World.run w ls = some w') :
    RunInv prompt w' :=
  StepMachine.run_invariant World.step (fun _ _ _ => RunInv.step) h hrun

/-! ## The entries of the vectors -/

/-- The entry is that of the operation: it has the events of its description, and the handle is that
of the socket which the operation was submitted for, as long as its id names this socket. -/
structure Watches (t : Table) (p : Pollfd) (op : CpoState) : Prop where
  events : p.events = op.desc.events
  socket : ∃ env n, .submitted env (some n) ∈ op.history ∧ n < t.made ∧
    ∀ r, t.record op.desc.id = some r → r.number = n → r.handle = p.fd

/-- The entries of the two vectors with one index belong together. -/
structure Watched (w : PollWorld) : Prop where
  sockets : w.ctx.sockets.Ok
  entries : ∀ (i : ℕ) (p : Pollfd) (o : OpId), w.ctx.poll[i]? = some p →
    w.ctx.outstanding[i]? = some o → ∃ op, w.ops[o]? = some op ∧ Watches w.ctx.sockets p op

theorem watched_idle {t : Table} (ht : t.Ok) : Watched (idle t) where
  sockets := ht
  entries i p o hp := by simp [idle] at hp

theorem Watches.step {t t' : Table} {p : Pollfd} (h : Watches t p op) (ht : t.Evolves t')
    (hdesc : op'.desc = op.desc) (hpre : op.history <+: op'.history) : Watches t' p op' := by
  obtain ⟨env, n, hsub, hmade, hhandle⟩ := h.socket
  refine ⟨by rw [h.events, hdesc], env, n, hpre.subset hsub, hmade.trans_le ht.made, ?_⟩
  intro r hr hnum
  rw [hdesc] at hr
  -- a socket that was made since has another number
  rcases ht.record _ r hr with hr | hnew
  · exact hhandle r hr hnum
  · omega

theorem Watched.step {l : Label} (hw : Watched w) (h : RunInv prompt w)
    (hstep : w.step l = some w') : Watched w' := by
  obtain ⟨hvector, hsteps⟩ := h.vector_cases hstep
  have hevolves := hsteps.evolves hw.sockets
  refine ⟨hsteps.ok hw.sockets, fun i p o hp ho => ?_⟩
  have hold : ∀ j : ℕ, w.ctx.poll[j]? = some p → w.ctx.outstanding[j]? = some o →
      ∃ op, w'.ops[o]? = some op ∧ Watches w'.ctx.sockets p op := by
    intro j hp ho
    obtain ⟨op, hop, hwatches⟩ := hw.entries j p o hp ho
    obtain ⟨op', hop', hdesc, -, hpre⟩ := step_grows hstep hop
    exact ⟨op', hop', hwatches.step hevolves hdesc hpre⟩
  cases hvector with
  | same hpoll hout => exact hold i (hpoll ▸ hp) (hout ▸ ho)
  | @added _ env' _ o' op op' r hop huns hrec hop' hsub hpoll hout =>
    rw [hpoll] at hp
    rw [hout] at ho
    rcases getElem?_concat_cases hp with ⟨hi, rfl⟩ | ⟨hlt, hp⟩
    · rcases getElem?_concat_cases ho with ⟨-, rfl⟩ | ⟨hlt, ho⟩
      · obtain ⟨x, hx, hdesc, -, -⟩ := step_grows hstep hop
        cases hx.symm.trans hop'
        refine ⟨op', hop', by rw [hdesc], env', r.number, hsub, ?_, fun r' hr' hnum => ?_⟩
        · exact (hw.sockets.liveMade _ r hrec).1.trans_le hevolves.made
        · rw [hdesc] at hr'
          rcases hevolves.record _ r' hr' with hr' | hnew
          · cases hrec.symm.trans hr'
            rfl
          · have := (hw.sockets.liveMade _ r hrec).1
            omega
      -- the vectors are parallel
      · have := h.parallel
        rw [Parallel] at this
        omega
    · rcases getElem?_concat_cases ho with ⟨hi, rfl⟩ | ⟨-, ho⟩
      · have := h.parallel
        rw [Parallel] at this
        omega
      · exact hold i hp ho
  | removed hmem hpoll hout =>
    rw [hpoll] at hp
    rw [hout] at ho
    obtain ⟨k, hp', ho'⟩ := getElem?_of_swapRemove h.parallel (h.parallel.idxOf_lt hmem) hp ho
    exact hold k hp' ho'

end Step

end PollContext

end Stdnet
