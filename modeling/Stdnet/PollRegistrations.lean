import Stdnet.Library.StepMachine
import Stdnet.PollLoop

/-!
# Registrations of the poll Context

The two vectors of the context stay parallel, and every registration is dispatched once or still
there.

## Main results

- `exec_adds`: a `_Work` only appends registrations.
- `runOne_spec`: a `run_one` that returns 1 has removed one registration, whose own descriptor was
  reported, before it ran its `_Work`.
- `run_spec`: the result of `run`.
- `registrations_conserved`: the three, in every state that a program reaches.
-/

namespace Stdnet

namespace PollContext

open SwapRemove

/-- The registrations in the two vectors. -/
def registrations (ctx : PollContext) : List Registration :=
  List.zipWith (fun p o => ⟨o, p.fd, p.events⟩) ctx.poll ctx.outstanding

theorem Parallel.length_registrations {ctx : PollContext} (h : ctx.Parallel) :
    ctx.registrations.length = ctx.poll.length := by
  rw [registrations, List.length_zipWith, ← h, Nat.min_self]

/-! ## Registering -/

/-- From `s` to `s'` the registrations `new` were made and nothing else happened to the vectors. -/
structure Adds (s s' : Run) (new : List Registration) : Prop where
  parallel : s'.ctx.Parallel
  made : s'.made = s.made ++ new
  dispatched : s'.dispatched = s.dispatched
  kept : s'.ctx.registrations = s.ctx.registrations ++ new

theorem Adds.refl {s : Run} (h : s.ctx.Parallel) : Adds s s [] where
  parallel := h
  made := (List.append_nil _).symm
  dispatched := rfl
  kept := (List.append_nil _).symm

theorem Adds.trans {s t u : Run} {new new' : List Registration} (h : Adds s t new)
    (h' : Adds t u new') : Adds s u (new ++ new') where
  parallel := h'.parallel
  made := by rw [h'.made, h.made, List.append_assoc]
  dispatched := h'.dispatched.trans h.dispatched
  kept := by rw [h'.kept, h.kept, List.append_assoc]

theorem adds_withSockets {s : Run} (h : s.ctx.Parallel) (t : Table) :
    Adds s (s.withSockets t) [] where
  parallel := h
  made := (List.append_nil _).symm
  dispatched := rfl
  kept := (List.append_nil _).symm

theorem adds_register {s : Run} (h : s.ctx.Parallel) (r : Registration) :
    Adds s (s.register r) [r] where
  parallel := by
    show (s.ctx.poll ++ [_]).length = (s.ctx.outstanding ++ [r.op]).length
    rw [List.length_append, List.length_append, h]
    rfl
  made := rfl
  dispatched := rfl
  kept := by
    show List.zipWith _ (s.ctx.poll ++ [_]) (s.ctx.outstanding ++ [r.op]) = _
    rw [List.zipWith_append h]
    rfl

/-- What a `_Work` that only adds registrations leaves `_Add_Outstanding` to do. -/
theorem addOutstanding_adds {s s' : Run} {o : OpId} {id : SocketId} {events : BitVec 16} {b : Bool}
    {work : Run → Except Fault (Run × Bool)} (h : s.ctx.Parallel)
    (hwork : ∀ {t b}, work s = .ok (t, b) → ∃ new, Adds s t new)
    (hadd : addOutstanding s o id events work = .ok (s', b)) : ∃ new, Adds s s' new := by
  unfold addOutstanding at hadd
  split at hadd
  next => cases hadd
  next r hget =>
    have hcall : ∀ {t b}, (if r.blocking then Except.ok (s, false) else work s) = .ok (t, b) →
        ∃ new, Adds s t new := by
      intro t b ht
      split at ht
      · cases ht
        exact ⟨[], .refl h⟩
      · exact hwork ht
    split at hadd
    next => cases hadd
    next t ht =>
      cases hadd
      exact hcall ht
    next t ht =>
      obtain ⟨new, hnew⟩ := hcall ht
      split at hadd
      next => cases hadd
      next fd hfd =>
        cases hadd
        exact ⟨_, hnew.trans (adds_register hnew.parallel ⟨o, fd, events⟩)⟩

/-- **Registrations only**: whatever a `_Work` does, the entries that were in the vectors stay. -/
theorem exec_adds (work : Script) {s s' : Run} {b : Bool} (h : s.ctx.Parallel)
    (hexec : work.exec s = .ok (s', b)) : ∃ new, Adds s s' new := by
  induction work generalizing s s' b with
  | done result =>
    cases hexec
    exact ⟨[], .refl h⟩
  | makeSocket fd rest ih =>
    simp only [Script.exec] at hexec
    split at hexec
    next => cases hexec
    next id t ht =>
      obtain ⟨new, hnew⟩ := ih (adds_withSockets h t).parallel hexec
      exact ⟨_, (adds_withSockets h t).trans hnew⟩
  | release id close rest ih =>
    simp only [Script.exec] at hexec
    split at hexec
    next => cases hexec
    next t e ht =>
      obtain ⟨new, hnew⟩ := ih (adds_withSockets h t).parallel hexec
      exact ⟨_, (adds_withSockets h t).trans hnew⟩
  | add o id events work rest ihWork ih =>
    simp only [Script.exec] at hexec
    split at hexec
    next => cases hexec
    next t b' ht =>
      obtain ⟨new, hnew⟩ := addOutstanding_adds h (ihWork h) ht
      obtain ⟨new', hnew'⟩ := ih hnew.parallel hexec
      exact ⟨_, hnew.trans hnew'⟩

/-! ## One `run_one` -/

theorem registrations_report {ctx : PollContext} {revents : List (BitVec 16)}
    (hlen : revents.length = ctx.poll.length) :
    ({ ctx with poll := report ctx.poll revents } : PollContext).registrations =
      ctx.registrations := by
  unfold registrations report
  apply List.ext_getElem?
  intro i
  simp only [List.getElem?_zipWith]
  cases hp : ctx.poll[i]? with
  | none => simp
  | some p =>
    -- there is a reported mask for every entry
    have hi : i < revents.length := hlen ▸ (List.getElem?_eq_some_iff.mp hp).1
    rw [List.getElem?_eq_getElem hi]
    cases ctx.outstanding[i]? <;> rfl

theorem length_report {ps : List Pollfd} {revents : List (BitVec 16)}
    (hlen : revents.length = ps.length) : (report ps revents).length = ps.length := by
  rw [report, List.length_zipWith, hlen, Nat.min_self]

/-- The scan finds an entry that is reported. -/
theorem scan_spec {ps : List Pollfd} {n i : ℕ} (h : scan ps n = some i) :
    ∃ p, ps[i]? = some p ∧ reported p = true := by
  induction n with
  | zero => cases h
  | succ n ih =>
    simp only [scan] at h
    split at h
    next p hp =>
      split at h
      next hrep =>
        cases h
        exact ⟨p, hp, hrep⟩
      next => exact ih h
    next => exact ih h

theorem registrations_remove {ctx : PollContext} (h : ctx.Parallel) {i : ℕ}
    (hi : i < ctx.poll.length) :
    (ctx.remove i).Parallel ∧ (ctx.remove i).registrations = swapRemove ctx.registrations i :=
  ⟨length_swapRemove_eq h hi, zipWith_swapRemove _ h hi⟩

/-- A `run_one` from `s` to `s'` that returns 1: in the state `mid` exactly one registration is
gone, whose own descriptor the last `::poll` reported, and then its `_Work` is run. -/
structure Dispatches (s : Run) (e : Input) (s' : Run) (reg : Registration) (mid : Run) : Prop where
  reported : ∃ (revents : List (BitVec 16)) (i : ℕ) (r : BitVec 16),
    e.results.getLast? = some (.ok revents) ∧
    s.ctx.registrations[i]? = some reg ∧ revents[i]? = some r ∧ r &&& (reg.events ||| POLLERR) ≠ 0
  parallel : mid.ctx.Parallel
  removed : (reg :: mid.ctx.registrations).Perm s.ctx.registrations
  made : mid.made = s.made
  dispatched : mid.dispatched = s.dispatched ++ [reg]
  work : ∃ b, e.work.exec mid = .ok (s', b)

/-- A `run_one` that returns 0 leaves the registrations alone; the last `::poll` failed. -/
structure Fails (s : Run) (e : Input) (s' : Run) : Prop where
  failed : ∃ errno, .fail errno ∈ e.results ∧ ¬ retries errno
  adds : Adds s s' []

theorem dispatchAt_spec {s s' : Run} {i c : ℕ} {work : Script} (h : s.ctx.Parallel)
    (hcall : dispatchAt s i work = some (.ok (s', c))) :
    c = 1 ∧ ∃ p reg mid, s.ctx.poll[i]? = some p ∧ s.ctx.registrations[i]? = some reg ∧
      reg.events = p.events ∧ mid.ctx.Parallel ∧
      (reg :: mid.ctx.registrations).Perm s.ctx.registrations ∧ mid.made = s.made ∧
      mid.dispatched = s.dispatched ++ [reg] ∧ ∃ b, work.exec mid = .ok (s', b) := by
  unfold dispatchAt at hcall
  split at hcall
  next p o hp ho =>
    simp only [Option.some.injEq] at hcall
    have hi : i < s.ctx.poll.length := (List.getElem?_eq_some_iff.mp hp).1
    have hreg : s.ctx.registrations[i]? = some ⟨o, p.fd, p.events⟩ := by
      rw [registrations, List.getElem?_zipWith, hp, ho]
    have hi' : i < s.ctx.registrations.length := by
      rw [h.length_registrations]
      exact hi
    obtain ⟨hparallel, hremoved⟩ := registrations_remove h hi
    -- the entry is gone before `_Work` is run
    cases hexec : work.exec { s with
        ctx := s.ctx.remove i, dispatched := s.dispatched ++ [⟨o, p.fd, p.events⟩] } with
    | error f =>
      rw [hexec] at hcall
      cases hcall
    | ok t =>
      obtain ⟨t, b⟩ := t
      rw [hexec] at hcall
      cases hcall
      refine ⟨rfl, p, _, { s with
        ctx := s.ctx.remove i, dispatched := s.dispatched ++ [⟨o, p.fd, p.events⟩] },
        hp, hreg, rfl, hparallel, ?_, rfl, rfl, b, hexec⟩
      rw [hremoved]
      have hget : s.ctx.registrations[i] = ⟨o, p.fd, p.events⟩ := by
        rw [List.getElem?_eq_getElem hi', Option.some.injEq] at hreg
        exact hreg
      rw [← hget]
      exact cons_perm hi'
  next => cases hcall

/-- What the loop does, whatever the results of `::poll`. -/
theorem loop_spec {s s' : Run} {c : ℕ} {work : Script} {results : List PollResult}
    (h : s.ctx.Parallel) (hcall : loop s work results = some (.ok (s', c))) :
    (c = 0 ∧ Fails s ⟨results, work⟩ s') ∨
      (c = 1 ∧ ∃ reg mid, Dispatches s ⟨results, work⟩ s' reg mid) := by
  induction results generalizing s with
  | nil => cases hcall
  | cons result rest ih =>
    -- a call that is repeated leaves the registrations as they are
    have hagain : ∀ {t : Run}, Adds s t [] → loop t work rest = some (.ok (s', c)) →
        (c = 0 ∧ Fails s ⟨result :: rest, work⟩ s') ∨
          (c = 1 ∧ ∃ reg mid, Dispatches s ⟨result :: rest, work⟩ s' reg mid) := by
      intro t ht hloop
      have hkept : t.ctx.registrations = s.ctx.registrations := by
        rw [ht.kept, List.append_nil]
      have hne : rest ≠ [] := by
        rintro rfl
        cases hloop
      rcases ih ht.parallel hloop with ⟨hc, hfails⟩ | ⟨hc, reg, mid, hdis⟩
      · obtain ⟨errno, hmem, hhard⟩ := hfails.failed
        exact .inl ⟨hc, ⟨errno, List.mem_cons_of_mem _ hmem, hhard⟩, ht.trans hfails.adds⟩
      · obtain ⟨revents, i, r, hlast, hreg, hr, hbits⟩ := hdis.reported
        have hlast' : (result :: rest).getLast? = some (.ok revents) := by
          obtain ⟨r', rest', rfl⟩ := List.exists_cons_of_ne_nil hne
          rw [List.getLast?_cons_cons]
          exact hlast
        refine .inr ⟨hc, reg, mid, ⟨revents, i, r, hlast', hkept ▸ hreg, hr, hbits⟩, hdis.parallel,
          hkept ▸ hdis.removed, hdis.made.trans ?_, hdis.dispatched.trans ?_, hdis.work⟩
        · rw [ht.made, List.append_nil]
        · rw [ht.dispatched]
    cases result with
    | fail errno =>
      simp only [loop] at hcall
      -- `EINTR` and `EAGAIN` repeat the call, any other error ends the loop
      split at hcall
      next => exact hagain (.refl h) hcall
      next hhard =>
        split at hcall
        next =>
          cases hcall
          exact .inl ⟨rfl, ⟨errno, List.mem_cons_self, hhard⟩, .refl h⟩
        next => cases hcall
    | ok revents =>
      simp only [loop] at hcall
      split at hcall
      next hlen =>
        have hregs := registrations_report hlen
        have hparallel :
            ({ s.ctx with poll := report s.ctx.poll revents } : PollContext).Parallel := by
          show (report s.ctx.poll revents).length = s.ctx.outstanding.length
          rw [length_report hlen]
          exact h
        split at hcall
        next i hscan =>
          split at hcall
          next hrest =>
            obtain ⟨rfl, p, reg, mid, hp, hreg, hevents, hpar, hperm, hmade, hdisp, hwork⟩ :=
              dispatchAt_spec hparallel hcall
            obtain ⟨p', hp', hrep⟩ := scan_spec hscan
            cases hp.symm.trans hp'
            rw [hregs] at hreg hperm
            refine .inr ⟨rfl, reg, mid, ⟨revents, i, p.revents, ?_, hreg, ?_, ?_⟩, hpar, hperm, hmade,
              hdisp, hwork⟩
            · rw [hrest]
              rfl
            · -- the mask in the entry is the one that `::poll` wrote
              have hp' : (report s.ctx.poll revents)[i]? = some p := hp
              simp only [report, List.getElem?_zipWith] at hp'
              split at hp'
              next q r hq hr =>
                cases hp'
                exact hr
              next => cases hp'
            · rw [hevents]
              simpa [reported] using hrep
          next => cases hcall
        -- nothing that was asked for is reported: `::poll` is called again
        next hscan =>
          have hadds :
              Adds s { s with ctx := { s.ctx with poll := report s.ctx.poll revents } } [] :=
            ⟨hparallel, (List.append_nil _).symm, rfl, hregs.trans (List.append_nil _).symm⟩
          exact hagain hadds hcall
      next => cases hcall

/-- **One `run_one`**: it finds the vectors empty, or `::poll` fails, or it dispatches one
operation. -/
theorem runOne_spec {s s' : Run} {e : Input} {c : ℕ} (h : s.ctx.Parallel)
    (hcall : runOne s e = some (.ok (s', c))) :
    (c = 0 ∧ s.ctx.poll = [] ∧ s' = s) ∨ (c = 0 ∧ Fails s e s') ∨
      (c = 1 ∧ ∃ reg mid, Dispatches s e s' reg mid) := by
  unfold runOne at hcall
  split at hcall
  next hempty =>
    split at hcall
    next =>
      cases hcall
      exact .inl ⟨rfl, hempty, rfl⟩
    next => cases hcall
  next => exact .inr (loop_spec h hcall)

/-! ## Runs -/

/-- The invariant: the vectors are parallel, and the registrations made are those dispatched and
those still there. -/
structure Sound (s : Run) : Prop where
  parallel : s.ctx.Parallel
  conserved : s.made.Perm (s.dispatched ++ s.ctx.registrations)

theorem sound_empty : Sound {} where
  parallel := rfl
  conserved := .refl _

theorem Adds.sound {s s' : Run} {new : List Registration} (h : Adds s s' new) (hs : Sound s) :
    Sound s' where
  parallel := h.parallel
  conserved := by
    rw [h.made, h.dispatched, h.kept, ← List.append_assoc]
    exact hs.conserved.append_right new

/-- What a dispatch adds: the `_Work` only appends. -/
theorem Dispatches.adds {s s' mid : Run} {e : Input} {reg : Registration}
    (h : Dispatches s e s' reg mid) : ∃ new, Adds mid s' new := by
  obtain ⟨b, hwork⟩ := h.work
  exact exec_adds e.work h.parallel hwork

theorem Dispatches.sound {s s' mid : Run} {e : Input} {reg : Registration}
    (h : Dispatches s e s' reg mid) (hs : Sound s) : Sound s' := by
  have hmid : Sound mid := by
    refine ⟨h.parallel, ?_⟩
    rw [h.made, h.dispatched, List.append_assoc]
    exact hs.conserved.trans (h.removed.symm.append_left s.dispatched)
  obtain ⟨new, hnew⟩ := h.adds
  exact hnew.sound hmid

/-- The balance of a call that dispatches `n` registrations. -/
def Balance (s s' : Run) (n : ℕ) : Prop :=
  ∃ new, s'.made = s.made ++ new ∧
    s.ctx.registrations.length + new.length = n + s'.ctx.registrations.length

theorem Adds.balance {s s' : Run} {new : List Registration} (h : Adds s s' new) : Balance s s' 0 :=
  ⟨new, h.made, by rw [h.kept, List.length_append, Nat.zero_add]⟩

theorem Dispatches.balance {s s' mid : Run} {e : Input} {reg : Registration}
    (h : Dispatches s e s' reg mid) : Balance s s' 1 := by
  obtain ⟨new, hnew⟩ := h.adds
  have hlen := h.removed.length_eq
  refine ⟨new, by rw [hnew.made, h.made], ?_⟩
  rw [hnew.kept, List.length_append, ← hlen, List.length_cons]
  omega

theorem Balance.trans {s t u : Run} {n m : ℕ} (h : Balance s t n) (h' : Balance t u m) :
    Balance s u (n + m) := by
  obtain ⟨new, hmade, hlen⟩ := h
  obtain ⟨new', hmade', hlen'⟩ := h'
  refine ⟨new ++ new', by rw [hmade', hmade, List.append_assoc], ?_⟩
  rw [List.length_append]
  omega

/-- Every call of `run_one` keeps the invariant and counts what it dispatches. -/
theorem runOne_sound {s s' : Run} {e : Input} {c : ℕ} (h : Sound s)
    (hcall : runOne s e = some (.ok (s', c))) :
    Sound s' ∧ Balance s s' c ∧
      (c = 0 → s.ctx.poll = [] ∧ s' = s ∨ ∃ errno, .fail errno ∈ e.results ∧ ¬ retries errno) := by
  rcases runOne_spec h.parallel hcall with ⟨rfl, hnil, rfl⟩ | ⟨rfl, hfails⟩ | ⟨rfl, reg, mid, hdis⟩
  · exact ⟨h, (Adds.refl h.parallel).balance, fun _ => .inl ⟨hnil, rfl⟩⟩
  · exact ⟨hfails.adds.sound h, hfails.adds.balance, fun _ => .inr hfails.failed⟩
  · exact ⟨hdis.sound h, hdis.balance, nofun⟩

/-- **The result of `run`**: unless `::poll` fails, it returns with empty vectors and has dispatched
everything that was there and everything that was registered meanwhile. -/
theorem run_spec {es : List Input} {s s' : Run} {count n : ℕ} (h : Sound s)
    (hcall : run s count es = some (.ok (s', n))) :
    Sound s' ∧ (∃ k, n = count + k ∧ Balance s s' k) ∧
      ((∀ e ∈ es, ∀ errno, .fail errno ∈ e.results → retries errno) → s'.ctx.poll = []) := by
  induction es generalizing s count with
  | nil => cases hcall
  | cons e es ih =>
    simp only [run] at hcall
    split at hcall
    next => cases hcall
    next => split at hcall <;> cases hcall
    next t c hone =>
      obtain ⟨hsound, hbalance, hzero⟩ := runOne_sound h hone
      split at hcall
      next hc =>
        split at hcall
        next =>
          cases hcall
          subst hc
          refine ⟨hsound, ⟨0, rfl, hbalance⟩, fun hpoll => ?_⟩
          rcases hzero rfl with ⟨hnil, rfl⟩ | ⟨errno, hmem, hhard⟩
          · exact hnil
          · exact absurd (hpoll e List.mem_cons_self errno hmem) hhard
        next => cases hcall
      next =>
        obtain ⟨hsound', ⟨k, hk, hbalance'⟩, hnil⟩ := ih hsound hcall
        refine ⟨hsound', ⟨c + k, by omega, hbalance.trans hbalance'⟩, fun hpoll => ?_⟩
        exact hnil fun e' he' => hpoll e' (List.mem_cons_of_mem _ he')

/-- Every call of a program keeps the invariant. -/
theorem Sound.step {s s' : Run} {k : Call} (h : Sound s) (hstep : s.step k = some s') :
    Sound s' := by
  cases k with
  | makeSocket fd =>
    simp only [Run.step] at hstep
    split at hstep
    next id t ht =>
      obtain rfl := Option.some.inj hstep
      exact (adds_withSockets h.parallel t).sound h
    next => cases hstep
  | release id close =>
    simp only [Run.step] at hstep
    split at hstep
    next t e ht =>
      obtain rfl := Option.some.inj hstep
      exact (adds_withSockets h.parallel t).sound h
    next => cases hstep
  | add o id events work =>
    simp only [Run.step] at hstep
    split at hstep
    next t b ht =>
      obtain rfl := Option.some.inj hstep
      obtain ⟨new, hnew⟩ := addOutstanding_adds h.parallel (exec_adds work h.parallel) ht
      exact hnew.sound h
    next => cases hstep
  | runOne e =>
    simp only [Run.step] at hstep
    split at hstep
    next t c ht =>
      obtain rfl := Option.some.inj hstep
      exact (runOne_sound h ht).1
    next => cases hstep
  | run es =>
    simp only [Run.step] at hstep
    split at hstep
    next t c ht =>
      obtain rfl := Option.some.inj hstep
      exact (run_spec h ht).1
    next => cases hstep

/-- **Conservation of registrations**, in every state that a sequence of calls reaches:

- the vectors have equal length, each entry is a registration that was made, and the registrations
  made are, as a multiset, those dispatched and those still there;
- a `run_one` that returns 1 has removed exactly one registration, whose own descriptor reported a
  requested event or `POLLERR`, and kept all others, before its `_Work` was run;
- a `run` during which `::poll` did not fail returns with empty vectors, and its result is the
  number of registrations that were present and that were made during it. -/
theorem registrations_conserved {ks : List Call} {s : Run}
    (hrun : StepMachine.run Run.step {} ks = some s) :
    (s.ctx.poll.length = s.ctx.outstanding.length ∧
      (∀ (i : ℕ) (p : Pollfd) (o : OpId), s.ctx.poll[i]? = some p → s.ctx.outstanding[i]? = some o →
        ⟨o, p.fd, p.events⟩ ∈ s.made) ∧
      s.made.Perm (s.dispatched ++ s.ctx.registrations)) ∧
    (∀ (e : Input) (s' : Run), runOne s e = some (.ok (s', 1)) →
      ∃ (reg : Registration) (mid : Run) (new : List Registration),
        Dispatches s e s' reg mid ∧ Adds mid s' new) ∧
    (∀ (es : List Input) (s' : Run) (n : ℕ), run s 0 es = some (.ok (s', n)) →
      (∀ e ∈ es, ∀ errno, .fail errno ∈ e.results → retries errno) →
      s'.ctx.poll = [] ∧ s'.ctx.outstanding = [] ∧
        ∃ new, s'.made = s.made ++ new ∧ n = s.ctx.registrations.length + new.length) := by
  have h : Sound s :=
    StepMachine.run_invariant Run.step (fun _ _ _ => Sound.step) sound_empty hrun
  refine ⟨⟨h.parallel, fun i p o hp ho => ?_, h.conserved⟩, fun e s' hcall => ?_,
    fun es s' n hcall hpoll => ?_⟩
  · rw [h.conserved.mem_iff, List.mem_append]
    refine .inr (List.mem_of_getElem? (i := i) ?_)
    rw [registrations, List.getElem?_zipWith, hp, ho]
  · rcases runOne_spec h.parallel hcall with ⟨hc, -⟩ | ⟨hc, -⟩ | ⟨-, reg, mid, hdis⟩
    · cases hc
    · cases hc
    · obtain ⟨new, hnew⟩ := hdis.adds
      exact ⟨reg, mid, new, hdis, hnew⟩
  · obtain ⟨hsound, ⟨k, hk, new, hmade, hlen⟩, hnil⟩ := run_spec h hcall
    have hpoll' := hnil hpoll
    have hout : s'.ctx.outstanding = [] :=
      List.eq_nil_of_length_eq_zero (by rw [← hsound.parallel, hpoll']; rfl)
    have hregs : s'.ctx.registrations = [] := by rw [registrations, hpoll', List.zipWith_nil_left]
    rw [hregs, List.length_nil, Nat.add_zero] at hlen
    exact ⟨hpoll', hout, new, hmade, by omega⟩

/-- Two accepts on one socket; the `_Work` of the one that is dispatched first starts a third
one. -/
def threeAccepts : List Call :=
  [.makeSocket 7, .add 0 0 POLLIN (.done true), .add 1 0 POLLIN (.done true),
    .runOne ⟨[.fail EINTR, .ok [POLLIN, 0]], .add 2 0 POLLIN (.done true) (.done true)⟩]

/-- Nothing is lost: the first is dispatched, the second and the third are still registered. -/
theorem registrations_conserved_threeAccepts : ∃ s : Run,
    StepMachine.run Run.step {} threeAccepts = some s ∧
      s.dispatched = [⟨0, 7, POLLIN⟩] ∧ s.ctx.outstanding = [1, 2] ∧
      s.made.Perm (s.dispatched ++ s.ctx.registrations) := by
  have hrun : StepMachine.run Run.step {} threeAccepts = some _ := rfl
  exact ⟨_, hrun, rfl, rfl, (registrations_conserved hrun).1.2.2⟩

end PollContext

end Stdnet
