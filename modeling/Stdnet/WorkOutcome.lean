import Stdnet.History

/-!
# Outcomes of the Work Functions

Every `_Work` function ends in one of three ways: the lookup of the handle throws, the results of
its calls settle the operation, or the operation has to wait for another readiness indication.

## Main results

- `settled_of_loop`, `waiting_of_loop`: the two ways in which a loop of calls ends.
- `work_spec`: the outcomes of the `_Work` of any operation.
- `work_result`: when `_Work` returns false.
-/

namespace Stdnet

open History

/-- The value that a settled operation is about to deliver: for an accept, an id under which the
table has the accepted handle; for a receive or send, the count. -/
def Delivers (t : Table) (op : CpoState) : WorkEnd → Prop
  | .value n =>
    match op.desc with
    | .accept _ => ∃ id r, op.acceptId = some id ∧ t.record id = some r ∧ r.handle = n
    | .receive _ | .send _ => op.count = n
    | _ => True
  | .closed =>
    match op.desc with
    | .receive _ | .send _ => op.count = 0
    | _ => False
  | .error _ => True
  | .wouldBlock => False

/-- An entry that a `_Work` function makes in the history. -/
def IsWork (e : OpEvent) : Prop :=
  match e with
  | .called _ _ | .soError _ | .worked _ => True
  | _ => False

theorem signals_of_isWork {added : List OpEvent} (h : ∀ e ∈ added, IsWork e) :
    History.signals added = [] := by
  rw [History.signals, List.filterMap_eq_nil_iff]
  intro e he
  cases e <;> first | rfl | exact (h _ he).elim

theorem deferred_of_isWork {d : Desc} {added : List OpEvent} (h : ∀ e ∈ added, IsWork e) :
    Deferred d added :=
  ⟨fun hmem => (h _ hmem).elim, fun _ _ hmem => (h _ hmem).elim⟩

/-- The operation has a socket: the timers have none. -/
def Desc.onSocket : Desc → Prop
  | .accept _ | .connect _ | .receive _ | .send _ => True
  | .resumeAfter _ | .resumeAt _ => False

/-- The `switch (errno)` of an operation whose `_Work` is a loop. -/
def Desc.loop? : Desc → Option (ℤ → Option WorkEnd)
  | .accept _ => some acceptSwitch
  | .receive _ | .send _ => some transferSwitch
  | .connect _ | .resumeAfter _ | .resumeAt _ => none

/-- The calls are made on the socket that the id of the operation names now, and there are some if
the operation is one on a socket. -/
structure CallsOn (t : Table) (op : CpoState) (added : List OpEvent) : Prop where
  number : ∀ n r, .called n r ∈ added → ∃ rec, t.record op.desc.id = some rec ∧ rec.number = n
  some_call : op.desc.onSocket ↔ ∃ n r, .called n r ∈ added

/-- The outcomes of a `_Work` function: the id of the operation is not live; the calls settled the
operation; or they leave it waiting, and one of them reported EWOULDBLOCK. -/
inductive WorkCases (t : Table) (op : CpoState) (wk : Worked) : Prop where
  | stray (hon : op.desc.onSocket) (hnone : t.record op.desc.id = none) (htable : wk.table = t)
      (hop : wk.op = op.log .stray) (hfault : wk.fault = true)
  -- the last call settled the operation, so `_Work` called `_Complete` or `_Error`
  | settled (w : WorkEnd) (a : Option SocketId) (n : ℕ) (added : List OpEvent)
      (hext : t.Ok → t.Extends wk.table) (hadded : ∀ e ∈ added, IsWork e) (hcalls : CallsOn t op added)
      (hop : wk.op = { op with acceptId := a, count := n, history := op.history ++ added })
      (hfind : findings op.desc added = [w]) (hnext : wk.next = [.reset, w.report])
      (hdelivers : t.Ok → Delivers wk.table wk.op w) (hfault : wk.fault = false)
      (hresult : wk.result = true)
  | waiting (added : List OpEvent) (htable : wk.table = t) (hadded : ∀ e ∈ added, IsWork e)
      (hcalls : CallsOn t op added)
      (hop : wk.op = { op with history := op.history ++ added })
      (hfind : findings op.desc added = []) (hnext : wk.next = [])
      (hblock : .fail EWOULDBLOCK ∈ calls added) (hfault : wk.fault = false)
      (hresult : wk.result = false)

theorem settle_none : settle none = none := rfl

theorem settle_some {w : WorkEnd} (h : w ≠ .wouldBlock) : settle (some w) = some w := by
  cases w <;> first | rfl | exact absurd rfl h

/-- Only EWOULDBLOCK makes a loop give up. -/
theorem verdict_accept_wouldBlock {r : SysResult} (h : verdict acceptSwitch r = some .wouldBlock) :
    r = .fail EWOULDBLOCK := by
  cases r with
  | ok rc => cases h
  | fail e =>
    simp only [verdict, acceptSwitch] at h
    split_ifs at h with h1 h2
    · rw [h2]
    · cases h

theorem verdict_transfer_wouldBlock {r : SysResult}
    (h : verdict transferSwitch r = some .wouldBlock) : r = .fail EWOULDBLOCK := by
  cases r with
  | ok rc => cases h
  | fail e =>
    simp only [verdict, transferSwitch] at h
    split_ifs at h with h1 h2 h3
    · cases h
    · rw [h3]
    · cases h

/-- An operation with a loop is one on a socket. -/
theorem Desc.onSocket_of_loop {d : Desc} (h : d.loop?.isSome) : d.onSocket := by
  cases d <;> trivial

/-! ## Loops -/

section Loop

variable {d : Desc} {switch : ℤ → Option WorkEnd} {rs : List SysResult} {w : WorkEnd} {t t' : Table}
  {op : CpoState} {rec : SocketRecord} {env : Env}

theorem decides_called (hd : d.loop? = some switch) (n : ℕ) (r : SysResult) :
    d.decides (.called n r) = settle (verdict switch r) := by
  cases d <;> cases hd <;> rfl

theorem decides_worked (hd : d.loop? = some switch) (b : Bool) : d.decides (.worked b) = none := by
  cases d <;> cases hd <;> rfl

/-- What a loop ends with is what its calls settle. -/
theorem findings_loop (hd : d.loop? = some switch) (h : workLoop switch rs = some w) (number : ℕ)
    (b : Bool) :
    findings d (rs.map (.called number) ++ [.worked b]) = (settle (some w)).toList := by
  obtain ⟨again, last, rfl, hagain, hlast⟩ := workLoop_eq_some.mp h
  -- only the last call is not followed by another one
  have hskip : findings d (again.map (.called number)) = [] := by
    rw [findings, List.filterMap_eq_nil_iff]
    intro e he
    obtain ⟨r, hr, rfl⟩ := List.mem_map.mp he
    rw [decides_called hd, hagain r hr, settle_none]
  rw [findings_append, findings_singleton, decides_worked hd, Option.toList_none, List.append_nil,
    List.map_append, findings_append, hskip, List.nil_append, List.map_singleton,
    findings_singleton, decides_called hd, hlast]

theorem calls_map_called (number : ℕ) (rs : List SysResult) :
    calls (rs.map (.called number)) = rs := by
  induction rs with
  | nil => rfl
  | cons r rs ih =>
    simp only [List.map_cons, calls, List.filterMap_cons, result?]
    exact congrArg (r :: ·) ih

theorem isWork_loop (number : ℕ) (rs : List SysResult) (b : Bool) :
    ∀ e ∈ rs.map (.called number) ++ [.worked b], IsWork e := by
  intro e he
  rcases List.mem_append.mp he with he | he
  · obtain ⟨r, -, rfl⟩ := List.mem_map.mp he
    trivial
  · rw [List.mem_singleton.mp he]
    trivial

theorem callsOn_loop (hd : op.desc.loop? = some switch) (hrec : t.record op.desc.id = some rec)
    (h : workLoop switch rs = some w) (b : Bool) :
    CallsOn t op (rs.map (.called rec.number) ++ [.worked b]) where
  number n r hmem := by
    simp only [List.mem_append, List.mem_map, List.mem_singleton, reduceCtorEq, or_false] at hmem
    obtain ⟨r', -, heq⟩ := hmem
    cases heq
    exact ⟨rec, hrec, rfl⟩
  some_call := by
    -- a loop makes at least one call
    obtain ⟨again, last, rfl, -, -⟩ := workLoop_eq_some.mp h
    have hon : op.desc.onSocket := Desc.onSocket_of_loop (by rw [hd]; rfl)
    exact iff_of_true hon ⟨rec.number, last, by simp⟩

/-- A loop is left without an end exactly if one of its calls reports EWOULDBLOCK. -/
theorem wouldBlock_iff (hd : d.loop? = some switch) (h : workLoop switch rs = some w) :
    w = .wouldBlock ↔ .fail EWOULDBLOCK ∈ rs := by
  have hverdict : verdict switch (.fail EWOULDBLOCK) = some .wouldBlock := by
    cases d <;> cases hd <;> rfl
  -- both switches give up the loop for no other `errno`
  have honly : ∀ {r}, verdict switch r = some .wouldBlock → r = .fail EWOULDBLOCK := by
    intro r hr
    cases d <;> cases hd
    · exact verdict_accept_wouldBlock hr
    · exact verdict_transfer_wouldBlock hr
    · exact verdict_transfer_wouldBlock hr
  obtain ⟨again, last, rfl, hagain, hlast⟩ := workLoop_eq_some.mp h
  constructor
  · rintro rfl
    rw [honly hlast]
    exact List.mem_append_right _ (List.mem_singleton_self _)
  · intro hmem
    rcases List.mem_append.mp hmem with hmem | hmem
    · -- a call that goes round again did not report EWOULDBLOCK
      have hnone := hagain _ hmem
      rw [hverdict] at hnone
      cases hnone
    · rw [← List.mem_singleton.mp hmem, hverdict] at hlast
      exact (Option.some.inj hlast).symm

/-- The calls of a loop settled the operation: `_Work` calls `_Complete` or `_Error`. -/
theorem settled_of_loop (hd : op.desc.loop? = some switch) (hrec : t.record op.desc.id = some rec)
    (hloop : workLoop switch env.results = some w) (hw : w ≠ .wouldBlock) (a : Option SocketId)
    (n : ℕ) (hext : t.Ok → t.Extends t')
    (hdelivers : ∀ h, t.Ok → Delivers t' { op with acceptId := a, count := n, history := h } w) :
    WorkCases t op (worked t' { op.logCalls rec.number env.results with acceptId := a, count := n }
      [.reset, w.report] true) := by
  refine .settled w a n (env.results.map (.called rec.number) ++ [.worked true]) hext
    (isWork_loop _ _ _) (callsOn_loop hd hrec hloop _) ?_ ?_ rfl (hdelivers _) rfl rfl
  · simp [worked, CpoState.log, CpoState.logCalls]
  · rw [findings_loop hd hloop, settle_some hw, Option.toList_some]

/-- The last call of a loop reported EWOULDBLOCK: `_Work` returns false. -/
theorem waiting_of_loop (hd : op.desc.loop? = some switch) (hrec : t.record op.desc.id = some rec)
    (hloop : workLoop switch env.results = some .wouldBlock) :
    WorkCases t op (worked t (op.logCalls rec.number env.results) [] false) := by
  refine .waiting (env.results.map (.called rec.number) ++ [.worked false]) rfl (isWork_loop _ _ _)
    (callsOn_loop hd hrec hloop _) ?_ (findings_loop hd hloop _ _) rfl ?_ rfl rfl
  · simp [worked, CpoState.log, CpoState.logCalls]
  · rw [calls_append, calls_map_called]
    exact List.mem_append_left _ ((wouldBlock_iff hd hloop).mp rfl)

end Loop

/-! ## The work functions -/

theorem withHandle_cases {t : Table} {op : CpoState} {body : SocketRecord → Option Worked}
    {wk : Worked} (h : withHandle t op body = some wk) :
    (t.record op.desc.id = none ∧ wk = { table := t, op := op.log .stray, fault := true }) ∨
      ∃ r, t.record op.desc.id = some r ∧ body r = some wk := by
  unfold withHandle at h
  cases hget : t.container.get op.desc.id with
  | ok r =>
    rw [hget] at h
    exact .inr ⟨r, Container.get_eq_ok.mp hget, h⟩
  | error f =>
    rw [hget] at h
    refine .inl ⟨?_, (Option.some.inj h).symm⟩
    cases hr : t.record op.desc.id with
    | none => rfl
    | some r =>
      rw [Container.get_eq_ok.mpr hr] at hget
      cases hget

theorem acceptWork_spec {t : Table} {op : CpoState} {env : Env} {wk : Worked} {id : SocketId}
    (hdesc : op.desc = .accept id) (h : acceptWork t op env = some wk) : WorkCases t op wk := by
  have hd : op.desc.loop? = some acceptSwitch := by
    rw [hdesc]
    rfl
  rcases withHandle_cases h with ⟨hnone, rfl⟩ | ⟨r, hr, hbody⟩
  · exact .stray (Desc.onSocket_of_loop (by rw [hd]; rfl)) hnone rfl rfl rfl
  · cases hloop : workLoop acceptSwitch env.results with
    | none => simp only [hloop, reduceCtorEq] at hbody
    | some w =>
      -- how the loop ended
      cases w with
      | value fd =>
        simp only [hloop] at hbody
        split at hbody
        next hfresh =>
          cases hmake : t.makeSocket fd with
          | error f => simp only [hmake, reduceCtorEq] at hbody
          | ok p =>
            obtain ⟨id', t'⟩ := p
            simp only [hmake, Option.some.injEq] at hbody
            subst hbody
            refine settled_of_loop hd hr hloop nofun (some id') op.count
              (fun hok => .of_makeSocket hok hfresh hmake) fun h hok => ?_
            -- the accepted handle is under the id that is stored in the operation
            obtain ⟨id'', t'', hmake', -, -, hnew, -⟩ := Table.makeSocket_spec hok hfresh
            rw [hmake] at hmake'
            cases hmake'
            simp only [Delivers, hdesc]
            exact ⟨id', _, rfl, hnew, rfl⟩
        next => cases hbody
      -- the loop of an accept does not end with the peer's close
      | closed => simp only [hloop, reduceCtorEq] at hbody
      | error e =>
        simp only [hloop, Option.some.injEq] at hbody
        subst hbody
        exact settled_of_loop hd hr hloop nofun op.acceptId op.count Table.Extends.refl
          fun _ _ => trivial
      | wouldBlock =>
        simp only [hloop, Option.some.injEq] at hbody
        subst hbody
        exact waiting_of_loop hd hr hloop

theorem transferWork_spec {t : Table} {op : CpoState} {env : Env} {wk : Worked} {id : SocketId}
    (hdesc : op.desc = .receive id ∨ op.desc = .send id) (h : transferWork t op env = some wk) :
    WorkCases t op wk := by
  have hd : op.desc.loop? = some transferSwitch := by
    rcases hdesc with hdesc | hdesc <;> rw [hdesc] <;> rfl
  rcases withHandle_cases h with ⟨hnone, rfl⟩ | ⟨r, hr, hbody⟩
  · exact .stray (Desc.onSocket_of_loop (by rw [hd]; rfl)) hnone rfl rfl rfl
  · cases hloop : workLoop transferSwitch env.results with
    | none => simp only [hloop, reduceCtorEq] at hbody
    | some w =>
      cases w with
      | value n =>
        simp only [hloop, Option.some.injEq] at hbody
        subst hbody
        refine settled_of_loop hd hr hloop nofun op.acceptId n Table.Extends.refl fun _ _ => ?_
        rcases hdesc with hdesc | hdesc <;> simp only [Delivers, hdesc]
      | closed =>
        simp only [hloop, Option.some.injEq] at hbody
        subst hbody
        refine settled_of_loop hd hr hloop nofun op.acceptId 0 Table.Extends.refl fun _ _ => ?_
        rcases hdesc with hdesc | hdesc <;> simp only [Delivers, hdesc]
      | error e =>
        simp only [hloop, Option.some.injEq] at hbody
        subst hbody
        exact settled_of_loop hd hr hloop nofun op.acceptId op.count Table.Extends.refl
          fun _ _ => trivial
      | wouldBlock =>
        simp only [hloop, Option.some.injEq] at hbody
        subst hbody
        exact waiting_of_loop hd hr hloop

theorem connectWork_spec {t : Table} {op : CpoState} {env : Env} {wk : Worked} {id : SocketId}
    (hdesc : op.desc = .connect id) (h : connectWork t op env = some wk) : WorkCases t op wk := by
  have hon : op.desc.onSocket := by rw [hdesc]; trivial
  rcases withHandle_cases h with ⟨hnone, rfl⟩ | ⟨r, hr, hbody⟩
  · exact .stray hon hnone rfl rfl rfl
  · simp only at hbody
    split at hbody
    -- `getsockopt` itself failed
    next e hres =>
      obtain rfl := Option.some.inj hbody
      refine .settled (.error ⟨e, .system⟩) op.acceptId op.count
        [.called r.number (.fail e), .worked true] Table.Extends.refl ?_ ?_ ?_ ?_ rfl
        (fun _ => trivial) rfl rfl
      · simp [IsWork]
      · exact ⟨by simp [hr], iff_of_true hon ⟨r.number, .fail e, by simp⟩⟩
      · simp [worked, CpoState.log, CpoState.logCalls, hres]
      · simp [findings_cons, hdesc]
    next rc hres =>
      split at hbody
      -- SO_ERROR is zero: the connection was made
      next hzero =>
        obtain rfl := Option.some.inj hbody
        refine .settled (.value 0) op.acceptId op.count
          [.called r.number (.ok rc), .soError env.soError, .worked true] Table.Extends.refl ?_ ?_ ?_
          ?_ rfl (fun _ => ?_) rfl rfl
        · simp [IsWork]
        · exact ⟨by simp [hr], iff_of_true hon ⟨r.number, .ok rc, by simp⟩⟩
        · simp [worked, CpoState.log, CpoState.logCalls, hres]
        · simp [findings_cons, hdesc, hzero]
        · simp only [Delivers, worked, CpoState.log, CpoState.logCalls, hdesc]
      -- SO_ERROR is the `errno` of the attempt to connect
      next hpos =>
        obtain rfl := Option.some.inj hbody
        refine .settled (.error ⟨env.soError, .system⟩) op.acceptId op.count
          [.called r.number (.ok rc), .soError env.soError, .worked true] Table.Extends.refl ?_ ?_ ?_
          ?_ rfl (fun _ => trivial) rfl rfl
        · simp [IsWork]
        · exact ⟨by simp [hr], iff_of_true hon ⟨r.number, .ok rc, by simp⟩⟩
        · simp [worked, CpoState.log, CpoState.logCalls, hres]
        · simp [findings_cons, hdesc, hpos]
    next => cases hbody

theorem timerWork_spec {t : Table} {op : CpoState} {wk : Worked}
    (hdesc : (∃ d, op.desc = .resumeAfter d) ∨ ∃ p, op.desc = .resumeAt p)
    (h : timerWork t op = some wk) : WorkCases t op wk := by
  obtain rfl := Option.some.inj h
  refine .settled (.value 0) op.acceptId op.count [.worked true] Table.Extends.refl ?_ ?_ rfl ?_ rfl
    (fun _ => ?_) rfl rfl
  · simp [IsWork]
  -- a timer has no socket and makes no call
  · refine ⟨by simp, iff_of_false (fun h => ?_) (by simp)⟩
    rcases hdesc with ⟨d, hdesc⟩ | ⟨p, hdesc⟩ <;> simp [Desc.onSocket, hdesc] at h
  · rcases hdesc with ⟨d, hdesc⟩ | ⟨p, hdesc⟩ <;> simp [findings_cons, hdesc]
  · rcases hdesc with ⟨d, hdesc⟩ | ⟨p, hdesc⟩ <;> simp only [Delivers, worked, CpoState.log, hdesc]

/-- The `_Work` of every operation has one of the three outcomes. -/
theorem work_spec {t : Table} {op : CpoState} {env : Env} {wk : Worked}
    (h : op.work t env = some wk) : WorkCases t op wk := by
  unfold CpoState.work at h
  split at h
  next hdesc => exact acceptWork_spec hdesc h
  next hdesc => exact connectWork_spec hdesc h
  next hdesc => exact transferWork_spec (.inl hdesc) h
  next hdesc => exact transferWork_spec (.inr hdesc) h
  next hdesc => exact timerWork_spec (.inl ⟨_, hdesc⟩) h
  next hdesc => exact timerWork_spec (.inr ⟨_, hdesc⟩) h

/-! ## The result of a work function -/

/-- What `_Work` returns goes into the history last, and it is false exactly if the operation is an
accept, a receive or a send and a call reports EWOULDBLOCK. -/
theorem work_result {t : Table} {op : CpoState} {env : Env} {wk : Worked}
    (h : op.work t env = some wk) (hf : wk.fault = false) :
    wk.op.history.getLast? = some (.worked wk.result) ∧
      (wk.result = false ↔ op.desc.loop?.isSome ∧ .fail EWOULDBLOCK ∈ env.results) := by
  -- the entry of the result is the last one, whatever the work did before
  have hlog : ∀ (x : CpoState) (b : Bool), (x.log (.worked b)).history.getLast? = some (.worked b) :=
    fun x b => List.getLast?_concat
  cases hdesc : op.desc with
  | accept id =>
    simp only [CpoState.work, hdesc, acceptWork] at h
    rcases withHandle_cases h with ⟨-, rfl⟩ | ⟨r, -, hbody⟩
    · cases hf
    cases hloop : workLoop acceptSwitch env.results with
    | none => simp only [hloop, reduceCtorEq] at hbody
    | some w =>
      have hw := wouldBlock_iff (d := .accept id) rfl hloop
      cases w with
      | value fd =>
        simp only [hloop] at hbody
        split at hbody
        next =>
          split at hbody
          next =>
            obtain rfl := Option.some.inj hbody
            exact ⟨hlog _ _, by simp [worked, ← hw]⟩
          next => cases hbody
        next => cases hbody
      | closed => simp only [hloop, reduceCtorEq] at hbody
      | error e | wouldBlock =>
        simp only [hloop, Option.some.injEq] at hbody
        subst hbody
        exact ⟨hlog _ _, by simp [worked, Desc.loop?, ← hw]⟩
  | receive id | send id =>
    simp only [CpoState.work, hdesc, transferWork] at h
    rcases withHandle_cases h with ⟨-, rfl⟩ | ⟨r, -, hbody⟩
    · cases hf
    cases hloop : workLoop transferSwitch env.results with
    | none => simp only [hloop, reduceCtorEq] at hbody
    | some w =>
      have hw := wouldBlock_iff (d := .receive id) rfl hloop
      cases w <;> simp only [hloop, Option.some.injEq] at hbody <;> subst hbody <;>
        exact ⟨hlog _ _, by simp [worked, Desc.loop?, ← hw]⟩
  | connect id =>
    simp only [CpoState.work, hdesc, connectWork] at h
    rcases withHandle_cases h with ⟨-, rfl⟩ | ⟨r, -, hbody⟩
    · cases hf
    split at hbody
    next =>
      obtain rfl := Option.some.inj hbody
      exact ⟨hlog _ _, by simp [worked, Desc.loop?]⟩
    next =>
      split at hbody <;> obtain rfl := Option.some.inj hbody <;>
        exact ⟨hlog _ _, by simp [worked, Desc.loop?]⟩
    next => cases hbody
  | resumeAfter d | resumeAt p =>
    simp only [CpoState.work, hdesc, timerWork, Option.some.injEq] at h
    subst h
    exact ⟨hlog _ _, by simp [worked, Desc.loop?]⟩

end Stdnet
