import Stdnet.Work

/-!
# Reading Histories

What a history says: the signals sent to the receiver, the results of the calls made for the
operation, what those results amount to, and the use made of the operation after its completion.

## Main definitions

- `signals`, `calls`: the signals sent and the results of the calls that `_Work` made.
- `findings`: the results that settle the operation, of its submission or of its `_Work`.
- `late`: the steps that touched the operation after its receiver had been signalled.
- `Deferred`: no stop was requested when the operation was started, and its submission left it
  pending.
-/

namespace Stdnet

/-! ## Settling results -/

/-- The step of the report that signals. -/
def WorkEnd.report : WorkEnd → AtomicStep
  | .error e => .error e
  | .value _ | .closed | .wouldBlock => .complete

/-- The signal that reports the end of an operation. -/
def WorkEnd.signal (op : CpoState) : WorkEnd → Signal
  | .error e => .error e
  | .value _ | .closed | .wouldBlock => op.setValue

/-- What the results of the calls in a submission decide, `none` if they leave the operation
pending. -/
def Desc.submitEnd : Desc → Env → Option WorkEnd
  | .accept _, env | .receive _, env | .send _, env | .resumeAfter _, env =>
    env.eventNew.map fun e => .error ⟨e, .libevent⟩
  | .connect _, env =>
    match env.fcntl, env.connect with
    | .fail e, _ => some (.error ⟨e, .system⟩)
    | .ok _, .ok rc => some (.value rc)
    | .ok _, .fail e =>
      if e = EINPROGRESS ∨ e = EINTR then env.eventNew.map fun e => .error ⟨e, .libevent⟩
      else some (.error ⟨e, .system⟩)
  | .resumeAt time, env =>
    if time ≤ env.now then some (.value 0) else env.eventNew.map fun e => .error ⟨e, .libevent⟩

/-- A result that lets the operation wait for the next readiness indication settles nothing. -/
def settle : Option WorkEnd → Option WorkEnd
  | some .wouldBlock => none
  | w => w

/-- What an entry of the history settles, for an operation with this description. -/
def Desc.decides (d : Desc) : OpEvent → Option WorkEnd
  | .submitted env _ => d.submitEnd env
  | .called _ r =>
    match d with
    | .accept _ => settle (verdict acceptSwitch r)
    | .receive _ | .send _ => settle (verdict transferSwitch r)
    | .connect _ =>
      match r with
      | .fail e => some (.error ⟨e, .system⟩)
      | .ok _ => none
    | .resumeAfter _ | .resumeAt _ => none
  | .soError v =>
    match d with
    | .connect _ => if v = 0 then some (.value 0) else some (.error ⟨v, .system⟩)
    | _ => none
  | .worked _ =>
    match d with
    | .resumeAfter _ | .resumeAt _ => some (.value 0)
    | _ => none
  | _ => none

/-! ## Projections -/

abbrev History := List OpEvent

namespace History

/-- The signal an entry records. -/
def signal? : OpEvent → Option Signal
  | .signalled s => some s
  | _ => none

/-- The result of the call an entry records. -/
def result? : OpEvent → Option SysResult
  | .called _ r => some r
  | _ => none

/-- The signals sent to the receiver. -/
def signals (h : History) : List Signal :=
  h.filterMap signal?

/-- The results of the calls that `_Work` made. -/
def calls (h : History) : List SysResult :=
  h.filterMap result?

/-- The results that settle the operation. -/
def findings (d : Desc) (h : History) : List WorkEnd :=
  h.filterMap d.decides

/-- The entry records a use of the operation's memory by the library. -/
def touch : OpEvent → Bool
  | .ran m => m.touches
  | .dispatched => true
  | _ => false

/-- The uses of the operation after the receiver was signalled. -/
def late : History → List OpEvent
  | [] => []
  | e :: h => if (signal? e).isSome then h.filter touch else late h

/-- The operation's completion is left to the event loop: its stop callback was constructed with no
stop requested, and its submission settled nothing. -/
def Deferred (d : Desc) (h : History) : Prop :=
  .emplaced true ∉ h ∧ ∀ env n, .submitted env n ∈ h → d.submitEnd env = none

/-- The operation was not submitted to the context. -/
def Unsubmitted (h : History) : Prop :=
  ∀ env n, .submitted env n ∉ h

variable {d : Desc} {h h' : History}

@[simp] theorem signals_nil : signals [] = [] := rfl

@[simp] theorem calls_nil : calls [] = [] := rfl

@[simp] theorem signals_append : signals (h ++ h') = signals h ++ signals h' :=
  List.filterMap_append

@[simp] theorem calls_append : calls (h ++ h') = calls h ++ calls h' :=
  List.filterMap_append

@[simp] theorem findings_nil : findings d [] = [] := rfl

@[simp] theorem findings_append : findings d (h ++ h') = findings d h ++ findings d h' :=
  List.filterMap_append

theorem mem_calls {r : SysResult} : r ∈ calls h ↔ ∃ n, .called n r ∈ h := by
  simp only [calls, List.mem_filterMap]
  constructor
  · rintro ⟨e, he, hr⟩
    cases e <;> simp [result?] at hr
    exact ⟨_, hr ▸ he⟩
  · rintro ⟨n, hn⟩
    exact ⟨_, hn, rfl⟩

/-- Before the first signal no use is late. -/
theorem late_of_signals_nil (hs : signals h = []) : late h = [] := by
  induction h with
  | nil => rfl
  | cons e h ih =>
    cases he : signal? e with
    | none =>
      rw [signals, List.filterMap_cons_none he] at hs
      simp only [late, he, Option.isSome_none, Bool.false_eq_true, if_false]
      exact ih hs
    | some s =>
      rw [signals, List.filterMap_cons_some he] at hs
      cases hs

/-- A signal that was sent stays in the history. -/
theorem signalled_of_grows (hs : signals h ≠ []) (hpre : h <+: h') : signals h' ≠ [] := by
  obtain ⟨added, rfl⟩ := hpre
  rw [signals_append]
  exact fun hnil => hs (List.append_eq_nil_iff.mp hnil).1

/-- After a signal every use is late. -/
theorem late_append_of_signalled (hs : signals h ≠ []) :
    late (h ++ h') = late h ++ h'.filter touch := by
  induction h with
  | nil => exact absurd rfl hs
  | cons e h ih =>
    cases he : signal? e with
    | none =>
      rw [signals, List.filterMap_cons_none he] at hs
      simp only [List.cons_append, late, he, Option.isSome_none, Bool.false_eq_true, if_false]
      exact ih hs
    -- the first signal: from here on every use counts
    | some s =>
      simp only [List.cons_append, late, he, Option.isSome_some, if_true, List.filter_append]

/-- The entry of the first signal is not itself a late use. -/
theorem late_append_signalled (hs : signals h = []) (s : Signal) :
    late (h ++ [.signalled s]) = [] := by
  induction h with
  | nil => rfl
  | cons e h ih =>
    cases he : signal? e with
    | none =>
      rw [signals, List.filterMap_cons_none he] at hs
      simp only [List.cons_append, late, he, Option.isSome_none, Bool.false_eq_true, if_false]
      exact ih hs
    -- there was a signal before, against `hs`
    | some s =>
      rw [signals, List.filterMap_cons_some he] at hs
      cases hs

@[simp] theorem signals_cons (e : OpEvent) :
    signals (e :: h) = (signal? e).toList ++ signals h := by
  cases e <;> rfl

@[simp] theorem calls_cons (e : OpEvent) : calls (e :: h) = (result? e).toList ++ calls h := by
  cases e <;> rfl

@[simp] theorem findings_cons (e : OpEvent) :
    findings d (e :: h) = (d.decides e).toList ++ findings d h := by
  cases he : d.decides e with
  | none => exact List.filterMap_cons_none he
  | some w => exact List.filterMap_cons_some he

theorem findings_singleton (e : OpEvent) : findings d [e] = (d.decides e).toList := by
  rw [findings_cons, findings_nil, List.append_nil]

@[simp] theorem deferred_append :
    Deferred d (h ++ h') ↔ Deferred d h ∧ Deferred d h' := by
  simp only [Deferred, List.mem_append, not_or]
  constructor
  · rintro ⟨⟨h1, h2⟩, h3⟩
    exact ⟨⟨h1, fun env n he => h3 env n (.inl he)⟩, h2, fun env n he => h3 env n (.inr he)⟩
  · rintro ⟨⟨h1, h2⟩, h3, h4⟩
    exact ⟨⟨h1, h3⟩, fun env n he => he.elim (h2 env n) (h4 env n)⟩

@[simp] theorem deferred_nil : Deferred d [] := by
  simp [Deferred]

@[simp] theorem deferred_cons (e : OpEvent) :
    Deferred d (e :: h) ↔
      (e ≠ .emplaced true ∧ ∀ env n, e = .submitted env n → d.submitEnd env = none) ∧
        Deferred d h := by
  rw [← List.singleton_append, deferred_append]
  simp only [Deferred, List.mem_singleton, eq_comm, ne_eq]

@[simp] theorem unsubmitted_nil : Unsubmitted [] := by
  simp [Unsubmitted]

@[simp] theorem unsubmitted_cons (e : OpEvent) :
    Unsubmitted (e :: h) ↔ (∀ env n, e ≠ .submitted env n) ∧ Unsubmitted h := by
  simp only [Unsubmitted, List.mem_cons, not_or, forall_and, ne_eq, eq_comm]

@[simp] theorem unsubmitted_append :
    Unsubmitted (h ++ h') ↔ Unsubmitted h ∧ Unsubmitted h' := by
  simp only [Unsubmitted, List.mem_append, not_or, forall_and]

attribute [simp] signal? result? Desc.decides

end History

end Stdnet
