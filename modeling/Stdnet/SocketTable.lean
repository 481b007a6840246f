import Mathlib.Data.Finset.Card
import Mathlib.Data.Int.Interval
import Mathlib.Tactic.Choose
import Mathlib.Tactic.NormNum
import Stdnet.Container
import Stdnet.SystemCalls

/-!
# The Socket Table

`_D_sockets` and the functions that create, look up and release sockets. `_Libevent_context` and
`_Poll_context` have them in the same words, over records with the same two fields, so they are
written once.

A record also carries the number of the `socket()` or `accept()` that made it. No function of the
code reads it: ids and handles are both reused, and the number says which socket a record is.

## Main results

- `Table.Ok`: the free list is well formed, live records have distinct handles and numbers, and the
  table never has more than 2^31 slots, since handles are non-negative `int`s.
- `makeSocket_spec`, `release_spec`: what the two operations do to a table that is `Ok`.
-/

namespace Stdnet

/-- `_Stdnet_native_handle_type`. -/
abbrev Handle := ℤ

/-- `_Libevent_record` and `_Poll_record`, with the number of the socket. -/
structure SocketRecord where
  handle : Handle
  blocking : Bool := true
  number : ℕ
  deriving DecidableEq, Repr, Inhabited

/-- `_D_sockets`, with the count of the sockets made so far and the numbers of those released. -/
structure Table where
  container : Container SocketRecord := {}
  made : ℕ := 0
  released : List ℕ := []
  deriving DecidableEq, Repr

namespace Table

/-- The live record under an id. -/
def record (t : Table) (id : SocketId) : Option SocketRecord :=
  t.container.recordAt id.toNat

/-- `_Native_handle`: throws if the slot is free. -/
def nativeHandle (t : Table) (id : SocketId) : Except Fault Handle :=
  (t.container.get id).map (·.handle)

/-- `_Make_socket(int)`. -/
def makeSocket (t : Table) (fd : Handle) : Except Fault (SocketId × Table) :=
  (t.container.insert { handle := fd, number := t.made }).map fun p =>
    (p.1, { t with container := p.2, made := t.made + 1 })

/-- `_Release`: the lookup comes first and throws if the slot is free, then the record is erased,
then the handle is closed; an error of `close()` is reported. -/
def release (t : Table) (id : SocketId) (close : SysResult) :
    Except Fault (Table × Option ErrorCode) :=
  match t.container.get id with
  | .error f => .error f
  | .ok r =>
    match t.container.erase id with
    | .error f => .error f
    | .ok c =>
      .ok ({ t with container := c, released := t.released ++ [r.number] }, close.errorCode)

/-- What the operating system promises of a handle returned by `socket()` or `accept()`: it is an
`int`, not negative, and not the handle of a socket that is open. -/
def Fresh (t : Table) (fd : Handle) : Prop :=
  0 ≤ fd ∧ fd < 2 ^ 31 ∧ ∀ s ∈ t.container.records, ∀ r, s = .record r → r.handle ≠ fd

instance (t : Table) (fd : Handle) : Decidable (t.Fresh fd) := by
  refine @instDecidableAnd _ _ _ (@instDecidableAnd _ _ _ (@List.decidableBAll _ _ (fun s => ?_) _))
  exact match s with
    | .free _ => .isTrue (fun _ h => by cases h)
    | .record r =>
      if h : r.handle = fd then .isFalse (fun hall => hall r rfl h)
      else .isTrue (fun r' he => by cases he; exact h)

/-! ## The invariant -/

/-- The invariant of the socket table. -/
structure Ok (t : Table) : Prop where
  wellFormed : ∃ path, t.container.WellFormed path
  small : t.container.records.length ≤ 2 ^ 31
  range : ∀ i r, t.container.recordAt i = some r → 0 ≤ r.handle ∧ r.handle < 2 ^ 31
  handles : ∀ i j r r', t.container.recordAt i = some r → t.container.recordAt j = some r' →
    r.handle = r'.handle → i = j
  numbers : ∀ i j r r', t.container.recordAt i = some r → t.container.recordAt j = some r' →
    r.number = r'.number → i = j
  liveMade : ∀ i r, t.container.recordAt i = some r → r.number < t.made ∧ r.number ∉ t.released
  releasedMade : ∀ n ∈ t.released, n < t.made
  liveOrReleased : ∀ n < t.made, n ∈ t.released ∨ ∃ i r, t.container.recordAt i = some r ∧ r.number = n

theorem ok_empty : Ok {} := by
  have hnone : ∀ i, ({} : Container SocketRecord).recordAt i = none := by
    intro i
    simp [Container.recordAt]
  refine ⟨⟨[], .empty⟩, by simp, ?_, ?_, ?_, ?_, by simp, by simp⟩
  · intro i r h
    rw [hnone] at h
    cases h
  · intro i j r r' h
    rw [hnone] at h
    cases h
  · intro i j r r' h
    rw [hnone] at h
    cases h
  · intro i r h
    rw [hnone] at h
    cases h

theorem Fresh.ne_handle {t : Table} {fd : Handle} (h : t.Fresh fd) {i : ℕ} {r : SocketRecord}
    (hr : t.container.recordAt i = some r) : r.handle ≠ fd := by
  have hslot := Container.recordAt_eq_some.mp hr
  exact h.2.2 _ (List.mem_of_getElem? hslot) r rfl

/-- A handle that no live id has is not stored in any slot: ids reach all slots. -/
theorem Ok.fresh {t : Table} (h : t.Ok) {fd : Handle} (hnonneg : 0 ≤ fd) (hlt : fd < 2 ^ 31)
    (hfd : ∀ id r, t.record id = some r → r.handle ≠ fd) : t.Fresh fd := by
  refine ⟨hnonneg, hlt, fun slot hslot r hr => ?_⟩
  subst hr
  obtain ⟨i, hi⟩ := List.getElem?_of_mem hslot
  have hrecord := Container.recordAt_eq_some.mpr hi
  have hbound := Container.lt_length_of_recordAt hrecord
  have hsmall := h.small
  have hid : (socketId i).toNat = i := socketId_toNat (by omega)
  exact hfd (socketId i) r (by rw [record, hid]; exact hrecord)

/-- When every slot is live and a fresh handle is at hand, the slots number fewer than the handles
there are. -/
theorem Ok.length_lt_of_full {t : Table} (h : t.Ok) {fd : Handle} (hfd : t.Fresh fd)
    (hfull : ∀ i < t.container.records.length, ∃ r, t.container.recordAt i = some r) :
    t.container.records.length < 2 ^ 31 := by
  choose! rec hrec using hfull
  let handles := (Finset.range t.container.records.length).image fun i => (rec i).handle
  -- the handles of the live sockets are as many as the slots, since no two agree
  have hcard : handles.card = t.container.records.length := by
    rw [Finset.card_image_of_injOn, Finset.card_range]
    intro i hi j hj heq
    simp only [Finset.coe_range, Set.mem_Iio] at hi hj
    exact h.handles i j _ _ (hrec i hi) (hrec j hj) heq
  -- together with the fresh one they are nonnegative values of an `int`
  have hsub : insert fd handles ⊆ Finset.Ico (0 : ℤ) (2 ^ 31) := by
    intro x hx
    rw [Finset.mem_Ico]
    rcases Finset.mem_insert.mp hx with rfl | hx
    · exact ⟨hfd.1, hfd.2.1⟩
    · obtain ⟨i, hi, rfl⟩ := Finset.mem_image.mp hx
      exact h.range i _ (hrec i (Finset.mem_range.mp hi))
  have hnotin : fd ∉ handles := by
    intro hx
    obtain ⟨i, hi, heq⟩ := Finset.mem_image.mp hx
    exact hfd.ne_handle (hrec i (Finset.mem_range.mp hi)) heq
  have hle := Finset.card_le_card hsub
  rw [Finset.card_insert_of_notMem hnotin, hcard, Int.card_Ico] at hle
  norm_num at hle ⊢
  omega

/-- What `_Make_socket` does: the new record sits under an id that was not live, and the records
under all other ids are as before. -/
theorem makeSocket_spec {t : Table} (h : t.Ok) {fd : Handle} (hfd : t.Fresh fd) :
    ∃ id t', t.makeSocket fd = .ok (id, t') ∧ t'.Ok ∧ t.record id = none ∧
      t'.record id = some { handle := fd, number := t.made } ∧
      (∀ id', id' ≠ id → t'.record id' = t.record id') ∧
      t'.made = t.made + 1 ∧ t'.released = t.released := by
  obtain ⟨path, hwf⟩ := h.wellFormed
  obtain ⟨c', path', hins, hwf', hold, hnew, hother, hlt, hlen⟩ :=
    Container.insert_spec hwf ({ handle := fd, number := t.made } : SocketRecord)
  -- the vector grows only when every slot is live, and then a handle is left over
  have hsmall : c'.records.length ≤ 2 ^ 31 := by
    rcases hlen with hlen | ⟨hlen, hnil⟩
    · rw [hlen]
      exact h.small
    · have hfull : ∀ i < t.container.records.length, ∃ r, t.container.recordAt i = some r := by
        intro i hi
        cases hr : t.container.recordAt i with
        | some r => exact ⟨r, rfl⟩
        | none =>
          have := hwf.mem_path.mpr ⟨hi, hr⟩
          rw [hnil] at this
          cases this
      have := h.length_lt_of_full hfd hfull
      omega
  have hid : (socketId t.container.free).toNat = t.container.free := socketId_toNat (by omega)
  -- a record of the new container is the new one or an old one
  have hcases : ∀ i r, c'.recordAt i = some r →
      (i = t.container.free ∧ r = { handle := fd, number := t.made }) ∨
        (i ≠ t.container.free ∧ t.container.recordAt i = some r) := by
    intro i r hr
    by_cases hi : i = t.container.free
    · subst hi
      rw [hnew] at hr
      exact .inl ⟨rfl, (Option.some.inj hr).symm⟩
    · rw [hother i hi] at hr
      exact .inr ⟨hi, hr⟩
  refine ⟨socketId t.container.free, { t with container := c', made := t.made + 1 }, ?_, ?_, ?_, ?_,
    ?_, rfl, rfl⟩
  · simp only [makeSocket, hins, Except.map]
  · constructor
    case wellFormed => exact ⟨path', hwf'⟩
    case small => exact hsmall
    case range =>
      intro i r hr
      rcases hcases i r hr with ⟨-, rfl⟩ | ⟨-, hr⟩
      · exact ⟨hfd.1, hfd.2.1⟩
      · exact h.range i r hr
    case handles =>
      intro i j r r' hr hr' heq
      rcases hcases i r hr with ⟨rfl, rfl⟩ | ⟨-, hr⟩ <;>
        rcases hcases j r' hr' with ⟨rfl, rfl⟩ | ⟨-, hr'⟩
      · rfl
      · exact absurd heq.symm (hfd.ne_handle hr')
      · exact absurd heq (hfd.ne_handle hr)
      · exact h.handles i j r r' hr hr' heq
    case numbers =>
      intro i j r r' hr hr' heq
      rcases hcases i r hr with ⟨rfl, rfl⟩ | ⟨-, hr⟩ <;>
        rcases hcases j r' hr' with ⟨rfl, rfl⟩ | ⟨-, hr'⟩
      · rfl
      · have := (h.liveMade j r' hr').1
        simp only at heq
        omega
      · have := (h.liveMade i r hr).1
        simp only at heq
        omega
      · exact h.numbers i j r r' hr hr' heq
    case liveMade =>
      intro i r hr
      rcases hcases i r hr with ⟨-, rfl⟩ | ⟨-, hr⟩
      · -- the new number was not given out, so it was not released
        refine ⟨Nat.lt_succ_self _, fun hmem => ?_⟩
        exact absurd (h.releasedMade _ hmem) (Nat.lt_irrefl _)
      · obtain ⟨hlt', hnot⟩ := h.liveMade i r hr
        exact ⟨Nat.lt_succ_of_lt hlt', hnot⟩
    case releasedMade =>
      intro n hn
      exact Nat.lt_succ_of_lt (h.releasedMade n hn)
    case liveOrReleased =>
      intro n hn
      -- a number that was given out belongs to an old socket or to the new one
      rcases Nat.lt_succ_iff_lt_or_eq.mp hn with hn | rfl
      · rcases h.liveOrReleased n hn with hrel | ⟨i, r, hr, hnum⟩
        · exact .inl hrel
        · have hi : i ≠ t.container.free := by
            intro he
            rw [he, hold] at hr
            cases hr
          exact .inr ⟨i, r, by rw [hother i hi, hr], hnum⟩
      · exact .inr ⟨t.container.free, _, hnew, rfl⟩
  · simp only [record, hid, hold]
  · simp only [record, hid, hnew]
  · intro id' hne
    have hne' : id'.toNat ≠ t.container.free := hid ▸ Container.toNat_ne hne
    simp only [record, hother _ hne']

/-- What `_Release` of a live id does: the record is gone, its number is recorded as released and
the records under all other ids are as before; an error of `close()` changes nothing of this. -/
theorem release_spec {t : Table} (h : t.Ok) {id : SocketId} {r : SocketRecord}
    (hr : t.record id = some r) (close : SysResult) :
    ∃ t', t.release id close = .ok (t', close.errorCode) ∧ t'.Ok ∧ t'.record id = none ∧
      (∀ id', id' ≠ id → t'.record id' = t.record id') ∧
      t'.made = t.made ∧ t'.released = t.released ++ [r.number] := by
  obtain ⟨path, hwf⟩ := h.wellFormed
  obtain ⟨c', her, hwf', hgone, hother, hlen⟩ := Container.erase_spec hwf hr
  have hget := Container.get_eq_ok.mpr hr
  -- a record that is left was there before, under another id
  have hkeep : ∀ i r', c'.recordAt i = some r' →
      i ≠ id.toNat ∧ t.container.recordAt i = some r' := by
    intro i r' hr'
    have hi : i ≠ id.toNat := by
      intro he
      rw [he, hgone] at hr'
      cases hr'
    exact ⟨hi, by rw [← hother i hi, hr']⟩
  refine ⟨{ t with container := c', released := t.released ++ [r.number] }, ?_, ?_, hgone, ?_, rfl,
    rfl⟩
  · simp only [release, hget, her]
  · constructor
    case wellFormed => exact ⟨_, hwf'⟩
    case small =>
      simp only [hlen]
      exact h.small
    case range =>
      intro i r' hr'
      exact h.range i r' (hkeep i r' hr').2
    case handles =>
      intro i j r₁ r₂ h₁ h₂ heq
      exact h.handles i j r₁ r₂ (hkeep i r₁ h₁).2 (hkeep j r₂ h₂).2 heq
    case numbers =>
      intro i j r₁ r₂ h₁ h₂ heq
      exact h.numbers i j r₁ r₂ (hkeep i r₁ h₁).2 (hkeep j r₂ h₂).2 heq
    case liveMade =>
      intro i r' hr'
      obtain ⟨hi, hr'⟩ := hkeep i r' hr'
      refine ⟨(h.liveMade i r' hr').1, fun hmem => ?_⟩
      rcases List.mem_append.mp hmem with hmem | hmem
      · exact (h.liveMade i r' hr').2 hmem
      · exact hi (h.numbers i id.toNat r' r hr' hr (List.mem_singleton.mp hmem))
    case releasedMade =>
      intro n hn
      rcases List.mem_append.mp hn with hn | hn
      · exact h.releasedMade n hn
      · exact List.mem_singleton.mp hn ▸ (h.liveMade _ r hr).1
    case liveOrReleased =>
      intro n hn
      -- the number of the erased record is now among the released ones
      rcases h.liveOrReleased n hn with hrel | ⟨i, r', hr', hnum⟩
      · exact .inl (List.mem_append_left _ hrel)
      · by_cases hi : i = id.toNat
        · subst hi
          have hsame : r' = r := Option.some.inj (hr'.symm.trans hr)
          exact .inl (List.mem_append_right _ (by rw [← hnum, hsame]; exact List.mem_singleton_self _))
        · exact .inr ⟨i, r', by rw [hother i hi, hr'], hnum⟩
  · intro id' hne
    simp only [record, hother _ (Container.toNat_ne hne)]

/-- `_Release` of an id that is not live throws before anything changes. -/
theorem release_error {t : Table} {id : SocketId} (hr : t.record id = none) (close : SysResult) :
    ∃ f, t.release id close = .error f := by
  cases hget : t.container.get id with
  | error f => exact ⟨f, by simp only [release, hget]⟩
  | ok r =>
    have := Container.get_eq_ok.mp hget
    rw [record, this] at hr
    cases hr

/-! ## Modes -/

/-- Every socket is in blocking mode, as `_Make_socket` leaves it; no function of the code changes
the mode of a record. -/
def AllBlocking (t : Table) : Prop :=
  ∀ r, Slot.record r ∈ t.container.records → r.blocking = true

theorem AllBlocking.blocking {t : Table} (h : t.AllBlocking) {id : SocketId} {r : SocketRecord}
    (hr : t.record id = some r) : r.blocking = true :=
  h r (List.mem_of_getElem? (Container.recordAt_eq_some.mp hr))

theorem AllBlocking.of_makeSocket {t t' : Table} (h : t.AllBlocking) {fd : Handle} {id : SocketId}
    (hmake : t.makeSocket fd = .ok (id, t')) : t'.AllBlocking := by
  intro r hr
  simp only [makeSocket, Container.insert] at hmake
  -- the new record is appended, or put into a free slot
  split_ifs at hmake with hfull
  · cases hmake
    rcases List.mem_append.mp hr with hr | hr
    · exact h r hr
    · cases List.mem_singleton.mp hr
      rfl
  · split at hmake
    next next hfree =>
      cases hmake
      rcases List.mem_or_eq_of_mem_set hr with hr | hr
      · exact h r hr
      · cases hr
        rfl
    next => cases hmake
    next => cases hmake

theorem AllBlocking.of_release {t t' : Table} (h : t.AllBlocking) {id : SocketId}
    {close : SysResult}
    {e : Option ErrorCode} (hrelease : t.release id close = .ok (t', e)) : t'.AllBlocking := by
  intro r hr
  simp only [release, Container.erase] at hrelease
  split at hrelease
  next => cases hrelease
  next =>
    split at hrelease
    next => cases hrelease
    next c herase =>
      split at herase
      next =>
        cases herase
        cases hrelease
        rcases List.mem_or_eq_of_mem_set hr with hr | hr
        · exact h r hr
        · cases hr
      next => cases herase

/-! ## Growth -/

/-- Sockets were made and none was released: every record is an old one or a new one. -/
structure Extends (t t' : Table) : Prop where
  ok : t'.Ok
  made : t.made ≤ t'.made
  released : t'.released = t.released
  record : ∀ id r, t'.record id = some r → t.record id = some r ∨ t.made ≤ r.number

theorem Extends.refl {t : Table} (h : t.Ok) : Extends t t where
  ok := h
  made := le_rfl
  released := rfl
  record _ _ hr := .inl hr

theorem Extends.of_makeSocket {t t' : Table} (h : t.Ok) {fd : Handle} (hfd : t.Fresh fd)
    {id : SocketId} (hmake : t.makeSocket fd = .ok (id, t')) : Extends t t' := by
  obtain ⟨id', t'', hmake', hok, -, hnew, hother, hmade, hreleased⟩ := makeSocket_spec h hfd
  obtain ⟨rfl, rfl⟩ := Prod.mk.inj (Except.ok.inj (hmake.symm.trans hmake'))
  refine ⟨hok, by omega, hreleased, fun id' r hr => ?_⟩
  by_cases hid : id' = id
  · subst hid
    rw [hnew] at hr
    cases hr
    exact .inr le_rfl
  · rw [hother id' hid] at hr
    exact .inl hr

/-- No number is used twice: every record is an old one or has a new number. -/
structure Evolves (t t' : Table) : Prop where
  made : t.made ≤ t'.made
  record : ∀ id r, t'.record id = some r → t.record id = some r ∨ t.made ≤ r.number

theorem Evolves.refl (t : Table) : Evolves t t where
  made := le_rfl
  record _ _ hr := .inl hr

theorem Extends.evolves {t t' : Table} (h : Extends t t') : Evolves t t' :=
  ⟨h.made, h.record⟩

/-- What a successful `_Release` does, whatever the id. -/
theorem release_cases {t t' : Table} (h : t.Ok) {id : SocketId} {close : SysResult}
    {e : Option ErrorCode} (hrelease : t.release id close = .ok (t', e)) :
    ∃ r, t.record id = some r ∧ t'.Ok ∧ t'.made = t.made ∧
      t'.released = t.released ++ [r.number] ∧
      ∀ id' r', t'.record id' = some r' → id' ≠ id ∧ t.record id' = some r' := by
  cases hr : t.record id with
  | none =>
    obtain ⟨f, herr⟩ := release_error hr close
    cases hrelease.symm.trans herr
  | some r =>
    obtain ⟨t'', hrelease', hok, hgone, hother, hmade, hreleased⟩ := release_spec h hr close
    obtain ⟨rfl, -⟩ := Prod.mk.inj (Except.ok.inj (hrelease.symm.trans hrelease'))
    refine ⟨r, rfl, hok, hmade, hreleased, fun id' r' hr' => ?_⟩
    have hne : id' ≠ id := by
      rintro rfl
      rw [hgone] at hr'
      cases hr'
    rw [hother id' hne] at hr'
    exact ⟨hne, hr'⟩

theorem Evolves.of_release {t t' : Table} (h : t.Ok) {id : SocketId} {close : SysResult}
    {e : Option ErrorCode} (hrelease : t.release id close = .ok (t', e)) : Evolves t t' := by
  obtain ⟨r, -, -, hmade, -, hrecord⟩ := release_cases h hrelease
  exact ⟨hmade.ge, fun id' r' hr' => .inl (hrecord id' r' hr').2⟩

/-- What a step may do to the sockets: the table stays well formed, no number is used twice and all
sockets stay in blocking mode. -/
structure Steps (t t' : Table) : Prop where
  blocking : t.AllBlocking → t'.AllBlocking
  ok : t.Ok → t'.Ok
  evolves : t.Ok → t.Evolves t'

theorem Steps.refl (t : Table) : Steps t t where
  blocking := id
  ok := id
  evolves _ := .refl t

theorem Steps.of_makeSocket {t t' : Table} {fd : Handle} (hfd : t.Fresh fd) {id : SocketId}
    (hmake : t.makeSocket fd = .ok (id, t')) : Steps t t' where
  blocking h := h.of_makeSocket hmake
  ok h := (Extends.of_makeSocket h hfd hmake).ok
  evolves h := (Extends.of_makeSocket h hfd hmake).evolves

theorem Steps.of_release {t t' : Table} {id : SocketId} {close : SysResult} {e : Option ErrorCode}
    (hrelease : t.release id close = .ok (t', e)) : Steps t t' where
  blocking h := h.of_release hrelease
  ok h := by
    obtain ⟨-, -, hok, -⟩ := release_cases h hrelease
    exact hok
  evolves h := .of_release h hrelease

/-- The socket with a number that was given out and not released is live, under one id. -/
theorem Ok.exists_record {t : Table} (h : t.Ok) {n : ℕ} (hn : n < t.made) (hlive : n ∉ t.released) :
    ∃ id r, t.record id = some r ∧ r.number = n := by
  obtain ⟨i, r, hr, hnum⟩ := (h.liveOrReleased n hn).resolve_left hlive
  have hlt := Container.lt_length_of_recordAt hr
  have hid : (socketId i).toNat = i := socketId_toNat (by have := h.small; omega)
  exact ⟨socketId i, r, by rw [record, hid]; exact hr, hnum⟩

end Table

end Stdnet
