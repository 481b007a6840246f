import Mathlib.Data.BitVec
import Mathlib.Logic.Function.Basic
import Stdnet.Library.LinkedPath
import Stdnet.Library.StepMachine

/-!
# The Slot Container

Model of `_Container` in `container.hpp`: a vector of variants in which a slot holds either a record
or the index of the next free slot. `_Free` is the head of that chain and the vector's size is its
end marker.

## Main results

- `WellFormed`: the chain from `_Free` ends at the size and runs through every free slot. It is
  preserved by `_Insert` and by `_Erase` of a live id.
- `container_refines_map`: over any sequence of insertions and erasures of live ids the container is
  a finite map from ids to the record last inserted under them.
-/

namespace Stdnet

/-! ## Socket ids -/

/-- `_Socket_id`: an enumeration over `uint_least32_t`. -/
abbrev SocketId := BitVec 32

/-- The narrowing conversion `_Socket_id(n)` of an index. -/
def socketId (n : ℕ) : SocketId := BitVec.ofNat 32 n

/-- `_Socket_id::_Invalid`, the largest value of the underlying type. -/
def SocketId.invalid : SocketId := BitVec.allOnes 32

theorem socketId_toNat {n : ℕ} (h : n < 2 ^ 32) : (socketId n).toNat = n := by
  simp only [socketId, BitVec.toNat_ofNat]
  exact Nat.mod_eq_of_lt h

/-! ## The container -/

/-- `std::variant<std::size_t, _Record>`. -/
inductive Slot (α : Type*) where
  | free (next : ℕ)
  | record (r : α)
  deriving DecidableEq, Repr

/-- How an access can fail: `std::get` of the other alternative throws `bad_variant_access`, an
index past the end of the vector is undefined behaviour. -/
inductive Fault where
  | badVariantAccess
  | outOfRange
  deriving DecidableEq, Repr

/-- `_Container`: `_Records` and `_Free`. -/
structure Container (α : Type*) where
  records : List (Slot α) := []
  free : ℕ := 0
  deriving DecidableEq, Repr

namespace Container

variable {α : Type*}

/-- `_Insert`: grows the vector when the chain is empty, reuses the head of the chain otherwise. -/
def insert (c : Container α) (r : α) : Except Fault (SocketId × Container α) :=
  if c.free = c.records.length then
    .ok (socketId c.free, { records := c.records ++ [.record r], free := c.free + 1 })
  else
    match c.records[c.free]? with
    | some (.free next) =>
      .ok (socketId c.free, { records := c.records.set c.free (.record r), free := next })
    | some (.record _) => .error .badVariantAccess
    | none => .error .outOfRange

/-- `_Erase`: no check of the slot, which becomes the head of the chain. -/
def erase (c : Container α) (id : SocketId) : Except Fault (Container α) :=
  if id.toNat < c.records.length then
    .ok { records := c.records.set id.toNat (.free c.free), free := id.toNat }
  else
    .error .outOfRange

/-- `operator[]`. -/
def get (c : Container α) (id : SocketId) : Except Fault α :=
  match c.records[id.toNat]? with
  | some (.record r) => .ok r
  | some (.free _) => .error .badVariantAccess
  | none => .error .outOfRange

/-! ## Reading slots -/

/-- The link stored at a slot, if it is free. -/
def next (c : Container α) (i : ℕ) : Option ℕ :=
  match c.records[i]? with
  | some (.free n) => some n
  | _ => none

/-- The record stored at a slot, if it is live. -/
def recordAt (c : Container α) (i : ℕ) : Option α :=
  match c.records[i]? with
  | some (.record r) => some r
  | _ => none

theorem get_eq_ok {c : Container α} {id : SocketId} {r : α} :
    c.get id = .ok r ↔ c.recordAt id.toNat = some r := by
  unfold get recordAt
  cases c.records[id.toNat]? with
  | none => simp
  | some s => cases s <;> simp

theorem next_eq_some {c : Container α} {i n : ℕ} :
    c.next i = some n ↔ c.records[i]? = some (.free n) := by
  unfold next
  cases c.records[i]? with
  | none => simp
  | some s => cases s <;> simp

theorem recordAt_eq_some {c : Container α} {i : ℕ} {r : α} :
    c.recordAt i = some r ↔ c.records[i]? = some (.record r) := by
  unfold recordAt
  cases c.records[i]? with
  | none => simp
  | some s => cases s <;> simp

theorem lt_length_of_recordAt {c : Container α} {i : ℕ} {r : α} (h : c.recordAt i = some r) :
    i < c.records.length :=
  (List.getElem?_eq_some_iff.mp (recordAt_eq_some.mp h)).1

theorem next_length (c : Container α) : c.next c.records.length = none := by
  simp only [next, List.getElem?_eq_none_iff.mpr (Nat.le_refl _)]

/-- A slot of the vector is either free or live. -/
theorem next_or_recordAt {c : Container α} {i : ℕ} (h : i < c.records.length) :
    (∃ n, c.next i = some n ∧ c.recordAt i = none) ∨
      (∃ r, c.recordAt i = some r ∧ c.next i = none) := by
  obtain ⟨s, hs⟩ : ∃ s, c.records[i]? = some s := ⟨_, List.getElem?_eq_getElem h⟩
  cases s with
  | free n => exact .inl ⟨n, next_eq_some.mpr hs, by simp only [recordAt, hs]⟩
  | record r => exact .inr ⟨r, recordAt_eq_some.mpr hs, by simp only [next, hs]⟩

/-! ## The free list -/

/-- The free list: the chain from `_Free` ends at the size of the vector and runs through every free
slot. -/
structure WellFormed (c : Container α) (path : List ℕ) : Prop where
  linked : Linked c.next c.free path c.records.length
  covers : ∀ i n, c.next i = some n → i ∈ path

namespace WellFormed

variable {c c' : Container α} {path : List ℕ} {id : SocketId} {r : α}

theorem empty : WellFormed ({} : Container α) [] where
  linked := rfl
  covers := by
    intro i n h
    simp [next] at h

theorem nodup (h : WellFormed c path) : path.Nodup :=
  h.linked.nodup c.next_length

/-- The chain runs through exactly the slots that are not live. -/
theorem mem_path (h : WellFormed c path) {i : ℕ} :
    i ∈ path ↔ i < c.records.length ∧ c.recordAt i = none := by
  constructor
  · intro hi
    -- a slot on the chain stores a link, hence no record
    obtain ⟨n, hn⟩ := h.linked.link_of_mem hi
    have hslot := next_eq_some.mp hn
    exact ⟨(List.getElem?_eq_some_iff.mp hslot).1, by simp only [recordAt, hslot]⟩
  · rintro ⟨hlt, hnone⟩
    -- a slot without a record stores a link, and the chain covers those
    rcases next_or_recordAt hlt with ⟨n, hn, -⟩ | ⟨r, hr, -⟩
    · exact h.covers i n hn
    · rw [hnone] at hr
      cases hr

/-- The chain is empty exactly when `_Insert` would grow the vector. -/
theorem path_nil (h : WellFormed c path) (hfree : c.free = c.records.length) : path = [] := by
  have hlinked := h.linked
  rw [hfree] at hlinked
  exact hlinked.eq_nil c.next_length

/-- If the chain is not empty its head is the slot that `_Insert` reuses. -/
theorem path_cons (h : WellFormed c path) (hfree : c.free ≠ c.records.length) :
    ∃ n rest, path = c.free :: rest ∧ c.next c.free = some n ∧
      Linked c.next n rest c.records.length := by
  have hlinked := h.linked
  cases path with
  | nil => exact absurd hlinked hfree
  | cons x rest =>
    obtain ⟨rfl, n, hn, hrest⟩ := hlinked
    exact ⟨n, rest, rfl, hn, hrest⟩

end WellFormed

/-! ## What the operations do -/

/-- What `_Insert` does to a well-formed container: the new record sits in the slot that was
`_Free`, which was not live, and every other slot is as before. -/
theorem insert_spec {c : Container α} {path : List ℕ} (h : WellFormed c path) (r : α) :
    ∃ c' path', c.insert r = .ok (socketId c.free, c') ∧ WellFormed c' path' ∧
      c.recordAt c.free = none ∧ c'.recordAt c.free = some r ∧
      (∀ i, i ≠ c.free → c'.recordAt i = c.recordAt i) ∧
      c.free < c'.records.length ∧
      (c'.records.length = c.records.length ∨
        (c'.records.length = c.records.length + 1 ∧ path = [])) := by
  by_cases hfree : c.free = c.records.length
  · -- the chain is empty: every slot is live and the vector grows
    have hnil : path = [] := h.path_nil hfree
    refine ⟨{ records := c.records ++ [.record r], free := c.free + 1 }, [], ?_, ?_, ?_, ?_, ?_, ?_,
      ?_⟩
    · simp only [insert, hfree, if_true]
    · -- the end marker is the new size, and no old slot was free
      refine ⟨?_, ?_⟩
      · simp only [Linked, hfree, List.length_append, List.length_cons, List.length_nil]
      · intro i n hn
        rw [next_eq_some] at hn
        rcases Nat.lt_or_ge i c.records.length with hi | hi
        · rw [List.getElem?_append_left hi] at hn
          have := h.covers i n (next_eq_some.mpr hn)
          rw [hnil] at this
          exact this
        · rw [List.getElem?_append_right hi, List.getElem?_singleton] at hn
          split at hn <;> simp at hn
    · simp [recordAt, hfree]
    · simp [recordAt, hfree]
    · intro i hi
      rcases Nat.lt_or_ge i c.records.length with hlt | hge
      · simp only [recordAt, List.getElem?_append_left hlt]
      · have hgt : c.records.length + 1 ≤ i := by omega
        simp only [recordAt, List.getElem?_eq_none_iff.mpr hge]
        rw [List.getElem?_eq_none_iff.mpr (by simpa using hgt)]
    · simp [hfree]
    · right
      exact ⟨by simp, hnil⟩
  · -- the chain is not empty: its head is taken off and overwritten
    obtain ⟨n, rest, rfl, hn, hrest⟩ := h.path_cons hfree
    have hslot := next_eq_some.mp hn
    have hlt : c.free < c.records.length := (List.getElem?_eq_some_iff.mp hslot).1
    have hnotin : c.free ∉ rest := (List.nodup_cons.mp h.nodup).1
    have hother : ∀ i, i ≠ c.free →
        (c.records.set c.free (.record r))[i]? = c.records[i]? := by
      intro i hi
      rw [List.getElem?_set_ne (Ne.symm hi)]
    refine ⟨{ records := c.records.set c.free (.record r), free := n }, rest, ?_, ?_, ?_, ?_, ?_, ?_,
      ?_⟩
    · simp only [insert, hfree, if_false, hslot]
    · -- the rest of the chain does not run through the slot that was overwritten
      refine ⟨?_, ?_⟩
      · rw [List.length_set]
        refine hrest.congr fun x hx => ?_
        have hne : x ≠ c.free := fun he => hnotin (he ▸ hx)
        simp only [next, hother x hne]
      · intro i m hm
        rw [next_eq_some] at hm
        by_cases hi : i = c.free
        · subst hi
          simp [hlt] at hm
        · simp only [hother i hi] at hm
          have hmem := h.covers i m (next_eq_some.mpr hm)
          exact (List.mem_cons.mp hmem).resolve_left hi
    · simp only [recordAt, hslot]
    · simp [recordAt, hlt]
    · intro i hi
      simp only [recordAt, hother i hi]
    · simpa using hlt
    · left
      exact List.length_set

/-- What `_Erase` of a live id does to a well-formed container: the slot is free, every other slot
is as before. -/
theorem erase_spec {c : Container α} {path : List ℕ} (h : WellFormed c path) {id : SocketId} {r : α}
    (hlive : c.recordAt id.toNat = some r) :
    ∃ c', c.erase id = .ok c' ∧ WellFormed c' (id.toNat :: path) ∧
      c'.recordAt id.toNat = none ∧
      (∀ i, i ≠ id.toNat → c'.recordAt i = c.recordAt i) ∧
      c'.records.length = c.records.length := by
  have hlt := lt_length_of_recordAt hlive
  -- a live slot is not on the chain, so writing its link leaves the chain alone
  have hnotin : id.toNat ∉ path := by
    intro hmem
    rw [(h.mem_path.mp hmem).2] at hlive
    cases hlive
  have hother : ∀ i, i ≠ id.toNat →
      (c.records.set id.toNat (.free c.free))[i]? = c.records[i]? := by
    intro i hi
    rw [List.getElem?_set_ne (Ne.symm hi)]
  refine ⟨{ records := c.records.set id.toNat (.free c.free), free := id.toNat }, ?_, ?_, ?_, ?_, ?_⟩
  · simp only [erase, hlt, if_true]
  · refine ⟨?_, ?_⟩
    · -- the freed slot becomes the new head
      have hlink : ({ records := c.records.set id.toNat (.free c.free), free := id.toNat } :
          Container α).next id.toNat = some c.free := by
        simp [next, hlt]
      refine Linked.push hlink ?_
      rw [List.length_set]
      refine h.linked.congr fun x hx => ?_
      have hne : x ≠ id.toNat := fun he => hnotin (he ▸ hx)
      simp only [next, hother x hne]
    · intro i n hn
      rw [next_eq_some] at hn
      by_cases hi : i = id.toNat
      · exact hi ▸ List.mem_cons_self
      · simp only [hother i hi] at hn
        exact List.mem_cons_of_mem _ (h.covers i n (next_eq_some.mpr hn))
  · simp [recordAt, hlt]
  · intro i hi
    simp only [recordAt, hother i hi]
  · exact List.length_set

/-! ## Refinement of a finite map -/

/-- The calls of the container's interface that change it. -/
inductive Call (α : Type*) where
  | insert (r : α)
  | erase (id : SocketId)

/-- A container together with the finite map it is meant to be: the record last inserted under each
live id. -/
structure Tracked (α : Type*) where
  container : Container α := {}
  map : SocketId → Option α := fun _ => none

/-- One call. The caller keeps the vector below 2^32 - 1 slots and erases only live ids. -/
def Tracked.step (t : Tracked α) : Call α → Option (Tracked α)
  | .insert r =>
    match t.container.insert r with
    | .ok (id, c') =>
      if c'.records.length < 2 ^ 32 - 1 then
        some { container := c', map := Function.update t.map id (some r) }
      else none
    | .error _ => none
  | .erase id =>
    if (t.map id).isSome then
      match t.container.erase id with
      | .ok c' => some { container := c', map := Function.update t.map id none }
      | .error _ => none
    else none

/-- The refinement relation: the container is well formed, has fewer than 2^32 - 1 slots and stores
under each id what the map does. -/
structure Tracked.Refines (t : Tracked α) : Prop where
  wellFormed : ∃ path, WellFormed t.container path
  small : t.container.records.length < 2 ^ 32 - 1
  agrees : ∀ id, t.map id = t.container.recordAt id.toNat

theorem Tracked.refines_empty : Tracked.Refines ({} : Tracked α) where
  wellFormed := ⟨[], .empty⟩
  small := by simp
  agrees := by
    intro id
    simp [recordAt]

/-- Distinct ids name distinct slots. -/
theorem toNat_ne {id id' : SocketId} (h : id' ≠ id) : id'.toNat ≠ id.toNat :=
  fun he => h (BitVec.eq_of_toNat_eq he)

/-- **Step lemma**: every call keeps the refinement relation. -/
theorem Tracked.step_refines (t : Tracked α) (k : Call α) (t' : Tracked α) (h : t.Refines)
    (hstep : t.step k = some t') : t'.Refines := by
  obtain ⟨path, hwf⟩ := h.wellFormed
  cases k with
  | insert r =>
    obtain ⟨c', path', hins, hwf', -, hnew, hother, hfree, -⟩ := insert_spec hwf r
    simp only [Tracked.step, hins] at hstep
    split at hstep
    next hsmall =>
      cases hstep
      refine ⟨⟨path', hwf'⟩, hsmall, fun id => ?_⟩
      -- below 2^32 - 1 slots the narrowing conversion of the index loses nothing
      have hid : (socketId t.container.free).toNat = t.container.free :=
        socketId_toNat (by omega)
      by_cases he : id = socketId t.container.free
      · subst he
        simp only [Function.update_self, hid, hnew]
      · have hne : id.toNat ≠ t.container.free := hid ▸ toNat_ne he
        simp only [Function.update_of_ne he, h.agrees id, hother _ hne]
    next => cases hstep
  | erase id =>
    simp only [Tracked.step] at hstep
    split at hstep
    next hlive =>
      -- the map says that the id is live, and the container agrees
      obtain ⟨r, hr⟩ := Option.isSome_iff_exists.mp hlive
      rw [h.agrees id] at hr
      obtain ⟨c', her, hwf', hgone, hother, hlen⟩ := erase_spec hwf hr
      simp only [her, Option.some.injEq] at hstep
      subst hstep
      refine ⟨⟨_, hwf'⟩, by rw [hlen]; exact h.small, fun id' => ?_⟩
      by_cases he : id' = id
      · subst he
        simp only [Function.update_self, hgone]
      · simp only [Function.update_of_ne he, h.agrees id', hother _ (toNat_ne he)]
    next => cases hstep

/-- **Run lemma**: the containers that calls reach from the empty one refine their map. -/
theorem Tracked.run_refines {ks : List (Call α)} {t : Tracked α}
    (hrun : StepMachine.run Tracked.step {} ks = some t) : t.Refines :=
  StepMachine.run_invariant Tracked.step (fun s k s' => Tracked.step_refines s k s')
    Tracked.refines_empty hrun

/-- **The container refines a finite map.** After any sequence of insertions and of erasures of live
ids: `_Insert` returns an id that is not live, `operator[]` finds exactly the record last inserted
under each live id, both calls leave the records of the other live ids alone, and the chain from
`_Free` visits every slot that is not live exactly once and ends at the size. -/
theorem container_refines_map {ks : List (Call α)} {t : Tracked α}
    (hrun : StepMachine.run Tracked.step {} ks = some t) :
    (∀ r, ∃ id c', t.container.insert r = .ok (id, c') ∧
      (c'.records.length < 2 ^ 32 - 1 →
        t.map id = none ∧ c'.get id = .ok r ∧
        ∀ id' r', t.map id' = some r' → c'.get id' = .ok r')) ∧
    (∀ id r, t.map id = some r ↔ t.container.get id = .ok r) ∧
    (∀ id, (t.map id).isSome → ∃ c', t.container.erase id = .ok c' ∧
      (∀ r, c'.get id ≠ .ok r) ∧
      ∀ id' r', id' ≠ id → t.map id' = some r' → c'.get id' = .ok r') ∧
    (∃ path, Linked t.container.next t.container.free path t.container.records.length ∧
      path.Nodup ∧
      ∀ i, i ∈ path ↔ i < t.container.records.length ∧ t.map (socketId i) = none) := by
  have href := Tracked.run_refines hrun
  obtain ⟨path, hwf⟩ := href.wellFormed
  refine ⟨fun r => ?_, fun id r => ?_, fun id hlive => ?_, path, hwf.linked, hwf.nodup, fun i => ?_⟩
  · -- `_Insert` takes a slot that was free before
    obtain ⟨c', path', hins, -, hold, hnew, hother, hfree, -⟩ := insert_spec hwf r
    refine ⟨_, c', hins, fun hsmall => ?_⟩
    have hid : (socketId t.container.free).toNat = t.container.free := socketId_toNat (by omega)
    refine ⟨by rw [href.agrees, hid, hold], get_eq_ok.mpr (by rw [hid, hnew]), fun id' r' h' => ?_⟩
    rw [href.agrees] at h'
    have hne : id'.toNat ≠ t.container.free := by
      intro he
      rw [he, hold] at h'
      cases h'
    rw [get_eq_ok, hother _ hne, h']
  · rw [href.agrees, get_eq_ok]
  · obtain ⟨r, hr⟩ := Option.isSome_iff_exists.mp hlive
    rw [href.agrees] at hr
    obtain ⟨c', her, -, hgone, hother, -⟩ := erase_spec hwf hr
    refine ⟨c', her, fun r' => ?_, fun id' r' hne h' => ?_⟩
    · rw [Ne, get_eq_ok, hgone]
      simp
    · rw [get_eq_ok, hother _ (toNat_ne hne), ← href.agrees, h']
  · -- on the chain are the slots without a record
    rw [hwf.mem_path, href.agrees]
    refine and_congr_right fun hi => ?_
    have hsmall := href.small
    rw [socketId_toNat (by omega)]

/-- Two insertions, an erasure and an insertion that reuses the freed slot. -/
def reuse : List (Call ℕ) := [.insert 10, .insert 11, .erase 0, .insert 12]

theorem container_refines_map_reuse : ∃ t : Tracked ℕ,
    StepMachine.run Tracked.step {} reuse = some t ∧
      t.container.get 0 = .ok 12 ∧ t.container.get 1 = .ok 11 := by
  have hrun : StepMachine.run Tracked.step {} reuse = some _ := rfl
  have hget := (container_refines_map hrun).2.1
  exact ⟨_, hrun, (hget 0 12).mp rfl, (hget 1 11).mp rfl⟩

end Container

end Stdnet
