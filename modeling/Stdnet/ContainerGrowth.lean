import Stdnet.Container

/-!
# Growth of the Container

A container is run over any number of insertions and erasures of live ids, without a bound on the
size of the vector. Beyond 2^32 slots an index may be narrowed to an id that another live record
has; erasing that id twice closes the chain from `_Free` to a loop, and what was behind it is lost.

## Main results

- `Intact`, `Looped`: what the chain looks like before and after this happened.
- `size_eq_peak`: the vector has as many slots as ids were ever live at once, and as long as these
  are at most 2^32 - 1 the narrowing loses nothing and never yields `_Invalid`.
-/

namespace Stdnet

namespace Container

variable {α : Type*}

/-! ## Containers with their history -/

/-- A container, the ids that were returned and not erased since, the largest number of ids that
were live at once so far, and what each `_Insert` narrowed and returned. -/
structure Counted (α : Type*) where
  container : Container α := {}
  live : List SocketId := []
  peak : ℕ := 0
  returned : List (ℕ × SocketId) := []

namespace Counted

/-- One call; an exception ends the run. -/
def step (s : Counted α) : Call α → Option (Counted α)
  | .insert r =>
    match s.container.insert r with
    | .ok (id, c) =>
      some
        { container := c
          live := s.live ++ [id]
          peak := max s.peak (s.live.length + 1)
          returned := s.returned ++ [(s.container.free, id)] }
    | .error _ => none
  | .erase id =>
    -- an id that was returned twice may be erased twice
    if id ∈ s.live then
      match s.container.erase id with
      | .ok c => some { s with container := c, live := s.live.erase id }
      | .error _ => none
    else none

theorem step_insert {s : Counted α} {r : α} {id : SocketId} {c : Container α}
    (h : s.container.insert r = .ok (id, c)) :
    s.step (.insert r) = some
      { container := c
        live := s.live ++ [id]
        peak := max s.peak (s.live.length + 1)
        returned := s.returned ++ [(s.container.free, id)] } := by
  simp only [step, h]

theorem step_erase {s : Counted α} {id : SocketId} (hlive : id ∈ s.live)
    (hlt : id.toNat < s.container.records.length) :
    s.step (.erase id) = some
      { s with
        container :=
          { records := s.container.records.set id.toNat (.free s.container.free), free := id.toNat }
        live := s.live.erase id } := by
  simp only [step, hlive, Container.erase, hlt, if_true]

/-! ## The invariant -/

/-- What holds of every reachable state. -/
structure Sized (s : Counted α) : Prop where
  size : s.container.records.length = s.peak
  returned : ∀ p ∈ s.returned, p.1 < s.container.records.length ∧ p.2 = socketId p.1
  below : ∀ id ∈ s.live, id.toNat < s.container.records.length

/-- The chain is the free list, and the live ids are the indices of the slots with a record. -/
structure Intact (s : Counted α) (path slots : List ℕ) : Prop where
  wellFormed : WellFormed s.container path
  nodup : slots.Nodup
  mem_slots : ∀ i, i ∈ slots ↔ (s.container.recordAt i).isSome
  live : s.live.Perm (slots.map socketId)

/-- The chain ends at a slot, which is on the chain or holds a record: it never gets to the end
marker. -/
structure Looped (s : Counted α) (path : List ℕ) (stop : ℕ) : Prop where
  linked : Linked s.container.next s.container.free path stop
  nodup : path.Nodup
  ends : stop < s.container.records.length ∧ (stop ∈ path ∨ s.container.next stop = none)
  room : s.live.length + path.length ≤ s.container.records.length
  large : 2 ^ 32 < s.container.records.length

theorem sized_initial : Sized ({} : Counted α) where
  size := rfl
  returned := by
    intro p hp
    cases hp
  below := by
    intro id hid
    cases hid

theorem intact_initial : Intact ({} : Counted α) [] [] where
  wellFormed := .empty
  nodup := List.nodup_nil
  mem_slots i := by simp [recordAt]
  live := List.Perm.refl _

/-- Every slot is on the chain or holds a record. -/
theorem length_slots {c : Container α} {path slots : List ℕ} (h : WellFormed c path)
    (hnodup : slots.Nodup) (hmem : ∀ i, i ∈ slots ↔ (c.recordAt i).isSome) :
    path.length + slots.length = c.records.length := by
  have hdisjoint : ∀ i ∈ path, ∀ j ∈ slots, i ≠ j := by
    rintro i hi j hj rfl
    rw [hmem, (h.mem_path.mp hi).2] at hj
    cases hj
  have hperm : (path ++ slots).Perm (List.range c.records.length) := by
    rw [List.perm_ext_iff_of_nodup (List.nodup_append.mpr ⟨h.nodup, hnodup, hdisjoint⟩)
      List.nodup_range]
    intro i
    rw [List.mem_append, h.mem_path, hmem, List.mem_range]
    constructor
    · rintro (⟨hi, -⟩ | hi)
      · exact hi
      · obtain ⟨r, hr⟩ := Option.isSome_iff_exists.mp hi
        exact lt_length_of_recordAt hr
    · intro hi
      rcases next_or_recordAt hi with ⟨n, -, hnone⟩ | ⟨r, hr, -⟩
      · exact .inl ⟨hi, hnone⟩
      · exact .inr (by rw [hr]; rfl)
  rw [← List.length_append, hperm.length_eq, List.length_range]

/-- The id under which a slot is reached is the one that its index is narrowed to. -/
theorem socketId_toNat_self (id : SocketId) : socketId id.toNat = id := by
  simp only [socketId, BitVec.ofNat_toNat, BitVec.setWidth_eq]

/-- Erasing one occurrence of an index erases one of its id. -/
theorem perm_erase {live : List SocketId} {slots : List ℕ} {i : ℕ}
    (hlive : live.Perm (slots.map socketId)) (hi : i ∈ slots) :
    (live.erase (socketId i)).Perm ((slots.erase i).map socketId) := by
  have hslots : (slots.map socketId).Perm (socketId i :: (slots.erase i).map socketId) :=
    (List.perm_cons_erase hi).map socketId
  have herase := (hlive.trans hslots).erase (socketId i)
  rwa [List.erase_cons_head] at herase

section Steps

variable {s s' : Counted α} {path slots : List ℕ} {stop : ℕ}

theorem Intact.length_live (h : Intact s path slots) : s.live.length = slots.length := by
  rw [h.live.length_eq, List.length_map]

/-- Up to 2^32 slots a live id names the slot of its record. -/
theorem Intact.isSome_of_live (h : Intact s path slots)
    (hsmall : s.container.records.length ≤ 2 ^ 32) {id : SocketId} :
    id ∈ s.live ↔ (s.container.recordAt id.toNat).isSome := by
  rw [h.live.mem_iff, ← h.mem_slots, List.mem_map]
  constructor
  · rintro ⟨i, hi, rfl⟩
    obtain ⟨r, hr⟩ := Option.isSome_iff_exists.mp ((h.mem_slots i).mp hi)
    have hlt := lt_length_of_recordAt hr
    rw [socketId_toNat (by omega)]
    exact hi
  · intro hi
    exact ⟨id.toNat, hi, socketId_toNat_self id⟩

/-! ### Insertion -/

/-- What the records of a state say about one that `_Insert` left. -/
theorem Sized.insert (h : Sized s) {r : α} {c : Container α}
    (hinsert : s.container.insert r = .ok (socketId s.container.free, c))
    (hlt : s.container.free < c.records.length)
    (hle : s.container.records.length ≤ c.records.length)
    (hpeak : c.records.length = max s.peak (s.live.length + 1)) :
    ∃ s', s.step (.insert r) = some s' ∧ s'.container = c ∧
      s'.live = s.live ++ [socketId s.container.free] ∧ Sized s' := by
  refine ⟨_, step_insert hinsert, rfl, rfl, hpeak, ?_, ?_⟩
  · intro p hp
    rcases List.mem_append.mp hp with hp | hp
    · obtain ⟨hlt', hid⟩ := h.returned p hp
      exact ⟨lt_of_lt_of_le hlt' hle, hid⟩
    · rw [List.mem_singleton.mp hp]
      exact ⟨hlt, rfl⟩
  · intro id hid
    rcases List.mem_append.mp hid with hid | hid
    · exact lt_of_lt_of_le (h.below id hid) hle
    · rw [List.mem_singleton.mp hid, socketId, BitVec.toNat_ofNat]
      exact lt_of_le_of_lt (Nat.mod_le _ _) hlt

/-- **Step lemma**: every `_Insert` into an intact container returns. -/
theorem Intact.insert (h : Intact s path slots) (hs : Sized s) (r : α) :
    ∃ s' path', s.step (.insert r) = some s' ∧ Sized s' ∧
      Intact s' path' (slots ++ [s.container.free]) := by
  obtain ⟨c, path', hinsert, hwf, hold, hnew, hother, hlt, hlength⟩ := insert_spec h.wellFormed r
  have hnotin : s.container.free ∉ slots := by
    rw [h.mem_slots, hold]
    simp
  have hnodup : (slots ++ [s.container.free]).Nodup :=
    List.nodup_append.mpr ⟨h.nodup, List.nodup_singleton _, fun i hi j hj hij =>
      hnotin (List.mem_singleton.mp hj ▸ hij ▸ hi)⟩
  have hmem : ∀ i, i ∈ slots ++ [s.container.free] ↔ (c.recordAt i).isSome := by
    intro i
    rw [List.mem_append, List.mem_singleton]
    by_cases hi : i = s.container.free
    · rw [hi, hnew]
      simp
    · rw [hother i hi, h.mem_slots]
      simp [hi]
  -- the vector grows exactly when all its slots hold records
  have hpeak : c.records.length = max s.peak (s.live.length + 1) := by
    have hslots := length_slots hwf hnodup hmem
    have hslots' := length_slots h.wellFormed h.nodup h.mem_slots
    have hsize := hs.size
    rw [List.length_append, List.length_singleton] at hslots
    rw [h.length_live]
    rcases hlength with hlength | ⟨hlength, hnil⟩
    · omega
    · rw [hnil, List.length_nil] at hslots'
      omega
  obtain ⟨s', hstep, rfl, hlive, hsized⟩ := hs.insert hinsert hlt (by omega) hpeak
  refine ⟨s', path', hstep, hsized, hwf, hnodup, hmem, ?_⟩
  rw [hlive, List.map_append]
  exact h.live.append_right _

/-- **Step lemma**: an `_Insert` into a looped container takes a slot of its chain if it returns. -/
theorem Looped.insert (h : Looped s path stop) (hs : Sized s) {r : α}
    (hstep : s.step (.insert r) = some s') : Sized s' ∧ ∃ path', Looped s' path' stop := by
  obtain ⟨hstop, hends⟩ := h.ends
  cases path with
  | nil =>
    -- `_Free` is a slot with a record, from which `std::get<0>` throws
    obtain rfl : s.container.free = stop := h.linked
    have hnext := hends.resolve_left List.not_mem_nil
    rcases next_or_recordAt hstop with ⟨n, hn, -⟩ | ⟨r', hr', -⟩
    · rw [hnext] at hn
      cases hn
    · have hslot := recordAt_eq_some.mp hr'
      simp [Counted.step, Container.insert, hstop.ne, hslot] at hstep
  | cons x rest =>
    obtain ⟨rfl, n, hn, hrest⟩ := h.linked
    have hslot := next_eq_some.mp hn
    have hlt : s.container.free < s.container.records.length :=
      (List.getElem?_eq_some_iff.mp hslot).1
    have hnotin : s.container.free ∉ rest := (List.nodup_cons.mp h.nodup).1
    have hroom := h.room
    rw [List.length_cons] at hroom
    have hinsert : s.container.insert r = .ok (socketId s.container.free,
        { records := s.container.records.set s.container.free (.record r), free := n }) := by
      simp only [Container.insert, hlt.ne, if_false, hslot]
    have hlength := s.container.records.length_set (i := s.container.free) (a := Slot.record r)
    have hpeak : (s.container.records.set s.container.free (.record r)).length =
        max s.peak (s.live.length + 1) := by
      have hsize := hs.size
      omega
    obtain ⟨t, ht, hc, hlive, hsized⟩ := hs.insert hinsert (by simp only; omega)
      (by simp only; omega) hpeak
    cases hstep.symm.trans ht
    -- the slot that was taken is not on the rest of the chain, and may be the one where it ends
    have hother : ∀ i, i ≠ s.container.free → s'.container.next i = s.container.next i := by
      intro i hi
      simp only [hc, next, List.getElem?_set_ne (Ne.symm hi)]
    have htaken : s'.container.next s.container.free = none := by
      simp [hc, next, hlt]
    refine ⟨hsized, rest, ?_, (List.nodup_cons.mp h.nodup).2, ?_, ?_, ?_⟩
    · have hlinked : Linked s'.container.next n rest stop :=
        hrest.congr fun i hi => hother i fun he => hnotin (he ▸ hi)
      have hfree : s'.container.free = n := by rw [hc]
      rwa [hfree]
    · refine ⟨by rw [hc, hlength]; exact hstop, ?_⟩
      by_cases hfree : stop = s.container.free
      · exact .inr (hfree ▸ htaken)
      · rw [hother stop hfree]
        exact hends.imp_left fun hmem => (List.mem_cons.mp hmem).resolve_left hfree
    · rw [hlive, hc, hlength, List.length_append, List.length_singleton]
      omega
    · rw [hc, hlength]
      exact h.large

/-! ### Erasure -/

/-- The container after an `_Erase`. -/
def freed (c : Container α) (i : ℕ) : Container α :=
  { records := c.records.set i (.free c.free), free := i }

theorem freed_length (c : Container α) (i : ℕ) :
    (freed c i).records.length = c.records.length := List.length_set

theorem freed_next_self {c : Container α} {i : ℕ} (h : i < c.records.length) :
    (freed c i).next i = some c.free := by
  simp [freed, next, h]

theorem freed_next_ne {c : Container α} {i j : ℕ} (h : j ≠ i) : (freed c i).next j = c.next j := by
  simp only [freed, next, List.getElem?_set_ne (Ne.symm h)]

/-- Erasing a slot that is on the chain closes the part before it to a loop. -/
theorem linked_freed {c : Container α} {i : ℕ} (h : Linked c.next c.free path stop)
    (hnodup : path.Nodup) (hi : i ∈ path) (hlt : i < c.records.length) :
    ∃ path', Linked (freed c i).next i (i :: path') i ∧ (i :: path').Nodup ∧
      path'.length < path.length := by
  obtain ⟨front, back, rfl⟩ := List.append_of_mem hi
  obtain ⟨hfront, -, hdisjoint⟩ := List.nodup_append.mp hnodup
  have hnotin : i ∉ front := fun hmem => hdisjoint i hmem i List.mem_cons_self rfl
  have hlinked : Linked (freed c i).next c.free front i :=
    h.upto.congr fun j hj => freed_next_ne fun he => hnotin (he ▸ hj)
  refine ⟨front, hlinked.push (freed_next_self hlt), List.nodup_cons.mpr ⟨hnotin, hfront⟩, ?_⟩
  rw [List.length_append, List.length_cons]
  omega

/-- An `_Erase` of a live id is an access inside the vector, and returns. -/
theorem Sized.erase (h : Sized s) {id : SocketId} (hlive : id ∈ s.live) :
    ∃ s', s.step (.erase id) = some s' ∧ s'.container = freed s.container id.toNat ∧
      s'.live = s.live.erase id ∧ Sized s' := by
  have hlt := h.below id hlive
  refine ⟨_, step_erase hlive hlt, rfl, rfl, ?_, ?_, ?_⟩
  · exact (freed_length s.container id.toNat).trans h.size
  · intro p hp
    have hp := h.returned p hp
    rwa [← freed_length s.container id.toNat] at hp
  · intro id' hid'
    have hid := h.below id' (List.mem_of_mem_erase hid')
    rwa [← freed_length s.container id.toNat] at hid

/-- **Step lemma**: an `_Erase` from an intact container leaves it intact, or loops it if the slot
was free, which needs more than 2^32 slots. -/
theorem Intact.erase (h : Intact s path slots) (hs : Sized s) {id : SocketId}
    (hlive : id ∈ s.live) :
    ∃ s', s.step (.erase id) = some s' ∧ Sized s' ∧
      ((∃ path' slots', Intact s' path' slots') ∨ ∃ path' stop', Looped s' path' stop') := by
  obtain ⟨s', hstep, hc, hlive', hsized⟩ := hs.erase hlive
  have hlt := hs.below id hlive
  refine ⟨s', hstep, hsized, ?_⟩
  cases hr : s.container.recordAt id.toNat with
  | some r =>
    left
    obtain ⟨c, herase, hwf, hgone, hother, -⟩ := erase_spec h.wellFormed hr
    have hfreed : s'.container = c := by
      simp only [Container.erase, hlt, if_true, Except.ok.injEq] at herase
      rw [hc, ← herase, freed]
    have hmem : id.toNat ∈ slots := (h.mem_slots _).mpr (by rw [hr]; rfl)
    refine ⟨_, slots.erase id.toNat, hfreed ▸ hwf, h.nodup.erase _, ?_, ?_⟩
    · intro i
      rw [h.nodup.mem_erase_iff, hfreed]
      by_cases hi : i = id.toNat
      · rw [hi, hgone]
        simp
      · rw [hother i hi, h.mem_slots]
        simp [hi]
    · have hperm := perm_erase h.live hmem
      rwa [socketId_toNat_self, ← hlive'] at hperm
  | none =>
    right
    -- the record of the id is in another slot, whose index was narrowed
    have hlarge : 2 ^ 32 < s.container.records.length := by
      by_contra hsmall
      rw [h.isSome_of_live (by omega), hr] at hlive
      cases hlive
    obtain ⟨path', hlinked, hnodup, hlength⟩ := linked_freed h.wellFormed.linked h.wellFormed.nodup
      (h.wellFormed.mem_path.mpr ⟨hlt, hr⟩) hlt
    have hslots := length_slots h.wellFormed h.nodup h.mem_slots
    have hroom := h.length_live
    have herase := List.length_erase_of_mem hlive
    have hpos := List.length_pos_of_mem hlive
    refine ⟨id.toNat :: path', id.toNat, ?_⟩
    refine ⟨hc ▸ hlinked, hnodup, ⟨?_, .inl List.mem_cons_self⟩, ?_, ?_⟩
    · rwa [hc, freed_length]
    · rw [hlive', hc, freed_length, List.length_cons]
      omega
    · rwa [hc, freed_length]

/-- **Step lemma**: an `_Erase` from a looped container puts the slot in front of the chain, or
closes the loop there if the slot was on it. -/
theorem Looped.erase (h : Looped s path stop) (hs : Sized s) {id : SocketId} (hlive : id ∈ s.live) :
    ∃ s', s.step (.erase id) = some s' ∧ Sized s' ∧ ∃ path' stop', Looped s' path' stop' := by
  obtain ⟨s', hstep, hc, hlive', hsized⟩ := hs.erase hlive
  have hlt := hs.below id hlive
  have hroom := h.room
  have herase := List.length_erase_of_mem hlive
  have hpos := List.length_pos_of_mem hlive
  refine ⟨s', hstep, hsized, ?_⟩
  have hlarge : 2 ^ 32 < s'.container.records.length := by
    rw [hc, freed_length]
    exact h.large
  by_cases hi : id.toNat ∈ path
  · obtain ⟨path', hlinked, hnodup, hlength⟩ := linked_freed h.linked h.nodup hi hlt
    refine ⟨id.toNat :: path', id.toNat, hc ▸ hlinked, hnodup, ⟨?_, .inl List.mem_cons_self⟩, ?_,
      hlarge⟩
    · rwa [hc, freed_length]
    · rw [hlive', hc, freed_length, List.length_cons]
      omega
  · have hlinked : Linked (freed s.container id.toNat).next s.container.free path stop :=
      h.linked.congr fun j hj => freed_next_ne fun he => hi (he ▸ hj)
    refine ⟨id.toNat :: path, stop, hc ▸ hlinked.push (freed_next_self hlt),
      List.nodup_cons.mpr ⟨hi, h.nodup⟩, ⟨?_, ?_⟩, ?_, hlarge⟩
    · rw [hc, freed_length]
      exact h.ends.1
    · -- where the chain ends is on it, or stores no link, or is the slot that was erased
      by_cases hstop : stop = id.toNat
      · exact .inl (hstop ▸ List.mem_cons_self)
      · rw [hc, freed_next_ne hstop]
        exact h.ends.2.imp_left (List.mem_cons_of_mem _)
    · rw [hlive', hc, freed_length, List.length_cons]
      omega

/-! ### Runs -/

/-- The invariant of a run. -/
def Inv (s : Counted α) : Prop :=
  Sized s ∧ ((∃ path slots, Intact s path slots) ∨ ∃ path stop, Looped s path stop)

theorem inv_step (s : Counted α) (k : Call α) (s' : Counted α) (h : Inv s)
    (hstep : s.step k = some s') : Inv s' := by
  obtain ⟨hs, hchain⟩ := h
  cases k with
  | insert r =>
    rcases hchain with ⟨path, slots, h⟩ | ⟨path, stop, h⟩
    · obtain ⟨t, path', ht, hsized, hintact⟩ := h.insert hs r
      cases hstep.symm.trans ht
      exact ⟨hsized, .inl ⟨path', _, hintact⟩⟩
    · obtain ⟨hsized, path', hlooped⟩ := h.insert hs hstep
      exact ⟨hsized, .inr ⟨path', stop, hlooped⟩⟩
  | erase id =>
    have hlive : id ∈ s.live := by
      by_contra hlive
      simp only [Counted.step, hlive, if_false, reduceCtorEq] at hstep
    rcases hchain with ⟨path, slots, h⟩ | ⟨path, stop, h⟩
    · obtain ⟨t, ht, hsized, hchain⟩ := h.erase hs hlive
      cases hstep.symm.trans ht
      exact ⟨hsized, hchain⟩
    · obtain ⟨t, ht, hsized, hlooped⟩ := h.erase hs hlive
      cases hstep.symm.trans ht
      exact ⟨hsized, .inr hlooped⟩

/-- **Run lemma**. -/
theorem inv_run {ks : List (Call α)} (hrun : StepMachine.run Counted.step {} ks = some s) :
    Inv s :=
  StepMachine.run_invariant Counted.step inv_step
    ⟨sized_initial, .inl ⟨[], [], intact_initial⟩⟩ hrun

/-- **The container never leaks a slot.** After any sequence of insertions and of erasures of live
ids the vector has as many slots as ids were ever live at once, and every id that was returned is
below that number. As long as these are at most 2^32 - 1, no index was changed by the narrowing, no
id was `_Invalid`, no two live ids are equal, and the live ids are those with a record; then both
calls return. -/
theorem size_eq_peak {ks : List (Call α)} (hrun : StepMachine.run Counted.step {} ks = some s) :
    s.container.records.length = s.peak ∧
      (∀ p ∈ s.returned, p.2.toNat < s.peak) ∧
      (s.peak ≤ 2 ^ 32 - 1 →
        (∀ p ∈ s.returned, p.2.toNat = p.1 ∧ p.2 ≠ SocketId.invalid) ∧
        s.live.Nodup ∧
        (∀ id, id ∈ s.live ↔ ∃ r, s.container.get id = .ok r) ∧
        (∀ r, ∃ s', s.step (.insert r) = some s') ∧
        ∀ id ∈ s.live, ∃ s', s.step (.erase id) = some s') := by
  obtain ⟨hs, hchain⟩ := inv_run hrun
  have hsize := hs.size
  refine ⟨hsize, ?_, fun hpeak => ?_⟩
  · intro p hp
    obtain ⟨hlt, hid⟩ := hs.returned p hp
    rw [hid, socketId, BitVec.toNat_ofNat]
    exact lt_of_le_of_lt (Nat.mod_le _ _) (by omega)
  · obtain ⟨path, slots, h⟩ : ∃ path slots, Intact s path slots := by
      rcases hchain with h | ⟨path, stop, h⟩
      · exact h
      · -- there are not enough slots for a loop
        have hlarge := h.large
        omega
    have hslots : ∀ i ∈ slots, i < s.container.records.length := by
      intro i hi
      obtain ⟨r, hr⟩ := Option.isSome_iff_exists.mp ((h.mem_slots i).mp hi)
      exact lt_length_of_recordAt hr
    refine ⟨?_, ?_, ?_, ?_, ?_⟩
    · intro p hp
      obtain ⟨hlt, hid⟩ := hs.returned p hp
      have htoNat : p.2.toNat = p.1 := by
        rw [hid]
        exact socketId_toNat (by omega)
      refine ⟨htoNat, fun hinvalid => ?_⟩
      have hmax : SocketId.invalid.toNat = 2 ^ 32 - 1 := by decide
      rw [hinvalid, hmax] at htoNat
      omega
    · -- below 2^32 no two indices are narrowed to one id
      rw [h.live.nodup_iff]
      refine h.nodup.map_on fun i hi j hj hij => ?_
      have hi := hslots i hi
      have hj := hslots j hj
      rw [← socketId_toNat (n := i) (by omega), hij, socketId_toNat (by omega)]
    · intro id
      rw [h.isSome_of_live (by omega), Option.isSome_iff_exists]
      simp only [get_eq_ok]
    · intro r
      obtain ⟨s', -, hstep, -⟩ := h.insert hs r
      exact ⟨s', hstep⟩
    · intro id hlive
      obtain ⟨s', hstep, -⟩ := hs.erase hlive
      exact ⟨s', hstep⟩

/-- Two records are live at once, and the last insertion reuses the slot that was freed. -/
theorem size_eq_peak_reuse : ∃ s : Counted ℕ,
    StepMachine.run Counted.step {} reuse = some s ∧ s.container.records.length = 2 ∧
      s.returned = [(0, 0), (1, 1), (0, 0)] ∧ ∀ p ∈ s.returned, p.2 ≠ SocketId.invalid := by
  have hrun : StepMachine.run Counted.step {} reuse = some _ := rfl
  obtain ⟨hsize, -, hsmall⟩ := size_eq_peak hrun
  exact ⟨_, hrun, hsize, rfl, fun p hp => ((hsmall (by decide)).1 p hp).2⟩

end Steps

end Counted

end Container

end Stdnet
