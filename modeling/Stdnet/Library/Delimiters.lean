import Mathlib.Data.List.Infix

/-!
# Messages that End with a Delimiter

A stream of bytes carries messages, each of which ends with the first occurrence of a delimiter. A
reader sees the stream in pieces of any size; which messages there are depends on the bytes alone.

## Main rules

- `cut_eq_some_iff`, `cut_eq_none_iff`: the first message of a stream and what is behind it.
- `Framed.feed`, `Framed.take`: a reader may append to what it keeps and take messages off its front.
- `Framed.prefix_messages`, `Framed.eq_messages_iff`: the messages it has taken are the first ones of
  the stream, and all of them exactly if what it keeps has no delimiter.
-/

namespace Delimiters

variable {α : Type*}

/-- `m` ends with the delimiter, which does not occur in `m` before that. -/
def IsMessage (sep m : List α) : Prop := sep <:+ m ∧ ¬ sep <:+: m.dropLast

theorem IsMessage.ne_nil {sep m : List α} (hsep : sep ≠ []) (h : IsMessage sep m) : m ≠ [] := by
  rintro rfl
  exact hsep (List.suffix_nil.mp h.1)

/-- The shortest message. -/
theorem IsMessage.self {sep : List α} (hsep : sep ≠ []) : IsMessage sep sep := by
  refine ⟨List.suffix_refl sep, fun hin => ?_⟩
  have hle := hin.length_le
  have hpos := List.length_pos_iff.mpr hsep
  rw [List.length_dropLast] at hle
  omega

/-- A message grows at its front as long as no delimiter begins there. -/
theorem IsMessage.cons {sep m : List α} {x : α} (hsep : sep ≠ []) (h : IsMessage sep m)
    (hfront : ¬ sep <+: x :: m) : IsMessage sep (x :: m) := by
  refine ⟨h.1.trans (List.suffix_cons x m), ?_⟩
  rw [List.dropLast_cons_of_ne_nil (h.ne_nil hsep), List.infix_cons_iff]
  rintro (hpre | hin)
  · exact hfront (hpre.trans (List.cons_prefix_cons.mpr ⟨rfl, List.dropLast_prefix m⟩))
  · exact h.2 hin

/-- Text in which no delimiter can begin may stand before a message. -/
theorem IsMessage.append {sep m xs : List α} {x : α} (h : IsMessage (x :: sep) m) (hxs : x ∉ xs) :
    IsMessage (x :: sep) (xs ++ m) := by
  induction xs with
  | nil => exact h
  | cons y ys ih =>
    rw [List.mem_cons, not_or] at hxs
    apply (ih hxs.2).cons (List.cons_ne_nil x sep)
    intro hpre
    exact hxs.1 (List.cons_prefix_cons.mp hpre).1

section Cut

variable [BEq α]

/-- The first message of a stream, with its delimiter, and what is behind it. -/
def cut (sep xs : List α) : Option (List α × List α) :=
  (xs.dropInfix? sep).map fun (p, s) => (p ++ sep, s)

variable [LawfulBEq α] {sep m m' r s s' xs ys : List α}

/-- The delimiter occurs first at `p` exactly if it does not occur in what it ends, without the last
element. -/
theorem dropInfix?_eq_some_iff {p : List α} (hsep : sep ≠ []) :
    xs.dropInfix? sep = some (p, s) ↔ xs = p ++ sep ++ s ∧ ¬ sep <:+: (p ++ sep).dropLast := by
  have hlen : 0 < sep.length := List.length_pos_iff.mpr hsep
  rw [List.dropInfix?_eq_some_iff]
  constructor
  · rintro ⟨⟨i, hxs, hi⟩, hmin⟩
    obtain rfl := eq_of_beq hi
    refine ⟨hxs, ?_⟩
    rintro ⟨a, b, hab⟩
    -- an earlier occurrence would begin before `p` ends
    obtain ⟨x, hx⟩ : ∃ x, (p ++ i).dropLast ++ [x] = p ++ i :=
      ⟨_, List.dropLast_append_getLast (by simp [hsep])⟩
    have hle := hmin a i (b ++ [x] ++ s) (by rw [hxs, ← hx, ← hab]; simp) (by simp)
    have hcount := congrArg List.length hab
    simp only [List.length_append, List.length_dropLast] at hcount
    omega
  · rintro ⟨hxs, hfirst⟩
    refine ⟨⟨sep, hxs, by simp⟩, fun p' i' s' hxs' hi' => ?_⟩
    obtain rfl := eq_of_beq hi'
    by_contra hlt
    apply hfirst
    -- an occurrence that begins before `p` ends lies in what the delimiter ends
    have hpart : p' ++ i' <+: p ++ i' := by
      apply List.prefix_of_prefix_length_le ⟨s', hxs'.symm⟩ ⟨s, hxs.symm⟩
      simp only [List.length_append]
      omega
    have hshort : p' ++ i' <+: (p ++ i').dropLast := by
      rw [List.dropLast_eq_take]
      apply List.prefix_take_iff.mpr
      refine ⟨hpart, ?_⟩
      simp only [List.length_append]
      omega
    exact List.infix_append_right.trans hshort.isInfix

/-- What arrives later does not change where the delimiter occurs first. -/
theorem dropInfix?_append {p : List α} (hsep : sep ≠ []) (h : xs.dropInfix? sep = some (p, s))
    (ys : List α) : (xs ++ ys).dropInfix? sep = some (p, s ++ ys) := by
  obtain ⟨rfl, hfirst⟩ := (dropInfix?_eq_some_iff hsep).mp h
  exact (dropInfix?_eq_some_iff hsep).mpr ⟨List.append_assoc _ _ _, hfirst⟩

/-- The delimiter at the front of a stream is the first one. -/
theorem dropInfix?_self (hsep : sep ≠ []) (s : List α) :
    (sep ++ s).dropInfix? sep = some ([], s) :=
  (dropInfix?_eq_some_iff hsep).mpr ⟨rfl, (IsMessage.self hsep).2⟩

theorem cut_eq_some_iff (hsep : sep ≠ []) :
    cut sep xs = some (m, s) ↔ xs = m ++ s ∧ IsMessage sep m := by
  simp only [cut, Option.map_eq_some_iff, Prod.exists, Prod.mk.injEq, IsMessage]
  constructor
  · rintro ⟨p, s', hdrop, rfl, rfl⟩
    obtain ⟨hxs, hfirst⟩ := (dropInfix?_eq_some_iff hsep).mp hdrop
    exact ⟨hxs, List.suffix_append _ _, hfirst⟩
  · rintro ⟨hxs, ⟨p, rfl⟩, hfirst⟩
    exact ⟨p, s, (dropInfix?_eq_some_iff hsep).mpr ⟨hxs, hfirst⟩, rfl, rfl⟩

/-- A stream with an occurrence of the delimiter has a first one. -/
theorem exists_cut_of_infix (hsep : sep ≠ []) (h : sep <:+: xs) :
    ∃ m s, cut sep xs = some (m, s) := by
  -- the stream is read from its end: an occurrence at the front is the first one
  induction xs with
  | nil => exact absurd (List.infix_nil.mp h) hsep
  | cons x xs ih =>
    by_cases hfront : sep <+: x :: xs
    · obtain ⟨s, hs⟩ := hfront
      exact ⟨sep, s, (cut_eq_some_iff hsep).mpr ⟨hs.symm, IsMessage.self hsep⟩⟩
    · have hrest : sep <:+: xs := (List.infix_cons_iff.mp h).resolve_left hfront
      obtain ⟨m, s, hcut⟩ := ih hrest
      obtain ⟨rfl, hm⟩ := (cut_eq_some_iff hsep).mp hcut
      refine ⟨x :: m, s, (cut_eq_some_iff hsep).mpr ⟨rfl, hm.cons hsep fun hpre => ?_⟩⟩
      exact hfront (hpre.trans (List.cons_prefix_cons.mpr ⟨rfl, List.prefix_append m s⟩))

theorem cut_eq_none_iff (hsep : sep ≠ []) : cut sep xs = none ↔ ¬ sep <:+: xs := by
  constructor
  · intro hnone hin
    obtain ⟨m, s, hcut⟩ := exists_cut_of_infix hsep hin
    rw [hnone] at hcut
    cases hcut
  · intro hin
    cases hcut : cut sep xs with
    | none => rfl
    | some c =>
      obtain ⟨rfl, hsuffix, -⟩ := (cut_eq_some_iff hsep).mp hcut
      exact absurd (List.infix_append_of_infix_left hsuffix.isInfix) hin

theorem dropInfix?_eq_none_iff (hsep : sep ≠ []) : xs.dropInfix? sep = none ↔ ¬ sep <:+: xs := by
  rw [← cut_eq_none_iff hsep, cut, Option.map_eq_none_iff]

theorem length_of_cut (hsep : sep ≠ []) (h : cut sep xs = some (m, s)) : s.length < xs.length := by
  obtain ⟨rfl, hm⟩ := (cut_eq_some_iff hsep).mp h
  have hpos := List.length_pos_iff.mpr (hm.ne_nil hsep)
  rw [List.length_append]
  omega

end Cut

section Messages

variable [BEq α]

/-- All messages of a stream. -/
def messages (sep xs : List α) : List (List α) :=
  match cut sep xs with
  | none => []
  | some (m, s) => if s.length < xs.length then m :: messages sep s else []
termination_by xs.length

theorem messages_of_none {sep xs : List α} (h : cut sep xs = none) : messages sep xs = [] := by
  rw [messages, h]

variable [LawfulBEq α] {sep m s xs : List α}

theorem messages_of_some (hsep : sep ≠ []) (h : cut sep xs = some (m, s)) :
    messages sep xs = m :: messages sep s := by
  rw [messages, h]
  exact if_pos (length_of_cut hsep h)

theorem messages_eq_nil_iff (hsep : sep ≠ []) : messages sep xs = [] ↔ ¬ sep <:+: xs := by
  rw [← cut_eq_none_iff hsep]
  constructor
  · intro hnil
    cases hcut : cut sep xs with
    | none => rfl
    | some c =>
      rw [messages_of_some hsep hcut] at hnil
      cases hnil
  · exact messages_of_none

end Messages

/-! ## Reading a stream -/

/-- A reader of the stream `xs` has taken the messages `ms` and keeps `r`. -/
structure Framed (sep xs : List α) (ms : List (List α)) (r : List α) : Prop where
  stream : xs = ms.flatten ++ r
  taken : ∀ m ∈ ms, IsMessage sep m

namespace Framed

variable {sep xs ys r r' m : List α} {ms ms' : List (List α)}

theorem nil (sep : List α) : Framed sep [] [] [] where
  stream := rfl
  taken m h := by simp at h

/-- A piece of the stream arrives. -/
theorem feed (h : Framed sep xs ms r) (ys : List α) : Framed sep (xs ++ ys) ms (r ++ ys) where
  stream := by rw [h.stream, List.append_assoc]
  taken := h.taken

/-- The reader takes a message off the front of what it keeps. -/
theorem take (h : Framed sep xs ms (m ++ r)) (hm : IsMessage sep m) :
    Framed sep xs (ms ++ [m]) r where
  stream := by rw [h.stream, List.flatten_append, List.flatten_singleton, List.append_assoc]
  taken m' hm' := by
    rcases List.mem_append.mp hm' with hm' | hm'
    · exact h.taken m' hm'
    · rw [List.mem_singleton] at hm'
      exact hm' ▸ hm

section Messages

variable [BEq α] [LawfulBEq α]

/-- The messages that the reader has taken are the first ones of the stream. -/
theorem messages_eq (hsep : sep ≠ []) (h : Framed sep xs ms r) :
    messages sep xs = ms ++ messages sep r := by
  induction ms generalizing xs with
  | nil =>
    rw [h.stream]
    rfl
  | cons m ms ih =>
    have hrest : Framed sep (ms.flatten ++ r) ms r :=
      ⟨rfl, fun x hx => h.taken x (List.mem_cons_of_mem _ hx)⟩
    have hcut : cut sep xs = some (m, ms.flatten ++ r) := by
      rw [cut_eq_some_iff hsep, h.stream, List.flatten_cons, List.append_assoc]
      exact ⟨rfl, h.taken m List.mem_cons_self⟩
    rw [messages_of_some hsep hcut, ih hrest, List.cons_append]

theorem prefix_messages (hsep : sep ≠ []) (h : Framed sep xs ms r) : ms <+: messages sep xs :=
  ⟨_, (h.messages_eq hsep).symm⟩

/-- The reader has taken all messages of the stream if what it keeps has no delimiter. -/
theorem eq_messages_iff (hsep : sep ≠ []) (h : Framed sep xs ms r) :
    ms = messages sep xs ↔ ¬ sep <:+: r := by
  rw [h.messages_eq hsep, ← messages_eq_nil_iff hsep, List.self_eq_append_right]

/-- A reader may take all messages of a stream. -/
theorem exists_messages (hsep : sep ≠ []) (xs : List α) :
    ∃ r, Framed sep xs (messages sep xs) r := by
  fun_induction messages sep xs with
  | case1 xs hnone => exact ⟨xs, rfl, by simp⟩
  | case2 xs m s hcut hlt ih =>
    obtain ⟨r, hstream, htaken⟩ := ih
    obtain ⟨hxs, hm⟩ := (cut_eq_some_iff hsep).mp hcut
    refine ⟨r, ?_, List.forall_mem_cons.mpr ⟨hm, htaken⟩⟩
    rw [List.flatten_cons, List.append_assoc, ← hstream, hxs]
  | case3 xs m s hcut hle => exact absurd (length_of_cut hsep hcut) hle

/-- The messages of the beginning of a stream are the first ones of the stream. -/
theorem messages_prefix (hsep : sep ≠ []) (xs ys : List α) :
    messages sep xs <+: messages sep (xs ++ ys) := by
  obtain ⟨r, h⟩ := exists_messages hsep xs
  exact (h.feed ys).prefix_messages hsep

end Messages

end Framed

end Delimiters
