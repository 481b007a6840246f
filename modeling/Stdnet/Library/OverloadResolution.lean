import Mathlib.Data.Prod.Lex

/-!
# Overload Resolution

Overload resolution of C++ among functions with one parameter, a reference to an object of a class.
The classes are ordered by derivation: `c ≤ d` says that `c` is `d` or derives from it.

## Main rules

- `resolve_eq_some`: the candidate that is better than all others is called.
- `resolve_copyMove`: copies and moves of a class.
- `resolve_withTemplate`: a template that takes its argument by `T&` comes first for lvalues that
  are not const, and for all but movable arguments whose class derives from the one constructed.
- `resolve_withConversion`: a conversion from a base class does not take part in copies and moves.
-/

namespace OverloadResolution

variable {κ ν : Type*}

/-- An argument: the class of its expression, which is known at compile time, and whether it is
const and an lvalue. -/
structure Argument (κ : Type*) where
  cls : κ
  const : Bool
  lvalue : Bool
  deriving DecidableEq, Repr

/-- An rvalue that can be moved from. -/
def Argument.movable (a : Argument κ) : Bool := !a.const && !a.lvalue

/-- A parameter of one of the types `cls&`, `cls const&`, `cls&&` and `cls const&&`. -/
structure Parameter (κ : Type*) where
  cls : κ
  const : Bool
  -- `&` rather than `&&`
  lvalue : Bool
  deriving DecidableEq, Repr

/-- What a candidate takes. -/
inductive Signature (κ : Type*) where
  | of (p : Parameter κ)
  /-- `template <typename T>` with the parameter `T&`. -/
  | template
  deriving DecidableEq, Repr

namespace Signature

/-- The parameter for an argument. -/
def parameter (a : Argument κ) : Signature κ → Parameter κ
  | of p => p
  -- `T` is deduced as the class of the argument, const if the argument is
  | template => ⟨a.cls, a.const, true⟩

def isTemplate : Signature κ → Bool
  | of _ => false
  | template => true

end Signature

section Ranking

variable [PartialOrder κ]

/-- The reference can be bound to the argument. -/
structure Parameter.Binds (p : Parameter κ) (a : Argument κ) : Prop where
  cls : a.cls ≤ p.cls
  const : a.const = true → p.const = true
  -- of the references to lvalues those to const objects are bound to rvalues, too
  category : if a.lvalue then p.lvalue = true else p.lvalue = true → p.const = true

/-- Candidates of a smaller rank are better: the one that needs the shorter conversion to a base
class, a reference to an rvalue, a reference to an object that is not const, and last what is not a
template. -/
def Signature.rank (a : Argument κ) (s : Signature κ) : κ ×ₗ Bool ×ₗ Bool ×ₗ Bool :=
  let p := s.parameter a
  toLex (p.cls, toLex (p.lvalue, toLex (p.const, s.isTemplate)))

/-- A candidate: the name of a function and what it takes. -/
structure Candidate (κ ν : Type*) where
  name : ν
  signature : Signature κ
  deriving DecidableEq, Repr

def Candidate.Viable (a : Argument κ) (c : Candidate κ ν) : Prop :=
  (c.signature.parameter a).Binds a

/-- `c` is viable and better than all other viable candidates. -/
structure Best (candidates : List (Candidate κ ν)) (a : Argument κ) (c : Candidate κ ν) : Prop where
  viable : c.Viable a
  better : ∀ c' ∈ candidates, c'.Viable a → c' = c ∨ c.signature.rank a < c'.signature.rank a

variable {a : Argument κ}

/-- The ranks are compared one part after the other. -/
theorem Signature.rank_lt_rank {s t : Signature κ} {p q : Parameter κ} (hp : s.parameter a = p)
    (hq : t.parameter a = q) : s.rank a < t.rank a ↔
      p.cls < q.cls ∨ p.cls = q.cls ∧ (p.lvalue < q.lvalue ∨ p.lvalue = q.lvalue ∧
        (p.const < q.const ∨ p.const = q.const ∧ s.isTemplate < t.isTemplate)) := by
  simp only [rank, hp, hq, Prod.Lex.toLex_lt_toLex]

/-- References to const objects are bound to every argument of a class derived from theirs. -/
theorem viable_of_const {name : ν} {c : κ} :
    Candidate.Viable a ⟨name, .of ⟨c, true, true⟩⟩ ↔ a.cls ≤ c := by
  refine ⟨fun h => h.cls, fun h => ⟨h, fun _ => rfl, ?_⟩⟩
  simp [Signature.parameter]

/-- References to rvalues are bound to those that can be moved from. -/
theorem viable_of_rvalue {name : ν} {c : κ} :
    Candidate.Viable a ⟨name, .of ⟨c, false, false⟩⟩ ↔ a.cls ≤ c ∧ a.movable = true := by
  constructor
  · intro h
    have hconst : a.const = false := by simpa [Signature.parameter] using h.const
    have hlvalue : a.lvalue = false := by simpa [Signature.parameter] using h.category
    exact ⟨h.cls, by simp [Argument.movable, hconst, hlvalue]⟩
  · intro h
    obtain ⟨hcls, hmovable⟩ := h
    simp only [Argument.movable, Bool.and_eq_true, Bool.not_eq_true'] at hmovable
    exact ⟨hcls, by simp [hmovable.1], by simp [hmovable.2, Signature.parameter]⟩

/-- The template is not viable for what can be moved from: its parameter is then a reference to
lvalues that are not const. -/
theorem viable_template {name : ν} :
    Candidate.Viable a ⟨name, .template⟩ ↔ a.movable = false := by
  constructor
  · intro h
    have hcategory : a.lvalue = false → a.const = true := by
      simpa [Signature.parameter] using h.category
    cases hlvalue : a.lvalue with
    | true => simp [Argument.movable, hlvalue]
    | false => simp [Argument.movable, hcategory hlvalue]
  · intro hmovable
    refine ⟨le_rfl, id, ?_⟩
    simpa [Signature.parameter, Argument.movable, imp_iff_or_not, or_comm] using hmovable

/-- There is at most one best candidate. -/
theorem Best.eq {candidates : List (Candidate κ ν)} {c c' : Candidate κ ν}
    (h : Best candidates a c) (h' : Best candidates a c') (hc : c ∈ candidates)
    (hc' : c' ∈ candidates) : c' = c := by
  rcases h.better c' hc' h'.viable with heq | hlt
  · exact heq
  · rcases h'.better c hc h.viable with heq | hlt'
    · exact heq.symm
    · exact absurd hlt' hlt.asymm

/-- The best candidate stays the best when worse ones are added. -/
theorem Best.append {candidates : List (Candidate κ ν)} {c : Candidate κ ν}
    (h : Best candidates a c) (worse : List (Candidate κ ν))
    (hworse : ∀ c' ∈ worse, c'.Viable a → c.signature.rank a < c'.signature.rank a) :
    Best (candidates ++ worse) a c := by
  refine ⟨h.viable, fun c' hc' hviable => ?_⟩
  rcases List.mem_append.mp hc' with hc' | hc'
  · exact h.better c' hc' hviable
  · exact .inr (hworse c' hc' hviable)

/-- A viable candidate that is better than all others comes first. -/
theorem Best.of_better (candidates : List (Candidate κ ν)) {c : Candidate κ ν} (hc : c.Viable a)
    (hbetter : ∀ c' ∈ candidates, c'.Viable a → c.signature.rank a < c'.signature.rank a) :
    Best (candidates ++ [c]) a c := by
  refine ⟨hc, fun c' hc' hviable => ?_⟩
  rcases List.mem_append.mp hc' with hc' | hc'
  · exact .inr (hbetter c' hc' hviable)
  · exact .inl (List.mem_singleton.mp hc')

/-! ## Constructors -/

/-- The copy and the move constructor of a class, or its copy and its move assignment. -/
def copyMove (c : κ) (copy move : ν) : List (Candidate κ ν) :=
  [⟨copy, .of ⟨c, true, true⟩⟩, ⟨move, .of ⟨c, false, false⟩⟩]

variable {c : κ} {copy move : ν}

/-- The move constructor takes its argument by a reference to an rvalue. -/
theorem best_move (hcls : a.cls ≤ c) (hmovable : a.movable = true) :
    Best (copyMove c copy move) a ⟨move, .of ⟨c, false, false⟩⟩ := by
  apply Best.of_better [_] (viable_of_rvalue.mpr ⟨hcls, hmovable⟩)
  intro c' hc' _
  rw [List.mem_singleton.mp hc', Signature.rank_lt_rank rfl rfl]
  exact .inr ⟨rfl, .inl Bool.false_lt_true⟩

theorem best_copy (hcls : a.cls ≤ c) (hmovable : a.movable = false) :
    Best (copyMove c copy move) a ⟨copy, .of ⟨c, true, true⟩⟩ := by
  have hbest : Best [⟨copy, .of ⟨c, true, true⟩⟩] a ⟨copy, .of ⟨c, true, true⟩⟩ :=
    .of_better [] (viable_of_const.mpr hcls) (by simp)
  apply hbest.append [_]
  intro c' hc' hviable
  rw [List.mem_singleton.mp hc', viable_of_rvalue, hmovable] at hviable
  exact absurd hviable.2 (by decide)

/-- Those of a class and a constructor template that takes its argument by `T&`. -/
def withTemplate (c : κ) (copy move template : ν) : List (Candidate κ ν) :=
  copyMove c copy move ++ [⟨template, .template⟩]

/-- Those of a class and a converting constructor for objects of a base class `b`. -/
def withConversion (c b : κ) (copy move conversion : ν) : List (Candidate κ ν) :=
  copyMove c copy move ++ [⟨conversion, .of ⟨b, true, true⟩⟩]

variable {b : κ} {template conversion : ν}

/-- What can be moved from is not an argument for the template. -/
theorem best_withTemplate_of_movable (hcls : a.cls ≤ c) (hmovable : a.movable = true) :
    Best (withTemplate c copy move template) a ⟨move, .of ⟨c, false, false⟩⟩ := by
  apply (best_move hcls hmovable).append [_]
  intro c' hc' hviable
  rw [List.mem_singleton.mp hc', viable_template, hmovable] at hviable
  exact absurd hviable (by decide)

/-- A const object of the class itself: the parameters are of the same type, and the copy
constructor is not a template. -/
theorem best_withTemplate_of_const (hcls : a.cls = c) (hmovable : a.movable = false)
    (hconst : a.const = true) :
    Best (withTemplate c copy move template) a ⟨copy, .of ⟨c, true, true⟩⟩ := by
  apply (best_copy hcls.le hmovable).append [_]
  intro c' hc' _
  rw [List.mem_singleton.mp hc', Signature.rank_lt_rank rfl rfl]
  exact .inr ⟨hcls.symm, .inr ⟨rfl, .inr ⟨hconst.symm, Bool.false_lt_true⟩⟩⟩

/-- **The template is better**: it needs no conversion to the base class, and its reference is no
more const than the argument. -/
theorem best_template (hcls : a.cls ≤ c) (hmovable : a.movable = false)
    (h : a.cls < c ∨ a.const = false) :
    Best (withTemplate c copy move template) a ⟨template, .template⟩ := by
  apply Best.of_better _ (viable_template.mpr hmovable)
  intro c' hc' hviable
  simp only [copyMove, List.mem_cons, List.not_mem_nil, or_false] at hc'
  rcases hc' with rfl | rfl
  · rw [Signature.rank_lt_rank rfl rfl]
    rcases hcls.lt_or_eq with hlt | heq
    · exact .inl hlt
    · have hconst : a.const = false := h.resolve_left heq.not_lt
      exact .inr ⟨heq, .inr ⟨rfl, .inl (Bool.lt_iff.mpr ⟨hconst, rfl⟩)⟩⟩
  · rw [viable_of_rvalue, hmovable] at hviable
    exact absurd hviable.2 (by decide)

/-- The converting constructor is no better for objects of the class itself. -/
theorem Best.withConversion {d : Candidate κ ν} (h : Best (copyMove c copy move) a d)
    (hd : (d.signature.parameter a).cls = c) (hcb : c < b) :
    Best (withConversion c b copy move conversion) a d := by
  apply h.append [_]
  intro c' hc' _
  rw [List.mem_singleton.mp hc', Signature.rank_lt_rank rfl rfl]
  exact .inl (hd.trans_lt hcb)

/-- Objects of the base class are converted. -/
theorem best_conversion (hcls : a.cls ≤ b) (hnot : ¬ a.cls ≤ c) :
    Best (withConversion c b copy move conversion) a ⟨conversion, .of ⟨b, true, true⟩⟩ := by
  apply Best.of_better _ (viable_of_const.mpr hcls)
  intro c' hc' hviable
  simp only [copyMove, List.mem_cons, List.not_mem_nil, or_false] at hc'
  rcases hc' with rfl | rfl
  · exact absurd (viable_of_const.mp hviable) hnot
  · exact absurd (viable_of_rvalue.mp hviable).1 hnot

/-! ## Resolution -/

section Resolution

variable [DecidableEq κ] [DecidableLE κ] [DecidableLT κ] [DecidableEq ν]

instance (p : Parameter κ) (a : Argument κ) : Decidable (p.Binds a) :=
  decidable_of_iff
    (a.cls ≤ p.cls ∧ (a.const = true → p.const = true) ∧
      if a.lvalue then p.lvalue = true else p.lvalue = true → p.const = true)
    ⟨fun h => ⟨h.1, h.2.1, h.2.2⟩, fun h => ⟨h.cls, h.const, h.category⟩⟩

instance (a : Argument κ) (c : Candidate κ ν) : Decidable (c.Viable a) :=
  inferInstanceAs (Decidable ((c.signature.parameter a).Binds a))

instance (a : Argument κ) (s t : Signature κ) : Decidable (s.rank a < t.rank a) :=
  decidable_of_iff' _ Prod.Lex.lt_iff

instance (candidates : List (Candidate κ ν)) (a : Argument κ) (c : Candidate κ ν) :
    Decidable (Best candidates a c) :=
  decidable_of_iff
    (c.Viable a ∧ ∀ c' ∈ candidates, c'.Viable a →
      c' = c ∨ c.signature.rank a < c'.signature.rank a)
    ⟨fun h => ⟨h.1, h.2⟩, fun h => ⟨h.viable, h.better⟩⟩

/-- The function that is called, `none` if there is no viable candidate or none is the best. -/
def resolve (candidates : List (Candidate κ ν)) (a : Argument κ) : Option ν :=
  (candidates.find? fun c => Best candidates a c).map Candidate.name

/-- **The best candidate is called**. -/
theorem resolve_eq_some {candidates : List (Candidate κ ν)} {c : Candidate κ ν}
    (hc : c ∈ candidates) (hbest : Best candidates a c) : resolve candidates a = some c.name := by
  have hsome : (candidates.find? fun c => Best candidates a c).isSome :=
    List.find?_isSome.mpr ⟨c, hc, decide_eq_true hbest⟩
  obtain ⟨c', hfind⟩ := Option.isSome_iff_exists.mp hsome
  have hbest' : Best candidates a c' := by simpa using List.find?_some hfind
  rw [resolve, hfind, Option.map_some, hbest.eq hbest' hc (List.mem_of_find?_eq_some hfind)]

/-- **Copies and moves**. -/
theorem resolve_copyMove (hcls : a.cls ≤ c) :
    resolve (copyMove c copy move) a = some (if a.movable then move else copy) := by
  cases hmovable : a.movable with
  | true => exact resolve_eq_some (by simp [copyMove]) (best_move hcls hmovable)
  | false => exact resolve_eq_some (by simp [copyMove]) (best_copy hcls hmovable)

/-- **Constructors of a class with a template**. -/
theorem resolve_withTemplate (hcls : a.cls ≤ c) :
    resolve (withTemplate c copy move template) a =
      some (if a.movable then move else if a.cls = c ∧ a.const then copy else template) := by
  cases hmovable : a.movable with
  | true =>
    exact resolve_eq_some (by simp [withTemplate, copyMove])
      (best_withTemplate_of_movable hcls hmovable)
  | false =>
    by_cases h : a.cls = c ∧ a.const = true
    · simp only [h, and_self, if_true, Bool.false_eq_true, if_false]
      exact resolve_eq_some (by simp [withTemplate, copyMove])
        (best_withTemplate_of_const h.1 hmovable h.2)
    · simp only [h, Bool.false_eq_true, if_false]
      refine resolve_eq_some (by simp [withTemplate]) (best_template hcls hmovable ?_)
      rcases hcls.lt_or_eq with hlt | heq
      · exact .inl hlt
      · exact .inr (by simpa [heq] using h)

/-- **Constructors of a class with a conversion from a base class**. -/
theorem resolve_withConversion (hcb : c < b) (hcls : a.cls ≤ b) :
    resolve (withConversion c b copy move conversion) a =
      some (if a.cls ≤ c then (if a.movable then move else copy) else conversion) := by
  by_cases h : a.cls ≤ c
  · rw [if_pos h]
    cases hmovable : a.movable with
    | true =>
      exact resolve_eq_some (by simp [withConversion, copyMove])
        ((best_move h hmovable).withConversion rfl hcb)
    | false =>
      exact resolve_eq_some (by simp [withConversion, copyMove])
        ((best_copy h hmovable).withConversion rfl hcb)
  · rw [if_neg h]
    exact resolve_eq_some (by simp [withConversion]) (best_conversion hcls h)

end Resolution

end Ranking

end OverloadResolution
