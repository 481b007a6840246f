import Stdnet.HttpRequest

/-!
# HTTP Responses

What `make_client` of `examples/simple-http-server.cpp` answers to a request, and the bytes that
`write_response` makes of an answer. The length of the body is in the head, so that a client knows
where the next response begins.

## Main results

- `readResponse_wire`: a client that follows the head finds the response and what is behind it.
- `readResponses_prefix`: from the beginning of the bytes of several responses it reads the first
  ones, and nothing else.
-/

namespace Stdnet

namespace Http

open Delimiters

/-- The arguments of `write_response`. -/
structure Reply where
  message : Text
  response : Text
  deriving DecidableEq, Repr

/-- `"HTTP/1.1 "` and `"Content-Length: "`. -/
def httpVersion : Text := "HTTP/1.1 ".toList
def contentLength : Text := "Content-Length: ".toList

namespace Reply

/-- `head` in `write_response`. -/
def head (r : Reply) : Text :=
  httpVersion ++ r.message ++ crlf ++ contentLength ++ Nat.toDigits 10 r.response.length ++ crlf ++
    crlf

/-- The bytes of a response: `write_response` sends the head and then the body. -/
def wire (r : Reply) : Text := r.head ++ r.response

end Reply

/-! ## The answer to a request -/

/-- `res`: the names of the files for the locations the server knows. -/
def res : List (Text × Text) :=
  [("/".toList, "data/hello.html".toList), ("/fav.png".toList, "data/fav.png".toList)]

/-- What `make_client` answers; `files` gives the contents of a file. Requests with other methods
get no answer. -/
def answer (files : Text → Text) (r : Request) : Option Reply :=
  if r.method = [] then some ⟨"550 ERROR".toList, []⟩
  else if r.method = "GET".toList then
    match res.lookup r.uri with
    | none => some ⟨"404 NOT FOUND".toList, "not found".toList⟩
    | some name => some ⟨"200 OK".toList, files name⟩
  else none

/-- `make_client` reads another request: an empty method makes it return, else it is asked whether
`r.headers["Connection"] == "keep-alive"`. -/
def keepAlive (r : Request) : Bool :=
  r.method != [] && (r.headers "Connection".toList).getD [] == "keep-alive".toList

/-! ## Reading a response -/

/-- What a client makes of the bytes it receives: the first response and the rest. -/
def readResponse (xs : Text) : Option (Reply × Text) := do
  let xs ← xs.dropPrefix? httpVersion
  let (message, xs) ← xs.dropInfix? crlf
  let xs ← xs.dropPrefix? contentLength
  let (digits, xs) ← xs.dropInfix? crlf
  let xs ← xs.dropPrefix? crlf
  let length := Nat.ofDigitChars 10 digits 0
  if length ≤ xs.length then some (⟨message, xs.take length⟩, xs.drop length) else none

theorem dropPrefix?_append (p s : Text) : (p ++ s).dropPrefix? p = some s :=
  List.dropPrefix?_eq_some_iff.mpr ⟨p, rfl, by simp⟩

theorem dropInfix?_crlf {v : Text} (hv : '\r' ∉ v) (s : Text) :
    (v ++ (crlf ++ s)).dropInfix? crlf = some (v, s) := by
  have hmessage : IsMessage crlf (v ++ crlf) := (IsMessage.self (by decide)).append hv
  rw [← List.append_assoc]
  exact (dropInfix?_eq_some_iff (by decide)).mpr ⟨rfl, hmessage.2⟩

theorem toDigits_cr (n : ℕ) : '\r' ∉ Nat.toDigits 10 n := by
  intro h
  have hdigit := Nat.isDigit_of_mem_toDigits (by decide) (by decide) h
  revert hdigit
  decide

/-- A client that follows the head finds the response and what is behind it. -/
theorem readResponse_wire {r : Reply} (h : '\r' ∉ r.message) (rest : Text) :
    readResponse (r.wire ++ rest) = some (r, rest) := by
  simp only [readResponse, Reply.wire, Reply.head, List.append_assoc, dropPrefix?_append,
    Option.bind_eq_bind, Option.bind_some, dropInfix?_crlf h,
    dropInfix?_crlf (toDigits_cr _), Nat.ofDigitChars_ten_toDigits, List.length_append,
    Nat.le_add_right, if_true, List.take_left, List.drop_left]

/-- The messages of the server have no line end. -/
theorem answer_message {files : Text → Text} {r : Request} {y : Reply}
    (h : answer files r = some y) : '\r' ∉ y.message := by
  unfold answer at h
  split at h
  · rw [← Option.some.inj h]
    decide
  · split at h
    · split at h
      all_goals
        obtain rfl := Option.some.inj h
        show '\r' ∉ String.toList _
        decide
    · cases h

theorem dropPrefix?_extend {xs p s : Text} (h : xs.dropPrefix? p = some s) (ys : Text) :
    (xs ++ ys).dropPrefix? p = some (s ++ ys) := by
  obtain ⟨p', rfl, hp⟩ := List.dropPrefix?_eq_some_iff.mp h
  exact List.dropPrefix?_eq_some_iff.mpr ⟨p', List.append_assoc _ _ _, hp⟩

/-- What arrives later does not change the first response. -/
theorem readResponse_extend {xs rest : Text} {r : Reply} (h : readResponse xs = some (r, rest))
    (ys : Text) : readResponse (xs ++ ys) = some (r, rest ++ ys) := by
  simp only [readResponse, Option.bind_eq_bind, Option.bind_eq_some_iff] at h
  obtain ⟨x₁, h₁, ⟨message, x₂⟩, h₂, x₃, h₃, ⟨digits, x₄⟩, h₄, x₅, h₅, h₆⟩ := h
  simp only [Option.ite_none_right_eq_some, Option.some.injEq, Prod.mk.injEq] at h₆
  obtain ⟨hle, rfl, rfl⟩ := h₆
  simp only [readResponse, Option.bind_eq_bind, dropPrefix?_extend h₁, Option.bind_some,
    dropInfix?_append (show crlf ≠ [] by decide) h₂, dropPrefix?_extend h₃,
    dropInfix?_append (show crlf ≠ [] by decide) h₄, dropPrefix?_extend h₅]
  rw [if_pos (by rw [List.length_append]; omega), List.take_append_of_le_length hle,
    List.drop_append_of_le_length hle]

/-- A response that has not arrived completely is not read. -/
theorem readResponse_of_part {xs ys : Text} {r : Reply} (h : '\r' ∉ r.message)
    (hwire : xs ++ ys = r.wire) (hys : ys ≠ []) : readResponse xs = none := by
  cases hread : readResponse xs with
  | none => rfl
  | some c =>
    obtain ⟨r', rest⟩ := c
    have hextend := readResponse_extend hread ys
    have hall := readResponse_wire h []
    rw [List.append_nil] at hall
    rw [hwire, hall, Option.some.injEq, Prod.mk.injEq] at hextend
    have hnil := hextend.2.symm
    rw [List.append_eq_nil_iff] at hnil
    exact absurd hnil.2 hys

/-- All responses that have arrived completely. -/
def readResponses (xs : Text) : List Reply :=
  match readResponse xs with
  | none => []
  | some (r, rest) => if rest.length < xs.length then r :: readResponses rest else []
termination_by xs.length

theorem length_head_pos (r : Reply) : 0 < r.head.length := by
  simp only [Reply.head, crlf, List.length_append, List.length_cons]
  omega

theorem length_wire_pos (r : Reply) : 0 < r.wire.length := by
  rw [Reply.wire, List.length_append]
  exact Nat.add_pos_left (length_head_pos r) _

theorem readResponses_wire {r : Reply} (h : '\r' ∉ r.message) (rest : Text) :
    readResponses (r.wire ++ rest) = r :: readResponses rest := by
  have hpos := length_wire_pos r
  rw [readResponses, readResponse_wire h]
  apply if_pos
  rw [List.length_append]
  omega

/-- What a client reads from the beginning of the bytes of some responses is the first ones of them,
and all of them if nothing is missing. -/
theorem readResponses_prefix {rs : List Reply} (h : ∀ r ∈ rs, '\r' ∉ r.message) {xs : Text}
    (hxs : xs <+: rs.flatMap Reply.wire) :
    readResponses xs <+: rs ∧ (xs = rs.flatMap Reply.wire → readResponses xs = rs) := by
  induction rs generalizing xs with
  | nil =>
    rw [List.flatMap_nil, List.prefix_nil] at hxs
    have hnone : readResponses xs = [] := by
      rw [hxs, readResponses]
      rfl
    exact ⟨hnone ▸ List.nil_prefix, fun _ => hnone⟩
  | cons r rs ih =>
    have hr := h r List.mem_cons_self
    rw [List.flatMap_cons] at hxs ⊢
    by_cases hcomplete : r.wire <+: xs
    -- the first response has arrived
    · obtain ⟨rest, rfl⟩ := hcomplete
      obtain ⟨hfirst, hall⟩ := ih (fun x hx => h x (List.mem_cons_of_mem _ hx))
        ((List.prefix_append_right_inj _).mp hxs)
      rw [readResponses_wire hr]
      refine ⟨List.cons_prefix_cons.mpr ⟨rfl, hfirst⟩, fun heq => ?_⟩
      rw [hall (List.append_cancel_left heq)]
    · -- it has not: the bytes are a part of it
      have hpart : xs <+: r.wire :=
        (List.prefix_or_prefix_of_prefix hxs (List.prefix_append _ _)).resolve_right hcomplete
      obtain ⟨ys, hys⟩ := hpart
      have hne : ys ≠ [] := by
        rintro rfl
        rw [List.append_nil] at hys
        exact hcomplete (hys ▸ List.prefix_refl _)
      have hnone : readResponses xs = [] := by
        rw [readResponses, readResponse_of_part hr hys hne]
      refine ⟨hnone ▸ List.nil_prefix, fun heq => ?_⟩
      exact absurd ⟨_, heq.symm⟩ hcomplete

end Http

end Stdnet
