import Mathlib.Logic.Function.Basic
import Stdnet.Library.Delimiters

/-!
# HTTP Requests

`parser` and `read_http_request` of `examples/simple-http-server.cpp`: the head of a request is an
array of characters that ends with an empty line, and the parser moves a pointer through all of it
but the last line end.

## Main results

- `readHttpRequest_isSome`: whatever the head contains, the parser stays inside of it.
- `readHttpRequest_text`: reading what a client wrote gives back the request.
- `isMessage_text`: what a client wrote is the head of one request and no more.
-/

namespace Stdnet

namespace Http

open Delimiters

/-- An array of `char`s. -/
abbrev Text := List Char

/-- `"\r\n"`. -/
def crlf : Text := ['\r', '\n']

/-- `buffered_stream::sep` as a C string, without the `'\0'` at its end. -/
def sep : Text := ['\r', '\n', '\r', '\n']

/-! ## The parser -/

/-- `parser`: what lies between `it` and `end`, and `*end` if the array does not stop there. -/
structure Parser where
  rest : Text
  beyond : Option Char
  deriving DecidableEq, Repr

/-- The loop of `skip_whitespace`. The condition `it != end && *it == ' ' || *it == '\t'` also looks
at `*end`; `none` says that there is nothing to look at, or that the loop leaves the range. -/
def skipBlanks : Text → Option Char → Option Text
  | [], none => none
  | [], some c => if c = '\t' then none else some []
  | c :: rest, beyond => if c = ' ' ∨ c = '\t' then skipBlanks rest beyond else some (c :: rest)

namespace Parser

/-- `empty`. -/
def empty (p : Parser) : Bool := p.rest.isEmpty

/-- `find`: the text before the next `c`, which is skipped. -/
def find (p : Parser) (c : Char) : Text × Parser :=
  (p.rest.takeWhile (· != c), { p with rest := (p.rest.dropWhile (· != c)).tail })

/-- `skip_whitespace`. -/
def skipWhitespace (p : Parser) : Option Parser :=
  (skipBlanks p.rest p.beyond).map fun rest => { p with rest := rest }

/-- `search`: the text before the next occurrence of `v`, which is skipped. -/
def search (p : Parser) (v : Text) : Text × Parser :=
  match p.rest.dropInfix? v with
  | some (s, rest) => (s, { p with rest := rest })
  | none => (p.rest, { p with rest := [] })

theorem find_beyond (p : Parser) (c : Char) : (p.find c).2.beyond = p.beyond := rfl

theorem search_beyond (p : Parser) (v : Text) : (p.search v).2.beyond = p.beyond := by
  unfold search
  split <;> rfl

/-- Every `find` takes something off a range that is not empty. -/
theorem length_find {p : Parser} (h : p.empty = false) (c : Char) :
    (p.find c).2.rest.length < p.rest.length := by
  have hle := (List.dropWhile_suffix (l := p.rest) (· != c)).length_le
  have hpos : p.rest ≠ [] := by simpa [empty] using h
  have hlt := List.length_pos_iff.mpr hpos
  simp only [find, List.length_tail]
  omega

theorem length_skipBlanks {rest rest' : Text} {beyond : Option Char}
    (h : skipBlanks rest beyond = some rest') :
    rest'.length ≤ rest.length := by
  induction rest with
  | nil =>
    cases beyond with
    | none => cases h
    | some c =>
      simp only [skipBlanks, Option.ite_none_left_eq_some, Option.some.injEq] at h
      rw [← h.2]
  | cons c rest ih =>
    simp only [skipBlanks] at h
    split at h
    · exact (ih h).trans (Nat.le_succ _)
    · rw [← Option.some.inj h]

theorem length_search (p : Parser) (v : Text) : (p.search v).2.rest.length ≤ p.rest.length := by
  unfold search
  split
  next s rest h =>
    obtain ⟨⟨i, hrest, -⟩, -⟩ := List.dropInfix?_eq_some_iff.mp h
    show rest.length ≤ p.rest.length
    rw [hrest, List.length_append]
    omega
  next => exact Nat.zero_le _

end Parser

/-! ## Requests -/

/-- `request`. Reading a header that the map does not have gives the empty string. -/
structure Request where
  method : Text := []
  uri : Text := []
  version : Text := []
  headers : Text → Option Text := fun _ => none

/-- The `while` of `read_http_request`: `r.headers[key] = value` for each line. -/
def readHeaders (p : Parser) (headers : Text → Option Text) : Option (Text → Option Text) :=
  if p.empty then some headers
  else
    match _hskip : (p.find ':').2.skipWhitespace with
    | none => none
    | some q =>
      readHeaders (q.search crlf).2
        (Function.update headers (p.find ':').1 (some (q.search crlf).1))
termination_by p.rest.length
decreasing_by
  have hfind := Parser.length_find (by simpa using ‹¬ p.empty = true›) ':'
  obtain ⟨rest, hskip, rfl⟩ := Option.map_eq_some_iff.mp _hskip
  have hle := Parser.length_skipBlanks hskip
  have hsearch := Parser.length_search { (p.find ':').2 with rest := rest } crlf
  simp only at hsearch
  omega

theorem readHeaders_of_empty {p : Parser} (h : p.empty = true) (headers : Text → Option Text) :
    readHeaders p headers = some headers := by
  rw [readHeaders, if_pos h]

theorem readHeaders_of_some {p q : Parser} (hempty : ¬ p.empty = true)
    (h : (p.find ':').2.skipWhitespace = some q) (headers : Text → Option Text) :
    readHeaders p headers = readHeaders (q.search crlf).2
      (Function.update headers (p.find ':').1 (some (q.search crlf).1)) := by
  rw [readHeaders, if_neg hempty]
  split
  next hnone =>
    rw [h] at hnone
    cases hnone
  next q' hsome =>
    obtain rfl := Option.some.inj (h.symm.trans hsome)
    rfl

/-- `read_http_request` after `read_head` has returned `head`, without the `consume` at its end. -/
def readHttpRequest (head : Text) : Option Request :=
  if head = [] then some {}
  else
    -- the range ends before the last line end of the head
    let p : Parser := ⟨head.take (head.length - 2), (head.drop (head.length - 2)).head?⟩
    let (method, p) := p.find ' '
    let (uri, p) := p.find ' '
    let (version, p) := p.search crlf
    (readHeaders p fun _ => none).map fun headers =>
      { method := method, uri := uri, version := version, headers := headers }

/-! ## Any head -/

theorem skipBlanks_isSome {c : Char} (hc : c ≠ '\t') (rest : Text) :
    (skipBlanks rest (some c)).isSome := by
  induction rest with
  | nil => simp [skipBlanks, hc]
  | cons d rest ih =>
    simp only [skipBlanks]
    split
    · exact ih
    · rfl

theorem readHeaders_isSome {c : Char} (hc : c ≠ '\t') (p : Parser) (hbeyond : p.beyond = some c)
    (headers : Text → Option Text) : (readHeaders p headers).isSome := by
  induction p, headers using readHeaders.induct with
  | case1 p headers hempty =>
    rw [readHeaders_of_empty hempty]
    rfl
  | case2 p headers hempty hskip =>
    -- the loop over the blanks stops at the line end that the range leaves out
    have hsome := skipBlanks_isSome hc (p.find ':').2.rest
    rw [← hbeyond, ← Parser.find_beyond p ':'] at hsome
    rw [Parser.skipWhitespace, Option.map_eq_none_iff] at hskip
    rw [hskip] at hsome
    cases hsome
  | case3 p headers hempty q hskip ih =>
    have hq : q.beyond = some c := by
      obtain ⟨rest, -, rfl⟩ := Option.map_eq_some_iff.mp hskip
      exact hbeyond
    rw [readHeaders_of_some hempty hskip]
    exact ih (by rw [Parser.search_beyond, hq])

/-- Whatever a head contains, the parser stays inside of it. -/
theorem readHttpRequest_isSome {head : Text} (h : head = [] ∨ IsMessage sep head) :
    (readHttpRequest head).isSome := by
  unfold readHttpRequest
  split
  next => rfl
  next hne =>
    obtain ⟨p, rfl⟩ := (h.resolve_left hne).1
    -- the range ends in front of the second line end
    have hdrop : (p ++ sep).drop ((p ++ sep).length - 2) = crlf := by
      rw [show sep = crlf ++ crlf from rfl, ← List.append_assoc, List.drop_append_of_le_length]
      all_goals simp [crlf]
    rw [hdrop, Option.isSome_map]
    apply readHeaders_isSome (c := '\r') (by decide)
    rw [Parser.search_beyond]
    rfl

/-! ## Heads written by a client -/

/-- A header as a client writes it. -/
structure HeaderLine where
  key : Text
  blanks : Text
  value : Text
  key_colon : ':' ∉ key
  key_cr : '\r' ∉ key
  blank : ∀ c ∈ blanks, c = ' ' ∨ c = '\t'
  value_cr : '\r' ∉ value
  value_head : ∀ c, value.head? = some c → ¬ (c = ' ' ∨ c = '\t')

namespace HeaderLine

def text (l : HeaderLine) : Text := l.key ++ ':' :: (l.blanks ++ l.value)

/-- The headers with the value of this line. -/
def assign (headers : Text → Option Text) (l : HeaderLine) : Text → Option Text :=
  Function.update headers l.key (some l.value)

end HeaderLine

/-- A request as a client writes it. -/
structure WireRequest where
  method : Text
  uri : Text
  version : Text
  headers : List HeaderLine
  method_space : ' ' ∉ method
  method_cr : '\r' ∉ method
  uri_space : ' ' ∉ uri
  uri_cr : '\r' ∉ uri
  version_cr : '\r' ∉ version

namespace WireRequest

def line (r : WireRequest) : Text := r.method ++ ' ' :: (r.uri ++ ' ' :: r.version)

/-- The head: the lines and an empty one. -/
def text (r : WireRequest) : Text :=
  (r.line :: r.headers.map HeaderLine.text).flatMap (· ++ crlf) ++ crlf

/-- What the head says; of several values for one key the last one counts. -/
def request (r : WireRequest) : Request where
  method := r.method
  uri := r.uri
  version := r.version
  headers := r.headers.foldl HeaderLine.assign fun _ => none

end WireRequest

theorem find_append {c : Char} {k : Text} (hk : c ∉ k) (s : Text) (beyond : Option Char) :
    (⟨k ++ c :: s, beyond⟩ : Parser).find c = (k, ⟨s, beyond⟩) := by
  have hall : ∀ a ∈ k, (a != c) = true := by
    intro a ha
    simp only [bne_iff_ne]
    rintro rfl
    exact hk ha
  simp [Parser.find, List.takeWhile_append_of_pos hall, List.dropWhile_append_of_pos hall]

theorem search_append {v : Text} (hv : '\r' ∉ v) (s : Text) (beyond : Option Char) :
    (⟨v ++ crlf ++ s, beyond⟩ : Parser).search crlf = (v, ⟨s, beyond⟩) := by
  have hmessage : IsMessage crlf (v ++ crlf) := (IsMessage.self (by decide)).append hv
  have hcut : (v ++ crlf ++ s).dropInfix? crlf = some (v, s) :=
    (dropInfix?_eq_some_iff (by decide)).mpr ⟨rfl, hmessage.2⟩
  simp only [Parser.search, hcut]

theorem skipBlanks_append {blanks s : Text} (hblanks : ∀ c ∈ blanks, c = ' ' ∨ c = '\t') {c : Char}
    (hs : s.head? = some c) (hc : ¬ (c = ' ' ∨ c = '\t')) (beyond : Option Char) :
    skipBlanks (blanks ++ s) beyond = some s := by
  induction blanks with
  | nil =>
    obtain ⟨t, rfl⟩ := List.head?_eq_some_iff.mp hs
    simp only [List.nil_append, skipBlanks, if_neg hc]
  | cons b blanks ih =>
    simp only [List.cons_append, skipBlanks, if_pos (hblanks b List.mem_cons_self)]
    exact ih fun c hc => hblanks c (List.mem_cons_of_mem _ hc)

/-- The value and the line end behind it do not begin with a blank. -/
theorem HeaderLine.exists_head (l : HeaderLine) (s : Text) :
    ∃ c, (l.value ++ crlf ++ s).head? = some c ∧ ¬ (c = ' ' ∨ c = '\t') := by
  cases hvalue : l.value with
  | nil => exact ⟨'\r', rfl, by decide⟩
  | cons c value => exact ⟨c, rfl, l.value_head c (by rw [hvalue]; rfl)⟩

/-- Reading the lines of a head, one after the other. -/
theorem readHeaders_lines (ls : List HeaderLine) (beyond : Option Char)
    (headers : Text → Option Text) :
    readHeaders ⟨(ls.map HeaderLine.text).flatMap (· ++ crlf), beyond⟩ headers =
      some (ls.foldl HeaderLine.assign headers) := by
  induction ls generalizing headers with
  | nil => exact readHeaders_of_empty rfl headers
  | cons l ls ih =>
    have htext : (((l :: ls).map HeaderLine.text).flatMap (· ++ crlf) : Text) =
        l.key ++ ':' :: (l.blanks ++ (l.value ++ crlf ++
          (ls.map HeaderLine.text).flatMap (· ++ crlf))) := by
      simp [HeaderLine.text]
    obtain ⟨c, hhead, hc⟩ := l.exists_head ((ls.map HeaderLine.text).flatMap (· ++ crlf))
    have hfind := find_append l.key_colon
      (l.blanks ++ (l.value ++ crlf ++ (ls.map HeaderLine.text).flatMap (· ++ crlf))) beyond
    have hskip := congrArg (Option.map fun rest => (⟨rest, beyond⟩ : Parser))
      (skipBlanks_append l.blank hhead hc beyond)
    rw [htext, readHeaders_of_some (by simp [Parser.empty]) (by rw [hfind]; exact hskip), hfind,
      search_append l.value_cr, ih, List.foldl_cons]
    rfl

/-- **Round trip**: reading what a client wrote gives back the request. -/
theorem readHttpRequest_text (r : WireRequest) : readHttpRequest r.text = some r.request := by
  have htext : r.text = r.method ++ ' ' :: (r.uri ++ ' ' :: (r.version ++ crlf ++
      (r.headers.map HeaderLine.text).flatMap (· ++ crlf))) ++ crlf := by
    simp [WireRequest.text, WireRequest.line]
  unfold readHttpRequest
  rw [if_neg (by simp [htext])]
  have hlen : r.text.length - 2 = (r.method ++ ' ' :: (r.uri ++ ' ' :: (r.version ++ crlf ++
      (r.headers.map HeaderLine.text).flatMap (· ++ crlf)))).length := by
    rw [htext, List.length_append]
    rfl
  rw [hlen, htext, List.take_left, List.drop_left]
  simp only [find_append r.method_space, find_append r.uri_space, search_append r.version_cr,
    readHeaders_lines, Option.map_some]
  rfl

/-- Lines that are not empty do not end a head. -/
theorem isMessage_lines {ls : List Text} (hls : ∀ l ∈ ls, '\r' ∉ l ∧ l ≠ []) :
    IsMessage sep (crlf ++ (ls.flatMap (· ++ crlf) ++ crlf)) := by
  induction ls with
  | nil => exact IsMessage.self (by decide)
  | cons l ls ih =>
    obtain ⟨hcr, hne⟩ := hls l List.mem_cons_self
    have hrest := ih fun x hx => hls x (List.mem_cons_of_mem _ hx)
    have hline : IsMessage sep (('\n' :: l) ++ (crlf ++ (ls.flatMap (· ++ crlf) ++ crlf))) :=
      hrest.append (by simpa using hcr)
    -- a line end begins the delimiter only if the next line is empty
    have hfront : IsMessage sep ('\r' :: ('\n' :: l ++ (crlf ++ (ls.flatMap (· ++ crlf) ++ crlf)))) := by
      apply hline.cons (by decide)
      intro hpre
      cases l with
      | nil => exact hne rfl
      | cons c l =>
        obtain ⟨t, ht⟩ := hpre
        have hc : some '\r' = some c := congrArg (·[2]?) ht
        exact hcr (Option.some.inj hc ▸ List.mem_cons_self)
    simpa [crlf] using hfront

theorem HeaderLine.text_cr (l : HeaderLine) : '\r' ∉ l.text := by
  simp only [HeaderLine.text, List.mem_append, List.mem_cons, not_or]
  refine ⟨l.key_cr, by decide, fun hblank => ?_, l.value_cr⟩
  have hc := l.blank _ hblank
  revert hc
  decide

/-- What a client wrote is the head of one request and no more. -/
theorem isMessage_text (r : WireRequest) : IsMessage sep r.text := by
  have hlines : IsMessage sep
      (crlf ++ ((r.headers.map HeaderLine.text).flatMap (· ++ crlf) ++ crlf)) := by
    apply isMessage_lines
    intro t ht
    obtain ⟨l, -, rfl⟩ := List.mem_map.mp ht
    exact ⟨l.text_cr, by simp [HeaderLine.text]⟩
  have hline : '\r' ∉ r.line := by
    simp [WireRequest.line, r.method_cr, r.uri_cr, r.version_cr]
  have hall : IsMessage sep (r.line ++
      (crlf ++ ((r.headers.map HeaderLine.text).flatMap (· ++ crlf) ++ crlf))) := hlines.append hline
  simpa [WireRequest.text] using hall

end Http

end Stdnet
