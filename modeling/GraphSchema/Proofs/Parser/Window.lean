import GraphSchema.Proofs.Parser.Document

/-!
# The window of a parser

A parser can be asked for its tokens in any order: to show one of them, to take the next one, or to
take it only if it is as wanted. Whatever it was asked before, and also after requests that failed,
it answers as a cursor into the tokens of its text does. Looking ahead fills the window and does not
move the cursor, and where the tokens do not suffice a request fails and leaves it where it is.

## Main definitions

* `Parser.Request`, `Parser.Answer`: what a parser can be asked, and what it answers.
* `Parser.ask`: the answers to requests in order.
* `Parser.Cursor`, `Parser.Cursor.ask`: the same for an index into a list of tokens.

## Main statements

* `Parse.peekAt_end`, `Parse.advance_end`: requests for more tokens than there are.
* `Parser.Follows.step`: a parser follows a cursor through one request.
* `Parser.Follows.ask`, `Parser.ask_eq_cursor`: and through any number of them.
-/

namespace GraphSchema

namespace Parser

/-- What a parser can be asked: to show the `n`-th token ahead, or to take the next one, whatever it
is or if it is as wanted. -/
inductive Request where
  | peek (n : Nat) (pos : 1 ≤ n)
  | advance
  | expect (kind : Token.Kind)
  | expectWord (word : Text)
  | skip (kind : Token.Kind)

/-- A token, or whether one was skipped. -/
inductive Answer where
  | token (t : Token)
  | skipped (taken : Bool)

/-- The rule that answers a request. -/
def Request.rule : Request → Parse Answer
  | peek n _ => return .token (← Parse.peekAt n)
  | advance => return .token (← Parse.advance)
  | expect kind => return .token (← Parse.expect kind)
  | expectWord word => return .token (← Parse.expectWord word)
  | skip kind => return .skipped (← Parse.skip kind)

/-- The answers to requests in order, and the parser afterwards. A request that fails is answered by
its error, and the next one is put to the parser as the failure left it. -/
def ask (d : Document) (p : Parser) : List Request → List (Except SyntaxError Answer) × Parser
  | [] => ([], p)
  | r :: rs =>
    let step := r.rule.runOn d p
    let rest := step.2.ask d rs
    (step.1 :: rest.1, rest.2)

/-! ## Cursors -/

/-- An index into the tokens of a text that has a given length. -/
structure Cursor where
  tokens : List Token
  length : Nat
  index : Nat

namespace Cursor

/-- There are not as many tokens. -/
def atEnd (c : Cursor) : SyntaxError := ⟨.unexpectedEnd, c.length⟩

/-- The cursor one token further on. -/
def moved (c : Cursor) : Cursor := { c with index := c.index + 1 }

/-- The tokens from the cursor on. -/
def ahead (c : Cursor) : List Token := c.tokens.drop c.index

/-- What a cursor answers, and where it stands then. -/
def answer (c : Cursor) : Request → Except SyntaxError Answer × Cursor
  | .peek n _ =>
    match c.tokens[c.index + n - 1]? with
    | some t => (.ok (.token t), c)
    | none => (.error c.atEnd, c)
  | .advance =>
    match c.tokens[c.index]? with
    | some t => (.ok (.token t), c.moved)
    | none => (.error c.atEnd, c)
  | .expect kind =>
    match c.tokens[c.index]? with
    | some t =>
      if t.kind = kind then (.ok (.token t), c.moved)
      else (.error ⟨.expectedKind kind t.value, t.start⟩, c)
    | none => (.error c.atEnd, c)
  | .expectWord word =>
    match c.tokens[c.index]? with
    | some t =>
      if t.isWord word then (.ok (.token t), c.moved)
      else (.error ⟨.expectedWord word t.value, t.start⟩, c)
    | none => (.error c.atEnd, c)
  | .skip kind =>
    match c.tokens[c.index]? with
    | some t => if t.kind = kind then (.ok (.skipped true), c.moved) else (.ok (.skipped false), c)
    | none => (.error c.atEnd, c)

/-- The answers to requests in order, and the cursor afterwards. -/
def ask (c : Cursor) : List Request → List (Except SyntaxError Answer) × Cursor
  | [] => ([], c)
  | r :: rs =>
    let step := c.answer r
    let rest := step.2.ask rs
    (step.1 :: rest.1, rest.2)

variable {c : Cursor} {t : Token} {ts : List Token}

/-- The tokens stay as they are. -/
theorem tokens_answer (c : Cursor) (r : Request) : (c.answer r).2.tokens = c.tokens := by
  cases r with
  | _ =>
    rw [answer]
    repeat' split
    all_goals rfl

theorem tokens_ask (c : Cursor) (rs : List Request) : (c.ask rs).2.tokens = c.tokens := by
  induction rs generalizing c with
  | nil => rfl
  | cons r rs ih => exact (ih _).trans (c.tokens_answer r)

theorem getElem?_eq (c : Cursor) (k : Nat) : c.tokens[c.index + k]? = c.ahead[k]? :=
  List.getElem?_drop.symm

theorem ahead_moved (h : c.ahead = t :: ts) : c.moved.ahead = ts := by
  rw [ahead, moved, ← List.drop_drop, ← ahead, h]
  rfl

end Cursor

end Parser

/-! ## The end of the tokens -/

namespace Parse

variable {α : Type} {d : Parser.Document} {p : Parser} {ts unread : List Token}

/-- Asked for more tokens than there are, the window gets those that there are; without any token in
the window this is a failure. -/
theorem extend_end (d : Parser.Document) {n : Nat} (h : p.lexer.Gives unread none)
    (hn : unread.length < n) :
    ∃ q, (extend n d p = .ok () q ∨ extend n d p = .error ⟨.unexpectedEnd, d.length⟩ q) ∧
      q.window = p.window ++ unread ∧ q.HoldsUntil none (p.window ++ unread) := by
  induction n generalizing p unread with
  | zero => exact absurd hn (Nat.not_lt_zero _)
  | succ n ih =>
    cases unread with
    | nil =>
      have hnext : p.lexer.next = .ok none p.lexer := by
        cases h
        assumption
      have hl : lex d p = .ok none p := by simp only [lex, hnext]
      refine ⟨p, ?_, (List.append_nil _).symm, [], h, rfl⟩
      rw [extend, bind_ok hl]
      change (if p.window.isEmpty then failAtEnd else pure () : Parse Unit) d p = _ ∨
        (if p.window.isEmpty then failAtEnd else pure () : Parse Unit) d p = _
      split
      · exact .inr rfl
      · exact .inl rfl
    | cons t rest =>
      obtain ⟨lexer, hl, hg⟩ := lex_token h
      obtain ⟨q, hq, hw, hh⟩ :=
        ih (p := { p with lexer, window := p.window ++ [t] }) hg (by simpa using hn)
      rw [List.append_assoc] at hw hh
      refine ⟨q, ?_, hw, hh⟩
      rw [extend, bind_ok (hl d)]
      exact hq

/-- Looking behind the last token fails and changes nothing about the tokens ahead. -/
theorem peekAt_end (d : Parser.Document) {k : Nat} (h : p.HoldsUntil none ts) (hk : ts.length ≤ k) :
    ∃ q, peekAt (k + 1 : Nat) d p = .error ⟨.unexpectedEnd, d.length⟩ q ∧ q.HoldsUntil none ts := by
  obtain ⟨unread, hg, rfl⟩ := h
  have hless : unread.length < k + 1 - p.window.length := by
    rw [List.length_append] at hk
    omega
  obtain ⟨q, hok | herror, hw, hh⟩ := extend_end d hg hless
  · refine ⟨q, ?_, hh⟩
    rw [peekAt_of_extend hok, hw, List.getElem?_eq_none hk]
  · refine ⟨q, ?_, hh⟩
    have hn : ((k + 1 : Nat) - (p.window.length : Int)).toNat = k + 1 - p.window.length := by omega
    change (extend ((k + 1 : Nat) - (p.window.length : Int)).toNat >>= _ : Parse Token) d p = _
    rw [hn]
    exact bind_of_error herror

/-- Taking a token behind the last one fails. -/
theorem advance_end (d : Parser.Document) (h : p.HoldsUntil none []) :
    ∃ q, advance d p = .error ⟨.unexpectedEnd, d.length⟩ q ∧ q.HoldsUntil none [] := by
  obtain ⟨unread, hg, hw⟩ := h
  obtain ⟨hp, rfl⟩ := List.append_eq_nil_iff.1 hw
  obtain ⟨q, hq, hqw, hh⟩ := extend_end d hg Nat.zero_lt_one
  rw [hp] at hqw hh
  refine ⟨q, ?_, hh⟩
  rw [advance_eq_ite, if_pos (by simp [hp])]
  rcases hq with hok | herror
  · rw [bind_ok hok, takeFirst_of_nil hqw]
    rfl
  · exact bind_of_error herror

end Parse

/-! ## Parsers and cursors -/

namespace Parser

variable {d : Document} {p : Parser} {c : Cursor}

/-- The tokens ahead of the parser are those ahead of the cursor, whose text is as long as the
document. -/
structure Follows (d : Document) (p : Parser) (c : Cursor) : Prop where
  holds : p.HoldsUntil none c.ahead
  length : c.length = d.length

/-- A rule answers as the cursor does, and the parser goes on following it. -/
def Tracks (d : Document) (p : Parser) (x : Parse Answer)
    (result : Except SyntaxError Answer × Cursor) : Prop :=
  (x.runOn d p).1 = result.1 ∧ Follows d (x.runOn d p).2 result.2

variable {x : Parse Answer} {a : Answer} {e : SyntaxError} {q : Parser} {t : Token}

theorem tracks_of_ok (h : x d p = .ok a q) (hq : Follows d q c) : Tracks d p x (.ok a, c) := by
  simp only [Tracks, Parse.runOn, h]
  exact ⟨trivial, hq⟩

theorem tracks_of_error (h : x d p = .error e q) (hq : Follows d q c) :
    Tracks d p x (.error e, c) := by
  simp only [Tracks, Parse.runOn, h]
  exact ⟨trivial, hq⟩

namespace Follows

/-- The end of the text is the same for both. -/
theorem atEnd_eq (h : Follows d p c) : c.atEnd = ⟨.unexpectedEnd, d.length⟩ := by
  rw [Cursor.atEnd, h.length]

/-- Looking ahead. -/
theorem peekAt_some (h : Follows d p c) {k : Nat} (ht : c.tokens[c.index + k]? = some t) :
    ∃ q, Parse.peekAt (k + 1 : Nat) d p = .ok t q ∧ Follows d q c := by
  rw [c.getElem?_eq] at ht
  obtain ⟨q, hq, hh, -⟩ := Parse.peekAt_eq_until h.holds ht
  exact ⟨q, hq d, hh, h.length⟩

theorem peekAt_none (h : Follows d p c) {k : Nat} (ht : c.tokens[c.index + k]? = none) :
    ∃ q, Parse.peekAt (k + 1 : Nat) d p = .error c.atEnd q ∧ Follows d q c := by
  rw [c.getElem?_eq] at ht
  obtain ⟨q, hq, hh⟩ := Parse.peekAt_end d h.holds (List.getElem?_eq_none_iff.1 ht)
  exact ⟨q, by rw [hq, h.atEnd_eq], hh, h.length⟩

/-- Taking the next token. -/
theorem advance_some (h : Follows d p c) (ht : c.tokens[c.index]? = some t) :
    ∃ q, Parse.advance d p = .ok t q ∧ Follows d q c.moved := by
  obtain ⟨ts, hts⟩ : ∃ ts, c.ahead = t :: ts := by
    rw [← List.head?_eq_some_iff, List.head?_eq_getElem?, ← c.getElem?_eq]
    exact ht
  obtain ⟨q, hq, hh, -⟩ := Parse.advance_eq_until (hts ▸ h.holds)
  exact ⟨q, hq d, (Cursor.ahead_moved hts).symm ▸ hh, h.length⟩

theorem advance_none (h : Follows d p c) (ht : c.tokens[c.index]? = none) :
    ∃ q, Parse.advance d p = .error c.atEnd q ∧ Follows d q c := by
  have hnil : c.ahead = [] := List.drop_eq_nil_of_le (List.getElem?_eq_none_iff.1 ht)
  obtain ⟨q, hq, hh⟩ := Parse.advance_end d (hnil ▸ h.holds)
  exact ⟨q, by rw [hq, h.atEnd_eq], hnil.symm ▸ hh, h.length⟩

/-- A rule that looks at the next token first. -/
theorem tracks_peek_bind (h : Follows d p c) {k : Token → Parse Answer}
    {result : Token → Except SyntaxError Answer × Cursor}
    (hk : ∀ t q, c.tokens[c.index]? = some t → Follows d q c → Tracks d q (k t) (result t)) :
    Tracks d p (Parse.peek >>= k) (match c.tokens[c.index]? with
      | some t => result t
      | none => (.error c.atEnd, c)) := by
  cases ht : c.tokens[c.index]? with
  | none =>
    obtain ⟨q, hq, hf⟩ := h.peekAt_none (k := 0) ht
    exact tracks_of_error (bind_of_error hq) hf
  | some t =>
    obtain ⟨q, hq, hf⟩ := h.peekAt_some (k := 0) ht
    obtain ⟨hanswer, hrest⟩ := hk t q ht hf
    have hrun : (Parse.peek >>= k) d p = k t d q := Parse.bind_ok hq
    simp only [Tracks, Parse.runOn, hrun]
    exact ⟨hanswer, hrest⟩

/-- Taking the next token if it passes a test, and not moving otherwise. -/
theorem tracks_ite (h : Follows d p c) {taken : Prop} [Decidable taken] {f : Token → Answer}
    {other : Parse Answer} {answer : Except SyntaxError Answer}
    (ht : c.tokens[c.index]? = some t) (hother : Tracks d p other (answer, c)) :
    Tracks d p (if taken then (do return f (← Parse.advance)) else other)
      (if taken then (.ok (f t), c.moved) else (answer, c)) := by
  by_cases htaken : taken
  · rw [if_pos htaken, if_pos htaken]
    obtain ⟨q, hq, hf⟩ := h.advance_some ht
    exact tracks_of_ok (Parse.bind_ok hq) hf
  · rw [if_neg htaken, if_neg htaken]
    exact hother

/-- A parser follows a cursor through one request. -/
theorem step (h : Follows d p c) (r : Request) : Tracks d p r.rule (c.answer r) := by
  cases r with
  | peek n pos =>
    obtain ⟨k, rfl⟩ : ∃ k, n = k + 1 := ⟨n - 1, by omega⟩
    rw [Cursor.answer, show c.index + (k + 1) - 1 = c.index + k by omega]
    cases ht : c.tokens[c.index + k]? with
    | none =>
      obtain ⟨q, hq, hf⟩ := h.peekAt_none ht
      exact tracks_of_error (bind_of_error hq) hf
    | some t =>
      obtain ⟨q, hq, hf⟩ := h.peekAt_some ht
      exact tracks_of_ok (Parse.bind_ok hq) hf
  | advance =>
    rw [Cursor.answer]
    cases ht : c.tokens[c.index]? with
    | none =>
      obtain ⟨q, hq, hf⟩ := h.advance_none ht
      exact tracks_of_error (bind_of_error hq) hf
    | some t =>
      obtain ⟨q, hq, hf⟩ := h.advance_some ht
      exact tracks_of_ok (Parse.bind_ok hq) hf
  | expect kind =>
    have hrule : (Request.expect kind).rule = Parse.peek >>= fun t =>
        if t.kind = kind then (do return .token (← Parse.advance))
        else Parse.failAt t (.expectedKind kind t.value) := by
      simp only [Request.rule, Parse.expect, bind_assoc]
      exact bind_congr fun t => by split <;> rfl
    rw [hrule]
    exact h.tracks_peek_bind fun t q ht hf => hf.tracks_ite ht (tracks_of_error rfl hf)
  | expectWord word =>
    have hrule : (Request.expectWord word).rule = Parse.peek >>= fun t =>
        if t.isWord word then (do return .token (← Parse.advance))
        else Parse.failAt t (.expectedWord word t.value) := by
      simp only [Request.rule, Parse.expectWord, bind_assoc]
      exact bind_congr fun t => by split <;> rfl
    rw [hrule]
    exact h.tracks_peek_bind fun t q ht hf => hf.tracks_ite ht (tracks_of_error rfl hf)
  | skip kind =>
    have hrule : (Request.skip kind).rule = Parse.peek >>= fun t =>
        if t.kind = kind then (do return (fun _ => .skipped true) (← Parse.advance))
        else return .skipped false := by
      simp only [Request.rule, Parse.skip, bind_assoc]
      exact bind_congr fun t => by split <;> simp only [bind_assoc, pure_bind]
    rw [hrule]
    exact h.tracks_peek_bind fun t q ht hf => hf.tracks_ite ht (tracks_of_ok rfl hf)

/-- A parser follows a cursor through any number of requests, whether they fail or not. -/
theorem ask (h : Follows d p c) (rs : List Request) :
    (p.ask d rs).1 = (c.ask rs).1 ∧ Follows d (p.ask d rs).2 (c.ask rs).2 := by
  induction rs generalizing p c with
  | nil => exact ⟨rfl, h⟩
  | cons r rs ih =>
    obtain ⟨hanswer, hstep⟩ := h.step r
    obtain ⟨hanswers, hrest⟩ := ih hstep
    exact ⟨congrArg₂ List.cons hanswer hanswers, hrest⟩

end Follows

/-- A parser of a text answers requests as a cursor does that starts at the first of the tokens, and
what is ahead of it in the end are the tokens from the cursor on. -/
theorem ask_eq_cursor {source : Text} {ts : List Token} (h : (Lexer.ofText source).Delivers ts)
    (name : Option Text) (located : Bool) (rs : List Request) :
    ((ofText source).ask (.ofText source name located) rs).1 =
      ((Cursor.mk ts source.length 0).ask rs).1 ∧
    ((ofText source).ask (.ofText source name located) rs).2.HoldsUntil none
      (ts.drop ((Cursor.mk ts source.length 0).ask rs).2.index) := by
  have hfollows : Follows (.ofText source name located) (ofText source) ⟨ts, source.length, 0⟩ :=
    ⟨⟨ts, h, rfl⟩, rfl⟩
  obtain ⟨hanswers, hrest⟩ := hfollows.ask rs
  refine ⟨hanswers, ?_⟩
  have hahead := hrest.holds
  rwa [Cursor.ahead, Cursor.tokens_ask] at hahead

/-- The tokens of a text of two words. -/
theorem delivers_scalarTokens : (Lexer.ofText "scalar A").Delivers
    [.placed .start 0 0 [], .placed .name 0 6 "scalar",
     { Token.placed .name 7 8 "A" with ignored := " " }, .placed .finish 8 8 []] := by
  decide +kernel

/-- Looking too far ahead, wrong expectations, and requests at the end of a text. -/
theorem ask_eq_cursor_scalar :
    ((ofText "scalar A").ask (.ofText "scalar A" none true)
      [.peek 5 (by decide), .expect .name, .advance, .expectWord "type", .peek 2 (by decide),
       .skip .name, .skip .colon, .advance, .advance, .skip .name]).1 =
      [.error ⟨.unexpectedEnd, 8⟩, .error ⟨.expectedKind .name "<SOF>", 0⟩,
       .ok (.token (.placed .start 0 0 [])), .error ⟨.expectedWord "type" "scalar", 0⟩,
       .ok (.token { Token.placed .name 7 8 "A" with ignored := " " }), .ok (.skipped true),
       .ok (.skipped false), .ok (.token { Token.placed .name 7 8 "A" with ignored := " " }),
       .ok (.token (.placed .finish 8 8 [])), .error ⟨.unexpectedEnd, 8⟩] := by
  rw [(ask_eq_cursor delivers_scalarTokens none true _).1]
  rfl

end Parser

end GraphSchema
