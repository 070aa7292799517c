import GraphSchema.Proofs.Parser.Twin.Document

/-!
# Errors point at the first wrong token

Where a text is rejected, the error is at the first token with which no text that is accepted goes
on. What stands in front of this token is the beginning of a text that is accepted: what the grammar
asks for can be spelled behind it.

## Main definitions

* `Token.FirstWrong`: a token that cannot stand behind some tokens, which are a beginning.

## Main statements

* `Parse.exists_parse_of_viable`: viable tokens begin a text that is accepted.
* `Parser.Document.firstWrong_of_parse_eq_error`: the errors of documents.
-/

namespace GraphSchema

open Grammar (only written Written)
open Lexeme (symbol)

/-! ## Lexemes with spellings -/

/-- The lexeme of a piece. -/
def Piece.lexeme (p : Piece) : Lexeme := ⟨p.kind, p.kind.spelling?.getD p.value⟩

theorem Piece.map_lexeme_tokens (i : Nat) (ps : List Piece) (g : Text) :
    (Piece.tokens i ps g).map Token.lexeme = ps.map Piece.lexeme ++ [symbol .finish] := by
  have h := Piece.map_tokens (fun k v => Lexeme.mk k (k.spelling?.getD v)) i ps g
  refine h.trans (congrArg (· ++ [symbol .finish]) (List.map_congr_left fun p _ => ?_))
  rw [Piece.lexeme]
  cases p.kind.spelling? <;> rfl

/-- Lexemes with spellings make up a text, with something between any two of them. -/
theorem exists_laid_of_spellable {ls : List Lexeme} (h : ∀ l ∈ ls, l.Spellable) :
    ∃ ps, Laid ps [] ∧ Scan.Separates (Piece.joined ps []) ∧ ps.map Piece.lexeme = ls := by
  induction ls with
  | nil => exact ⟨[], .last .nil, nofun, rfl⟩
  | cons l ls ih =>
    obtain ⟨⟨s, kind, value, rfl, hs⟩, hls⟩ := List.forall_mem_cons.1 h
    obtain ⟨ps, hlaid, hseparates, rfl⟩ := ih hls
    have hblank : Blank False " " := ⟨[], .ignored (by decide) .nil, nofun⟩
    exact ⟨⟨" ", s, kind, value⟩ :: ps, .cons hblank (hs _ hseparates) hlaid,
      hblank.separates (by decide), rfl⟩

/-- The token for the end of a text has no spelling. -/
theorem Lexeme.Spellable.kind_ne_finish {l : Lexeme} (h : l.Spellable) : l.kind ≠ .finish := by
  obtain ⟨s, kind, value, rfl, hs⟩ := h
  obtain ⟨hne, hread⟩ := hs [] nofun
  obtain ⟨c, s, rfl⟩ := List.exists_cons_of_ne_nil hne
  exact Scan.inner_token _ _ _ _ (hread c rfl 0)

namespace Parse

open Lexer (opened)
open Parser.Document (ofText parse_of_flattens)

variable {source : Text} {us rest : List Token} {t : Token} {ls : List Lexeme}

/-- The members of the language are definitions, perhaps with the token for the end. -/
theorem mem_definitionsLanguage (h : ls ∈ definitionsLanguage) :
    ∃ xs : List Written, xs ≠ [] ∧ (ls = xs.flatMap Written.lexemes ∨ symbol .finish ∈ ls) := by
  obtain ⟨_, ⟨x, rfl⟩, _, ⟨_, hstar, end', hend, rfl⟩, rfl⟩ := h
  obtain ⟨xs, rfl⟩ := Grammar.kstar_written_le hstar
  refine ⟨x :: xs, List.cons_ne_nil _ _, ?_⟩
  rcases hend with rfl | rfl
  · exact .inr (by simp)
  · exact .inl (by simp)

/-- Tokens of a text that are viable in front of another one begin a text that is accepted. -/
theorem exists_parse_of_viable (h : (opened source).Gives (us ++ t :: rest) none)
    (hviable : Viable definitionsLanguage (us.map Token.lexeme)) :
    ∃ source' vs, (Lexer.ofText source').Delivers vs ∧ .placed .start 0 0 [] :: us <+: vs ∧
      ∀ name located, ∃ n, (ofText source' name located).parse = .ok n := by
  obtain ⟨ls, hls, hmem⟩ := hviable
  obtain ⟨xs, hne, hxs⟩ := mem_definitionsLanguage hmem
  have hxs : us.map Token.lexeme ++ ls = xs.flatMap Written.lexemes := by
    refine hxs.resolve_right fun hfinish => ?_
    rcases List.mem_append.1 hfinish with hus | hmem
    · obtain ⟨u, hu, hkind⟩ := List.mem_map.1 hus
      obtain ⟨before, after, rfl⟩ := List.append_of_mem hu
      rw [List.append_assoc] at h
      exact absurd (h.eq_nil_of_finish (congrArg Lexeme.kind hkind)).1 (by simp)
    · exact (hls _ hmem).kind_ne_finish rfl
  -- What completes the tokens is spelled behind them.
  obtain ⟨ps, g, hlaid, rfl, htokens⟩ := h.exists_laid
  obtain ⟨qs, qs', rfl, rfl, -⟩ := Piece.exists_of_tokens_eq htokens.symm (by simp)
  obtain ⟨ws, hws, hseparates, rfl⟩ := exists_laid_of_spellable hls
  have hgives := (hlaid.replace hws (.of_separates hseparates)).gives 0
  rw [Piece.tokens_append] at hgives
  refine ⟨_, _, .token rfl hgives, ⟨_, rfl⟩, fun name located => ?_⟩
  have hflattens : Grammar.Document.Flattens ⟨xs.map Prod.snd, by simpa using hne⟩
      (symbol .start :: (xs.flatMap Written.lexemes ++ [symbol .finish])) :=
    Grammar.Document.flattens_iff.2 ⟨xs, rfl, rfl⟩
  obtain ⟨n, hn, -⟩ := parse_of_flattens name located (.token rfl hgives) (by
    rwa [← hxs, List.append_assoc, ← Piece.map_lexeme_tokens, ← List.map_append] at hflattens)
  exact ⟨n, hn⟩

end Parse

/-! ## The first wrong token -/

/-- What the tokens say, apart from where they stand: their kinds and values. -/
def sayings (ts : List Token) : List (Token.Kind × Text) := ts.map fun t => (t.kind, t.value)

open Parser.Document (ofText)

/-- The tokens begin some text that is accepted, but with `t` behind them they say what no text that
is accepted begins with. -/
structure Token.FirstWrong (before : List Token) (t : Token) : Prop where
  viable : ∃ source us, (Lexer.ofText source).Delivers us ∧ before <+: us ∧
    ∀ name located, ∃ n, (ofText source name located).parse = .ok n
  wrong : ∀ source us name located n, (Lexer.ofText source).Delivers us →
    (ofText source name located).parse = .ok n → ¬sayings (before ++ [t]) <+: sayings us

/-- Tokens that say what some tokens begin with match the beginning of these. -/
theorem exists_forall₂_of_sayings {us vs : List Token} (h : sayings us <+: sayings vs) :
    ∃ ws rest, vs = ws ++ rest ∧
      List.Forall₂ (fun t u : Token => u.kind = t.kind ∧ u.value = t.value) us ws := by
  obtain ⟨more, hmore⟩ := h
  obtain ⟨ws, rest, rfl, hws, -⟩ := List.map_eq_append_iff.1 hmore.symm
  refine ⟨ws, rest, rfl, ?_⟩
  have hsame : List.Forall₂ Eq (sayings us) (sayings ws) := by
    rw [List.forall₂_eq_eq_eq]
    exact hws.symm
  refine (List.forall₂_map_left_iff.1 (List.forall₂_map_right_iff.1 hsame)).imp ?_
  exact fun t u h => ⟨(congrArg Prod.fst h).symm, (congrArg Prod.snd h).symm⟩

namespace Parse

open Lexer (opened)

variable {source source' : Text} {us vs rest : List Token} {e : SyntaxError} {q : Parser}
  {d d' : Parser.Document}

/-- Where the definitions of a text are in error at a token, the tokens before it are viable, and
the definitions of every text that begins with these tokens and this one are in error as well. -/
theorem exists_of_body_eq_error (hus : (opened source).Gives us none)
    (hfits : us.length ≤ d.budget) (hr : body d ⟨opened source, [], 0⟩ = .error e q)
    (hpos : e.position ≠ d.length) :
    e.IsUnexpected ∧ ∃ before t after, us = before ++ t :: after ∧ e.position = t.start ∧
      Viable definitionsLanguage (before.map Token.lexeme) ∧
      ∀ d' {source' vs rest}, d.budget ≤ d'.budget → (opened source').Gives (vs ++ rest) none →
        List.Forall₂ (fun t u => u.kind = t.kind ∧ u.value = t.value) (before ++ [t]) vs →
          ∃ f q', body d' ⟨opened source', [], 0⟩ = .error f q' := by
  -- The token is the same one whichever the second text is.
  have hblames : ∀ {d'} (hroom : d.budget ≤ d'.budget), e.IsUnexpected ∧ ∃ before t after,
      us = before ++ t :: after ∧ e.position = t.start ∧
        Blames (.saying d d' us hroom hfits hus.pairwise_start) 0 body definitionsLanguage
          ⟨opened source, [], 0⟩ before t after := by
    intro d' hroom
    let T := Twin.saying d d' us hroom hfits hus.pairwise_start
    obtain ⟨hunexpected, hwhere⟩ := (tracks_body (T := T) id ⟨rfl, rfl⟩).error
      (ready_opened hus rfl) trivial hr
    exact ⟨hunexpected, hwhere.resolve_left hpos⟩
  obtain ⟨hunexpected, before, t, after, rfl, hstart, hfirst⟩ := hblames (Nat.le_refl d.budget)
  refine ⟨hunexpected, before, t, after, rfl, hstart, hfirst.viable, ?_⟩
  intro d' source' vs rest hroom hgives hvs
  obtain ⟨-, before', t', after', hsplit, hstart', hother⟩ := hblames hroom
  obtain ⟨rfl, rfl, rfl⟩ := eq_of_start hus.pairwise_start hsplit
    (Int.ofNat.inj (hstart.symm.trans hstart'))
  have hagree : (Twin.saying d d' _ hroom hfits hus.pairwise_start).Agree (before ++ [t]).length
      ((before ++ [t]) ++ after) (vs ++ rest) := .of_forall₂ hvs
  rw [List.append_assoc, List.length_append] at hagree
  exact hother.fails id ⟨⟨_, hgives, rfl⟩, hagree, nofun⟩

end Parse

namespace Parser.Document

open Parse

variable {source : Text} {name : Option Text} {located : Bool} {ts : List Token} {e : SyntaxError}

/-- A text that is rejected, though it is made up of tokens, is rejected at the first token with
which no text that is accepted goes on. -/
theorem firstWrong_of_parse_eq_error (h : (Lexer.ofText source).Delivers ts)
    (he : (ofText source name located).parse = .error e) :
    e.IsUnexpected ∧ ∃ before t after, ts = before ++ t :: after ∧ e.position = t.start ∧
      Token.FirstWrong before t := by
  obtain ⟨us, rfl, hus⟩ := h.exists_opened
  -- With so much room the error is not at the end of what the document has room for.
  obtain ⟨n, hn, hpos⟩ : ∃ n : Nat, source.length ≤ n ∧ e.position ≠ n :=
    ⟨source.length + e.position.toNat + 1, by omega, by omega⟩
  have hrun := opens_body.run_eq (d := ofText source name located) (Nat.le_refl _) hn
  obtain ⟨q, hq⟩ := runOn_fst_eq_error.1 (hrun.trans he)
  have hfits : us.length ≤ n + 2 := by
    have := hus.length_le_opened
    omega
  obtain ⟨hunexpected, before, t, after, rfl, hstart, hviable, hfails⟩ :=
    exists_of_body_eq_error (d := { ofText source name located with length := n }) hus hfits hq hpos
  refine ⟨hunexpected, .placed .start 0 0 [] :: before, t, after, rfl, hstart,
    exists_parse_of_viable hus hviable, ?_⟩
  intro source' vs name' located' m hvs hm hprefix
  obtain ⟨vs, rfl, hgives⟩ := hvs.exists_opened
  obtain ⟨ws, rest, rfl, hws⟩ := exists_forall₂_of_sayings (List.cons_prefix_cons.1 hprefix).2
  have hrun' := opens_body.run_eq (d := ofText source' name' located') (Nat.le_refl _)
    (Nat.le_add_right _ n)
  obtain ⟨q', hq'⟩ := runOn_fst_eq_ok.1 (hrun'.trans hm)
  obtain ⟨f, q'', hfail⟩ := hfails
    { ofText source' name' located' with length := source'.length + n }
    (Nat.add_le_add_right (Nat.le_add_left _ _) 2) hgives hws
  exact absurd (hq'.symm.trans hfail) nofun

/-- Whether something has failed with an error. -/
instance {ε α : Type} [DecidableEq ε] (x : Except ε α) (e : ε) : Decidable (x = .error e) :=
  match x with
  | .error e' => decidable_of_iff (e' = e) (by rw [Except.error.injEq])
  | .ok _ => isFalse (by simp)

/-- The tokens of an extension that adds nothing. -/
def emptyExtensionTokens : List Token :=
  [.placed .start 0 0 [], .placed .name 0 6 "extend",
   { Token.placed .name 7 13 "scalar" with ignored := " " },
   { Token.placed .name 14 15 "A" with ignored := " " }, .placed .finish 15 15 []]

theorem delivers_emptyExtensionTokens :
    (Lexer.ofText "extend scalar A").Delivers emptyExtensionTokens := by
  decide +kernel

theorem parse_emptyExtension :
    (ofText "extend scalar A" none true).parse = .error ⟨.unexpectedEnd, 15⟩ := by
  decide +kernel

/-- Only at its end it shows that an extension adds nothing. -/
theorem firstWrong_of_parse_emptyExtension :
    (ofText "extend scalar A" none true).parse = .error ⟨.unexpectedEnd, 15⟩ ∧
      (⟨.unexpectedEnd, 15⟩ : SyntaxError).IsUnexpected ∧
      ∃ before t after, emptyExtensionTokens = before ++ t :: after ∧ (15 : Int) = t.start ∧
        Token.FirstWrong before t :=
  ⟨parse_emptyExtension,
    firstWrong_of_parse_eq_error delivers_emptyExtensionTokens parse_emptyExtension⟩

end Parser.Document

end GraphSchema
