import GraphSchema.Proofs.Parser.Reading

/-!
# Rules that read lists

A rule that writes its results has a function that gives the lexemes of each result. Such rules
stay so in lists: between two symbols, with a delimiter between neighbours, or as long as a symbol
opens the next item.

## Main definitions

* `Parse.Writes`: a rule whose results can be written down again.

## Main statements

* `Parse.Writes.allUntil_skip`, `Parse.Writes.enclosed`, `Parse.Writes.delimited`,
  `Parse.Writes.repeated`: lists.
-/

namespace GraphSchema

namespace Parse

open Lexeme (symbol)

variable {α β : Type} {d : Parser.Document}

/-- What the rule reads is what `W` writes for its result; the rule succeeds where this is ahead,
what follows satisfies `F`, and no more than `n` lexemes are left in all. -/
def Writes (d : Parser.Document) (n : Nat) (r : Parse α) (V : α → β → Prop) (W : β → List Lexeme)
    (F : List Lexeme → Prop) : Prop :=
  Reads d r V (fun ls b rest => ls = W b ++ rest)
    fun ls b rest => ls = W b ++ rest ∧ F rest ∧ ls.length ≤ n

/-- Nothing is asked of what follows. -/
def Free (_ : List Lexeme) : Prop := True

theorem length_le_flatMap {W : β → List Lexeme} (hW : ∀ b, W b ≠ []) (bs : List β) :
    bs.length ≤ (bs.flatMap W).length := by
  induction bs with
  | nil => simp
  | cons b bs ih =>
    have := List.length_pos_iff.2 (hW b)
    simp only [List.length_cons, List.flatMap_cons, List.length_append]
    omega

theorem Avoids.ne_nil {l : Lexeme} {ls : List Lexeme} (h : Avoids l ls) : ls ≠ [] := by
  intro hread
  subst hread
  simp [Avoids] at h

theorem reads_allUntil {stop : Parse Bool} {item : Parse α} {S : Reading Bool}
    {V : α → β → Prop} {P Q : Reading β} (hs : ReadsExactly d stop Eq S) (hi : Reads d item V P Q) :
    Reads d (allUntil stop item) (List.Forall₂ V)
      (fun ls bs rest => Repeats S P bs ls rest)
      (fun ls bs rest => bs.length < d.budget ∧ Repeats S Q bs ls rest) where
  sound hp hr := (reads_itemsUntil hs hi d.budget).sound hp hr
  complete hp h := (reads_itemsUntil hs hi d.budget).complete hp h

theorem reads_someUntil {stop : Parse Bool} {item : Parse α} {S : Reading Bool}
    {V : α → β → Prop} {P Q : Reading β} (hs : ReadsExactly d stop Eq S) (hi : Reads d item V P Q) :
    Reads d (someUntil stop item) (List.Forall₂ V)
      (fun ls bs rest => ∃ c cs mid, bs = c :: cs ∧ P ls c mid ∧ Repeats S P cs mid rest)
      (fun ls bs rest => ∃ c cs mid, bs = c :: cs ∧ Q ls c mid ∧ cs.length < d.budget ∧
        Repeats S Q cs mid rest) := by
  refine (hi.bind fun a c hv => (reads_allUntil hs hi).bind fun as cs hvs =>
    reads_pure (List.Forall₂.cons hv hvs)).conseq ?_ ?_
  · intro ls bs rest h
    obtain ⟨c, mid, hc, cs, mid₁, hcs, rfl, rfl⟩ := h
    exact ⟨c, cs, mid, rfl, hc, hcs⟩
  · intro ls bs rest _ h
    obtain ⟨c, cs, mid, rfl, hc, hl, hcs⟩ := h
    exact ⟨c, mid, hc, cs, rest, ⟨hl, hcs⟩, rfl, rfl⟩

namespace Writes

variable {item : Parse α} {V : α → β → Prop} {W : β → List Lexeme} {F : List Lexeme → Prop}
  {k : Token.Kind} {n : Nat}

/-! ## Lists that a symbol closes -/

/-- What items up to a closing symbol write. -/
theorem repeats_skip_sound {bs : List β} {ls rest : List Lexeme}
    (h : Repeats (fun ls b rest => if b then ls = symbol k :: rest
      else rest = ls ∧ Avoids (symbol k) ls) (fun ls b rest => ls = W b ++ rest) bs ls rest) :
    ls = bs.flatMap W ++ symbol k :: rest := by
  induction bs generalizing ls with
  | nil => exact h
  | cons b bs ih =>
    obtain ⟨mid, mid', ⟨rfl, -⟩, rfl, h⟩ := h
    rw [ih h]
    simp

theorem repeats_skip_complete (hW : ∀ b rest, Avoids (symbol k) (W b ++ rest))
    (hF : ∀ b rest, F (W b ++ rest)) (hk : ∀ rest, F (symbol k :: rest)) (bs : List β)
    (rest : List Lexeme) (hl : (bs.flatMap W ++ symbol k :: rest).length ≤ n) :
    Repeats (fun ls b rest => if b then ls = symbol k :: rest
      else rest = ls ∧ Avoids (symbol k) ls)
      (fun ls b rest => ls = W b ++ rest ∧ F rest ∧ ls.length ≤ n) bs
      (bs.flatMap W ++ symbol k :: rest) rest := by
  induction bs with
  | nil => rfl
  | cons b bs ih =>
    rw [List.flatMap_cons, List.append_assoc] at hl ⊢
    refine ⟨_, bs.flatMap W ++ symbol k :: rest, ⟨rfl, hW b _⟩, ⟨rfl, ?_, hl⟩, ih ?_⟩
    · cases bs with
      | nil => exact hk rest
      | cons c cs => simpa using hF c (cs.flatMap W ++ symbol k :: rest)
    · rw [List.length_append] at hl
      omega

/-- Items up to a closing symbol, possibly none. -/
theorem allUntil_skip (hi : Writes d n item V W F) (hs : IsSymbol k)
    (hW : ∀ b rest, Avoids (symbol k) (W b ++ rest)) (hF : ∀ b rest, F (W b ++ rest))
    (hk : ∀ rest, F (symbol k :: rest)) :
    Writes d n (allUntil (skip k) item) (List.Forall₂ V) (fun bs => bs.flatMap W ++ [symbol k])
      Free := by
  refine (reads_allUntil (reads_skip hs) hi).conseq ?_ ?_
  · intro ls bs rest h
    simpa using repeats_skip_sound h
  · intro ls bs rest hl hread
    obtain ⟨rfl, -, hn⟩ := hread
    have hne : ∀ b, W b ≠ [] := fun b => by simpa using (hW b []).ne_nil
    have := length_le_flatMap hne bs
    refine ⟨by simp only [List.length_append, List.length_cons] at hl; omega, ?_⟩
    rw [List.append_assoc] at hn ⊢
    exact repeats_skip_complete hW hF hk bs rest hn

/-- Items up to a closing symbol, at least one. -/
theorem someUntil_skip (hi : Writes d n item V W F) (hs : IsSymbol k)
    (hW : ∀ b rest, Avoids (symbol k) (W b ++ rest)) (hF : ∀ b rest, F (W b ++ rest))
    (hk : ∀ rest, F (symbol k :: rest)) :
    Reads d (someUntil (skip k) item) (List.Forall₂ V)
      (fun ls bs rest => bs ≠ [] ∧ ls = bs.flatMap W ++ symbol k :: rest)
      fun ls bs rest => bs ≠ [] ∧ ls = bs.flatMap W ++ symbol k :: rest ∧ ls.length ≤ n := by
  refine (reads_someUntil (reads_skip hs) hi).conseq ?_ ?_
  · intro ls bs rest hread
    obtain ⟨c, cs, mid, rfl, rfl, h⟩ := hread
    rw [repeats_skip_sound h]
    simp
  · intro ls bs rest hl hread
    obtain ⟨hne, rfl, hn⟩ := hread
    obtain ⟨c, cs, rfl⟩ := List.exists_cons_of_ne_nil hne
    have hne : ∀ b, W b ≠ [] := fun b => by simpa using (hW b []).ne_nil
    have := length_le_flatMap hne cs
    rw [List.flatMap_cons, List.append_assoc] at hl hn ⊢
    rw [List.length_append] at hl
    have hcs : (cs.flatMap W ++ symbol k :: rest).length ≤ n := by
      rw [List.length_append] at hn
      omega
    refine ⟨c, cs, _, rfl, ⟨rfl, ?_, hn⟩, ?_, repeats_skip_complete hW hF hk cs rest hcs⟩
    · cases cs with
      | nil => exact hk rest
      | cons e es => simpa using hF e (es.flatMap W ++ symbol k :: rest)
    · rw [List.length_append, List.length_cons] at hl
      omega

variable {o c : Token.Kind}

theorem enclosed_eq {bs : List β} (h : bs ≠ []) :
    Grammar.enclosed o c W bs = symbol o :: (bs.flatMap W ++ [symbol c]) := by
  simp [Grammar.enclosed, h]

theorem many (hi : Writes d n item V W F) (ho : IsSymbol o) (hc : IsSymbol c)
    (hW : ∀ b rest, Avoids (symbol c) (W b ++ rest)) (hF : ∀ b rest, F (W b ++ rest))
    (hk : ∀ rest, F (symbol c :: rest)) :
    Reads d (many o item c) (List.Forall₂ V)
      (fun ls bs rest => bs ≠ [] ∧ ls = Grammar.enclosed o c W bs ++ rest)
      fun ls bs rest => bs ≠ [] ∧ ls = Grammar.enclosed o c W bs ++ rest ∧ ls.length ≤ n := by
  refine ((reads_symbol ho).bind fun _ _ _ => hi.someUntil_skip hc hW hF hk).conseq ?_ ?_
  · intro ls bs rest h
    obtain ⟨-, mid, rfl, hne, rfl⟩ := h
    simp [Grammar.enclosed, hne]
  · intro ls bs rest _ h
    obtain ⟨hne, rfl, hn⟩ := h
    rw [enclosed_eq hne, List.cons_append, List.append_assoc] at hn ⊢
    exact ⟨(), _, rfl, hne, rfl, Nat.le_of_succ_le hn⟩

/-- Items between two symbols, or nothing. -/
theorem optionalMany (hi : Writes d n item V W F) (ho : IsSymbol o) (hc : IsSymbol c)
    (hW : ∀ b rest, Avoids (symbol c) (W b ++ rest)) (hF : ∀ b rest, F (W b ++ rest))
    (hk : ∀ rest, F (symbol c :: rest)) :
    Writes d n (optionalMany o item c) (List.Forall₂ V) (Grammar.enclosed o c W)
      (Avoids (symbol o)) := by
  refine ((reads_ahead ho).bind fun b b' h => .ite (Bool.coe_iff_coe.2 h)
    (fun _ => hi.many ho hc hW hF hk) fun _ => reads_pure .nil).conseq ?_ ?_
  · intro ls bs rest hread
    obtain ⟨b, mid, ⟨rfl, -⟩, ⟨-, -, rfl⟩ | ⟨-, rfl, rfl⟩⟩ := hread
    · rfl
    · rfl
  · intro ls bs rest _ hread
    obtain ⟨rfl, hr, hn⟩ := hread
    cases bs with
    | nil => exact ⟨false, rest, ⟨rfl, hr⟩, .inr ⟨by simp, rfl, rfl⟩⟩
    | cons b bs =>
      exact ⟨true, _, ⟨rfl, by simp [Grammar.enclosed]⟩, .inl ⟨rfl, by simp, rfl, hn⟩⟩

/-- Items between two symbols, possibly none. -/
theorem any (hi : Writes d n item V W F) (ho : IsSymbol o) (hc : IsSymbol c)
    (hW : ∀ b rest, Avoids (symbol c) (W b ++ rest)) (hF : ∀ b rest, F (W b ++ rest))
    (hk : ∀ rest, F (symbol c :: rest)) :
    Writes d (n + 1) (Parse.any o item c) (List.Forall₂ V)
      (fun bs => symbol o :: (bs.flatMap W ++ [symbol c])) Free := by
  refine ((reads_symbol ho).bind fun _ _ _ => hi.allUntil_skip hc hW hF hk).conseq ?_ ?_
  · intro ls bs rest hread
    obtain ⟨-, mid, rfl, rfl⟩ := hread
    rfl
  · intro ls bs rest _ hread
    obtain ⟨rfl, h, hn⟩ := hread
    exact ⟨(), bs.flatMap W ++ [symbol c] ++ rest, rfl, rfl, h, Nat.le_of_succ_le_succ hn⟩

/-! ## Lists that end by themselves -/

/-- Items as long as a symbol opens the next one. -/
theorem repeated (hi : Writes d n item V W F) (hs : IsSymbol k)
    (hW : ∀ b, ∃ ls, W b = symbol k :: ls) (hk : ∀ rest, F (symbol k :: rest)) :
    Writes d n (allUntil (return !(← ahead k)) item) (List.Forall₂ V) (List.flatMap W)
      fun rest => F rest ∧ Avoids (symbol k) rest := by
  have hstop : ReadsExactly d (return !(← ahead k) : Parse Bool) Eq fun ls b rest =>
      rest = ls ∧ if b then Avoids (symbol k) ls else ls.head? = some (symbol k) := by
    refine ((reads_ahead hs).bind fun b b' h => reads_pure (congrArg not h)).congr ?_
    intro ls b rest
    constructor
    · intro hread
      obtain ⟨b', mid, ⟨rfl, h⟩, rfl, rfl⟩ := hread
      cases b' <;> exact ⟨rfl, h⟩
    · intro hread
      obtain ⟨rfl, h⟩ := hread
      cases b
      · exact ⟨true, rest, ⟨rfl, h⟩, rfl, rfl⟩
      · exact ⟨false, rest, ⟨rfl, h⟩, rfl, rfl⟩
  refine (reads_allUntil hstop hi).conseq ?_ ?_
  · intro ls bs rest h
    induction bs generalizing ls with
    | nil => exact h.1.symm
    | cons b bs ih =>
      obtain ⟨mid, mid', ⟨rfl, -⟩, rfl, h⟩ := h
      rw [ih mid' h]
      simp
  · intro ls bs rest hl hread
    obtain ⟨rfl, ⟨hF, ha⟩, hn⟩ := hread
    -- No item is empty, so that there are no more of them than tokens.
    have hne : ∀ b, W b ≠ [] := by
      intro b
      obtain ⟨ls, h⟩ := hW b
      simp [h]
    have hb := length_le_flatMap hne bs
    have hr := List.length_pos_iff.2 ha.ne_nil
    refine ⟨by rw [List.length_append] at hl; omega, ?_⟩
    clear hl hb
    induction bs with
    | nil => exact ⟨rfl, ha⟩
    | cons b bs ih =>
      obtain ⟨ls, hb⟩ := hW b
      rw [List.flatMap_cons, List.append_assoc] at hn ⊢
      refine ⟨_, bs.flatMap W ++ rest, ⟨rfl, by simp [hb]⟩, ⟨rfl, ?_, hn⟩, ih ?_⟩
      · cases bs with
        | nil => exact hF
        | cons c cs =>
          obtain ⟨ls, hc⟩ := hW c
          simpa [hc] using hk (ls ++ (cs.flatMap W ++ rest))
      · rw [List.length_append] at hn
        omega

/-! ## Lists with delimiters -/

theorem intersperse_cons {γ : Type} (s c : γ) (cs : List γ) :
    (c :: cs).intersperse s = c :: cs.flatMap fun e => [s, e] := by
  induction cs generalizing c with
  | nil => rfl
  | cons e es ih => rw [List.intersperse_cons_cons, ih, List.flatMap_cons]; rfl

/-- What follows the first item writes a symbol and an item, again and again. -/
theorem repeats_delimiter {w : β → Lexeme} {bs : List β} {ls rest : List Lexeme} :
    Repeats (fun ls b rest => if b then rest = ls ∧ Avoids (symbol k) ls
      else ls = symbol k :: rest) (fun ls b rest => ls = w b :: rest) bs ls rest ↔
      ls = bs.flatMap (fun b => [symbol k, w b]) ++ rest ∧ Avoids (symbol k) rest := by
  induction bs generalizing ls with
  | nil =>
    constructor
    · intro hread
      obtain ⟨rfl, h⟩ := hread
      exact ⟨rfl, h⟩
    · intro hread
      obtain ⟨rfl, h⟩ := hread
      exact ⟨rfl, h⟩
  | cons b bs ih =>
    constructor
    · intro hread
      obtain ⟨mid, mid', rfl, rfl, h⟩ := hread
      obtain ⟨rfl, ha⟩ := ih.1 h
      exact ⟨rfl, ha⟩
    · intro hread
      obtain ⟨rfl, ha⟩ := hread
      exact ⟨_, _, rfl, rfl, ih.2 ⟨rfl, ha⟩⟩

theorem delimited_eq {w : β → Lexeme} (leading : Bool) (c : β) (cs : List β) :
    Grammar.delimited k leading ((c :: cs).map w) =
      (if leading then [symbol k] else []) ++
        w c :: cs.flatMap (fun e => [symbol k, w e]) := by
  simp [Grammar.delimited, intersperse_cons, List.flatMap_map]

/-- Items with a symbol between neighbours and perhaps in front. -/
theorem delimited {w : β → Lexeme} (hi : ReadsExactly d item V fun ls b rest => ls = w b :: rest)
    (hs : IsSymbol k) (hw : ∀ b, w b ≠ symbol k) :
    Reads d (delimited k item) (fun as (x : Bool × List β) => List.Forall₂ V as x.2)
      (fun ls x rest => x.2 ≠ [] ∧ ls = Grammar.delimited k x.1 (x.2.map w) ++ rest)
      fun ls x rest => x.2 ≠ [] ∧ ls = Grammar.delimited k x.1 (x.2.map w) ++ rest ∧
        Avoids (symbol k) rest := by
  have hstop : ReadsExactly d (return !(← skip k) : Parse Bool) Eq fun ls b rest =>
      if b then rest = ls ∧ Avoids (symbol k) ls else ls = symbol k :: rest := by
    refine ((reads_skip hs).bind fun b b' h => reads_pure (congrArg not h)).congr ?_
    intro ls b rest
    constructor
    · intro hread
      obtain ⟨b', mid, h, rfl, rfl⟩ := hread
      cases b' <;> exact h
    · intro h
      cases b
      · exact ⟨true, rest, h, rfl, rfl⟩
      · exact ⟨false, rest, h, rfl, rfl⟩
  refine ((reads_skip hs).bind fun b b' _ =>
    ((reads_someUntil hstop hi).map (Prod.mk b') fun _ _ h => h)).conseq ?_ ?_
  · intro ls x rest hwritten
    obtain ⟨leading, bs⟩ := x
    obtain ⟨b, mid, hb, bs, ⟨⟩, c, cs, mid', rfl, rfl, h⟩ := hwritten
    obtain ⟨rfl, -⟩ := repeats_delimiter.1 h
    refine ⟨by simp, ?_⟩
    rw [delimited_eq]
    cases leading
    · exact hb.1.symm
    · exact hb
  · intro ls x rest hl hwritten
    obtain ⟨leading, bs⟩ := x
    obtain ⟨hne, rfl, ha⟩ := hwritten
    obtain ⟨c, cs, rfl⟩ := List.exists_cons_of_ne_nil hne
    have hcs := length_le_flatMap (fun e => List.cons_ne_nil (symbol k) [w e]) cs
    rw [delimited_eq] at hl ⊢
    refine ⟨leading, w c :: cs.flatMap (fun e => [symbol k, w e]) ++ rest, ?_, c :: cs, rfl, c, cs,
      _, rfl, rfl, ?_, repeats_delimiter.2 ⟨rfl, ha⟩⟩
    · cases leading
      · exact ⟨rfl, by simpa using hw c⟩
      · rfl
    · simp only [List.length_append, List.length_cons] at hl
      omega

end Writes

end Parse

end GraphSchema
