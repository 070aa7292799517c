import GraphSchema.Proofs.Parser.Cursor

/-!
# Tokens taken and tokens ahead

A rule moves tokens from those ahead to those taken. What it does is said by a condition on both of
them in front of it and another one behind it, and conditions for rules in sequence compose.

## Main definitions

* `Segments`: parts of a list that belong to the items of another one.
* `Parser.Between`: the tokens that a parser has taken, and those ahead of it.
* `Parse.Ensures`: what holds of the tokens behind a rule.

## Main statements

* `Segments.append`, `Segments.exists_infix`, `Segments.exists_split`, `Segments.pairwise`.
* `Parse.Ensures.bind`: rules in sequence.
* `Parse.Ensures.peek_bind`, `Parse.ensures_advance` and the like: single tokens.
* `Parse.ensures_itemsUntil`: loops.
-/

namespace GraphSchema

/-! ## Segments of lists -/

/-- Parts of a list, one behind the other, that belong to the items of another list. There may be
gaps between them. -/
inductive Segments {α β : Type} (R : List α → β → Prop) : List α → List β → Prop
  | nil (xs : List α) : Segments R xs []
  | cons (gap : List α) {xs ys : List α} {b : β} {bs : List β} (h : R xs b)
      (rest : Segments R ys bs) : Segments R (gap ++ (xs ++ ys)) (b :: bs)

namespace Segments

variable {α β : Type} {R : List α → β → Prop} {xs ys : List α} {b : β} {bs cs : List β}

theorem prepend (xs : List α) (h : Segments R ys bs) : Segments R (xs ++ ys) bs := by
  cases h with
  | nil => exact .nil _
  | cons gap h rest =>
    rw [← List.append_assoc]
    exact .cons _ h rest

theorem append (hx : Segments R xs bs) (hy : Segments R ys cs) :
    Segments R (xs ++ ys) (bs ++ cs) := by
  induction hx with
  | nil xs => exact hy.prepend xs
  | cons gap h _ ih =>
    rw [List.append_assoc, List.append_assoc]
    exact .cons gap h ih

theorem single (h : R xs b) : Segments R xs [b] := by
  simpa using cons [] h (nil [])

theorem concat (hx : Segments R xs bs) (h : R ys b) : Segments R (xs ++ ys) (bs ++ [b]) :=
  hx.append (single h)

/-- The part that belongs to an item. -/
theorem exists_infix (h : Segments R xs bs) (hb : b ∈ bs) : ∃ ys, ys <:+: xs ∧ R ys b := by
  induction h with
  | nil => cases hb
  | cons gap h _ ih =>
    cases hb with
    | head => exact ⟨_, ⟨gap, _, by rw [List.append_assoc]⟩, h⟩
    | tail _ hb =>
      obtain ⟨ys, hys, hr⟩ := ih hb
      exact ⟨ys, (hys.trans (List.suffix_append _ _).isInfix).trans
        (List.suffix_append _ _).isInfix, hr⟩

/-- The parts of the list in front of the one that belongs to an item, and those behind it. -/
theorem exists_split (h : Segments R xs (bs ++ b :: cs)) :
    ∃ ys zs ws, xs = ys ++ (zs ++ ws) ∧ Segments R ys bs ∧ R zs b ∧ Segments R ws cs := by
  induction bs generalizing xs with
  | nil =>
    cases h with
    | @cons gap zs ws _ _ h rest => exact ⟨gap, zs, ws, rfl, .nil gap, h, rest⟩
  | cons a bs ih =>
    cases h with
    | @cons gap vs _ _ _ h rest =>
      obtain ⟨ys, zs, ws, rfl, hys, hzs, hws⟩ := ih rest
      exact ⟨gap ++ (vs ++ ys), zs, ws, by simp, .cons gap h hys, hzs, hws⟩

/-- Some of the items, with the same parts of the list. -/
theorem filterMap {γ : Type} {S : List α → γ → Prop} {f : β → Option γ} (h : Segments R xs bs)
    (hf : ∀ ys b c, R ys b → f b = some c → S ys c) : Segments S xs (bs.filterMap f) := by
  induction h with
  | nil => exact .nil _
  | @cons gap ys _ b _ h _ ih =>
    cases hb : f b with
    | none =>
      rw [List.filterMap_cons_none hb]
      exact (ih.prepend ys).prepend gap
    | some c =>
      rw [List.filterMap_cons_some hb]
      exact .cons gap (hf _ _ _ h hb) ih

/-- What holds of any two entries, the one in front of the other, passes on to the items. -/
theorem pairwise {P : α → α → Prop} {S : β → β → Prop} (h : Segments R xs bs)
    (hxs : xs.Pairwise P)
    (hS : ∀ {ys zs a b}, R ys a → R zs b → (∀ y ∈ ys, ∀ z ∈ zs, P y z) → S a b) :
    bs.Pairwise S := by
  induction h with
  | nil => exact .nil
  | cons gap h rest ih =>
    obtain ⟨-, hxs, -⟩ := List.pairwise_append.1 hxs
    obtain ⟨-, hys, hcross⟩ := List.pairwise_append.1 hxs
    refine .cons (fun c hc => ?_) (ih hys)
    obtain ⟨zs, hzs, hr⟩ := rest.exists_infix hc
    exact hS h hr fun y hy z hz => hcross y hy z (hzs.subset hz)

end Segments

/-! ## Between the tokens taken and those ahead -/

/-- The offset at which the last one of some tokens ends, or the given one if there is none. -/
def stopAfter (k : Nat) (us : List Token) : Nat := (us.getLast?.map Token.stop).getD k

theorem stopAfter_append (k : Nat) (us vs : List Token) :
    stopAfter k (us ++ vs) = stopAfter (stopAfter k us) vs := by
  rw [stopAfter, stopAfter, List.getLast?_append]
  cases vs.getLast? <;> rfl

@[simp] theorem stopAfter_concat (k : Nat) (us : List Token) (t : Token) :
    stopAfter k (us ++ [t]) = t.stop := by
  rw [stopAfter_append]
  rfl

/-- The parser has taken `us` and holds `ts`; the token taken before `us` ends at `k`. -/
structure Parser.Between (p : Parser) (k : Nat) (us ts : List Token) : Prop where
  holds : p.Holds ts
  lastStop : p.lastStop = stopAfter k us

/-- The tokens taken so far are forgotten. -/
theorem Parser.Between.fresh {p : Parser} {k : Nat} {us ts : List Token} (h : p.Between k us ts) :
    p.Between (stopAfter k us) [] ts :=
  ⟨h.holds, h.lastStop⟩

/-- A condition on the tokens taken and those ahead. -/
abbrev TokenCondition := List Token → List Token → Prop

namespace Parse

variable {α β : Type} {d : Parser.Document} {P P' : TokenCondition} {Q Q' : α → TokenCondition}
  {R : β → TokenCondition} {r : Parse α}

/-- If `P` holds of the tokens in front of the rule and the rule succeeds, it has taken some more of
them, and `Q` holds behind it. -/
def Ensures (d : Parser.Document) (P : TokenCondition) (r : Parse α) (Q : α → TokenCondition) :
    Prop :=
  ∀ ⦃p q : Parser⦄ ⦃a : α⦄ ⦃k : Nat⦄ ⦃us ts : List Token⦄, P us ts → p.Between k us ts →
    r d p = .ok a q →
      ∃ vs rest, ts = vs ++ rest ∧ q.Between k (us ++ vs) rest ∧ Q a (us ++ vs) rest

namespace Ensures

theorem conseq (h : Ensures d P r Q) (hP : ∀ us ts, P' us ts → P us ts)
    (hQ : ∀ a us ts, Q a us ts → Q' a us ts) : Ensures d P' r Q' := by
  intro p q a k us ts hp hb hr
  obtain ⟨vs, rest, hts, hq, ha⟩ := h (hP _ _ hp) hb hr
  exact ⟨vs, rest, hts, hq, hQ _ _ _ ha⟩

/-- One rule after the other. -/
theorem bind {f : α → Parse β} (h : Ensures d P r Q) (hf : ∀ a, Ensures d (Q a) (f a) R) :
    Ensures d P (r >>= f) R := by
  intro p q b k us ts hp hb hr
  obtain ⟨a, m, hr, hk⟩ := bind_eq_ok.1 hr
  obtain ⟨vs, mid, rfl, hm, ha⟩ := h hp hb hr
  obtain ⟨ws, rest, rfl, hq, hb⟩ := hf a ha hm hk
  exact ⟨vs ++ ws, rest, by rw [List.append_assoc], by rwa [← List.append_assoc],
    by rwa [← List.append_assoc]⟩

/-- The tokens taken and those ahead remain the same all in all. -/
theorem whole (h : Ensures d P r Q) {C : List Token → Prop} :
    Ensures d (fun us ts => P us ts ∧ C (us ++ ts)) r fun a us ts => Q a us ts ∧ C (us ++ ts) := by
  intro p q a k us ts hp hb hr
  obtain ⟨vs, rest, rfl, hq, ha⟩ := h hp.1 hb hr
  exact ⟨vs, rest, rfl, hq, ha, by simpa using hp.2⟩

/-- A rule that is told apart from what was taken before it. -/
theorem after (h : Ensures d (fun us _ => us = []) r Q) :
    Ensures d P r fun a us ts => ∃ vs ws, us = vs ++ ws ∧ P vs (ws ++ ts) ∧ Q a ws ts := by
  intro p q a k us ts hp hb hr
  obtain ⟨vs, rest, rfl, hq, ha⟩ := h rfl hb.fresh hr
  exact ⟨vs, rest, rfl, ⟨hq.holds, hq.lastStop.trans (stopAfter_append _ _ _).symm⟩, us, vs, rfl,
    hp, ha⟩

end Ensures

theorem ensures_pure {a : α} (h : ∀ us ts, P us ts → Q a us ts) : Ensures d P (pure a) Q := by
  intro p q b k us ts hp hb hr
  cases hr
  exact ⟨[], ts, rfl, by rwa [List.append_nil], by rw [List.append_nil]; exact h _ _ hp⟩

/-- A rule that fails ensures anything. -/
theorem ensures_of_fail (h : ∀ p a q, r d p ≠ .ok a q) : Ensures d P r Q :=
  fun _ _ _ _ _ _ _ _ hr => absurd hr (h _ _ _)

theorem ensures_failAtEnd : Ensures d P failAtEnd Q := ensures_of_fail nofun

theorem ensures_failAt {t : Token} {cause : SyntaxError.Cause} : Ensures d P (failAt t cause) Q :=
  ensures_of_fail nofun

theorem ensures_unexpected {t : Token} : Ensures d P (unexpected t) Q := ensures_failAt

theorem Ensures.read_bind {f : Parser.Document → Parse α} (h : Ensures d P (f d) Q) :
    Ensures d P (read >>= f) Q := h

/-! ## Single tokens -/

theorem ensures_peekAt (n : Nat) :
    Ensures d P (peekAt (n + 1 : Nat)) fun t us ts => P us ts ∧ ts[n]? = some t := by
  intro p q t k us ts hp hb hr
  obtain ⟨u, hu⟩ : ∃ u, ts[n]? = some u :=
    ⟨_, List.getElem?_eq_getElem (lt_length_of_peekAt hb.holds hr)⟩
  obtain ⟨q', hq, hh, hlast⟩ := peekAt_eq (d := d) hb.holds hu
  rw [hq] at hr
  cases hr
  exact ⟨[], ts, rfl, ⟨hh, by rw [hlast, List.append_nil, hb.lastStop]⟩,
    by rwa [List.append_nil], hu⟩

/-- The next token is looked at. -/
theorem ensures_peek : Ensures d P peek fun t us ts => P us ts ∧ ts.head? = some t :=
  (ensures_peekAt 0).conseq (fun _ _ h => h) fun t us ts h => by rwa [List.head?_eq_getElem?]

theorem ensures_advance :
    Ensures d P advance fun t us ts => ∃ vs, us = vs ++ [t] ∧ P vs (t :: ts) := by
  intro p q t k us ts hp hb hr
  obtain ⟨u, ts, rfl⟩ := List.exists_cons_of_ne_nil (ne_nil_of_advance hb.holds hr)
  obtain ⟨q', hq, hh, hlast⟩ := advance_eq (d := d) hb.holds
  rw [hq] at hr
  cases hr
  exact ⟨[t], ts, rfl, ⟨hh, by rw [hlast, stopAfter_concat]⟩, us, rfl, hp⟩

/-- A token that has to be of some sort is taken. -/
theorem ensures_peek_advance {c : Token → Prop} [DecidablePred c] {fail : Token → Parse Token}
    (hfail : ∀ t p a q, fail t d p ≠ .ok a q) :
    Ensures d P (peek >>= fun t => if c t then advance else fail t)
      fun t us ts => c t ∧ ∃ vs, us = vs ++ [t] ∧ P vs (t :: ts) := by
  refine ensures_peek.bind fun u => ?_
  split
  · refine ensures_advance.conseq (fun us ts h => h) fun t us ts h => ?_
    obtain ⟨vs, rfl, hp, hhead⟩ := h
    cases hhead
    exact ⟨‹_›, vs, rfl, hp⟩
  · exact ensures_of_fail (hfail u)

theorem ensures_expect (kind : Token.Kind) :
    Ensures d P (expect kind)
      fun t us ts => t.kind = kind ∧ ∃ vs, us = vs ++ [t] ∧ P vs (t :: ts) :=
  ensures_peek_advance (c := fun t => t.kind = kind) fun _ _ _ _ h => by cases h

theorem ensures_expectWord (word : Text) :
    Ensures d P (expectWord word)
      fun t us ts => t.isWord word ∧ ∃ vs, us = vs ++ [t] ∧ P vs (t :: ts) :=
  ensures_peek_advance (c := fun t => t.isWord word) fun _ _ _ _ h => by cases h

/-- A token is taken if it is of the kind, and nothing happens otherwise. -/
theorem ensures_skip (kind : Token.Kind) :
    Ensures d P (skip kind) fun b us ts =>
      if b then ∃ vs t, t.kind = kind ∧ us = vs ++ [t] ∧ P vs (t :: ts) else P us ts := by
  refine ensures_peek.bind fun u => ?_
  split
  · refine ensures_advance.bind fun t => ensures_pure fun us ts h => ?_
    obtain ⟨vs, rfl, hp, hhead⟩ := h
    cases hhead
    exact ⟨vs, _, ‹_›, rfl, hp⟩
  · exact ensures_pure fun us ts h => h.1

/-! ## Loops -/

/-- A loop, with a condition on the items read so far that holds in front of each round, and one
that holds behind the last. -/
theorem ensures_itemsUntil {P Q : List α → TokenCondition} {stop : Parse Bool} {item : Parse α}
    (hs : ∀ as, Ensures d (P as) stop fun b us ts => if b then Q as us ts else P as us ts)
    (hi : ∀ as, Ensures d (P as) item fun a => P (as ++ [a])) (fuel : Nat) (as : List α) :
    Ensures d (P as) (itemsUntil stop item fuel) fun bs => Q (as ++ bs) := by
  induction fuel generalizing as with
  | zero => exact ensures_failAtEnd
  | succ fuel ih =>
    refine (hs as).bind fun b => ?_
    cases b with
    | true => exact ensures_pure fun us ts h => by simpa using h
    | false =>
      refine (hi as).bind fun a => (ih (as ++ [a])).bind fun bs => ensures_pure fun us ts h => ?_
      rwa [List.append_assoc] at h

/-- A loop with one round at least. -/
theorem ensures_someUntil {P Q : List α → TokenCondition} {stop : Parse Bool} {item : Parse α}
    (hs : ∀ as, Ensures d (P as) stop fun b us ts => if b then Q as us ts else P as us ts)
    (hi : ∀ as, Ensures d (P as) item fun a => P (as ++ [a])) (as : List α) :
    Ensures d (P as) (someUntil stop item) fun bs => Q (as ++ bs) := by
  refine (hi as).bind fun a => Ensures.bind (Ensures.read_bind ?_) fun bs =>
    ensures_pure (P := Q ((as ++ [a]) ++ bs)) fun us ts h => ?_
  · exact ensures_itemsUntil hs hi d.budget _
  · rwa [List.append_assoc] at h

end Parse

end GraphSchema
