import GraphSchema.Proofs.Parser.Sequence
import GraphSchema.Proofs.Parser.Twin

/-!
# Lists in two documents

Rules that read lists do the same in two documents with tokens that match, if the rules for their
items do. Of what is read of a list only the decisions whether to go on depend on the kind of list.

## Main definitions

* `Parse.Decides`: a rule that says in both documents alike whether a list ends.

## Main statements

* `Parse.tracks_itemsUntil`: loops.
* `Parse.tracks_many`, `Parse.tracks_any`, `Parse.tracks_delimited`, `Parse.tracks_optionalMany`:
  lists between symbols, and with a symbol between their items.
-/

namespace GraphSchema

open scoped Computability

namespace Grammar

variable {β : Type} {W : β → List Lexeme}

/-- Trees in sequence. -/
theorem kstar_written_le : (written W)∗ ≤ written fun bs : List β => bs.flatMap W := by
  intro ls hls
  obtain ⟨parts, rfl, hparts⟩ := Language.mem_kstar.1 hls
  clear hls
  induction parts with
  | nil => exact ⟨[], rfl⟩
  | cons part parts ih =>
    obtain ⟨⟨b, rfl⟩, hrest⟩ := List.forall_mem_cons.1 hparts
    obtain ⟨bs, hbs⟩ := ih hrest
    exact ⟨b :: bs, congrArg (W b ++ ·) hbs⟩

instance {o c : Token.Kind} [Completes (written W)] [Completes (only (Lexeme.symbol o))]
    [Completes (only (Lexeme.symbol c))] :
    Completes (written fun bs : { bs : List β // bs ≠ [] } => enclosed o c W bs) :=
  .of_le (S := only (.symbol o) * (written W * only (.symbol c))) <| by
    rintro _ ⟨_, rfl, _, ⟨_, ⟨b, rfl⟩, _, rfl, rfl⟩, rfl⟩
    exact ⟨⟨[b], by simp⟩, by simp [enclosed]⟩

end Grammar

namespace Parse

open Grammar (only written)
open Lexeme (symbol)

variable {α β : Type} {T : Twin} {C : List Token → Prop} {k : Nat} {stop : Parse Bool}
  {item item' : Parse α} {Y N S : Language Lexeme} {V : α → α → Prop} {W : β → List Lexeme}

/-- The rule says in both documents alike whether a list ends. It reads `Y` where the list ends, and
where the list goes on it reads `N`, or nothing and the next token belongs to the list. -/
def Decides (T : Twin) (stop : Parse Bool) (Y N : Language Lexeme) : Prop :=
  ∀ {α : Type} {k : Nat} {last last' more more' : Parse α} {S S' : Language Lexeme}
    {V : α → α → Prop} [Completes S] [Completes S'], Tracks T k 0 last last' S V →
      Tracks T k 1 more more' S' V →
        Tracks T k 0 (stop >>= fun b => if b then last else more)
          (stop >>= fun b => if b then last' else more') (Y * S + N * S') V

/-- A symbol closes the list. -/
theorem decides_skip (kind : Token.Kind) (hk : IsSymbol kind) (hne : T.cut → kind ≠ .finish) :
    Decides T (skip kind) (only (symbol kind)) 1 := by
  intro α k last last' more more' S S' V _ _ hlast hmore
  rw [one_mul]
  exact tracks_skip_bind kind hk hne (hlast.behind (Nat.le_succ k)) (hmore.mono (Nat.zero_le 1))

/-- A symbol stands between neighbours. -/
theorem decides_not_skip {kind : Token.Kind} (hk : IsSymbol kind) (hne : T.cut → kind ≠ .finish) :
    Decides T (return !(← skip kind)) 1 (only (symbol kind)) := by
  intro α k last last' more more' S S' V _ _ hlast hmore
  rw [one_mul, add_comm, bind_assoc, bind_assoc]
  exact tracks_skip_bind kind hk hne ((hmore.behind (Nat.le_succ k)).mono (Nat.zero_le 1)) hlast

/-- A token of a kind opens each item. -/
theorem decides_not_ahead {kind : Token.Kind} (hne : kind ≠ .finish) :
    Decides T (return !(← ahead kind)) 1 1 := by
  intro α k last last' more more' S S' V _ _ hlast hmore
  rw [one_mul, one_mul, add_comm, bind_assoc, bind_assoc]
  exact tracks_ahead_bind hne hmore hlast

/-! ## Loops -/

section Loops

variable [Completes Y] [Completes S]

theorem tracks_itemsUntil (hstop : Decides T stop Y N) (hitem : Tracks T 0 1 item item' S V)
    {fuel fuel' : Nat} (h : fuel ≤ fuel') :
    Tracks T k 0 (itemsUntil stop item fuel) (itemsUntil stop item' fuel') ((N * S)∗ * Y)
      (List.Forall₂ V) := by
  induction fuel generalizing k fuel' with
  | zero => exact tracks_failAtEnd
  | succ fuel ih =>
    obtain ⟨fuel', rfl⟩ := Nat.exists_eq_add_one.2 (Nat.lt_of_lt_of_le (Nat.succ_pos fuel) h)
    have hmore := (hitem.behind (Nat.zero_le k)).bind fun a a' ha =>
      (ih (k := k + 1) (Nat.le_of_succ_le_succ h)).bind fun as as' has =>
        tracks_pure (List.Forall₂.cons ha has)
    refine (hstop (tracks_pure List.Forall₂.nil) hmore).lang (add_le ?_ ?_)
    · rw [mul_one]
      exact le_mul_of_one_le_left' one_le_kstar
    · rw [mul_one, ← mul_assoc, ← mul_assoc]
      exact mul_le_mul' mul_kstar_le_kstar le_rfl

theorem tracks_allUntil (hstop : Decides T stop Y N) (hitem : Tracks T 0 1 item item' S V) :
    Tracks T k 0 (allUntil stop item) (allUntil stop item') ((N * S)∗ * Y) (List.Forall₂ V) :=
  tracks_read_bind (tracks_itemsUntil hstop hitem T.room)

theorem tracks_someUntil (hstop : Decides T stop Y N) (hitem : Tracks T 0 1 item item' S V) :
    Tracks T k 1 (someUntil stop item) (someUntil stop item') (S * ((N * S)∗ * Y))
      (List.Forall₂ V) := by
  have h := (hitem.behind (Nat.zero_le k)).bind fun a a' ha =>
    (tracks_allUntil (k := k + 1) hstop hitem).bind fun as as' has =>
      tracks_pure (List.Forall₂.cons ha has)
  rwa [mul_one] at h

end Loops

/-! ## Lists between symbols -/

section Symbols

variable [Completes (written W)] {o c : Token.Kind} [Completes (only (symbol o))]
  [Completes (only (symbol c))]

theorem tracks_many (hi : Tracks T 0 1 item item' (written W) V) (ho : IsSymbol o)
    (hc : IsSymbol c) (hne : o ≠ .finish ∧ c ≠ .finish) :
    TracksWhere T C k 1 (many o item c) (many o item' c)
      (written fun bs : { bs : List β // bs ≠ [] } => Grammar.enclosed o c W bs)
      (List.Forall₂ V) := by
  refine (((tracks_symbol o ho fun _ => hne.1).bind fun _ _ _ =>
    tracks_someUntil (decides_skip c hc fun _ => hne.2) hi).mono (Nat.le_succ 1)).lang ?_
  rw [one_mul]
  intro ls hls
  obtain ⟨_, rfl, _, ⟨_, ⟨b, rfl⟩, _, ⟨_, hstar, _, rfl, rfl⟩, rfl⟩, rfl⟩ := hls
  obtain ⟨bs, rfl⟩ := Grammar.kstar_written_le hstar
  exact ⟨⟨b :: bs, by simp⟩, by simp [Grammar.enclosed]⟩

theorem tracks_any (hi : Tracks T 0 1 item item' (written W) V) (ho : IsSymbol o)
    (hc : IsSymbol c) (hne : o ≠ .finish ∧ c ≠ .finish) :
    TracksWhere T C k 1 (any o item c) (any o item' c)
      (written fun bs : List β => symbol o :: (bs.flatMap W ++ [symbol c])) (List.Forall₂ V) := by
  refine ((tracks_symbol o ho fun _ => hne.1).bind fun _ _ _ =>
    tracks_allUntil (decides_skip c hc fun _ => hne.2) hi).lang ?_
  rw [one_mul]
  intro ls hls
  obtain ⟨_, rfl, _, ⟨_, hstar, _, rfl, rfl⟩, rfl⟩ := hls
  obtain ⟨bs, rfl⟩ := Grammar.kstar_written_le hstar
  exact ⟨bs, rfl⟩

theorem tracks_optionalMany (hi : Tracks T 0 1 item item' (written W) V) (ho : IsSymbol o)
    (hc : IsSymbol c) (hne : o ≠ .finish ∧ c ≠ .finish) :
    Tracks T k 0 (optionalMany o item c) (optionalMany o item' c)
      (written (Grammar.enclosed o c W)) (List.Forall₂ V) := by
  refine (tracks_ahead_bind (f := fun b => if b then many o item c else pure [])
    (g := fun b => if b then many o item' c else pure []) hne.1
    (tracks_many hi ho hc hne) (tracks_pure .nil)).lang (add_le ?_ ?_)
  · rintro _ ⟨bs, rfl⟩
    exact ⟨bs, rfl⟩
  · rintro _ rfl
    exact ⟨[], rfl⟩

end Symbols

/-! ## Lists with a symbol between their items -/

/-- Items as long as a symbol opens the next one. -/
theorem tracks_repeated {kind : Token.Kind} [Completes (written W)]
    (hi : Tracks T 0 1 item item' (written W) V) (hne : kind ≠ .finish) :
    Tracks T k 0 (allUntil (return !(← ahead kind)) item)
      (allUntil (return !(← ahead kind)) item') (written fun bs : List β => bs.flatMap W)
      (List.Forall₂ V) := by
  refine (tracks_allUntil (decides_not_ahead hne) hi).lang ?_
  rw [one_mul, mul_one]
  exact Grammar.kstar_written_le

theorem tracks_delimited (kind : Token.Kind) {w : β → Lexeme} [Completes (only (symbol kind))]
    [Completes (written fun b => [w b])]
    (hi : Tracks T 0 1 item item' (written fun b => [w b]) V) (hk : IsSymbol kind)
    (hne : T.cut → kind ≠ .finish) :
    Tracks T k 0 (delimited kind item) (delimited kind item')
      (written fun x : Bool × { bs : List β // bs ≠ [] } =>
        Grammar.delimited kind x.1 (x.2.val.map w)) (List.Forall₂ V) := by
  have hitems := fun k => tracks_someUntil (k := k) (decides_not_skip hk hne) hi
  have hstar : (only (symbol kind) * written fun b => [w b])∗ ≤
      written fun bs : List β => bs.flatMap fun b => [symbol kind, w b] := by
    refine le_trans (kstar_mono ?_) Grammar.kstar_written_le
    rintro _ ⟨_, rfl, _, ⟨b, rfl⟩, rfl⟩
    exact ⟨b, rfl⟩
  refine (tracks_skip_bind kind hk hne ((hitems (k + 1)).mono (Nat.zero_le 1))
    ((hitems k).mono (Nat.zero_le 1))).lang ?_
  rw [mul_one]
  rintro ls (⟨_, rfl, _, ⟨_, ⟨b, rfl⟩, _, hls, rfl⟩, rfl⟩ | ⟨_, ⟨b, rfl⟩, _, hls, rfl⟩)
  · obtain ⟨bs, rfl⟩ := hstar hls
    exact ⟨(true, ⟨b :: bs, by simp⟩), Writes.delimited_eq true b bs⟩
  · obtain ⟨bs, rfl⟩ := hstar hls
    exact ⟨(false, ⟨b :: bs, by simp⟩), Writes.delimited_eq false b bs⟩

/-! ## A rule for each entry of a list -/

theorem tracks_mapM {γ : Type} {f f' : γ → Parse α} {L : γ → Language Lexeme}
    (h : ∀ x k, Tracks T k 0 (f x) (f' x) (L x) V) [∀ x, Completes (L x)] (xs : List γ) :
    Tracks T k 0 (xs.mapM f) (xs.mapM f') (xs.map L).prod (List.Forall₂ V) := by
  induction xs generalizing k with
  | nil => exact tracks_pure .nil
  | cons x xs ih =>
    have hxs : Completes (xs.map L).prod := .prod xs
    rw [List.map_cons, List.prod_cons, List.mapM_cons, List.mapM_cons]
    have hcons := (h x k).bind fun a a' ha => ih.bind fun as as' has =>
      tracks_pure (List.Forall₂.cons ha has)
    rwa [mul_one] at hcons

end Parse

end GraphSchema
