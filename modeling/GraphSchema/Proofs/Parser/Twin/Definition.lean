import GraphSchema.Proofs.Parser.Definition
import GraphSchema.Proofs.Parser.Twin.Member

/-!
# Definitions and extensions in two documents

The rules for definitions and extensions do the same in two documents with tokens that match. Which
rule is taken is settled by the first two tokens. A rule that is chosen by the second token does not
fail at the first one any more.

## Main definitions

* `Parse.Leads`: a rule that opens with another one.
* `Parse.Chosen`: a rule that the second token chooses.

## Main statements

* `Parse.Leads.late`: a rule does not fail at a token with which it may open.
* `Parse.tracks_definition`: definitions and extensions.
-/

namespace GraphSchema

open Lexeme (symbol word)
open scoped Computability

namespace Grammar

instance : Completes (written Written.lexemes) :=
  .of_le (S := only (word (Keyword.type .scalar).spelling) * names) <| by
    rintro _ ⟨_, rfl, _, ⟨w, rfl⟩, rfl⟩
    exact ⟨(false, .type none w [] .scalar), rfl⟩

instance : Completes (written operations) := completes_of_nil (b := []) rfl

instance : Completes (written fun os : { os : List OperationType // os ≠ [] } =>
    operations os) :=
  inferInstanceAs (Completes (written fun os : { os : List OperationType // os ≠ [] } =>
    enclosed .curlyOpen .curlyClose OperationType.lexemes os))

instance : Completes (written fun l : Location => [word l.val]) :=
  inferInstanceAs (Completes (words (·.capital ∈ Parse.directiveLocationNames)))

instance : Completes (written fun x : Bool × { ls : List Location // ls ≠ [] } =>
    delimited .pipe x.1 (x.2.val.map fun l => word l.val)) :=
  completes_written (b := (false, ⟨[⟨"QUERY", by decide⟩], by simp⟩)) (l := word "QUERY") rfl

end Grammar

namespace Parse

open Grammar
open Twin (Other NotLiteral NotReference)

variable {α β : Type} {T : Twin} {C : List Token → Prop} {k m n : Nat} {t t' : Token}
  {first : Parse α} {V : α → α → Prop} {r : Parse Node} {S : Language Lexeme}

/-! ## Rules that open with another one -/

/-- The rule starts a node, reads `first`, and goes on with a rule that does the same in both
documents and takes at least `n` tokens. -/
def Leads (T : Twin) (first : Parse α) (V : α → α → Prop) (n : Nat) (r : Parse Node)
    (S : Language Lexeme) : Prop :=
  ∃ rest : Token → α → Parse Node, r = (peek >>= fun start => first >>= rest start) ∧
    ∀ {k start start' a a'}, T.same start start' → V a a' →
      Tracks T k n (rest start a) (rest start' a') S T.Alike

namespace Leads

theorem tracks [Completes S] {F : Language Lexeme} (h : Leads T first V n r S) (hn : 0 < m + n)
    (hfirst : Tracks T k m first first F V) : TracksWhere T C k (m + n) r r (F * S) T.Alike := by
  obtain ⟨rest, rfl, hrest⟩ := h
  exact tracks_peek_bind hn fun t t' hsame => (hfirst.bind fun _ _ ha => hrest hsame ha).restrict

/-- Where the first token is one with which `first` succeeds, the rule does not fail at it. -/
theorem late {F : Language Lexeme} (h : Leads T first V n r S)
    (hfirst : TracksWhere T (Next t) k 1 first first F V)
    (hok : ∀ p ts, p.HoldsUntil none (t :: ts) → ∃ a q, first T.first p = .ok a q)
    {p q : Parser} {us rest : List Token} {u : Token} {e : SyntaxError}
    (hp : Ready T k p (us ++ u :: rest)) (hnext : Next t (us ++ u :: rest))
    (hr : r T.first p = .error e q) (hend : e.position ≠ T.first.length)
    (hpos : e.position = u.start) : 1 ≤ us.length := by
  obtain ⟨tail, rfl, hrest⟩ := h
  obtain ⟨ts, hts⟩ := List.head?_eq_some_iff.1 hnext
  obtain ⟨p₁, hpeek, hp₁, -⟩ := hp.exists_peekAt (j := 0) (t := t) (by rw [hts]; rfl)
  obtain ⟨a, p₂, ha⟩ := hok p₁ ts (hts ▸ hp₁.holds)
  rw [bind_ok (show peek T.first p = .ok t p₁ from hpeek), bind_ok ha] at hr
  obtain ⟨vs, ts', hsplit, hlen, -, htracked⟩ := hfirst.ok hp₁ hnext ha
  obtain ⟨a', haa⟩ := htracked.partner
  obtain ⟨t', hsame⟩ := T.partner t (hp.suffix.subset (List.mem_of_mem_head? hnext))
  have hp₂ := (hsplit ▸ hp₁).next htracked.passes hlen
  obtain ⟨ws, v, rest', rfl, hv, -⟩ :=
    ((hrest hsame haa).error hp₂ trivial hr).2.resolve_left hend
  rw [← List.append_assoc] at hsplit
  obtain ⟨rfl, -, -⟩ := eq_of_start hp.pairwise hsplit (Int.ofNat.inj (hpos.symm.trans hv))
  rw [List.length_append]
  omega

end Leads

/-! ## Definitions -/

theorem leads_typeDefinition (i : TypeKind) :
    Leads T description (Option.Rel T.Alike) 2 (typeDefinition i)
      (only (word (Keyword.type i).spelling) *
        (names * (written (fun c : ContentsOf i => c.val.lexemes) * 1))) := by
  refine ⟨_, rfl, fun {k _ _ _ _} hsame ho => ?_⟩
  exact (tracks_expectWord _).bind fun _ _ _ => tracks_name.bind fun w w' hw =>
    (tracks_allMembers i).bind fun slots slots' hslots =>
      (tracks_node (.typeDefinition i) (p := Other) (by omega) ⟨rfl, rfl⟩ hsame
        (.cons (T.paired_optionalSlot _ ho) (.cons (paired_nameSlot_of_eq hw) hslots))).weaken
          fun _ _ h => h.alike

theorem leads_schemaDefinition :
    Leads T description (Option.Rel T.Alike) 2 schemaDefinition
      (only (word Keyword.schema.spelling) * (written applied *
        (written (fun os : { os : List OperationType // os ≠ [] } => operations os) * 1))) := by
  refine ⟨_, rfl, fun {k _ _ _ _} hsame ho => ?_⟩
  exact (tracks_expectWord _).bind fun _ _ _ => tracks_directives.bind fun ds ds' hds =>
    (tracks_many (o := .curlyOpen) (c := .curlyClose) tracks_operationType rfl rfl
      (by decide)).bind fun os os' hos =>
      (tracks_node .schemaDefinition (p := Other) (by omega) ⟨rfl, rfl⟩ hsame
        (.cons (T.paired_optionalSlot _ ho) (.cons (T.paired_children _ hds)
          (.cons (T.paired_children _ hos) .nil)))).weaken fun _ _ h => h.alike

theorem tracks_directiveLocation :
    TracksWhere T C k 1 directiveLocation directiveLocation
      (written fun l : Location => [word l.val]) T.Alike := by
  refine tracks_peek_bind Nat.one_pos fun t t' hsame => ?_
  rw [name_bind, name_bind]
  refine (tracks_expect_bind (n := 0) (S := 1) (V := T.Alike)
    (c := (·.capital ∈ directiveLocationNames)) ?_ ?_ ?_).conseq (fun _ h => h.2) (Nat.le_refl 1)
      ?_ fun _ _ h => h
  · intro hc u hu
    rw [if_pos hc, T.value_eq hu, if_pos hc]
    exact (tracks_node .directiveLocation (p := Other) (by omega) ⟨rfl, rfl⟩ hsame
      (.cons (T.paired_nameSlot t.value) .nil)).weaken fun _ _ h => h.alike
  · intro hc p
    rw [if_neg hc]
    exact ⟨_, p, rfl, .inl rfl, rfl⟩
  · intro hc u hu p
    rw [T.value_eq hu, if_neg hc]
    exact ⟨_, p, rfl⟩
  · rw [mul_one]
    exact le_rfl

theorem leads_directiveDefinition :
    Leads T description (Option.Rel T.Alike) 2 directiveDefinition
      (only (word Keyword.directive.spelling) * (only (symbol .sign) * (names *
        (written parameters * (only (word "on") *
          (written (fun x : Bool × { ls : List Location // ls ≠ [] } =>
            Grammar.delimited .pipe x.1 (x.2.val.map fun l => word l.val)) * 1)))))) := by
  refine ⟨_, rfl, fun {k _ _ _ _} hsame ho => ?_⟩
  exact ((tracks_expectWord _).bind fun _ _ _ =>
    (tracks_symbol .sign rfl fun _ => nofun).bind fun _ _ _ =>
      tracks_name.bind fun w w' hw => tracks_argumentDefinitions.bind fun as as' has =>
        (tracks_expectWord _).bind fun _ _ _ =>
          (tracks_delimited .pipe tracks_directiveLocation rfl fun _ => nofun).bind
            fun ls ls' hls =>
              (tracks_node .directiveDefinition (p := Other) (by omega) ⟨rfl, rfl⟩ hsame
                (.cons (T.paired_optionalSlot _ ho) (.cons (paired_nameSlot_of_eq hw)
                  (.cons (T.paired_children _ has) (.cons (T.paired_children _ hls)
                    .nil))))).weaken fun _ _ h => h.alike).mono (by decide)

/-! ## Extensions -/

theorem all_isEmpty_eq {slots slots' : List Slot} (h : List.Forall₂ T.Paired slots slots') :
    (slots'.all fun s => s.content.nodes.isEmpty) = slots.all fun s => s.content.nodes.isEmpty := by
  have hempty : ∀ {ns ns' : List Node}, List.Forall₂ T.Alike ns ns' → ns'.isEmpty = ns.isEmpty := by
    rintro _ _ (_ | _) <;> rfl
  induction h with
  | nil => rfl
  | cons h _ ih => rw [List.all_cons, List.all_cons, hempty h.nodes, ih]

theorem tracks_requireAny {slots slots' : List Slot} (h : List.Forall₂ T.Paired slots slots') :
    Tracks T k 0 (requireAny slots) (requireAny slots') 1 fun _ _ => True := by
  unfold requireAny
  rw [all_isEmpty_eq h]
  split
  · exact (tracks_peek_bind Nat.one_pos fun _ _ _ => tracks_unexpected.conseq (fun _ h => h.2)
      (Nat.le_refl 1) (fun _ h => h) fun _ _ h => h).mono (Nat.zero_le 1)
  · exact tracks_pure trivial

theorem leads_typeExtension (i : TypeKind) :
    Leads T (expectWord extendWord) (fun t t' => t.isWord extendWord ∧ T.same t t') 1
      (typeExtension i) (only (word (Keyword.type i).spelling) *
        (names * (written (fun c : ContentsOf i => c.val.lexemes) * (1 * 1)))) := by
  refine ⟨_, rfl, fun {k _ _ _ _} hsame _ => ?_⟩
  exact ((tracks_expectWord _).bind fun _ _ _ => tracks_name.bind fun w w' hw =>
    (tracks_allMembers i).bind fun slots slots' hslots => (tracks_requireAny hslots).bind
      fun _ _ _ => (tracks_node (.typeExtension i) (p := Other) (by omega) ⟨rfl, rfl⟩ hsame
        (.cons (paired_nameSlot_of_eq hw) hslots)).weaken fun _ _ h => h.alike).mono (by decide)

theorem leads_schemaExtension :
    Leads T (expectWord extendWord) (fun t t' => t.isWord extendWord ∧ T.same t t') 1
      schemaExtension (only (word Keyword.schema.spelling) *
        (written applied * (written operations * (1 * 1)))) := by
  refine ⟨_, rfl, fun {k _ _ _ _} hsame _ => ?_⟩
  exact (tracks_expectWord _).bind fun _ _ _ => tracks_directives.bind fun ds ds' hds =>
    (tracks_optionalMany (o := .curlyOpen) (c := .curlyClose) tracks_operationType rfl rfl
      (by decide)).bind fun os os' hos =>
      have hslots := List.Forall₂.cons (T.paired_children .directives hds)
        (.cons (T.paired_children .operationTypes hos) .nil)
      (tracks_requireAny hslots).bind fun _ _ _ =>
        (tracks_node .schemaExtension (p := Other) (by omega) ⟨rfl, rfl⟩ hsame
          hslots).weaken fun _ _ h => h.alike

/-! ## What extensions read -/

/-- What a rule takes is what its description says. -/
theorem TracksWhere.reads {γ : Type} {r r' : Parse β} {V : β → β → Prop} {U : β → γ → Prop}
    {W : γ → List Lexeme} {Q : Reading γ} (h : TracksWhere T C k m r r' S V)
    (hr : Reads T.first r U (fun ls c rest => ls = W c ++ rest) Q)
    (hS : ∀ ls ∈ S, Viable (written W) ls) : TracksWhere T C k m r r' (written W) V where
  ok := by
    intro p ts a q hp hC hrun
    obtain ⟨us, rest, rfl, hm, -, htracked⟩ := h.ok hp hC hrun
    have hahead : p.Ahead T.first ((us ++ rest).map Token.lexeme) :=
      ⟨_, Parser.holds_iff.2 ⟨none, hp.holds⟩, rfl, Nat.le_trans hp.suffix.length_le T.fits⟩
    obtain ⟨c, _, ⟨ts, hts, rfl, -⟩, -, hls⟩ := hr.sound hahead hrun
    obtain ⟨e, hts⟩ := Parser.holds_iff.1 hts
    obtain rfl := hts.unique htracked.passes.holds
    rw [List.map_append] at hls
    exact ⟨us, ts, rfl, hm, ⟨c, (List.append_cancel_right hls).symm⟩, htracked⟩
  error := by
    intro p ts e q hp hC hrun
    obtain ⟨he, hwhere⟩ := h.error hp hC hrun
    refine ⟨he, hwhere.imp_right ?_⟩
    rintro ⟨us, t, rest, hts, hpos, hblames⟩
    exact ⟨us, t, rest, hts, hpos, hblames.viable.trans hS, hblames.fails⟩

/-- A directive makes an extension of what would not be one. -/
theorem viable_sign {x : Written} {ls : List Lexeme}
    (h : x.lexemes = ls ++ [symbol .sign, word "null"]) : Viable (written Written.lexemes) ls := by
  refine ⟨[symbol .sign, word "null"], ?_, x, h⟩
  simp only [List.forall_mem_cons, List.not_mem_nil, false_imp_iff, implies_true, and_true]
  exact ⟨spellable_of_completes, spellable_of_completes⟩

theorem viable_typeExtension (i : TypeKind) :
    ∀ ls ∈ only (word extendWord) * (only (word (Keyword.type i).spelling) *
      (names * (written (fun c : ContentsOf i => c.val.lexemes) * (1 * 1)))),
      Viable (written Written.lexemes) ls := by
  rw [mul_one, mul_one]
  rintro _ ⟨_, rfl, _, ⟨_, rfl, _, ⟨_, ⟨w, rfl⟩, _, ⟨⟨⟨leading, ds, body⟩, rfl⟩, rfl⟩, rfl⟩,
    rfl⟩, rfl⟩
  by_cases hne : ds ≠ [] ∨ ¬body.IsEmpty
  · exact .of_mem ⟨(leading, .typeExtension w ds body hne), by
      simp [Written.lexemes, Definition.lexemes, typeLexemes, Contents.lexemes]⟩
  · obtain ⟨rfl, hbody⟩ : ds = [] ∧ body.IsEmpty := by simpa [not_or] using hne
    refine viable_sign (x := (leading, .typeExtension w [⟨"null", []⟩] body (.inl (by simp)))) ?_
    cases body <;> simp_all [Written.lexemes, Definition.lexemes, typeLexemes, Contents.lexemes,
      Body.IsEmpty, Body.front, Body.back, Body.kind, applied, Directive.lexemes, enclosed]

theorem viable_schemaExtension :
    ∀ ls ∈ only (word extendWord) * (only (word Keyword.schema.spelling) *
      (written applied * (written operations * (1 * 1)))),
      Viable (written Written.lexemes) ls := by
  rw [mul_one, mul_one]
  rintro _ ⟨_, rfl, _, ⟨_, rfl, _, ⟨_, ⟨ds, rfl⟩, _, ⟨os, rfl⟩, rfl⟩, rfl⟩, rfl⟩
  by_cases hne : ds ≠ [] ∨ os ≠ []
  · exact .of_mem ⟨(false, .schemaExtension ds os hne), by
      simp [Written.lexemes, Definition.lexemes]⟩
  · obtain ⟨rfl, rfl⟩ : ds = [] ∧ os = [] := by simpa [not_or] using hne
    exact viable_sign (x := (false, .schemaExtension [⟨"null", []⟩] [] (.inl (by simp)))) rfl

/-! ## The first two tokens -/

/-- A rule for a definition that does the same in both documents, and does not fail at the first
token any more. -/
structure Chosen (T : Twin) (C : List Token → Prop) (k : Nat) (r r' : Parse Node) : Prop where
  tracks : TracksWhere T C k 2 r r' (written Written.lexemes) T.Alike
  late : ∀ {p q us u rest e}, Ready T k p (us ++ u :: rest) → C (us ++ u :: rest) →
    r T.first p = .error e q → e.position ≠ T.first.length → e.position = u.start → 1 ≤ us.length

/-- A definition whose description is ahead. -/
theorem chosen_of_described [Completes S] (h : Leads T description (Option.Rel T.Alike) 2 r S)
    (hS : written described * S ≤ written Written.lexemes) (ht : t.kind.isString)
    (hC : ∀ ts, C ts → Next t ts) : Chosen T C k r r where
  tracks := (h.tracks (Nat.succ_pos 1) tracks_description).lang hS
  late hp hnext := h.late (tracks_description_ahead ht) (fun _ _ => exists_description ht) hp
    (hC _ hnext)

theorem exists_expectWord {d : Parser.Document} {p : Parser} {e : Option SyntaxError}
    {ts : List Token} {w : Text} (ht : t.isWord w) (hp : p.HoldsUntil e (t :: ts)) :
    ∃ u q, expectWord w d p = .ok u q := by
  obtain ⟨q, hq, hold, -⟩ := peekAt_eq_until (k := 0) hp rfl
  obtain ⟨q', hq', -, -⟩ := advance_eq_until hold
  refine ⟨t, q', (bind_ok (hq d)).trans ?_⟩
  rw [if_pos ht]
  exact hq' d

/-- An extension whose first word is ahead. -/
theorem chosen_of_extend [Completes S]
    (h : Leads T (expectWord extendWord) (fun t t' => t.isWord extendWord ∧ T.same t t') 1 r S)
    {i : Keyword} (hr : ReadsDefinition T.first i true r)
    (hS : ∀ ls ∈ only (word extendWord) * S, Viable (written Written.lexemes) ls)
    (ht : t.isWord extendWord) (hC : ∀ ts, C ts → Next t ts) : Chosen T C k r r where
  tracks := (h.tracks (m := 1) (Nat.succ_pos 1) (tracks_expectWord _)).reads hr hS
  late hp hnext := h.late (tracks_expectWord _) (fun _ _ => exists_expectWord ht) hp (hC _ hnext)

/-- A second token that has no place where it stands. -/
theorem chosen_unexpected {t₁ : Token} (h : Viable (written Written.lexemes) [t₁.lexeme])
    (hC : ∀ ts, C ts → Next t₁ ts ∧ ts[1]? = some t) :
    Chosen T C k (unexpected t) (unexpected t') where
  tracks := by
    refine ⟨fun _ _ hr => (by cases hr), fun {p ts e q} hp hts hr => ?_⟩
    obtain ⟨hnext, ht⟩ := hC ts hts
    obtain ⟨rest, rfl⟩ := List.head?_eq_some_iff.1 hnext
    obtain ⟨rest, rfl⟩ := List.head?_eq_some_iff.1 (List.head?_eq_getElem? ▸ ht)
    cases hr
    refine ⟨?_, .inr ⟨[t₁], t, rest, rfl, rfl, h, fun _ _ _ _ _ => exists_failAt _ _⟩⟩
    split <;> simp [SyntaxError.IsUnexpected, SyntaxError.Cause.category]
  late := by
    intro p q us u rest e hp hts hr hend hpos
    obtain ⟨hnext, ht⟩ := hC _ hts
    obtain ⟨tail, hu⟩ := List.head?_eq_some_iff.1 hnext
    rw [hu] at ht
    obtain ⟨tail, rfl⟩ := List.head?_eq_some_iff.1 (List.head?_eq_getElem? ▸ ht)
    have hsplit : us ++ u :: rest = [t₁] ++ t :: tail := hu
    cases hr
    obtain ⟨rfl, -, -⟩ := eq_of_start hp.pairwise hsplit (Int.ofNat.inj hpos.symm)
    exact Nat.le_refl 1

/-- A rule that the second token chooses. -/
theorem tracks_peek_second {f f' : Token → Parse Node} (h : ∀ u u', T.same u u' →
      Chosen T (fun ts => Next t ts ∧ ts[1]? = some u) k (f u) (f' u')) :
    TracksWhere T (Next t) k 2 (peekAt 2 >>= f) (peekAt 2 >>= f') (written Written.lexemes)
      T.Alike := by
  refine tracks_peekAt_bind (j := 1) Nat.one_lt_two (fun u u' hsame => (h u u' hsame).tracks) ?_
  intro u p us v rest e q hp hnext hu hr hend hpos
  obtain ⟨u', hsame⟩ := T.partner u (hp.suffix.subset (List.mem_of_getElem? hu))
  exact (h u u' hsame).late hp ⟨hnext, hu⟩ hr hend hpos

/-! ## Definitions and extensions -/

theorem described_typeDefinition_le (i : TypeKind) :
    written described * (only (word (Keyword.type i).spelling) *
      (names * (written (fun c : ContentsOf i => c.val.lexemes) * 1))) ≤
        written Written.lexemes := by
  rw [mul_one]
  rintro _ ⟨_, ⟨s, rfl⟩, _, ⟨_, rfl, _, ⟨_, ⟨w, rfl⟩, _, ⟨⟨c, rfl⟩, rfl⟩, rfl⟩, rfl⟩, rfl⟩
  exact ⟨(c.leading, .type s w c.directives c.body), by
    simp [Written.lexemes, Definition.lexemes, typeLexemes, Contents.lexemes]⟩

theorem described_schemaDefinition_le :
    written described * (only (word Keyword.schema.spelling) * (written applied *
      (written (fun os : { os : List OperationType // os ≠ [] } => operations os) * 1))) ≤
        written Written.lexemes := by
  rw [mul_one]
  rintro _ ⟨_, ⟨s, rfl⟩, _, ⟨_, rfl, _, ⟨_, ⟨ds, rfl⟩, _, ⟨os, rfl⟩, rfl⟩, rfl⟩, rfl⟩
  exact ⟨(false, .schema s ds os os.property), by simp [Written.lexemes, Definition.lexemes]⟩

theorem described_directiveDefinition_le :
    written described * (only (word Keyword.directive.spelling) * (only (symbol .sign) * (names *
      (written parameters * (only (word "on") *
        (written (fun x : Bool × { ls : List Location // ls ≠ [] } =>
          Grammar.delimited .pipe x.1 (x.2.val.map fun l => word l.val)) * 1)))))) ≤
            written Written.lexemes := by
  rw [mul_one]
  rintro _ ⟨_, ⟨s, rfl⟩, _, ⟨_, rfl, _, ⟨_, rfl, _, ⟨_, ⟨w, rfl⟩, _, ⟨_, ⟨as, rfl⟩, _, ⟨_, rfl, _,
    ⟨x, rfl⟩, rfl⟩, rfl⟩, rfl⟩, rfl⟩, rfl⟩, rfl⟩
  exact ⟨(x.1, .directive s w as x.2 x.2.property), by simp [Written.lexemes, Definition.lexemes]⟩

theorem ofToken?_eq (h : T.same t t') : Keyword.ofToken? t' = Keyword.ofToken? t := by
  simp only [Keyword.ofToken?, T.isWord_eq h]

/-- A string, or the word for extensions, may open a definition. -/
theorem viable_opening {l : Lexeme} (hl : l.kind.isString ∨ l = word extendWord) :
    Viable (written Written.lexemes) [l] := by
  have hscalar : (word (Keyword.type .scalar).spelling).Spellable := spellable_of_completes
  have hname : (word "null").Spellable := spellable_of_completes
  have hsign : (symbol .sign).Spellable := spellable_of_completes
  obtain ⟨kind, value⟩ := l
  rcases hl with hl | hl
  · refine ⟨[word (Keyword.type .scalar).spelling, word "null"], by simp [hscalar, hname],
      (false, .type (some ⟨value, kind == .blockString⟩) "null" [] .scalar), ?_⟩
    cases kind <;> first | rfl | cases hl
  · refine ⟨[word (Keyword.type .scalar).spelling, word "null", symbol .sign, word "null"],
      by simp [hscalar, hname, hsign],
      (false, .typeExtension "null" [⟨"null", []⟩] .scalar (.inl (by simp))), ?_⟩
    rw [hl]
    rfl

theorem tracks_typeSystemDefinition :
    TracksWhere T (Next t) k 2 typeSystemDefinition typeSystemDefinition (written Written.lexemes)
      T.Alike := by
  refine tracks_peek_next (Nat.succ_pos 1) fun t' hsame => ?_
  rw [T.kind_eq hsame]
  by_cases ht : t.kind.isString
  · rw [if_pos ht, if_pos ht]
    refine tracks_peek_second fun u u' hu => ?_
    dsimp only
    rw [ofToken?_eq hu]
    have hC : ∀ ts, (Next t ts ∧ ts[1]? = some u) → Next t ts := fun _ h => h.1
    cases Keyword.ofToken? u with
    | none =>
      refine chosen_unexpected (viable_opening (.inl ht)) fun _ h => h
    | some i =>
      cases i with
      | schema =>
        exact chosen_of_described leads_schemaDefinition described_schemaDefinition_le ht hC
      | type i =>
        exact chosen_of_described (leads_typeDefinition i) (described_typeDefinition_le i) ht hC
      | directive =>
        exact chosen_of_described leads_directiveDefinition described_directiveDefinition_le ht hC
  · rw [if_neg ht, if_neg ht, pure_bind, pure_bind]
    dsimp only
    rw [ofToken?_eq hsame]
    cases Keyword.ofToken? t with
    | none => exact tracks_unexpected
    | some i =>
      cases i with
      | schema =>
        exact (leads_schemaDefinition.tracks (Nat.succ_pos 1) tracks_description).lang
          described_schemaDefinition_le
      | type i =>
        exact ((leads_typeDefinition i).tracks (Nat.succ_pos 1) tracks_description).lang
          (described_typeDefinition_le i)
      | directive =>
        exact (leads_directiveDefinition.tracks (Nat.succ_pos 1) tracks_description).lang
          described_directiveDefinition_le

theorem tracks_typeSystemExtension (ht : t.isWord extendWord) :
    TracksWhere T (Next t) k 2 typeSystemExtension typeSystemExtension (written Written.lexemes)
      T.Alike := by
  refine tracks_peek_second fun u u' hu => ?_
  rw [ofToken?_eq hu]
  have hC : ∀ ts, (Next t ts ∧ ts[1]? = some u) → Next t ts := fun _ h => h.1
  have hbad : Chosen T (fun ts => Next t ts ∧ ts[1]? = some u) k (unexpected u) (unexpected u') :=
    chosen_unexpected (viable_opening (.inr (isWord_iff.1 ht))) fun _ h => h
  cases Keyword.ofToken? u with
  | none => exact hbad
  | some i =>
    cases i with
    | schema =>
      exact chosen_of_extend leads_schemaExtension reads_schemaExtension viable_schemaExtension
        ht hC
    | type i =>
      exact chosen_of_extend (leads_typeExtension i) (reads_typeExtension i)
        (viable_typeExtension i) ht hC
    | directive => exact hbad

/-- Definitions and extensions. -/
theorem tracks_definition :
    TracksWhere T C k 1 definition definition (written Written.lexemes) T.Alike := by
  refine tracks_peek_bind Nat.one_pos fun t t' hsame => ?_
  have hnext : ∀ {r r' : Parse Node}, TracksWhere T (Next t) k 2 r r' (written Written.lexemes)
      T.Alike → TracksWhere T (fun ts => C ts ∧ Next t ts) k 1 r r' (written Written.lexemes)
        T.Alike :=
    fun h => h.conseq (fun _ h => h.2) (Nat.le_succ 1) (fun _ h => h) fun _ _ h => h
  rw [ofToken?_eq hsame, T.kind_eq hsame, T.isWord_eq hsame]
  split_ifs with hopen hextend
  · exact hnext tracks_typeSystemDefinition
  · exact hnext (tracks_typeSystemExtension hextend)
  · exact hnext tracks_unexpected

end Parse

end GraphSchema
