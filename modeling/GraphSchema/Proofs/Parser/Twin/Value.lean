import GraphSchema.Proofs.Parser.Origin
import GraphSchema.Proofs.Parser.Repetition
import GraphSchema.Proofs.Parser.Settled
import GraphSchema.Proofs.Parser.Type

/-!
# Literals and references to types in two documents

The rules for literals, for directives and for references to types do the same in two documents with
tokens that match.

## Main statements

* `Parse.tracks_valueWithin`, `Parse.tracks_directives`: literals and directives.
* `Parse.tracks_typeWithin`: references to types.
-/

namespace GraphSchema

open Lexeme (symbol word)

namespace Grammar

/-- All names. -/
def names : Language Lexeme := written fun w : Text => [word w]

instance : Completes names := completes_written (b := "null") rfl

instance : Completes (written Value.lexemes) :=
  completes_written (b := .null) (l := word "null") (by rw [Value.lexemes])

instance : Completes (written TypeReference.lexemes) :=
  completes_written (b := .named "null" false) (l := word "null") rfl

instance : Completes (written entry) :=
  .of_le (S := names * (only (symbol .colon) * written Value.lexemes)) <| by
    rintro _ ⟨_, ⟨w, rfl⟩, _, ⟨_, rfl, _, ⟨v, rfl⟩, rfl⟩, rfl⟩
    exact ⟨(w, v), rfl⟩

instance : Completes (written Directive.lexemes) :=
  .of_le (S := only (symbol .sign) * names) <| by
    rintro _ ⟨_, rfl, _, ⟨w, rfl⟩, rfl⟩
    exact ⟨⟨w, []⟩, rfl⟩

end Grammar

namespace Parse

open Grammar
open Twin (Other NotLiteral NotReference)

variable {T : Twin} {C : List Token → Prop} {k depth depth' : Nat} {item item' : Parse Node}
  {t t' : Token}

/-! ## Names and strings -/

theorem tracks_name : TracksWhere T C k 1 name name names Eq := by
  have hname : ∀ u : Token, u.kind = .name → [u.lexeme] ∈ names := by
    intro u hu
    exact ⟨u.value, by simp [Token.lexeme, word, hu, Token.Kind.spelling?]⟩
  have h := (tracks_expect (C := C) (k := k) .name (fun _ => by decide) hname).bind fun u u' hu =>
    tracks_pure (T.value_eq hu.2).symm
  rwa [mul_one] at h

theorem Quoted.lexeme_of_isString (ht : t.kind.isString) :
    Quoted.lexeme ⟨t.value, t.kind = .blockString⟩ = t.lexeme := by
  cases hk : t.kind <;>
    simp_all [Token.lexeme, Quoted.lexeme, Token.Kind.isString, Token.Kind.spelling?]

/-- A string, where one is ahead. -/
theorem tracks_stringLiteral (ht : t.kind.isString) :
    TracksWhere T (Next t) k 1 stringLiteral stringLiteral
      (written fun s : Quoted => [s.lexeme]) (T.Built NotReference) := by
  refine ((tracks_advance fun _ => isString_ne_finish ht).bind fun u u' hu =>
    tracks_node .stringValue (p := NotReference) (Nat.succ_pos k) rfl hu.2 ?_).lang ?_
  · rw [T.value_eq hu.2, T.kind_eq hu.2]
    exact .cons (T.paired_datum _ _) (.cons (T.paired_datum _ _) .nil)
  · rw [mul_one]
    rintro _ rfl
    exact ⟨⟨t.value, t.kind = .blockString⟩, congrArg (fun l => [l]) (Quoted.lexeme_of_isString ht)⟩

/-! ## Literals -/

theorem tracks_listOf (hi : Tracks T 0 1 item item' (written Value.lexemes) T.Alike) :
    TracksWhere T C k 1 (listOf item) (listOf item') (written Value.lexemes)
      (T.Built NotReference) := by
  refine tracks_peek_bind Nat.one_pos fun t t' hsame =>
    ((tracks_any (o := .bracketOpen) (c := .bracketClose) hi rfl rfl (by decide)).bind
      fun ns ns' hns => tracks_node .listValue (p := NotReference) (Nat.succ_pos k) rfl hsame
        (.cons (T.paired_children _ hns) .nil)).lang ?_
  rw [mul_one]
  rintro _ ⟨vs, rfl⟩
  exact ⟨.list vs, Value.lexemes_list vs⟩

theorem tracks_entryOf (kind : Kind) (hkind : Other kind)
    (hi : Tracks T 0 1 item item' (written Value.lexemes) T.Alike) :
    TracksWhere T C k 1 (entryOf kind item) (entryOf kind item') (written entry) T.Alike := by
  refine tracks_peek_bind Nat.one_pos fun t t' hsame => (tracks_name.bind fun w w' hw =>
    (tracks_symbol .colon rfl fun _ => nofun).bind fun _ _ _ =>
      (hi.behind (Nat.zero_le _)).bind fun n n' hn =>
        tracks_node kind (p := Other) (Nat.succ_pos _) hkind hsame
          (.cons ?_ (.cons (T.paired_child _ hn) .nil))).conseq
      (fun _ h => h) (by decide) ?_ fun _ _ h => h.alike
  · exact hw ▸ T.paired_nameSlot w
  · rw [mul_one]
    rintro _ ⟨_, ⟨w, rfl⟩, _, ⟨_, rfl, _, ⟨v, rfl⟩, rfl⟩, rfl⟩
    exact ⟨(w, v), rfl⟩

theorem tracks_objectOf (hi : Tracks T 0 1 item item' (written Value.lexemes) T.Alike) :
    TracksWhere T C k 1 (objectOf item) (objectOf item') (written Value.lexemes)
      (T.Built NotReference) := by
  refine ((tracks_symbol .curlyOpen rfl fun _ => nofun).bind fun t t' ht =>
    (tracks_allUntil (decides_skip .curlyClose rfl fun _ => nofun)
      (tracks_entryOf .objectField ⟨rfl, rfl⟩ hi)).bind fun ns ns' hns =>
      tracks_node .objectValue (p := NotReference) (Nat.succ_pos k) rfl ht.2
        (.cons (T.paired_children _ hns) .nil)).lang ?_
  rw [mul_one, one_mul]
  rintro _ ⟨_, rfl, _, ⟨_, hes, _, rfl, rfl⟩, rfl⟩
  obtain ⟨es, rfl⟩ := kstar_written_le hes
  exact ⟨.object es, Value.lexemes_object es⟩

/-- A literal that is a single token. -/
theorem tracks_leaf {kind : Kind} {slots : List Slot} (hsame : T.same t t')
    (hfinish : t.kind ≠ .finish) (hkind : NotReference kind)
    (hslots : List.Forall₂ T.Paired slots slots) {v : Value} (hv : v.lexemes = [t.lexeme]) :
    TracksWhere T (Next t) k 1 (advance >>= fun _ => node t kind slots)
      (advance >>= fun _ => node t' kind slots) (written Value.lexemes) (T.Built NotReference) := by
  refine ((tracks_advance fun _ => hfinish).bind fun _ _ _ =>
    tracks_node kind (Nat.succ_pos k) hkind hsame hslots).lang ?_
  rw [mul_one]
  rintro _ rfl
  exact ⟨v, hv⟩

theorem paired_wordLiteral (w : Text) :
    NotReference (wordLiteral w).1 ∧
      List.Forall₂ T.Paired (wordLiteral w).2 (wordLiteral w).2 := by
  unfold wordLiteral
  split_ifs
  · exact ⟨rfl, .cons (T.paired_datum _ _) .nil⟩
  · exact ⟨rfl, .cons (T.paired_datum _ _) .nil⟩
  · exact ⟨rfl, .nil⟩
  · exact ⟨rfl, .cons (T.paired_datum _ _) .nil⟩

theorem tracks_valueOf (hi : Tracks T 0 1 item item' (written Value.lexemes) T.Alike) :
    TracksWhere T C k 1 (valueOf item) (valueOf item') (written Value.lexemes)
      (T.Built NotReference) := by
  refine tracks_peek_bind Nat.one_pos fun t t' hsame => ?_
  have hnext : ∀ {r r' : Parse Node}, TracksWhere T (Next t) k 1 r r' (written Value.lexemes)
      (T.Built NotReference) → TracksWhere T (fun ts => C ts ∧ Next t ts) k 1 r r'
        (written Value.lexemes) (T.Built NotReference) :=
    fun h => h.conseq (fun _ h => h.2) (Nat.le_refl 1) (fun _ h => h) fun _ _ h => h
  have hlexeme : t.kind.spelling? = none → t.lexeme = ⟨t.kind, t.value⟩ := by
    intro h
    rw [Token.lexeme, h]
    rfl
  have hquoted : t.kind.isString → TracksWhere T (Next t) k 1 stringLiteral stringLiteral
      (written Value.lexemes) (T.Built NotReference) := by
    refine fun h => (tracks_stringLiteral h).lang ?_
    rintro _ ⟨s, rfl⟩
    exact ⟨.string s, by rw [Value.lexemes]⟩
  rw [T.kind_eq hsame, T.value_eq hsame]
  cases hk : t.kind with
  | bracketOpen => exact tracks_listOf hi
  | curlyOpen => exact tracks_objectOf hi
  | integer =>
    refine hnext (tracks_leaf (v := .int t.value) hsame (by rw [hk]; decide) rfl
      (.cons (T.paired_datum _ _) .nil) ?_)
    rw [hlexeme (by rw [hk]; rfl), hk, Value.lexemes]
  | float =>
    refine hnext (tracks_leaf (v := .float t.value) hsame (by rw [hk]; decide) rfl
      (.cons (T.paired_datum _ _) .nil) ?_)
    rw [hlexeme (by rw [hk]; rfl), hk, Value.lexemes]
  | string => exact hnext (hquoted (by rw [hk]; rfl))
  | blockString => exact hnext (hquoted (by rw [hk]; rfl))
  | name =>
    obtain ⟨v, -, hv⟩ := Value.exists_word t.value
    obtain ⟨hkind, hslots⟩ := paired_wordLiteral (T := T) t.value
    refine hnext (tracks_leaf (v := v) hsame (by rw [hk]; decide) hkind hslots ?_)
    rw [hlexeme (by rw [hk]; rfl), hk, hv]
    rfl
  | _ => exact hnext tracks_unexpected

/-- Literals that are not nested too deep. -/
theorem tracks_valueWithin (h : depth ≤ depth') (hd : depth ≤ T.first.budget) :
    TracksWhere T C k 1 (valueWithin depth) (valueWithin depth') (written Value.lexemes)
      T.Alike := by
  induction depth generalizing depth' C k with
  | zero => exact tracks_failAtEnd.restrict
  | succ depth ih =>
    obtain ⟨depth', rfl⟩ := Nat.exists_eq_add_one.2 (Nat.lt_of_lt_of_le (Nat.succ_pos depth) h)
    refine (tracks_valueOf (ih (C := fun _ => True) (k := 0) (Nat.le_of_succ_le_succ h)
      (Nat.le_of_succ_le hd))).made.weaken fun n n' hn => ?_
    obtain ⟨hn, us, rest, -, -, hmade⟩ := hn
    exact hn.literal ⟨us, rest, .within (k := depth + 1) hd hmade⟩

theorem tracks_value : TracksWhere T C k 1 value value (written Value.lexemes) T.Alike :=
  tracks_read_bind (tracks_valueWithin T.room (Nat.le_refl _))

/-! ## Directives -/

theorem tracks_arguments :
    Tracks T k 0 arguments arguments (written (enclosed .parenOpen .parenClose entry))
      (List.Forall₂ T.Alike) :=
  tracks_optionalMany (tracks_entryOf .argument ⟨rfl, rfl⟩ tracks_value) rfl rfl (by decide)

theorem tracks_directive :
    TracksWhere T C k 1 directive directive (written Directive.lexemes) T.Alike := by
  refine ((tracks_symbol .sign rfl fun _ => nofun).bind fun t t' ht =>
    tracks_name.bind fun w w' hw => tracks_arguments.bind fun ns ns' hns =>
      tracks_node .directive (p := Other) (Nat.succ_pos _) ⟨rfl, rfl⟩ ht.2
        (.cons ?_ (.cons (T.paired_children _ hns) .nil))).conseq
          (fun _ h => h) (by decide) ?_ fun _ _ h => h.alike
  · exact hw ▸ T.paired_nameSlot w
  · rw [mul_one]
    rintro _ ⟨_, rfl, _, ⟨_, ⟨w, rfl⟩, _, ⟨es, rfl⟩, rfl⟩, rfl⟩
    exact ⟨⟨w, es⟩, rfl⟩

theorem tracks_directives :
    Tracks T k 0 directives directives (written applied) (List.Forall₂ T.Alike) :=
  tracks_repeated tracks_directive nofun

/-! ## References to types -/

/-- A reference without list and mark, told apart from where it stands. -/
theorem tracks_bareName :
    TracksWhere T C k 1 namedType namedType names (T.Built NotLiteral) := by
  refine tracks_peek_bind Nat.one_pos fun t t' hsame => (tracks_name.bind fun w w' hw =>
    tracks_node .namedType (p := NotLiteral) (Nat.succ_pos k) rfl hsame
      (.cons ?_ .nil)).lang ?_
  · exact hw ▸ T.paired_nameSlot w
  · rw [mul_one]

theorem tracks_namedType : TracksWhere T C k 1 namedType namedType names T.Alike := by
  refine tracks_bareName.made.weaken fun n n' hn => ?_
  obtain ⟨hn, us, rest, -, -, hmade⟩ := hn
  exact hn.reference ⟨us, rest, .named hmade⟩

/-- What stands in front of the mark. -/
theorem tracks_unmarked (hsame : T.same t t') (hd : depth ≤ T.first.budget)
    (hi : Tracks T 0 1 (typeWithin depth) (typeWithin depth') (written TypeReference.lexemes)
      T.Alike) :
    TracksWhere T (Next t) k 1 (unmarked (typeWithin depth) t) (unmarked (typeWithin depth') t')
      (written Unmarked.lexemes) fun n n' => T.Alike n n' ∧ NotLiteral n.kind := by
  have hlist : Tracks T (k + 1) 0
      (typeWithin depth >>= fun inner => expect .bracketClose >>= fun _ =>
        node t .listType [.child .type inner])
      (typeWithin depth' >>= fun inner => expect .bracketClose >>= fun _ =>
        node t' .listType [.child .type inner])
      (written TypeReference.lexemes * (only (symbol .bracketClose) * 1)) (T.Built NotLiteral) :=
    ((hi.behind (Nat.zero_le _)).bind fun n n' hn =>
      (tracks_symbol .bracketClose rfl fun _ => nofun).bind fun _ _ _ =>
        tracks_node .listType (p := NotLiteral) (Nat.succ_pos _) rfl hsame
          (.cons (T.paired_child _ hn) .nil)).mono (Nat.zero_le _)
  refine ((tracks_skip_take (f := fun b => if b then _ else _) (g := fun b => if b then _ else _)
    .bracketOpen rfl (fun _ => nofun) hlist tracks_bareName).lang ?_).made.weaken ?_
  · rw [mul_one]
    rintro _ (⟨_, rfl, _, ⟨_, ⟨u, rfl⟩, _, rfl, rfl⟩, rfl⟩ | ⟨w, rfl⟩)
    · exact ⟨.inr u, rfl⟩
    · exact ⟨.inl w, rfl⟩
  · rintro n n' ⟨hn, us, rest, hnext, hlen, hmade⟩
    refine ⟨hn.reference ⟨us, rest, .unmarked (t := t) hd ?_ hmade⟩, hn.kind⟩
    obtain ⟨u, us, rfl⟩ := List.exists_cons_of_ne_nil (List.ne_nil_of_length_pos hlen)
    exact hnext

/-- References to types that are not nested too deep. -/
theorem tracks_typeWithin (h : depth ≤ depth') (hd : depth ≤ T.first.budget) :
    TracksWhere T C k 1 (typeWithin depth) (typeWithin depth') (written TypeReference.lexemes)
      T.Alike := by
  induction depth generalizing depth' C k with
  | zero => exact tracks_failAtEnd.restrict
  | succ depth ih =>
    obtain ⟨depth', rfl⟩ := Nat.exists_eq_add_one.2 (Nat.lt_of_lt_of_le (Nat.succ_pos depth) h)
    have hi := ih (C := fun _ => True) (k := 0) (Nat.le_of_succ_le_succ h) (Nat.le_of_succ_le hd)
    have htype : TracksWhere T C k 1 (typeOf (typeWithin depth)) (typeOf (typeWithin depth'))
        (written TypeReference.lexemes) (T.Built NotLiteral) := by
      rw [typeOf_eq, typeOf_eq]
      refine tracks_peek_bind Nat.one_pos fun t t' hsame =>
        ((tracks_unmarked hsame (Nat.le_of_succ_le hd) hi).bind fun n n' hn =>
          tracks_skip_bind (f := fun b => if b then _ else _) (g := fun b => if b then _ else _)
            .exclamationMark rfl (fun _ => nofun)
            (tracks_node .nonNullType (p := NotLiteral) (Nat.succ_pos _) rfl hsame
              (.cons (T.paired_child _ hn.1) .nil))
            (tracks_pure (hn.1.built hn.2))).conseq (fun _ h => h.2) (Nat.le_refl 1) ?_
              fun _ _ h => h
      rw [mul_one]
      rintro _ ⟨_, ⟨x, rfl⟩, _, (rfl | rfl), rfl⟩
      · exact ⟨x.marked true, Unmarked.lexemes_marked true x⟩
      · exact ⟨x.marked false, Unmarked.lexemes_marked false x⟩
    refine htype.made.weaken fun n n' hn => ?_
    obtain ⟨hn, us, rest, -, -, hmade⟩ := hn
    exact hn.reference ⟨us, rest, .within (k := depth + 1) hd hmade⟩

theorem tracks_typeReference :
    TracksWhere T C k 1 typeReference typeReference (written TypeReference.lexemes) T.Alike :=
  tracks_read_bind (tracks_typeWithin T.room (Nat.le_refl _))

end Parse

end GraphSchema
