import GraphSchema.Proofs.Parser.Contents
import GraphSchema.Proofs.Parser.Twin.Value

/-!
# Members of definitions in two documents

The rules for the parts of definitions do the same in two documents with tokens that match. Some of
them take a name and then fail at it, if it is not of the right sort.

## Main statements

* `Parse.tracks_expect_bind`: a name that is taken and has to be of some sort.
* `Parse.tracks_inputValue`, `Parse.tracks_field`, `Parse.tracks_enumValue`,
  `Parse.tracks_operationType`: members.
* `Parse.tracks_allMembers`: the directives and the members of a type.
-/

namespace GraphSchema

open Lexeme (symbol word)

namespace Grammar

open Parse (operationNames directiveLocationNames reservedValues)

instance : Completes (words (· ∈ operationNames)) := completes_words "query" (by decide)

instance : Completes (words (·.capital ∈ directiveLocationNames)) :=
  completes_words "QUERY" (by decide)

instance : Completes (words (· ∉ reservedValues)) := completes_words "query" (by decide)

instance : Completes (written described) := completes_of_nil (b := none) rfl

instance : Completes (written defaulted) := completes_of_nil (b := none) rfl

instance : Completes (written applied) := completes_of_nil (b := []) rfl

instance : Completes (written parameters) := completes_of_nil (b := []) rfl

instance : Completes (written InputValue.lexemes) :=
  .of_le (S := names * (only (symbol .colon) * written TypeReference.lexemes)) <| by
    rintro _ ⟨_, ⟨w, rfl⟩, _, ⟨_, rfl, _, ⟨t, rfl⟩, rfl⟩, rfl⟩
    exact ⟨⟨none, w, t, none, []⟩, by simp [InputValue.lexemes, described, defaulted, applied]⟩

instance : Completes (written Field.lexemes) :=
  .of_le (S := names * (only (symbol .colon) * written TypeReference.lexemes)) <| by
    rintro _ ⟨_, ⟨w, rfl⟩, _, ⟨_, rfl, _, ⟨t, rfl⟩, rfl⟩, rfl⟩
    exact ⟨⟨none, w, [], t, []⟩, by
      simp [Field.lexemes, described, parameters, enclosed, applied]⟩

instance : Completes (written EnumValue.lexemes) :=
  completes_written (b := ⟨none, ⟨"query", by decide⟩, []⟩) (l := word "query") rfl

instance : Completes (written OperationType.lexemes) :=
  .of_le (S := words (· ∈ operationNames) * (only (symbol .colon) * names)) <| by
    rintro _ ⟨_, ⟨o, rfl⟩, _, ⟨_, rfl, _, ⟨w, rfl⟩, rfl⟩, rfl⟩
    exact ⟨⟨o, w⟩, rfl⟩

end Grammar

namespace Parse

open Grammar
open Twin (Other NotLiteral NotReference)

variable {β : Type} {T : Twin} {C : List Token → Prop} {k m n : Nat} {t t' : Token}

/-! ## Names of some sort -/

/-- A rule that fails at the next token, which it may take before. -/
theorem tracks_refuse {r r' : Parse β} {S : Language Lexeme} [hS : Completes S] {V : β → β → Prop}
    (hr : ∀ p ts, p.HoldsUntil none (t :: ts) →
      ∃ e q, r T.first p = .error e q ∧ e.IsUnexpected ∧ e.position = t.start)
    (hr' : ∀ p ts e u, T.same t u → p.HoldsUntil e (u :: ts) → ∃ f q, r' T.second p = .error f q) :
    TracksWhere T (Next t) k m r r' S V where
  ok := by
    intro p ts a q hp hnext hrun
    obtain ⟨rest, rfl⟩ := List.head?_eq_some_iff.1 hnext
    obtain ⟨e, q', hfail, -⟩ := hr p rest hp.holds
    rw [hfail] at hrun
    cases hrun
  error := by
    intro p ts f q hp hnext hrun
    obtain ⟨rest, rfl⟩ := List.head?_eq_some_iff.1 hnext
    obtain ⟨e, q', hfail, he, hpos⟩ := hr p rest hp.holds
    rw [hfail] at hrun
    cases hrun
    refine ⟨he, .inr ⟨[], t, rest, rfl, hpos, hS.viable_nil, fun hcut p' ts' e' hp' => ?_⟩⟩
    obtain ⟨u, rest', rfl, hsame⟩ := hp'.agree.exists_cons (.inr ⟨hcut, Nat.succ_pos _⟩)
    exact hr' p' rest' e' u hsame hp'.holds

/-- A name that is taken and has to be of some sort; if it is not, the rule fails at it. -/
theorem tracks_expect_bind {c : Text → Prop} [DecidablePred c] {f g : Token → Parse β}
    {S : Language Lexeme} [Completes S] [Completes (words c)] {V : β → β → Prop}
    (hyes : c t.value → ∀ u, T.same t u → Tracks T (k + 1) n (f t) (g u) S V)
    (hno : ¬c t.value → ∀ p, ∃ e q, f t T.first p = .error e q ∧ e.IsUnexpected ∧
      e.position = t.start)
    (hno' : ¬c t.value → ∀ u, T.same t u → ∀ p, ∃ e q, g u T.second p = .error e q) :
    TracksWhere T (Next t) k (1 + n) (expect .name >>= f) (expect .name >>= g) (words c * S) V := by
  have hbind : ∀ h : Token → Parse β, (expect .name >>= h) = peek >>= fun t =>
      (if t.kind = .name then advance else failAt t (.expectedKind .name t.value)) >>= h :=
    fun _ => bind_assoc _ _ _
  rw [hbind, hbind]
  refine tracks_peek_next (by omega) fun t' hsame => ?_
  rw [T.kind_eq hsame]
  by_cases hk : t.kind = .name
  · rw [if_pos hk, if_pos hk]
    by_cases hc : c t.value
    · have hname : only t.lexeme * S ≤ words c * S := by
        refine mul_le_mul' ?_ le_rfl
        rintro _ rfl
        exact ⟨⟨t.value, hc⟩, by simp [Token.lexeme, word, hk, Token.Kind.spelling?]⟩
      refine ((tracks_advance fun _ h => ?_).bind fun u u' hu => ?_).lang hname
      · cases hk.symm.trans h
      · exact hu.1 ▸ hyes hc u' (hu.1 ▸ hu.2)
    · refine tracks_refuse (fun p ts hp => ?_) fun p ts e u hu hp => ?_
      · obtain ⟨q, hq, -, -⟩ := advance_eq_until hp
        rw [bind_ok (hq T.first)]
        exact hno hc q
      · obtain ⟨q, hq, -, -⟩ := advance_eq_until hp
        rw [bind_ok (hq T.second)]
        exact hno' hc u hu q
  · rw [if_neg hk, if_neg hk]
    refine tracks_refuse (fun p _ _ => ?_) fun p _ _ _ _ _ => ⟨_, p, rfl⟩
    exact ⟨⟨.expectedKind .name t.value, t.start⟩, p, rfl, .inl rfl, rfl⟩

theorem name_bind (f : Text → Parse β) :
    (name >>= f) = expect .name >>= fun t => f t.value := by
  rw [name, bind_assoc]
  rfl

theorem tracks_operationName :
    TracksWhere T (Next t) k 1 operationName operationName (words (· ∈ operationNames)) Eq := by
  have h := tracks_expect_bind (T := T) (t := t) (k := k) (n := 0) (S := 1) (V := Eq)
    (c := (· ∈ operationNames))
    (f := fun t => if t.value ∈ operationNames then pure t.value else unexpected t)
    (g := fun t => if t.value ∈ operationNames then pure t.value else unexpected t) ?_ ?_ ?_
  · rwa [mul_one] at h
  · intro hc u hu
    rw [if_pos hc, T.value_eq hu, if_pos hc]
    exact tracks_pure rfl
  · intro hc p
    rw [if_neg hc]
    exact ⟨_, p, rfl, by split <;> simp [SyntaxError.IsUnexpected, SyntaxError.Cause.category], rfl⟩
  · intro hc u hu p
    rw [T.value_eq hu, if_neg hc]
    exact ⟨_, p, rfl⟩

/-! ## Descriptions and defaults -/

theorem tracks_someString (ht : t.kind.isString) :
    TracksWhere T (Next t) k 1 (stringLiteral >>= fun n => pure (some n))
      (stringLiteral >>= fun n => pure (some n)) (written fun s : Quoted => [s.lexeme])
      (Option.Rel T.Alike) := by
  have h := (tracks_stringLiteral (T := T) (k := k) ht).made.bind fun n n' hn =>
    tracks_pure (show Option.Rel T.Alike (some n) (some n') from ?_)
  · rwa [mul_one] at h
  · obtain ⟨hn, us, rest, hnext, hlen, hmade⟩ := hn
    obtain ⟨u, us, rfl⟩ := List.exists_cons_of_ne_nil (List.ne_nil_of_length_pos hlen)
    exact .some (hn.literal ⟨u :: us, rest, .quoted (t := t) hnext ht hmade⟩)

theorem tracks_description :
    Tracks T k 0 description description (written described) (Option.Rel T.Alike) := by
  refine (tracks_peek_ite (c := fun t => t.kind.isString) (fun t t' h => by rw [T.kind_eq h])
    (fun _ t ht h => isString_ne_finish h ht) (fun t t' _ ht => (tracks_someString ht).conseq
      (fun _ h => h.2) (Nat.le_refl 1) (fun _ h => h) fun _ _ h => h)
    (tracks_pure .none)).lang (add_le ?_ ?_)
  · rintro _ ⟨s, rfl⟩
    exact ⟨some s, rfl⟩
  · rintro _ rfl
    exact ⟨none, rfl⟩

/-- A description that is there. -/
theorem tracks_description_ahead (ht : t.kind.isString) :
    TracksWhere T (Next t) k 1 description description (written fun s : Quoted => [s.lexeme])
      (Option.Rel T.Alike) := by
  refine tracks_peek_next Nat.one_pos fun t' hsame => ?_
  rw [if_pos ht, T.kind_eq hsame, if_pos ht]
  exact tracks_someString ht

theorem exists_description {d : Parser.Document} {p : Parser} {e : Option SyntaxError}
    {ts : List Token} (ht : t.kind.isString) (hp : p.HoldsUntil e (t :: ts)) :
    ∃ o q, description d p = .ok o q := by
  obtain ⟨q, hq, hold, -⟩ := peekAt_eq_until (k := 0) hp rfl
  obtain ⟨q', hq', -, -⟩ := advance_eq_until hold
  obtain ⟨n, hn⟩ : ∃ n, stringLiteral d q = .ok n q' :=
    ⟨.mk .stringValue (d.info t q'.lastStop)
      [.datum .value (.text t.value), .datum .block (.bool (t.kind = .blockString))],
      bind_ok (hq' d)⟩
  have hsome : (stringLiteral >>= fun n => pure (some n)) d q = .ok (some n) q' := bind_ok hn
  refine ⟨some n, q', (bind_ok (hq d)).trans ?_⟩
  rw [if_pos ht]
  exact hsome

theorem tracks_defaultValue :
    Tracks T k 0 defaultValue defaultValue (written defaulted) (Option.Rel T.Alike) := by
  refine (tracks_skip_bind .equals
    (f := fun b => if b then value >>= fun n => pure (some n) else pure none)
    (g := fun b => if b then value >>= fun n => pure (some n) else pure none) rfl (fun _ => nofun)
    ((tracks_value.bind fun n n' hn => tracks_pure (.some hn)).mono (Nat.zero_le 1))
    (tracks_pure .none)).lang (add_le ?_ ?_)
  · rw [mul_one]
    rintro _ ⟨_, rfl, _, ⟨v, rfl⟩, rfl⟩
    exact ⟨some v, rfl⟩
  · rintro _ rfl
    exact ⟨none, rfl⟩

/-! ## Members -/

theorem paired_nameSlot_of_eq {w w' : Text} (h : w = w') :
    T.Paired (nameSlot w) (nameSlot w') :=
  h ▸ T.paired_nameSlot w

theorem tracks_inputValue :
    TracksWhere T C k 1 inputValue inputValue (written InputValue.lexemes) T.Alike := by
  refine tracks_peek_bind Nat.one_pos fun t t' hsame =>
    (tracks_description.restrict.bind fun o o' ho => tracks_name.bind fun w w' hw =>
      (tracks_symbol .colon rfl fun _ => nofun).bind fun _ _ _ =>
      tracks_typeReference.bind fun n n' hn => tracks_defaultValue.bind fun v v' hv =>
      tracks_directives.bind fun ds ds' hds =>
        tracks_node .inputValueDefinition (p := Other) (by omega) ⟨rfl, rfl⟩ hsame
          (.cons (T.paired_optionalSlot _ ho) (.cons (paired_nameSlot_of_eq hw)
            (.cons (T.paired_child _ hn) (.cons (T.paired_optionalSlot _ hv)
              (.cons (T.paired_children _ hds) .nil)))))).conseq
      (fun _ h => h) (by decide) ?_ fun _ _ h => h.alike
  rw [mul_one]
  rintro _ ⟨_, ⟨s, rfl⟩, _, ⟨_, ⟨w, rfl⟩, _, ⟨_, rfl, _, ⟨_, ⟨u, rfl⟩, _, ⟨_, ⟨v, rfl⟩, _,
    ⟨ds, rfl⟩, rfl⟩, rfl⟩, rfl⟩, rfl⟩, rfl⟩
  exact ⟨⟨s, w, u, v, ds⟩, by simp [InputValue.lexemes]⟩

theorem tracks_argumentDefinitions :
    Tracks T k 0 argumentDefinitions argumentDefinitions (written parameters)
      (List.Forall₂ T.Alike) :=
  tracks_optionalMany tracks_inputValue rfl rfl (by decide)

theorem tracks_inputFields :
    Tracks T k 0 inputFields inputFields
      (written (enclosed .curlyOpen .curlyClose InputValue.lexemes)) (List.Forall₂ T.Alike) :=
  tracks_optionalMany tracks_inputValue rfl rfl (by decide)

theorem tracks_field :
    TracksWhere T C k 1 field field (written Field.lexemes) T.Alike := by
  refine tracks_peek_bind Nat.one_pos fun t t' hsame =>
    (tracks_description.restrict.bind fun o o' ho => tracks_name.bind fun w w' hw =>
      tracks_argumentDefinitions.bind fun as as' has =>
      (tracks_symbol .colon rfl fun _ => nofun).bind fun _ _ _ =>
      tracks_typeReference.bind fun n n' hn => tracks_directives.bind fun ds ds' hds =>
        tracks_node .fieldDefinition (p := Other) (by omega) ⟨rfl, rfl⟩ hsame
          (.cons (T.paired_optionalSlot _ ho) (.cons (paired_nameSlot_of_eq hw)
            (.cons (T.paired_children _ has) (.cons (T.paired_child _ hn)
              (.cons (T.paired_children _ hds) .nil)))))).conseq
      (fun _ h => h) (by decide) ?_ fun _ _ h => h.alike
  rw [mul_one]
  rintro _ ⟨_, ⟨s, rfl⟩, _, ⟨_, ⟨w, rfl⟩, _, ⟨_, ⟨as, rfl⟩, _, ⟨_, rfl, _, ⟨_, ⟨u, rfl⟩, _,
    ⟨ds, rfl⟩, rfl⟩, rfl⟩, rfl⟩, rfl⟩, rfl⟩
  exact ⟨⟨s, w, as, u, ds⟩, by simp [Field.lexemes]⟩

theorem tracks_fields :
    Tracks T k 0 fields fields (written (enclosed .curlyOpen .curlyClose Field.lexemes))
      (List.Forall₂ T.Alike) :=
  tracks_optionalMany tracks_field rfl rfl (by decide)

theorem tracks_enumValue :
    TracksWhere T C k 1 enumValue enumValue (written EnumValue.lexemes) T.Alike := by
  refine tracks_peek_bind Nat.one_pos fun t t' hsame =>
    (tracks_description.restrict.bind fun o o' ho => tracks_peek_bind Nat.one_pos
      fun u u' hu => ?_).conseq (fun _ h => h) (by decide)
        (show written described * (words (· ∉ reservedValues) * written applied) ≤ _ from ?_)
        fun _ _ h => h
  · rw [name_bind, name_bind]
    refine (tracks_expect_bind (n := 0) (S := written applied) (V := T.Alike)
      (c := (· ∉ reservedValues)) ?_ ?_ ?_).conseq (fun _ h => h.2) (Nat.le_refl 1) (fun _ h => h)
        fun _ _ h => h
    · intro hc v hv
      dsimp only
      rw [if_neg hc, T.value_eq hv, if_neg hc]
      have h := tracks_directives.bind fun ds ds' hds =>
        (tracks_node (k := k + 0 + 1 + 0) .enumValueDefinition (p := Other) (by omega)
          ⟨rfl, rfl⟩ hsame (.cons (T.paired_optionalSlot .description ho)
            (.cons (T.paired_nameSlot u.value) (.cons (T.paired_children .directives hds)
              .nil)))).weaken fun _ _ h => h.alike
      rwa [mul_one] at h
    · intro hc p
      dsimp only
      rw [if_pos (not_not.1 hc)]
      exact ⟨_, p, rfl, .inl rfl, rfl⟩
    · intro hc v hv p
      dsimp only
      rw [T.value_eq hv, if_pos (not_not.1 hc)]
      exact ⟨_, p, rfl⟩
  · rintro _ ⟨_, ⟨s, rfl⟩, _, ⟨_, ⟨w, rfl⟩, _, ⟨ds, rfl⟩, rfl⟩, rfl⟩
    exact ⟨⟨s, w, ds⟩, rfl⟩

theorem tracks_enumValues :
    Tracks T k 0 enumValues enumValues
      (written (enclosed .curlyOpen .curlyClose EnumValue.lexemes)) (List.Forall₂ T.Alike) :=
  tracks_optionalMany tracks_enumValue rfl rfl (by decide)

theorem tracks_operationType :
    TracksWhere T C k 1 operationType operationType (written OperationType.lexemes) T.Alike := by
  refine tracks_peek_bind Nat.one_pos fun t t' hsame =>
    ((tracks_operationName (t := t)).bind fun o o' ho =>
      (tracks_symbol .colon rfl fun _ => nofun).bind fun _ _ _ =>
      tracks_namedType.bind fun n n' hn =>
        tracks_node .operationTypeDefinition (p := Other) (by omega) ⟨rfl, rfl⟩ hsame
          (.cons (ho ▸ T.paired_datum _ _) (.cons (T.paired_child _ hn) .nil))).conseq
      (fun _ h => h.2) (by decide) ?_ fun _ _ h => h.alike
  rw [mul_one]
  rintro _ ⟨_, ⟨o, rfl⟩, _, ⟨_, rfl, _, ⟨w, rfl⟩, rfl⟩, rfl⟩
  exact ⟨⟨o, w⟩, rfl⟩

/-! ## Members of types -/

theorem isWord_ne_finish {w : Text} (h : t.isWord w) : t.kind ≠ .finish := by
  rw [← kind_lexeme, isWord_iff.1 h]
  nofun

theorem tracks_names (kind : Token.Kind) [Completes (only (symbol kind))] (hk : IsSymbol kind)
    (hne : T.cut → kind ≠ .finish) :
    Tracks T k 0 (delimited kind namedType) (delimited kind namedType)
      (written fun x : Bool × { ws : List Text // ws ≠ [] } =>
        Grammar.delimited kind x.1 (x.2.val.map word)) (List.Forall₂ T.Alike) :=
  have : Completes (written fun w : Text => [word w]) := inferInstanceAs (Completes names)
  tracks_delimited kind (w := word) tracks_namedType hk hne

instance {kind : Token.Kind} : Completes (written fun x : Bool × { ws : List Text // ws ≠ [] } =>
    Grammar.delimited kind x.1 (x.2.val.map word)) :=
  completes_written (b := (false, ⟨["null"], by simp⟩)) (l := word "null") rfl

theorem tracks_interfaces :
    Tracks T k 0 interfaces interfaces (written (introduced (word "implements") .ampersand))
      (List.Forall₂ T.Alike) := by
  refine (tracks_peek_ite (c := fun t => t.isWord "implements")
    (S := only (word "implements") * written fun x : Bool × { ws : List Text // ws ≠ [] } =>
      Grammar.delimited .ampersand x.1 (x.2.val.map word))
    (fun t t' h => by rw [T.isWord_eq h]) (fun _ t hk ht => isWord_ne_finish ht hk)
    (fun t t' _ ht => ?_) (tracks_pure .nil)).lang (add_le ?_ ?_)
  · have hlexeme : t.lexeme = word "implements" := isWord_iff.1 ht
    rw [← hlexeme]
    exact ((tracks_advance fun _ => isWord_ne_finish ht).bind fun _ _ _ =>
      tracks_names .ampersand rfl fun _ => nofun).conseq (fun _ h => h.2) (Nat.le_refl 1)
        (fun _ h => h) fun _ _ h => h
  · rintro _ ⟨_, rfl, _, ⟨x, rfl⟩, rfl⟩
    exact ⟨(x.1, x.2.val), introduced_eq x.2.property⟩
  · rintro _ rfl
    exact ⟨(false, []), rfl⟩

theorem tracks_unionMembers :
    Tracks T k 0 unionMembers unionMembers (written (introduced (symbol .equals) .pipe))
      (List.Forall₂ T.Alike) := by
  refine (tracks_skip_bind .equals (f := fun b => if b then delimited .pipe namedType else pure [])
    (g := fun b => if b then delimited .pipe namedType else pure []) rfl
    (fun _ => nofun) (tracks_names .pipe rfl fun _ => nofun) (tracks_pure .nil)).lang (add_le ?_ ?_)
  · rintro _ ⟨_, rfl, _, ⟨x, rfl⟩, rfl⟩
    exact ⟨(x.1, x.2.val), introduced_eq x.2.property⟩
  · rintro _ rfl
    exact ⟨(false, []), rfl⟩

/-- What is written for the members of a type in a role. -/
def memberLanguage (k : TypeKind) : Role → Language Lexeme
  | .interfaces => written (introduced (word "implements") .ampersand)
  | .directives => written applied
  | .fields =>
    if k = .inputObject then written (enclosed .curlyOpen .curlyClose InputValue.lexemes)
    else written (enclosed .curlyOpen .curlyClose Field.lexemes)
  | .types => written (introduced (symbol .equals) .pipe)
  | .values => written (enclosed .curlyOpen .curlyClose EnumValue.lexemes)
  | _ => 1

theorem tracks_members (i : TypeKind) (r : Role) :
    Tracks T k 0 (members i r) (members i r) (memberLanguage i r) (List.Forall₂ T.Alike) := by
  cases r with
  | interfaces => exact tracks_interfaces
  | directives => exact tracks_directives
  | fields =>
    by_cases hi : i = .inputObject
    · simpa only [members, memberLanguage, if_pos hi] using tracks_inputFields
    · simpa only [members, memberLanguage, if_neg hi] using tracks_fields
  | types => exact tracks_unionMembers
  | values => exact tracks_enumValues
  | _ => exact tracks_pure List.Forall₂.nil

instance (i : TypeKind) (r : Role) : Completes (memberLanguage i r) := by
  unfold memberLanguage
  split
  · exact completes_of_nil (b := (false, [])) rfl
  · infer_instance
  · split <;> infer_instance
  · exact completes_of_nil (b := (false, [])) rfl
  · infer_instance
  · infer_instance

/-- The directives and the members of a type of a kind. -/
abbrev ContentsOf (i : TypeKind) := { c : Contents // c.body.kind = i }

instance (i : TypeKind) : Completes (written fun c : ContentsOf i => c.val.lexemes) := by
  cases i with
  | scalar => exact completes_of_nil (b := ⟨⟨false, [], .scalar⟩, rfl⟩) rfl
  | object => exact completes_of_nil (b := ⟨⟨false, [], .object [] []⟩, rfl⟩) rfl
  | interface => exact completes_of_nil (b := ⟨⟨false, [], .interface []⟩, rfl⟩) rfl
  | union => exact completes_of_nil (b := ⟨⟨false, [], .union []⟩, rfl⟩) rfl
  | enum => exact completes_of_nil (b := ⟨⟨false, [], .enum []⟩, rfl⟩) rfl
  | inputObject => exact completes_of_nil (b := ⟨⟨false, [], .inputObject []⟩, rfl⟩) rfl

/-- What is written for the members of a type, role by role, is written for the type. -/
theorem prod_memberLanguage_le (i : TypeKind) :
    ((Kind.members i).map (memberLanguage i)).prod ≤
      written fun c : ContentsOf i => c.val.lexemes := by
  cases i <;> simp only [Kind.members, List.map_cons, List.map_nil, List.prod_cons, List.prod_nil,
    mul_one, memberLanguage, if_true]
  case scalar =>
    rintro _ ⟨ds, rfl⟩
    exact ⟨⟨⟨false, ds, .scalar⟩, rfl⟩, by simp [Contents.lexemes, Body.front, Body.back]⟩
  case object =>
    rintro _ ⟨_, ⟨x, rfl⟩, _, ⟨_, ⟨ds, rfl⟩, _, ⟨fs, rfl⟩, rfl⟩, rfl⟩
    exact ⟨⟨⟨x.1, ds, .object x.2 fs⟩, rfl⟩, rfl⟩
  case interface =>
    rintro _ ⟨_, ⟨ds, rfl⟩, _, ⟨fs, rfl⟩, rfl⟩
    exact ⟨⟨⟨false, ds, .interface fs⟩, rfl⟩, rfl⟩
  case union =>
    rintro _ ⟨_, ⟨ds, rfl⟩, _, ⟨x, rfl⟩, rfl⟩
    exact ⟨⟨⟨x.1, ds, .union x.2⟩, rfl⟩, rfl⟩
  case enum =>
    rintro _ ⟨_, ⟨ds, rfl⟩, _, ⟨vs, rfl⟩, rfl⟩
    exact ⟨⟨⟨false, ds, .enum vs⟩, rfl⟩, rfl⟩
  case inputObject =>
    rintro _ ⟨_, ⟨ds, rfl⟩, _, ⟨is, rfl⟩, rfl⟩
    exact ⟨⟨⟨false, ds, .inputObject is⟩, rfl⟩, rfl⟩

theorem tracks_allMembers (i : TypeKind) :
    Tracks T k 0 (allMembers i) (allMembers i) (written fun c : ContentsOf i => c.val.lexemes)
      (List.Forall₂ T.Paired) := by
  refine (tracks_mapM (fun r k => ?_) (Kind.members i)).lang (prod_memberLanguage_le i)
  have h := (tracks_members (T := T) (k := k) i r).bind fun ns ns' hns =>
    tracks_pure (T.paired_children r hns)
  rwa [mul_one] at h

end Parse

end GraphSchema
