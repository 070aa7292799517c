import GraphSchema.Proofs.Node.Call

/-!
# Changed copies

Calls on a builder change a copy of a node. Afterwards an attribute has the value that was given
last, with what was added since. Further data override the mapping that was given last, wherever the
calls stand.

## Main definitions

* `Node.Tracks`: a builder after some calls.
* `Node.Reflects`: a node that is changed as calls ask for.

## Main statements

* `Node.Tracks.step`, `Node.Tracks.attempts`, `Node.Tracks.runs`: what is known after one more call,
  and after more calls.
* `Node.Tracks.build`: what is built then.
* `Node.Formed.transform_calls`: a copy that is changed by calls.
-/

namespace GraphSchema

/-- What is there for each item is there for all of them. -/
theorem mapM_eq_some_filterMap {α β : Type} {f : α → Option β} {xs : List α}
    (h : ∀ x ∈ xs, (f x).isSome) : xs.mapM f = some (xs.filterMap f) := by
  induction xs with
  | nil => rfl
  | cons x xs ih =>
    obtain ⟨y, hy⟩ := Option.isSome_iff_exists.1 (h x List.mem_cons_self)
    rw [List.mapM_cons, hy, ih fun z hz => h z (List.mem_cons_of_mem _ hz),
      List.filterMap_cons_some hy]
    rfl

namespace Node

variable {n : Node} {b : Builder} {done calls : List Call} {c : Call} {a : Attribute}

/-! ## A builder after calls -/

/-- The builder knows what the calls ask for. -/
structure Tracks (n : Node) (calls : List Call) (b : Builder) : Prop where
  kind : b.kind = n.kind
  roles : b.slots.map Slot.role = n.kind.layout.map Prod.fst
  fits : ∀ r, (b.value (.slot r)).Fits n.kind
  value : ∀ a, (b.value a).sequenced n.kind = n.wanted calls a
  added : b.added = entriesOf calls

theorem Formed.tracks (h : n.Formed) : Tracks n [] n.toBuilder where
  kind := rfl
  roles := h.roles
  fits r hr := by
    obtain ⟨ds, hds⟩ := h.sequences r hr
    exact Option.isSome_iff_exists.2 ⟨ds, congrArg Data.sequence? hds⟩
  value a := (n.wanted_nil a).symm
  added := rfl

namespace Tracks

/-- Values are taken over. -/
theorem assign_all (h : Tracks n calls b) {values : List Assignment}
    (hknown : ∀ v ∈ values, v.unknown? b.kind = none) (hfits : ∀ v ∈ values, v.Fits n.kind)
    (hentry : c.put? = none)
    (hwanted : ∀ a, n.wanted (calls ++ [c]) a =
      Assignment.sequenced n.kind
        (((values.filter fun v => v.attribute? = some a).getLast?).getD (b.value a))) :
    Tracks n (calls ++ [c]) (values.foldl Builder.assign b) := by
  have hvalue := b.value_foldl_assign hfits
  obtain ⟨hkind, hadded, hroles⟩ := Builder.foldl_assign_frame (h.kind ▸ h.roles) hknown
  refine ⟨hkind.trans h.kind, hroles.trans h.roles, fun r => ?_, fun a => ?_, ?_⟩
  · rw [hvalue]
    cases hlast : (values.filter fun v => v.attribute? = some (.slot r)).getLast? with
    | none => exact h.fits r
    | some v => exact hfits v (List.mem_filter.1 (List.mem_of_getLast? hlast)).1
  · rw [hvalue, hwanted]
  · rw [hadded, h.added, entriesOf, entriesOf, List.filterMap_append]
    simp [hentry]

/-- Values are set. -/
theorem set (h : Tracks n calls b) {values : List Assignment}
    (hknown : (Call.set values).isKnown n.kind) (hfits : (Call.set values).Fits n.kind) :
    ∃ b', (Call.set values).result b = .ok b' ∧ Tracks n (calls ++ [.set values]) b' := by
  have hnone : ∀ v ∈ values, v.unknown? b.kind = none := by
    intro v hv
    rw [h.kind]
    exact Assignment.unknown?_eq_none_iff.2 (List.all_eq_true.1 hknown v hv)
  refine ⟨values.foldl Builder.assign b, ?_, h.assign_all hnone hfits rfl fun a => ?_⟩
  · rw [Call.result, Builder.set, List.findSome?_eq_none_iff.2 hnone]
  · cases hlast : (values.filter fun v => v.attribute? = some a).getLast? with
    | none =>
      rw [wanted_concat_of_nil (c := .set values) (List.getLast?_eq_none_iff.1 hlast)]
      exact (Assignment.extended_nil _).trans (h.value a).symm
    | some v => exact wanted_concat_of_getLast? hlast

/-- A value takes the place of one that it extends. -/
theorem assign_extended (h : Tracks n calls b) {v : Assignment} {ds : List Data}
    (ha : v.attribute? = some a) (hknown : v.unknown? b.kind = none) (hfits : v.Fits n.kind)
    (hv : v.sequenced n.kind = ((b.value a).sequenced n.kind).extended ds) :
    Tracks n (calls ++ [.add a.label ds]) (b.assign v) := by
  change Tracks n _ ([v].foldl Builder.assign b)
  refine h.assign_all (List.forall_mem_singleton.2 hknown) (List.forall_mem_singleton.2 hfits) rfl
    fun a' => ?_
  rw [wanted_concat_of_nil rfl, ← h.value, Call.added]
  -- The name of the call is that of one attribute; the others stay as they are.
  by_cases heq : a = a'
  · subst a'
    simp [ha, hv]
  · have hlabel : a'.label ≠ a.label := fun hlabel => heq (Attribute.label_injective hlabel.symm)
    simp [ha, heq, hlabel]

/-- Data are added to a sequence. -/
theorem add (h : Tracks n calls b) {name : Text} {ds : List Data}
    (hfits : (Call.add name ds).Fits n.kind) :
    ∃ b', (Call.add name ds).result b = .ok b' ∧ Tracks n (calls ++ [.add name ds]) b' := by
  rcases hfits with ⟨r, hr, rfl⟩ | ⟨rfl, hatoms⟩
  · obtain ⟨all, hall⟩ := Option.isSome_iff_exists.1 (h.fits r hr)
    have hhas : b.kind.has r := by
      rw [Kind.has, h.kind, Kind.shape?_eq hr]
      rfl
    refine ⟨b.assign (.slot (.mk r (.list (all ++ ds)))), ?_,
      h.assign_extended (a := .slot r) rfl (if_pos hhas) (fun _ => rfl) ?_⟩
    · rw [Call.result, Builder.add, Role.ofLabel?_label, Option.filter_some, if_pos hhas]
      exact Builder.append_eq hall ds
    · have hbefore : (b.value (.slot r)).sequenced n.kind = .slot (.mk r (.list all)) := by
        refine congrArg (fun d => Assignment.slot (.mk r d)) ((Kind.held_eq hr _).trans ?_)
        rw [if_pos rfl, hall]
        rfl
      rw [hbefore]
      exact congrArg (fun d => Assignment.slot (.mk r d)) ((Kind.held_eq hr _).trans (if_pos rfl))
  · refine ⟨b.assign (.comments (b.info.comments ++ ds.filterMap Data.atom?)), ?_,
      h.assign_extended (a := .comments) rfl rfl trivial rfl⟩
    have hrole : (Role.ofLabel? Attribute.comments.label).filter b.kind.has = none := rfl
    rw [Call.result, Builder.add, hrole]
    simp only [if_neg (show ¬Attribute.comments.label ∉ metadataNames by decide)]
    rw [if_pos (show Attribute.comments.label = ("comments" : Text) from rfl),
      mapM_eq_some_filterMap hatoms]
    rfl

/-- One more call. -/
theorem step (h : Tracks n calls b) (hknown : c.isKnown n.kind) (hfits : c.Fits n.kind) :
    ∃ b', c.result b = .ok b' ∧ Tracks n (calls ++ [c]) b' := by
  cases c with
  | set values => exact h.set hknown hfits
  | add name ds => exact h.add hfits
  | putData key value =>
    refine ⟨b.putData key value, rfl, h.kind, h.roles, h.fits, fun a => ?_, ?_⟩
    · rw [wanted_concat_of_nil rfl]
      exact (h.value a).trans (Assignment.extended_nil _).symm
    · rw [entriesOf, List.filterMap_append]
      exact (congrArg (Table.put · key value) h.added).trans
        (Table.ofLast_concat _ (key, value)).symm

/-- More calls, where faults are caught: those that are refused do nothing. -/
theorem attempts (h : Tracks n done b)
    (hfits : ∀ c ∈ calls, c.isKnown n.kind → c.Fits n.kind) :
    ∃ b', EStateM.run (calls.forM Call.attempt) b = .ok ⟨⟩ b' ∧
      Tracks n (done ++ calls.filter fun c => c.isKnown n.kind) b' := by
  -- By induction on the calls ahead; those that were done are known ones only.
  induction calls generalizing done b with
  | nil => exact ⟨b, rfl, by simpa using h⟩
  | cons c calls ih =>
    have hrest := fun c' hc' => hfits c' (List.mem_cons_of_mem _ hc')
    rw [List.forM_eq_forM, List.forM_cons, EStateM.run_bind, Call.run_attempt]
    by_cases hknown : c.isKnown n.kind
    · obtain ⟨b₁, hb₁, htracks⟩ := h.step hknown (hfits c List.mem_cons_self hknown)
      obtain ⟨b', hb', htracks'⟩ := ih htracks hrest
      rw [hb₁, List.filter_cons_of_pos (by simpa using hknown), List.append_cons]
      exact ⟨b', hb', htracks'⟩
    · obtain ⟨f, hf, -⟩ := Call.result_of_unknown (c := c) (b := b) (by simpa [h.kind] using hknown)
      rw [hf, List.filter_cons_of_neg (by simpa using hknown)]
      exact ih h hrest

/-- More calls, up to the first one that is refused. -/
theorem runs (h : Tracks n done b) (hfits : ∀ c ∈ calls, c.isKnown n.kind → c.Fits n.kind) :
    ((∀ c ∈ calls, c.isKnown n.kind) ∧
      ∃ b', EStateM.run (calls.forM Call.run) b = .ok ⟨⟩ b' ∧ Tracks n (done ++ calls) b') ∨
    (∃ c ∈ calls, c.isKnown n.kind = false) ∧
      ∃ f b', EStateM.run (calls.forM Call.run) b = .error f b' ∧ f.failure.category = .type := by
  induction calls generalizing done b with
  | nil => exact .inl ⟨nofun, b, rfl, by simpa using h⟩
  | cons c calls ih =>
    rw [List.forM_eq_forM, List.forM_cons, EStateM.run_bind, Call.run_eq]
    cases hknown : c.isKnown n.kind with
    | true =>
      obtain ⟨b₁, hb₁, htracks⟩ := h.step hknown (hfits c List.mem_cons_self hknown)
      rw [hb₁]
      rcases ih htracks fun c' hc' => hfits c' (List.mem_cons_of_mem _ hc') with
        ⟨hall, b', hb', htracks'⟩ | ⟨⟨c', hc', hunknown⟩, herror⟩
      · refine .inl ⟨List.forall_mem_cons.2 ⟨hknown, hall⟩, b', hb', ?_⟩
        simpa using htracks'
      · exact .inr ⟨⟨c', List.mem_cons_of_mem _ hc', hunknown⟩, herror⟩
    | false =>
      obtain ⟨f, hf, htype⟩ := Call.result_of_unknown (c := c) (b := b) (by rw [h.kind, hknown])
      rw [hf]
      exact .inr ⟨⟨c, List.mem_cons_self, hknown⟩, f, b, rfl, htype⟩

end Tracks

/-! ## Changed copies -/

/-- The node is a copy of another one, changed as the calls ask for. -/
structure Reflects (n : Node) (calls : List Call) (n' : Node) : Prop where
  formed : n'.Formed
  kind : n'.kind = n.kind
  value : ∀ a, n'.value a = (n.wanted calls a).overridden (entriesOf calls)

/-- A builder that knows what calls ask for builds such a copy. -/
theorem Tracks.build (h : Tracks n calls b) : ∃ n', b.build = .ok n' ∧ Reflects n calls n' := by
  have hseq : ∀ r, (r, .children) ∈ b.kind.layout → (b.content r).sequence?.isSome :=
    fun r hr => h.fits r (h.kind ▸ hr)
  have hbuild := Builder.build_eq_sequenced (h.kind ▸ h.roles) hseq
  refine ⟨_, hbuild, Builder.formed_of_build hbuild, h.kind, fun a => ?_⟩
  rw [← h.value, ← h.added, ← h.kind]
  cases a with
  | slot r =>
    exact congrArg (fun d => Assignment.slot (.mk r d))
      (content_map_sequenced (h.kind ▸ h.roles) b.info r)
  | _ => rfl

/-- What a node holds is as nodes of its kind have it. -/
theorem Formed.value_sequenced (h : n.Formed) (a : Attribute) :
    (n.value a).sequenced n.kind = n.value a := by
  cases a with
  | slot r =>
    refine congrArg (fun d => Assignment.slot (.mk r d)) ?_
    change n.kind.held r (n.content r) = n.content r
    unfold Kind.held
    split
    · rename_i hshape
      obtain ⟨ds, hds⟩ := h.sequences r (Kind.shape?_eq_some_iff.1 hshape)
      rw [hds]
      rfl
    · rfl
  | _ => rfl

namespace Reflects

variable {n' n'' : Node}

/-- The calls determine the copy. -/
theorem unique (h : Reflects n calls n') (h' : Reflects n calls n'') : n' = n'' :=
  h.formed.ext_value h'.formed (h.kind.trans h'.kind.symm) fun a =>
    (h.value a).trans (h'.value a).symm

/-- Further data override the mapping key by key. -/
theorem get?_data (h : Reflects n calls n') :
    ∃ t, n.wanted calls .data = .data t ∧ ∀ key, n'.info.data.get? key =
      (((calls.filterMap Call.put?).reverse.find? fun e => e.1 = key).map Prod.snd).or
        (t.get? key) := by
  have hvalue : Assignment.data n'.info.data = _ := h.value .data
  cases hwanted : n.wanted calls .data with
  | data t =>
    rw [hwanted] at hvalue
    refine ⟨t, rfl, fun key => ?_⟩
    rw [Assignment.data.inj hvalue, entriesOf, Table.get?_putAll_of_nodup, Table.get?_ofLast]
    exact Table.nodup_keys_putAll (t := []) List.nodup_nil _
  | _ =>
    rw [hwanted] at hvalue
    cases hvalue

/-- What no call is about stays as it is. -/
theorem untouched (h : Reflects n calls n') (hn : n.Formed)
    (hcalls : ∀ c ∈ calls, c.given a = [] ∧ c.added a = [] ∧ (a = .data → c.put? = none)) :
    n'.value a = n.value a := by
  have hlast : lastGiven? a calls = none := by
    rw [lastGiven?, List.getLast?_eq_none_iff, List.flatMap_eq_nil_iff]
    exact fun c hc => (hcalls c hc).1
  have hadded : addedSince a calls = [] := by
    rw [addedSince, List.flatMap_eq_nil_iff]
    exact fun c hc => (hcalls c ((List.rtakeWhile_suffix _ _).subset hc)).2.1
  rw [h.value, wanted, hlast, hadded, Assignment.extended_nil, Option.getD_none,
    hn.value_sequenced]
  cases a with
  | data =>
    have hentries : calls.filterMap Call.put? = [] :=
      List.filterMap_eq_nil_iff.2 fun c hc => (hcalls c hc).2.2 rfl
    rw [entriesOf, hentries]
    rfl
  | _ => rfl

end Reflects

namespace Formed

/-- A copy that is changed by calls whose faults are caught. -/
theorem exists_attempts (h : n.Formed) (hfits : ∀ c ∈ calls, c.isKnown n.kind → c.Fits n.kind) :
    ∃ n', n.transform (Building.after (calls.forM Call.attempt)) = .ok n' ∧
      Reflects n (calls.filter fun c => c.isKnown n.kind) n' := by
  obtain ⟨b, hb, htracks⟩ := h.tracks.attempts hfits
  obtain ⟨n', hn', hreflects⟩ := htracks.build
  refine ⟨n', ?_, hreflects⟩
  rw [transform, Building.after, hb]
  exact hn'

/-- A copy that is changed by calls, if no fault is caught. -/
theorem transform_runs_cases (h : n.Formed)
    (hfits : ∀ c ∈ calls, c.isKnown n.kind → c.Fits n.kind) :
    ((∀ c ∈ calls, c.isKnown n.kind) ∧
      ∃ n', n.transform (Building.after (calls.forM Call.run)) = .ok n' ∧ Reflects n calls n') ∨
    (∃ c ∈ calls, c.isKnown n.kind = false) ∧
      ∃ f, n.transform (Building.after (calls.forM Call.run)) = .error f ∧
        f.failure.category = .type := by
  rcases h.tracks.runs hfits with ⟨hknown, b, hb, htracks⟩ | ⟨hunknown, f, b, hf, htype⟩
  · obtain ⟨n', hn', hreflects⟩ := htracks.build
    refine .inl ⟨hknown, n', ?_, hreflects⟩
    rw [transform, Building.after, hb]
    exact hn'
  · refine .inr ⟨hunknown, f, ?_, htype⟩
    rw [transform, Building.after, hf]
    rfl

/-- A copy of a node that is changed by calls, where faults are caught. It has the kind of the node.
Each attribute has the value that was given last, or else that of the node, with what was added
since. The mapping that was given last, or else that of the node, is overridden key by key by all
further data. What no call is about stays as it is. Calls that name unknown attributes raise a
fault, as a bad type, and leave any builder as it was; there is no copy if the fault is not
caught. -/
theorem transform_calls (h : n.Formed)
    (hfits : ∀ c ∈ calls, c.isKnown n.kind → c.Fits n.kind) :
    (∃ n', n.transform (Building.after (calls.forM Call.attempt)) = .ok n' ∧
      ((∀ c ∈ calls, c.isKnown n.kind) →
        n.transform (Building.after (calls.forM Call.run)) = .ok n') ∧
      Reflects n (calls.filter fun c => c.isKnown n.kind) n' ∧
      (∃ t, n.wanted (calls.filter fun c => c.isKnown n.kind) .data = .data t ∧
        ∀ key, n'.info.data.get? key =
          (((calls.filterMap Call.put?).reverse.find? fun e => e.1 = key).map Prod.snd).or
            (t.get? key)) ∧
      (∀ a, (∀ c ∈ calls, c.isKnown n.kind →
          c.given a = [] ∧ c.added a = [] ∧ (a = .data → c.put? = none)) →
        n'.value a = n.value a) ∧
      (calls = [] → n' = n)) ∧
    ((∃ c ∈ calls, c.isKnown n.kind = false) →
      ∃ f, n.transform (Building.after (calls.forM Call.run)) = .error f ∧
        f.failure.category = .type) ∧
    ∀ (b : Builder) (c : Call), c.isKnown b.kind = false →
      ∃ f, c.run.run b = .error f b ∧ f.failure.category = .type := by
  have hruns := h.transform_runs_cases hfits
  refine ⟨?_, ?_, fun b c hunknown => ?_⟩
  · obtain ⟨n', hn', hreflects⟩ := h.exists_attempts hfits
    refine ⟨n', hn', fun hknown => ?_, hreflects, ?_, fun a ha => ?_, fun hnil => ?_⟩
    · rcases hruns with ⟨-, n'', hn'', hreflects'⟩ | ⟨⟨c, hc, hunknown⟩, -⟩
      · rw [List.filter_eq_self.2 hknown] at hreflects
        rw [hn'', hreflects.unique hreflects']
      · exact absurd (hknown c hc) (by simp [hunknown])
    · rw [← Call.filterMap_put?_filter n.kind calls]
      exact hreflects.get?_data
    · refine hreflects.untouched h fun c hc => ?_
      obtain ⟨hc, hknown⟩ := List.mem_filter.1 hc
      exact ha c hc hknown
    · subst hnil
      exact hreflects.formed.ext_value h hreflects.kind fun a => hreflects.untouched h nofun
  · rintro ⟨c, hc, hunknown⟩
    rcases hruns with ⟨hknown, -⟩ | ⟨-, hf⟩
    · exact absurd (hknown c hc) (by simp [hunknown])
    · exact hf
  · obtain ⟨f, hf, htype⟩ := Call.result_of_unknown hunknown
    exact ⟨f, by rw [Call.run_eq, hf], htype⟩

/-- A scalar type with data on its owner. -/
def dateType : Node :=
  .mk (.typeDefinition .scalar) { Metadata.none with data := [("owner", .text "core")] }
    [.mk .description .null, .datum .name (.text "Date"), .children .directives []]

/-- A directive without arguments. -/
def plainDirective (name : Text) : Node :=
  .mk .directive .none [.datum .name (.text name), .children .arguments []]

/-- Calls of all kinds; one of them is refused, and a directive is set aside by a later call. -/
def mixedCalls : List Call :=
  [.add "directives" [.node (plainDirective "draft")],
   .set [.slot (.datum .name (.text "Time")), .other "colour"],
   .putData "owner" (.text "web"),
   .set [.slot (.mk .directives .null), .data [("owner", .null), ("team", .text "time")]],
   .add "directives" [.node (plainDirective "ready")]]

/-- Nothing comes of the call that is refused, and what was put overrides the mapping that was set
afterwards. -/
theorem transform_calls_mixed :
    dateType.Formed ∧ (∀ c ∈ mixedCalls, c.isKnown dateType.kind → c.Fits dateType.kind) ∧
    ∃ n', dateType.transform (Building.after (mixedCalls.forM Call.attempt)) = .ok n' ∧
      n'.value (.slot .name) = .slot (.datum .name (.text "Date")) ∧
      n'.value (.slot .directives) =
        .slot (.children .directives [plainDirective "ready"]) ∧
      n'.info.data.get? "owner" = some (.text "web") ∧
      n'.info.data.get? "team" = some (.text "time") := by
  have hformed : dateType.Formed := by
    refine ⟨rfl, fun r hr => ?_⟩
    simp [dateType, Node.kind, Kind.layout, Kind.holding, Kind.members, Kind.named] at hr
    subst hr
    exact ⟨[], rfl⟩
  have hfits : ∀ c ∈ mixedCalls, c.isKnown dateType.kind → c.Fits dateType.kind := by
    simp only [mixedCalls, List.forall_mem_cons]
    have hadd : ∀ ds, (Call.add "directives" ds).Fits dateType.kind := fun _ =>
      .inl ⟨.directives, by decide, rfl⟩
    refine ⟨fun _ => hadd _, fun h => absurd h (by decide), fun _ => trivial, fun _ => ?_,
      fun _ => hadd _, List.forall_mem_nil _⟩
    simp only [Call.Fits, List.forall_mem_cons]
    exact ⟨fun _ => rfl, show [("owner" : Text), "team"].Nodup by decide, List.forall_mem_nil _⟩
  obtain ⟨n', hn', -, hreflects, ⟨t, ht, hdata⟩, -, -⟩ := (hformed.transform_calls hfits).1
  have hgiven : Assignment.data [("owner", .null), ("team", .text "time")] = .data t := ht
  obtain rfl := Assignment.data.inj hgiven
  refine ⟨hformed, hfits, n', hn', hreflects.value (.slot .name),
    hreflects.value (.slot .directives), ?_, ?_⟩
  · rw [hdata]
    rfl
  · rw [hdata]
    rfl

end Formed

end Node

end GraphSchema
