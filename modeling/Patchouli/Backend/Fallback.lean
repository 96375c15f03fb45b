import Patchouli.Backend.Branches

/-!
# Naming every head

An update that names every head it read is concurrent to none of them: nothing is resolved, and its
proposal becomes the only head. It can still be refused before that. The proposal is prepared first,
and with the fallback `reject` its preparation refuses where a merge rule does not cover the
requested value or one of the bases, whether or not there is anything to merge with.

## Main definitions

* `ConflictPlan.NamesExactly` — `base_versions` is the set of heads
* `Usable`, `Outside` — what a base is to a merge rule
* `ConflictPlan.RefusesFallback` — some rule refuses

## Main results

* `prepareCandidate_refused_iff`
* `prepareUpdate_refused_iff`, `prepareDelete_not_refused` — with every head named
* `prepare_namesExactly` — what an accepted mutation commits then
-/

namespace Patchouli

open Json (Value)

/-- `base_versions` is some versions, in any order. -/
def ConflictPlan.NamesExactly (plan : ConflictPlan) (versions : List String) : Prop :=
  ∃ names : List String, names.Perm versions ∧ plan.baseVersions = some (.array (names.map .string))

/-- The request is refused over the versions it is based on. -/
def BackendError.Conflicts (error : BackendError) : Prop := error.reason = .versionConflict

section Fallback

variable (A : Automerge) (rule : ConflictMergeRule) (proposed : Value) (base : StoredEntityVersion)

/-! ### Bases -/

/-- A base a rule can use: it holds the field in the group of the proposal, and the document stored
for the field loads to it. -/
def Usable : Prop :=
  base.state = .active ∧ ∃ value, base.valueJson = some value ∧
    ∃ field, value.pointer rule.path = some field ∧ sameMergeGroup rule field proposed = true ∧
      ∃ stored, base.crdtFields.find? (·.path = rule.path) = some stored ∧
        ∃ document, CrdtDocument.fromChanges A stored.changes stored.heads = .ok document ∧
          document.json A = field

/-- A base outside a rule: a tombstone, or a version without the field, with the field in another
group, or with no document for it. -/
def Outside : Prop :=
  base.state ≠ .active ∨ ∃ value, base.valueJson = some value ∧
    (value.pointer rule.path = none ∨ ∃ field, value.pointer rule.path = some field ∧
      (sameMergeGroup rule field proposed = false ∨
        base.crdtFields.find? (·.path = rule.path) = none))

/-- The rule refuses the bases: one is outside it, and those before are usable. -/
def RefusesBases (bases : List StoredEntityVersion) : Prop :=
  ∃ before base after, bases = before ++ base :: after ∧
    (∀ b ∈ before, Usable A rule proposed b) ∧ Outside rule proposed base

variable {A rule proposed base}

theorem fromChanges_error {changes : List CrdtChange} {heads : List String} {error : ConflictError}
    (h : CrdtDocument.fromChanges A changes heads = .error error) : error ≠ .rejected := by
  rintro rfl
  rcases Except.bind_eq_error.mp h with hcheck | ⟨decoded, -, h⟩
  · obtain ⟨change, -, hchange⟩ := Except.mapM_error hcheck
    unfold CrdtDocument.checkChange at hchange
    split at hchange
    · cases hchange
    · split at hchange <;> cases hchange
  · dsimp only at h
    split at h <;> cases h

theorem loadMatching_eq_ok {stored : StoredCrdtField} {field : Value} {document : CrdtDocument} :
    loadMatching A stored field = .ok document ↔
      CrdtDocument.fromChanges A stored.changes stored.heads = .ok document ∧
        document.json A = field := by
  simp only [loadMatching, loadCrdtDocument, Except.bind_eq_ok, Except.mapError_eq_ok]
  constructor
  · rintro ⟨loaded, hloaded, h⟩
    split at h
    · cases h
    · rename_i hjson
      rw [not_not] at hjson
      rw [Except.pure_eq_ok, Except.ok.injEq] at h
      subst h
      exact ⟨hloaded, hjson⟩
  · rintro ⟨hloaded, hjson⟩
    exact ⟨document, hloaded, by rw [if_neg (not_not.mpr hjson)]; rfl⟩

theorem loadMatching_error {stored : StoredCrdtField} {field : Value} {error : BackendError}
    (h : loadMatching A stored field = .error error) : ¬ error.Conflicts := by
  rcases Except.bind_eq_error.mp h with hload | ⟨document, -, h⟩
  · unfold loadCrdtDocument at hload
    cases hdocument : CrdtDocument.fromChanges A stored.changes stored.heads with
    | ok document => simp [hdocument, Except.mapError] at hload
    | error cause =>
      have hne := fromChanges_error hdocument
      simp only [hdocument, Except.mapError, Except.error.injEq] at hload
      subst hload
      cases cause <;> simp_all [conflictBackendError, BackendError.Conflicts, BackendError.new]
  · split at h
    · rw [Except.error.injEq] at h
      subst h
      simp [BackendError.Conflicts, providerCorruption, BackendError.new]
    · cases h

theorem Usable.baseDocument (h : Usable A rule proposed base) :
    ∃ document, baseDocument A rule proposed base = .ok (some document) := by
  obtain ⟨hactive, value, hvalue, field, hfield, hgroup, stored, hstored, document, hload⟩ := h
  refine ⟨document, ?_⟩
  have hmatching := loadMatching_eq_ok.mpr hload
  simp only [Patchouli.baseDocument, hactive, ne_eq, not_true_eq_false, if_false, storedValue,
    hvalue, hfield, hgroup, Bool.not_true, Bool.false_eq_true, hstored, hmatching, bind,
    Except.bind, pure, Except.pure]

theorem Outside.baseDocument (h : Outside rule proposed base) :
    baseDocument A rule proposed base = .ok none := by
  by_cases hactive : base.state = .active
  · obtain ⟨value, hvalue, hfield⟩ := h.resolve_left (not_not.mpr hactive)
    simp only [Patchouli.baseDocument, hactive, ne_eq, not_true_eq_false, if_false, storedValue,
      hvalue, bind, Except.bind, pure, Except.pure]
    rcases hfield with hnone | ⟨field, hsome, hgroup | hbare⟩
    · simp only [hnone]
    · simp only [hsome, hgroup, Bool.not_false, if_true]
    · simp only [hsome, hbare]
      cases sameMergeGroup rule field proposed <;> rfl
  · simp only [Patchouli.baseDocument, ne_eq, hactive, not_false_eq_true, if_true]

/-- **A base is usable, outside, or damaged.** -/
theorem baseDocument_cases (A : Automerge) (rule : ConflictMergeRule) (proposed : Value)
    (base : StoredEntityVersion) :
    Usable A rule proposed base ∨ Outside rule proposed base ∨
      ∃ error, baseDocument A rule proposed base = .error error ∧ ¬ error.Conflicts := by
  by_cases hactive : base.state = .active
  swap
  · exact Or.inr (Or.inl (Or.inl hactive))
  cases hvalue : base.valueJson with
  | none =>
    refine Or.inr (Or.inr ⟨providerCorruption "active version has no JSON value", ?_, ?_⟩)
    · simp only [baseDocument, hactive, ne_eq, not_true_eq_false, if_false, storedValue, hvalue,
        bind, Except.bind]
    · simp [BackendError.Conflicts, providerCorruption, BackendError.new]
  | some value =>
    cases hfield : value.pointer rule.path with
    | none => exact Or.inr (Or.inl (Or.inr ⟨value, hvalue, Or.inl hfield⟩))
    | some field =>
      cases hgroup : sameMergeGroup rule field proposed with
      | false => exact Or.inr (Or.inl (Or.inr ⟨value, hvalue, Or.inr ⟨field, hfield, Or.inl hgroup⟩⟩))
      | true =>
        cases hstored : base.crdtFields.find? (·.path = rule.path) with
        | none =>
          exact Or.inr (Or.inl (Or.inr ⟨value, hvalue, Or.inr ⟨field, hfield, Or.inr hstored⟩⟩))
        | some stored =>
          cases hload : loadMatching A stored field with
          | ok document =>
            exact Or.inl ⟨hactive, value, hvalue, field, hfield, hgroup, stored, hstored, document,
              loadMatching_eq_ok.mp hload⟩
          | error error =>
            refine Or.inr (Or.inr ⟨error, ?_, loadMatching_error hload⟩)
            simp only [baseDocument, hactive, ne_eq, not_true_eq_false, if_false, storedValue,
              hvalue, hfield, hgroup, Bool.not_true, Bool.false_eq_true, hstored, hload, bind,
              Except.bind]

end Fallback

/-! ### Rules -/

/-- What `reject_fallback` refuses with. -/
theorem rejectFallback_reject :
    ∃ error, rejectFallback .reject = .error error ∧ error.Conflicts := ⟨_, rfl, rfl⟩

section Rules

variable {A : Automerge} {actors : String → String} {plan : ConflictPlan} {rule : ConflictMergeRule}
  {proposed value : Value} {bases : List StoredEntityVersion}

theorem Outside.not_usable {base : StoredEntityVersion} (h : Outside rule proposed base) :
    ¬ Usable A rule proposed base := by
  intro husable
  obtain ⟨document, hdocument⟩ := husable.baseDocument
  rw [h.baseDocument] at hdocument
  cases hdocument

theorem baseDocuments_isOk (h : ∀ b ∈ bases, Usable A rule proposed b) : ∃ documents,
    baseDocuments A plan rule proposed bases = .ok (some documents) ∧
      documents.length = bases.length := by
  induction bases with
  | nil => exact ⟨[], rfl, rfl⟩
  | cons base rest ih =>
    rw [List.forall_mem_cons] at h
    obtain ⟨document, hdocument⟩ := h.1.baseDocument
    obtain ⟨documents, hdocuments, hlength⟩ := ih h.2
    refine ⟨document :: documents, ?_, by simp [hlength]⟩
    simp only [baseDocuments, hdocument, hdocuments, bind, Except.bind, pure, Except.pure]

/-- **Bases are refused** at the first that is not usable, if it is outside. -/
theorem baseDocuments_cases (A : Automerge) (hreject : plan.otherwise = .reject)
    (rule : ConflictMergeRule) (proposed : Value) (bases : List StoredEntityVersion) :
    (∀ b ∈ bases, Usable A rule proposed b) ∨ ∃ error,
      baseDocuments A plan rule proposed bases = .error error ∧
        (error.Conflicts ↔ RefusesBases A rule proposed bases) := by
  induction bases with
  | nil => exact Or.inl (by simp)
  | cons base rest ih =>
    rcases baseDocument_cases A rule proposed base with husable | houtside | ⟨error, herror, hother⟩
    · obtain ⟨document, hdocument⟩ := husable.baseDocument
      rcases ih with hall | ⟨error, herror, hiff⟩
      · exact Or.inl (List.forall_mem_cons.mpr ⟨husable, hall⟩)
      · refine Or.inr ⟨error, ?_, hiff.trans ⟨?_, ?_⟩⟩
        · simp only [baseDocuments, hdocument, herror, bind, Except.bind]
        · rintro ⟨before, b, after, rfl, hbefore, hb⟩
          exact ⟨base :: before, b, after, rfl, List.forall_mem_cons.mpr ⟨husable, hbefore⟩, hb⟩
        · rintro ⟨before, b, after, heq, hbefore, hb⟩
          cases before with
          | nil =>
            cases heq
            exact absurd husable hb.not_usable
          | cons first before =>
            cases heq
            exact ⟨before, b, after, rfl, (List.forall_mem_cons.mp hbefore).2, hb⟩
    · obtain ⟨error, herror, hconflicts⟩ := rejectFallback_reject
      refine Or.inr ⟨error, ?_, iff_of_true hconflicts ⟨[], base, rest, rfl, by simp, houtside⟩⟩
      simp only [baseDocuments, houtside.baseDocument, hreject, herror, bind, Except.bind]
    · refine Or.inr ⟨error, by simp only [baseDocuments, herror, bind, Except.bind],
        iff_of_false hother ?_⟩
      rintro ⟨before, b, after, heq, hbefore, hb⟩
      cases before with
      | nil =>
        cases heq
        rw [hb.baseDocument] at herror
        cases herror
      | cons first before =>
        cases heq
        obtain ⟨document, hdocument⟩ := (hbefore base (by simp)).baseDocument
        rw [herror] at hdocument
        cases hdocument

/-- A rule that is met by the requested value and by every base. -/
def ConflictMergeRule.Met (A : Automerge) (rule : ConflictMergeRule)
    (bases : List StoredEntityVersion) (value : Value) : Prop :=
  ∃ proposed, value.pointer rule.path = some proposed ∧ ∀ b ∈ bases, Usable A rule proposed b

/-- A rule that refuses: the requested value lacks its field, or it refuses the bases. -/
def ConflictMergeRule.Refuses (A : Automerge) (rule : ConflictMergeRule)
    (bases : List StoredEntityVersion) (value : Value) : Prop :=
  value.pointer rule.path = none ∨
    ∃ proposed, value.pointer rule.path = some proposed ∧ RefusesBases A rule proposed bases

/-- Some rule refuses under the fallback `reject`, and the rules before it are met. -/
def ConflictPlan.RefusesFallback (A : Automerge) (plan : ConflictPlan)
    (bases : List StoredEntityVersion) (value : Value) : Prop :=
  plan.otherwise = .reject ∧ ∃ before rule after, plan.merge = before ++ rule :: after ∧
    (∀ r ∈ before, r.Met A bases value) ∧ rule.Refuses A bases value

theorem prepareField_met {fields : List (String × CrdtDocument)} (hbases : bases ≠ [])
    (h : rule.Met A bases value) :
    ∃ next, prepareField A actors plan bases value fields rule = .ok next := by
  obtain ⟨proposed, hproposed, hall⟩ := h
  obtain ⟨documents, hdocuments, hlength⟩ := @baseDocuments_isOk A plan _ proposed bases hall
  cases documents with
  | nil => exact absurd (List.length_eq_zero_iff.mp hlength.symm) hbases
  | cons first rest =>
    simp only [prepareField, hproposed, hdocuments, CrdtDocument.merge, Except.mapError, bind,
      Except.bind, pure, Except.pure]
    exact ⟨_, rfl⟩

/-- A turn over a rule that is not met fails, and refuses if the rule does. -/
theorem prepareField_not_met (hreject : plan.otherwise = .reject)
    {fields : List (String × CrdtDocument)} (h : ¬ rule.Met A bases value) : ∃ error,
      prepareField A actors plan bases value fields rule = .error error ∧
        (error.Conflicts ↔ rule.Refuses A bases value) := by
  cases hproposed : value.pointer rule.path with
  | none =>
    obtain ⟨error, herror, hconflicts⟩ := rejectFallback_reject
    refine ⟨error, ?_, iff_of_true hconflicts (Or.inl hproposed)⟩
    simp only [prepareField, hproposed, hreject, herror, bind, Except.bind]
  | some proposed =>
    rcases baseDocuments_cases A hreject rule proposed bases with hall | ⟨error, herror, hiff⟩
    · exact absurd ⟨proposed, hproposed, hall⟩ h
    · refine ⟨error, by simp only [prepareField, hproposed, herror, bind, Except.bind],
        hiff.trans ⟨fun hrefuses => Or.inr ⟨proposed, hproposed, hrefuses⟩, ?_⟩⟩
      rintro (hnone | ⟨proposed', hproposed', hrefuses⟩)
      · rw [hproposed] at hnone
        cases hnone
      · rw [hproposed, Option.some.injEq] at hproposed'
        exact hproposed' ▸ hrefuses

theorem ConflictMergeRule.Refuses.not_met (h : rule.Refuses A bases value) :
    ¬ rule.Met A bases value := by
  rintro ⟨proposed, hproposed, hall⟩
  rcases h with hnone | ⟨proposed', hproposed', before, base, after, rfl, -, hb⟩
  · rw [hproposed] at hnone
    cases hnone
  · rw [hproposed, Option.some.injEq] at hproposed'
    subst hproposed'
    exact hb.not_usable (hall base (by simp))

theorem baseDocuments_mvcc (hmvcc : plan.otherwise = .mvcc) {error : BackendError}
    (h : baseDocuments A plan rule proposed bases = .error error) : ¬ error.Conflicts := by
  induction bases with
  | nil => cases h
  | cons base rest ih =>
    rcases Except.bind_eq_error.mp h with herror | ⟨found, -, h⟩
    · rcases baseDocument_cases A rule proposed base with husable | houtside | ⟨e, he, hother⟩
      · obtain ⟨document, hdocument⟩ := husable.baseDocument
        rw [hdocument] at herror
        cases herror
      · rw [houtside.baseDocument] at herror
        cases herror
      · rw [he, Except.error.injEq] at herror
        exact herror ▸ hother
    · cases found with
      | none =>
        rw [hmvcc] at h
        cases h
      | some document =>
        rcases Except.bind_eq_error.mp h with herror | ⟨documents, -, h⟩
        · exact ih herror
        · cases documents <;> cases h

theorem prepareField_mvcc (hmvcc : plan.otherwise = .mvcc)
    {fields : List (String × CrdtDocument)} {error : BackendError}
    (h : prepareField A actors plan bases value fields rule = .error error) :
    ¬ error.Conflicts := by
  unfold prepareField at h
  split at h
  · rw [hmvcc] at h
    cases h
  · rcases Except.bind_eq_error.mp h with herror | ⟨documents, -, h⟩
    · exact baseDocuments_mvcc hmvcc herror
    · cases documents with
      | none => cases h
      | some documents =>
        rcases Except.bind_eq_error.mp h with herror | ⟨base, -, h⟩
        · cases documents with
          | nil =>
            simp only [CrdtDocument.merge, Except.mapError, Except.error.injEq] at herror
            subst herror
            simp [BackendError.Conflicts, conflictBackendError, BackendError.new]
          | cons first rest => cases herror
        · cases h

/-- **A preparation refuses** with the fallback `reject`, over the first rule that is not met. -/
theorem prepareCandidate_refused_iff (hbases : bases ≠ []) :
    (∃ error, prepareCandidate A actors plan bases value = .error error ∧ error.Conflicts) ↔
      plan.RefusesFallback A bases value := by
  have hloop : ∀ error, prepareCandidate A actors plan bases value = .error error ↔
      plan.merge.foldlM (prepareField A actors plan bases value) [] = .error error := by
    intro error
    rw [prepareCandidate, Except.bind_eq_error]
    exact ⟨fun h => h.resolve_right fun ⟨_, _, h⟩ => (by cases h), Or.inl⟩
  simp only [hloop]
  cases hotherwise : plan.otherwise with
  | mvcc =>
    refine iff_of_false ?_ fun ⟨hreject, _⟩ => by simp [hotherwise] at hreject
    rintro ⟨error, h, hconflicts⟩
    exact Except.foldlM_error (I := fun _ => True) (E := fun e => ¬ e.Conflicts)
      (fun _ _ _ _ _ _ => trivial) (fun _ _ _ _ _ => prepareField_mvcc hotherwise) trivial h
      hconflicts
  | reject =>
    have hunmet : ∀ (fields : List (String × CrdtDocument)) (r : ConflictMergeRule),
        ¬ r.Met A bases value → ∃ error,
          prepareField A actors plan bases value fields r = .error error ∧
            (error.Conflicts ↔ r.Refuses A bases value) :=
      fun fields r hnot => prepareField_not_met hotherwise hnot
    have hmet : ∀ (fields : List (String × CrdtDocument)) (r : ConflictMergeRule),
        (∃ next, prepareField A actors plan bases value fields r = .ok next) ↔
          r.Met A bases value := by
      intro fields r
      refine ⟨fun ⟨next, hnext⟩ => ?_, prepareField_met hbases⟩
      by_contra hnot
      obtain ⟨error, herror, -⟩ := hunmet fields r hnot
      rw [hnext] at herror
      cases herror
    rw [Except.foldlM_error_iff]
    constructor
    · rintro ⟨before, r, after, mid, hsplit, hbefore, error, herror, hconflicts⟩
      refine ⟨hotherwise, before, r, after, hsplit, fun x hx => ?_, ?_⟩
      · obtain ⟨fields, next, hturn⟩ := Except.foldlM_turn hbefore x hx
        exact (hmet fields x).mp ⟨next, hturn⟩
      · have hnot : ¬ r.Met A bases value := by
          intro h
          obtain ⟨next, hnext⟩ := (hmet mid r).mpr h
          rw [hnext] at herror
          cases herror
        obtain ⟨error', herror', hiff⟩ := hunmet mid r hnot
        rw [herror, Except.error.injEq] at herror'
        exact hiff.mp (herror' ▸ hconflicts)
    · rintro ⟨-, before, r, after, hsplit, hbefore, hrefuses⟩
      obtain ⟨mid, hmid⟩ : ∃ mid, before.foldlM (prepareField A actors plan bases value) [] =
          .ok mid := (Except.foldlM_isOk_iff fun fields x _ => hmet fields x).mpr hbefore
      obtain ⟨error, herror, hiff⟩ := hunmet mid r hrefuses.not_met
      exact ⟨before, r, after, mid, hsplit, hmid, error, herror, hiff.mpr hrefuses⟩

end Rules

/-! ### Mutations -/

section Mutations

variable {A : Automerge} {toText : Value → String} {config : BackendConfig} {p : Preparation}
  {value : Value} {snapshot : EntitySnapshot}

/-- A snapshot that was read: it has heads, each once, and lists them. -/
structure EntitySnapshot.Complete (snapshot : EntitySnapshot) : Prop where
  nonempty : snapshot.headVersions ≠ []
  nodup : snapshot.headVersions.Nodup
  listed : ∀ head ∈ snapshot.headVersions, ∃ v ∈ snapshot.versions, v.version = head

theorem EntitySnapshot.Complete.version? (h : snapshot.Complete) {head : String}
    (hhead : head ∈ snapshot.headVersions) :
    ∃ stored, snapshot.version? head = some stored ∧ stored.version = head := by
  obtain ⟨v, hv, hname⟩ := h.listed head hhead
  cases hfound : snapshot.version? head with
  | none => exact absurd hname (by simpa using List.find?_eq_none.mp hfound v hv)
  | some stored => exact ⟨stored, rfl, (EntitySnapshot.version?_eq_some hfound).2⟩

/-- Distinct names are taken as they are. -/
theorem baseNames_nodup {names taken : List String} (hnodup : (names ++ taken).Nodup) :
    baseNames snapshot (names.map .string) taken = .ok (Table.sorted (names.reverse ++ taken)) := by
  induction names generalizing taken with
  | nil => rfl
  | cons name rest ih =>
    have hperm : (rest ++ name :: taken).Perm (name :: rest ++ taken) := List.perm_middle
    have hnew : name ∉ taken := by
      intro hmem
      exact (List.nodup_cons.mp hnodup).1 (List.mem_append_right _ hmem)
    rw [List.map_cons, baseNames, if_neg hnew, ih (hperm.nodup_iff.mpr hnodup), List.reverse_cons,
      List.append_assoc]
    rfl

/-- The heads of a snapshot, by their names. -/
def EntitySnapshot.heads (snapshot : EntitySnapshot) : List StoredEntityVersion :=
  (Table.sorted snapshot.headVersions).filterMap snapshot.version?

theorem mapM_version?_eq_ok {missing : BackendError} {names : List String}
    (h : ∀ name ∈ names, ∃ stored, snapshot.version? name = some stored) :
    names.mapM (fun name =>
      match snapshot.version? name with
      | some stored => Except.ok stored
      | none => Except.error missing) = Except.ok (names.filterMap snapshot.version?) := by
  induction names with
  | nil => rfl
  | cons name rest ih =>
    rw [List.forall_mem_cons] at h
    obtain ⟨stored, hstored⟩ := h.1
    rw [List.mapM_cons, ih h.2, List.filterMap_cons, hstored]
    rfl

/-- The bases of a mutation that names every head are the heads. -/
theorem selectedBases_namesExactly {plan : ConflictPlan} (h : snapshot.Complete)
    (hnames : plan.NamesExactly snapshot.headVersions) :
    selectedBases plan snapshot = .ok snapshot.heads := by
  obtain ⟨names, hperm, hvalues⟩ := hnames
  have hne : names.map Value.string ≠ [] := by
    rw [ne_eq, List.map_eq_nil_iff]
    exact fun hnil => h.nonempty (List.perm_nil.mp (hnil ▸ hperm.symm))
  have hnodup : (names ++ []).Nodup := by simpa using hperm.nodup_iff.mpr h.nodup
  have hbases : baseNames snapshot (names.map .string) [] = _ := baseNames_nodup hnodup
  rw [List.append_nil, Table.sorted_eq_iff.mpr ((List.reverse_perm names).trans hperm)] at hbases
  simp only [selectedBases, hvalues, if_neg hne, hbases, bind, Except.bind]
  exact mapM_version?_eq_ok fun _ hname =>
    (h.version? (Table.mem_sorted.mp hname)).imp fun _ hstored => hstored.1

theorem EntitySnapshot.Complete.heads_names (h : snapshot.Complete) :
    snapshot.heads.map (·.version) = Table.sorted snapshot.headVersions :=
  (mapM_version? (@mapM_version?_eq_ok snapshot notFound _ fun _ hname =>
    (h.version? (Table.mem_sorted.mp hname)).imp fun _ hstored => hstored.1)).1

theorem EntitySnapshot.Complete.heads_ne_nil (h : snapshot.Complete) : snapshot.heads ≠ [] := by
  intro hnil
  have hlength := congrArg List.length h.heads_names
  rw [hnil, List.map_nil, List.length_nil, (Table.sorted_perm _).length_eq] at hlength
  exact h.nonempty (List.length_eq_zero_iff.mp hlength.symm)

/-- A mutation that names every head is concurrent to none. -/
theorem concurrentWith_namesExactly {plan : ConflictPlan} (h : snapshot.Complete)
    (hnames : plan.NamesExactly snapshot.headVersions) :
    concurrentWith plan snapshot = .ok (snapshot.heads, []) := by
  have hmem : ∀ name, name ∈ snapshot.heads.map (·.version) ↔ name ∈ snapshot.headVersions := by
    intro name
    rw [h.heads_names, Table.mem_sorted]
  have hexact : rejectUnlessExactHeads plan snapshot snapshot.heads = .ok () := by
    unfold rejectUnlessExactHeads
    split
    · rfl
    · rw [if_pos ⟨fun name => (hmem name).mp, fun name => (hmem name).mpr⟩]
  have hnone : snapshot.headVersions.filter (· ∉ snapshot.heads.map (·.version)) = [] := by
    refine List.filter_eq_nil_iff.mpr fun name hname => ?_
    simpa using (hmem name).mpr hname
  have hconcurrent : concurrentHeads snapshot snapshot.heads = .ok [] := by
    rw [concurrentHeads, hnone]
    rfl
  simp only [concurrentWith, selectedBases_namesExactly h hnames, hexact, hconcurrent, bind,
    Except.bind, pure, Except.pure]

/-- The mutation an update with every head named prepares, from its proposal. -/
def Preparation.soleHead (config : BackendConfig) (p : Preparation) (snapshot : EntitySnapshot)
    (proposed : ConflictCandidate) : Except BackendError Prepared :=
  p.prepared config
    (p.commit snapshot.headVersions
      [activeStoredVersion (p.fresh (.version 0)) proposed.value proposed.crdtFields]
      [p.fresh (.version 0)] (mutationChangeKind snapshot [p.fresh (.version 0)] false)
      (p.fresh (.version 0)))
    (.active p.entityRef (p.fresh (.version 0)) proposed.value)

/-- **An update that names every head** is what its preparation is: refused, or the one head. -/
theorem prepareUpdate_namesExactly (h : snapshot.Complete)
    (hnames : p.plan.NamesExactly snapshot.headVersions) :
    prepareUpdate A toText config p value (some snapshot) =
      ((prepareCandidate A p.actors p.plan snapshot.heads value).mapError
        (withCurrentVersions · snapshot.headVersions)).bind (p.soleHead config snapshot) := by
  have hconcurrent := concurrentWith_namesExactly h hnames
  cases hproposed : prepareCandidate A p.actors p.plan snapshot.heads value with
  | error error =>
    simp [prepareUpdate, updateOffer, hconcurrent, hproposed, Except.mapError, bind, Except.bind]
  | ok proposed =>
    have hsource := (prepareCandidate_source hproposed).1
    have hresolved : resolveHeads A toText (.update snapshot.headVersions) p.plan []
        [proposed] = .ok ⟨[proposed]⟩ := by
      simp [resolveHeads, resolvePreparedConflict]
    have hkept : keepVariants (fun v => p.fresh (.version v)) [] [proposed] =
        { headVersions := [p.fresh (.version 0)]
          newVersions :=
            [activeStoredVersion (p.fresh (.version 0)) proposed.value proposed.crdtFields] } := by
      rw [keepVariants_eq]
      simp [variantHead, variantVersion, hsource]
    simp only [prepareUpdate, updateOffer, hconcurrent, hproposed, Except.mapError, bind, Except.bind,
      ne_eq, not_true_eq_false, and_false, if_false, Offer.addAll, List.foldlM_nil, pure, Except.pure,
      hresolved, hkept]
    rfl

theorem withCurrentVersions_conflicts {error : BackendError} {versions : List String} :
    (withCurrentVersions error versions).Conflicts ↔ error.Conflicts := by
  unfold withCurrentVersions
  split <;> rfl

/-- A record that cannot be made is no conflict. -/
theorem prepared_error {commit : EntityCommit} {entity : EntityVersion} {error : BackendError}
    (h : p.prepared config commit entity = .error error) : ¬ error.Conflicts := by
  rcases Except.bind_eq_error.mp h with hrecord | ⟨record, -, h⟩
  · unfold idempotencyRecord? at hrecord
    split at hrecord
    · cases hrecord
    · rcases Except.bind_eq_error.mp hrecord with hat | ⟨record, -, h⟩
      · unfold idempotencyRecordAt at hat
        split at hat
        · cases hat
          simp [BackendError.Conflicts, invalidRequest, BackendError.new]
        · split at hat <;> cases hat
          simp [BackendError.Conflicts, invalidRequest, BackendError.new]
      · cases h
  · cases h

/-- **An update that names every head is refused** over its bases just if a merge rule refuses under
the fallback `reject`. -/
theorem prepareUpdate_refused_iff (h : snapshot.Complete)
    (hnames : p.plan.NamesExactly snapshot.headVersions) :
    (∃ error, prepareUpdate A toText config p value (some snapshot) = .error error ∧
      error.Conflicts) ↔ p.plan.RefusesFallback A snapshot.heads value := by
  rw [prepareUpdate_namesExactly h hnames, ← prepareCandidate_refused_iff h.heads_ne_nil]
  cases hproposed : prepareCandidate A p.actors p.plan snapshot.heads value with
  | error error =>
    simp only [Except.mapError, Except.bind, Except.error.injEq, exists_eq_left',
      withCurrentVersions_conflicts]
  | ok proposed =>
    refine iff_of_false ?_ fun ⟨error, herror, _⟩ => by cases herror
    rintro ⟨error, herror, hconflicts⟩
    exact prepared_error herror hconflicts

/-- A deletion that names every head is not refused over its bases. -/
theorem prepareDelete_error (h : snapshot.Complete)
    (hnames : p.plan.NamesExactly snapshot.headVersions) {error : BackendError}
    (herror : prepareDelete config p (some snapshot) = .error error) : ¬ error.Conflicts := by
  simp only [prepareDelete, concurrentWith_namesExactly h hnames, bind, Except.bind, ne_eq,
    not_true_eq_false, false_and, if_false] at herror
  exact prepared_error herror

/-- **A mutation that names every head is refused** over its bases just if it is an update that a
merge rule refuses under the fallback `reject`. -/
theorem prepare_refused_iff (h : snapshot.Complete)
    (hnames : p.plan.NamesExactly snapshot.headVersions)
    (hmutation : ∀ entityType id value, p.request.mutation ≠ .create entityType id value) :
    (∃ error, prepare A toText config p (some snapshot) = .error error ∧ error.Conflicts) ↔
      ∃ entityRef value, p.request.mutation = .update entityRef value ∧
        p.plan.RefusesFallback A snapshot.heads value := by
  unfold prepare
  split
  · exact absurd ‹_› (hmutation _ _ _)
  · rename_i entityRef value heq
    rw [prepareUpdate_refused_iff h hnames]
    exact ⟨fun hrefuses => ⟨entityRef, value, heq, hrefuses⟩, fun ⟨_, _, heq', hrefuses⟩ => by
      rw [heq, Mutation.update.injEq] at heq'
      exact heq'.2 ▸ hrefuses⟩
  · rename_i entityRef heq
    refine iff_of_false ?_ fun ⟨_, _, heq', _⟩ => by rw [heq] at heq'; cases heq'
    rintro ⟨error, herror, hconflicts⟩
    exact prepareDelete_error h hnames herror hconflicts

/-- The version is what a mutation asks for. -/
def Preparation.Asks (p : Preparation) (version : StoredEntityVersion) : Prop :=
  match p.request.mutation with
  | .create _ _ value | .update _ value =>
    version.state = .active ∧ version.valueJson = some value
  | .delete _ => version.state = .deleted ∧ version.valueJson = none

/-- **A mutation that names every head** leaves one: its own version, with what it asks for. -/
theorem prepare_namesExactly {prepared : Prepared} (h : snapshot.Complete)
    (hnames : p.plan.NamesExactly snapshot.headVersions)
    (hprepare : prepare A toText config p (some snapshot) = .ok prepared) :
    prepared.commit.headVersions = [p.fresh (.version 0)] ∧
      ∃ version, prepared.commit.newVersions = [version] ∧
        version.version = p.fresh (.version 0) ∧ p.Asks version := by
  unfold prepare at hprepare
  split at hprepare
  · cases hprepare
  · rename_i entityRef value hmutation
    rw [prepareUpdate_namesExactly h hnames] at hprepare
    cases hproposed : prepareCandidate A p.actors p.plan snapshot.heads value with
    | error error => simp [hproposed, Except.mapError, Except.bind] at hprepare
    | ok proposed =>
      simp only [hproposed, Except.mapError, Except.bind] at hprepare
      rw [(Preparation.prepared_eq_ok hprepare).1]
      refine ⟨rfl, _, rfl, rfl, ?_⟩
      simp only [Preparation.Asks, hmutation]
      exact ⟨rfl, by rw [← (prepareCandidate_source hproposed).2]; rfl⟩
  · rename_i entityRef hmutation
    simp only [prepareDelete, concurrentWith_namesExactly h hnames, bind, Except.bind, ne_eq,
      not_true_eq_false, false_and, if_false, List.map_nil, List.nil_append] at hprepare
    rw [(Preparation.prepared_eq_ok hprepare).1]
    refine ⟨rfl, _, rfl, rfl, ?_⟩
    simp only [Preparation.Asks, hmutation, and_self]

end Mutations

end Patchouli
