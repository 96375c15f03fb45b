import Patchouli.Sqlite.Documents
import Patchouli.Sqlite.Retrieve

/-!
# Two databases with the same published state

A call outside of any work unit reads what is published and the records of idempotency, and it
writes to these. What units have staged lies in tables of its own or beside the published rows. So
an immediate commit ends alike in two databases that differ in what is staged, and they remain
alike: the changes of documents are shared with staged versions, but a version that hands in its
documents whole is stored and read back the same whatever is there.

## Main definitions

* `Db.SameTables` — the published rows and the tables that only publications write are the same
* `Db.Alike` — and the published versions have the same documents
* `Db.Promised`, `Db.NamesUnstaged` — what a caller promises of a commit

## Main results

* `SameTables.readEntitySnapshot_eq`, `SameTables.retrieveEntities_eq` — reads
* `insertEntityVersions_agrees` — versions are inserted alike
* `Alike.commitEntityInTransaction` — and so is an immediate commit made
-/

namespace Patchouli

namespace Db

variable {A : Automerge} {old mid new : Db} {key : EntityKey}

/-! ### The same tables -/

/-- The published rows of a database, in their order. -/
def publishedRows (db : Db) : List EntityVersionRow := db.versions.filter (·.workUnitJson = none)

/-- The published rows and the tables of publications are the same. -/
structure SameTables (old new : Db) : Prop where
  rows : new.publishedRows = old.publishedRows
  heads : new.heads = old.heads
  headHistory : new.headHistory = old.headHistory
  changes : new.changes = old.changes
  lastCursor : new.lastCursor = old.lastCursor
  changeRetention : new.changeRetention = old.changeRetention
  sessionFrontier : new.sessionFrontier = old.sessionFrontier
  causalFrontier : new.causalFrontier = old.causalFrontier
  scopeFrontier : new.scopeFrontier = old.scopeFrontier
  idempotency : new.idempotency = old.idempotency

theorem mem_publishedRows {db : Db} {row : EntityVersionRow} :
    row ∈ db.publishedRows ↔ row ∈ db.versions ∧ row.workUnitJson = none := by
  simp [publishedRows]

namespace SameTables

theorem refl (db : Db) : SameTables db db := ⟨rfl, rfl, rfl, rfl, rfl, rfl, rfl, rfl, rfl, rfl⟩

theorem symm (h : SameTables old new) : SameTables new old :=
  ⟨h.rows.symm, h.heads.symm, h.headHistory.symm, h.changes.symm, h.lastCursor.symm,
    h.changeRetention.symm, h.sessionFrontier.symm, h.causalFrontier.symm, h.scopeFrontier.symm,
    h.idempotency.symm⟩

theorem trans (h : SameTables old mid) (h' : SameTables mid new) : SameTables old new :=
  ⟨h'.rows.trans h.rows, h'.heads.trans h.heads, h'.headHistory.trans h.headHistory,
    h'.changes.trans h.changes, h'.lastCursor.trans h.lastCursor,
    h'.changeRetention.trans h.changeRetention, h'.sessionFrontier.trans h.sessionFrontier,
    h'.causalFrontier.trans h.causalFrontier, h'.scopeFrontier.trans h.scopeFrontier,
    h'.idempotency.trans h.idempotency⟩

theorem mem_versions (h : SameTables old new) {row : EntityVersionRow}
    (hrow : row.workUnitJson = none) : row ∈ new.versions ↔ row ∈ old.versions := by
  have hmem : row ∈ new.publishedRows ↔ row ∈ old.publishedRows := by rw [h.rows]
  rw [mem_publishedRows, mem_publishedRows] at hmem
  simpa only [hrow, and_true] using hmem

theorem isPublished (h : SameTables old new) {version : String} :
    new.IsPublished key version ↔ old.IsPublished key version := by
  constructor
  · rintro ⟨row, hrow, hkey, hname, hnone⟩
    exact ⟨row, (h.mem_versions hnone).mp hrow, hkey, hname, hnone⟩
  · rintro ⟨row, hrow, hkey, hname, hnone⟩
    exact ⟨row, (h.mem_versions hnone).mpr hrow, hkey, hname, hnone⟩

/-! ### Reads -/

theorem currentScopeCursor_eq (h : SameTables old new) (scope : String) :
    new.currentScopeCursor scope = old.currentScopeCursor scope :=
  currentScopeCursor_congr h.scopeFrontier scope

theorem consistencyObservation_eq (h : SameTables old new) (now : ℕ) (scope : String)
    (consistency : ReadConsistency) (frontier : ℕ) :
    consistencyObservation new now scope consistency frontier =
      consistencyObservation old now scope consistency frontier := by
  unfold consistencyObservation tokenCursor? sessionRequirement
  rw [h.causalFrontier, h.sessionFrontier]

theorem publishedHeads_eq (h : SameTables old new) (key : EntityKey) :
    new.publishedHeads key = old.publishedHeads key := by
  unfold publishedHeads
  rw [h.heads]

theorem advanceReadSessions (h : SameTables old new) (scope : String)
    (consistency : ReadConsistency) (frontier : ℕ) :
    SameTables (old.advanceReadSessions scope consistency frontier)
      (new.advanceReadSessions scope consistency frontier) :=
  { h with
    sessionFrontier := by
      unfold Db.advanceReadSessions
      rw [h.sessionFrontier] }

/-- A snapshot is of published rows, and they read the same fields. -/
theorem readEntitySnapshot_eq (h : SameTables old new) (hold : StagingInv old)
    (hnew : StagingInv new) (hfields : SameFields old new) (key : EntityKey) :
    new.readEntitySnapshot key = old.readEntitySnapshot key := by
  have hpublished : ∀ db : Db, StagingInv db →
      db.versions.filter (fun row => row.key = key ∧ row.publishedCursor.isSome) =
        db.publishedRows.filter (fun row => row.key = key ∧ row.publishedCursor.isSome) := by
    intro db inv
    rw [publishedRows, List.filter_filter]
    refine List.filter_congr fun row hrow => ?_
    cases hunit : row.workUnitJson with
    | none => simp
    | some unit => simp [(inv.staged row hrow unit hunit).1]
  unfold readEntitySnapshot
  rw [h.publishedHeads_eq]
  split
  · rfl
  · congr 2
    unfold snapshotVersions
    rw [hpublished old hold, hpublished new hnew, h.rows]
    refine List.map_congr_left fun row hrow => ?_
    have hmem := List.mem_of_mem_filter ((List.mem_insertionSort _).mp hrow)
    obtain ⟨hmem, hnone⟩ := mem_publishedRows.mp hmem
    unfold storedVersion
    rw [hfields row hmem hnone]

end SameTables

theorem filterMap_publishedRows {β : Type} {db : Db} {f : EntityVersionRow → Option β}
    (h : ∀ row ∈ db.versions, row.workUnitJson ≠ none → f row = none) :
    db.publishedRows.filterMap f = db.versions.filterMap f := by
  rw [publishedRows, List.filterMap_filter]
  refine List.filterMap_congr fun row hrow => ?_
  cases hunit : row.workUnitJson with
  | none => simp
  | some unit => simp [h row hrow (by simp [hunit])]

/-- A row that a unit has staged is not a published head. -/
theorem not_publishedHead {db : Db} (inv : Inv A db) {row : EntityVersionRow}
    (hrow : row ∈ db.versions) (hstaged : row.workUnitJson ≠ none) :
    ¬ db.PublishedHead row.key row.version := by
  intro hhead
  obtain ⟨row', hrow', hkey, hname, hnone⟩ := inv.published.isPublished hhead
  exact hstaged (inv.staging.versionKeys.eq hrow' hrow hkey hname ▸ hnone)

/-- A retrieval is of published heads, as long as they score the same. -/
theorem SameTables.retrieveEntities_eq (h : SameTables old new) (hold : Inv A old)
    (hnew : Inv A new) (hfields : SameFields old new) (search : Search) (query : RetrieveQuery)
    (hscore : ∀ row ∈ old.versions, old.PublishedHead row.key row.version →
      row.key.scopeJson = query.scopeJson →
        textScore search new query.text row = textScore search old query.text row) :
    Db.retrieveEntities search new query = Db.retrieveEntities search old query := by
  have hheads : ∀ key version, new.PublishedHead key version ↔ old.PublishedHead key version := by
    intro key version
    rw [PublishedHead, PublishedHead, h.heads]
  have hmatching :
      matchingVersions search new query (fun key version => new.PublishedHead key version) =
        matchingVersions search old query (fun key version => old.PublishedHead key version) := by
    unfold matchingVersions
    rw [← filterMap_publishedRows, ← filterMap_publishedRows, h.rows]
    · refine List.filterMap_congr fun row hrow => ?_
      cases row.valueJson with
      | none => rfl
      | some value =>
        simp only [decide_eq_true_eq, hheads]
        split
        · rename_i hmatches
          rw [hscore row (mem_publishedRows.mp hrow).1 hmatches.1 hmatches.2.1]
        · rfl
    · intro row hrow hstaged
      cases row.valueJson with
      | none => rfl
      | some value =>
        refine if_neg fun hmatches => not_publishedHead hold hrow hstaged ?_
        exact of_decide_eq_true hmatches.1
    · intro row hrow hstaged
      cases row.valueJson with
      | none => rfl
      | some value =>
        refine if_neg fun hmatches => not_publishedHead hnew hrow hstaged ?_
        exact of_decide_eq_true hmatches.1
  unfold Db.retrieveEntities retrieveCandidates
  simp only [hmatching, h.readEntitySnapshot_eq hold.staging hnew.staging hfields]

/-! ### Statements -/

/-- Without the records of idempotency that are overdue. -/
def forgetOverdue (db : Db) (now : ℕ) : Db :=
  { db with
    idempotency := db.idempotency.filter (now < ·.expiresAtUnixMs)
    unitIdempotency := db.unitIdempotency.filter (now < ·.record.expiresAtUnixMs) }

theorem deleteOverdueIdempotency_eq (db : Db) {now : ℕ} (hnow : now < 2 ^ 63) :
    db.deleteOverdueIdempotency now = .ok (db.forgetOverdue now) :=
  deleteOverdueIdempotency_eq_ok.mpr ⟨hnow, rfl⟩

theorem SameTables.forgetOverdue (h : SameTables old new) (now : ℕ) :
    SameTables (old.forgetOverdue now) (new.forgetOverdue now) :=
  { h with
    idempotency := by
      show List.filter _ new.idempotency = List.filter _ old.idempotency
      rw [h.idempotency] }

/-- What expires with a unit is not published. -/
theorem expireWorkUnit_sameTables (inv : Inv A old) {unit : String} {now : ℕ}
    (hlive : ∃ u ∈ old.workUnits, u.identityJson = unit ∧ u.Live)
    (h : old.expireWorkUnit unit now = .ok new) : SameTables old new := by
  obtain ⟨u, hu, rfl, hlive⟩ := hlive
  have honly := Expiry.onlyExpired inv (.intro hu hlive le_rfl h)
  obtain ⟨hnew, -⟩ := expireWorkUnit_spec h
  have hp := honly.published
  refine ⟨?_, hp.heads, hp.headHistory, hp.changes, hp.lastCursor, hp.changeRetention,
    hp.sessionFrontier, hp.causalFrontier, hp.scopeFrontier, honly.records⟩
  rw [hnew]
  show (old.versions.filter _).filter _ = old.versions.filter _
  rw [List.filter_filter]
  refine List.filter_congr fun row _ => ?_
  cases row.workUnitJson <;> simp

/-- A sweep leaves what is published. -/
theorem Expiries.sameTables (inv : Inv A old) {latest : ℕ} (h : Expiries latest old new) :
    SameTables old new := by
  induction h with
  | refl => exact .refl old
  | tail hbefore hstep ih =>
    obtain ⟨hu, hlive, -, hexpire⟩ := hstep
    exact ih.trans (expireWorkUnit_sameTables (Expiries.keeps inv hbefore).1
      ⟨_, hu, rfl, hlive⟩ hexpire)

end Db

/-! ### Inserting versions -/

/-- A version that hands in its documents whole, with changes that can be stored. -/
structure StoredEntityVersion.Whole (A : Automerge) (v : StoredEntityVersion) : Prop where
  documents : v.HoldsDocuments A
  changes : ∀ f ∈ v.crdtFields, ∀ c ∈ f.changes, c.hash ≠ "" ∧ c.bytes ≠ []

namespace Db

variable {A : Automerge} {db old mid new : Db} {key : EntityKey} {version : String}
  {field : StoredCrdtField}

/-- The changes of a field are stored, if they can be. -/
theorem foldl_insertCrdtChange_has (changes : List StoredCrdtChange) (db : Db)
    (hproper : ∀ c ∈ changes, c.hash ≠ "" ∧ c.bytes ≠ []) :
    ∀ c ∈ changes, (changes.foldl
      (fun db change => db.insertCrdtChange change.hash change.bytes) db).HasChange c.hash := by
  induction changes generalizing db with
  | nil => simp
  | cons change changes ih =>
    rw [List.forall_mem_cons] at hproper ⊢
    rw [List.foldl_cons]
    refine ⟨?_, ih _ hproper.2⟩
    have hfirst : (db.insertCrdtChange change.hash change.bytes).HasChange change.hash := by
      unfold insertCrdtChange
      split
      · rename_i hskip
        exact (hskip.resolve_left hproper.1.1).resolve_left hproper.1.2
      · exact ⟨⟨change.hash, change.bytes⟩, by simp, rfl⟩
    obtain ⟨extra, heq, -⟩ := foldl_insertCrdtChange changes
      (db.insertCrdtChange change.hash change.bytes)
    rw [heq]
    obtain ⟨row, hrow, hhash⟩ := hfirst
    exact ⟨row, List.mem_append_left _ hrow, hhash⟩

/-- The edges of a document can be stored with its changes. -/
theorem foldlM_insertCrdtParent_isOk {changes : List StoredCrdtChange}
    (hstored : ∀ c ∈ changes, db.HasChange c.hash)
    (hclosed : ∀ c ∈ changes, ∀ p ∈ c.parents, ∃ d ∈ changes, d.hash = p) :
    ∃ new, changes.foldlM (fun db change =>
      change.parents.foldlM (fun db parent => db.insertCrdtParent change.hash parent) db) db =
        Except.ok new := by
  have hturn : ∀ db' : Db, db'.crdtChanges = db.crdtChanges → ∀ c ∈ changes, ∀ p ∈ c.parents,
      ∃ new, db'.insertCrdtParent c.hash p = .ok new ∧ new.crdtChanges = db.crdtChanges := by
    intro db' heq c hc p hp
    obtain ⟨d, hd, rfl⟩ := hclosed c hc p hp
    have hhas : ∀ hash, db.HasChange hash → db'.HasChange hash := by
      rintro hash ⟨row, hrow, hhash⟩
      exact ⟨row, heq ▸ hrow, hhash⟩
    unfold insertCrdtParent
    split
    · exact ⟨db', rfl, heq⟩
    · refine ⟨_, Except.bind_eq_ok.mpr ⟨(), require_eq_ok.mpr ?_, rfl⟩, heq⟩
      exact ⟨hhas _ (hstored c hc), hhas _ (hstored d hd)⟩
  obtain ⟨new, hnew, -⟩ := Except.foldlM_isOk (I := fun db' : Db =>
    db'.crdtChanges = db.crdtChanges) (fun db' heq c hc => by
      exact Except.foldlM_isOk (fun db'' heq' p hp => hturn db'' heq' c hc p hp) heq) rfl
  exact ⟨new, hnew⟩

/-- A constraint that both databases meet or violate. -/
theorem require_agrees {holds holds' : Prop} [Decidable holds] [Decidable holds']
    (h : holds ↔ holds') (detail : String) :
    (require holds detail).Agrees (fun _ _ => holds ∧ holds') (require holds' detail) := by
  unfold require
  by_cases hp : holds
  · rw [if_pos hp, if_pos (h.mp hp)]
    exact ⟨hp, h.mp hp⟩
  · rw [if_neg hp, if_neg fun hq => hp (h.mpr hq)]
    rfl

/-- Two databases hold the same heads for the fields of a version. -/
def SameHeads (key : EntityKey) (version : String) (old new : Db) : Prop :=
  ∀ path hash, (⟨key, version, path, hash⟩ : EntityCrdtHeadRow) ∈ new.crdtHeads ↔
    ⟨key, version, path, hash⟩ ∈ old.crdtHeads

/-- **A document is inserted alike**, whatever changes are stored already. -/
theorem insertCrdtField_agrees (hdoc : field.IsDocument A)
    (hproper : ∀ c ∈ field.changes, c.hash ≠ "" ∧ c.bytes ≠ []) (hold : old.HasVersion key version)
    (hnew : new.HasVersion key version) (hheads : SameHeads key version old new) :
    (insertCrdtField key version old field).Agrees (SameHeads key version)
      (insertCrdtField key version new field) := by
  have hparents : ∀ db : Db, db.HasVersion key version → ∃ edged,
      field.changes.foldlM (fun db change => change.parents.foldlM
        (fun db parent => db.insertCrdtParent change.hash parent) db)
        (field.changes.foldl (fun db change => db.insertCrdtChange change.hash change.bytes) db) =
          .ok edged ∧ edged.crdtHeads = db.crdtHeads ∧ edged.HasVersion key version ∧
        ∀ head ∈ field.heads, edged.HasChange head := by
    intro db hhas
    have hstored := foldl_insertCrdtChange_has field.changes db hproper
    obtain ⟨edged, hedged⟩ := foldlM_insertCrdtParent_isOk hstored hdoc.closed
    obtain ⟨extra, heq, -⟩ := foldl_insertCrdtChange field.changes db
    obtain ⟨⟨edges, rfl, -⟩, -⟩ := foldlM_insertCrdtParent hedged
    refine ⟨_, hedged, by rw [heq], ?_, fun head hhead => ?_⟩
    · rw [heq]
      exact hhas
    · obtain ⟨c, hc, rfl⟩ := hdoc.heads head hhead
      exact hstored c hc
  obtain ⟨o, ho, hoHeads, hoHas, hoStored⟩ := hparents old hold
  obtain ⟨n, hn, hnHeads, hnHas, hnStored⟩ := hparents new hnew
  simp only [insertCrdtField]
  refine Except.Agrees.bind (R := fun a b => a = o ∧ b = n)
    (by rw [ho, hn]; exact ⟨rfl, rfl⟩) ?_
  rintro _ _ - - ⟨rfl, rfl⟩
  refine Except.Agrees.mono (R := fun o n => SameHeads key version o n ∧ o.HasVersion key version ∧
    n.HasVersion key version ∧ ∀ head ∈ field.heads, o.HasChange head ∧ n.HasChange head)
    (Except.Agrees.foldlM ?_ ?_) fun _ _ _ _ h => h.1
  · refine ⟨fun path hash => ?_, hoHas, hnHas, fun head hhead =>
      ⟨hoStored head hhead, hnStored head hhead⟩⟩
    rw [hoHeads, hnHeads]
    exact hheads path hash
  · rintro o n ⟨hsame, hoHas, hnHas, hstored⟩ head hhead
    unfold insertCrdtHead
    refine Except.Agrees.bind (require_agrees Iff.rfl _) fun _ _ _ _ _ => ?_
    refine Except.Agrees.bind (require_agrees (not_congr (hsame field.path head).symm) _)
      fun _ _ _ _ _ => ?_
    refine Except.Agrees.bind (require_agrees
      (iff_of_true ⟨hoHas, (hstored head hhead).1⟩ ⟨hnHas, (hstored head hhead).2⟩) _)
      fun _ _ _ _ _ => ?_
    refine ⟨fun path hash => ?_, hoHas, hnHas, hstored⟩
    simp only [List.mem_append, hsame path hash]

theorem SameTables.insertRow (h : SameTables old new) (row : EntityVersionRow) :
    SameTables { old with versions := old.versions ++ [row] }
      { new with versions := new.versions ++ [row] } :=
  { h with
    rows := by
      show List.filter _ (new.versions ++ [row]) = List.filter _ (old.versions ++ [row])
      rw [List.filter_append, List.filter_append]
      exact congrArg (· ++ _) h.rows }

/-- Two databases in which a version is inserted. -/
structure InsertsAlike (A : Automerge) (old new : Db) : Prop where
  tables : SameTables old new
  old : CrdtInv A old
  new : CrdtInv A new

/-- **A version is inserted alike**, where its name is free in both databases or in neither. -/
theorem insertEntityVersion_agrees (hlaw : A.Lawful) (h : InsertsAlike A old new)
    {v : StoredEntityVersion} (hwhole : v.Whole A)
    (hname : old.HasVersion key v.version ↔ new.HasVersion key v.version) (recordedAt : ℕ) :
    (insertEntityVersion key none recordedAt old v).Agrees
      (fun o n => InsertsAlike A o n ∧
        o.versions = old.versions ++ [insertedRow key none recordedAt v] ∧
        n.versions = new.versions ++ [insertedRow key none recordedAt v])
      (insertEntityVersion key none recordedAt new v) := by
  unfold insertEntityVersion insertVersion
  refine Except.Agrees.bind (R := fun o n =>
    o = { old with versions := old.versions ++ [insertedRow key none recordedAt v] } ∧
    n = { new with versions := new.versions ++ [insertedRow key none recordedAt v] } ∧
    ¬ old.HasVersion key v.version ∧ ¬ new.HasVersion key v.version) ?_ ?_
  · refine Except.Agrees.bind (require_agrees Iff.rfl _) fun _ _ _ _ _ => ?_
    refine Except.Agrees.bind (require_agrees Iff.rfl _) fun _ _ _ _ _ => ?_
    refine Except.Agrees.bind (require_agrees (not_congr hname) _) fun _ _ _ _ hfresh => ?_
    refine Except.Agrees.bind (require_agrees (iff_of_true (by simp) (by simp)) _)
      fun _ _ _ _ _ => ?_
    exact ⟨rfl, rfl, hfresh⟩
  · rintro o n - - ⟨rfl, rfl, hold, hnew⟩
    refine Except.Agrees.mono (R := fun o n => (InsertsAlike A o n ∧
        o.versions = old.versions ++ [insertedRow key none recordedAt v] ∧
        n.versions = new.versions ++ [insertedRow key none recordedAt v]) ∧
        SameHeads key v.version o n)
      (Except.Agrees.foldlM ?_ ?_) fun _ _ _ _ h => h.1
    · refine ⟨⟨⟨h.tables.insertRow _, h.old.of_versions _ fun row hrow =>
        List.mem_append_left _ hrow, h.new.of_versions _ fun row hrow =>
        List.mem_append_left _ hrow⟩, rfl, rfl⟩, fun path hash => iff_of_false ?_ ?_⟩
      · exact fun hmem => hnew (h.new.heads _ hmem).1
      · exact fun hmem => hold (h.old.heads _ hmem).1
    · rintro o n ⟨⟨hinserts, ho, hn⟩, hsame⟩ field hfield
      have hdoc := hwhole.documents.documents field hfield
      have hhas : ∀ (db : Db) versions,
          db.versions = versions ++ [insertedRow key none recordedAt v] →
          db.HasVersion key v.version := fun db versions heq =>
        ⟨insertedRow key none recordedAt v, by rw [heq]; simp, rfl, rfl⟩
      refine (insertCrdtField_agrees hdoc (hwhole.changes field hfield) (hhas o _ ho)
        (hhas n _ hn) hsame).mono fun o' n' ho' hn' hsame' => ⟨?_, hsame'⟩
      obtain ⟨⟨_, _, _, rfl⟩, hoInv, -⟩ :=
        insertCrdtField_grows hlaw hinserts.old hdoc.genuine ho'
      obtain ⟨⟨_, _, _, rfl⟩, hnInv, -⟩ :=
        insertCrdtField_grows hlaw hinserts.new hdoc.genuine hn'
      exact ⟨⟨{ hinserts.tables with }, hoInv, hnInv⟩, ho, hn⟩

theorem hasVersion_append {rows : List EntityVersionRow} {row : EntityVersionRow}
    (h : new.versions = rows ++ [row]) (key : EntityKey) (version : String) :
    new.HasVersion key version ↔
      (∃ r ∈ rows, r.key = key ∧ r.version = version) ∨ row.key = key ∧ row.version = version := by
  unfold HasVersion
  rw [h]
  simp only [List.mem_append, List.mem_singleton, or_and_right, exists_or, exists_eq_left]

theorem insertEntityVersions_agrees (hlaw : A.Lawful) (h : InsertsAlike A old new)
    {versions : List StoredEntityVersion} (hwhole : ∀ v ∈ versions, v.Whole A)
    (hnames : ∀ v ∈ versions, old.HasVersion key v.version ↔ new.HasVersion key v.version)
    (recordedAt : ℕ) :
    (old.insertEntityVersions key versions none recordedAt).Agrees
      (fun o n => InsertsAlike A o n ∧
        o.versions = old.versions ++ versions.map (insertedRow key none recordedAt) ∧
        n.versions = new.versions ++ versions.map (insertedRow key none recordedAt))
      (new.insertEntityVersions key versions none recordedAt) := by
  unfold insertEntityVersions
  induction versions generalizing old new with
  | nil => exact ⟨h, by simp, by simp⟩
  | cons v versions ih =>
    rw [List.forall_mem_cons] at hwhole hnames
    rw [List.foldlM_cons, List.foldlM_cons]
    refine (insertEntityVersion_agrees hlaw h hwhole.1 hnames.1 recordedAt).bind ?_
    rintro o n - - ⟨hinserts, ho, hn⟩
    refine (ih hinserts hwhole.2 fun v' hv' => ?_).mono fun o' n' _ _ hrest => ?_
    · rw [hasVersion_append ho, hasVersion_append hn]
      exact or_congr_left (hnames.2 v' hv')
    · obtain ⟨hinserts', ho', hn'⟩ := hrest
      exact ⟨hinserts', by simp [ho', ho], by simp [hn', hn]⟩

/-- What is inserted reads what was handed in, and all others read what they did. -/
theorem insertEntityVersions_reads (hlaw : A.Lawful) (inv : DocumentsInv A old)
    {versions : List StoredEntityVersion} (hdocs : ∀ v ∈ versions, v.HoldsDocuments A)
    {unit : Option String} {recordedAt : ℕ}
    (h : old.insertEntityVersions key versions unit recordedAt = .ok new) :
    (∀ v ∈ versions, SameDocuments (new.readCrdtFields key v.version) v.crdtFields) ∧
    ∀ k v, old.HasVersion k v → new.readCrdtFields k v = old.readCrdtFields k v := by
  unfold insertEntityVersions at h
  induction versions generalizing old with
  | nil =>
    simp only [List.foldlM_nil, Except.pure_eq_ok, Except.ok.injEq] at h
    subst h
    simp
  | cons v versions ih =>
    rw [List.forall_mem_cons] at hdocs ⊢
    obtain ⟨mid, hmid, hrest⟩ := Except.foldlM_cons_eq_ok.mp h
    obtain ⟨hinv, hnames, hread, hkept⟩ := readCrdtFields_insertEntityVersion hlaw inv hdocs.1 hmid
    obtain ⟨hall, hkept'⟩ := ih hinv hdocs.2 hrest
    have hhas : ∀ k n, (k, n) ∈ old.versionNames ++ [(key, v.version)] → mid.HasVersion k n :=
      fun k n hmem => mem_versionNames.mp (hnames ▸ hmem)
    refine ⟨⟨?_, hall⟩, fun k n hold => ?_⟩
    · rw [hkept' _ _ (hhas _ _ (by simp))]
      exact hread
    · rw [hkept' k n (hhas k n (List.mem_append_left _ (mem_versionNames.mpr hold))),
        hkept k n hold]

/-! ### Alike -/

/-- What is published is the same, and it reads the same documents. -/
structure Alike (old new : Db) : Prop where
  tables : SameTables old new
  documents : ∀ row ∈ old.versions, row.workUnitJson = none →
    SameDocuments (new.readCrdtFields row.key row.version)
      (old.readCrdtFields row.key row.version)

namespace Alike

theorem of_sameFields (h : SameTables old new) (hfields : SameFields old new) : Alike old new :=
  ⟨h, fun row hrow hnone => sameDocuments_of_eq (hfields row hrow hnone)⟩

theorem refl (db : Db) : Alike db db := of_sameFields (.refl db) fun _ _ _ => rfl

/-- The versions that are inserted read alike too. -/
theorem insertEntityVersions (hlaw : A.Lawful) (h : Alike old new) (hold : DocumentsInv A old)
    (hnew : DocumentsInv A new) {versions : List StoredEntityVersion}
    (hwhole : ∀ v ∈ versions, v.Whole A)
    (hnames : ∀ v ∈ versions, old.HasVersion key v.version ↔ new.HasVersion key v.version)
    (recordedAt : ℕ) :
    (old.insertEntityVersions key versions none recordedAt).Agrees
      (fun o n => Alike o n ∧
        o.versions = old.versions ++ versions.map (insertedRow key none recordedAt) ∧
        n.versions = new.versions ++ versions.map (insertedRow key none recordedAt))
      (new.insertEntityVersions key versions none recordedAt) := by
  refine (insertEntityVersions_agrees hlaw ⟨h.tables, hold.crdt, hnew.crdt⟩ hwhole hnames
    recordedAt).mono ?_
  rintro o n ho hn ⟨hinserts, hov, hnv⟩
  refine ⟨⟨hinserts.tables, fun row hrow hnone => ?_⟩, hov, hnv⟩
  have hdocs := fun v hv => (hwhole v hv).documents
  obtain ⟨hoRead, hoKept⟩ := insertEntityVersions_reads hlaw hold hdocs ho
  obtain ⟨hnRead, hnKept⟩ := insertEntityVersions_reads hlaw hnew hdocs hn
  rw [hov] at hrow
  rcases List.mem_append.mp hrow with hrow | hrow
  · have hrow' := (h.tables.mem_versions hnone).mpr hrow
    rw [hoKept _ _ ⟨row, hrow, rfl, rfl⟩, hnKept _ _ ⟨row, hrow', rfl, rfl⟩]
    exact h.documents row hrow hnone
  · obtain ⟨v, hv, rfl⟩ := List.mem_map.mp hrow
    exact (hnRead v hv).common (hoRead v hv)

end Alike

/-! ### An immediate commit -/

/-- What a caller promises of a commit: it is well formed, and its versions are whole. -/
structure Promised (A : Automerge) (commit : EntityCommit) : Prop where
  formed : commit.WellFormed A
  whole : ∀ v ∈ commit.newVersions, v.Whole A

/-- The names a commit draws for its versions are not those of staged versions. -/
def NamesUnstaged (commit : EntityCommit) (db : Db) : Prop :=
  ∀ v ∈ commit.newVersions, ∀ row ∈ db.versions, row.key = commit.key →
    row.version = v.version → row.workUnitJson = none

theorem NamesUnstaged.isPublished {commit : EntityCommit} (h : NamesUnstaged commit db)
    {v : StoredEntityVersion} (hv : v ∈ commit.newVersions) :
    db.HasVersion commit.key v.version ↔ db.IsPublished commit.key v.version := by
  constructor
  · rintro ⟨row, hrow, hkey, hname⟩
    exact ⟨row, hrow, hkey, hname, h v hv row hrow hkey hname⟩
  · rintro ⟨row, hrow, hkey, hname, -⟩
    exact ⟨row, hrow, hkey, hname⟩

/-- A map that leaves the units of rows alone commutes with the choice of the published ones. -/
theorem SameTables.mapRows (h : SameTables old new) {f : EntityVersionRow → EntityVersionRow}
    (hf : ∀ row, (f row).workUnitJson = row.workUnitJson) :
    (new.versions.map f).filter (·.workUnitJson = none) =
      (old.versions.map f).filter (·.workUnitJson = none) := by
  have hcomm : ∀ db : Db, (db.versions.map f).filter (·.workUnitJson = none) =
      db.publishedRows.map f := by
    intro db
    rw [publishedRows, List.filter_map]
    refine congrArg _ (List.filter_congr fun row _ => ?_)
    simp [hf]
  rw [hcomm, hcomm, h.rows]

theorem Alike.replacePublishedHeads (h : Alike old new) {heads : List String}
    (hhas : ∀ version ∈ heads, old.HasVersion key version ↔ new.HasVersion key version) :
    (old.replacePublishedHeads key heads).Agrees Alike (new.replacePublishedHeads key heads) := by
  have ht := h.tables
  unfold Db.replacePublishedHeads
  refine Except.Agrees.bind (R := fun a b => a = b ∧ ∀ version ∈ a, version ∈ heads)
    (Except.Agrees.rfl_of fun a ha => ⟨rfl, fun version hv => ?_⟩) ?_
  · rw [(uniqueHeads_eq_ok.mp ha).2.2] at hv
    exact Table.mem_sorted.mp hv
  · rintro unique _ - - ⟨rfl, hmem⟩
    refine Except.Agrees.bind (require_agrees ?_ _) fun _ _ _ _ _ => ?_
    · exact forall₂_congr fun version hv => hhas version (hmem version hv)
    · refine ⟨{ ht with heads := ?_ }, h.documents⟩
      show List.filter _ new.heads ++ _ = List.filter _ old.heads ++ _
      rw [ht.heads]

theorem Alike.insertChange (h : Alike old new) (kind : StoredChangeKind) (heads : List String)
    (causalToken : String) (eventMeta : Meta) (recordedAt : ℕ) :
    (old.insertChange key kind heads causalToken eventMeta recordedAt).Agrees
      (fun o n => o.1 = n.1 ∧ Alike o.2 n.2)
      (new.insertChange key kind heads causalToken eventMeta recordedAt) := by
  have ht := h.tables
  unfold Db.insertChange
  refine Except.Agrees.bind (require_agrees Iff.rfl _) fun _ _ _ _ _ => ?_
  refine Except.Agrees.bind (require_agrees (by rw [ht.changes, ht.causalFrontier]) _)
    fun _ _ _ _ _ => ?_
  dsimp only
  rw [ht.changes, ht.lastCursor, ht.headHistory, ht.causalFrontier, ht.scopeFrontier]
  exact ⟨rfl, { ht with
    changes := rfl, lastCursor := rfl, headHistory := rfl, causalFrontier := rfl
    scopeFrontier := rfl }, h.documents⟩

theorem Alike.advanceWriteSessions (h : Alike old new) (scope : String) (keys : List String)
    (cursor : ℕ) : Alike (old.advanceWriteSessions scope keys cursor)
      (new.advanceWriteSessions scope keys cursor) := by
  refine ⟨{ h.tables with sessionFrontier := ?_ }, h.documents⟩
  unfold Db.advanceWriteSessions
  rw [h.tables.sessionFrontier]

theorem Alike.publishEntityVersions (h : Alike old new) (versions : List StoredEntityVersion)
    (cursor : ℕ) : Alike (old.publishEntityVersions key versions cursor)
      (new.publishEntityVersions key versions cursor) := by
  refine ⟨{ h.tables with rows := h.tables.mapRows fun row => ?_ }, fun row hrow hnone => ?_⟩
  · split <;> rfl
  · obtain ⟨row', hrow', rfl⟩ := List.mem_map.mp hrow
    by_cases hnamed : row'.key = key ∧ row'.version ∈ versions.map (·.version)
    · rw [if_pos hnamed] at hnone ⊢
      exact h.documents row' hrow' hnone
    · rw [if_neg hnamed] at hnone ⊢
      exact h.documents row' hrow' hnone

/-- **An immediate commit**, in two databases that are alike. -/
theorem Alike.commitEntityInTransaction (hlaw : A.Lawful) (h : Alike old new) (hold : Inv A old)
    (hnew : Inv A new) {commit : EntityCommit} (hpromised : Promised A commit)
    (holdNames : NamesUnstaged commit old) (hnewNames : NamesUnstaged commit new) :
    (old.commitEntityInTransaction commit).Agrees (fun o n => o.1 = n.1 ∧ Alike o.2 n.2)
      (new.commitEntityInTransaction commit) := by
  have ht := h.tables
  unfold Db.commitEntityInTransaction
  dsimp only
  rw [ht.publishedHeads_eq]
  split
  · exact ⟨rfl, h⟩
  · rename_i hheads
    rw [ne_eq, not_not] at hheads
    refine Except.Agrees.bind (R := Eq) (Except.Agrees.rfl_of fun _ _ => rfl) ?_
    rintro recordedAt _ - - rfl
    refine (h.insertEntityVersions hlaw ⟨hold.crdt, hold.staging.versionKeys⟩
      ⟨hnew.crdt, hnew.staging.versionKeys⟩ hpromised.whole (fun v hv => ?_) recordedAt).bind ?_
    · rw [holdNames.isPublished hv, hnewNames.isPublished hv, ht.isPublished]
    rintro o n - - ⟨halike, ho, hn⟩
    -- a head is new, or it is one of the published heads
    have hboth : ∀ version ∈ commit.headVersions,
        o.HasVersion commit.key version ∧ n.HasVersion commit.key version := by
      intro version hversion
      rcases hpromised.formed.heads version hversion with hmem | hmem
      · obtain ⟨v, hv, rfl⟩ := List.mem_map.mp hmem
        have hrow := List.mem_map_of_mem (f := insertedRow commit.key none recordedAt) hv
        exact ⟨⟨_, ho ▸ List.mem_append_right _ hrow, rfl, rfl⟩,
          ⟨_, hn ▸ List.mem_append_right _ hrow, rfl, rfl⟩⟩
      · rw [← Table.mem_sorted, ← hheads, mem_publishedHeads] at hmem
        obtain ⟨row, hrow, hkey, hname, hnone⟩ := hold.published.isPublished hmem
        have hrow' := (ht.mem_versions hnone).mpr hrow
        exact ⟨⟨row, ho ▸ List.mem_append_left _ hrow, hkey, hname⟩,
          ⟨row, hn ▸ List.mem_append_left _ hrow', hkey, hname⟩⟩
    refine (halike.replacePublishedHeads fun version hversion =>
      iff_of_true (hboth version hversion).1 (hboth version hversion).2).bind ?_
    rintro o n - - halike
    refine (halike.insertChange _ _ _ _ _).bind ?_
    rintro ⟨cursor, o⟩ ⟨_, n⟩ - - ⟨rfl, halike⟩
    exact ⟨rfl, (halike.advanceWriteSessions _ _ _).publishEntityVersions _ _⟩

end Db

end Patchouli
