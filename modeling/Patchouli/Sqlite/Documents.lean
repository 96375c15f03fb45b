import Patchouli.Sqlite.Operation

/-!
# What a version reads back

A version hands in its documents whole, with every change they consist of. The store keeps none of
them whole: changes go into one table that all versions share, under their hashes, and of the
document a version keeps the heads. Reading walks from the heads along the edges and takes whatever
it meets. So the same change may have come in with other versions, of other entities, scopes or
units, and these may be gone since; what is read must not depend on it.

The store is compared with one that shares nothing and holds a private copy of every version. A
`Journal` is a run of write statements together with these copies: an insertion adds one, the
expiry of a unit drops those whose versions it deleted, nothing else touches them. In every state
of such a run each version reads as its copy, and every run of the provider is one.

That rests on two facts about changes. A hash belongs to one change, so a change that was already
stored is the one that is handed in; and a field holds the ancestors of its heads, all of them and
nothing else, so the walk finds what was handed in.

## Main definitions

* `StoredCrdtField.IsDocument` — the changes of a field are the ancestors of its heads
* `SameDocuments` — the same paths, heads and changes
* `Db.Journal` — a run of statements and the private copies

## Main results

* `Db.readCrdtFields_insertEntityVersion` — a version reads what was inserted with it
* `Db.Journal.reads` — in every state every version reads as its copy
* `crdt_storage_loses_nothing` — for the runs of the provider
-/

namespace Patchouli

/-! ### Documents -/

/-- The same change: parents are a set. -/
structure StoredCrdtChange.Same (c d : StoredCrdtChange) : Prop where
  hash : c.hash = d.hash
  parents : ∀ p, p ∈ c.parents ↔ p ∈ d.parents
  bytes : c.bytes = d.bytes

/-- The same document: heads and changes are sets. -/
structure StoredCrdtField.Same (f g : StoredCrdtField) : Prop where
  path : f.path = g.path
  heads : ∀ h, h ∈ f.heads ↔ h ∈ g.heads
  subset : ∀ c ∈ f.changes, ∃ d ∈ g.changes, c.Same d
  superset : ∀ d ∈ g.changes, ∃ c ∈ f.changes, c.Same d

/-- The same fields, each once. -/
structure SameDocuments (read inserted : List StoredCrdtField) : Prop where
  once : (read.map (·.path)).Nodup
  subset : ∀ f ∈ read, ∃ g ∈ inserted, f.Same g
  superset : ∀ g ∈ inserted, ∃ f ∈ read, f.Same g

theorem StoredCrdtChange.Same.trans {c d e : StoredCrdtChange} (h : c.Same d) (h' : d.Same e) :
    c.Same e :=
  ⟨h.hash.trans h'.hash, fun p => (h.parents p).trans (h'.parents p), h.bytes.trans h'.bytes⟩

theorem StoredCrdtChange.Same.symm {c d : StoredCrdtChange} (h : c.Same d) : d.Same c :=
  ⟨h.hash.symm, fun p => (h.parents p).symm, h.bytes.symm⟩

theorem StoredCrdtField.Same.symm {f g : StoredCrdtField} (h : f.Same g) : g.Same f := by
  refine ⟨h.path.symm, fun x => (h.heads x).symm, fun d hd => ?_, fun c hc => ?_⟩
  · obtain ⟨c, hc, hsame⟩ := h.superset d hd
    exact ⟨c, hc, hsame.symm⟩
  · obtain ⟨d, hd, hsame⟩ := h.subset c hc
    exact ⟨d, hd, hsame.symm⟩

theorem StoredCrdtField.Same.trans {f g k : StoredCrdtField} (h : f.Same g) (h' : g.Same k) :
    f.Same k := by
  refine ⟨h.path.trans h'.path, fun x => (h.heads x).trans (h'.heads x), fun c hc => ?_,
    fun e he => ?_⟩
  · obtain ⟨d, hd, hcd⟩ := h.subset c hc
    obtain ⟨e, he, hde⟩ := h'.subset d hd
    exact ⟨e, he, hcd.trans hde⟩
  · obtain ⟨d, hd, hde⟩ := h'.superset e he
    obtain ⟨c, hc, hcd⟩ := h.superset d hd
    exact ⟨c, hc, hcd.trans hde⟩

/-- Two readings of the same documents are the same. -/
theorem SameDocuments.common {read read' inserted : List StoredCrdtField}
    (h : SameDocuments read inserted) (h' : SameDocuments read' inserted) :
    SameDocuments read read' := by
  refine ⟨h.once, fun f hf => ?_, fun f' hf' => ?_⟩
  · obtain ⟨g, hg, hsame⟩ := h.subset f hf
    obtain ⟨f', hf', hsame'⟩ := h'.superset g hg
    exact ⟨f', hf', hsame.trans hsame'.symm⟩
  · obtain ⟨g, hg, hsame'⟩ := h'.subset f' hf'
    obtain ⟨f, hf, hsame⟩ := h.superset g hg
    exact ⟨f, hf, hsame.trans hsame'.symm⟩

/-- A step from a change of a field to one of its parents. -/
def StoredCrdtField.ParentOf (field : StoredCrdtField) (a b : String) : Prop :=
  ∃ c ∈ field.changes, c.hash = a ∧ b ∈ c.parents

/-- A field is a document: its changes are what their bytes say, and they are the ancestors of its
heads, of which there is at least one. -/
structure StoredCrdtField.IsDocument (A : Automerge) (field : StoredCrdtField) : Prop where
  genuine : ∀ c ∈ field.changes, Genuine A c
  proper : ∀ c ∈ field.changes, c.hash ∉ c.parents
  headed : field.heads ≠ []
  heads : ∀ h ∈ field.heads, ∃ c ∈ field.changes, c.hash = h
  closed : ∀ c ∈ field.changes, ∀ p ∈ c.parents, ∃ d ∈ field.changes, d.hash = p
  reached : ∀ c ∈ field.changes, ∃ h ∈ field.heads, Relation.ReflTransGen field.ParentOf h c.hash

/-- The fields of a version are documents, one for a path. -/
structure StoredEntityVersion.HoldsDocuments (A : Automerge) (version : StoredEntityVersion) :
    Prop where
  paths : (version.crdtFields.map (·.path)).Nodup
  documents : ∀ f ∈ version.crdtFields, f.IsDocument A

namespace Db

variable {A : Automerge} {db old new : Db} {key : EntityKey} {version : String}
  {field : StoredCrdtField}

theorem mem_changeParents {hash p : String} :
    p ∈ db.changeParents hash ↔ (hash, p) ∈ db.crdtParents := by
  simp only [changeParents, Table.mem_sorted, List.mem_map, List.mem_filter, decide_eq_true_eq,
    Prod.exists]
  constructor
  · rintro ⟨a, b, ⟨hmem, rfl⟩, rfl⟩
    exact hmem
  · exact fun hmem => ⟨hash, p, ⟨hmem, rfl⟩, rfl⟩

theorem mem_changesFrom {heads : List String} {change : StoredCrdtChange} :
    change ∈ db.changesFrom heads ↔ ∃ row ∈ db.crdtChanges,
      row.changeHash ∈ Closure.reach db.crdtParents heads ∧
        change = ⟨row.changeHash, db.changeParents row.changeHash, row.changeBytes⟩ := by
  simp only [changesFrom, List.mem_map, List.mem_insertionSort, List.mem_filter,
    decide_eq_true_eq]
  constructor
  · rintro ⟨row, ⟨hrow, hreach⟩, rfl⟩
    exact ⟨row, hrow, hreach, rfl⟩
  · rintro ⟨row, hrow, hreach, rfl⟩
    exact ⟨row, ⟨hrow, hreach⟩, rfl⟩

/-! ### Reading a stored document -/

/-- A change that is stored under a genuine change's hash is that change. -/
theorem CrdtInv.same (hlaw : A.Lawful) (inv : CrdtInv A db) {change : StoredCrdtChange}
    (hgenuine : Genuine A change) (hproper : change.hash ∉ change.parents)
    {row : CrdtChangeRow} (hrow : row ∈ db.crdtChanges) (hhash : row.changeHash = change.hash) :
    row.changeBytes = change.bytes ∧
      ∀ p, (change.hash, p) ∈ db.crdtParents ↔ p ∈ change.parents := by
  obtain ⟨deps, hdecode, hedges⟩ := inv.determined row hrow
  obtain ⟨deps', hdecode', hparents⟩ := hgenuine
  rw [hhash] at hdecode hedges
  have hbytes := hlaw.hash_injective hdecode hdecode'
  rw [hbytes, hdecode', Option.some.injEq, Prod.mk.injEq] at hdecode
  refine ⟨hbytes, fun p => ?_⟩
  rw [hedges p, ← hdecode.2, hparents p]
  exact ⟨And.left, fun hp => ⟨hp, fun heq => hproper (heq ▸ hp)⟩⟩

/-- The walk from the heads of a stored document finds its changes. -/
theorem mem_reach_document (hlaw : A.Lawful) (inv : CrdtInv A db) (hdoc : field.IsDocument A)
    (hstored : ∀ c ∈ field.changes, db.HasChange c.hash) {heads : List String}
    (hheads : ∀ h, h ∈ heads ↔ h ∈ field.heads) {x : String} :
    x ∈ Closure.reach db.crdtParents heads ↔ ∃ c ∈ field.changes, c.hash = x := by
  have hedge : ∀ c ∈ field.changes, ∀ p, (c.hash, p) ∈ db.crdtParents ↔ p ∈ c.parents := by
    intro c hc
    obtain ⟨row, hrow, hhash⟩ := hstored c hc
    exact (inv.same hlaw (hdoc.genuine c hc) (hdoc.proper c hc) hrow hhash).2
  rw [Closure.mem_reach_iff]
  constructor
  · rintro ⟨h, hh, hpath⟩
    induction hpath with
    | refl => exact hdoc.heads h ((hheads h).mp hh)
    | tail _ hstep ih =>
      obtain ⟨c, hc, rfl⟩ := ih
      exact hdoc.closed c hc _ ((hedge c hc _).mp hstep)
  · rintro ⟨c, hc, rfl⟩
    obtain ⟨h, hh, hpath⟩ := hdoc.reached c hc
    refine ⟨h, (hheads h).mpr hh, hpath.lift id fun a b hstep => ?_⟩
    obtain ⟨d, hd, rfl, hb⟩ := hstep
    exact (hedge d hd b).mpr hb

/-- **A stored document is read back**, from its heads. -/
theorem changesFrom_document (hlaw : A.Lawful) (inv : CrdtInv A db) (hdoc : field.IsDocument A)
    (hstored : ∀ c ∈ field.changes, db.HasChange c.hash) {heads : List String}
    (hheads : ∀ h, h ∈ heads ↔ h ∈ field.heads) (path : String) (hpath : path = field.path) :
    StoredCrdtField.Same ⟨path, heads, db.changesFrom heads⟩ field := by
  have hreads : ∀ row ∈ db.crdtChanges, ∀ c ∈ field.changes, row.changeHash = c.hash →
      StoredCrdtChange.Same
        ⟨row.changeHash, db.changeParents row.changeHash, row.changeBytes⟩ c := by
    intro row hrow c hc hhash
    obtain ⟨hbytes, hedges⟩ := inv.same hlaw (hdoc.genuine c hc) (hdoc.proper c hc) hrow hhash
    exact ⟨hhash, fun p => by rw [hhash, mem_changeParents]; exact hedges p, hbytes⟩
  refine ⟨hpath, hheads, fun change hchange => ?_, fun c hc => ?_⟩
  · obtain ⟨row, hrow, hreach, rfl⟩ := mem_changesFrom.mp hchange
    obtain ⟨c, hc, hhash⟩ := (mem_reach_document hlaw inv hdoc hstored hheads).mp hreach
    exact ⟨c, hc, hreads row hrow c hc hhash.symm⟩
  · obtain ⟨row, hrow, hhash⟩ := hstored c hc
    refine ⟨_, mem_changesFrom.mpr ⟨row, hrow, ?_, rfl⟩, hreads row hrow c hc hhash⟩
    exact (mem_reach_document hlaw inv hdoc hstored hheads).mpr ⟨c, hc, hhash.symm⟩

/-! ### Inserting a document -/

/-- The heads of a field are appended. -/
theorem foldlM_insertCrdtHead_eq {path : String} {heads : List String}
    (h : heads.foldlM (fun db head => db.insertCrdtHead ⟨key, version, path, head⟩) old =
      Except.ok new) :
    new = { old with
        crdtHeads := old.crdtHeads ++ heads.map fun head => ⟨key, version, path, head⟩ } ∧
      ∀ head ∈ heads, old.HasChange head := by
  induction heads generalizing old with
  | nil =>
    simp only [List.foldlM_nil, Except.pure_eq_ok, Except.ok.injEq] at h
    exact ⟨by simp [h], by simp⟩
  | cons head heads ih =>
    obtain ⟨next, hnext, hrest⟩ := Except.foldlM_cons_eq_ok.mp h
    simp only [insertCrdtHead, Except.bind_eq_ok, require_eq_ok, Except.pure_eq_ok,
      Except.ok.injEq] at hnext
    obtain ⟨_, -, _, -, _, ⟨-, hstored⟩, rfl⟩ := hnext
    obtain ⟨rfl, hall⟩ := ih hrest
    refine ⟨by simp, ?_⟩
    rw [List.forall_mem_cons]
    exact ⟨hstored, hall⟩

/-- After its insertion a document is stored. -/
theorem insertCrdtField_stores (hlaw : A.Lawful) (inv : CrdtInv A old) (hdoc : field.IsDocument A)
    (h : insertCrdtField key version old field = .ok new) :
    new.crdtHeads = old.crdtHeads ++
        field.heads.map (fun head => ⟨key, version, field.path, head⟩) ∧
      ∀ c ∈ field.changes, new.HasChange c.hash := by
  obtain ⟨-, inv', -⟩ := insertCrdtField_grows hlaw inv hdoc.genuine h
  obtain ⟨changes, hchanges, -⟩ := foldl_insertCrdtChange field.changes old
  simp only [insertCrdtField, hchanges] at h
  obtain ⟨mid, hparents, hinsert⟩ := Except.bind_eq_ok.mp h
  obtain ⟨⟨edges, rfl, -⟩, hcomplete⟩ := foldlM_insertCrdtParent hparents
  obtain ⟨rfl, hstored⟩ := foldlM_insertCrdtHead_eq hinsert
  refine ⟨rfl, fun c hc => ?_⟩
  -- a change is a head or the parent of a change
  obtain ⟨head, hhead, hpath⟩ := hdoc.reached c hc
  rcases Relation.ReflTransGen.cases_tail hpath with heq | ⟨_, -, d, hd, rfl, hparent⟩
  · exact heq ▸ hstored head hhead
  · rcases hcomplete d hd c.hash hparent with heq | hmem
    · exact absurd hparent (heq ▸ hdoc.proper d hd)
    · exact (inv'.edges _ hmem).2

/-- After their insertion all fields of a version are stored. -/
theorem foldlM_insertCrdtField_stores (hlaw : A.Lawful) (inv : CrdtInv A old)
    {fields : List StoredCrdtField} (hdocs : ∀ f ∈ fields, f.IsDocument A)
    (h : fields.foldlM (insertCrdtField key version) old = .ok new) :
    new.crdtHeads = old.crdtHeads ++
        fields.flatMap (fun f => f.heads.map fun head => ⟨key, version, f.path, head⟩) ∧
      ∀ f ∈ fields, ∀ c ∈ f.changes, new.HasChange c.hash := by
  induction fields generalizing old with
  | nil =>
    simp only [List.foldlM_nil, Except.pure_eq_ok, Except.ok.injEq] at h
    exact ⟨by simp [h], by simp⟩
  | cons f fields ih =>
    rw [List.forall_mem_cons] at hdocs
    obtain ⟨next, hnext, hrest⟩ := Except.foldlM_cons_eq_ok.mp h
    obtain ⟨hheads, hstored⟩ := insertCrdtField_stores hlaw inv hdocs.1 hnext
    obtain ⟨-, inv', -⟩ := insertCrdtField_grows hlaw inv hdocs.1.genuine hnext
    obtain ⟨-, -, hgrows⟩ :=
      foldlM_insertCrdtField hlaw inv' (fun g hg => (hdocs.2 g hg).genuine) hrest
    obtain ⟨hheads', hstored'⟩ := ih inv' hdocs.2 hrest
    refine ⟨by simp [hheads', hheads], ?_⟩
    rw [List.forall_mem_cons]
    exact ⟨fun c hc => hgrows.hasChange (hstored c hc), hstored'⟩

/-- The heads of a version are those of its fields. -/
def HeadsOf (db : Db) (key : EntityKey) (version : String) (fields : List StoredCrdtField) : Prop :=
  ∀ path hash, (⟨key, version, path, hash⟩ : EntityCrdtHeadRow) ∈ db.crdtHeads ↔
    ∃ f ∈ fields, f.path = path ∧ hash ∈ f.heads

/-- A field is read once. -/
theorem readCrdtFields_once (db : Db) (key : EntityKey) (version : String) :
    ((db.readCrdtFields key version).map (·.path)).Nodup := by
  have hmap : (db.readCrdtFields key version).map (·.path) = db.crdtFieldPaths key version := by
    rw [readCrdtFields, List.map_map]
    exact List.map_id _
  rw [hmap]
  exact (Table.sorted_perm _).nodup_iff.mpr (List.nodup_dedup _)

/-- What is read alike is the same. -/
theorem sameDocuments_of_eq (h : new.readCrdtFields key version = old.readCrdtFields key version) :
    SameDocuments (new.readCrdtFields key version) (old.readCrdtFields key version) := by
  have hself : ∀ f : StoredCrdtField, f.Same f := fun f =>
    ⟨rfl, fun _ => Iff.rfl, fun c hc => ⟨c, hc, rfl, fun _ => Iff.rfl, rfl⟩,
      fun c hc => ⟨c, hc, rfl, fun _ => Iff.rfl, rfl⟩⟩
  rw [h]
  exact ⟨readCrdtFields_once old key version, fun f hf => ⟨f, hf, hself f⟩,
    fun f hf => ⟨f, hf, hself f⟩⟩

/-- **A version with documents reads them.** -/
theorem readCrdtFields_of_headsOf (hlaw : A.Lawful) (inv : CrdtInv A db)
    {inserted : StoredEntityVersion} (hdocs : inserted.HoldsDocuments A)
    (hheads : db.HeadsOf key version inserted.crdtFields)
    (hstored : ∀ f ∈ inserted.crdtFields, ∀ c ∈ f.changes, db.HasChange c.hash) :
    SameDocuments (db.readCrdtFields key version) inserted.crdtFields := by
  have hfieldHeads : ∀ f ∈ inserted.crdtFields, ∀ h,
      h ∈ db.crdtFieldHeads key version f.path ↔ h ∈ f.heads := by
    intro f hf h
    have hmem : h ∈ db.crdtFieldHeads key version f.path ↔
        (⟨key, version, f.path, h⟩ : EntityCrdtHeadRow) ∈ db.crdtHeads := by
      simp only [crdtFieldHeads, Table.mem_sorted, List.mem_map, List.mem_filter,
        decide_eq_true_eq]
      constructor
      · rintro ⟨row, ⟨hrow, rfl, rfl, hpath⟩, rfl⟩
        exact hpath ▸ hrow
      · exact fun hrow => ⟨_, ⟨hrow, rfl, rfl, rfl⟩, rfl⟩
    rw [hmem, hheads f.path h]
    constructor
    · rintro ⟨g, hg, hpath, hh⟩
      have : g = f := Table.eq_of_key_eq (·.path) hdocs.paths hg hf hpath
      exact this ▸ hh
    · exact fun hh => ⟨f, hf, rfl, hh⟩
  have hread : ∀ f ∈ inserted.crdtFields, StoredCrdtField.Same
      ⟨f.path, db.crdtFieldHeads key version f.path,
        db.changesFrom (db.crdtFieldHeads key version f.path)⟩ f :=
    fun f hf => changesFrom_document hlaw inv (hdocs.documents f hf) (hstored f hf)
      (hfieldHeads f hf) f.path rfl
  have hpaths : ∀ path, path ∈ db.crdtFieldPaths key version ↔
      ∃ f ∈ inserted.crdtFields, f.path = path := by
    intro path
    simp only [crdtFieldPaths, Table.mem_sorted, List.mem_dedup, List.mem_map, List.mem_filter,
      decide_eq_true_eq]
    constructor
    · rintro ⟨⟨k, v, p, hash⟩, ⟨hrow, rfl, rfl⟩, rfl⟩
      obtain ⟨f, hf, hpath, -⟩ := (hheads _ _).mp hrow
      exact ⟨f, hf, hpath⟩
    · rintro ⟨f, hf, rfl⟩
      obtain ⟨head, hhead⟩ := List.exists_mem_of_ne_nil _ (hdocs.documents f hf).headed
      exact ⟨_, ⟨(hheads f.path head).mpr ⟨f, hf, rfl, hhead⟩, rfl, rfl⟩, rfl⟩
  refine ⟨readCrdtFields_once db key version, fun read hmem => ?_, fun f hf => ?_⟩
  · obtain ⟨path, hpath, rfl⟩ := List.mem_map.mp hmem
    obtain ⟨f, hf, rfl⟩ := (hpaths path).mp hpath
    exact ⟨f, hf, hread f hf⟩
  · exact ⟨_, List.mem_map_of_mem ((hpaths f.path).mpr ⟨f, hf, rfl⟩), hread f hf⟩

/-! ### What statements do -/

/-- The names of the stored versions. -/
def versionNames (db : Db) : List (EntityKey × String) :=
  db.versions.map fun row => (row.key, row.version)

theorem mem_versionNames {key : EntityKey} {version : String} :
    (key, version) ∈ db.versionNames ↔ db.HasVersion key version := by
  simp [versionNames, HasVersion]

/-- The changes are what they say, and every version has a name of its own. -/
structure DocumentsInv (A : Automerge) (db : Db) : Prop where
  crdt : CrdtInv A db
  names : db.versionNames.Nodup

theorem DocumentsInv.empty (A : Automerge) : DocumentsInv A Db.empty :=
  ⟨⟨by simp [Db.empty], by simp [Db.empty], by simp [Db.empty]⟩, by simp [versionNames, Db.empty]⟩

/-- **A version reads what was inserted with it**, and all others read what they did. -/
theorem readCrdtFields_insertEntityVersion (hlaw : A.Lawful) (inv : DocumentsInv A old)
    {inserted : StoredEntityVersion} (hdocs : inserted.HoldsDocuments A) {unit : Option String}
    {recordedAt : ℕ} (h : insertEntityVersion key unit recordedAt old inserted = .ok new) :
    DocumentsInv A new ∧ new.versionNames = old.versionNames ++ [(key, inserted.version)] ∧
    SameDocuments (new.readCrdtFields key inserted.version) inserted.crdtFields ∧
    ∀ k v, old.HasVersion k v → new.readCrdtFields k v = old.readCrdtFields k v := by
  obtain ⟨mid, hmid, hfields⟩ := Except.bind_eq_ok.mp h
  simp only [insertVersion, Except.bind_eq_ok, require_eq_ok, Except.pure_eq_ok,
    Except.ok.injEq] at hmid
  obtain ⟨_, -, _, -, _, hfresh, _, -, rfl⟩ := hmid
  have hmid : CrdtInv A { old with
      versions := old.versions ++ [insertedRow key unit recordedAt inserted] } :=
    inv.crdt.of_versions _ fun row hrow => List.mem_append_left _ hrow
  have hgenuine : ∀ f ∈ inserted.crdtFields, ∀ c ∈ f.changes, Genuine A c :=
    fun f hf => (hdocs.documents f hf).genuine
  obtain ⟨hheads, hstored⟩ := foldlM_insertCrdtField_stores hlaw hmid hdocs.documents hfields
  obtain ⟨⟨_, _, _, rfl⟩, hnew, hgrows⟩ := foldlM_insertCrdtField hlaw hmid hgenuine hfields
  have hnames : List.map (fun row : EntityVersionRow => (row.key, row.version))
      (old.versions ++ [insertedRow key unit recordedAt inserted]) =
        old.versionNames ++ [(key, inserted.version)] := List.map_append
  have hnodup : (old.versionNames ++ [(key, inserted.version)]).Nodup := by
    refine List.nodup_append'.mpr
      ⟨inv.names, List.nodup_singleton _, fun name hmem heq => hfresh ?_⟩
    rw [List.mem_singleton.mp heq] at hmem
    exact mem_versionNames.mp hmem
  refine ⟨⟨hnew, (congrArg List.Nodup hnames).mpr hnodup⟩, hnames,
    readCrdtFields_of_headsOf hlaw hnew hdocs (fun path hash => ?_) hstored, fun k v hold => ?_⟩
  · dsimp only at hheads
    simp only [hheads, List.mem_append, List.mem_flatMap, List.mem_map, EntityCrdtHeadRow.mk.injEq,
      true_and]
    constructor
    · rintro (hold | ⟨f, hf, head, hhead, rfl, rfl⟩)
      · exact absurd (inv.crdt.heads _ hold).1 hfresh
      · exact ⟨f, hf, rfl, hhead⟩
    · rintro ⟨f, hf, rfl, hhead⟩
      exact Or.inr ⟨f, hf, hash, hhead, rfl, rfl⟩
  · rw [readCrdtFields_of_grows hmid hgrows fun hsame => hfresh (hsame.1 ▸ hsame.2 ▸ hold)]
    rfl

/-- **An expiry deletes versions; the others read what they did.** -/
theorem readCrdtFields_expireWorkUnit (inv : DocumentsInv A old) {unit : String} {now : ℕ}
    (h : old.expireWorkUnit unit now = .ok new) :
    DocumentsInv A new ∧
    new.versionNames = old.versionNames.filter (fun name => ¬ old.StagedBy unit name.1 name.2) ∧
    ∀ k v, new.HasVersion k v → new.readCrdtFields k v = old.readCrdtFields k v := by
  obtain ⟨rfl, -⟩ := expireWorkUnit_spec h
  have hkeys : VersionKeys old := inv.names
  -- the row of a name says by whom it is staged
  have hstaged : ∀ row ∈ old.versions, old.StagedBy unit row.key row.version ↔
      row.workUnitJson = some unit := by
    intro row hrow
    constructor
    · rintro ⟨r, hr, hown, hkey, hname⟩
      exact hkeys.eq hr hrow hkey hname ▸ hown
    · exact fun hown => ⟨row, hrow, hown, rfl, rfl⟩
  refine ⟨⟨CrdtInv.collect (inv.crdt.shrink (fun head hhead => ?_) rfl rfl rfl rfl),
    inv.names.sublist (List.filter_sublist.map _)⟩, ?_, fun k v hhas => ?_⟩
  · rw [List.mem_filter, decide_eq_true_eq] at hhead
    obtain ⟨row, hrow, hkey, hname⟩ := (inv.crdt.heads head hhead.1).1
    refine ⟨hhead.1, row, List.mem_filter.mpr ⟨hrow, ?_⟩, hkey, hname⟩
    rw [decide_eq_true_eq, ne_eq, ← hstaged row hrow, hkey, hname]
    exact hhead.2
  · rw [versionNames, versionNames, List.filter_map]
    refine congrArg _ (List.filter_congr fun row hrow => ?_)
    simp [hstaged row hrow]
  · obtain ⟨row, hrow, rfl, rfl⟩ := hhas
    obtain ⟨hrow, hkept⟩ := List.mem_filter.mp hrow
    rw [decide_eq_true_eq, ne_eq, ← hstaged row hrow] at hkept
    rw [readCrdtFields_collectChanges]
    apply readCrdtFields_congr
    · rfl
    · rfl
    rw [List.filter_filter]
    refine List.filter_congr fun head _ => ?_
    by_cases hmem : head.key = row.key ∧ head.version = row.version
    · simp [hmem, hkept]
    · simp [hmem]

/-- The same versions, with the same heads, over the same changes. -/
structure SameStore (old new : Db) : Prop where
  versions : new.versionNames = old.versionNames
  changes : new.crdtChanges = old.crdtChanges
  parents : new.crdtParents = old.crdtParents
  heads : new.crdtHeads = old.crdtHeads

theorem readCrdtFields_sameStore (inv : DocumentsInv A old) (h : SameStore old new) :
    DocumentsInv A new ∧ ∀ k v, new.readCrdtFields k v = old.readCrdtFields k v := by
  refine ⟨⟨inv.crdt.congr (fun k v hold => ?_) h.changes h.parents h.heads,
    h.versions ▸ inv.names⟩, fun k v => ?_⟩
  · rw [← mem_versionNames] at hold ⊢
    exact h.versions ▸ hold
  · exact readCrdtFields_congr h.changes h.parents (by rw [h.heads])

/-! ### The journal -/

/-- **A run of write statements, and a private copy of every version**: what was inserted since
and was not deleted, as it was handed in. -/
inductive Journal (given : EntityKey → StoredEntityVersion → Prop) :
    List (EntityKey × StoredEntityVersion) → Db → Prop
  | empty : Journal given [] Db.empty
  | insert {copies : List (EntityKey × StoredEntityVersion)} {db new : Db} {key : EntityKey}
      {version : StoredEntityVersion} {unit : Option String} {recordedAt : ℕ}
      (h : Journal given copies db) (hgiven : given key version)
      (hinsert : insertEntityVersion key unit recordedAt db version = .ok new) :
      Journal given (copies ++ [(key, version)]) new
  | expire {copies : List (EntityKey × StoredEntityVersion)} {db new : Db} {unit : String} {now : ℕ}
      (h : Journal given copies db) (hexpire : db.expireWorkUnit unit now = .ok new) :
      Journal given (copies.filter fun copy => new.HasVersion copy.1 copy.2.version) new
  | other {copies : List (EntityKey × StoredEntityVersion)} {db new : Db}
      (h : Journal given copies db) (hsame : SameStore db new) : Journal given copies new

/-- The store holds the versions of which there are copies, and each reads as its copy. -/
structure Reads (A : Automerge) (copies : List (EntityKey × StoredEntityVersion)) (db : Db) :
    Prop where
  inv : DocumentsInv A db
  names : copies.map (fun copy => (copy.1, copy.2.version)) = db.versionNames
  documents : ∀ copy ∈ copies,
    SameDocuments (db.readCrdtFields copy.1 copy.2.version) copy.2.crdtFields

namespace Reads

variable {copies : List (EntityKey × StoredEntityVersion)}

theorem hasVersion (h : Reads A copies db) {copy : EntityKey × StoredEntityVersion}
    (hcopy : copy ∈ copies) : db.HasVersion copy.1 copy.2.version := by
  rw [← mem_versionNames, ← h.names]
  exact List.mem_map_of_mem hcopy

theorem insert (hlaw : A.Lawful) (h : Reads A copies old) {inserted : StoredEntityVersion}
    (hdocs : inserted.HoldsDocuments A) {unit : Option String} {recordedAt : ℕ}
    (hinsert : insertEntityVersion key unit recordedAt old inserted = .ok new) :
    Reads A (copies ++ [(key, inserted)]) new := by
  obtain ⟨inv, hnames, hnew, hothers⟩ :=
    readCrdtFields_insertEntityVersion hlaw h.inv hdocs hinsert
  refine ⟨inv, by simp [hnames, h.names], fun copy hcopy => ?_⟩
  rcases List.mem_append.mp hcopy with hold | hlast
  · rw [hothers _ _ (h.hasVersion hold)]
    exact h.documents copy hold
  · rw [List.mem_singleton.mp hlast]
    exact hnew

theorem expire (h : Reads A copies old) {unit : String} {now : ℕ}
    (hexpire : old.expireWorkUnit unit now = .ok new) :
    Reads A (copies.filter fun copy => new.HasVersion copy.1 copy.2.version) new := by
  obtain ⟨inv, hnames, hreads⟩ := readCrdtFields_expireWorkUnit h.inv hexpire
  refine ⟨inv, ?_, fun copy hcopy => ?_⟩
  · have hcopies : copies.filter (fun copy => decide (new.HasVersion copy.1 copy.2.version)) =
        copies.filter ((fun name => decide (name ∈ new.versionNames)) ∘
          fun copy => (copy.1, copy.2.version)) := by
      simp [Function.comp_def, mem_versionNames]
    rw [hcopies, ← List.filter_map, h.names, hnames]
    refine List.filter_congr fun name hname => ?_
    simp [List.mem_filter, hname]
  · rw [List.mem_filter, decide_eq_true_eq] at hcopy
    rw [hreads _ _ hcopy.2]
    exact h.documents copy hcopy.1

theorem other (h : Reads A copies old) (hsame : SameStore old new) : Reads A copies new := by
  obtain ⟨inv, hreads⟩ := readCrdtFields_sameStore h.inv hsame
  refine ⟨inv, h.names.trans hsame.versions.symm, fun copy hcopy => ?_⟩
  rw [hreads]
  exact h.documents copy hcopy

end Reads

/-- **In every state every version reads as its copy.** -/
theorem Journal.reads (hlaw : A.Lawful) {given : EntityKey → StoredEntityVersion → Prop}
    (hgiven : ∀ key version, given key version → version.HoldsDocuments A)
    {copies : List (EntityKey × StoredEntityVersion)} (h : Journal given copies db) :
    Reads A copies db := by
  induction h with
  | empty => exact ⟨DocumentsInv.empty A, rfl, by simp⟩
  | insert _ hversion hinsert ih => exact ih.insert hlaw (hgiven _ _ hversion) hinsert
  | expire _ hexpire ih => exact ih.expire hexpire
  | other _ hsame ih => exact ih.other hsame

end Db

/-! ### Every run -/

section Runs

open Db

variable {A : Automerge} {given : EntityKey → StoredEntityVersion → Prop}

/-- Of the write statements only insertions and expiries matter to the store of documents. -/
theorem keptByStatements_of_store {I : Db → Prop}
    (hinsert : ∀ db new key version unit recordedAt, I db → given key version →
      insertEntityVersion key unit recordedAt db version = .ok new → I new)
    (hexpire : ∀ db new unit now, I db → db.expireWorkUnit unit now = .ok new → I new)
    (hother : ∀ db new, I db → SameStore db new → I new) :
    KeptByStatements given (fun _ => True) I where
  ordinary _ _ := trivial
  publication _ _ := trivial
  insertEntityVersions db hI key versions unit recordedAt hgiven :=
    Except.Meets.foldlM hI fun db hI version hversion =>
      .of_forall (fun _ => trivial) fun new h =>
        hinsert db new key version unit recordedAt hI (hgiven version hversion) h
  replacePublishedHeads db hI key heads := .of_forall (fun _ => trivial) fun new h => by
    obtain ⟨-, -, -, rfl⟩ := replacePublishedHeads_eq_ok.mp h
    exact hother db _ hI ⟨rfl, rfl, rfl, rfl⟩
  replaceWorkUnitHeads db hI unit key heads := .of_forall (fun _ => trivial) fun new h => by
    obtain ⟨-, -, -, -, rfl⟩ := replaceWorkUnitHeads_eq_ok.mp h
    exact hother db _ hI ⟨rfl, rfl, rfl, rfl⟩
  insertChange db hI _ _ _ _ _ _ := .of_forall (fun _ => trivial) fun r h => by
    obtain ⟨-, heq⟩ := insertChange_eq_ok h
    rw [heq]
    exact hother db _ hI ⟨rfl, rfl, rfl, rfl⟩
  advanceWriteSessions db hI _ _ _ := hother db _ hI ⟨rfl, rfl, rfl, rfl⟩
  advanceReadSessions db hI _ _ _ := hother db _ hI ⟨rfl, rfl, rfl, rfl⟩
  publishEntityVersions db hI key versions cursor := hother db _ hI ⟨by
    simp only [versionNames, Db.publishEntityVersions, List.map_map]
    exact List.map_congr_left fun row _ => by dsimp only [Function.comp]; split <;> rfl,
    rfl, rfl, rfl⟩
  publishWorkUnitVersions db hI unit key cursor := hother db _ hI ⟨by
    simp only [versionNames, Db.publishWorkUnitVersions, List.map_map]
    exact List.map_congr_left fun row _ => by dsimp only [Function.comp]; split <;> rfl,
    rfl, rfl, rfl⟩
  openWorkUnit db hI _ _ _ _ := hother db _ hI ⟨rfl, rfl, rfl, rfl⟩
  captureWorkUnitEntity db hI unit key := .of_forall (fun _ => trivial) fun new h => by
    obtain ⟨_, _, rfl⟩ := captureWorkUnitEntity_eq h
    exact hother db _ hI ⟨rfl, rfl, rfl, rfl⟩
  recordStagedMutation db hI _ := hother db _ hI ⟨rfl, rfl, rfl, rfl⟩
  markClosing db hI _ := hother db _ hI ⟨rfl, rfl, rfl, rfl⟩
  markCommitted db hI _ _ := hother db _ hI ⟨rfl, rfl, rfl, rfl⟩
  expireWorkUnit db hI identity now :=
    .of_forall (fun _ => trivial) fun new h => hexpire db new identity now hI h
  publishUnitIdempotency db hI unit recordedAt := .of_forall (fun _ => trivial) fun new h => by
    obtain ⟨rfl, -⟩ := publishUnitIdempotency_spec h
    exact hother db _ hI ⟨rfl, rfl, rfl, rfl⟩
  deleteOverdueIdempotency db hI now := .of_forall (fun _ => trivial) fun new h => by
    obtain ⟨-, rfl⟩ := deleteOverdueIdempotency_eq_ok.mp h
    exact hother db _ hI ⟨rfl, rfl, rfl, rfl⟩
  insertIdempotency db hI record _ _ := .of_forall (fun _ => trivial) fun new h => by
    obtain rfl := insertIdempotency_eq h
    exact hother db _ hI ⟨rfl, rfl, rfl, rfl⟩
  insertWorkUnitIdempotency db hI unit record _ _ := .of_forall (fun _ => trivial) fun new h => by
    obtain rfl := insertWorkUnitIdempotency_eq h
    exact hother db _ hI ⟨rfl, rfl, rfl, rfl⟩
  recordRetention db hI _ := hother db _ hI ⟨rfl, rfl, rfl, rfl⟩
  deleteOverdueChanges db hI _ := hother db _ hI ⟨rfl, rfl, rfl, rfl⟩

/-- A run of the provider is a run of write statements. -/
theorem journal_kept (given : EntityKey → StoredEntityVersion → Prop) :
    KeptByStatements given (fun _ => True) fun db => ∃ copies, Journal given copies db :=
  keptByStatements_of_store
    (fun _ _ _ _ _ _ ⟨_, h⟩ hgiven hinsert => ⟨_, h.insert hgiven hinsert⟩)
    (fun _ _ _ _ ⟨_, h⟩ hexpire => ⟨_, h.expire hexpire⟩)
    (fun _ _ ⟨_, h⟩ hsame => ⟨_, h.other hsame⟩)

/-- What is asked of the versions of an operation may be asked in two parts. -/
theorem Operation.Carries.and {P Q : EntityKey → StoredEntityVersion → Prop} {α : Type}
    {op : Operation α} (hP : op.Carries P) (hQ : op.Carries Q) :
    op.Carries fun key version => P key version ∧ Q key version := by
  cases op with
  | commitEntity | commitEntityIdempotent | commitEntityInWorkUnit =>
    exact fun v hv => ⟨hP v hv, hQ v hv⟩
  | publishWorkUnit => exact fun r hr v hv => ⟨hP r hr v hv, hQ r hr v hv⟩
  | _ => trivial

/-- Statements that do not insert a version leave its documents alone. -/
theorem readCrdtFields_kept (hlaw : A.Lawful)
    (hgiven : ∀ key version, given key version → version.HoldsDocuments A) {key : EntityKey}
    {name : String} {fields : List StoredCrdtField} :
    KeptByStatements (fun k v => given k v ∧ ¬ (k = key ∧ v.version = name)) (fun _ => True)
      fun db => DocumentsInv A db ∧
        (db.HasVersion key name → db.readCrdtFields key name = fields) := by
  refine keptByStatements_of_store ?_ ?_ ?_
  · rintro db new k version unit recordedAt ⟨inv, hread⟩ ⟨hversion, hne⟩ hinsert
    obtain ⟨inv', hnames, -, hothers⟩ :=
      readCrdtFields_insertEntityVersion hlaw inv (hgiven _ _ hversion) hinsert
    refine ⟨inv', fun hhas => ?_⟩
    rw [← mem_versionNames, hnames] at hhas
    rcases List.mem_append.mp hhas with hold | hlast
    · rw [hothers _ _ (mem_versionNames.mp hold)]
      exact hread (mem_versionNames.mp hold)
    · rw [List.mem_singleton, Prod.mk.injEq] at hlast
      exact absurd ⟨hlast.1.symm, hlast.2.symm⟩ hne
  · rintro db new unit now ⟨inv, hread⟩ hexpire
    obtain ⟨inv', hnames, hothers⟩ := readCrdtFields_expireWorkUnit inv hexpire
    refine ⟨inv', fun hhas => ?_⟩
    rw [hothers _ _ hhas]
    rw [← mem_versionNames, hnames] at hhas
    exact hread (mem_versionNames.mp (List.mem_filter.mp hhas).1)
  · rintro db new ⟨inv, hread⟩ hsame
    obtain ⟨inv', hothers⟩ := readCrdtFields_sameStore inv hsame
    refine ⟨inv', fun hhas => ?_⟩
    rw [← mem_versionNames, hsame.versions] at hhas
    rw [hothers]
    exact hread (mem_versionNames.mp hhas)

/-- **CRDT storage loses nothing.** Write statements may run in any order: every version that is
stored reads the fields that were handed in with it. The states of a provider are ends of such runs,
and an operation that does not insert a version leaves what it reads as it was. -/
theorem crdt_storage_loses_nothing (hlaw : A.Lawful)
    (hgiven : ∀ key version, given key version → version.HoldsDocuments A) :
    (∀ copies db, Journal given copies db →
      copies.map (fun copy => (copy.1, copy.2.version)) = db.versionNames ∧
      ∀ copy ∈ copies,
        SameDocuments (db.readCrdtFields copy.1 copy.2.version) copy.2.crdtFields) ∧
    ∀ search db, Operation.Reaches search given db →
      (∃ copies, Journal given copies db) ∧
      ∀ (clock : Clock) {α : Type} (op : Operation α) key name,
        op.Carries given → op.Carries (fun k v => ¬ (k = key ∧ v.version = name)) →
        (op.call search db clock).db.HasVersion key name → db.HasVersion key name →
          (op.call search db clock).db.readCrdtFields key name = db.readCrdtFields key name := by
  refine ⟨fun copies db h => ?_, fun search db h => ?_⟩
  · have hreads := h.reads hlaw hgiven
    exact ⟨hreads.names, hreads.documents⟩
  · obtain ⟨copies, hjournal⟩ := h.kept (journal_kept given) ⟨[], .empty⟩
    refine ⟨⟨copies, hjournal⟩, fun clock α op key name hcarries hother hnew hold => ?_⟩
    exact (op.keeps (readCrdtFields_kept hlaw hgiven)
      ⟨(hjournal.reads hlaw hgiven).inv, fun _ => rfl⟩ search clock (hcarries.and hother)).2.2 hnew

/-- A library with one change. -/
def oneChange : Automerge where
  decode bytes := if bytes = [1] then some ("c", []) else none
  hydrate _ := .null
  reconcile _ changes _ := changes

theorem oneChange_lawful : oneChange.Lawful := by
  refine ⟨fun {bytes bytes' _ _ _} h h' => ?_, id⟩
  simp only [oneChange, Option.ite_none_right_eq_some] at h h'
  rw [h.1, h'.1]

/-- A note whose text is the document of that change. -/
def documentedNote : StoredEntityVersion where
  version := "v"
  state := .active
  valueJson := some .null
  crdtFields := [{ path := "/text", heads := ["c"], changes := [⟨"c", [], [1]⟩] }]

theorem documentedNote_holdsDocuments : documentedNote.HoldsDocuments oneChange := by
  refine ⟨by decide, ?_⟩
  simp only [documentedNote, List.mem_singleton, forall_eq]
  refine ⟨?_, ?_, ?_, ?_, ?_, ?_⟩
  · simp [Genuine, oneChange]
  · simp
  · simp
  · simp
  · simp
  · simpa using Relation.ReflTransGen.refl

/-- A document is stored and read back. -/
theorem one_document_is_read_back :
    ∃ new, insertEntityVersion ⟨"scope", "note", "n"⟩ none 5 Db.empty documentedNote = .ok new ∧
      SameDocuments (new.readCrdtFields ⟨"scope", "note", "n"⟩ "v") documentedNote.crdtFields := by
  have hgiven : ∀ (_ : EntityKey) version, version = documentedNote →
      version.HoldsDocuments oneChange := fun _ _ h => h ▸ documentedNote_holdsDocuments
  have hinsert : ∃ new, insertEntityVersion ⟨"scope", "note", "n"⟩ none 5 Db.empty documentedNote =
      .ok new := ⟨_, rfl⟩
  obtain ⟨new, hnew⟩ := hinsert
  have hreads := (crdt_storage_loses_nothing oneChange_lawful hgiven).1 _ new
    (.insert .empty rfl hnew)
  exact ⟨new, hnew, hreads.2 (⟨"scope", "note", "n"⟩, documentedNote) (by simp)⟩

end Runs

end Patchouli
