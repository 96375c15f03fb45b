import Patchouli.Sqlite.WorkUnit
import Patchouli.Backend.Crdt

/-!
# The stored CRDT changes

Changes are stored once and shared by every version that needs them; a version keeps the heads of
its fields, and reads back what is reachable from them along the edges. So what a version reads can
be disturbed in two ways only: an edge out of a change it already had, or the collection of a
change it still needs.

Neither happens. A change is identified by its hash, and its edges are in its bytes, so a change
that is inserted again brings no new edge (`insertCrdtField_grows`); and the collection keeps what
is reachable from any head (`readCrdtFields_collectChanges`).

## Main definitions

* `Db.CrdtInv` — the edges of a stored change are those in its bytes

## Main results

* `readCrdtFields_of_grows`, `readCrdtFields_collectChanges` — a version reads the same fields
-/

namespace Patchouli

namespace Db

variable {A : Automerge} {db old new mid : Db} {key : EntityKey} {version : String}

/-! ### The invariant -/

/-- Edges and heads refer to stored changes, heads to stored versions, and the edges out of a
change are the ones in its bytes. -/
structure CrdtInv (A : Automerge) (db : Db) : Prop where
  edges : ∀ e ∈ db.crdtParents, db.HasChange e.1 ∧ db.HasChange e.2
  determined : ∀ row ∈ db.crdtChanges, ∃ deps,
    A.decode row.changeBytes = some (row.changeHash, deps) ∧
      ∀ p, (row.changeHash, p) ∈ db.crdtParents ↔ p ∈ deps ∧ p ≠ row.changeHash
  heads : ∀ h ∈ db.crdtHeads, db.HasVersion h.key h.version ∧ db.HasChange h.changeHash

/-- The tables grow: new changes have new hashes, new edges leave new changes, new heads belong to
versions that satisfy `added`. -/
structure CrdtGrows (old new : Db) (added : EntityKey → String → Prop) : Prop where
  changes : ∃ extra, new.crdtChanges = old.crdtChanges ++ extra ∧
    ∀ row ∈ extra, ¬ old.HasChange row.changeHash
  parents : ∃ extra, new.crdtParents = old.crdtParents ++ extra ∧
    ∀ e ∈ extra, ¬ old.HasChange e.1
  heads : ∃ extra, new.crdtHeads = old.crdtHeads ++ extra ∧
    ∀ row ∈ extra, added row.key row.version

namespace CrdtGrows

variable {added added' : EntityKey → String → Prop}

theorem refl (db : Db) : CrdtGrows db db added :=
  ⟨⟨[], by simp⟩, ⟨[], by simp⟩, ⟨[], by simp⟩⟩

theorem hasChange (h : CrdtGrows old new added) {hash : String} (hold : old.HasChange hash) :
    new.HasChange hash := by
  obtain ⟨row, hrow, rfl⟩ := hold
  obtain ⟨extra, heq, -⟩ := h.changes
  exact ⟨row, heq ▸ List.mem_append_left _ hrow, rfl⟩

theorem trans (h : CrdtGrows old mid added) (h' : CrdtGrows mid new added) :
    CrdtGrows old new added := by
  obtain ⟨c, hc, hcnew⟩ := h.changes
  obtain ⟨c', hc', hcnew'⟩ := h'.changes
  obtain ⟨p, hp, hpnew⟩ := h.parents
  obtain ⟨p', hp', hpnew'⟩ := h'.parents
  obtain ⟨q, hq, hqnew⟩ := h.heads
  obtain ⟨q', hq', hqnew'⟩ := h'.heads
  refine ⟨⟨c ++ c', by rw [hc', hc, List.append_assoc], fun row hrow => ?_⟩,
    ⟨p ++ p', by rw [hp', hp, List.append_assoc], fun e he => ?_⟩,
    ⟨q ++ q', by rw [hq', hq, List.append_assoc], fun row hrow => ?_⟩⟩
  · rcases List.mem_append.mp hrow with hrow | hrow
    · exact hcnew row hrow
    · exact fun hold => hcnew' row hrow (h.hasChange hold)
  · rcases List.mem_append.mp he with he | he
    · exact hpnew e he
    · exact fun hold => hpnew' e he (h.hasChange hold)
  · rcases List.mem_append.mp hrow with hrow | hrow
    · exact hqnew row hrow
    · exact hqnew' row hrow

theorem mono (h : CrdtGrows old new added) (hadded : ∀ k v, added k v → added' k v) :
    CrdtGrows old new added' := by
  obtain ⟨extra, heq, hnew⟩ := h.heads
  exact ⟨h.changes, h.parents, extra, heq, fun row hrow => hadded _ _ (hnew row hrow)⟩

end CrdtGrows

/-! ### Reading -/

theorem reach_hasChange (inv : CrdtInv A db) {heads : List String}
    (hheads : ∀ h ∈ heads, db.HasChange h) {x : String}
    (hx : x ∈ Closure.reach db.crdtParents heads) : db.HasChange x := by
  obtain ⟨s, hs, hpath⟩ := Closure.mem_reach_iff.mp hx
  cases hpath with
  | refl => exact hheads x hs
  | tail _ hedge => exact (inv.edges _ hedge).2

/-- Two stores that agree on the changes reachable from some heads read the same changes. -/
theorem changesFrom_congr {heads : List String}
    (hreach : ∀ x, x ∈ Closure.reach old.crdtParents heads ↔
      x ∈ Closure.reach new.crdtParents heads)
    (hchanges : ∀ P : String → Bool, (∀ x, P x = true → x ∈ Closure.reach old.crdtParents heads) →
      new.crdtChanges.filter (fun row => P row.changeHash) =
        old.crdtChanges.filter (fun row => P row.changeHash))
    (hparents : ∀ x ∈ Closure.reach old.crdtParents heads,
      new.crdtParents.filter (·.1 = x) = old.crdtParents.filter (·.1 = x)) :
    new.changesFrom heads = old.changesFrom heads := by
  have hrows : new.crdtChanges.filter (fun row => row.changeHash ∈ Closure.reach new.crdtParents heads)
      = old.crdtChanges.filter (fun row => row.changeHash ∈ Closure.reach old.crdtParents heads) := by
    have := hchanges (fun x => x ∈ Closure.reach old.crdtParents heads) (by simp)
    simpa only [hreach] using this
  simp only [changesFrom, hrows]
  refine List.map_congr_left fun row hrow => ?_
  have hmem : row.changeHash ∈ Closure.reach old.crdtParents heads := by
    simpa using (List.mem_filter.mp ((List.mem_insertionSort _).mp hrow)).2
  simp only [changeParents, hparents _ hmem]

theorem crdtFieldHeads_hasChange (inv : CrdtInv A db) (path : String) :
    ∀ h ∈ db.crdtFieldHeads key version path, db.HasChange h := by
  intro h hh
  simp only [crdtFieldHeads, Table.mem_sorted, List.mem_map, List.mem_filter] at hh
  obtain ⟨row, ⟨hrow, -⟩, rfl⟩ := hh
  exact (inv.heads row hrow).2

/-- **Insertions do not disturb a version.** -/
theorem readCrdtFields_of_grows (inv : CrdtInv A old) {added : EntityKey → String → Prop}
    (h : CrdtGrows old new added) (hold : ¬ added key version) :
    new.readCrdtFields key version = old.readCrdtFields key version := by
  obtain ⟨changes, hchanges, hchangesNew⟩ := h.changes
  obtain ⟨parents, hparents, hparentsNew⟩ := h.parents
  obtain ⟨heads, hheads, hheadsNew⟩ := h.heads
  have hfilter : ∀ P : EntityCrdtHeadRow → Bool,
      (∀ row, P row = true → row.key = key ∧ row.version = version) →
        new.crdtHeads.filter P = old.crdtHeads.filter P := by
    intro P hP
    have hnil : heads.filter P = [] := by
      rw [List.filter_eq_nil_iff]
      intro row hrow hProw
      obtain ⟨rfl, rfl⟩ := hP row hProw
      exact hold (hheadsNew row hrow)
    rw [hheads, List.filter_append, hnil, List.append_nil]
  have hfieldHeads : ∀ path,
      new.crdtFieldHeads key version path = old.crdtFieldHeads key version path := by
    intro path
    simp only [crdtFieldHeads]
    rw [hfilter _ (by simp +contextual)]
  have hpaths : new.crdtFieldPaths key version = old.crdtFieldPaths key version := by
    simp only [crdtFieldPaths]
    rw [hfilter _ (by simp)]
  simp only [readCrdtFields, hpaths, hfieldHeads]
  refine List.map_congr_left fun path _ => ?_
  have hstored : ∀ h ∈ old.crdtFieldHeads key version path, old.HasChange h :=
    crdtFieldHeads_hasChange inv path
  have hedges : ∀ a ∈ Closure.reach old.crdtParents (old.crdtFieldHeads key version path),
      ∀ b, (a, b) ∈ old.crdtParents ↔ (a, b) ∈ new.crdtParents := by
    intro a ha b
    rw [hparents, List.mem_append]
    refine ⟨Or.inl, fun hmem => hmem.resolve_right fun hextra => ?_⟩
    exact hparentsNew _ hextra (reach_hasChange inv hstored ha)
  rw [changesFrom_congr]
  · exact Closure.reach_congr hedges
  · intro P hP
    have hnil : changes.filter (fun row => P row.changeHash) = [] := by
      rw [List.filter_eq_nil_iff]
      intro row hrow hProw
      exact hchangesNew row hrow (reach_hasChange inv hstored (hP _ hProw))
    rw [hchanges, List.filter_append, hnil, List.append_nil]
  · intro x hx
    have hnil : parents.filter (fun e => decide (e.1 = x)) = [] := by
      rw [List.filter_eq_nil_iff]
      intro e he hex
      simp only [decide_eq_true_eq] at hex
      exact hparentsNew e he (hex ▸ reach_hasChange inv hstored hx)
    rw [hparents, List.filter_append, hnil, List.append_nil]

/-- **Collection does not disturb a version.** -/
theorem readCrdtFields_collectChanges (db : Db) (key : EntityKey) (version : String) :
    db.collectChanges.readCrdtFields key version = db.readCrdtFields key version := by
  have hfieldHeads : ∀ path, db.collectChanges.crdtFieldHeads key version path =
      db.crdtFieldHeads key version path := fun _ => rfl
  have hpaths : db.collectChanges.crdtFieldPaths key version = db.crdtFieldPaths key version := rfl
  simp only [readCrdtFields, hpaths, hfieldHeads]
  refine List.map_congr_left fun path _ => ?_
  have hreachable : ∀ x, x ∈ Closure.reach db.crdtParents (db.crdtFieldHeads key version path) →
      x ∈ db.reachableChanges := by
    intro x hx
    obtain ⟨s, hs, hpath⟩ := Closure.mem_reach_iff.mp hx
    refine Closure.mem_reach_iff.mpr ⟨s, ?_, hpath⟩
    simp only [crdtFieldHeads, Table.mem_sorted, List.mem_map, List.mem_filter] at hs
    obtain ⟨row, ⟨hrow, -⟩, rfl⟩ := hs
    exact List.mem_map_of_mem hrow
  have hkept : ∀ a ∈ db.reachableChanges, ∀ b,
      (a, b) ∈ db.crdtParents ↔ (a, b) ∈ db.collectChanges.crdtParents := by
    intro a ha b
    simp only [collectChanges, List.mem_filter, decide_eq_true_eq]
    exact ⟨fun hab => ⟨hab, ha, Closure.closed_reach _ hab ha⟩, fun hab => hab.1⟩
  rw [changesFrom_congr]
  · exact Closure.reach_congr fun a ha b => hkept a (hreachable a ha) b
  · intro P hP
    simp only [collectChanges, List.filter_filter]
    refine List.filter_congr fun row _ => ?_
    cases hProw : P row.changeHash with
    | false => rfl
    | true => simpa using hreachable _ (hP _ hProw)
  · intro x hx
    simp only [collectChanges, List.filter_filter]
    refine List.filter_congr fun e he => ?_
    by_cases hex : e.1 = x
    · subst hex
      have hsource := hreachable _ hx
      simpa using ⟨hsource, Closure.closed_reach e he hsource⟩
    · simp [hex]

/-! ### Inserting a field -/

/-- The changes of a field: those with a new hash are appended. -/
theorem foldl_insertCrdtChange (changes : List StoredCrdtChange) (db : Db) :
    ∃ extra, changes.foldl (fun db change => db.insertCrdtChange change.hash change.bytes) db =
        { db with crdtChanges := db.crdtChanges ++ extra } ∧
      ∀ row ∈ extra, ¬ db.HasChange row.changeHash ∧
        ∃ change ∈ changes, row = ⟨change.hash, change.bytes⟩ := by
  induction changes generalizing db with
  | nil => exact ⟨[], by simp, by simp⟩
  | cons change changes ih =>
    rw [List.foldl_cons]
    obtain ⟨extra, heq, hextra⟩ := ih (db.insertCrdtChange change.hash change.bytes)
    by_cases hskip : change.hash = "" ∨ change.bytes = [] ∨ db.HasChange change.hash
    · simp only [insertCrdtChange, if_pos hskip] at heq hextra
      simp only [insertCrdtChange, if_pos hskip]
      refine ⟨extra, heq, fun row hrow => ?_⟩
      obtain ⟨hnew, c, hc, hrow⟩ := hextra row hrow
      exact ⟨hnew, c, List.mem_cons_of_mem _ hc, hrow⟩
    · simp only [insertCrdtChange, if_neg hskip] at heq hextra
      simp only [insertCrdtChange, if_neg hskip]
      push Not at hskip
      refine ⟨⟨change.hash, change.bytes⟩ :: extra, by simp [heq], fun row hrow => ?_⟩
      rcases List.mem_cons.mp hrow with rfl | hrow
      · exact ⟨hskip.2.2, change, by simp, rfl⟩
      · obtain ⟨hnew, c, hc, hrow⟩ := hextra row hrow
        refine ⟨fun hold => hnew ?_, c, List.mem_cons_of_mem _ hc, hrow⟩
        obtain ⟨r, hr, hhash⟩ := hold
        exact ⟨r, List.mem_append_left _ hr, hhash⟩

/-- Some edges were added, all satisfying `Q`. -/
def EdgesAdded (Q : String × String → Prop) (old new : Db) : Prop :=
  ∃ extra, new = { old with crdtParents := old.crdtParents ++ extra } ∧
    ∀ e ∈ extra, e.1 ≠ e.2 ∧ e ∉ old.crdtParents ∧ old.HasChange e.1 ∧ old.HasChange e.2 ∧ Q e

theorem EdgesAdded.refl (Q : String × String → Prop) (db : Db) : EdgesAdded Q db db :=
  ⟨[], by simp, by simp⟩

theorem EdgesAdded.trans {Q : String × String → Prop} (h : EdgesAdded Q old mid)
    (h' : EdgesAdded Q mid new) : EdgesAdded Q old new := by
  obtain ⟨extra, rfl, hextra⟩ := h
  obtain ⟨extra', rfl, hextra'⟩ := h'
  refine ⟨extra ++ extra', by simp, fun e he => ?_⟩
  rcases List.mem_append.mp he with he | he
  · exact hextra e he
  · obtain ⟨hne, hnot, hrest⟩ := hextra' e he
    exact ⟨hne, fun hold => hnot (List.mem_append_left _ hold), hrest⟩

theorem insertCrdtParent_added {Q : String × String → Prop} {hash parent : String}
    (hQ : Q (hash, parent)) (h : old.insertCrdtParent hash parent = .ok new) :
    EdgesAdded Q old new ∧ (hash = parent ∨ (hash, parent) ∈ new.crdtParents) := by
  simp only [insertCrdtParent] at h
  split at h
  · rename_i hskip
    cases h
    exact ⟨EdgesAdded.refl Q _, hskip⟩
  · rename_i hskip
    push Not at hskip
    obtain ⟨_, hstored, h⟩ := Except.bind_eq_ok.mp h
    rw [require_eq_ok] at hstored
    simp only [Except.pure_eq_ok, Except.ok.injEq] at h
    subst h
    exact ⟨⟨[(hash, parent)], rfl, by simpa using ⟨hskip.1, hskip.2, hstored.1, hstored.2, hQ⟩⟩,
      Or.inr (by simp)⟩

/-- The edges of a field: each is a parent of one of its changes, and each parent has its edge. -/
theorem foldlM_insertCrdtParent {changes : List StoredCrdtChange}
    (h : changes.foldlM (fun db change =>
      change.parents.foldlM (fun db parent => db.insertCrdtParent change.hash parent) db) old =
        Except.ok new) :
    EdgesAdded (fun e => ∃ c ∈ changes, c.hash = e.1 ∧ e.2 ∈ c.parents) old new ∧
      ∀ c ∈ changes, ∀ p ∈ c.parents, c.hash = p ∨ (c.hash, p) ∈ new.crdtParents := by
  have hmono : ∀ {Q : String × String → Prop} {a b : Db}, EdgesAdded Q a b →
      ∀ e ∈ a.crdtParents, e ∈ b.crdtParents := by
    rintro Q a b ⟨extra, rfl, -⟩ e he
    exact List.mem_append_left _ he
  have hturn : ∀ a, ∀ c ∈ changes, ∀ b,
      c.parents.foldlM (fun db parent => db.insertCrdtParent c.hash parent) a = Except.ok b →
        EdgesAdded (fun e => ∃ c ∈ changes, c.hash = e.1 ∧ e.2 ∈ c.parents) a b := by
    intro a c hc b hab
    exact Except.foldlM_rel (EdgesAdded.refl _) EdgesAdded.trans
      (fun _ p hp _ hparent => (insertCrdtParent_added ⟨c, hc, rfl, hp⟩ hparent).1) hab
  refine ⟨Except.foldlM_rel (EdgesAdded.refl _) EdgesAdded.trans hturn h, fun c hc p hp => ?_⟩
  obtain ⟨a, b, -, hab, hrest⟩ :=
    Except.foldlM_turn_rel (EdgesAdded.refl _) EdgesAdded.trans hturn h c hc
  obtain ⟨a', b', -, hab', hrest'⟩ :=
    Except.foldlM_turn_rel (R := EdgesAdded fun e => ∃ c ∈ changes, c.hash = e.1 ∧ e.2 ∈ c.parents)
      (EdgesAdded.refl _) EdgesAdded.trans
      (fun _ p hp _ hparent => (insertCrdtParent_added ⟨c, hc, rfl, hp⟩ hparent).1) hab p hp
  rcases (insertCrdtParent_added (Q := fun _ => True) trivial hab').2 with heq | hmem
  · exact Or.inl heq
  · exact Or.inr (hmono hrest _ (hmono hrest' _ hmem))

/-- The heads of a field. -/
theorem foldlM_insertCrdtHead {path : String} {heads : List String}
    (h : heads.foldlM (fun db head => db.insertCrdtHead ⟨key, version, path, head⟩) old =
      Except.ok new) :
    ∃ extra, new = { old with crdtHeads := old.crdtHeads ++ extra } ∧
      ∀ row ∈ extra, row.key = key ∧ row.version = version ∧ old.HasVersion row.key row.version ∧
        old.HasChange row.changeHash := by
  induction heads generalizing old with
  | nil =>
    simp only [List.foldlM_nil, Except.pure_eq_ok, Except.ok.injEq] at h
    exact ⟨[], by simp [h], by simp⟩
  | cons head heads ih =>
    obtain ⟨next, hnext, hrest⟩ := Except.foldlM_cons_eq_ok.mp h
    simp only [insertCrdtHead, Except.bind_eq_ok, require_eq_ok, Except.pure_eq_ok,
      Except.ok.injEq] at hnext
    obtain ⟨_, -, _, -, _, hstored, rfl⟩ := hnext
    obtain ⟨extra, rfl, hextra⟩ := ih hrest
    refine ⟨⟨key, version, path, head⟩ :: extra, by simp, fun row hrow => ?_⟩
    rcases List.mem_cons.mp hrow with rfl | hrow
    · exact ⟨rfl, rfl, hstored⟩
    · exact hextra row hrow

/-- **A field is inserted without touching the changes already stored.** -/
theorem insertCrdtField_grows (hlaw : A.Lawful) (inv : CrdtInv A old) {field : StoredCrdtField}
    (hgenuine : ∀ c ∈ field.changes, Genuine A c)
    (h : insertCrdtField key version old field = .ok new) :
    (∃ changes parents heads, new = { old with
      crdtChanges := changes, crdtParents := parents, crdtHeads := heads }) ∧
    CrdtInv A new ∧ CrdtGrows old new fun k v => k = key ∧ v = version := by
  obtain ⟨changes, hchanges, hnewChanges⟩ := foldl_insertCrdtChange field.changes old
  simp only [insertCrdtField, hchanges] at h
  obtain ⟨mid, hparents, hheads⟩ := Except.bind_eq_ok.mp h
  obtain ⟨⟨edges, rfl, hedges⟩, hcomplete⟩ := foldlM_insertCrdtParent hparents
  obtain ⟨heads, rfl, hnewHeads⟩ := foldlM_insertCrdtHead hheads
  -- an edge out of a stored change is one its bytes already had
  have hsource : ∀ e ∈ edges, ¬ old.HasChange e.1 := by
    rintro ⟨hash, p⟩ he ⟨row, hrow, hhash⟩
    obtain ⟨hne, hnot, -, -, c, hc, rfl, hp⟩ := hedges _ he
    obtain ⟨deps, hdecode, hmem⟩ := inv.determined row hrow
    obtain ⟨deps', hdecode', hmem'⟩ := hgenuine c hc
    simp only at hhash hne hnot hp
    rw [hhash] at hdecode hmem
    have hbytes := hlaw.hash_injective hdecode hdecode'
    rw [hbytes, hdecode', Option.some.injEq, Prod.mk.injEq] at hdecode
    refine hnot ((hmem p).mpr ⟨?_, fun h => hne h.symm⟩)
    rw [← hdecode.2]
    exact (hmem' p).mpr hp
  have hmonoChange : ∀ hash, old.HasChange hash →
      HasChange { old with crdtChanges := old.crdtChanges ++ changes } hash := by
    rintro hash ⟨row, hrow, hhash⟩
    exact ⟨row, List.mem_append_left _ hrow, hhash⟩
  refine ⟨⟨_, _, _, rfl⟩, ⟨?_, ?_, ?_⟩, ?_⟩
  · intro e he
    rcases List.mem_append.mp he with he | he
    · exact ⟨hmonoChange _ (inv.edges e he).1, hmonoChange _ (inv.edges e he).2⟩
    · exact ⟨(hedges e he).2.2.1, (hedges e he).2.2.2.1⟩
  · intro row hrow
    rcases List.mem_append.mp hrow with hold | hnew
    · obtain ⟨deps, hdecode, hmem⟩ := inv.determined row hold
      refine ⟨deps, hdecode, fun p => ?_⟩
      rw [List.mem_append, hmem p]
      exact ⟨fun h => h.resolve_right fun he => hsource _ he ⟨row, hold, rfl⟩, Or.inl⟩
    · obtain ⟨hfresh, c, hc, rfl⟩ := hnewChanges row hnew
      obtain ⟨deps, hdecode, hmem⟩ := hgenuine c hc
      refine ⟨deps, hdecode, fun p => ?_⟩
      rw [List.mem_append]
      constructor
      · rintro (hold | he)
        · exact absurd (inv.edges _ hold).1 hfresh
        · obtain ⟨hne, -, -, -, c', hc', hhash, hp⟩ := hedges _ he
          obtain ⟨deps', hdecode', hmem'⟩ := hgenuine c' hc'
          simp only at hhash hne
          rw [hhash] at hdecode'
          have hbytes := hlaw.hash_injective hdecode hdecode'
          rw [hbytes, hdecode', Option.some.injEq, Prod.mk.injEq] at hdecode
          rw [← hdecode.2]
          exact ⟨(hmem' p).mpr hp, fun h => hne h.symm⟩
      · rintro ⟨hp, hne⟩
        rcases hcomplete c hc p ((hmem p).mp hp) with heq | hstored
        · exact absurd heq.symm hne
        · exact List.mem_append.mp hstored
  · intro row hrow
    rcases List.mem_append.mp hrow with hold | hnew
    · exact ⟨(inv.heads row hold).1, hmonoChange _ (inv.heads row hold).2⟩
    · exact ⟨(hnewHeads row hnew).2.2.1, (hnewHeads row hnew).2.2.2⟩
  · exact ⟨⟨changes, rfl, fun row hrow => (hnewChanges row hrow).1⟩, ⟨edges, rfl, hsource⟩,
      ⟨heads, rfl, fun row hrow => ⟨(hnewHeads row hrow).1, (hnewHeads row hrow).2.1⟩⟩⟩

end Db

end Patchouli
