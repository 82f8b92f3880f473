import AthenaOS.Package.Solver

/-!
# Transactions

A transaction changes the database of installed packages item by item and records what it has
done. When an item fails, the record is replayed backwards.
-/

namespace AthenaOS.Package

/-! ## The database -/

inductive PackageReason where
  | explicit
  | dependency
  deriving DecidableEq

inductive PackageHold where
  | none
  | hold
  deriving DecidableEq

structure InstalledPackage where
  name : String
  version : Version
  reason : PackageReason
  hold : PackageHold
  installDate : UInt64
  files : List String
  backupFiles : List String
  deriving DecidableEq

/-- A record as `mark_installed` makes it. -/
def InstalledPackage.fresh (name : String) (version : Version) : InstalledPackage where
  name := name
  version := version
  reason := .explicit
  hold := .none
  installDate := 0
  files := []
  backupFiles := []

/-- The one error of `PackageError` the database has. -/
inductive DatabaseError where
  | notFound
  deriving DecidableEq

abbrev InstalledDatabase : Type := Std.ExtTreeMap String InstalledPackage

namespace InstalledDatabase

def markInstalled (db : InstalledDatabase) (name : String) (version : Version) : InstalledDatabase :=
  db.insert name (.fresh name version)

def markRemoved (db : InstalledDatabase) (name : String) : Except DatabaseError InstalledDatabase :=
  if db[name]?.isSome then .ok (db.erase name) else .error .notFound

def setHold (db : InstalledDatabase) (name : String) (value : PackageHold) : Except DatabaseError InstalledDatabase :=
  if db[name]?.isSome then .ok (db.modify name fun pkg => { pkg with hold := value }) else .error .notFound

end InstalledDatabase

/-! ## Transactions -/

inductive TransactionOp where
  | install
  | remove
  | upgrade
  | downgrade
  | reinstall
  deriving DecidableEq

structure TransactionItem where
  op : TransactionOp
  packageName : String
  oldVersion : Option Version
  newVersion : Option Version

inductive TransactionState where
  | planning
  | downloading
  | installing
  | committed
  | rolledBack
  | failed
  deriving DecidableEq

structure RollbackEntry where
  packageName : String
  op : TransactionOp
  oldVersion : Option Version

structure Transaction where
  state : TransactionState
  items : List TransactionItem
  rollbackData : List RollbackEntry

namespace Transaction

/-- `Transaction::new` with items added. -/
def new (items : List TransactionItem) : Transaction := ⟨.planning, items, []⟩

/-- Undo one entry. -/
def undo (db : InstalledDatabase) (entry : RollbackEntry) : InstalledDatabase :=
  match entry.op with
  | .install => (db.markRemoved entry.packageName).toOption.getD db
  | .remove =>
    match entry.oldVersion with
    | some ver => db.markInstalled entry.packageName ver
    | none => db
  | .upgrade | .downgrade | .reinstall =>
    let db := (db.markRemoved entry.packageName).toOption.getD db
    match entry.oldVersion with
    | some ver => db.markInstalled entry.packageName ver
    | none => db

def rollback (t : Transaction) (db : InstalledDatabase) : Transaction × InstalledDatabase :=
  ({ t with state := .rolledBack }, t.rollbackData.reverse.foldl undo db)

/-- What is kept of an item that succeeded. -/
def entry (item : TransactionItem) : RollbackEntry := ⟨item.packageName, item.op, item.oldVersion⟩

def record (t : Transaction) (item : TransactionItem) : Transaction :=
  { t with rollbackData := t.rollbackData ++ [entry item] }

/-- The loop of `execute`. -/
def executeItems (t : Transaction) (db : InstalledDatabase) :
    List TransactionItem → Option (Except DatabaseError Unit × Transaction × InstalledDatabase)
  | [] => some (.ok (), { t with state := .committed }, db)
  | item :: items =>
    match item.op with
    | .install =>
      match item.newVersion with
      | some ver => (t.record item).executeItems (db.markInstalled item.packageName ver) items
      | none => none
    | .remove =>
      match db.markRemoved item.packageName with
      | .ok db => (t.record item).executeItems db items
      | .error e => some (.error e, { t with state := .failed }.rollback db)
    | .upgrade | .downgrade | .reinstall =>
      match db.markRemoved item.packageName with
      | .error e => some (.error e, t, db)
      | .ok db =>
        match item.newVersion with
        | some ver => (t.record item).executeItems (db.markInstalled item.packageName ver) items
        | none => none

def execute (t : Transaction) (db : InstalledDatabase) :
    Option (Except DatabaseError Unit × Transaction × InstalledDatabase) :=
  { t with state := .installing }.executeItems db t.items

end Transaction

/-! ## Records behind items -/

open InstalledPackage Transaction

/-- The record an item leaves of its package. -/
def TransactionItem.leaves (item : TransactionItem) : Option InstalledPackage :=
  match item.op with
  | .remove => none
  | _ => item.newVersion.map (fresh item.packageName)

/-- The first item about a package. -/
def firstOn (name : String) (items : List TransactionItem) : Option TransactionItem :=
  items.find? fun item => item.packageName == name

/-- The last item about a package. -/
def lastOn (name : String) (items : List TransactionItem) : Option TransactionItem :=
  items.reverse.find? fun item => item.packageName == name

/-- A package's record behind items that did not fail. -/
def recordAfter (db : InstalledDatabase) (items : List TransactionItem) (name : String) : Option InstalledPackage :=
  match lastOn name items with
  | some item => item.leaves
  | none => db[name]?

/-- An item finds what it needs: all but installing need the package, all but removing a version. -/
def TransactionItem.Starts (item : TransactionItem) (found : Option InstalledPackage) : Prop :=
  (item.op ≠ .install → found ≠ none) ∧ (item.op ≠ .remove → item.newVersion ≠ none)

/-- Every item finds what it needs. -/
def Runs (db : InstalledDatabase) (items : List TransactionItem) : Prop :=
  ∀ done item rest, items = done ++ item :: rest → item.Starts (recordAfter db done item.packageName)

section

variable {db d : InstalledDatabase} {item : TransactionItem} {done items : List TransactionItem} {name : String}

theorem lastOn_snoc (name : String) (items : List TransactionItem) (item : TransactionItem) :
    lastOn name (items ++ [item]) = if item.packageName = name then some item else lastOn name items := by
  rw [lastOn, List.reverse_append, List.reverse_singleton, List.singleton_append, List.find?_cons]
  by_cases h : item.packageName = name
  · rw [if_pos h, beq_iff_eq.mpr h]
  · rw [if_neg h, beq_eq_false_iff_ne.mpr h]
    rfl

theorem recordAfter_snoc (db : InstalledDatabase) (items : List TransactionItem) (item : TransactionItem) (name : String) :
    recordAfter db (items ++ [item]) name = if item.packageName = name then item.leaves else recordAfter db items name := by
  rw [recordAfter, lastOn_snoc]
  split
  · rename_i heq
    split at heq
    · rename_i hname
      rw [if_pos hname, Option.some.inj heq]
    · rename_i hname
      rw [if_neg hname, recordAfter, heq]
  · rename_i heq
    split at heq
    · exact nomatch heq
    · rename_i hname
      rw [if_neg hname, recordAfter, heq]

theorem getElem?_installed (db : InstalledDatabase) (installed : String) (ver : Version) (name : String) :
    (db.markInstalled installed ver)[name]? = if installed = name then some (fresh installed ver) else db[name]? := by
  rw [InstalledDatabase.markInstalled, Std.ExtTreeMap.getElem?_insert]
  simp only [Std.compare_eq_iff_eq]

/-- The database is what the items leave. -/
def Reaches (db : InstalledDatabase) (items : List TransactionItem) (d : InstalledDatabase) : Prop :=
  ∀ name : String, d[name]? = recordAfter db items name

theorem Reaches.refl (db : InstalledDatabase) : Reaches db [] db := fun _ => rfl

/-- Installing writes the package's record, whatever was there. -/
theorem reaches_installed (h : ∀ name : String, name ≠ item.packageName → d[name]? = recordAfter db done name) {ver : Version}
    (hver : item.newVersion = some ver) (hop : item.op ≠ .remove) :
    Reaches db (done ++ [item]) (d.markInstalled item.packageName ver) := by
  intro name
  have hleaves : item.leaves = some (fresh item.packageName ver) := by
    rw [TransactionItem.leaves, hver]
    cases hitem : item.op with
    | remove => exact absurd hitem hop
    | install | upgrade | downgrade | reinstall => rfl
  rw [recordAfter_snoc, getElem?_installed, hleaves]
  split
  · rfl
  · rename_i hname
    exact h name fun heq => hname heq.symm

theorem Reaches.erased (h : Reaches db done d) (hop : item.op = .remove) :
    Reaches db (done ++ [item]) (d.erase item.packageName) := by
  intro name
  rw [recordAfter_snoc, Std.ExtTreeMap.getElem?_erase, TransactionItem.leaves, hop, h name]
  simp only [Std.compare_eq_iff_eq]

theorem Runs.head {rest : List TransactionItem} (h : Runs db (done ++ item :: rest)) :
    item.Starts (recordAfter db done item.packageName) := h done item rest rfl

/-- Items that start well are recorded, and leave the records. -/
theorem executeItems_append (mid : List TransactionItem) : ∀ {done : List TransactionItem} {d : InstalledDatabase}
    (t : Transaction) (rest : List TransactionItem), Reaches db done d → Runs db (done ++ mid) →
    ∃ d', Reaches db (done ++ mid) d' ∧ t.executeItems d (mid ++ rest) =
      { t with rollbackData := t.rollbackData ++ mid.map entry }.executeItems d' rest := by
  induction mid with
  | nil =>
    intro done d t rest hreach _
    refine ⟨d, (List.append_nil done).symm ▸ hreach, ?_⟩
    rw [List.map_nil, List.append_nil]
    rfl
  | cons item mid ih =>
    intro done d t rest hreach hruns
    obtain ⟨hfound, hver⟩ := hruns.head
    rw [List.append_cons] at hruns ⊢
    -- one item, and the rest behind it
    have hstep (d₁ : InstalledDatabase) (hd₁ : Reaches db (done ++ [item]) d₁) :
        ∃ d', Reaches db (done ++ [item] ++ mid) d' ∧ (t.record item).executeItems d₁ (mid ++ rest) =
          { t with rollbackData := t.rollbackData ++ (item :: mid).map entry }.executeItems d' rest := by
      obtain ⟨d', hd', heq⟩ := ih (t.record item) rest hd₁ hruns
      refine ⟨d', hd', heq.trans ?_⟩
      rw [List.map_cons, List.append_cons]
      rfl
    have hremoved (hop : item.op ≠ .install) : d.markRemoved item.packageName = .ok (d.erase item.packageName) := by
      rw [InstalledDatabase.markRemoved, hreach, if_pos (Option.isSome_iff_ne_none.mpr (hfound hop))]
    -- upgrading, downgrading and reinstalling are one
    have hreplaced (hop : item.op ≠ .install) (hop' : item.op ≠ .remove) {ver : Version} (hnew : item.newVersion = some ver) :
        Reaches db (done ++ [item]) (InstalledDatabase.markInstalled (d.erase item.packageName) item.packageName ver) := by
      refine reaches_installed (fun name hname => ?_) hnew hop'
      rw [Std.ExtTreeMap.getElem?_erase, if_neg fun heq => hname (Std.compare_eq_iff_eq.mp heq).symm]
      exact hreach name
    rw [List.cons_append, executeItems]
    cases hop : item.op with
    | install =>
      obtain ⟨ver, hnew⟩ := Option.ne_none_iff_exists'.mp (hver (by rw [hop]; decide))
      rw [hnew]
      exact hstep _ (reaches_installed (fun name _ => hreach name) hnew (by rw [hop]; decide))
    | remove =>
      rw [hremoved (by rw [hop]; decide)]
      exact hstep _ (hreach.erased hop)
    | upgrade | downgrade | reinstall =>
      obtain ⟨ver, hnew⟩ := Option.ne_none_iff_exists'.mp (hver (by rw [hop]; decide))
      rw [hremoved (by rw [hop]; decide), hnew]
      exact hstep _ (hreplaced (by rw [hop]; decide) (by rw [hop]; decide) hnew)

/-! ## Rolling back -/

/-- The record an entry puts back. -/
def RollbackEntry.restores (entry : RollbackEntry) : Option InstalledPackage :=
  match entry.op with
  | .install => none
  | _ => entry.oldVersion.map (fresh entry.packageName)

theorem getElem?_removed (db : InstalledDatabase) (removed name : String) :
    ((db.markRemoved removed).toOption.getD db)[name]? = if removed = name then none else db[name]? := by
  rw [InstalledDatabase.markRemoved]
  split
  · rw [Except.toOption, Option.getD_some, Std.ExtTreeMap.getElem?_erase]
    simp only [Std.compare_eq_iff_eq]
  · rename_i hnone
    rw [Except.toOption, Option.getD_none]
    split
    · rename_i heq
      exact heq ▸ Option.not_isSome_iff_eq_none.mp hnone
    · rfl

/-- The record of an entry's package is written, the others are kept. -/
theorem getElem?_undo (db : InstalledDatabase) {entry : RollbackEntry} (hold : entry.op ≠ .install → entry.oldVersion ≠ none)
    (name : String) : (undo db entry)[name]? = if entry.packageName = name then entry.restores else db[name]? := by
  rw [undo, RollbackEntry.restores]
  cases hop : entry.op with
  | install => exact getElem?_removed db entry.packageName name
  | remove =>
    obtain ⟨ver, hver⟩ := Option.ne_none_iff_exists'.mp (hold (by rw [hop]; decide))
    rw [hver]
    exact getElem?_installed db entry.packageName ver name
  | upgrade | downgrade | reinstall =>
    obtain ⟨ver, hver⟩ := Option.ne_none_iff_exists'.mp (hold (by rw [hop]; decide))
    rw [hver]
    dsimp only
    rw [getElem?_installed, getElem?_removed]
    split <;> rfl

/-- Behind a rollback the first entry about a package decides on its record. -/
theorem getElem?_rollback (db : InstalledDatabase) (name : String) : ∀ (entries : List RollbackEntry)
    (_ : ∀ entry ∈ entries, entry.op ≠ .install → entry.oldVersion ≠ none), (entries.reverse.foldl undo db)[name]? =
      match entries.find? fun entry => entry.packageName == name with
      | some entry => entry.restores
      | none => db[name]?
  | [], _ => rfl
  | entry :: entries, hold => by
    rw [List.reverse_cons, List.foldl_append, List.foldl_cons, List.foldl_nil,
      getElem?_undo _ (hold entry List.mem_cons_self),
      getElem?_rollback db name entries fun e he => hold e (List.mem_cons_of_mem _ he), List.find?_cons]
    by_cases hname : entry.packageName = name
    · rw [if_pos hname, beq_iff_eq.mpr hname]
    · rw [if_neg hname, beq_eq_false_iff_ne.mpr hname]

/-! ## Transactions that fail -/

/-- Each item has the version its package has when the item starts. -/
def OldVersions (db : InstalledDatabase) (items : List TransactionItem) : Prop :=
  ∀ done item rest, items = done ++ item :: rest → Runs db done →
    item.oldVersion = (recordAfter db done item.packageName).map InstalledPackage.version

/-- A transaction that fails leaves the database as it was. -/
def Atomic (t : Transaction) (db : InstalledDatabase) : Prop :=
  ∀ e t' db', t.execute db = some (.error e, t', db') → db' = db

/-- What items before one that fails must be like. Removing rolls back: the first item about a
package installed it anew, or found a record that installing makes again. The other operations do
not: the last item about a package left the record that was there at first. -/
def Undone (db : InstalledDatabase) (done : List TransactionItem) (op : TransactionOp) : Prop :=
  if op = .remove then
    ∀ name first, firstOn name done = some first →
      if first.op = .install then db[name]? = none else ∃ ver, db[name]? = some (fresh name ver)
  else ∀ name last, lastOn name done = some last → last.leaves = db[name]?

theorem runs_left {mid : List TransactionItem} (h : Runs db (done ++ mid)) : Runs db done := by
  rintro before item rest rfl
  exact h before item (rest ++ mid) (by rw [List.append_assoc, List.cons_append])

theorem runs_snoc (h : Runs db done) (hitem : item.Starts (recordAfter db done item.packageName)) :
    Runs db (done ++ [item]) := by
  intro before item' rest heq
  obtain rfl | ⟨rest, last, rfl⟩ := List.eq_nil_or_concat rest
  · obtain ⟨rfl, hsame⟩ := List.append_inj' heq rfl
    exact (List.cons.inj hsame).1 ▸ hitem
  · rw [List.concat_eq_append, ← List.cons_append, ← List.append_assoc] at heq
    exact h before item' rest (List.append_inj' heq rfl).1

/-- All items start well, or one of them is the first that does not. -/
theorem runs_or_stops (db : InstalledDatabase) (items : List TransactionItem) : Runs db items ∨
    ∃ done item rest, items = done ++ item :: rest ∧ Runs db done ∧
      ¬ item.Starts (recordAfter db done item.packageName) := by
  induction items using List.reverseRecOn with
  | nil => exact .inl fun done item rest heq => by simp at heq
  | append_singleton items item ih =>
    obtain hruns | ⟨done, item', rest, rfl, hdone, hstops⟩ := ih
    · by_cases hitem : item.Starts (recordAfter db items item.packageName)
      · exact .inl (runs_snoc hruns hitem)
      · exact .inr ⟨items, item, [], rfl, hruns, hitem⟩
    · exact .inr ⟨done, item', rest ++ [item], by rw [List.append_assoc, List.cons_append], hdone, hstops⟩

/-- An item that does not find its package ends the transaction, with a rollback only when it
removes. -/
theorem executeItems_missing (t : Transaction) (rest : List TransactionItem) (hreach : Reaches db done d)
    (hop : item.op ≠ .install) (hnone : recordAfter db done item.packageName = none) :
    ∃ t', t.executeItems d (item :: rest) = some (.error .notFound, t',
      if item.op = .remove then t.rollbackData.reverse.foldl undo d else d) := by
  have hmissing : d.markRemoved item.packageName = .error .notFound := by
    rw [InstalledDatabase.markRemoved, hreach, hnone]
    rfl
  rw [executeItems]
  cases hitem : item.op with
  | install => exact absurd hitem hop
  | remove =>
    rw [hmissing]
    exact ⟨_, rfl⟩
  | upgrade | downgrade | reinstall =>
    rw [hmissing]
    exact ⟨_, rfl⟩

/-- An item that only lacks its version gives no result. -/
theorem executeItems_unversioned (t : Transaction) (rest : List TransactionItem) (hreach : Reaches db done d)
    (hitem : ¬ item.Starts (recordAfter db done item.packageName))
    (hfound : item.op ≠ .install → recordAfter db done item.packageName ≠ none) :
    t.executeItems d (item :: rest) = none := by
  have hver : item.op ≠ .remove ∧ item.newVersion = none := by
    by_contra hne
    exact hitem ⟨hfound, fun hop hnone => hne ⟨hop, hnone⟩⟩
  have hremoved (hop : item.op ≠ .install) : d.markRemoved item.packageName = .ok (d.erase item.packageName) := by
    rw [InstalledDatabase.markRemoved, hreach, if_pos (Option.isSome_iff_ne_none.mpr (hfound hop))]
  rw [executeItems]
  cases hop : item.op with
  | install => rw [hver.2]
  | remove => exact absurd hop hver.1
  | upgrade | downgrade | reinstall => rw [hremoved (by rw [hop]; decide), hver.2]

theorem recordAfter_of_lastOn_none (h : lastOn name done = none) : recordAfter db done name = db[name]? := by
  rw [recordAfter, h]

theorem lastOn_eq_none (h : firstOn name done = none) : lastOn name done = none := by
  rw [lastOn, List.find?_eq_none]
  exact fun item hitem => List.find?_eq_none.mp h item (List.mem_reverse.mp hitem)

/-- Without a rollback. -/
theorem kept_iff (hreach : Reaches db done d) : d = db ↔ ∀ name last, lastOn name done = some last → last.leaves = db[name]? := by
  constructor
  · rintro rfl name last hlast
    rw [hreach name, recordAfter, hlast]
  · intro h
    refine Std.ExtTreeMap.ext_getElem? fun name => ?_
    rw [hreach name]
    cases hlast : lastOn name done with
    | none => exact recordAfter_of_lastOn_none hlast
    | some last =>
      rw [recordAfter, hlast]
      exact h name last hlast

/-- The first item about a package finds the package as the database has it. -/
theorem oldVersion_firstOn (hold : OldVersions db (done ++ items)) (hruns : Runs db done) {first : TransactionItem}
    (hfirst : firstOn name done = some first) :
    first.packageName = name ∧ first.oldVersion = db[name]?.map InstalledPackage.version ∧
      (first.op ≠ .install → db[name]? ≠ none) := by
  obtain ⟨hname, before, rest, rfl, hbefore⟩ := List.find?_eq_some_iff_append.mp hfirst
  obtain rfl := beq_iff_eq.mp hname
  have hnone : firstOn first.packageName before = none := by
    rw [firstOn, List.find?_eq_none]
    intro item hitem
    simpa using hbefore item hitem
  have hfound : recordAfter db before first.packageName = db[first.packageName]? :=
    recordAfter_of_lastOn_none (lastOn_eq_none hnone)
  refine ⟨rfl, ?_, hfound ▸ hruns.head.1⟩
  rw [hold before first (rest ++ items) (by rw [List.append_assoc, List.cons_append]) (runs_left hruns), hfound]

/-- All but installing had a version to put back. -/
theorem oldVersion_ne_none (hold : OldVersions db (done ++ items)) (hruns : Runs db done) :
    ∀ e ∈ done.map entry, e.op ≠ .install → e.oldVersion ≠ none := by
  intro e he hop
  obtain ⟨item, hitem, rfl⟩ := List.mem_map.mp he
  obtain ⟨before, rest, rfl⟩ := List.append_of_mem hitem
  show item.oldVersion ≠ none
  rw [hold before item (rest ++ items) (by rw [List.append_assoc, List.cons_append]) (runs_left hruns), Ne, Option.map_eq_none_iff]
  exact hruns.head.1 hop

/-- With a rollback. -/
theorem rolledBack_iff (hreach : Reaches db done d) (hold : OldVersions db (done ++ items)) (hruns : Runs db done) :
    (done.map entry).reverse.foldl undo d = db ↔ ∀ name first, firstOn name done = some first →
      if first.op = .install then db[name]? = none else ∃ ver, db[name]? = some (fresh name ver) := by
  have hrolled (name : String) : ((done.map entry).reverse.foldl undo d)[name]? =
      match firstOn name done with
      | some first => (entry first).restores
      | none => db[name]? := by
    rw [getElem?_rollback d name _ (oldVersion_ne_none hold hruns), List.find?_map]
    show (match (firstOn name done).map entry with
      | some e => e.restores
      | none => d[name]?) = _
    cases hfirst : firstOn name done with
    | none => rw [Option.map_none, hreach name, recordAfter_of_lastOn_none (lastOn_eq_none hfirst)]
    | some first => rfl
  -- what the first item about a package puts back
  have hone {name : String} {first : TransactionItem} (hfirst : firstOn name done = some first) :
      (entry first).restores = db[name]? ↔
        if first.op = .install then db[name]? = none else ∃ ver, db[name]? = some (fresh name ver) := by
    obtain ⟨hname, hver, hfound⟩ := oldVersion_firstOn hold hruns hfirst
    have hrestores : (entry first).restores =
        if first.op = .install then none else first.oldVersion.map (fresh name) := by
      rw [RollbackEntry.restores, ← hname]
      show (match first.op with
        | .install => none
        | _ => first.oldVersion.map (fresh first.packageName)) = _
      cases first.op with
      | install => rfl
      | remove | upgrade | downgrade | reinstall => rfl
    rw [hrestores]
    split
    · exact eq_comm
    · rename_i hop
      rw [hver]
      constructor
      · intro heq
        cases hpkg : db[name]? with
        | none => exact absurd hpkg (hfound hop)
        | some pkg =>
          rw [hpkg] at heq
          exact ⟨pkg.version, heq.symm⟩
      · rintro ⟨ver, heq⟩
        rw [heq]
        rfl
  constructor
  · intro heq name first hfirst
    have hname := hrolled name
    rw [heq, hfirst] at hname
    exact (hone hfirst).mp hname.symm
  · intro h
    refine Std.ExtTreeMap.ext_getElem? fun name => ?_
    rw [hrolled name]
    cases hfirst : firstOn name done with
    | none => rfl
    | some first => exact (hone hfirst).mpr (h name first hfirst)

/-- A transaction that fails leaves the database as it was just when the items before the one that
fails are undone by what the source does then. -/
theorem execute_iff (db : InstalledDatabase) (items : List TransactionItem) (hold : OldVersions db items) :
    Atomic (.new items) db ↔ ∀ done item rest, items = done ++ item :: rest → Runs db done → item.op ≠ .install →
      recordAfter db done item.packageName = none → Undone db done item.op := by
  -- the run up to an item that does not find its package
  have hrun {done : List TransactionItem} {item : TransactionItem} {rest : List TransactionItem}
      (hitems : items = done ++ item :: rest) (hruns : Runs db done) (hop : item.op ≠ .install)
      (hnone : recordAfter db done item.packageName = none) :
      ∃ t' db', (Transaction.new items).execute db = some (.error .notFound, t', db') ∧
        (db' = db ↔ Undone db done item.op) := by
    subst hitems
    obtain ⟨d, hreach, heq⟩ := executeItems_append done { Transaction.new (done ++ item :: rest) with state := .installing }
      (item :: rest) (Reaches.refl db) hruns
    obtain ⟨t', hmissing⟩ := executeItems_missing _ rest hreach hop hnone
    refine ⟨t', _, heq.trans hmissing, ?_⟩
    rw [Undone]
    split
    · exact rolledBack_iff hreach hold hruns
    · exact kept_iff hreach
  constructor
  · intro hatomic done item rest hitems hruns hop hnone
    obtain ⟨t', db', heq, hiff⟩ := hrun hitems hruns hop hnone
    exact hiff.mp (hatomic _ _ _ heq)
  · intro h e t' db' hexec
    obtain hruns | ⟨done, item, rest, hitems, hruns, hstops⟩ := runs_or_stops db items
    · obtain ⟨d, -, heq⟩ := executeItems_append items { Transaction.new items with state := .installing } []
        (Reaches.refl db) hruns
      rw [List.append_nil] at heq
      exact nomatch heq.symm.trans hexec
    · by_cases hmissing : item.op ≠ .install ∧ recordAfter db done item.packageName = none
      · obtain ⟨t'', db'', heq, hiff⟩ := hrun hitems hruns hmissing.1 hmissing.2
        obtain ⟨-, -, rfl⟩ := by simpa using heq.symm.trans hexec
        exact hiff.mpr (h done item rest hitems hruns hmissing.1 hmissing.2)
      · subst hitems
        obtain ⟨d, hreach, heq⟩ := executeItems_append done
          { Transaction.new (done ++ item :: rest) with state := .installing } (item :: rest) (Reaches.refl db) hruns
        rw [executeItems_unversioned _ rest hreach hstops fun hop hnone => hmissing ⟨hop, hnone⟩] at heq
        exact nomatch heq.symm.trans hexec

/-- A rollback brings a held package back without its hold. -/
example : (do
    let db ← ((InstalledDatabase.markInstalled ∅ "editor" (.new "1.0")).setHold "editor" .hold).toOption
    let (_, _, db) ← (Transaction.new
      [{ op := .upgrade, packageName := "editor", oldVersion := some (.new "1.0"), newVersion := some (.new "2.0") },
       { op := .remove, packageName := "shell", oldVersion := none, newVersion := none }]).execute db
    db["editor"]?) = some (fresh "editor" (.new "1.0")) := by
  decide

/-! ### A package that is not there to upgrade -/

/-- Install one package, upgrade another. -/
def installThenUpgrade : List TransactionItem :=
  [{ op := .install, packageName := "editor", oldVersion := none, newVersion := some (.new "1.0") },
   { op := .upgrade, packageName := "shell", oldVersion := none, newVersion := some (.new "2.0") }]

theorem installThenUpgrade_oldVersions : OldVersions ∅ installThenUpgrade := by
  intro done item rest heq _
  match done with
  | [] =>
    obtain ⟨rfl, -⟩ := List.cons.inj heq
    rfl
  | [first] =>
    obtain ⟨hfirst, heq⟩ := List.cons.inj heq
    obtain ⟨rfl, -⟩ := List.cons.inj heq
    rw [← hfirst]
    rfl
  | _ :: _ :: _ => simp [installThenUpgrade] at heq

theorem execute_installThenUpgrade : Atomic (.new installThenUpgrade) ∅ ↔
    ∀ done item rest, installThenUpgrade = done ++ item :: rest → Runs ∅ done → item.op ≠ .install →
      recordAfter ∅ done item.packageName = none → Undone ∅ done item.op :=
  execute_iff ∅ installThenUpgrade installThenUpgrade_oldVersions

/-- The upgrade fails in an empty database, and the package installed before it stays. -/
theorem upgrade_not_atomic : ¬ ∀ db items, OldVersions db items → Atomic (.new items) db := by
  intro h
  have hnone : (InstalledDatabase.markInstalled ∅ "editor" (.new "1.0"))["shell"]? = none := by
    rw [getElem?_installed, if_neg (by decide), Std.ExtTreeMap.getElem?_empty]
  have hexec : (Transaction.new installThenUpgrade).execute ∅ =
      some (.error .notFound, ⟨.installing, installThenUpgrade, [⟨"editor", .install, none⟩]⟩,
        InstalledDatabase.markInstalled ∅ "editor" (.new "1.0")) := by
    have hmissing : (InstalledDatabase.markInstalled ∅ "editor" (.new "1.0")).markRemoved "shell" = .error .notFound := by
      rw [InstalledDatabase.markRemoved, hnone]
      rfl
    simp only [Transaction.execute, Transaction.new, installThenUpgrade, executeItems, hmissing]
    rfl
  have hsame := h ∅ installThenUpgrade installThenUpgrade_oldVersions _ _ _ hexec
  have hname := getElem?_installed ∅ "editor" (.new "1.0") "editor"
  rw [hsame, if_pos rfl, Std.ExtTreeMap.getElem?_empty] at hname
  exact nomatch hname

end

end AthenaOS.Package
