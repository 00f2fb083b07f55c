import Mathlib.Algebra.Order.Ring.Int
import K2Platform.Lib.Dict
import K2Platform.Lib.Timeline

/-!
# Type-2 dimensions

Model of `scd2.py` and of `_merge_dim` of `gold.py`.  `plan` compares the open versions of a
dimension table with the rows that are true now; `_merge_dim` closes the versions it names and
then appends the ones it opens, in two commits.  The hash is a parameter: nothing here depends
on which one it is.

* `versionsOf_closed`, `versionsOf_merged` — what the two commits do to the versions of one
  natural key, in terms of `planKey`, the plan for that key alone.
-/

set_option autoImplicit false

namespace K2.Lake.Scd2

/-! ## Rows -/

/-- Microseconds since 1970-01-01. -/
abbrev Timestamp := Int

def EPOCH : Timestamp := 0

/-- 9999-12-31 23:59:59. -/
def FOREVER : Timestamp := 253402300799 * 10 ^ 6

theorem epoch_lt_forever : EPOCH < FOREVER := by decide

/-- A value of a dimension column; a decimal is kept as the text `str` gives it. -/
inductive Cell where
  | null
  | bool (b : Bool)
  | int (n : Int)
  | str (s : String)
  | decimal (text : String)
  deriving DecidableEq, Repr

abbrev Attributes := Dict String Cell

abbrev NaturalKey := List Cell

def SEP : String := String.singleton (Char.ofNat 0x1f)

def NULL : String := String.singleton (Char.ofNat 0)

def Cell.serialise : Cell → String
  | .null => NULL
  | .bool b => if b then "True" else "False"
  | .int n => toString n
  | .str s => s
  | .decimal text => text

namespace Attributes

/-- `row.get(f)`. -/
def cell (row : Attributes) (f : String) : Cell := row.getD f .null

/-- `bool(row["subscribed"])`. -/
def subscribed (row : Attributes) : Bool := row.cell "subscribed" = .bool true

/-- The attributes of a version whose key left the registry. -/
def carried (row : Attributes) : Attributes := row.insert "subscribed" (.bool false)

theorem cell_carried (row : Attributes) (f : String) :
    row.carried.cell f = if f = "subscribed" then .bool false else row.cell f := by
  unfold cell carried Dict.getD
  rw [Dict.get?_insert]
  split <;> rfl

@[simp] theorem subscribed_carried (row : Attributes) : row.carried.subscribed = false := by
  simp [subscribed, cell_carried]

end Attributes

def surrogate (sha256 : String → String) (parts : List String) : String :=
  sha256 (SEP.intercalate parts)

def attrHash (sha256 : String → String) (tracked : List String) (row : Attributes) : String :=
  sha256 (SEP.intercalate (tracked.map fun f => (row.cell f).serialise))

theorem attrHash_congr (sha256 : String → String) {tracked : List String} {a b : Attributes}
    (h : ∀ f ∈ tracked, a.cell f = b.cell f) :
    attrHash sha256 tracked a = attrHash sha256 tracked b := by
  unfold attrHash
  rw [List.map_congr_left fun f hf => congrArg Cell.serialise (h f hf)]

/-- One stored row: its attributes and the columns of `BOOKKEEPING`. -/
structure Version where
  attributes : Attributes
  attrHash : String
  validFrom : Timestamp
  validTo : Timestamp
  isCurrent : Bool
  recordedAt : Timestamp
  deriving DecidableEq

/-- What a version of the table is about (`tracked`), and what identifies it: its natural key and
    the columns that the key determines. -/
structure Dimension where
  keyCols : List String
  identity : NaturalKey → List (String × Cell)
  tracked : List String
  subscribed_tracked : "subscribed" ∈ tracked
  subscribed_notKey : "subscribed" ∉ keyCols

def Dimension.naturalKey (dim : Dimension) (row : Attributes) : NaturalKey := dim.keyCols.map row.cell

theorem Dimension.naturalKey_carried (dim : Dimension) (row : Attributes) :
    dim.naturalKey row.carried = dim.naturalKey row := by
  refine List.map_congr_left fun f hf => ?_
  have hne : f ≠ "subscribed" := fun he => dim.subscribed_notKey (he ▸ hf)
  rw [Attributes.cell_carried, if_neg hne]

/-- A row that `load_dims` lists under `k`. -/
structure Dimension.Lists (dim : Dimension) (k : NaturalKey) (row : Attributes) : Prop where
  keyed : dim.naturalKey row = k
  identity : ∀ f, f ∉ dim.tracked → row.get? f = (dim.identity k).lookup f
  subscribed : row.subscribed = true

/-- The rows that are true now, as `load_dims` hands them to `_merge_dim`. -/
structure Current (dim : Dimension) where
  rows : Dict NaturalKey Attributes
  lists : ∀ k row, rows.get? k = some row → dim.Lists k row

namespace Current

variable {dim : Dimension}

def empty : Current dim := ⟨Dict.empty, fun _ _ h => by cases h⟩

def insert (c : Current dim) (k : NaturalKey) (row : Attributes) (h : dim.Lists k row) :
    Current dim where
  rows := c.rows.insert k row
  lists := by
    intro k' row' h'
    rw [Dict.get?_insert] at h'
    split at h'
    · rename_i hk
      cases h'
      exact hk ▸ h
    · exact c.lists k' row' h'

end Current

/-! ## The plan -/

/-- A version to append, and whether the open version of its key is closed first. -/
structure Change where
  key : NaturalKey
  closes : Bool
  opens : Version

section Plan

variable (sha256 : String → String) (tracked : List String) (runTs : Timestamp)

def version (row : Attributes) (validFrom : Timestamp) : Version where
  attributes := row
  attrHash := attrHash sha256 tracked row
  validFrom := validFrom
  validTo := FOREVER
  isCurrent := true
  recordedAt := runTs

/-- The body of the loop over `current`. -/
def listed (previous : Dict NaturalKey Version) (key : NaturalKey) (row : Attributes) :
    List Change :=
  match previous.get? key with
  | some v =>
    if v.attrHash = attrHash sha256 tracked row then []
    else [⟨key, true, version sha256 tracked runTs row runTs⟩]
  | none => [⟨key, false, version sha256 tracked runTs row EPOCH⟩]

/-- The body of the loop over `previous`. -/
def delisted (current : Dict NaturalKey Attributes) (key : NaturalKey) (v : Version) :
    List Change :=
  if (current.get? key).isSome || !v.attributes.subscribed then []
  else [⟨key, true, version sha256 tracked runTs v.attributes.carried runTs⟩]

def changes (previous : Dict NaturalKey Version) (current : Dict NaturalKey Attributes) :
    List Change :=
  (current.entries.flatMap fun e => listed sha256 tracked runTs previous e.1 e.2) ++
    previous.entries.flatMap fun e => delisted sha256 tracked runTs current e.1 e.2

/-- The keys to close and the versions to insert. -/
def plan (previous : Dict NaturalKey Version) (current : Dict NaturalKey Attributes) :
    List NaturalKey × List Version :=
  let cs := changes sha256 tracked runTs previous current
  ((cs.filter Change.closes).map Change.key, cs.map Change.opens)

/-- The plan for one key: from its open version and the row the registry has for it, the version
    that opens. -/
def planKey (openVersion : Option Version) (offered : Option Attributes) : Option Version :=
  match offered, openVersion with
  | some row, some v =>
    if v.attrHash = attrHash sha256 tracked row then none
    else some (version sha256 tracked runTs row runTs)
  | some row, none => some (version sha256 tracked runTs row EPOCH)
  | none, some v =>
    if v.attributes.subscribed then some (version sha256 tracked runTs v.attributes.carried runTs)
    else none
  | none, none => none

theorem filter_changes (previous : Dict NaturalKey Version) (current : Dict NaturalKey Attributes)
    (k : NaturalKey) :
    (changes sha256 tracked runTs previous current).filter (fun c => c.key = k) =
      ((planKey sha256 tracked runTs (previous.get? k) (current.get? k)).map fun v =>
        ⟨k, (previous.get? k).isSome, v⟩).toList := by
  have hlisted : ∀ k row, ∀ c ∈ listed sha256 tracked runTs previous k row, c.key = k := by
    intro k row c hc
    unfold listed at hc
    split at hc
    · split at hc
      · cases hc
      · rw [List.mem_singleton.1 hc]
    · rw [List.mem_singleton.1 hc]
  have hdelisted : ∀ k v, ∀ c ∈ delisted sha256 tracked runTs current k v, c.key = k := by
    intro k v c hc
    unfold delisted at hc
    split at hc
    · cases hc
    · rw [List.mem_singleton.1 hc]
  rw [changes, List.filter_append, Dict.filter_flatMap_entries Change.key _ hlisted,
    Dict.filter_flatMap_entries Change.key _ hdelisted]
  cases hp : previous.get? k with
  | none =>
    cases hc : current.get? k with
    | none => rfl
    | some row => simp [listed, planKey, hp]
  | some v =>
    cases hc : current.get? k with
    | none =>
      by_cases hs : v.attributes.subscribed = true
      · simp [delisted, planKey, hc, hs]
      · simp [delisted, planKey, hc, hs]
    | some row =>
      by_cases hh : v.attrHash = attrHash sha256 tracked row
      · simp [listed, delisted, planKey, hp, hc, hh]
      · simp [listed, delisted, planKey, hp, hc, hh]

end Plan

/-! ## The two commits -/

/-- The rows of a dimension table, in the order of the commits that wrote them. -/
abbrev Table := List Version

section Merge

variable (sha256 : String → String) (dim : Dimension)

/-- The `is_current` slice, by natural key. -/
def previous (table : Table) : Dict NaturalKey Version :=
  Dict.ofItems ((table.filter Version.isCurrent).map fun v => (dim.naturalKey v.attributes, v))

/-- What the MERGE does to a row. -/
def closeRow (close : List NaturalKey) (runTs : Timestamp) (v : Version) : Version :=
  if dim.naturalKey v.attributes ∈ close ∧ v.isCurrent = true then
    { v with validTo := runTs, isCurrent := false }
  else v

/-- The table after the first commit of `_merge_dim`: a run with nothing to close does not make
    it, and then the MERGE would change nothing. -/
def closed (table : Table) (current : Current dim) (runTs : Timestamp) : Table :=
  let close := (plan sha256 dim.tracked runTs (previous dim table) current.rows).1
  table.map (closeRow dim close runTs)

/-- The table after both commits. -/
def merged (table : Table) (current : Current dim) (runTs : Timestamp) : Table :=
  closed sha256 dim table current runTs ++
    (plan sha256 dim.tracked runTs (previous dim table) current.rows).2

end Merge

/-! ## The versions of one key -/

section OneKey

variable (sha256 : String → String) (dim : Dimension)

def versionsOf (table : Table) (k : NaturalKey) : List Version :=
  table.filter fun v => dim.naturalKey v.attributes = k

def openVersion (table : Table) (k : NaturalKey) : Option Version :=
  ((versionsOf dim table k).filter Version.isCurrent).getLast?

def Version.close (runTs : Timestamp) (v : Version) : Version :=
  if v.isCurrent then { v with validTo := runTs, isCurrent := false } else v

variable {dim}

theorem versionsOf_append (t t' : Table) (k : NaturalKey) :
    versionsOf dim (t ++ t') k = versionsOf dim t k ++ versionsOf dim t' k := List.filter_append ..

theorem mem_versionsOf {table : Table} {k : NaturalKey} {v : Version} :
    v ∈ versionsOf dim table k ↔ v ∈ table ∧ dim.naturalKey v.attributes = k := by
  simp [versionsOf]

theorem openVersion_mem {table : Table} {k : NaturalKey} {v : Version}
    (h : openVersion dim table k = some v) : v ∈ versionsOf dim table k ∧ v.isCurrent = true :=
  List.mem_filter.1 (List.mem_of_getLast? h)

theorem openVersion_isSome_of_mem {table : Table} {k : NaturalKey} {v : Version}
    (hv : v ∈ versionsOf dim table k) (hc : v.isCurrent = true) :
    (openVersion dim table k).isSome = true := by
  have hmem : v ∈ (versionsOf dim table k).filter Version.isCurrent := List.mem_filter.2 ⟨hv, hc⟩
  rw [openVersion, List.getLast?_isSome]
  exact List.ne_nil_of_mem hmem

theorem get?_previous (table : Table) (k : NaturalKey) :
    (previous dim table).get? k = openVersion dim table k := by
  rw [previous, Dict.get?_ofItems_eq_getLast?, List.filter_map, List.map_map, openVersion,
    versionsOf, List.filter_filter, List.filter_filter]
  congr 1
  refine (List.map_id'' (fun v => rfl) _).trans (List.filter_congr fun v _ => ?_)
  exact Bool.and_comm _ _

variable (table : Table) (current : Current dim) (runTs : Timestamp) (k : NaturalKey)

/-- The version that a run opens for one key. -/
def opens : Option Version :=
  planKey sha256 dim.tracked runTs (openVersion dim table k) (current.rows.get? k)

theorem mem_close :
    k ∈ (plan sha256 dim.tracked runTs (previous dim table) current.rows).1 ↔
      (openVersion dim table k).isSome = true ∧ (opens sha256 table current runTs k).isSome = true := by
  have hone := filter_changes sha256 dim.tracked runTs (previous dim table) current.rows k
  rw [get?_previous] at hone
  have hmem : k ∈ (plan sha256 dim.tracked runTs (previous dim table) current.rows).1 ↔
      ∃ c ∈ (changes sha256 dim.tracked runTs (previous dim table) current.rows).filter
        (fun c => c.key = k), c.closes = true := by
    simp only [plan, List.mem_map, List.mem_filter, decide_eq_true_eq]
    constructor
    · rintro ⟨c, ⟨hc, hcl⟩, hk⟩
      exact ⟨c, ⟨hc, hk⟩, hcl⟩
    · rintro ⟨c, ⟨hc, hk⟩, hcl⟩
      exact ⟨c, ⟨hc, hcl⟩, hk⟩
  rw [hmem, hone, opens]
  cases planKey sha256 dim.tracked runTs (openVersion dim table k) (current.rows.get? k) with
  | none => simp
  | some v => simp

theorem naturalKey_opens {v : Version} (h : opens sha256 table current runTs k = some v) :
    dim.naturalKey v.attributes = k := by
  unfold opens planKey at h
  split at h
  · rename_i row _ hrow _
    split at h
    · cases h
    · cases h
      exact (current.lists k row hrow).keyed
  · rename_i row hrow _
    cases h
    exact (current.lists k row hrow).keyed
  · rename_i v hv
    split at h
    · cases h
      exact (dim.naturalKey_carried _).trans (mem_versionsOf.1 (openVersion_mem hv).1).2
    · cases h
  · cases h

theorem versionsOf_closed :
    versionsOf dim (closed sha256 dim table current runTs) k =
      if (opens sha256 table current runTs k).isSome then
        (versionsOf dim table k).map (Version.close runTs)
      else versionsOf dim table k := by
  have hkey : ∀ close v, dim.naturalKey (closeRow dim close runTs v).attributes =
      dim.naturalKey v.attributes := by
    intro close v
    unfold closeRow
    split <;> rfl
  have hrow : ∀ v ∈ versionsOf dim table k,
      closeRow dim (plan sha256 dim.tracked runTs (previous dim table) current.rows).1 runTs v =
        if (opens sha256 table current runTs k).isSome then v.close runTs else v := by
    intro v hv
    unfold closeRow Version.close
    by_cases hc : v.isCurrent = true
    · simp [hc, (mem_versionsOf.1 hv).2, mem_close, openVersion_isSome_of_mem hv hc]
    · simp [hc]
  have hfilter : versionsOf dim (closed sha256 dim table current runTs) k =
      (versionsOf dim table k).map
        (closeRow dim (plan sha256 dim.tracked runTs (previous dim table) current.rows).1 runTs) := by
    unfold closed versionsOf
    rw [List.filter_map]
    simp only [Function.comp_def, hkey]
  rw [hfilter, List.map_congr_left hrow]
  split
  · rfl
  · exact List.map_id' _

theorem versionsOf_inserted :
    versionsOf dim (plan sha256 dim.tracked runTs (previous dim table) current.rows).2 k =
      (opens sha256 table current runTs k).toList := by
  have hchange : ∀ c ∈ changes sha256 dim.tracked runTs (previous dim table) current.rows,
      dim.naturalKey c.opens.attributes = c.key := by
    intro c hc
    have hin : c ∈ (changes sha256 dim.tracked runTs (previous dim table) current.rows).filter
        (fun c' => c'.key = c.key) := List.mem_filter.2 ⟨hc, decide_eq_true rfl⟩
    rw [filter_changes, get?_previous] at hin
    obtain ⟨v, hv, hcv⟩ := Option.map_eq_some_iff.1 (Option.mem_toList.1 hin)
    rw [← hcv]
    exact naturalKey_opens sha256 table current runTs c.key hv
  rw [plan, versionsOf, List.filter_map]
  have hfilter : (changes sha256 dim.tracked runTs (previous dim table) current.rows).filter
        ((fun v : Version => decide (dim.naturalKey v.attributes = k)) ∘ Change.opens) =
      (changes sha256 dim.tracked runTs (previous dim table) current.rows).filter
        (fun c => c.key = k) :=
    List.filter_congr fun c hc => by simp only [Function.comp_apply, hchange c hc]
  rw [hfilter, filter_changes, get?_previous, opens]
  cases planKey sha256 dim.tracked runTs (openVersion dim table k) (current.rows.get? k) with
  | none => rfl
  | some v => rfl

theorem versionsOf_merged :
    versionsOf dim (merged sha256 dim table current runTs) k =
      match opens sha256 table current runTs k with
      | none => versionsOf dim table k
      | some v => (versionsOf dim table k).map (Version.close runTs) ++ [v] := by
  rw [merged, versionsOf_append, versionsOf_closed, versionsOf_inserted]
  cases opens sha256 table current runTs k with
  | none => simp
  | some v => simp

end OneKey

end K2.Lake.Scd2
