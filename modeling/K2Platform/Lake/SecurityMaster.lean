import Mathlib.Data.List.TakeWhile
import K2Platform.Lib.AsOfJoin
import K2Platform.Lake.Scd2Tiling

/-!
# The security master as of a trade

`k2lake.trades` joins each trade to `gold.dim_instrument` on venue and symbol with an as-of join on
`valid_from` alone.  Over the table that completed runs of `_merge_dim` leave, that join gives one
version, the one whose interval holds the trade, and its attributes are what the registry said last
at or before the trade; of a trade older than the first run, what it said first.

* `inForce` — what the registry said, read off the runs alone.
* `holds_tableAfter` — the version that holds at an instant says it.
* `master_as_of` — the join.
-/

set_option autoImplicit false

namespace K2.Lake.Scd2

open Timeline AsOfJoin

variable (sha256 : String → String) {dim : Dimension}

/-! ## What the registry said -/

/-- The first row a run lists for the key. -/
def firstListed (runs : List (Run dim)) (k : NaturalKey) : Option Attributes :=
  runs.findSome? fun r => r.current.rows.get? k

/-- What the registry says of the key at an instant: what the runs up to then say last, and before
    the first of them what the first to list it says. -/
def inForce (runs : List (Run dim)) (k : NaturalKey) (t : Timestamp) : Option Attributes :=
  (registered (runs.takeWhile fun r => r.runTs ≤ t) k).or (firstListed runs k)

section InForce

variable {runs : List (Run dim)} {r : Run dim} {k : NaturalKey} {t : Timestamp}

theorem firstListed_append (runs : List (Run dim)) (r : Run dim) (k : NaturalKey) :
    firstListed (runs ++ [r]) k = (firstListed runs k).or (r.current.rows.get? k) := by
  simp [firstListed, List.findSome?_append]

theorem firstListed_eq_none_iff :
    firstListed runs k = none ↔ ∀ r ∈ runs, r.current.rows.get? k = none := by
  rw [firstListed, List.findSome?_eq_none_iff]

theorem registered_eq_none_iff : registered runs k = none ↔ firstListed runs k = none := by
  rw [firstListed_eq_none_iff]
  constructor
  · intro h r hr
    by_contra hlisted
    exact registered_ne_none hr hlisted h
  · intro h
    induction runs using List.reverseRecOn with
    | nil => rfl
    | append_singleton runs r ih =>
      rw [registered_append, h r (by simp), ih fun r' hr' => h r' (List.mem_append_left _ hr')]
      rfl

theorem le_lastTs (hts : Increasing runs) (hr : r ∈ runs) : r.runTs ≤ lastTs runs := by
  induction runs using List.reverseRecOn with
  | nil => cases hr
  | append_singleton runs last ih =>
    obtain ⟨hts', hlast, -, -⟩ := hts.append
    rw [lastTs_append]
    rcases List.mem_append.1 hr with hr | hr
    · exact (ih hts' hr).trans hlast.le
    · rw [List.mem_singleton.1 hr]

/-- From the last run on, the registry says what it says now. -/
theorem inForce_of_le (hts : Increasing runs) (ht : lastTs runs ≤ t) :
    inForce runs k t = registered runs k := by
  have hall : runs.takeWhile (fun r => r.runTs ≤ t) = runs := by
    refine List.takeWhile_eq_self_iff.2 fun r hr => decide_eq_true ?_
    exact (le_lastTs hts hr).trans ht
  rw [inForce, hall]
  cases hreg : registered runs k with
  | some row => rfl
  | none => rw [registered_eq_none_iff.1 hreg]; rfl

/-- A later run says nothing of an instant before it, unless it is the first to list the key. -/
theorem inForce_append_of_lt (ht : t < r.runTs) :
    inForce (runs ++ [r]) k t = (inForce runs k t).or (r.current.rows.get? k) := by
  have htake : (runs ++ [r]).takeWhile (fun r => r.runTs ≤ t) =
      runs.takeWhile fun r => r.runTs ≤ t := by
    rw [List.takeWhile_append]
    split
    · rename_i hall
      have hnot : ¬ r.runTs ≤ t := not_le.2 ht
      rw [(List.takeWhile_sublist _).eq_of_length hall]
      simp [hnot]
    · rfl
  rw [inForce, htake, firstListed_append, ← Option.or_assoc]
  rfl

theorem inForce_eq_none_iff :
    inForce runs k t = none ↔ registered runs k = none := by
  rw [registered_eq_none_iff, inForce, Option.or_eq_none_iff]
  constructor
  · exact And.right
  · intro hnone
    refine ⟨?_, hnone⟩
    rw [registered_eq_none_iff, firstListed_eq_none_iff]
    exact fun r hr => firstListed_eq_none_iff.1 hnone r ((List.takeWhile_sublist _).subset hr)

end InForce

/-! ## What the table says -/

/-- A version holds at the instant, and its attributes are `row`. -/
def HoldsAt (versions : List Version) (t : Timestamp) (row : Attributes) : Prop :=
  ∃ v ∈ versions, v.validFrom ≤ t ∧ t < v.validTo ∧ ∀ f, v.attributes.cell f = row.cell f

/-- What a run closes goes on holding at the instants before the run. -/
theorem HoldsAt.close {versions : List Version} {t runTs : Timestamp} {row : Attributes}
    (h : HoldsAt versions t row) (ht : t < runTs) :
    HoldsAt (versions.map (Version.close runTs)) t row := by
  obtain ⟨v, hv, hfrom, hto, hcell⟩ := h
  refine ⟨v.close runTs, List.mem_map_of_mem hv, ?_, ?_, ?_⟩
  · unfold Version.close
    split <;> exact hfrom
  · unfold Version.close
    split
    · exact ht
    · exact hto
  · rw [(attributes_close runTs v).1]
    exact hcell

section Table

variable {runs : List (Run dim)} {k : NaturalKey} {t : Timestamp} {row : Attributes}

/-- From the last run on the open version holds. -/
theorem holds_of_settled {all : List (Run dim)} {last : Timestamp} {h : List Version}
    (hs : Settled sha256 all k row h) (hstate : KeyState last h) (ht : last ≤ t)
    (hforever : t < FOREVER) : HoldsAt h t row := by
  obtain ⟨pre, v, rfl, hcurrent, hcell⟩ := hs.last
  generalize hh : pre ++ [v] = h at hstate
  cases hstate with
  | unseen => simp at hh
  | stranded _ hclosed _ _ =>
    have hclosed' := hclosed v (hh ▸ List.mem_append_right _ List.mem_cons_self)
    rw [hcurrent] at hclosed'
    cases hclosed'
  | opened hpre hc hfrom hto htiles =>
    obtain ⟨-, hv⟩ := List.append_inj' hh rfl
    obtain rfl := List.head_eq_of_cons_eq hv
    exact ⟨v, List.mem_append_right _ List.mem_cons_self, hfrom.trans ht, hto ▸ hforever, hcell⟩

/-- **At every instant the table says what the registry said of it.** -/
theorem holds_tableAfter {all : List (Run dim)} (hfree : CollisionFree sha256 all)
    (hepoch : EPOCH ≤ t) (hforever : t < FOREVER) :
    ∀ runs : List (Run dim), (∀ r ∈ runs, r ∈ all ∧ r.interrupted = none) → Increasing runs →
      ∀ row, inForce runs k t = some row →
        HoldsAt (versionsOf dim (tableAfter sha256 runs) k) t row := by
  intro runs
  induction runs using List.reverseRecOn with
  | nil =>
    intro _ _ row hrow
    cases hrow
  | append_singleton runs r ih =>
    intro hall hts row hrow
    have hall' : ∀ r' ∈ runs, r' ∈ all ∧ r'.interrupted = none := fun r' hr' =>
      hall r' (List.mem_append_left _ hr')
    obtain ⟨hts', -, -, -⟩ := hts.append
    obtain ⟨hfollows, hstate⟩ := follows_tableAfter sha256 hfree (runs ++ [r]) hall hts k
    rw [lastTs_append] at hstate
    rcases le_or_gt r.runTs t with hle | hlt
    · -- the run is behind the instant: what holds is the version it leaves open
      rw [inForce_of_le hts (lastTs_append runs r ▸ hle)] at hrow
      rw [hrow] at hfollows
      exact holds_of_settled sha256 hfollows hstate hle hforever
    · rw [inForce_append_of_lt hlt] at hrow
      rw [tableAfter_append sha256 runs r (hall r (by simp)).2, versionsOf_merged]
      cases hbefore : inForce runs k t with
      | some row' =>
        rw [hbefore, Option.some_or] at hrow
        cases hrow
        have hheld := ih hall' hts' row hbefore
        cases opens sha256 (tableAfter sha256 runs) r.current r.runTs k with
        | none => exact hheld
        | some v =>
          obtain ⟨w, hw, hholds⟩ := hheld.close hlt
          exact ⟨w, List.mem_append_left _ hw, hholds⟩
      | none =>
        -- the run is the first to list the key, and its version opens at `EPOCH`
        rw [hbefore, Option.none_or] at hrow
        have hnew := (follows_tableAfter sha256 hfree runs hall' hts' k).1
        rw [inForce_eq_none_iff.1 hbefore] at hnew
        have hopen : openVersion dim (tableAfter sha256 runs) k = none := by
          rw [openVersion, show versionsOf dim (tableAfter sha256 runs) k = [] from hnew]
          rfl
        have hopens : ∃ v, opens sha256 (tableAfter sha256 runs) r.current r.runTs k = some v ∧
            v.attributes = row := by
          rw [opens, hopen, hrow]
          exact ⟨_, rfl, rfl⟩
        obtain ⟨v, hv, rfl⟩ := hopens
        obtain ⟨-, hto, hfrom⟩ := opens_version sha256 hv
        rw [hv]
        refine ⟨v, List.mem_append_right _ List.mem_cons_self, ?_, hto ▸ hforever, fun f => rfl⟩
        rw [hfrom, hopen]
        exact hepoch

end Table

/-! ## The join -/

/-- What `trades` joins of the dimension: `t.exchange_ts >= d.valid_from` on one natural key. -/
def MasterJoined (dim : Dimension) (table : Table) (k : NaturalKey) (exchangeTs : Timestamp) :
    Option Version → Prop :=
  Joined Version.validFrom (versionsOf dim table k) exchangeTs

/-- **The version that is joined is the one in force.**  After completed runs, whatever they found
    in the registry: a trade of a key the registry never listed has no master columns; any other
    has one version, which holds at the trade, and its columns are what the registry said last by
    then, or first if the trade is older than all it said. -/
theorem master_as_of (runs : List (Run dim)) (hts : Increasing runs)
    (hdone : ∀ r ∈ runs, r.interrupted = none) (hfree : CollisionFree sha256 runs)
    (k : NaturalKey) {exchangeTs : Timestamp} (hepoch : EPOCH ≤ exchangeTs)
    (hforever : exchangeTs < FOREVER) :
    (inForce runs k exchangeTs = none →
        ∀ joined, MasterJoined dim (tableAfter sha256 runs) k exchangeTs joined ↔ joined = none) ∧
      ∀ row, inForce runs k exchangeTs = some row →
        ∃ v, (∀ joined, MasterJoined dim (tableAfter sha256 runs) k exchangeTs joined ↔
            joined = some v) ∧
          v.validFrom ≤ exchangeTs ∧ exchangeTs < v.validTo ∧
            ∀ f, v.attributes.cell f = row.cell f := by
  have hall : ∀ r ∈ runs, r ∈ runs ∧ r.interrupted = none := fun r hr => ⟨hr, hdone r hr⟩
  obtain ⟨hfollows, hstate⟩ := follows_tableAfter sha256 hfree runs hall hts k
  constructor
  · intro hnone joined
    rw [inForce_eq_none_iff.1 hnone] at hfollows
    have hnil : versionsOf dim (tableAfter sha256 runs) k = [] := hfollows
    rw [MasterJoined, hnil]
    constructor
    · intro h
      cases h with
      | found mem _ _ => cases mem
      | missed _ => rfl
    · rintro rfl
      exact .missed fun r hr => absurd hr List.not_mem_nil
  · intro row hrow
    obtain ⟨v, hv, hfrom, hto, hcell⟩ :=
      holds_tableAfter sha256 hfree hepoch hforever runs hall hts row hrow
    obtain ⟨stop, htiles⟩ := hstate.tiles
    exact ⟨v, joined_iff_of_tiles htiles hv hfrom hto, hfrom, hto, hcell⟩

/-- The venue is gone since the second run; a trade before the first is joined to what that says. -/
theorem master_before_first_run :
    ∃ v, (∀ joined, MasterJoined (DIM_VENUE id) (tableAfter id venueGone) [.str "kraken"] 0 joined ↔
        joined = some v) ∧
      ∀ f, v.attributes.cell f = (venueRow id "kraken" 25 2).cell f := by
  have hts : Increasing venueGone := by
    refine ⟨by decide, fun r hr => ?_⟩
    have hall : ∀ t ∈ venueGone.map Run.runTs, t < FOREVER := by decide
    exact hall _ (List.mem_map_of_mem hr)
  have hdone : ∀ r ∈ venueGone, r.interrupted = none := by
    intro r hr
    have hall : ∀ i ∈ venueGone.map Run.interrupted, i = none := by decide
    exact hall _ (List.mem_map_of_mem hr)
  have hsaid : inForce venueGone [.str "kraken"] 0 = some (venueRow id "kraken" 25 2) := by
    decide +kernel
  obtain ⟨v, hjoined, -, -, hcell⟩ := (master_as_of id venueGone hts hdone collisionFree_venueGone
    [.str "kraken"] (by decide) (by decide)).2 _ hsaid
  exact ⟨v, hjoined, hcell⟩

end K2.Lake.Scd2
