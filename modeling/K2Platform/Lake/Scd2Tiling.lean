import Mathlib.Data.List.Chain
import K2Platform.Lake.Scd2Runs

/-!
# Uninterrupted runs tile every timeline

A sequence of completed runs of `_merge_dim`.  The open version of a key follows what the
registry last said of it: its row while it is listed, that row with `subscribed = false` once it
is gone.

* `follows_step`, `follows_tableAfter` — what one run and a whole sequence preserve.
* `versions_tile` — the timelines, and what a repeated registry writes.
-/

set_option autoImplicit false

namespace K2.Lake.Scd2

open Timeline

variable (sha256 : String → String) {dim : Dimension}

/-! ## What the registry said -/

/-- A row of one key that a run lists, or the row carried forward from it. -/
def Occurs (runs : List (Run dim)) (k : NaturalKey) (row : Attributes) : Prop :=
  ∃ r ∈ runs, ∃ listed, r.current.rows.get? k = some listed ∧ (row = listed ∨ row = listed.carried)

/-- No two rows of one key that occur in the runs have one hash and different tracked values. -/
def CollisionFree (runs : List (Run dim)) : Prop :=
  ∀ k a b, Occurs runs k a → Occurs runs k b →
    attrHash sha256 dim.tracked a = attrHash sha256 dim.tracked b →
      ∀ f ∈ dim.tracked, a.cell f = b.cell f

/-- The last row of the key, carried forward by every later run that does not list it. -/
def registered (runs : List (Run dim)) (k : NaturalKey) : Option Attributes :=
  runs.foldl (fun row r => (r.current.rows.get? k).or (row.map Attributes.carried)) none

section Occurs

variable {runs : List (Run dim)} {k : NaturalKey} {row : Attributes}

theorem Occurs.cell_identity (h : Occurs runs k row) {f : String} (hf : f ∉ dim.tracked) :
    row.cell f = ((dim.identity k).lookup f).getD .null := by
  obtain ⟨r, _, listed, hlisted, hrow⟩ := h
  have hcell : listed.cell f = ((dim.identity k).lookup f).getD .null := by
    rw [Attributes.cell, Dict.getD, (r.current.lists k listed hlisted).identity f hf]
  rcases hrow with rfl | rfl
  · exact hcell
  · rw [Attributes.cell_carried, if_neg fun he : f = "subscribed" =>
      hf (he ▸ dim.subscribed_tracked), hcell]

/-- Rows that occur under one key with one hash are the same row. -/
theorem CollisionFree.cell_eq (hfree : CollisionFree sha256 runs) {a b : Attributes}
    (ha : Occurs runs k a) (hb : Occurs runs k b)
    (hab : attrHash sha256 dim.tracked a = attrHash sha256 dim.tracked b) (f : String) :
    a.cell f = b.cell f := by
  by_cases hf : f ∈ dim.tracked
  · exact hfree k a b ha hb hab f hf
  · rw [ha.cell_identity hf, hb.cell_identity hf]

theorem Occurs.cell_subscribed (h : Occurs runs k row) :
    row.cell "subscribed" = .bool row.subscribed := by
  obtain ⟨r, _, listed, hlisted, hrow⟩ := h
  rcases hrow with rfl | rfl
  · have hsub := (r.current.lists k row hlisted).subscribed
    rw [hsub]
    simpa [Attributes.subscribed] using hsub
  · rw [Attributes.subscribed_carried, Attributes.cell_carried, if_pos rfl]

theorem Occurs.carried (h : Occurs runs k row) (hsub : row.subscribed = true) :
    Occurs runs k row.carried := by
  obtain ⟨r, hr, listed, hlisted, hrow⟩ := h
  rcases hrow with rfl | rfl
  · exact ⟨r, hr, row, hlisted, Or.inr rfl⟩
  · simp at hsub

end Occurs

theorem registered_append (runs : List (Run dim)) (r : Run dim) (k : NaturalKey) :
    registered (runs ++ [r]) k =
      (r.current.rows.get? k).or ((registered runs k).map Attributes.carried) := by
  rw [registered, List.foldl_append]
  rfl

/-- A key that has not been listed since `r` keeps the row it had there. -/
theorem registered_of_gone (pre : List (Run dim)) {r : Run dim} {k : NaturalKey} {row : Attributes}
    (hrow : r.current.rows.get? k = some row) (post : List (Run dim)) (hne : post ≠ [])
    (hgone : ∀ r' ∈ post, r'.current.rows.get? k = none) :
    ∃ w, registered (pre ++ r :: post) k = some w ∧ ∀ f, w.cell f = row.carried.cell f := by
  induction post using List.reverseRecOn with
  | nil => exact absurd rfl hne
  | append_singleton post r' ih =>
    have hlast : r'.current.rows.get? k = none := hgone r' (by simp)
    have happend : pre ++ r :: (post ++ [r']) = (pre ++ r :: post) ++ [r'] := by simp
    rw [happend, registered_append, hlast, Option.none_or]
    cases hpost : post with
    | nil =>
      have hpre : registered (pre ++ [r]) k = some row := by
        rw [registered_append, hrow, Option.some_or]
      rw [hpre]
      exact ⟨row.carried, rfl, fun _ => rfl⟩
    | cons r'' post' =>
      obtain ⟨w, hw, hcell⟩ := ih (hpost ▸ List.cons_ne_nil _ _)
        fun r₁ hr₁ => hgone r₁ (List.mem_append_left _ hr₁)
      rw [← hpost, hw]
      refine ⟨w.carried, rfl, fun f => ?_⟩
      rw [Attributes.cell_carried, Attributes.cell_carried]
      by_cases hf : f = "subscribed"
      · rw [if_pos hf, if_pos hf]
      · rw [if_neg hf, if_neg hf, hcell, Attributes.cell_carried, if_neg hf]

theorem registered_ne_none {runs : List (Run dim)} {k : NaturalKey} {r : Run dim} (hr : r ∈ runs)
    (hlists : r.current.rows.get? k ≠ none) : registered runs k ≠ none := by
  induction runs using List.reverseRecOn with
  | nil => cases hr
  | append_singleton runs r' ih =>
    rw [registered_append]
    rcases List.mem_append.1 hr with hr | hr
    · obtain ⟨row, hrow⟩ := Option.ne_none_iff_exists'.1 (ih hr)
      rw [hrow]
      cases r'.current.rows.get? k with
      | none => exact Option.some_ne_none _
      | some _ => exact Option.some_ne_none _
    · obtain ⟨row, hrow⟩ := Option.ne_none_iff_exists'.1 hlists
      rw [← List.mem_singleton.1 hr, hrow]
      exact Option.some_ne_none _

/-! ## One key -/

/-- The versions of a key follow `row`, the last the registry said of it. -/
structure Settled (runs : List (Run dim)) (k : NaturalKey) (row : Attributes) (h : List Version) :
    Prop where
  last : ∃ pre v, h = pre ++ [v] ∧ v.isCurrent = true ∧ ∀ f, v.attributes.cell f = row.cell f
  recorded : ∀ u ∈ h, Occurs runs k u.attributes ∧
    u.attrHash = attrHash sha256 dim.tracked u.attributes
  adjacent : h.IsChain fun u w => u.attrHash ≠ w.attrHash

def Follows (runs : List (Run dim)) (k : NaturalKey) (o : Option Attributes) (h : List Version) :
    Prop :=
  match o with
  | none => h = []
  | some row => Settled sha256 runs k row h

section Settled

variable {runs : List (Run dim)} {k : NaturalKey} {row : Attributes} {table : Table}

theorem attributes_close (t : Timestamp) (v : Version) :
    (v.close t).attributes = v.attributes ∧ (v.close t).attrHash = v.attrHash := by
  unfold Version.close
  split <;> exact ⟨rfl, rfl⟩

/-- Closing what is open and opening a version with another hash. -/
theorem Settled.append {h : List Version} (hs : Settled sha256 runs k row h) (t : Timestamp)
    {v w : Version} (hv : h.getLast? = some v) (hcurrent : w.isCurrent = true)
    (hoccurs : Occurs runs k w.attributes)
    (hhash : w.attrHash = attrHash sha256 dim.tracked w.attributes) (hne : v.attrHash ≠ w.attrHash) :
    Settled sha256 runs k w.attributes (h.map (Version.close t) ++ [w]) where
  last := ⟨_, w, rfl, hcurrent, fun _ => rfl⟩
  recorded := by
    intro u hu
    rcases List.mem_append.1 hu with hu | hu
    · obtain ⟨u', hu', rfl⟩ := List.mem_map.1 hu
      rw [(attributes_close t u').1, (attributes_close t u').2]
      exact hs.recorded u' hu'
    · rw [List.mem_singleton.1 hu]
      exact ⟨hoccurs, hhash⟩
  adjacent := by
    refine List.isChain_append.2 ⟨?_, List.isChain_singleton _, ?_⟩
    · refine List.isChain_map_of_isChain (Version.close t) (fun a b hab => ?_) hs.adjacent
      rw [(attributes_close t a).2, (attributes_close t b).2]
      exact hab
    · intro a ha b hb
      rw [List.getLast?_map, hv] at ha
      obtain rfl := Option.mem_some_iff.1 ha
      obtain rfl := Option.mem_some_iff.1 hb
      rw [(attributes_close t v).2]
      exact hne

theorem Settled.openVersion (hs : Settled sha256 runs k row (versionsOf dim table k)) :
    ∃ v, openVersion dim table k = some v ∧ (versionsOf dim table k).getLast? = some v ∧
      v ∈ versionsOf dim table k ∧ ∀ f, v.attributes.cell f = row.cell f := by
  obtain ⟨pre, v, hh, hcurrent, hcell⟩ := hs.last
  refine ⟨v, openVersion_of_append hh hcurrent, ?_, ?_, hcell⟩
  · rw [hh, List.getLast?_concat]
  · rw [hh]
    exact List.mem_append_right _ List.mem_cons_self

theorem attrHash_of_cells {a b : Attributes} (h : ∀ f, a.cell f = b.cell f) :
    attrHash sha256 dim.tracked a = attrHash sha256 dim.tracked b :=
  attrHash_congr sha256 fun f _ => h f

theorem subscribed_of_cells {a b : Attributes} (h : ∀ f, a.cell f = b.cell f) :
    a.subscribed = b.subscribed := by
  unfold Attributes.subscribed
  rw [h]

/-- One completed run keeps the versions of a key following the registry. -/
theorem follows_step (hfree : CollisionFree sha256 runs) {r : Run dim} (hr : r ∈ runs)
    {o : Option Attributes} (hs : Follows sha256 runs k o (versionsOf dim table k)) :
    Follows sha256 runs k ((r.current.rows.get? k).or (o.map Attributes.carried))
      (versionsOf dim (merged sha256 dim table r.current r.runTs) k) := by
  rw [versionsOf_merged]
  cases o with
  | none =>
    have hnil : versionsOf dim table k = [] := hs
    have hopen : openVersion dim table k = none := by rw [openVersion, hnil]; rfl
    cases hlisted : r.current.rows.get? k with
    | none =>
      rw [(opens_eq_none_iff sha256 _ hopen).2 hlisted]
      exact hnil
    | some new =>
      -- The first version of the key.
      have hopens : opens sha256 table r.current r.runTs k =
          some (version sha256 dim.tracked r.runTs new EPOCH) := by
        rw [opens, hopen, hlisted]
        rfl
      rw [hopens, hnil]
      refine ⟨⟨[], _, rfl, rfl, fun _ => rfl⟩, fun u hu => ?_, List.isChain_singleton _⟩
      rw [List.mem_singleton.1 hu]
      exact ⟨⟨r, hr, new, hlisted, Or.inl rfl⟩, rfl⟩
  | some old =>
    have hs : Settled sha256 runs k old (versionsOf dim table k) := hs
    obtain ⟨v, hopen, hlast, hmem, hcell⟩ := hs.openVersion
    obtain ⟨hoccurs, hhash⟩ := hs.recorded v hmem
    cases hlisted : r.current.rows.get? k with
    | some new =>
      have hnew : Occurs runs k new := ⟨r, hr, new, hlisted, Or.inl rfl⟩
      by_cases heq : v.attrHash = attrHash sha256 dim.tracked new
      · -- Unchanged: nothing is written, and the stored row is the listed one.
        have hopens : opens sha256 table r.current r.runTs k = none := by
          rw [opens, hopen, hlisted, planKey, if_pos heq]
        rw [hopens]
        obtain ⟨pre, v', hh, hcurrent, _⟩ := hs.last
        have hvv : v' = v := by
          rw [hh, List.getLast?_concat] at hlast
          exact Option.some.inj hlast
        exact ⟨⟨pre, v', hh, hcurrent, hvv ▸ hfree.cell_eq sha256 hoccurs hnew (hhash ▸ heq)⟩,
          hs.recorded, hs.adjacent⟩
      · have hopens : opens sha256 table r.current r.runTs k =
            some (version sha256 dim.tracked r.runTs new r.runTs) := by
          rw [opens, hopen, hlisted, planKey, if_neg heq]
        rw [hopens]
        exact hs.append sha256 r.runTs hlast
          (w := version sha256 dim.tracked r.runTs new r.runTs) rfl hnew rfl heq
    | none =>
      by_cases hsub : v.attributes.subscribed = true
      · -- Gone: the carried row differs from the open one in `subscribed`.
        have hopens : opens sha256 table r.current r.runTs k =
            some (version sha256 dim.tracked r.runTs v.attributes.carried r.runTs) := by
          rw [opens, hopen, hlisted, planKey, if_pos hsub]
        rw [hopens]
        have hcarried := hoccurs.carried hsub
        have hne : v.attrHash ≠ attrHash sha256 dim.tracked v.attributes.carried := by
          intro heq
          have hcells := hfree.cell_eq sha256 hoccurs hcarried (hhash ▸ heq)
          rw [subscribed_of_cells hcells, Attributes.subscribed_carried] at hsub
          cases hsub
        have happend := hs.append sha256 r.runTs hlast (w := version sha256 dim.tracked r.runTs
          v.attributes.carried r.runTs) rfl hcarried rfl hne
        obtain ⟨pre, w, hh, hcurrent, hw⟩ := happend.last
        refine ⟨⟨pre, w, hh, hcurrent, fun f => ?_⟩, happend.recorded, happend.adjacent⟩
        refine (hw f).trans ?_
        change v.attributes.carried.cell f = old.carried.cell f
        rw [Attributes.cell_carried, Attributes.cell_carried, hcell]
      · -- Already gone: the open version is the carried one.
        have hopens : opens sha256 table r.current r.runTs k = none := by
          rw [opens, hopen, hlisted, planKey, if_neg hsub]
        rw [hopens]
        obtain ⟨pre, v', hh, hcurrent, hold⟩ := hs.last
        have hvv : v' = v := by
          rw [hh, List.getLast?_concat] at hlast
          exact Option.some.inj hlast
        refine ⟨⟨pre, v', hh, hcurrent, fun f => ?_⟩, hs.recorded, hs.adjacent⟩
        rw [Attributes.cell_carried]
        by_cases hf : f = "subscribed"
        · have hfalse : v.attributes.subscribed = false := by simpa using hsub
          rw [if_pos hf, hvv, hf, hoccurs.cell_subscribed, hfalse]
        · rw [if_neg hf, hold]

end Settled

/-! ## The whole table -/

/-- The `run_ts` of the last run. -/
def lastTs (runs : List (Run dim)) : Timestamp := ((runs.map Run.runTs).getLast?).getD EPOCH

theorem lastTs_append (runs : List (Run dim)) (r : Run dim) : lastTs (runs ++ [r]) = r.runTs := by
  rw [lastTs, List.map_append, List.map_singleton, List.getLast?_concat]
  rfl

theorem Increasing.append {runs : List (Run dim)} {r : Run dim} (h : Increasing (runs ++ [r])) :
    Increasing runs ∧ lastTs runs < r.runTs ∧ r.runTs < FOREVER ∧ EPOCH ≤ lastTs runs := by
  obtain ⟨hts, hforever⟩ := h
  rw [List.map_append, ← List.cons_append, List.pairwise_append] at hts
  have hmem : lastTs runs ∈ EPOCH :: runs.map Run.runTs := by
    unfold lastTs
    cases hl : (runs.map Run.runTs).getLast? with
    | none => exact List.mem_cons_self
    | some t => exact List.mem_cons_of_mem _ (List.mem_of_getLast? hl)
  refine ⟨⟨hts.1, fun r' hr' => hforever r' (List.mem_append_left _ hr')⟩,
    hts.2.2 _ hmem _ (by simp), hforever r (by simp), ?_⟩
  rcases List.mem_cons.1 hmem with he | he
  · exact he ▸ le_rfl
  · exact ((List.pairwise_cons.1 hts.1).1 _ he).le

theorem tableAfter_append (runs : List (Run dim)) (r : Run dim) (hdone : r.interrupted = none) :
    tableAfter sha256 (runs ++ [r]) = merged sha256 dim (tableAfter sha256 runs) r.current r.runTs := by
  rw [tableAfter, List.foldl_append]
  change Run.step sha256 (tableAfter sha256 runs) r = _
  rw [Run.step, Run.commits, hdone]
  rfl

/-- After completed runs no key is stranded. -/
theorem not_stranded_of_follows {runs : List (Run dim)} {k : NaturalKey} {o : Option Attributes}
    {table : Table} (hs : Follows sha256 runs k o (versionsOf dim table k)) :
    ¬ Stranded dim table k := by
  rintro ⟨hne, hnone⟩
  cases o with
  | none => exact hne hs
  | some row =>
    obtain ⟨v, hopen, _⟩ := Settled.openVersion sha256 hs
    rw [hopen] at hnone
    cases hnone

theorem follows_tableAfter {all : List (Run dim)} (hfree : CollisionFree sha256 all) :
    ∀ runs : List (Run dim), (∀ r ∈ runs, r ∈ all ∧ r.interrupted = none) → Increasing runs →
      ∀ k, Follows sha256 all k (registered runs k) (versionsOf dim (tableAfter sha256 runs) k) ∧
        KeyState (lastTs runs) (versionsOf dim (tableAfter sha256 runs) k) := by
  intro runs
  induction runs using List.reverseRecOn with
  | nil =>
    intro _ _ k
    exact ⟨rfl, .unseen⟩
  | append_singleton runs r ih =>
    intro hall hts k
    obtain ⟨hts', hlast, hforever, hepoch⟩ := hts.append
    obtain ⟨hr, hdone⟩ := hall r (by simp)
    obtain ⟨hfollows, hstate⟩ := ih (fun r' hr' => hall r' (List.mem_append_left _ hr')) hts' k
    rw [tableAfter_append sha256 runs r hdone, registered_append, lastTs_append]
    exact ⟨follows_step sha256 hfree hr hfollows,
      keyState_merged sha256 hepoch hlast hforever hstate
        fun hk => absurd hk (not_stranded_of_follows sha256 hfollows)⟩

theorem Settled.opened {runs : List (Run dim)} {k : NaturalKey} {row : Attributes}
    {last : Timestamp} {h : List Version} (hs : Settled sha256 runs k row h)
    (hstate : KeyState last h) :
    ∃ v, h.filter Version.isCurrent = [v] ∧ v.validTo = FOREVER ∧
      (∀ f, v.attributes.cell f = row.cell f) ∧ Tiles EPOCH FOREVER (spans h) := by
  obtain ⟨pre, v, hh, hcurrent, hcell⟩ := hs.last
  cases hstate with
  | unseen => simp at hh
  | stranded _ hclosed _ _ =>
    have hmem : v ∈ h := hh ▸ List.mem_append_right _ List.mem_cons_self
    rw [hclosed v hmem] at hcurrent
    cases hcurrent
  | opened hpre hc hfrom hforever htiles =>
    obtain ⟨rfl, hv⟩ := List.append_inj' hh rfl
    obtain rfl := List.head_eq_of_cons_eq hv
    refine ⟨_, ?_, hforever, hcell, htiles⟩
    rw [List.filter_append, List.filter_eq_nil_iff.2 fun u hu => by simp [hpre u hu]]
    simp [hcurrent]

/-! ## A registry that has not changed -/

theorem plan_eq_nil {table : Table} {current : Current dim} {t : Timestamp}
    (h : ∀ k, opens sha256 table current t k = none) :
    plan sha256 dim.tracked t (previous dim table) current.rows = ([], []) := by
  have hnil : changes sha256 dim.tracked t (previous dim table) current.rows = [] := by
    refine List.eq_nil_iff_forall_not_mem.2 fun c hc => ?_
    have hin : c ∈ (changes sha256 dim.tracked t (previous dim table) current.rows).filter
        (fun c' => c'.key = c.key) := List.mem_filter.2 ⟨hc, decide_eq_true rfl⟩
    have hnone := h c.key
    rw [opens] at hnone
    rw [filter_changes, get?_previous, hnone] at hin
    cases hin
  rw [plan, hnil]
  rfl

/-- A run whose rows are those of the run before it has nothing to open. -/
theorem opens_of_same {all : List (Run dim)} {pre : List (Run dim)} {r : Run dim} {table : Table}
    {k : NaturalKey} {current : Current dim} (t : Timestamp)
    (hs : Follows sha256 all k (registered (pre ++ [r]) k) (versionsOf dim table k))
    (hsame : current.rows.get? k = r.current.rows.get? k) :
    opens sha256 table current t k = none := by
  rw [registered_append] at hs
  cases hlisted : r.current.rows.get? k with
  | some row =>
    rw [hlisted] at hs hsame
    obtain ⟨v, hopen, _, hmem, hcell⟩ := Settled.openVersion sha256 hs
    have hhash : v.attrHash = attrHash sha256 dim.tracked row :=
      (Settled.recorded hs v hmem).2.trans (attrHash_of_cells sha256 hcell)
    rw [opens, hopen, hsame, planKey, if_pos hhash]
  | none =>
    rw [hlisted] at hs hsame
    cases hreg : registered pre k with
    | none =>
      rw [hreg] at hs
      have hnil : versionsOf dim table k = [] := hs
      exact (opens_eq_none_iff sha256 _ (by rw [openVersion, hnil]; rfl)).2 hsame
    | some row =>
      rw [hreg] at hs
      obtain ⟨v, hopen, _, _, hcell⟩ := Settled.openVersion sha256 hs
      have hsub : v.attributes.subscribed = false :=
        (subscribed_of_cells hcell).trans (Attributes.subscribed_carried row)
      rw [opens, hopen, hsame, planKey, if_neg (by simp [hsub])]

/-- The timelines that completed runs leave, up to hash collisions: every key ever listed tiles
    `[EPOCH, FOREVER)` with one current version and adjacent versions of different hashes; a key
    that is gone ends in one open version with `subscribed = false` and its last attributes; and
    a run whose rows equal those of the run before it writes nothing. -/
theorem versions_tile (runs : List (Run dim)) (hts : Increasing runs)
    (hdone : ∀ r ∈ runs, r.interrupted = none) (hfree : CollisionFree sha256 runs) :
    (∀ k, (∃ r ∈ runs, r.current.rows.get? k ≠ none) →
        Tiles EPOCH FOREVER (spans (versionsOf dim (tableAfter sha256 runs) k)) ∧
          ((versionsOf dim (tableAfter sha256 runs) k).filter Version.isCurrent).length = 1 ∧
            (versionsOf dim (tableAfter sha256 runs) k).IsChain
              fun u w => u.attrHash ≠ w.attrHash) ∧
      (∀ pre r post k row, runs = pre ++ r :: post → r.current.rows.get? k = some row → post ≠ [] →
        (∀ r' ∈ post, r'.current.rows.get? k = none) →
          ∃ v, (versionsOf dim (tableAfter sha256 runs) k).filter Version.isCurrent = [v] ∧
            v.validTo = FOREVER ∧ v.attributes.subscribed = false ∧
              ∀ f, v.attributes.cell f = row.carried.cell f) ∧
        ∀ pre r r' post, runs = pre ++ r :: r' :: post →
          (∀ k, r'.current.rows.get? k = r.current.rows.get? k) →
            plan sha256 dim.tracked r'.runTs (previous dim (tableAfter sha256 (pre ++ [r])))
              r'.current.rows = ([], []) := by
  have hall : ∀ r ∈ runs, r ∈ runs ∧ r.interrupted = none := fun r hr => ⟨hr, hdone r hr⟩
  refine ⟨?_, ?_, ?_⟩
  · rintro k ⟨r, hr, hlists⟩
    obtain ⟨hfollows, hstate⟩ := follows_tableAfter sha256 hfree runs hall hts k
    obtain ⟨row, hrow⟩ := Option.ne_none_iff_exists'.1 (registered_ne_none hr hlists)
    rw [hrow] at hfollows
    obtain ⟨v, hone, _, _, htiles⟩ := Settled.opened sha256 hfollows hstate
    exact ⟨htiles, by rw [hone]; rfl, Settled.adjacent hfollows⟩
  · intro pre r post k row hruns hrow hne hgone
    obtain ⟨hfollows, hstate⟩ := follows_tableAfter sha256 hfree runs hall hts k
    obtain ⟨w, hw, hcell⟩ := registered_of_gone pre hrow post hne hgone
    rw [hruns, hw, ← hruns] at hfollows
    obtain ⟨v, hone, hforever, hv, _⟩ := Settled.opened sha256 hfollows hstate
    have hcells : ∀ f, v.attributes.cell f = row.carried.cell f := fun f => (hv f).trans (hcell f)
    exact ⟨v, hone, hforever,
      (subscribed_of_cells hcells).trans (Attributes.subscribed_carried row), hcells⟩
  · intro pre r r' post hruns hsame
    have hpre : runs = (pre ++ [r]) ++ r' :: post := by rw [hruns]; simp
    have hts' : Increasing (pre ++ [r]) := by
      rw [hpre] at hts
      refine ⟨?_, fun r₁ hr₁ => hts.2 r₁ (List.mem_append_left _ hr₁)⟩
      have hsplit := hts.1
      rw [List.map_append, ← List.cons_append] at hsplit
      exact (List.pairwise_append.1 hsplit).1
    have hmem : ∀ r₁ ∈ pre ++ [r], r₁ ∈ runs ∧ r₁.interrupted = none := fun r₁ hr₁ =>
      hall r₁ (hpre ▸ List.mem_append_left _ hr₁)
    exact plan_eq_nil sha256 fun k => opens_of_same sha256 r'.runTs
      (follows_tableAfter sha256 hfree (pre ++ [r]) hmem hts' k).1 (hsame k)

/-- A venue that is listed once and then gone for two runs. -/
def venueGone : List (Run (DIM_VENUE id)) :=
  [⟨Current.empty.insert _ _ (venueRow_lists id "kraken" 25 2), 1, none⟩,
    ⟨Current.empty, 2, none⟩, ⟨Current.empty, 3, none⟩]

theorem collisionFree_venueGone : CollisionFree id venueGone := by
  have hrow : ∀ k row, Occurs venueGone k row →
      row = venueRow id "kraken" 25 2 ∨ row = (venueRow id "kraken" 25 2).carried := by
    rintro k row ⟨r, hr, listed, hlisted, hrow⟩
    have hfirst : listed = venueRow id "kraken" 25 2 := by
      simp only [venueGone, List.mem_cons, List.not_mem_nil, or_false] at hr
      rcases hr with rfl | rfl | rfl
      · simp only [Current.insert, Dict.get?_insert] at hlisted
        split at hlisted
        · exact (Option.some.inj hlisted).symm
        · cases hlisted
      · cases hlisted
      · cases hlisted
    exact hfirst ▸ hrow
  have hne : attrHash id DIM_VENUE_TRACKED (venueRow id "kraken" 25 2) ≠
      attrHash id DIM_VENUE_TRACKED (venueRow id "kraken" 25 2).carried := by decide
  intro k a b ha hb hab f _
  rcases hrow k a ha with rfl | rfl
  · rcases hrow k b hb with rfl | rfl
    · rfl
    · exact absurd hab hne
  · rcases hrow k b hb with rfl | rfl
    · exact absurd hab.symm hne
    · rfl

theorem venueGone_delisted : ∃ v, (versionsOf (DIM_VENUE id) (tableAfter id venueGone)
    [.str "kraken"]).filter Version.isCurrent = [v] ∧ v.validTo = FOREVER ∧
      v.attributes.subscribed = false ∧
        ∀ f, v.attributes.cell f = (venueRow id "kraken" 25 2).carried.cell f := by
  have hts : Increasing venueGone := by
    refine ⟨by decide, fun r hr => ?_⟩
    have hall : ∀ t ∈ venueGone.map Run.runTs, t < FOREVER := by decide
    exact hall _ (List.mem_map_of_mem hr)
  have hdone : ∀ r ∈ venueGone, r.interrupted = none := by
    intro r hr
    have hall : ∀ i ∈ venueGone.map Run.interrupted, i = none := by decide
    exact hall _ (List.mem_map_of_mem hr)
  refine (versions_tile id venueGone hts hdone collisionFree_venueGone).2.1 [] _ _ _ _ rfl ?_
    (List.cons_ne_nil _ _) fun r hr => ?_
  · rw [Current.insert, Dict.get?_insert, if_pos rfl]
  · simp only [List.mem_cons, List.not_mem_nil, or_false] at hr
    rcases hr with rfl | rfl <;> rfl

end K2.Lake.Scd2
