import K2Platform.Lake.GoldCrash
import K2Platform.Lib.ReplacingMergeTree

/-!
# Bars that are pulled

Model of `gold.bars` of the ClickHouse schema, filled by `INSERT .. SELECT` of the lake's whole
table.  A bar is replaced there by one of its day and number that was computed later; but a number
that a late trade leaves empty has no such bar, and the one that was pulled before stays.

* `mem_ids_iff` — the lake has a bar of every number that its trades have.
* `pulls_converge_iff` — when every pull leaves the bars of the lake.
-/

set_option autoImplicit false

namespace K2.Lake

open RecomputedView ReplacingMergeTree

/-! ## Pulls -/

/-- `ORDER BY (exchange, canonical_symbol, bar_kind, day, bar_seq)`. -/
structure BarId where
  symbolDay : SymbolDay
  barKind : BarKind
  barSeq : Option Int
  deriving DecidableEq, Repr

def Bar.id (b : Bar) : BarId := ⟨b.symbolDay, b.barKind, b.barSeq⟩

inductive LakeEvent (sha256 : String → String) where
  | stage (run : GoldRun sha256)
  | pull

/-- The lake, and the rows that were inserted into ClickHouse. -/
structure Served where
  lake : GoldTables
  pulled : List Bar

section Events

variable {sha256 : String → String} (thresholds : List Threshold)

def Served.step (s : Served) : LakeEvent sha256 → Served
  | .stage run => { s with lake := s.lake.apply thresholds run.completed }
  | .pull => { s with pulled := s.pulled ++ s.lake.bars }

def servedAfter (events : List (LakeEvent sha256)) : Served :=
  events.foldl (Served.step thresholds) ⟨GoldTables.empty, []⟩

/-- Whatever the blocks and the merges, `FINAL` reads the lake's bars. -/
def Served.Current (s : Served) : Prop :=
  ∀ blocks parts final, (∀ b, b ∈ blocks.flatten ↔ b ∈ s.pulled) →
    Reached Bar.id Bar.computedAt blocks parts →
      Collapsed Bar.id Bar.computedAt parts.flatten final → final.Perm s.lake.bars

/-- After each pull. -/
def Converges (events : List (LakeEvent sha256)) : Prop :=
  ∀ before, before ++ [.pull] <+: events → (servedAfter thresholds (before ++ [.pull])).Current

/-! ## What it depends on -/

def runOf : LakeEvent sha256 → Option (GoldRun sha256)
  | .stage run => some run
  | .pull => none

def runsOf (events : List (LakeEvent sha256)) : List (GoldRun sha256) := events.filterMap runOf

/-- Each run starts after the one before it. -/
def ClockRuns (events : List (LakeEvent sha256)) : Prop :=
  (runsOf events).Pairwise fun a b => a.runTs < b.runTs

/-- The numbers that the trades of the day have. -/
def barNumbers (th : Threshold) (k : SymbolDay) (trades : List Print) : List (Option Int) :=
  (numbered th (trades.filter fun p => p.symbolDay = k)).map Prod.snd

/-- A trade of the day has this number, once it is an INT. -/
def Occupied (trades : List Print) (i : BarId) : Prop :=
  ∃ th ∈ thresholds, th.canonicalSymbol = i.symbolDay.canonicalSymbol ∧ th.kind = i.barKind ∧
    i.barSeq ∈ (barNumbers th i.symbolDay trades).map (Option.map I32.wrap)

/-- Numbers that differ do so as INTs. -/
def NumbersFit (trades : List Print) : Prop :=
  ∀ k, ∀ th ∈ thresholds, th.canonicalSymbol = k.canonicalSymbol →
    ∀ m ∈ barNumbers th k trades, ∀ n ∈ barNumbers th k trades,
      m.map I32.wrap = n.map I32.wrap → m = n

def tradesAfter (events : List (LakeEvent sha256)) : List Print :=
  prints (servedAfter thresholds events).lake.trades

/-- The numbers fit at each pull, and those that an earlier pull found are there still. -/
structure KeepsNumbers (events : List (LakeEvent sha256)) : Prop where
  fit : ∀ before, before ++ [.pull] <+: events →
    NumbersFit thresholds (tradesAfter thresholds before)
  kept : ∀ before later, before ++ [.pull] <+: later → later ++ [.pull] <+: events →
    ∀ i, Occupied thresholds (tradesAfter thresholds before) i →
      Occupied thresholds (tradesAfter thresholds later) i

end Events

/-! ## The ids of a day's bars -/

section Ids

variable {srcSnapshotId : Nat} {runTs : Int} {th : Threshold} {k : SymbolDay}

theorem id_bar {seq : Option Int} {trades : List Print} (h : trades ≠ []) :
    (bar srcSnapshotId runTs th k seq trades).map Bar.id =
      some ⟨k, th.kind, seq.map I32.wrap⟩ := by
  cases trades with
  | nil => exact absurd rfl h
  | cons p ps => rfl

theorem ids_thresholdBars (trades : List Print) :
    (thresholdBars srcSnapshotId runTs th k trades).map Bar.id =
      ((numbered th trades).map Prod.snd).dedup.map fun seq => ⟨k, th.kind, seq.map I32.wrap⟩ := by
  rw [thresholdBars, List.map_filterMap, List.filterMap_eq_map_iff_forall_eq_some]
  intro seq hseq
  refine id_bar fun hnil => ?_
  obtain ⟨n, hn, rfl⟩ := List.mem_map.1 (List.mem_dedup.1 hseq)
  have hgroup := List.map_eq_nil_iff.1 hnil
  exact List.filter_eq_nil_iff.1 hgroup n hn (decide_eq_true rfl)

theorem ids_dayBars (thresholds : List Threshold) (trades : List Print) :
    (dayBars srcSnapshotId runTs thresholds k trades).map Bar.id =
      (thresholds.filter fun th => th.canonicalSymbol = k.canonicalSymbol).flatMap fun th =>
        ((numbered th trades).map Prod.snd).dedup.map fun seq =>
          ⟨k, th.kind, seq.map I32.wrap⟩ := by
  simp only [dayBars, List.map_flatMap, ids_thresholdBars]

variable {thresholds : List Threshold}

/-- The trades of a day. -/
def ofDay (k : SymbolDay) (trades : List Print) : List Print :=
  trades.filter fun p => p.symbolDay = k

theorem mem_ids_dayBars {trades : List Print} {i : BarId} :
    i ∈ (dayBars srcSnapshotId runTs thresholds k (ofDay k trades)).map Bar.id ↔
      i.symbolDay = k ∧ Occupied thresholds trades i := by
  rw [ids_dayBars]
  simp only [List.mem_flatMap, List.mem_filter, decide_eq_true_eq, List.mem_map, List.mem_dedup,
    Occupied, barNumbers]
  constructor
  · rintro ⟨th, ⟨hth, hsymbol⟩, seq, ⟨n, hn, rfl⟩, rfl⟩
    exact ⟨rfl, th, hth, hsymbol, rfl, n.2, ⟨n, hn, rfl⟩, rfl⟩
  · rintro ⟨rfl, th, hth, hsymbol, hkind, seq, ⟨n, hn, rfl⟩, hseq⟩
    refine ⟨th, ⟨hth, hsymbol⟩, n.2, ⟨n, hn, rfl⟩, ?_⟩
    rw [hkind, hseq]

/-- A symbol has one threshold of a kind. -/
def OneOfKind (thresholds : List Threshold) : Prop :=
  (thresholds.map fun th => (th.canonicalSymbol, th.kind)).Nodup

theorem nodup_ids_dayBars (hth : OneOfKind thresholds) {trades : List Print} :
    ((dayBars srcSnapshotId runTs thresholds k (ofDay k trades)).map Bar.id).Nodup ↔
      ∀ th ∈ thresholds, th.canonicalSymbol = k.canonicalSymbol →
        ∀ m ∈ barNumbers th k trades, ∀ n ∈ barNumbers th k trades,
          m.map I32.wrap = n.map I32.wrap → m = n := by
  rw [ids_dayBars, List.nodup_flatMap]
  have hdisjoint : (thresholds.filter fun th => th.canonicalSymbol = k.canonicalSymbol).Pairwise
      (Function.onFun List.Disjoint fun th =>
        ((numbered th (ofDay k trades)).map Prod.snd).dedup.map fun seq =>
          (⟨k, th.kind, seq.map I32.wrap⟩ : BarId)) := by
    have hpair := (List.pairwise_map.1 hth).filter
      fun th => decide (th.canonicalSymbol = k.canonicalSymbol)
    refine hpair.imp_of_mem fun {a b} ha hb hab i hia hib => hab ?_
    obtain ⟨_, _, rfl⟩ := List.mem_map.1 hia
    obtain ⟨_, _, heq⟩ := List.mem_map.1 hib
    have hsa : a.canonicalSymbol = k.canonicalSymbol :=
      of_decide_eq_true (List.mem_filter.1 ha).2
    have hsb : b.canonicalSymbol = k.canonicalSymbol :=
      of_decide_eq_true (List.mem_filter.1 hb).2
    have hkind : b.kind = a.kind := congrArg BarId.barKind heq
    rw [hsa, hsb, hkind]
  have hone : ∀ th : Threshold, (((numbered th (ofDay k trades)).map Prod.snd).dedup.map fun seq =>
      (⟨k, th.kind, seq.map I32.wrap⟩ : BarId)).Nodup ↔
        ∀ m ∈ barNumbers th k trades, ∀ n ∈ barNumbers th k trades,
          m.map I32.wrap = n.map I32.wrap → m = n := by
    intro th
    rw [List.nodup_map_iff_inj_on (List.nodup_dedup _)]
    simp only [List.mem_dedup, BarId.mk.injEq, true_and]
    rfl
  simp only [and_iff_left hdisjoint, List.mem_filter, decide_eq_true_eq, hone, and_imp]

end Ids

/-! ## The ids of the lake's bars -/

section Lake

variable {sha256 : String → String} (thresholds : List Threshold)

theorem lake_servedAfter (events : List (LakeEvent sha256)) :
    (servedAfter thresholds events).lake =
      afterRuns thresholds ((runsOf events).map GoldRun.completed) := by
  induction events using List.reverseRecOn with
  | nil => rfl
  | append_singleton events e ih =>
    rw [servedAfter, List.foldl_concat, ← servedAfter, runsOf, List.filterMap_append,
      List.map_append, afterRuns, List.foldl_append]
    cases e with
    | pull =>
      rw [Served.step]
      exact ih
    | stage run =>
      rw [Served.step]
      exact congrArg (fun t => GoldTables.apply thresholds t run.completed) ih

/-- The bars of a day are those of its trades, since no run was cut off. -/
theorem bars_servedAfter (events : List (LakeEvent sha256)) (k : SymbolDay) :
    (((servedAfter thresholds events).lake.bars.filter fun b => b.symbolDay = k).map
      Bar.content).Perm (dayBars 0 0 thresholds k (ofDay k (tradesAfter thresholds events))) := by
  have hshown := shown_of_revisited (barAgg thresholds)
    (revisited_completed thresholds Print.symbolDay barEffect_completed (runsOf events) k)
  rw [← barView_after, ← lake_servedAfter] at hshown
  have hrows : (barView (servedAfter thresholds events).lake).shown k =
      (((servedAfter thresholds events).lake.bars.filter fun b => b.symbolDay = k).map
        Bar.content : List Bar) := filter_barRows _ k
  rw [hrows] at hshown
  exact Multiset.coe_eq_coe.1 hshown

theorem ids_of_day (events : List (LakeEvent sha256)) (k : SymbolDay) :
    (((servedAfter thresholds events).lake.bars.filter fun b => b.symbolDay = k).map Bar.id).Perm
      ((dayBars 0 0 thresholds k (ofDay k (tradesAfter thresholds events))).map Bar.id) := by
  have h := (bars_servedAfter thresholds events k).map Bar.id
  rwa [List.map_map] at h

/-- **The lake has a bar of every number that its trades have**, and of no other. -/
theorem mem_ids_iff (events : List (LakeEvent sha256)) (i : BarId) :
    i ∈ (servedAfter thresholds events).lake.bars.map Bar.id ↔
      Occupied thresholds (tradesAfter thresholds events) i := by
  have hday : i ∈ (servedAfter thresholds events).lake.bars.map Bar.id ↔
      i ∈ ((servedAfter thresholds events).lake.bars.filter fun b =>
        b.symbolDay = i.symbolDay).map Bar.id := by
    simp only [List.mem_map, List.mem_filter, decide_eq_true_eq]
    constructor
    · rintro ⟨b, hb, rfl⟩
      exact ⟨b, ⟨hb, rfl⟩, rfl⟩
    · rintro ⟨b, ⟨hb, _⟩, rfl⟩
      exact ⟨b, hb, rfl⟩
  rw [hday, (ids_of_day thresholds events i.symbolDay).mem_iff, mem_ids_dayBars]
  exact and_iff_right rfl

variable {thresholds} in
theorem nodup_ids_iff (hth : OneOfKind thresholds) (events : List (LakeEvent sha256)) :
    ((servedAfter thresholds events).lake.bars.map Bar.id).Nodup ↔
      NumbersFit thresholds (tradesAfter thresholds events) := by
  have hdays : ((servedAfter thresholds events).lake.bars.map Bar.id).Nodup ↔
      ∀ k, (((servedAfter thresholds events).lake.bars.filter fun b => b.symbolDay = k).map
        Bar.id).Nodup := by
    constructor
    · intro h k
      exact h.sublist (List.filter_sublist.map _)
    · intro h
      refine List.nodup_iff_count_le_one.2 fun i => ?_
      have hcount : List.count i ((servedAfter thresholds events).lake.bars.map Bar.id) =
          List.count i (((servedAfter thresholds events).lake.bars.filter fun b =>
            b.symbolDay = i.symbolDay).map Bar.id) := by
        rw [List.count_eq_countP, List.countP_map, List.count_eq_countP, List.countP_map,
          List.countP_filter]
        refine List.countP_congr fun b _ => ?_
        simp only [Function.comp_apply, beq_iff_eq, Bool.and_eq_true, decide_eq_true_eq]
        exact ⟨fun h => ⟨h, congrArg BarId.symbolDay h⟩, And.left⟩
      rw [hcount]
      exact List.nodup_iff_count_le_one.1 (h i.symbolDay) i
  rw [hdays]
  refine forall_congr' fun k => ?_
  rw [(ids_of_day thresholds events k).nodup_iff, nodup_ids_dayBars hth]

/-! ## What was pulled, and when it was computed -/

theorem servedAfter_concat (events : List (LakeEvent sha256)) (e : LakeEvent sha256) :
    servedAfter thresholds (events ++ [e]) = (servedAfter thresholds events).step thresholds e := by
  rw [servedAfter, List.foldl_concat]
  rfl

/-- A row was pulled by a pull that found it in the lake. -/
theorem mem_pulled_iff (events : List (LakeEvent sha256)) (b : Bar) :
    b ∈ (servedAfter thresholds events).pulled ↔
      ∃ before, before ++ [.pull] <+: events ∧ b ∈ (servedAfter thresholds before).lake.bars := by
  induction events using List.reverseRecOn with
  | nil =>
    refine iff_of_false List.not_mem_nil ?_
    rintro ⟨before, hpre, _⟩
    exact absurd (List.prefix_nil.1 hpre) (by simp)
  | append_singleton events e ih =>
    have hstep : b ∈ (servedAfter thresholds (events ++ [e])).pulled ↔
        b ∈ (servedAfter thresholds events).pulled ∨
          e = .pull ∧ b ∈ (servedAfter thresholds events).lake.bars := by
      rw [servedAfter_concat]
      cases e with
      | pull => simp [Served.step]
      | stage run => simp [Served.step]
    rw [hstep, ih]
    constructor
    · rintro (⟨before, hpre, hb⟩ | ⟨rfl, hb⟩)
      · exact ⟨before, hpre.trans (List.prefix_append _ _), hb⟩
      · exact ⟨events, List.prefix_rfl, hb⟩
    · rintro ⟨before, hpre, hb⟩
      rcases List.prefix_concat_iff.1 hpre with heq | hpre
      · obtain ⟨rfl, he⟩ := List.append_inj' heq rfl
        exact Or.inr ⟨(List.cons.inj he).1.symm, hb⟩
      · exact Or.inl ⟨before, hpre, hb⟩

/-- A run writes rows of its own time, and keeps others. -/
theorem mem_bars_apply {t : GoldTables} {run : GoldRun sha256} {b : Bar}
    (h : b ∈ (t.apply thresholds run).bars) : b ∈ t.bars ∨ b.computedAt = run.runTs := by
  have hfresh : ∀ {srcSnapshotId : Nat} {days : List SymbolDay} {trades : List Print},
      b ∈ bars srcSnapshotId run.runTs thresholds days trades → b.computedAt = run.runTs := by
    intro srcSnapshotId days trades hb
    obtain ⟨k, _, hb⟩ := List.mem_flatMap.1 hb
    obtain ⟨th, _, hb⟩ := List.mem_flatMap.1 hb
    obtain ⟨seq, _, hb⟩ := List.mem_filterMap.1 hb
    unfold bar at hb
    split at hb
    · cases hb
    · cases hb
      rfl
  rw [bars_apply] at h
  split at h
  · exact Or.inl h
  · unfold stageBars at h
    simp only at h
    split at h
    · exact Or.inl h
    · split at h
      · exact Or.inl (List.mem_of_mem_filter h)
      · rcases List.mem_append.1 h with h | h
        · exact Or.inl (List.mem_of_mem_filter h)
        · exact Or.inr (hfresh h)

theorem computedAt_mem {events : List (LakeEvent sha256)} {b : Bar}
    (h : b ∈ (servedAfter thresholds events).lake.bars) :
    ∃ run ∈ runsOf events, b.computedAt = run.runTs := by
  induction events using List.reverseRecOn with
  | nil => exact absurd h List.not_mem_nil
  | append_singleton events e ih =>
    rw [servedAfter_concat] at h
    rw [runsOf, List.filterMap_append]
    cases e with
    | pull =>
      obtain ⟨run, hrun, hat⟩ := ih h
      exact ⟨run, List.mem_append_left _ hrun, hat⟩
    | stage run =>
      rcases mem_bars_apply thresholds h with h | h
      · obtain ⟨run', hrun, hat⟩ := ih h
        exact ⟨run', List.mem_append_left _ hrun, hat⟩
      · exact ⟨run, List.mem_append_right _ (List.mem_singleton_self run), h⟩

variable {thresholds} (hth : OneOfKind thresholds)
include hth

/-- What was pulled of a bar that the lake has is that bar, or was computed before it. -/
theorem pulled_older (events : List (LakeEvent sha256)) (hclock : ClockRuns events)
    (hfit : ∀ before, before ++ [.pull] <+: events →
      NumbersFit thresholds (tradesAfter thresholds before)) :
    ∀ b ∈ (servedAfter thresholds events).pulled, ∀ c ∈ (servedAfter thresholds events).lake.bars,
      c.id = b.id → b = c ∨ b.computedAt < c.computedAt := by
  induction events using List.reverseRecOn with
  | nil => exact fun b hb => absurd hb List.not_mem_nil
  | append_singleton events e ih =>
    have hclock' := hclock
    rw [ClockRuns, runsOf, List.filterMap_append, List.pairwise_append] at hclock'
    have hrec := ih hclock'.1 fun before hbefore =>
      hfit before (hbefore.trans (List.prefix_append _ _))
    intro b hb c hc hid
    cases e with
    | pull =>
      rw [servedAfter_concat] at hb hc
      rcases List.mem_append.1 hb with hb | hb
      · exact hrec b hb c hc hid
      · have hnodup := (nodup_ids_iff hth events).2 (hfit events List.prefix_rfl)
        exact Or.inl (List.inj_on_of_nodup_map hnodup hb hc hid.symm)
    | stage run =>
      rw [servedAfter_concat] at hb hc
      rcases mem_bars_apply thresholds hc with hc | hc
      · exact hrec b hb c hc hid
      · obtain ⟨before, hpre, hb⟩ := (mem_pulled_iff thresholds events b).1 hb
        obtain ⟨run', hrun, hat⟩ := computedAt_mem thresholds hb
        have hmem : run' ∈ events.filterMap runOf := by
          obtain ⟨rest, rfl⟩ := hpre
          rw [List.append_assoc, List.filterMap_append]
          exact List.mem_append_left _ hrun
        refine Or.inr ?_
        rw [hat, hc]
        exact hclock'.2.2 run' hmem run (List.mem_singleton_self run)

theorem current_of_keeps {before : List (LakeEvent sha256)}
    (hclock : ClockRuns (before ++ [.pull])) (h : KeepsNumbers thresholds (before ++ [.pull])) :
    (servedAfter thresholds (before ++ [.pull])).Current := by
  intro blocks parts final hblocks hparts hfinal
  have hread := (collapsed_of_reached hparts hfinal).of_mem_iff hblocks
  have holder := pulled_older hth (before ++ [.pull]) hclock h.fit
  have hnodup := (nodup_ids_iff hth before).2 (h.fit before List.prefix_rfl)
  rw [servedAfter_concat] at hread holder ⊢
  refine hread.perm_current (fun c hc => List.mem_append_right _ hc) hnodup fun r hr => ?_
  have hoccupied : Occupied thresholds (tradesAfter thresholds before) r.id := by
    have hr' : r ∈ (servedAfter thresholds (before ++ [.pull])).pulled := by
      rwa [servedAfter_concat]
    obtain ⟨earlier, hpre, hr'⟩ := (mem_pulled_iff thresholds _ r).1 hr'
    have hearlier := (mem_ids_iff thresholds earlier r.id).1 (List.mem_map_of_mem hr')
    rcases List.prefix_concat_iff.1 hpre with heq | hpre
    · obtain ⟨rfl, _⟩ := List.append_inj' heq rfl
      exact hearlier
    · exact h.kept earlier before hpre List.prefix_rfl r.id hearlier
  obtain ⟨c, hc, hid⟩ := List.mem_map.1 ((mem_ids_iff thresholds before r.id).2 hoccupied)
  exact ⟨c, hc, hid, holder r hr c hc hid⟩

theorem keeps_of_current {events : List (LakeEvent sha256)} (h : Converges thresholds events) :
    KeepsNumbers thresholds events := by
  -- a read of one block that holds all that was pulled
  have hread : ∀ before, before ++ [.pull] <+: events →
      (collapse Bar.id Bar.computedAt (servedAfter thresholds (before ++ [.pull])).pulled).Perm
        (servedAfter thresholds before).lake.bars := by
    intro before hbefore
    have hcurrent := h before hbefore [(servedAfter thresholds (before ++ [.pull])).pulled] _ _
      (fun b => by simp) (Reached.start.insert _) (collapsed_collapse _)
    rw [List.nil_append, List.flatten_singleton, servedAfter_concat] at hcurrent
    rwa [servedAfter_concat]
  constructor
  · intro before hbefore
    rw [← nodup_ids_iff hth, ← ((hread before hbefore).map Bar.id).nodup_iff]
    exact (collapsed_collapse _).nodup
  · intro earlier later hearlier hlater i hi
    rw [← mem_ids_iff] at hi ⊢
    obtain ⟨b, hb, rfl⟩ := List.mem_map.1 hi
    have hpulled : b ∈ (servedAfter thresholds (later ++ [.pull])).pulled :=
      (mem_pulled_iff thresholds _ b).2 ⟨earlier, hearlier.trans (List.prefix_append _ _), hb⟩
    have hcollapsed : Collapsed Bar.id Bar.computedAt _ (collapse Bar.id Bar.computedAt _) :=
      collapsed_collapse (servedAfter thresholds (later ++ [.pull])).pulled
    obtain ⟨c, hc, hid, _⟩ := hcollapsed.newest b hpulled
    rw [← ((hread later hlater).map Bar.id).mem_iff, ← hid]
    exact List.mem_map_of_mem hc

/-- **Every pull leaves the lake's bars exactly when no number that an earlier one found is left
    empty**, and numbers that differ do so as INTs. -/
theorem pulls_converge_iff (events : List (LakeEvent sha256)) (hclock : ClockRuns events) :
    Converges thresholds events ↔ KeepsNumbers thresholds events := by
  refine ⟨keeps_of_current hth, fun h before hbefore => ?_⟩
  refine current_of_keeps hth ?_ ⟨fun b hb => h.fit b (hb.trans hbefore),
    fun earlier later he hl => h.kept earlier later he (hl.trans hbefore)⟩
  obtain ⟨rest, rfl⟩ := hbefore
  rw [ClockRuns, runsOf, List.filterMap_append, List.pairwise_append] at hclock
  exact hclock.1

end Lake

/-! ## Tick bars -/

section Ticks

variable {th : Threshold} {thresholds : List Threshold} {sha256 : String → String}

theorem nBefore_running (ps : List Print) : ∀ seen : List Print,
    (running seen ps).map Cumulated.nBefore =
      (List.range' seen.length ps.length).map (Nat.cast : Nat → Int) := by
  induction ps with
  | nil => exact fun _ => rfl
  | cons p ps ih =>
    intro seen
    rw [running, List.map_cons, ih, List.length_cons, List.range'_succ, List.map_cons,
      List.length_append]
    simp

/-- A day of so many trades has the numbers up to theirs, and no gap. -/
theorem mem_barNumbers_tick (htick : th.kind = .tick) {k : SymbolDay} {trades : List Print}
    {seq : Option Int} : seq ∈ barNumbers th k trades ↔
      ∃ n < (ofDay k trades).length, seq = some ((n : Int).tdiv th.units) := by
  have hseq : ∀ c, barSeq th c = some (c.nBefore.tdiv th.units) := fun c => by
    rw [barSeq, htick]
  have hnumbers : barNumbers th k trades =
      ((running [] (ordered (ofDay k trades))).map Cumulated.nBefore).map fun n =>
        some (n.tdiv th.units) := by
    rw [barNumbers, numbered, List.map_map, List.map_map]
    exact List.map_congr_left fun c _ => hseq c
  rw [hnumbers, nBefore_running, ordered, List.length_insertionSort]
  simp only [List.mem_map, List.mem_range'_1, List.length_nil, Nat.zero_le, Nat.zero_add, true_and]
  constructor
  · rintro ⟨_, ⟨n, hn, rfl⟩, rfl⟩
    exact ⟨n, hn, rfl⟩
  · rintro ⟨n, hn, rfl⟩
    exact ⟨_, ⟨n, hn, rfl⟩, rfl⟩

theorem prefix_trades {before later : List (LakeEvent sha256)} (h : before <+: later) :
    tradesAfter thresholds before <+: tradesAfter thresholds later := by
  obtain ⟨rest, rfl⟩ := h
  induction rest using List.reverseRecOn with
  | nil => rw [List.append_nil]
  | append_singleton rest e ih =>
    rw [← List.append_assoc]
    refine ih.trans ?_
    rw [tradesAfter, tradesAfter, servedAfter_concat]
    cases e with
    | pull => exact List.prefix_rfl
    | stage run =>
      rw [Served.step, prints_apply]
      exact List.prefix_append _ _

/-- **Late trades leave no number of a tick bar empty**, so that these converge as long as a day's
    numbers fit an INT. -/
theorem keeps_of_tick {events : List (LakeEvent sha256)}
    (htick : ∀ th ∈ thresholds, th.kind = .tick)
    (hfit : ∀ k, (ofDay k (tradesAfter thresholds events)).length ≤ 2 ^ 31) :
    KeepsNumbers thresholds events := by
  have hday : ∀ {before later : List (LakeEvent sha256)}, before <+: later → ∀ k,
      (ofDay k (tradesAfter thresholds before)).length ≤
        (ofDay k (tradesAfter thresholds later)).length := fun h k =>
    ((prefix_trades h).filter _).length_le
  constructor
  · intro before hbefore k th hth _ m hm n hn heq
    obtain ⟨a, ha, rfl⟩ := (mem_barNumbers_tick (htick th hth)).1 hm
    obtain ⟨b, hb, rfl⟩ := (mem_barNumbers_tick (htick th hth)).1 hn
    have hle := (hday ((List.prefix_append _ _).trans hbefore) k).trans (hfit k)
    have hrange : ∀ n : Nat, n < (ofDay k (tradesAfter thresholds before)).length →
        I32.wrap ((n : Int).tdiv th.units) = (n : Int).tdiv th.units := by
      intro n hn
      have hnonneg : 0 ≤ (n : Int).tdiv th.units :=
        Int.tdiv_nonneg (Int.natCast_nonneg n) (le_of_lt th.units_pos)
      have hdiv : (n : Int).tdiv th.units ≤ n := by
        rw [Int.tdiv_eq_ediv_of_nonneg (Int.natCast_nonneg n)]
        exact Int.ediv_le_self _ (Int.natCast_nonneg n)
      refine I32.wrap_of_inRange ⟨?_, ?_⟩ <;> omega
    simp only [Option.map_some, Option.some.injEq] at heq ⊢
    rwa [hrange a ha, hrange b hb] at heq
  · rintro earlier later hearlier _ i ⟨th, hth, hsymbol, hkind, hseq⟩
    refine ⟨th, hth, hsymbol, hkind, ?_⟩
    obtain ⟨seq, hseq, hi⟩ := List.mem_map.1 hseq
    obtain ⟨n, hn, rfl⟩ := (mem_barNumbers_tick (htick th hth)).1 hseq
    refine List.mem_map.2 ⟨_, (mem_barNumbers_tick (htick th hth)).2 ⟨n, ?_, rfl⟩, hi⟩
    exact hn.trans_le (hday ((List.prefix_append _ _).trans hearlier) i.symbolDay)

end Ticks

/-! ## A late trade that is larger than the threshold -/

/-- Bars of one coin. -/
def oneCoin : Threshold := ⟨"BTC/USD", .volume, 10 ^ 10, 10 ^ 8, by decide⟩

/-- A trade of so many coins, in the first minute. -/
def coinTrade (tradeId : String) (tradeSeq exchangeTs coins : Int) : SilverTrade :=
  { firstMinuteTrade tradeId tradeSeq with exchangeTs := exchangeTs, qty := coins * 10 ^ 10 }

def runAt (runTs : Int) (trades : List SilverTrade) : LakeEvent id :=
  .stage { krakenRun trades COMMITS with runTs := runTs }

/-- Two trades of a coin make bars 0 and 1; an earlier one of three coins leaves nothing in 1. -/
def lateEvents : List (LakeEvent id) :=
  [runAt 100 [coinTrade "2" 2 2000000 1, coinTrade "3" 3 3000000 1], .pull,
    runAt 200 [coinTrade "1" 1 1000000 3], .pull]

theorem late_trade_leaves_bar : ClockRuns lateEvents ∧ ¬ Converges [oneCoin] lateEvents := by
  refine ⟨by unfold ClockRuns; decide, fun h => ?_⟩
  have hkept := (keeps_of_current (by unfold OneOfKind; decide) h).kept
    (lateEvents.take 1) (lateEvents.take 3) ⟨lateEvents.drop 2 |>.take 1, rfl⟩ ⟨[], rfl⟩
    ⟨⟨.kraken, "BTC/USD", 0⟩, .volume, some 1⟩
  revert hkept
  unfold Occupied
  decide +kernel

def everyTick : Threshold := ⟨"BTC/USD", .tick, 10 ^ 10, 1, by decide⟩

/-- Tick bars of the same trades. -/
theorem late_trade_moves_ticks : Converges [everyTick] lateEvents := by
  have hclock : ClockRuns lateEvents := by unfold ClockRuns; decide
  refine (pulls_converge_iff (by unfold OneOfKind; decide) lateEvents hclock).2 ?_
  refine keeps_of_tick (by decide) fun k => ?_
  have hlength : (tradesAfter [everyTick] lateEvents).length ≤ 2 ^ 31 := by decide +kernel
  exact (List.length_filter_le _ _).trans hlength

end K2.Lake
