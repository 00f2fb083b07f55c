import K2Platform.Lake.Silver
import K2Platform.Lib.Dict
import K2Platform.Lib.Word

/-!
# Gold trades

Model of `_project_silver` and `stage_trades` of `gold.py`: the rows of each venue's silver table
that are not replays, appended to one table, one commit per venue.  A commit carries the position
of every venue forward; a run that is cut off makes the commits of the first venues only.

* `Synced`, `synced_stageTrades` — what `gold.trades` holds of a venue is the projection of what its
  silver table held up to the venue's position.
-/

set_option autoImplicit false

namespace K2.Lake

open Changelog

/-! ## Rows -/

structure GoldTrade where
  exchange : Exchange
  canonicalSymbol : String
  symbol : String
  tradeId : String
  tradeSeq : Int
  priceE8 : Int
  qtyE8 : Int
  side : String
  exchangeTs : Int
  recvTsNs : Int
  connId : String
  connMsgSeq : Int
  seqGap : Option Bool
  missingBefore : Option Int
  srcTopic : String
  srcPartition : Int
  srcOffset : Int
  srcIndex : Int
  ingestTs : Int
  deriving DecidableEq, Repr

/-- `(value * SCALE).cast("bigint")` of a DECIMAL(28,10): the cast drops the fraction, and wraps. -/
def scaleE8 (unscaled : Int) : Int := I64.wrap (unscaled.tdiv 100)

/-- One row of `_project_silver`. -/
def projectRow (exchange : Exchange) (runTs : Int) (r : SilverTrade) : GoldTrade where
  exchange := exchange
  canonicalSymbol := r.canonicalSymbol
  symbol := r.symbol
  tradeId := r.tradeId
  tradeSeq := r.tradeSeq
  priceE8 := scaleE8 r.price
  qtyE8 := scaleE8 r.qty
  side := r.side
  exchangeTs := r.exchangeTs
  recvTsNs := r.recvTsNs
  connId := r.connId
  connMsgSeq := r.connMsgSeq
  seqGap := r.seqGap
  missingBefore := r.missingBefore
  srcTopic := r.srcTopic
  srcPartition := r.srcPartition
  srcOffset := r.srcOffset
  srcIndex := r.srcIndex
  ingestTs := runTs

def projectSilver (exchange : Exchange) (runTs : Int) (silver : List SilverTrade) :
    List GoldTrade :=
  (silver.filter fun r => !r.venueReplay).map (projectRow exchange runTs)

/-! ## One run -/

/-- The silver snapshot of each venue that a commit of `gold.trades` has read. -/
abbrev Positions := Dict Exchange Nat

abbrev GoldLog := Log GoldTrade Positions

abbrev SilverTables := Exchange → SilverLog

def position (gold : GoldLog) (v : Exchange) : Option Nat :=
  (mark gold).bind fun positions => positions.get? v

/-- The commit `stage_trades` makes for one venue: none when the venue has no snapshot, or none
    past the position. -/
def venueCommit (silver : SilverTables) (runTs : Int) (gold : GoldLog) (v : Exchange) :
    Option (Changelog.Commit GoldTrade Positions) :=
  match head (silver v) with
  | none => none
  | some stop =>
    if position gold v = some stop then none
    else some
      ⟨projectSilver v runTs (between (silver v) (position gold v) stop),
        some (((mark gold).getD Dict.empty).insert v stop)⟩

def stageVenue (silver : SilverTables) (runTs : Int) (gold : GoldLog) (v : Exchange) : GoldLog :=
  gold ++ (venueCommit silver runTs gold v).toList

/-- A run that is cut off before the venue number `cut` of `TRADES`. -/
def stageTrades (silver : SilverTables) (runTs : Int) (cut : Nat) (gold : GoldLog) : GoldLog :=
  (TRADES.take cut).foldl (stageVenue silver runTs) gold

/-! ## What gold holds of a venue -/

/-- A row without the time of the run that wrote it. -/
def GoldTrade.timeless (r : GoldTrade) : GoldTrade := { r with ingestTs := 0 }

def ofVenue (v : Exchange) (gold : GoldLog) : List GoldTrade :=
  (rows gold).filter fun r => r.exchange = v

/-- `gold.trades` holds of the venue exactly what its silver table held at the position. -/
def Synced (silver : SilverTables) (gold : GoldLog) (v : Exchange) : Prop :=
  (position gold v).getD 0 ≤ (silver v).length ∧
    (ofVenue v gold).map GoldTrade.timeless =
      projectSilver v 0 (rows ((silver v).take ((position gold v).getD 0)))

theorem timeless_projectSilver (v : Exchange) (runTs : Int) (silver : List SilverTrade) :
    (projectSilver v runTs silver).map GoldTrade.timeless = projectSilver v 0 silver := by
  rw [projectSilver, List.map_map]
  rfl

theorem projectSilver_append (v : Exchange) (runTs : Int) (l l' : List SilverTrade) :
    projectSilver v runTs (l ++ l') = projectSilver v runTs l ++ projectSilver v runTs l' := by
  rw [projectSilver, List.filter_append, List.map_append]
  rfl

theorem filter_projectSilver (v w : Exchange) (runTs : Int) (silver : List SilverTrade) :
    (projectSilver v runTs silver).filter (fun r => r.exchange = w) =
      if v = w then projectSilver v runTs silver else [] := by
  by_cases h : v = w
  · rw [if_pos h, List.filter_eq_self]
    intro r hr
    obtain ⟨s, _, rfl⟩ := List.mem_map.1 hr
    exact decide_eq_true h
  · rw [if_neg h, List.filter_eq_nil_iff]
    intro r hr
    obtain ⟨s, _, rfl⟩ := List.mem_map.1 hr
    exact decide_eq_true_iff.not.2 h

theorem ofVenue_append (v : Exchange) (gold gold' : GoldLog) :
    ofVenue v (gold ++ gold') = ofVenue v gold ++ ofVenue v gold' := by
  rw [ofVenue, rows_append, List.filter_append]
  rfl

theorem synced_empty (silver : SilverTables) (v : Exchange) : Synced silver [] v :=
  ⟨Nat.zero_le _, rfl⟩

/-- A silver table that grows keeps what was read of it. -/
theorem Synced.silver_append {silver silver' : SilverTables} {gold : GoldLog} {v : Exchange}
    (h : Synced silver gold v) (hgrow : silver v <+: silver' v) : Synced silver' gold v := by
  obtain ⟨more, hmore⟩ := hgrow
  obtain ⟨hle, hrows⟩ := h
  rw [Synced, ← hmore, take_append_of_le hle]
  exact ⟨hle.trans (by simp), hrows⟩

section StageVenue

variable {silver : SilverTables} {runTs : Int} {gold : GoldLog} {v : Exchange}

theorem venueCommit_eq_some {c : Changelog.Commit GoldTrade Positions}
    (h : venueCommit silver runTs gold v = some c) :
    silver v ≠ [] ∧ position gold v ≠ some (silver v).length ∧
      c.rows = projectSilver v runTs (between (silver v) (position gold v) (silver v).length) ∧
        c.mark = some (((mark gold).getD Dict.empty).insert v (silver v).length) := by
  unfold venueCommit at h
  split at h
  · cases h
  · rename_i stop hhead
    obtain ⟨rfl, hne⟩ := head_eq_some_iff.1 hhead
    split at h
    · cases h
    · rename_i hpos
      cases h
      exact ⟨hne, hpos, rfl, rfl⟩

/-- After a venue's turn its position is the newest silver snapshot; the others keep theirs. -/
theorem position_stageVenue (w : Exchange) :
    position (stageVenue silver runTs gold v) w =
      if w = v ∧ silver v ≠ [] then some (silver v).length else position gold w := by
  unfold stageVenue
  cases hc : venueCommit silver runTs gold v with
  | none =>
    rw [Option.toList_none, List.append_nil]
    split
    · rename_i hw
      obtain ⟨rfl, hne⟩ := hw
      by_contra hpos
      rw [venueCommit, head_eq_some_iff.2 ⟨rfl, hne⟩] at hc
      simp only [ite_eq_left_iff, reduceCtorEq, imp_false, not_not] at hc
      exact hpos hc
    · rfl
  | some c =>
    obtain ⟨hne, _, _, hmark⟩ := venueCommit_eq_some hc
    rw [Option.toList_some, position, mark_concat, hmark, Option.some_or, Option.bind_some,
      Dict.get?_insert]
    by_cases hw : w = v
    · rw [if_pos hw, if_pos ⟨hw, hne⟩]
    · rw [if_neg hw, if_neg fun h => hw h.1, position]
      cases mark gold with
      | none => rfl
      | some positions => rfl

theorem synced_stageVenue {w : Exchange} (h : Synced silver gold w) :
    Synced silver (stageVenue silver runTs gold v) w := by
  obtain ⟨hle, hrows⟩ := h
  rw [Synced, position_stageVenue]
  unfold stageVenue
  rw [ofVenue_append, List.map_append]
  cases hc : venueCommit silver runTs gold v with
  | none =>
    have hsame : (if w = v ∧ silver v ≠ [] then some (silver v).length else position gold w) =
        position gold w := by
      have hpos := @position_stageVenue silver runTs gold v w
      rw [stageVenue, hc, Option.toList_none, List.append_nil] at hpos
      exact hpos.symm
    rw [hsame]
    exact ⟨hle, by simpa [ofVenue] using hrows⟩
  | some c =>
    obtain ⟨hne, _, hcrows, _⟩ := venueCommit_eq_some hc
    have hof : ofVenue w [c] = if v = w then c.rows else [] := by
      rw [ofVenue, rows_singleton, hcrows, filter_projectSilver]
    rw [Option.toList_some, hof, hcrows]
    by_cases hw : w = v
    · subst hw
      rw [if_pos rfl, if_pos ⟨rfl, hne⟩, Option.getD_some, timeless_projectSilver, hrows,
        ← projectSilver_append, rows_take_between _ _ hle]
      exact ⟨le_rfl, rfl⟩
    · rw [if_neg (Ne.symm hw), if_neg fun h => hw h.1, List.map_nil, List.append_nil]
      exact ⟨hle, hrows⟩

variable (runTs) in
theorem synced_stageTrades {w : Exchange} (cut : Nat) (h : Synced silver gold w) :
    Synced silver (stageTrades silver runTs cut gold) w := by
  unfold stageTrades
  generalize TRADES.take cut = venues
  induction venues generalizing gold with
  | nil => exact h
  | cons v venues ih => exact ih (synced_stageVenue h)

variable (runTs) in
/-- A completed run leaves every venue level with its silver table. -/
theorem ofVenue_stageTrades {cut : Nat} (hcut : TRADES.length ≤ cut) {w : Exchange}
    (h : Synced silver gold w) :
    (ofVenue w (stageTrades silver runTs cut gold)).map GoldTrade.timeless =
      projectSilver w 0 (rows (silver w)) := by
  have hlevel : ∀ (venues : List Exchange) (gold : GoldLog), Synced silver gold w →
      (w ∈ venues ∨ position gold w = some (silver w).length ∨ silver w = []) →
        (position (venues.foldl (stageVenue silver runTs) gold) w).getD 0 = (silver w).length := by
    intro venues
    induction venues with
    | nil =>
      intro gold hs hlevel
      rcases hlevel with hmem | hpos | hnil
      · cases hmem
      · rw [List.foldl_nil, hpos, Option.getD_some]
      · have hle := hs.1
        rw [hnil] at hle ⊢
        exact Nat.le_zero.1 hle
    | cons v venues ih =>
      intro gold hs hlevel
      refine ih _ (synced_stageVenue hs) ?_
      by_cases hnil : silver w = []
      · exact Or.inr (Or.inr hnil)
      · rw [position_stageVenue]
        rcases hlevel with hmem | hpos | hnil'
        · rcases List.mem_cons.1 hmem with rfl | hmem
          · exact Or.inr (Or.inl (if_pos ⟨rfl, hnil⟩))
          · exact Or.inl hmem
        · refine Or.inr (Or.inl ?_)
          split
          · rename_i hw
            rw [hw.1]
          · exact hpos
        · exact absurd hnil' hnil
  have hfull : TRADES.take cut = TRADES := List.take_of_length_le hcut
  have hpos := hlevel TRADES gold h (Or.inl (mem_TRADES w))
  have hsynced := synced_stageTrades runTs cut h
  rw [stageTrades, hfull] at hsynced ⊢
  rw [hsynced.2, hpos, List.take_length]

end StageVenue

end K2.Lake
