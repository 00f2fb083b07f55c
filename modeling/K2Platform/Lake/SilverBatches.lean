import Mathlib.Data.List.Dedup
import K2Platform.Lake.TradeOnce
import K2Platform.Lib.Predecessor

/-!
# Scoring batch by batch

The batches that `write` appends one after another, against a single call of `score` over all of
their deliveries.

* `scoreRow_congr` — a row's flags depend on the deliveries of its symbol, as a set.
* `scoreRow_append` — deliveries that come later, of larger trade numbers, do not change them.
* `rows_silverWriteAll` — so batches in the order of delivery are scored as one.
* `sum_missingBefore` — what a symbol's originals miss is the span of its trade ids, less their
  number.
-/

set_option autoImplicit false

namespace K2.Lake

open Changelog

/-- The first delivery of a trade. -/
def FirstDelivery (l : List TypedTrade) (d : TypedTrade) : Prop :=
  d ∈ l ∧ ∀ e ∈ l, e.trade = d.trade → d.rank ≤ e.rank

instance (l : List TypedTrade) : DecidablePred (FirstDelivery l) := fun d =>
  inferInstanceAs (Decidable (d ∈ l ∧ ∀ e ∈ l, e.trade = d.trade → d.rank ≤ e.rank))

/-! ## What a row's flags depend on -/

theorem rowNumber_le_one_iff {both : List TypedTrade} {d : TypedTrade} :
    rowNumber both d ≤ 1 ↔ ∀ e ∈ both, e.trade = d.trade → d.rank ≤ e.rank := by
  have hzero : rowNumber both d ≤ 1 ↔
      both.countP (fun e => e.trade = d.trade && e.rank < d.rank) = 0 := by
    rw [rowNumber]
    omega
  rw [hzero, List.countP_eq_zero]
  simp only [Bool.and_eq_true, decide_eq_true_eq, not_and, not_lt]

theorem mem_originals_iff {both : List TypedTrade} {d : TypedTrade} :
    d ∈ originals both ↔ FirstDelivery both d := by
  rw [originals, List.mem_filter, decide_eq_true_eq, rowNumber_le_one_iff]
  rfl

theorem previousSeq_eq_prev (both : List TypedTrade) (d : TypedTrade) :
    previousSeq both d = Predecessor.prev
      (((originals both).filter fun e => e.symbol = d.symbol).map TypedTrade.tradeSeq)
      d.tradeSeq := by
  rw [previousSeq, Predecessor.prev, List.filter_map, List.filter_filter]
  congr 2
  refine List.filter_congr fun e _ => ?_
  rw [Bool.and_comm]
  rfl

/-- The row number of a row that is kept, with what it misses. -/
theorem scoreRow_eq_of {l l' : List TypedTrade} {d : TypedTrade}
    (hnumber : rowNumber l d ≤ 1 ↔ rowNumber l' d ≤ 1)
    (hprev : rowNumber l d ≤ 1 → previousSeq l d = previousSeq l' d) :
    scoreRow l d = scoreRow l' d := by
  have hreplay : 1 < rowNumber l d ↔ 1 < rowNumber l' d := by
    rw [← not_le, ← not_le, hnumber]
  unfold scoreRow
  simp only [hreplay]
  by_cases h : 1 < rowNumber l' d
  · simp only [if_pos h]
  · have hkept : rowNumber l d ≤ 1 := not_lt.1 (mt hreplay.1 h)
    simp only [if_neg h, hprev hkept]

theorem scoreRow_congr {l l' : List TypedTrade} {d : TypedTrade}
    (h : ∀ e, e.symbol = d.symbol → (e ∈ l ↔ e ∈ l')) : scoreRow l d = scoreRow l' d := by
  have hsymbol : ∀ {e f : TypedTrade}, e.trade = f.trade → e.symbol = f.symbol :=
    fun heq => (Prod.mk.inj heq).1
  have hfirst : ∀ e, e.symbol = d.symbol → (rowNumber l e ≤ 1 ↔ rowNumber l' e ≤ 1) := by
    intro e he
    rw [rowNumber_le_one_iff, rowNumber_le_one_iff]
    constructor
    · intro hall f hf hft
      exact hall f ((h f ((hsymbol hft).trans he)).2 hf) hft
    · intro hall f hf hft
      exact hall f ((h f ((hsymbol hft).trans he)).1 hf) hft
  refine scoreRow_eq_of (hfirst d rfl) fun _ => ?_
  rw [previousSeq_eq_prev, previousSeq_eq_prev]
  refine Predecessor.prev_congr (fun x => ?_) d.tradeSeq
  simp only [List.mem_map, List.mem_filter, decide_eq_true_eq, originals]
  refine exists_congr fun e => and_congr_left fun _ => and_congr_left fun he => ?_
  rw [h e he, hfirst e he]

/-- Later rows do not count where trades arrive in the order of their numbers. -/
theorem scoreRow_append {l later : List TypedTrade} {d : TypedTrade} (hd : d ∈ l)
    (hlater : ∀ e ∈ l, ∀ f ∈ later, e.rank < f.rank)
    (hincreasing : ∀ e f, FirstDelivery (l ++ later) e → FirstDelivery (l ++ later) f →
      e.symbol = f.symbol → e.rank < f.rank → e.tradeSeq < f.tradeSeq) :
    scoreRow (l ++ later) d = scoreRow l d := by
  have hfirst : ∀ e ∈ l, (rowNumber (l ++ later) e ≤ 1 ↔ rowNumber l e ≤ 1) := by
    intro e he
    rw [rowNumber_le_one_iff, rowNumber_le_one_iff, List.forall_mem_append]
    exact and_iff_left fun f hf _ => (hlater e he f hf).le
  refine scoreRow_eq_of (hfirst d hd) fun hkept => ?_
  have hfirstD : FirstDelivery (l ++ later) d :=
    ⟨List.mem_append_left _ hd, rowNumber_le_one_iff.1 hkept⟩
  have hnone : ∀ f ∈ later, rowNumber (l ++ later) f ≤ 1 → f.symbol = d.symbol →
      ¬ f.tradeSeq < d.tradeSeq := by
    intro f hf horiginal hsymbol hlt
    have hgt := hincreasing d f hfirstD
      ⟨List.mem_append_right _ hf, rowNumber_le_one_iff.1 horiginal⟩ hsymbol.symm (hlater d hd f hf)
    omega
  rw [previousSeq, previousSeq]
  congr 2
  rw [originals, List.filter_append, List.filter_append, originals]
  have hfront : l.filter (fun e => rowNumber (l ++ later) e ≤ 1) =
      l.filter fun e => rowNumber l e ≤ 1 :=
    List.filter_congr fun e he => decide_eq_decide.2 (hfirst e he)
  have hback : (later.filter fun e => rowNumber (l ++ later) e ≤ 1).filter
      (fun e => e.symbol = d.symbol && e.tradeSeq < d.tradeSeq) = [] := by
    rw [List.filter_eq_nil_iff]
    intro f hf hboth
    obtain ⟨hmem, horiginal⟩ := List.mem_filter.1 hf
    simp only [Bool.and_eq_true, decide_eq_true_eq] at hboth horiginal
    exact hnone f hmem horiginal hboth.1 hboth.2
  rw [hfront, hback, List.append_nil]

/-! ## Batches in the order of delivery -/

/-- Deliveries of trades that their venue numbers, cut into batches along the order of receipt:
    the first deliveries of a symbol arrive in the order of the trades, and what a batch follows up
    is still in its lookback. -/
structure InDeliveryOrder (batches : List (List TypedTrade)) : Prop where
  lineages : (batches.flatten.map TypedTrade.lineage).Nodup
  numbered : ∀ d ∈ batches.flatten, ∀ e ∈ batches.flatten, d.symbol = e.symbol →
    (d.tradeId = e.tradeId ↔ d.tradeSeq = e.tradeSeq)
  ordered : batches.Pairwise fun b c => ∀ d ∈ b, ∀ e ∈ c, d.rank < e.rank
  increasing : ∀ d e, FirstDelivery batches.flatten d → FirstDelivery batches.flatten e →
    d.symbol = e.symbol → d.rank < e.rank → d.tradeSeq < e.tradeSeq
  remembered : batches.Pairwise fun b c => ∀ d ∈ b, ∀ e ∈ c, d.symbol = e.symbol →
    ∃ f ∈ c, f.recvTs ≤ d.recvTs + LOOKBACK

/-- Two neighbouring batches as one. -/
theorem pairwise_append_head {P : TypedTrade → List TypedTrade → Prop}
    {b c : List TypedTrade} {rest : List (List TypedTrade)}
    (h : (b :: c :: rest).Pairwise fun b c => ∀ d ∈ b, P d c) :
    ((b ++ c) :: rest).Pairwise fun b c => ∀ d ∈ b, P d c := by
  obtain ⟨hb, hrest⟩ := List.pairwise_cons.1 h
  obtain ⟨hc, hrest⟩ := List.pairwise_cons.1 hrest
  refine List.pairwise_cons.2 ⟨fun e he d hd => ?_, hrest⟩
  rcases List.mem_append.1 hd with hd | hd
  · exact hb e (List.mem_cons_of_mem _ he) d hd
  · exact hc e he d hd

/-- One batch, after others and before others. -/
theorem scoreRow_batch {table : SilverLog} {batch later : List TypedTrade} {d : TypedTrade}
    {lo : Int} (hd : d ∈ batch) (hlo : ∀ e ∈ batch, lo ≤ e.recvTs)
    (hremembered : ∀ e ∈ deliveries table, e.symbol = d.symbol →
      ∃ f ∈ batch, f.recvTs ≤ e.recvTs + LOOKBACK)
    (hlater : ∀ e ∈ deliveries table ++ batch, ∀ f ∈ later, e.rank < f.rank)
    (hincreasing : ∀ e f, FirstDelivery (deliveries table ++ batch ++ later) e →
      FirstDelivery (deliveries table ++ batch ++ later) f → e.symbol = f.symbol →
      e.rank < f.rank → e.tradeSeq < f.tradeSeq) :
    scoreRow (batch ++ lookback table (lo - LOOKBACK)) d =
      scoreRow (deliveries table ++ batch ++ later) d := by
  rw [scoreRow_append (List.mem_append_right _ hd) hlater hincreasing]
  refine scoreRow_congr fun e he => ?_
  rw [List.mem_append, List.mem_append, mem_lookback, or_comm]
  refine or_congr_left ⟨fun h => h.1, fun hmem => ⟨hmem, ?_⟩⟩
  obtain ⟨f, hf, hday⟩ := hremembered e hmem he
  have hmin := hlo f hf
  omega

theorem rows_silverWriteAll (batches : List (List TypedTrade × Nat)) :
    ∀ table : SilverLog,
      (deliveries table :: batches.map Prod.fst).Pairwise
        (fun b c => ∀ d ∈ b, ∀ e ∈ c, d.rank < e.rank) →
      (deliveries table :: batches.map Prod.fst).Pairwise
        (fun b c => ∀ d ∈ b, ∀ e ∈ c, d.symbol = e.symbol →
          ∃ f ∈ c, f.recvTs ≤ d.recvTs + LOOKBACK) →
      (∀ d e, FirstDelivery (deliveries table ++ (batches.map Prod.fst).flatten) d →
        FirstDelivery (deliveries table ++ (batches.map Prod.fst).flatten) e →
        d.symbol = e.symbol → d.rank < e.rank → d.tradeSeq < e.tradeSeq) →
      rows (silverWriteAll table batches) = rows table ++
        (batches.map Prod.fst).flatten.map
          (scoreRow (deliveries table ++ (batches.map Prod.fst).flatten)) := by
  induction batches with
  | nil =>
    intro table _ _ _
    simp [silverWriteAll]
  | cons b batches ih =>
    intro table hordered hremembered hincreasing
    rw [List.map_cons] at hordered hremembered
    rw [List.map_cons, List.flatten_cons, ← List.append_assoc] at hincreasing ⊢
    have hrest := ih (silverWrite table b.1 b.2)
    rw [deliveries_silverWrite] at hrest
    have hlater : ∀ d ∈ deliveries table ++ b.1, ∀ e ∈ (batches.map Prod.fst).flatten,
        d.rank < e.rank := by
      intro d hd e he
      obtain ⟨c, hc, hec⟩ := List.mem_flatten.1 he
      exact (List.pairwise_cons.1 (pairwise_append_head hordered)).1 c hc d hd e hec
    have hbatch : rows (silverWrite table b.1 b.2) = rows table ++
        b.1.map (scoreRow (deliveries table ++ b.1 ++ (batches.map Prod.fst).flatten)) := by
      by_cases hnil : b.1 = []
      · rw [hnil, silverWrite_nil, List.map_nil, List.append_nil]
      · obtain ⟨lo, hlo, hwrite⟩ := silverWrite_of_ne_nil hnil table b.2
        rw [hwrite, rows_append, rows_singleton, score]
        congr 1
        refine List.map_congr_left fun d hd => ?_
        refine scoreRow_batch hd hlo (fun e he hsymbol => ?_) hlater hincreasing
        exact (List.pairwise_cons.1 hremembered).1 b.1 List.mem_cons_self e he d hd hsymbol
    have hfold : silverWriteAll table (b :: batches) =
        silverWriteAll (silverWrite table b.1 b.2) batches := rfl
    rw [hfold, hrest (pairwise_append_head hordered) (pairwise_append_head hremembered) hincreasing,
      hbatch, List.append_assoc, List.map_append]

/-! ## What a symbol misses -/

section Missing

variable {all : List TypedTrade}

theorem exists_firstDelivery {d : TypedTrade} (hd : d ∈ all) :
    ∃ e, FirstDelivery all e ∧ e.trade = d.trade := by
  have hne : ranksOf d.trade all ≠ [] := List.ne_nil_of_mem (mem_ranksOf.2 ⟨d, hd, rfl, rfl⟩)
  obtain ⟨m, hm, hleast⟩ := FirstLeast.exists_least hne
  obtain ⟨e, he, htrade, rfl⟩ := mem_ranksOf.1 hm
  refine ⟨e, ⟨he, fun f hf hft => hleast f.rank (mem_ranksOf.2 ⟨f, hf, ?_, rfl⟩)⟩, htrade⟩
  exact hft.trans htrade

theorem firstDelivery_unique (hlineages : (all.map TypedTrade.lineage).Nodup) {d e : TypedTrade}
    (hd : FirstDelivery all d) (he : FirstDelivery all e) (htrade : d.trade = e.trade) : d = e := by
  have hrank : d.rank = e.rank := le_antisymm (hd.2 e he.1 htrade.symm) (he.2 d hd.1 htrade)
  exact List.inj_on_of_nodup_map hlineages hd.1 he.1 (TypedTrade.lineage_of_rank hrank)

/-- The originals of a symbol. -/
def originalsOf (symbol : String) (all : List TypedTrade) : List TypedTrade :=
  (originals all).filter fun d => d.symbol = symbol

theorem mem_originalsOf {symbol : String} {d : TypedTrade} :
    d ∈ originalsOf symbol all ↔ FirstDelivery all d ∧ d.symbol = symbol := by
  rw [originalsOf, List.mem_filter, mem_originals_iff, decide_eq_true_eq]

theorem nodup_map_originalsOf {α : Type} (hlineages : (all.map TypedTrade.lineage).Nodup)
    (symbol : String) {f : TypedTrade → α}
    (hf : ∀ d ∈ all, ∀ e ∈ all, d.symbol = e.symbol → f d = f e → d.tradeId = e.tradeId) :
    ((originalsOf symbol all).map f).Nodup := by
  have hnodup : (originalsOf symbol all).Nodup :=
    ((hlineages.of_map _).filter _).filter _
  refine hnodup.map_on fun d hd e he heq => ?_
  obtain ⟨hfirst, hsymbol⟩ := mem_originalsOf.1 hd
  obtain ⟨hfirst', hsymbol'⟩ := mem_originalsOf.1 he
  have hid := hf d hfirst.1 e hfirst'.1 (hsymbol.trans hsymbol'.symm) heq
  exact firstDelivery_unique hlineages hfirst hfirst'
    (Prod.ext (hsymbol.trans hsymbol'.symm) hid)

theorem mem_map_originalsOf {α : Type} (symbol : String) {f : TypedTrade → α}
    (hf : ∀ d ∈ all, ∀ e ∈ all, d.trade = e.trade → f d = f e) (x : α) :
    x ∈ (originalsOf symbol all).map f ↔ x ∈ (all.filter fun d => d.symbol = symbol).map f := by
  simp only [List.mem_map, List.mem_filter, decide_eq_true_eq]
  constructor
  · rintro ⟨d, hd, rfl⟩
    obtain ⟨hfirst, hsymbol⟩ := mem_originalsOf.1 hd
    exact ⟨d, ⟨hfirst.1, hsymbol⟩, rfl⟩
  · rintro ⟨d, ⟨hd, hsymbol⟩, rfl⟩
    obtain ⟨e, hfirst, htrade⟩ := exists_firstDelivery hd
    exact ⟨e, mem_originalsOf.2 ⟨hfirst, (Prod.mk.inj htrade).1.trans hsymbol⟩,
      hf e hfirst.1 d hd htrade⟩

theorem kept_score_all (symbol : String) :
    (score all []).filter (fun r => r.symbol = symbol && !r.venueReplay) =
      (originalsOf symbol all).map (scoreRow all) := by
  rw [score, List.append_nil, List.filter_map, originalsOf, originals, List.filter_filter]
  refine congrArg _ (List.filter_congr fun d _ => ?_)
  show (decide (d.symbol = symbol) && !decide (1 < rowNumber all d)) =
    (decide (d.symbol = symbol) && decide (rowNumber all d ≤ 1))
  simp only [← decide_not, not_lt]

theorem missingBefore_original {symbol : String} {d : TypedTrade}
    (hd : d ∈ originalsOf symbol all) :
    (scoreRow all d).missingBefore.getD 0 =
      Predecessor.missing ((originalsOf symbol all).map TypedTrade.tradeSeq) d.tradeSeq := by
  obtain ⟨hfirst, rfl⟩ := mem_originalsOf.1 hd
  have hkept : ¬ 1 < rowNumber all d := not_lt.2 (rowNumber_le_one_iff.2 hfirst.2)
  show (if 1 < rowNumber all d then some 0
    else (previousSeq all d).map fun p => d.tradeSeq - p - 1).getD 0 = _
  rw [if_neg hkept, previousSeq_eq_prev]
  rfl

/-- **The gaps of a symbol** hold the trade ids of its span that were never delivered. -/
theorem sum_missingBefore (hlineages : (all.map TypedTrade.lineage).Nodup)
    (hnumbered : ∀ d ∈ all, ∀ e ∈ all, d.symbol = e.symbol →
      (d.tradeId = e.tradeId ↔ d.tradeSeq = e.tradeSeq)) {symbol : String} {smallest largest : Int}
    (hsmallest : ((all.filter fun d => d.symbol = symbol).map TypedTrade.tradeSeq).min? =
      some smallest)
    (hlargest : ((all.filter fun d => d.symbol = symbol).map TypedTrade.tradeSeq).max? =
      some largest) :
    (((score all []).filter fun r => r.symbol = symbol && !r.venueReplay).map
        fun r => r.missingBefore.getD 0).sum =
      largest - smallest + 1 -
        (((all.filter fun d => d.symbol = symbol).map TypedTrade.tradeId).dedup.length : Int) := by
  have htrade : ∀ d ∈ all, ∀ e ∈ all, d.trade = e.trade → d.tradeSeq = e.tradeSeq := by
    intro d hd e he h
    exact (hnumbered d hd e he (Prod.mk.inj h).1).1 (Prod.mk.inj h).2
  have hseqs := mem_map_originalsOf symbol htrade
  have hseqsNodup : ((originalsOf symbol all).map TypedTrade.tradeSeq).Nodup :=
    nodup_map_originalsOf hlineages symbol fun d hd e he hsymbol heq =>
      (hnumbered d hd e he hsymbol).2 heq
  have hids : ((all.filter fun d => d.symbol = symbol).map TypedTrade.tradeId).dedup.length =
      (originalsOf symbol all).length := by
    have hidsNodup : ((originalsOf symbol all).map TypedTrade.tradeId).Nodup :=
      nodup_map_originalsOf hlineages symbol fun _ _ _ _ _ heq => heq
    have hmem := mem_map_originalsOf symbol fun (d : TypedTrade) (_ : d ∈ all) (e : TypedTrade)
      (_ : e ∈ all) (h : d.trade = e.trade) => (Prod.mk.inj h).2
    have hperm : ((all.filter fun d => d.symbol = symbol).map TypedTrade.tradeId).dedup.Perm
        ((originalsOf symbol all).map TypedTrade.tradeId) :=
      (List.perm_ext_iff_of_nodup (List.nodup_dedup _) hidsNodup).2 fun x =>
        List.mem_dedup.trans (hmem x).symm
    rw [hperm.length_eq, List.length_map]
  have hsum := Predecessor.sum_missing hseqsNodup
    ((Predecessor.min?_congr hseqs).trans hsmallest)
    ((Predecessor.max?_congr hseqs).trans hlargest)
  rw [List.length_map, List.map_map] at hsum
  rw [kept_score_all, List.map_map, hids, ← hsum]
  refine congrArg List.sum (List.map_congr_left fun d hd => ?_)
  exact missingBefore_original hd

end Missing

/-- **Scoring does not depend on how the deliveries are cut into batches**, and what it finds
    missing of a symbol is what the symbol's trade ids leave out. -/
theorem silver_batching (batches : List (List TypedTrade × Nat))
    (h : InDeliveryOrder (batches.map Prod.fst)) :
    rows (silverWriteAll [] batches) = score (batches.map Prod.fst).flatten [] ∧
    ∀ symbol smallest largest,
      (((batches.map Prod.fst).flatten.filter fun d => d.symbol = symbol).map
        TypedTrade.tradeSeq).min? = some smallest →
      (((batches.map Prod.fst).flatten.filter fun d => d.symbol = symbol).map
        TypedTrade.tradeSeq).max? = some largest →
      (((rows (silverWriteAll [] batches)).filter fun r =>
          r.symbol = symbol && !r.venueReplay).map fun r => r.missingBefore.getD 0).sum =
        largest - smallest + 1 -
          ((((batches.map Prod.fst).flatten.filter fun d => d.symbol = symbol).map
            TypedTrade.tradeId).dedup.length : Int) := by
  have hrows : rows (silverWriteAll [] batches) = score (batches.map Prod.fst).flatten [] := by
    rw [score, List.append_nil]
    refine rows_silverWriteAll batches [] ?_ ?_ h.increasing
    · exact List.pairwise_cons.2 ⟨fun _ _ _ hd => absurd hd List.not_mem_nil, h.ordered⟩
    · exact List.pairwise_cons.2 ⟨fun _ _ _ hd => absurd hd List.not_mem_nil, h.remembered⟩
  refine ⟨hrows, fun symbol smallest largest hsmallest hlargest => ?_⟩
  rw [hrows]
  exact sum_missingBefore h.lineages h.numbered hsmallest hlargest

/-- Trade 7, delivered and delivered again, and trade 10 after the second time. -/
def sequenced (tradeId : String) (tradeSeq recvTsNs srcOffset : Int) : TypedTrade :=
  { deliveryOf 0 recvTsNs with
    tradeId := tradeId
    tradeSeq := tradeSeq
    srcOffset := srcOffset }

def replayedBetween : List (List TypedTrade × Nat) :=
  [([sequenced "7" 7 1000000 0], 1), ([], 1),
    ([sequenced "7" 7 2000000 1, sequenced "10" 10 3000000 2], 2)]

theorem replay_scored_as_one :
    rows (silverWriteAll [] replayedBetween) =
        score [sequenced "7" 7 1000000 0, sequenced "7" 7 2000000 1,
          sequenced "10" 10 3000000 2] [] ∧
      (((rows (silverWriteAll [] replayedBetween)).filter fun r =>
        r.symbol = "BTC-USD" && !r.venueReplay).map fun r => r.missingBefore.getD 0).sum = 2 := by
  have hordered : InDeliveryOrder (replayedBetween.map Prod.fst) :=
    { lineages := by decide
      numbered := by decide
      ordered := by decide
      increasing := by
        intro d e hd he
        have hall : ∀ d ∈ (replayedBetween.map Prod.fst).flatten,
            ∀ e ∈ (replayedBetween.map Prod.fst).flatten,
              FirstDelivery (replayedBetween.map Prod.fst).flatten d →
              FirstDelivery (replayedBetween.map Prod.fst).flatten e →
              d.symbol = e.symbol → d.rank < e.rank → d.tradeSeq < e.tradeSeq := by decide
        exact hall d hd.1 e he.1 hd he
      remembered := by decide }
  obtain ⟨hrows, hsum⟩ := silver_batching replayedBetween hordered
  refine ⟨hrows, ?_⟩
  rw [hsum "BTC-USD" 7 10 (by decide) (by decide)]
  decide

end K2.Lake
