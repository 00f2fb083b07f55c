import Mathlib.Data.List.Dedup
import Mathlib.Data.Multiset.UnionInter
import Mathlib.Data.Nat.Log
import Mathlib.Data.String.Basic
import K2Platform.Lib.FirstWins
import K2Platform.Lib.SortOn

/-!
# Trade parity between the two capture tiers

`scripts/parity/compare_trades.py`: the normalised trades of one window, read from the topic of
each tier, are grouped by symbol, and each symbol gets a row of counts with a verdict.

* `compareSymbol` joins the two sides on the trade id, or, where the ids of one side are
  synthesised, compares multisets of what a trade carries.
* `tolerance` is the binary floating point product of the source, rounded as the format rounds it.
* `SymbolStats.passed_eq_false` — a repeat that disagrees with its first copy fails the symbol.
* `compareSymbol_perm` — where no repeat disagrees, the whole row is the same in every order.
* `compare_verdicts_perm` — the verdicts are the same in every order, disagreements or not.
-/

set_option autoImplicit false

namespace K2.Parity

/-- One trade, reduced to what both contracts can express exactly. -/
structure Norm where
  canonicalSymbol : String
  tradeId : String
  price : Int
  qty : Int
  side : String
  exchangeTsUs : Int
  deriving DecidableEq, Repr

def SYNTHETIC_V2_ID_EXCHANGES : List String := ["kraken"]

def MAX_TS_DELTA_US : Nat := 1000

def EDGE_ALLOWANCE : Nat := 2

/-! ## Tolerances -/

/-- A natural number as a double: 53 significant bits, to nearest, ties to even. -/
def toDouble (n : Nat) : Nat :=
  let ulp := 2 ^ (n.log2 + 1 - 53)
  let q := n / ulp
  let r := n % ulp
  if 2 * r < ulp ∨ (2 * r = ulp ∧ q % 2 = 0) then q * ulp else (q + 1) * ulp

/-- `max(2, int(count * 0.001))`; the double `0.001` is `1152921504606847 / 2 ^ 60`. -/
def toleranceFor (count : Nat) : Nat :=
  max 2 (toDouble (toDouble count * 1152921504606847) / 1152921504606846976)

/-! ## One symbol's row -/

structure SymbolStats where
  symbol : String
  countV2 : Nat
  countV3 : Nat
  onlyV2 : Nat
  onlyV3 : Nat
  mismatched : Option Nat
  maxTsDeltaUs : Option Nat
  dupV2 : Nat
  dupV3 : Nat
  dupInconsistent : Nat
  deriving DecidableEq, Repr

namespace SymbolStats

def countDelta (s : SymbolStats) : Int := (s.countV2 : Int) - s.countV3

def tolerance (s : SymbolStats) : Nat := toleranceFor (max s.countV2 s.countV3)

def sideAllowance (s : SymbolStats) : Nat :=
  if s.mismatched = none then EDGE_ALLOWANCE else s.tolerance

def passed (s : SymbolStats) : Bool :=
  if (s.countV2 == 0) != (s.countV3 == 0) then false
  else if s.maxTsDeltaUs.any (MAX_TS_DELTA_US ≤ ·) then false
  else if s.dupInconsistent ≠ 0 then false
  else
    s.countDelta.natAbs ≤ s.tolerance && s.onlyV2 ≤ s.sideAllowance &&
      s.onlyV3 ≤ s.sideAllowance && s.mismatched.getD 0 = 0

theorem passed_eq_false {s : SymbolStats} (h : s.dupInconsistent ≠ 0) : s.passed = false := by
  unfold passed
  rw [if_pos h]
  simp only [ite_self]

end SymbolStats

def msBucketKey (n : Norm) : Int × Int × String × Int :=
  (n.price, n.qty, n.side, n.exchangeTsUs / 1000)

def comparable (n : Norm) : Int × Int × String := (n.price, n.qty, n.side)

def dedupeById (rows : List Norm) : FirstWins.Deduped String Norm :=
  FirstWins.dedupe Norm.tradeId (fun n => (comparable n, n.exchangeTsUs)) rows

/-- `sum((c - d).values())` of two counters. -/
def surplus (c d : List (Int × Int × String × Int)) : Nat :=
  ((c : Multiset (Int × Int × String × Int)) - d).card

/-- The trades held on both sides under one id. -/
def common (by2 by3 : Dict String Norm) : List (Norm × Norm) :=
  by2.entries.filterMap fun e => (by3.get? e.1).map fun n => (e.2, n)

def compareSymbol (symbol : String) (v2 v3 : List Norm) (joinOnId : Bool) : SymbolStats :=
  let d3 := dedupeById v3
  if ¬joinOnId then
    let v3u := d3.byKey.values
    { symbol := symbol
      countV2 := v2.length
      countV3 := v3u.length
      onlyV2 := surplus (v2.map msBucketKey) (v3u.map msBucketKey)
      onlyV3 := surplus (v3u.map msBucketKey) (v2.map msBucketKey)
      mismatched := none
      maxTsDeltaUs := none
      dupV2 := v2.length - (v2.map Norm.tradeId).dedup.length
      dupV3 := d3.dup
      dupInconsistent := d3.inconsistent }
  else
    let d2 := dedupeById v2
    let both := common d2.byKey d3.byKey
    { symbol := symbol
      countV2 := d2.byKey.keys.length
      countV3 := d3.byKey.keys.length
      onlyV2 := d2.byKey.keys.countP (· ∉ d3.byKey.keys)
      onlyV3 := d3.byKey.keys.countP (· ∉ d2.byKey.keys)
      mismatched := some (both.countP fun p => comparable p.1 ≠ comparable p.2)
      maxTsDeltaUs := (both.map fun p => (p.1.exchangeTsUs - p.2.exchangeTsUs).natAbs).max?
      dupV2 := d2.dup
      dupV3 := d3.dup
      dupInconsistent := d2.inconsistent + d3.inconsistent }

/-- What a row of one symbol can differ in is the trade id and the content the repeats share. -/
theorem consistent_of_inconsistent_eq_zero {symbol : String} {rows : List Norm}
    (hs : ∀ n ∈ rows, n.canonicalSymbol = symbol) (h : (dedupeById rows).inconsistent = 0) :
    FirstWins.Consistent Norm.tradeId (fun n => n) rows := by
  intro a ha b hb hab
  have hcontent := (FirstWins.inconsistent_eq_zero_iff rows).1 h a ha b hb hab
  have hsymbol : a.canonicalSymbol = b.canonicalSymbol := (hs a ha).trans (hs b hb).symm
  cases a
  cases b
  simp only [comparable, Prod.mk.injEq] at hcontent
  simp only [Norm.mk.injEq]
  exact ⟨hsymbol, hab, hcontent.1.1, hcontent.1.2.1, hcontent.1.2.2, hcontent.2⟩

section Order

variable {symbol : String} {v2 v2' v3 v3' rows rows' : List Norm}

theorem dedupeById_entries_perm (hs : ∀ n ∈ rows, n.canonicalSymbol = symbol)
    (h : rows.Perm rows') (hz : (dedupeById rows).inconsistent = 0) :
    (dedupeById rows).byKey.entries.Perm (dedupeById rows').byKey.entries :=
  FirstWins.entries_perm h (consistent_of_inconsistent_eq_zero hs hz)

theorem dedupeById_inconsistent_perm (h : rows.Perm rows')
    (hz : (dedupeById rows).inconsistent = 0) : (dedupeById rows').inconsistent = 0 :=
  (FirstWins.inconsistent_eq_zero_iff rows').2
    (((FirstWins.inconsistent_eq_zero_iff rows).1 hz).of_perm h)

theorem dedupeById_dup_perm (hs : ∀ n ∈ rows, n.canonicalSymbol = symbol)
    (h : rows.Perm rows') (hz : (dedupeById rows).inconsistent = 0) :
    (dedupeById rows').dup = (dedupeById rows).dup := by
  have hadd : (dedupeById rows).dup + (dedupeById rows).byKey.entries.length = rows.length :=
    FirstWins.dup_add_length rows
  have hadd' : (dedupeById rows').dup + (dedupeById rows').byKey.entries.length = rows'.length :=
    FirstWins.dup_add_length rows'
  have hheld := (dedupeById_entries_perm hs h hz).length_eq
  have hlength := h.length_eq
  omega

theorem surplus_perm {c c' d d' : List (Int × Int × String × Int)} (hc : c.Perm c')
    (hd : d.Perm d') : surplus c d = surplus c' d' := by
  unfold surplus
  rw [Multiset.coe_eq_coe.2 hc, Multiset.coe_eq_coe.2 hd]

theorem max?_perm {l l' : List Nat} (h : l.Perm l') : l.max? = l'.max? := by
  refine Option.ext fun m => ?_
  rw [List.max?_eq_some_iff, List.max?_eq_some_iff]
  simp only [h.mem_iff]

theorem get?_eq_of_perm {d e : Dict String Norm} (h : d.entries.Perm e.entries) (t : String) :
    d.get? t = e.get? t := by
  refine Option.ext fun n => ?_
  rw [Dict.get?_eq_some_iff, Dict.get?_eq_some_iff, h.mem_iff]

theorem common_perm {d d' e e' : Dict String Norm} (hd : d.entries.Perm d'.entries)
    (he : e.entries.Perm e'.entries) : (common d e).Perm (common d' e') := by
  unfold common
  simp only [get?_eq_of_perm he]
  exact hd.filterMap _

theorem countP_notMem_perm {k k' l l' : List String} (hk : k.Perm k') (hl : l.Perm l') :
    k.countP (· ∉ l) = k'.countP (· ∉ l') := by
  simp only [hl.mem_iff]
  exact hk.countP_eq _

/-- Where no repeat disagrees, the whole row is a function of what was read. -/
theorem compareSymbol_perm (hs2 : ∀ n ∈ v2, n.canonicalSymbol = symbol)
    (hs3 : ∀ n ∈ v3, n.canonicalSymbol = symbol) (h2 : v2.Perm v2') (h3 : v3.Perm v3')
    {joinOnId : Bool} (hz : (compareSymbol symbol v2 v3 joinOnId).dupInconsistent = 0) :
    compareSymbol symbol v2' v3' joinOnId = compareSymbol symbol v2 v3 joinOnId := by
  unfold compareSymbol at hz ⊢
  cases joinOnId with
  | false =>
    have hz3 : (dedupeById v3).inconsistent = 0 := hz
    have hvalues := (dedupeById_entries_perm hs3 h3 hz3).symm.map Prod.snd
    have hkeys3 := hvalues.map msBucketKey
    have hkeys2 := h2.symm.map msBucketKey
    have hids := (h2.symm.map Norm.tradeId).dedup
    simp only [Bool.false_eq_true, not_false_eq_true, if_true, SymbolStats.mk.injEq, true_and]
    exact ⟨h2.symm.length_eq, hvalues.length_eq, surplus_perm hkeys2 hkeys3,
      surplus_perm hkeys3 hkeys2, by rw [h2.length_eq, hids.length_eq],
      dedupeById_dup_perm hs3 h3 hz3, (dedupeById_inconsistent_perm h3 hz3).trans hz3.symm⟩
  | true =>
    obtain ⟨hz2, hz3⟩ : (dedupeById v2).inconsistent = 0 ∧ (dedupeById v3).inconsistent = 0 :=
      Nat.add_eq_zero_iff.1 hz
    have hentries2 := (dedupeById_entries_perm hs2 h2 hz2).symm
    have hentries3 := (dedupeById_entries_perm hs3 h3 hz3).symm
    have hkeys2 := hentries2.map Prod.fst
    have hkeys3 := hentries3.map Prod.fst
    have hboth := common_perm hentries2 hentries3
    simp only [not_true_eq_false, if_false, SymbolStats.mk.injEq, true_and, Option.some.injEq]
    refine ⟨hkeys2.length_eq, hkeys3.length_eq, countP_notMem_perm hkeys2 hkeys3,
      countP_notMem_perm hkeys3 hkeys2, hboth.countP_eq _, max?_perm (hboth.map _),
      dedupeById_dup_perm hs2 h2 hz2, dedupeById_dup_perm hs3 h3 hz3, ?_⟩
    rw [hz2, hz3, dedupeById_inconsistent_perm h2 hz2, dedupeById_inconsistent_perm h3 hz3]

/-- That some repeat disagrees is a fact about what was read. -/
theorem dupInconsistent_ne_zero (h2 : v2.Perm v2') (h3 : v3.Perm v3') {joinOnId : Bool}
    (hne : (compareSymbol symbol v2 v3 joinOnId).dupInconsistent ≠ 0) :
    (compareSymbol symbol v2' v3' joinOnId).dupInconsistent ≠ 0 := by
  intro hz
  refine hne ?_
  unfold compareSymbol at hz ⊢
  cases joinOnId with
  | false => exact dedupeById_inconsistent_perm h3.symm hz
  | true =>
    obtain ⟨hz2, hz3⟩ := Nat.add_eq_zero_iff.1 hz
    exact Nat.add_eq_zero_iff.2
      ⟨dedupeById_inconsistent_perm h2.symm hz2, dedupeById_inconsistent_perm h3.symm hz3⟩

theorem symbol_compareSymbol (joinOnId : Bool) :
    (compareSymbol symbol v2 v3 joinOnId).symbol = symbol := by
  cases joinOnId <;> rfl

theorem compareSymbol_passed_perm (hs2 : ∀ n ∈ v2, n.canonicalSymbol = symbol)
    (hs3 : ∀ n ∈ v3, n.canonicalSymbol = symbol) (h2 : v2.Perm v2') (h3 : v3.Perm v3')
    (joinOnId : Bool) :
    (compareSymbol symbol v2' v3' joinOnId).passed =
      (compareSymbol symbol v2 v3 joinOnId).passed := by
  by_cases hz : (compareSymbol symbol v2 v3 joinOnId).dupInconsistent = 0
  · rw [compareSymbol_perm hs2 hs3 h2 h3 hz]
  · rw [SymbolStats.passed_eq_false hz,
      SymbolStats.passed_eq_false (dupInconsistent_ne_zero h2 h3 hz)]

end Order

/-! ## Every symbol of a window -/

/-- `d[n.canonical_symbol].append(n)` over a `defaultdict(list)`. -/
def bySymbol (rows : List Norm) : Dict String (List Norm) :=
  rows.foldl (fun d n => d.insert n.canonicalSymbol (d.getD n.canonicalSymbol [] ++ [n]))
    Dict.empty

theorem getD_bySymbol (rows : List Norm) (symbol : String) :
    (bySymbol rows).getD symbol [] = rows.filter fun n => n.canonicalSymbol = symbol := by
  unfold bySymbol
  induction rows using List.reverseRecOn with
  | nil => rfl
  | append_singleton rows n ih =>
    rw [List.foldl_append, List.foldl_cons, List.foldl_nil, List.filter_append, ← ih]
    by_cases h : symbol = n.canonicalSymbol
    · subst h
      simp [Dict.getD, Dict.get?_insert]
    · simp [Dict.getD, Dict.get?_insert, h, Ne.symm h]

theorem mem_keys_bySymbol {rows : List Norm} {symbol : String} :
    symbol ∈ (bySymbol rows).keys ↔ ∃ n ∈ rows, n.canonicalSymbol = symbol := by
  unfold bySymbol
  rw [Dict.mem_keys_iff]
  induction rows using List.reverseRecOn with
  | nil => simp
  | append_singleton rows n ih =>
    rw [List.foldl_append, List.foldl_cons, List.foldl_nil]
    simp only [Dict.get?_insert, List.mem_append, List.mem_singleton]
    by_cases h : symbol = n.canonicalSymbol
    · simp only [if_pos h, Option.some.injEq, exists_eq', true_iff]
      exact ⟨n, Or.inr rfl, h.symm⟩
    · simp only [if_neg h]
      rw [ih]
      constructor
      · rintro ⟨m, hm, hms⟩
        exact ⟨m, Or.inl hm, hms⟩
      · rintro ⟨m, hm | rfl, hms⟩
        · exact ⟨m, hm, hms⟩
        · exact absurd hms.symm h

def compare (v2 v3 : List Norm) (exchange : String) : List SymbolStats :=
  let joinOnId : Bool := exchange ∉ SYNTHETIC_V2_ID_EXCHANGES
  let left := bySymbol v2
  let right := bySymbol v3
  (sortOn id (left.keys ++ right.keys).dedup).map fun symbol =>
    compareSymbol symbol (left.getD symbol []) (right.getD symbol []) joinOnId

/-- The symbols of a window are the same in every order, and come out in the same order. -/
theorem symbols_perm {v2 v2' v3 v3' : List Norm} (h2 : v2.Perm v2') (h3 : v3.Perm v3') :
    sortOn id ((bySymbol v2').keys ++ (bySymbol v3').keys).dedup =
      sortOn id ((bySymbol v2).keys ++ (bySymbol v3).keys).dedup := by
  refine sortOn_eq (fun a _ b _ hab => hab) ?_ (sortOn_pairwise id _)
  refine (sortOn_perm id _).trans ?_
  refine (List.perm_ext_iff_of_nodup (List.nodup_dedup _) (List.nodup_dedup _)).2 fun symbol => ?_
  simp only [List.mem_dedup, List.mem_append, mem_keys_bySymbol, h2.mem_iff, h3.mem_iff]

theorem filter_symbol (rows : List Norm) (symbol : String) :
    ∀ n ∈ rows.filter (fun n => n.canonicalSymbol = symbol), n.canonicalSymbol = symbol := by
  intro n hn
  exact of_decide_eq_true (List.mem_filter.1 hn).2

theorem compare_verdicts_perm {v2 v2' v3 v3' : List Norm} (h2 : v2.Perm v2') (h3 : v3.Perm v3')
    (exchange : String) :
    (compare v2 v3 exchange).map (fun s => (s.symbol, s.passed)) =
      (compare v2' v3' exchange).map (fun s => (s.symbol, s.passed)) := by
  simp only [compare, symbols_perm h2 h3, List.map_map]
  refine List.map_congr_left fun symbol _ => ?_
  simp only [Function.comp_apply, symbol_compareSymbol, getD_bySymbol, Prod.mk.injEq, true_and]
  exact (compareSymbol_passed_perm (filter_symbol v2 symbol) (filter_symbol v3 symbol)
    (h2.filter _) (h3.filter _) _).symm

def resent : Norm := ⟨"BTC/USD", "1", 7860044000000, 100000000, "buy", 1756216800000000⟩

def mangled : Norm := { resent with price := 99900000000 }

/-- The copy that is held decides whether the pair is a mismatch, but not the verdict. -/
theorem compare_verdicts_perm_resent :
    [resent, mangled].Perm [mangled, resent] ∧
      (compare [resent, mangled] [resent] "coinbase").map SymbolStats.mismatched = [some 0] ∧
      (compare [mangled, resent] [resent] "coinbase").map SymbolStats.mismatched = [some 1] ∧
      (compare [resent, mangled] [resent] "coinbase").map (fun s => (s.symbol, s.passed)) =
        (compare [mangled, resent] [resent] "coinbase").map (fun s => (s.symbol, s.passed)) :=
  ⟨List.Perm.swap _ _ _, by decide, by decide,
    compare_verdicts_perm (List.Perm.swap _ _ _) (List.Perm.refl _) "coinbase"⟩

end K2.Parity
