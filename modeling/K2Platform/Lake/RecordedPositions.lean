import K2Platform.Lake.GoldTrades
import K2Platform.Lake.IncrementalReads
import K2Platform.Lake.Replay
import Mathlib.Logic.Relation

/-!
# The positions that `gold.trades` records

Model of `stage_trades` of `gold.py` as it finds its positions: the snapshot of each venue's silver
table that was read last is a property of the newest snapshot of `gold.trades` that a stage wrote,
and every commit writes the properties of all venues.  `GoldTrades` has the positions as numbers of
commits; a turn of a venue here is a turn there.

* `turn_simulates` — a venue's turn reads and commits what the turn of `GoldTrades` does.
* `silver_read_once` — in every state reached, `gold.trades` has the rows of each silver table up
  to the position, and no commit takes a position back.
-/

set_option autoImplicit false

namespace K2.Lake.Recorded

open Changelog Relation

/-! ## One venue's turn -/

/-- `k2.src-snapshot-id.<venue>`. -/
def positionKey (v : Exchange) : String := SRC_SNAPSHOT_ID ++ "." ++ v.name

def isPositionKey (key : String) : Bool := (SRC_SNAPSHOT_ID ++ ".").toList.isPrefixOf key.toList

/-- A property that is a text, and not an empty one. -/
def textOf : Property → Option String
  | .text s => if s = "" then none else some s
  | _ => none

/-- `start`. -/
def recorded (gold : DataTable GoldTrade) (v : Exchange) : Option String :=
  ((latestSummary gold.history JOB_DECODE).bind fun s => s.get? (positionKey v)).bind textOf

/-- The properties of the commit: `k2.job`, and every venue's position. -/
def commitSummary (previous : Option Summary) (v : Exchange) (stop : String) : Summary :=
  let positions := (previous.getD Dict.empty).filterKeys isPositionKey
  (Dict.empty.insert JOB (.text JOB_DECODE)).update (positions.insert (positionKey v) (.text stop))

inductive Turn where
  | level
  | raised
  | commit (s : DataSnapshot GoldTrade)

abbrev Silver := Exchange → DataTable SilverTrade

section Stage

variable (silver : Silver) (runTs : Int) (stamps : Exchange → Nat × Int)

/-- One turn of the loop; `stamps` are the id and the time that the commit is given. -/
def turn (gold : DataTable GoldTrade) (v : Exchange) : Turn :=
  match (silver v).current with
  | none => .level
  | some stop =>
    if recorded gold v = some stop.idText then .level
    else
      let batch := match recorded gold v with
        | some start => (silver v).readBetween start stop.idText
        | none => (silver v).readAt stop.idText
      match batch with
      | none => .raised
      | some rows => .commit {
          id := (stamps v).1
          committedAt := (stamps v).2
          summary := commitSummary (latestSummary gold.history JOB_DECODE) v stop.idText
          rows := projectSilver v runTs rows }

/-- The turns of some venues. -/
def stageTrades : List Exchange → DataTable GoldTrade → DataTable GoldTrade
  | [], gold => gold
  | v :: venues, gold =>
    match turn silver runTs stamps gold v with
    | .level => stageTrades venues gold
    | .raised => gold
    | .commit s => stageTrades venues (gold ++ [s])

end Stage

/-! ## Runs -/

structure State where
  silver : Silver
  gold : DataTable GoldTrade

/-- Silver grows, compaction rewrites `gold.trades`, and runs get past some of the venues. -/
inductive Step : State → State → Prop
  | grow {st : State} (silver : Silver) : (∀ v, st.silver v <+: silver v) →
      (∀ v, (silver v).Valid) → Step st { st with silver := silver }
  | maintain {st : State} (s : DataSnapshot GoldTrade) : s.rows = [] →
      Snapshot.writtenBy JOB_DECODE ⟨s.committedAt, s.summary⟩ = false →
      DataTable.Valid (st.gold ++ [s]) → Step st { st with gold := st.gold ++ [s] }
  | run {st : State} (runTs : Int) (stamps : Exchange → Nat × Int) (cut : Nat) :
      (stageTrades st.silver runTs stamps (TRADES.take cut) st.gold).Valid →
      Step st { st with gold := stageTrades st.silver runTs stamps (TRADES.take cut) st.gold }

def State.start : State := ⟨fun _ => [], []⟩

def Reached (st : State) : Prop := ReflTransGen Step State.start st

/-- How many snapshots of the silver table are at or below the position. -/
def State.reach (st : State) (v : Exchange) : Nat :=
  ((recorded st.gold v).bind (st.silver v).place).getD 0

/-! ## What a commit records -/

theorem positionKey_isPositionKey (v : Exchange) : isPositionKey (positionKey v) = true := by
  cases v <;> decide

theorem positionKey_inj {v w : Exchange} (h : positionKey v = positionKey w) : v = w := by
  cases v <;> cases w <;> first | rfl | exact absurd h (by decide)

theorem get?_commitSummary (previous : Option Summary) (v w : Exchange) (stop : String) :
    (commitSummary previous v stop).get? (positionKey w) =
      if w = v then some (.text stop) else previous.bind fun s => s.get? (positionKey w) := by
  have hjob : positionKey w ≠ JOB := by
    cases w <;> decide
  rw [commitSummary, Dict.get?_update, Dict.get?_insert, Dict.get?_filterKeys,
    positionKey_isPositionKey, if_pos rfl, Dict.get?_insert, if_neg hjob, Dict.get?_empty,
    Option.or_none]
  by_cases hw : w = v
  · rw [if_pos (congrArg positionKey hw), if_pos hw]
  · rw [if_neg fun h => hw (positionKey_inj h), if_neg hw]
    cases previous <;> rfl

theorem writtenBy_commitSummary (previous : Option Summary) (v : Exchange) (stop : String)
    (at' : Int) : Snapshot.writtenBy JOB_DECODE ⟨at', commitSummary previous v stop⟩ = true := by
  have hjob : JOB ≠ positionKey v := by
    cases v <;> decide
  have hpre : isPositionKey JOB = false := by decide
  rw [Snapshot.writtenBy, commitSummary, Dict.get?_update, Dict.get?_insert, if_neg hjob,
    Dict.get?_filterKeys, hpre]
  rfl

theorem textOf_idText {ρ : Type} (s : DataSnapshot ρ) : textOf (.text s.idText) = some s.idText :=
  if_neg Nat.repr_ne_empty

/-- A commit for one venue records that venue's position, and the others' as they were. -/
theorem recorded_commit {gold : DataTable GoldTrade} {s : DataSnapshot GoldTrade}
    (h : DataTable.Valid (gold ++ [s])) {v : Exchange} {stop : DataSnapshot SilverTrade}
    (hs : s.summary = commitSummary (latestSummary gold.history JOB_DECODE) v stop.idText)
    (w : Exchange) :
    recorded (gold ++ [s]) w = if w = v then some stop.idText else recorded gold w := by
  have hwritten : Snapshot.writtenBy JOB_DECODE ⟨s.committedAt, s.summary⟩ = true := by
    rw [hs]
    exact writtenBy_commitSummary _ v _ _
  rw [recorded, DataTable.latestSummary_history_concat h, if_pos hwritten, Option.bind_some, hs,
    get?_commitSummary]
  by_cases hw : w = v
  · rw [if_pos hw, if_pos hw, Option.bind_some, textOf_idText]
  · rw [if_neg hw, if_neg hw, recorded]

/-- Compaction records nothing. -/
theorem recorded_maintain {gold : DataTable GoldTrade} {s : DataSnapshot GoldTrade}
    (h : DataTable.Valid (gold ++ [s]))
    (hs : Snapshot.writtenBy JOB_DECODE ⟨s.committedAt, s.summary⟩ = false) (w : Exchange) :
    recorded (gold ++ [s]) w = recorded gold w := by
  rw [recorded, DataTable.latestSummary_history_concat h, if_neg (by rw [hs]; exact Bool.false_ne_true),
    recorded]

/-! ## A turn here is a turn there -/

/-- The silver tables as `GoldTrades` has them. -/
def logs (silver : Silver) : SilverTables := fun v => (silver v).map fun s => ⟨s.rows, none⟩

structure Simulates (silver : Silver) (gold : DataTable GoldTrade) (log : GoldLog) : Prop where
  rows : log.map Changelog.Commit.rows = gold.map DataSnapshot.rows
  found : ∀ v text, recorded gold v = some text → ∃ n, (silver v).place text = some n
  position : ∀ v, position log v = (recorded gold v).bind (silver v).place

theorem rows_logs (t : DataTable SilverTrade) :
    rows (t.map fun s => (⟨s.rows, none⟩ : Changelog.Commit SilverTrade Nat)) = t.rows :=
  List.flatMap_map ..

theorem rows_of_simulates {silver : Silver} {gold : DataTable GoldTrade} {log : GoldLog}
    (h : Simulates silver gold log) : rows log = gold.rows := by
  rw [Changelog.rows, DataTable.rows, List.flatMap_def, List.flatMap_def, h.rows]

theorem between_logs (silver : Silver) (v : Exchange) (m n : Nat) :
    between (logs silver v) (some m) n = DataTable.rows (((silver v).take n).drop m) := by
  rw [between, logs, ← List.map_take, ← List.map_drop, rows_logs]
  rfl

section Turns

variable {silver : Silver} {gold : DataTable GoldTrade} {log : GoldLog} {runTs : Int}
  {stamps : Exchange → Nat × Int}

/-- What the turn reads is what the log has between position and head. -/
theorem batch_eq (hids : ∀ v, ((silver v).map DataSnapshot.id).Nodup)
    (h : Simulates silver gold log) {v : Exchange} {stop : DataSnapshot SilverTrade}
    (hstop : (silver v).current = some stop) (hne : recorded gold v ≠ some stop.idText) :
    (match recorded gold v with
      | some start => (silver v).readBetween start stop.idText
      | none => (silver v).readAt stop.idText) =
      some (between (logs silver v) (position log v) (silver v).length) := by
  have hplace := DataTable.place_current (hids v) hstop
  rw [h.position v]
  cases hstart : recorded gold v with
  | none =>
    rw [Option.bind_none, DataTable.readAt_eq hplace, List.take_length, between, Option.getD_none,
      List.drop_zero, List.take_of_length_le (by rw [logs, List.length_map]), logs, rows_logs]
  | some start =>
    obtain ⟨m, hm⟩ := h.found v start hstart
    have hle := (DataTable.place_le hm).2
    have hlt : m ≠ (silver v).length := by
      rintro rfl
      exact hne (hstart.trans (congrArg some (DataTable.idText_of_place hstop hm)))
    rw [Option.bind_some, hm, between_logs]
    exact DataTable.readBetween_eq hm hplace (lt_of_le_of_ne hle hlt)

variable (runTs stamps) in
/-- **A turn reads and commits what the turn of `GoldTrades` does**, and never raises. -/
theorem turn_simulates (hids : ∀ v, ((silver v).map DataSnapshot.id).Nodup)
    (h : Simulates silver gold log) (v : Exchange) :
    (turn silver runTs stamps gold v = .level ∧ stageVenue (logs silver) runTs log v = log) ∨
      ∃ s, turn silver runTs stamps gold v = .commit s ∧
        (DataTable.Valid (gold ++ [s]) →
          Simulates silver (gold ++ [s]) (stageVenue (logs silver) runTs log v)) := by
  have hlength : (logs silver v).length = (silver v).length := List.length_map _
  cases hstop : (silver v).current with
  | none =>
    have hnil : silver v = [] := List.getLast?_eq_none_iff.1 hstop
    refine Or.inl ⟨by rw [turn, hstop], ?_⟩
    rw [stageVenue, venueCommit, logs, hnil]
    exact List.append_nil log
  | some stop =>
    have hne : silver v ≠ [] := by
      intro hnil
      rw [hnil] at hstop
      cases hstop
    have hlogs : logs silver v ≠ [] := fun hnil => hne (List.map_eq_nil_iff.1 hnil)
    have hhead : head (logs silver v) = some (silver v).length :=
      head_eq_some_iff.2 ⟨hlength, hlogs⟩
    have hplace := DataTable.place_current (hids v) hstop
    by_cases hlevel : recorded gold v = some stop.idText
    · have hpos : position log v = some (silver v).length := by
        rw [h.position, hlevel, Option.bind_some, hplace]
      refine Or.inl ⟨by rw [turn, hstop]; exact if_pos hlevel, ?_⟩
      rw [stageVenue, venueCommit, hhead]
      simp only [hpos, if_true, Option.toList_none, List.append_nil]
    · have hpos : position log v ≠ some (silver v).length := by
        rw [h.position]
        intro hplace'
        obtain ⟨text, htext, htp⟩ := Option.bind_eq_some_iff.1 hplace'
        exact hlevel (htext.trans (congrArg some (DataTable.idText_of_place hstop htp)))
      have hbatch := batch_eq hids h hstop hlevel
      refine Or.inr ⟨_, by
        rw [turn, hstop]
        simp only [if_neg hlevel, hbatch]
        rfl, fun hvalid => ?_⟩
      have hstage : stageVenue (logs silver) runTs log v = log ++ [⟨projectSilver v runTs
          (between (logs silver v) (position log v) (silver v).length),
            some (((mark log).getD Dict.empty).insert v (silver v).length)⟩] := by
        rw [stageVenue, venueCommit, hhead]
        simp only [if_neg hpos, Option.toList_some]
      have hrecorded : ∀ w, recorded (gold ++ [_]) w =
          if w = v then some stop.idText else recorded gold w := recorded_commit hvalid rfl
      constructor
      · rw [hstage, List.map_append, List.map_append, h.rows]
        rfl
      · intro w text hw
        rw [hrecorded] at hw
        split at hw
        · rename_i hwv
          cases hw
          exact ⟨_, hwv ▸ hplace⟩
        · exact h.found w text hw
      · intro w
        rw [position_stageVenue, hrecorded, h.position w, hlength]
        by_cases hw : w = v
        · rw [if_pos ⟨hw, hlogs⟩, if_pos hw, Option.bind_some, hw, hplace]
        · rw [if_neg fun h => hw h.1, if_neg hw]

theorem prefix_stageTrades (venues : List Exchange) :
    ∀ gold : DataTable GoldTrade, gold <+: stageTrades silver runTs stamps venues gold := by
  induction venues with
  | nil => exact fun _ => List.prefix_rfl
  | cons v venues ih =>
    intro gold
    unfold stageTrades
    split
    · exact ih gold
    · exact List.prefix_rfl
    · exact (List.prefix_append _ _).trans (ih _)

theorem stageTrades_simulates (hids : ∀ v, ((silver v).map DataSnapshot.id).Nodup)
    (venues : List Exchange) :
    ∀ {gold : DataTable GoldTrade} {log : GoldLog}, Simulates silver gold log →
      (stageTrades silver runTs stamps venues gold).Valid →
        Simulates silver (stageTrades silver runTs stamps venues gold)
          (venues.foldl (stageVenue (logs silver) runTs) log) := by
  induction venues with
  | nil => exact fun h _ => h
  | cons v venues ih =>
    intro gold log h hvalid
    rw [List.foldl_cons]
    rcases turn_simulates runTs stamps hids h v with
      ⟨hturn, hstage⟩ | ⟨s, hturn, hstage⟩
    · rw [stageTrades, hturn] at hvalid ⊢
      rw [hstage]
      exact ih h hvalid
    · rw [stageTrades, hturn] at hvalid ⊢
      exact ih (hstage (hvalid.initial (prefix_stageTrades venues _))) hvalid

/-- The position of a venue goes up with its own turn and stays with the others'. -/
theorem position_stageTrades_le (hsynced : ∀ v, Synced (logs silver) log v) (venues : List Exchange)
    (w : Exchange) : (position log w).getD 0 ≤
      (position (venues.foldl (stageVenue (logs silver) runTs) log) w).getD 0 := by
  induction venues generalizing log with
  | nil => exact le_rfl
  | cons v venues ih =>
    refine le_trans ?_ (ih fun v => synced_stageVenue (hsynced v))
    rw [position_stageVenue]
    split
    · rename_i hw
      rw [Option.getD_some, ← hw.1]
      exact (hsynced w).1
    · exact le_rfl

end Turns

/-! ## Every state reached -/

/-- The state is one of `GoldTrades` in which every venue is read up to its position. -/
structure Inv (st : State) : Prop where
  silver : ∀ v, (st.silver v).Valid
  gold : st.gold.Valid
  log : ∃ log, Simulates st.silver st.gold log ∧ ∀ v, Synced (logs st.silver) log v

theorem inv_start : Inv State.start where
  silver := fun _ => ⟨List.nodup_nil, List.Pairwise.nil⟩
  gold := ⟨List.nodup_nil, List.Pairwise.nil⟩
  log := by
    refine ⟨[], ⟨rfl, fun v text h => ?_, fun v => rfl⟩, fun v => synced_empty _ v⟩
    cases h

theorem inv_step {st st' : State} (h : Inv st) (hstep : Step st st') :
    Inv st' ∧ ∀ v, st.reach v ≤ st'.reach v := by
  obtain ⟨hsilver, hgold, log, hsim, hsynced⟩ := h
  have hreach : ∀ v, st.reach v = (position log v).getD 0 := fun v => by
    rw [State.reach, ← hsim.position]
  cases hstep with
  | grow silver hgrow hvalid =>
    have hplace : ∀ v, (recorded st.gold v).bind (silver v).place =
        (recorded st.gold v).bind (st.silver v).place := by
      intro v
      cases hr : recorded st.gold v with
      | none => rfl
      | some text =>
        obtain ⟨n, hn⟩ := hsim.found v text hr
        obtain ⟨more, hmore⟩ := hgrow v
        rw [Option.bind_some, Option.bind_some, hn, ← hmore]
        exact DataTable.place_append hn more
    refine ⟨⟨hvalid, hgold, log, ⟨hsim.rows, fun v text hr => ?_, fun v => ?_⟩, fun v => ?_⟩,
      fun v => ?_⟩
    · obtain ⟨n, hn⟩ := hsim.found v text hr
      obtain ⟨more, hmore⟩ := hgrow v
      refine ⟨n, ?_⟩
      show (silver v).place text = some n
      rw [← hmore]
      exact DataTable.place_append hn more
    · rw [hsim.position, ← hplace]
    · exact (hsynced v).silver_append ((hgrow v).map _)
    · rw [State.reach, State.reach, hplace]
  | maintain s hrows hwritten hvalid =>
    have hrecorded := recorded_maintain hvalid hwritten
    have hsame : ∀ v, position (log ++ [⟨[], none⟩]) v = position log v := fun v => by
      rw [position, mark_concat, Option.none_or, position]
    refine ⟨⟨hsilver, hvalid, log ++ [⟨[], none⟩], ⟨?_, fun v text hr => ?_, fun v => ?_⟩,
      fun v => ?_⟩, fun v => ?_⟩
    · rw [List.map_append, List.map_append, hsim.rows, List.map_singleton, List.map_singleton,
        hrows]
    · exact hsim.found v text ((hrecorded v).symm.trans hr)
    · rw [hsame, hsim.position, hrecorded]
    · rw [Synced, hsame, ofVenue_append]
      have hnil : ofVenue v ([⟨[], none⟩] : GoldLog) = [] := rfl
      rw [hnil, List.append_nil]
      exact hsynced v
    · rw [State.reach, State.reach, hrecorded]
  | run runTs stamps cut hvalid =>
    have hrun := stageTrades_simulates (fun v => (hsilver v).ids) (TRADES.take cut) hsim hvalid
    refine ⟨⟨hsilver, hvalid, _, hrun, fun v => synced_stageTrades runTs cut (hsynced v)⟩,
      fun v => ?_⟩
    rw [hreach, State.reach, ← hrun.position]
    exact position_stageTrades_le hsynced (TRADES.take cut) v

theorem inv_of_reached {st : State} (h : Reached st) : Inv st := by
  induction h with
  | refl => exact inv_start
  | tail _ hstep ih => exact (inv_step ih hstep).1

/-- **Gold reads silver once.**  In every state reached, what `gold.trades` has of a venue is what
    is not a replay among the rows up to the recorded position, in their order; a step takes no
    position back, and the commit for one venue leaves the positions of the others as they are. -/
theorem silver_read_once {st : State} (h : Reached st) :
    (∀ v, (st.gold.rows.filter fun r => r.exchange = v).map GoldTrade.timeless =
      projectSilver v 0 (DataTable.rows ((st.silver v).take (st.reach v)))) ∧
    (∀ v text, recorded st.gold v = some text → (st.silver v).place text = some (st.reach v)) ∧
    (∀ st', Step st st' → ∀ v, st.reach v ≤ st'.reach v) ∧
    ∀ runTs stamps v s, turn st.silver runTs stamps st.gold v = .commit s →
      DataTable.Valid (st.gold ++ [s]) →
        ∀ w ≠ v, recorded (st.gold ++ [s]) w = recorded st.gold w := by
  have hinv := inv_of_reached h
  obtain ⟨_, _, log, hsim, hsynced⟩ := hinv
  have hreach : ∀ v, st.reach v = (position log v).getD 0 := fun v => by
    rw [State.reach, ← hsim.position]
  refine ⟨fun v => ?_, fun v text hr => ?_, fun st' hstep => (inv_step (inv_of_reached h) hstep).2,
    fun runTs stamps v s hturn hvalid w hw => ?_⟩
  · have hrows := (hsynced v).2
    rw [ofVenue, rows_of_simulates hsim, ← hreach, logs, ← List.map_take, rows_logs] at hrows
    exact hrows
  · obtain ⟨n, hn⟩ := hsim.found v text hr
    rw [State.reach, hr, Option.bind_some, hn, Option.getD_some]
  · unfold turn at hturn
    split at hturn
    · cases hturn
    · rename_i stop _
      split at hturn
      · cases hturn
      · simp only at hturn
        split at hturn
        · cases hturn
        · cases hturn
          exact (recorded_commit hvalid rfl w).trans (if_neg hw)

/-! ## A run -/

def oneTrade : SilverTrade where
  symbol := "BTC/USD"
  canonicalSymbol := "BTC/USD"
  tradeId := "7"
  tradeSeq := 7
  price := 600000000000000
  qty := 10000000000
  side := "buy"
  exchangeTs := 1000000
  recvTsNs := 1000000000
  connId := "kraken-trades-1"
  connMsgSeq := 1
  srcTopic := "market.crypto.v3.raw.kraken"
  srcPartition := 0
  srcOffset := 0
  srcIndex := 0
  ingestTs := 2000000
  venueReplay := false
  seqGap := none
  missingBefore := none
  precisionLoss := false

/-- A trade of Kraken, and one of Coinbase. -/
def tradedSilver : Silver
  | .binance => []
  | .kraken => [⟨61, 10, Dict.empty, [oneTrade]⟩]
  | .coinbase => [⟨63, 12, Dict.empty, [{ oneTrade with
      symbol := "BTC-USD"
      connId := "coinbase-trades-1"
      srcTopic := "market.crypto.v3.raw.coinbase" }]⟩]

def tradeStamps (v : Exchange) : Nat × Int := if v = .kraken then (62, 20) else (64, 30)

/-- The run is killed before the turn of Coinbase. -/
def afterKilled : State :=
  ⟨tradedSilver, stageTrades tradedSilver 3000000 tradeStamps (TRADES.take 2) []⟩

/-- The run after it. -/
def afterRun : State :=
  ⟨tradedSilver, stageTrades tradedSilver 4000000 tradeStamps (TRADES.take 3) afterKilled.gold⟩

/-- The second commit, which is Coinbase's, carries Kraken's position. -/
theorem trade_read_once :
    (recorded afterKilled.gold .kraken = some "61" ∧ recorded afterKilled.gold .coinbase = none) ∧
    (recorded afterRun.gold .kraken = some "61" ∧ recorded afterRun.gold .coinbase = some "63") ∧
    afterRun.gold.rows.map GoldTrade.exchange = [.kraken, .coinbase] ∧
    ∀ v, (afterRun.gold.rows.filter fun r => r.exchange = v).map GoldTrade.timeless =
      projectSilver v 0 (DataTable.rows ((tradedSilver v).take (afterRun.reach v))) := by
  have hsilver : ∀ v, (tradedSilver v).Valid := by
    intro v
    cases v <;> decide
  have hkilled : afterKilled.gold.Valid ∧ afterRun.gold.Valid := by decide +kernel
  have hfirst : Step ⟨tradedSilver, []⟩ afterKilled := Step.run 3000000 tradeStamps 2 hkilled.1
  have hsecond : Step afterKilled afterRun := Step.run 4000000 tradeStamps 3 hkilled.2
  have hreached : Reached afterRun :=
    ((ReflTransGen.single (Step.grow tradedSilver (fun _ => List.nil_prefix) hsilver)).tail
      hfirst).tail hsecond
  exact ⟨by decide +kernel, by decide +kernel, by decide +kernel, (silver_read_once hreached).1⟩

end K2.Lake.Recorded
