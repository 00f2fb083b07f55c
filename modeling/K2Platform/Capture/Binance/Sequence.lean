import Mathlib.Data.List.Pairwise
import K2Platform.Capture.Binance.Adapter

/-!
# Does a Binance book ever go backwards?

`replace_book` forgets the id it held when a frame regresses, so whatever depth frame comes next
is accepted.

* `accepted_run` — the ids the adapter accepts for a symbol are a function of the ids of the
  symbol's depth frames alone.
* `never_backwards_iff` — the accepted ids increase, and the `seq` of successive snapshots never
  falls, exactly when every regressed frame is followed by one above the id that was held.
* `stale_restart_goes_backwards` — the ids 10, 9, 5.
-/

set_option autoImplicit false

namespace K2.Capture.Binance

/-! ## The property and its condition -/

/-- The ids of the depth frames accepted into the book of a symbol, in order. -/
def acceptedIds (symbol : String) (outs : Outputs) : List Int :=
  (Output.notes outs).filterMap fun n =>
    if n.native = symbol ∧ n.accepted = true then some n.id else none

/-- The accepted ids strictly increase, and the `seq` of successive snapshots never decreases. -/
structure NeverBackwards (serde : Serde) (instruments : Instruments) (connId symbol : String)
    (frames : List Frame) : Prop where
  increase : (acceptedIds symbol (connection serde instruments connId frames).2).Pairwise (· < ·)
  snapshots : ∀ n m, n ≤ m → ∀ t t' b b',
    (connection serde instruments connId (frames.take n)).1.snapshot symbol t = some b →
    (connection serde instruments connId (frames.take m)).1.snapshot symbol t' = some b' →
    b.seq ≤ b'.seq

/-- The `lastUpdateId` of a frame, if it is a depth frame of the symbol. -/
def depthId (serde : Serde) (instruments : Instruments) (symbol : String) (bytes : List UInt8) :
    Option Int :=
  (serde.envelope bytes).bind fun e =>
    if (Adapter.new instruments).route e.stream = ("depth20", some symbol) then
      (serde.depth e.data).map DepthData.lastUpdateId
    else none

def depthIds (serde : Serde) (instruments : Instruments) (symbol : String)
    (frames : List Frame) : List Int :=
  frames.flatMap fun f => (depthId serde instruments symbol f.1).toList

/-- Every id that does not advance is followed by one above the id it failed to advance from. -/
def NoStaleRestart : List Int → Prop
  | a :: b :: c :: rest =>
    if a < b then NoStaleRestart (b :: c :: rest) else a < c ∧ NoStaleRestart (c :: rest)
  | _ => True

/-! ## The ids alone -/

/-- `replace_book` on ids: the id held, and the ids accepted. -/
def acceptId (held : Option Int) (id : Int) : Option Int × List Int :=
  if held.any (id ≤ ·) then (none, []) else (some id, [id])

theorem acceptId_of_lt {a b : Int} (h : a < b) : acceptId (some a) b = (some b, [b]) := by
  simp [acceptId, Int.not_le.2 h]

theorem acceptId_of_not_lt {a b : Int} (h : ¬ a < b) : acceptId (some a) b = (none, []) := by
  simp [acceptId, Int.not_lt.1 h]

/-- From a held id on, the accepted ids increase exactly when no restart is stale. -/
theorem pairwise_accepted_iff :
    ∀ (a : Int) (ids : List Int),
      (a :: (Mealy.run acceptId (some a) ids).2).Pairwise (· < ·) ↔ NoStaleRestart (a :: ids)
  | a, [] => by simp [NoStaleRestart]
  | a, [b] => by
    by_cases hlt : a < b
    · simp [NoStaleRestart, acceptId_of_lt hlt, hlt]
    · simp [NoStaleRestart, acceptId_of_not_lt hlt]
  | a, b :: c :: rest => by
    rw [NoStaleRestart, Mealy.run_cons]
    by_cases hlt : a < b
    · rw [if_pos hlt, acceptId_of_lt hlt, List.singleton_append, List.pairwise_cons_cons_iff_of_trans]
      rw [pairwise_accepted_iff b (c :: rest)]
      exact and_iff_right hlt
    · -- the restart: nothing is held, so `c` is accepted whatever it is
      have hfresh : acceptId none c = (some c, [c]) := rfl
      rw [if_neg hlt, acceptId_of_not_lt hlt, List.nil_append, Mealy.run_cons, hfresh,
        List.singleton_append, List.pairwise_cons_cons_iff_of_trans]
      rw [pairwise_accepted_iff c rest]
termination_by _ ids => ids.length

theorem pairwise_run_iff (ids : List Int) :
    (Mealy.run acceptId none ids).2.Pairwise (· < ·) ↔ NoStaleRestart ids := by
  cases ids with
  | nil => simp [NoStaleRestart]
  | cons a ids =>
    have hfresh : acceptId none a = (some a, [a]) := rfl
    rw [Mealy.run_cons, hfresh, List.singleton_append]
    exact pairwise_accepted_iff a ids

/-- The id held is the last one accepted. -/
theorem held_is_last (ids : List Int) {x : Int} (h : (Mealy.run acceptId none ids).1 = some x) :
    (Mealy.run acceptId none ids).2.getLast? = some x := by
  have hlast := Mealy.run_history acceptId
    (J := fun h held => ∀ x, held = some x → h.getLast? = some x)
    (fun h held id _ x hx => by
      unfold acceptId at hx ⊢
      by_cases hc : held.any (id ≤ ·)
      · rw [if_pos hc] at hx
        cases hx
      · rw [if_neg hc] at hx ⊢
        cases hx
        simp) ids [] none (fun _ h => by cases h)
  exact hlast x h

/-! ## The adapter on ids -/

section Adapter

variable {serde : Serde} {instruments : Instruments} {symbol : String}

theorem acceptedIds_append (h outs : Outputs) :
    acceptedIds symbol (h ++ outs) = acceptedIds symbol h ++ acceptedIds symbol outs := by
  simp [acceptedIds]

/-- What ties the adapter to the id it holds for the symbol. -/
structure Holds (instruments : Instruments) (symbol : String) (a : Adapter) (held : Option Int) :
    Prop where
  byLower : a.byLower = (Adapter.new instruments).byLower
  held : a.held symbol = held

theorem held_replaceBook_of_ne {a : Adapter} {native : String} (hne : native ≠ symbol)
    (d : DepthData) (recvTsNs n : Int) :
    (a.replaceBook native d recvTsNs n).1.held symbol = a.held symbol ∧
      acceptedIds symbol (a.replaceBook native d recvTsNs n).2 = [] := by
  unfold Adapter.replaceBook
  simp only
  split
  · refine ⟨?_, by simp [acceptedIds, Output.notes, Output.note?, hne]⟩
    rw [Adapter.held, SortedMap.get?_erase_of_ne _ (Ne.symm hne), Adapter.held]
  · refine ⟨?_, by simp [acceptedIds, Output.notes, Output.note?, hne]⟩
    rw [Adapter.held, SortedMap.get?_insert_of_ne _ _ (Ne.symm hne), Adapter.held]

theorem held_replaceBook_self (symbol : String) (a : Adapter) (d : DepthData) (recvTsNs n : Int) :
    (a.replaceBook symbol d recvTsNs n).1.held symbol =
        (acceptId (a.held symbol) d.lastUpdateId).1 ∧
      acceptedIds symbol (a.replaceBook symbol d recvTsNs n).2 =
        (acceptId (a.held symbol) d.lastUpdateId).2 := by
  unfold Adapter.replaceBook acceptId
  simp only
  split
  · refine ⟨?_, by simp [acceptedIds, Output.notes, Output.note?]⟩
    rw [Adapter.held, SortedMap.get?_erase_self]
    rfl
  · refine ⟨?_, by simp [acceptedIds, Output.notes, Output.note?]⟩
    rw [Adapter.held, SortedMap.get?_insert_self]
    rfl

theorem byLower_replaceBook (a : Adapter) (native : String) (d : DepthData) (recvTsNs n : Int) :
    (a.replaceBook native d recvTsNs n).1.byLower = a.byLower := by
  unfold Adapter.replaceBook
  simp only
  split <;> rfl

theorem route_congr {a b : Adapter} (h : a.byLower = b.byLower) (stream : String) :
    a.route stream = b.route stream := by
  unfold Adapter.route
  rw [h]

/-- One frame moves the held id as the frame's own id, if it has one for the symbol, does. -/
theorem Holds.step {a : Adapter} {held : Option Int} (h : Holds instruments symbol a held)
    (bytes : List UInt8) (recvTsNs : Int) :
    let r := a.step serde bytes recvTsNs
    let q := Mealy.run acceptId held (depthId serde instruments symbol bytes).toList
    Holds instruments symbol r.1 q.1 ∧ acceptedIds symbol r.2 = q.2 := by
  have hraw : ∀ raw outs, acceptedIds symbol (.record (.raw raw) :: outs) = acceptedIds symbol outs :=
    fun _ _ => rfl
  have hstay : Holds instruments symbol { a with connMsgSeq := a.connMsgSeq + 1 } held :=
    ⟨h.byLower, h.held⟩
  unfold Adapter.step Adapter.routed depthId
  simp only [hraw]
  cases henv : serde.envelope bytes with
  | none => exact ⟨hstay, rfl⟩
  | some e =>
    have hroute : ({ a with connMsgSeq := a.connMsgSeq + 1 } : Adapter).route e.stream =
        (Adapter.new instruments).route e.stream := route_congr h.byLower _
    simp only [hroute, Option.bind_some]
    obtain ⟨label, native⟩ := (Adapter.new instruments).route e.stream
    cases native with
    | none =>
      rw [if_neg (by simp)]
      exact ⟨hstay, rfl⟩
    | some native =>
      simp only [Adapter.handleData]
      by_cases htrade : label = "trade"
      · have hne : ¬ (label, some native) = ("depth20", some symbol) := by
          rw [htrade]
          simp
        rw [if_pos htrade, if_neg hne]
        refine ⟨hstay, ?_⟩
        simp [acceptedIds, Output.notes, List.filterMap_map, Function.comp_def, Output.note?]
      · rw [if_neg htrade]
        by_cases hdepth : label = "depth20"
        · rw [if_pos hdepth, hdepth]
          cases hd : serde.depth e.data with
          | none =>
            have hnone : (if ("depth20", some native) = ("depth20", some symbol) then
                (none : Option DepthData).map DepthData.lastUpdateId else none) = none := by
              split <;> rfl
            rw [hnone]
            exact ⟨hstay, rfl⟩
          | some d =>
            by_cases heq : native = symbol
            · subst heq
              obtain ⟨hheld, hids⟩ := held_replaceBook_self native
                { a with connMsgSeq := a.connMsgSeq + 1 } d recvTsNs (a.connMsgSeq + 1)
              rw [if_pos rfl]
              rw [hstay.held] at hheld hids
              simp only [Option.map_some, Option.toList_some, Mealy.run_singleton]
              exact ⟨⟨(byLower_replaceBook _ _ _ _ _).trans h.byLower, hheld⟩, hids⟩
            · obtain ⟨hheld, hids⟩ := held_replaceBook_of_ne heq
                (a := { a with connMsgSeq := a.connMsgSeq + 1 }) d recvTsNs (a.connMsgSeq + 1)
              rw [if_neg (by simpa using heq)]
              exact ⟨⟨(byLower_replaceBook _ _ _ _ _).trans h.byLower, hheld.trans hstay.held⟩, hids⟩
        · rw [if_neg hdepth, if_neg (by simpa using fun h => absurd h hdepth)]
          exact ⟨hstay, rfl⟩

/-- **What the adapter accepts depends on the ids alone.** -/
theorem accepted_run (connId : String) (frames : List Frame) :
    let r := connection serde instruments connId frames
    let q := Mealy.run acceptId none (depthIds serde instruments symbol frames)
    Holds instruments symbol r.1 q.1 ∧ acceptedIds symbol r.2 = q.2 :=
  Mealy.run_simulation _ acceptId (fun f : Frame => (depthId serde instruments symbol f.1).toList)
    (p := acceptedIds symbol) (q := id) acceptedIds_append (fun _ _ => rfl) rfl frames
    (fun _ _ f _ h => h.step f.1 f.2) _ none ⟨rfl, rfl⟩

theorem seq_of_snapshot {a : Adapter} {t : Int} {b : BookSnapshotRecord}
    (h : a.snapshot symbol t = some b) : a.held symbol = some b.seq := by
  unfold Adapter.snapshot at h
  unfold Adapter.held
  split at h
  · cases h
  · rename_i state hget
    rw [hget]
    split at h
    · cases h
    · split at h
      · cases h
      · cases h
        rfl

/-- **A book never goes backwards exactly when no restart is stale.** -/
theorem never_backwards_iff {connId : String} {frames : List Frame} :
    NeverBackwards serde instruments connId symbol frames ↔
      NoStaleRestart (depthIds serde instruments symbol frames) := by
  have hids : (acceptedIds symbol (connection serde instruments connId frames).2).Pairwise (· < ·) ↔
      NoStaleRestart (depthIds serde instruments symbol frames) := by
    rw [(accepted_run connId frames).2]
    exact pairwise_run_iff _
  constructor
  · exact fun h => hids.1 h.increase
  · intro hcond
    refine ⟨hids.2 hcond, fun n m hnm t t' b b' hb hb' => ?_⟩
    -- both snapshots show the last id accepted so far
    have hlast : ∀ k t b, (connection serde instruments connId (frames.take k)).1.snapshot symbol t =
        some b → (Mealy.run acceptId none
          (depthIds serde instruments symbol (frames.take k))).2.getLast? = some b.seq := by
      intro k t b hb
      refine held_is_last _ ?_
      rw [← (accepted_run connId (frames.take k)).1.held]
      exact seq_of_snapshot hb
    have hn := hlast n t b hb
    have hm := hlast m t' b' hb'
    have hpair := (pairwise_run_iff _).2 hcond
    have hsplit : ∀ k, depthIds serde instruments symbol frames =
        depthIds serde instruments symbol (frames.take k) ++
          depthIds serde instruments symbol (frames.drop k) := by
      intro k
      unfold depthIds
      rw [← List.flatMap_append, List.take_append_drop]
    have htake : depthIds serde instruments symbol (frames.take m) =
        depthIds serde instruments symbol (frames.take n) ++
          depthIds serde instruments symbol ((frames.take m).drop n) := by
      unfold depthIds
      rw [← List.flatMap_append]
      congr 1
      conv_lhs => rw [← List.take_append_drop n (frames.take m), List.take_take, Nat.min_eq_left hnm]
    rw [hsplit m, Mealy.run_append] at hpair
    have hpre := (List.pairwise_append.1 hpair).1
    rw [htake, Mealy.run_append] at hpre hm
    rw [List.getLast?_append] at hm
    cases hrest : (Mealy.run acceptId (Mealy.run acceptId none
        (depthIds serde instruments symbol (frames.take n))).1
        (depthIds serde instruments symbol ((frames.take m).drop n))).2.getLast? with
    | none =>
      rw [hrest, Option.none_or, hn] at hm
      exact Int.le_of_eq (Option.some.inj hm)
    | some y =>
      rw [hrest, Option.some_or] at hm
      rw [← Option.some.inj hm]
      exact Int.le_of_lt ((List.pairwise_append.1 hpre).2.2 _ (List.mem_of_getLast? hn) _
        (List.mem_of_getLast? hrest))

end Adapter

/-! ## A short connection -/

def btcUsdt : Instruments := ⟨[⟨"BTCUSDT", "BTC/USDT", none⟩], by decide⟩

/-- A one-level book with the given id. -/
def depthOf (id : Int) : DepthData := ⟨id, [("100.00", "1.0")], [("101.00", "1.0")]⟩

def depthJson (id : Int) : String :=
  "\x7b\"lastUpdateId\":" ++ toString id ++
    ",\"bids\":[[\"100.00\",\"1.0\"]],\"asks\":[[\"101.00\",\"1.0\"]]\x7d"

def depthFrame (id : Int) : Frame :=
  (("\x7b\"stream\":\"btcusdt@depth20@100ms\",\"data\":" ++ depthJson id ++
    "\x7d").toByteArray.data.toList, 1)

/-- `serde_json` on the depth frames with the given ids, and on no other text. -/
def Serde.ofIds (ids : List Int) : Serde where
  envelope bytes := (ids.find? fun id => (depthFrame id).1 = bytes).map fun id =>
    ⟨"btcusdt@depth20@100ms", depthJson id⟩
  trade _ := none
  depth data := (ids.find? fun id => depthJson id = data).map depthOf

/-- After the ids 10 and 9 the book is dropped, and 5 is accepted. -/
theorem stale_restart_goes_backwards :
    ¬ ∀ (serde : Serde) (instruments : Instruments) (connId symbol : String) (frames : List Frame),
      NeverBackwards serde instruments connId symbol frames := by
  intro h
  have hback := (h (Serde.ofIds [10, 9, 5]) btcUsdt "c1" "BTCUSDT" ([10, 9, 5].map depthFrame)).increase
  revert hback
  decide +kernel

end K2.Capture.Binance
