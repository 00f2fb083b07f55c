import K2Platform.Capture.Kraken.Handed

/-!
# What a connection hands over

The frames that come before the precision of a symbol wait for it, each in as many copies as it
has entries of the symbol, and the queue keeps the newest copies.  The frame that brings the
precision replays them, and every entry after it is handed over as it comes.

* `handed_connection` — the entries handed to `apply_book`, read off the frames.
* `handed_le_carried_iff` — an entry is handed over no more often than it is carried exactly when
  its frame does not wait in several copies.
-/

set_option autoImplicit false

namespace K2.Capture.Kraken

/-! ## The frames that are read for a symbol -/

section Definitions

variable (serde : Serde) (symbol : String) (frames : List Frame)

/-- The frame brings no precision for the symbol. -/
def early (pf : PendingFrame) : Bool := (framePrecision serde symbol pf.bytes).isNone

/-- The copies in the queue when the precision comes. -/
def waiting : List PendingFrame :=
  kept (parkedFrames serde symbol ((stampFrames 0 frames).takeWhile (early serde symbol)))

/-- The frames after the one that brings it. -/
def later : List PendingFrame := ((stampFrames 0 frames).dropWhile (early serde symbol)).tail

/-- Every frame whose entries are handed over, as often as they are. -/
def replayed : List PendingFrame :=
  if (stampFrames 0 frames).all (early serde symbol) then []
  else waiting serde symbol frames ++ later serde symbol frames

end Definitions

/-- How often an entry was handed to `apply_book`. -/
def handed (outs : Outputs) (e : Stamped) : Nat := (appliedEntries e.data.symbol outs).count e

/-- How often the frames carry it. -/
def carried (serde : Serde) (frames : List Frame) (e : Stamped) : Nat :=
  (receivedEntries serde e.data.symbol frames).count e

section Handed

variable {crates : Crates} {serde : Serde} {symbol : String} {a : Adapter} {frames : List Frame}

theorem appliedEntries_eq (symbol : String) (outs : Outputs) :
    appliedEntries symbol outs = (callsFor symbol outs).map Call.stamped := by
  rw [appliedEntries, callsFor, List.map_filterMap]
  refine List.filterMap_congr fun o _ => ?_
  unfold stamped? callFor?
  split
  · split <;> simp [*, Call.stamped]
  · simp [*]

theorem handed_eq (outs : Outputs) (e : Stamped) :
    handed outs e = (callsFor e.data.symbol outs).countP fun c => c.stamped = e := by
  rw [handed, appliedEntries_eq, List.count, List.countP_map]
  refine List.countP_congr fun c _ => ?_
  simp

theorem appliedEntries_append (symbol : String) (h outs : Outputs) :
    appliedEntries symbol (h ++ outs) = appliedEntries symbol h ++ appliedEntries symbol outs :=
  List.filterMap_append

/-! ### Once the precision is known -/

/-- The symbol is registered, its precision is known and nothing waits. -/
structure Ready (symbol : String) (a : Adapter) : Prop where
  registered : (a.instruments.canonical symbol).isSome
  known : (a.precision.get? symbol).isSome
  unparked : a.pending.get? symbol = none

theorem Ready.direct (h : Ready symbol a) : Direct symbol a a :=
  ⟨SameAt.refl _ _, h.known, h.unparked⟩

variable (serde) in
theorem appliedEntries_stamped (hreg : (a.instruments.canonical symbol).isSome)
    (hknown : (a.precision.get? symbol).isSome) (pfs : List PendingFrame) :
    appliedEntries symbol
        (applyEntries crates a (pfs.flatMap (stampedEntries serde symbol))).2 =
      pfs.flatMap (stampedEntries serde symbol) := by
  refine appliedEntries_applyEntries _ a (fun e he => ?_) hreg hknown
  obtain ⟨pf, _, he⟩ := List.mem_flatMap.1 he
  exact symbol_of_mem_stampedEntries he

/-- A frame hands over its entries. -/
theorem Ready.step (h : Ready symbol a) (bytes : List UInt8) (recvTsNs : Int) :
    let r := a.step crates serde bytes recvTsNs
    Ready symbol r.1 ∧
      appliedEntries symbol r.2 = stampedEntries serde symbol ⟨recvTsNs, a.connMsgSeq + 1, bytes⟩ := by
  cases hprec : framePrecision serde symbol bytes with
  | none =>
    obtain ⟨hdirect, hout⟩ : Direct symbol (a.step crates serde bytes recvTsNs).1 _ ∧ _ :=
      h.direct.step recvTsNs hprec
    refine ⟨⟨?_, hdirect.known, hdirect.unparked⟩, ?_⟩
    · rw [hdirect.same.instruments, applyEntries_fst]
      exact h.registered
    · have happlied : appliedEntries symbol (applyEntries crates a (List.flatMap _ _)).2 = _ :=
        appliedEntries_stamped serde h.registered h.known [⟨recvTsNs, a.connMsgSeq + 1, bytes⟩]
      rw [List.flatMap_singleton] at happlied
      rw [← appliedEntries_about, hout, happlied]
  | some p =>
    -- another precision: there is no queue to drain
    have hbody : ∃ pairs, (parse serde bytes).body = .instrument pairs := by
      unfold framePrecision at hprec
      cases hbody : (parse serde bytes).body with
      | instrument pairs => exact ⟨pairs, rfl⟩
      | book ds => rw [hbody] at hprec; cases hprec
      | trade trades => rw [hbody] at hprec; cases hprec
      | other => rw [hbody] at hprec; cases hprec
    obtain ⟨pairs, hbody⟩ := hbody
    have hnone : stampedEntries serde symbol ⟨recvTsNs, a.connMsgSeq + 1, bytes⟩ = [] := by
      rw [stampedEntries, parkedEntries_of_not_book fun ds hds => by rw [hbody] at hds; cases hds]
      rfl
    have hset := Adapter.foldl_setPrecision_eq pairs { a with connMsgSeq := a.connMsgSeq + 1 }
    have hget := Adapter.get?_precision_foldl_setPrecision symbol pairs
      { a with connMsgSeq := a.connMsgSeq + 1 }
    rw [hnone]
    unfold Adapter.step
    simp only [hbody, Adapter.handleBody]
    generalize pairs.foldl Adapter.setPrecision _ = c at hset hget
    have hready : Ready symbol c := by
      refine ⟨?_, ?_, ?_⟩
      · rw [hset]
        exact h.registered
      · rw [hget, if_pos h.registered, Option.isSome_or]
        exact Bool.or_eq_true_iff.2 (Or.inr h.known)
      · rw [hset]
        exact h.unparked
    obtain ⟨hdirect, hsilent⟩ : Direct symbol (c.drainPending crates serde).1 c ∧ _ :=
      hready.direct.drainPending
    refine ⟨⟨?_, hdirect.known, hdirect.unparked⟩, ?_⟩
    · rw [hdirect.same.instruments]
      exact hready.registered
    · rw [← appliedEntries_about]
      show appliedEntries symbol (about symbol (c.drainPending crates serde).2) = []
      rw [hsilent]
      rfl

theorem Ready.run : ∀ (frames : List Frame) {a : Adapter}, Ready symbol a →
    appliedEntries symbol
        (Mealy.run (fun a (f : Frame) => a.step crates serde f.1 f.2) a frames).2 =
      (stampFrames a.connMsgSeq frames).flatMap (stampedEntries serde symbol)
  | [], _, _ => rfl
  | f :: fs, a, h => by
    obtain ⟨hready, hout⟩ : Ready symbol (a.step crates serde f.1 f.2).1 ∧ _ := h.step f.1 f.2
    have hrest := hready.run fs
    rw [step_connMsgSeq] at hrest
    rw [Mealy.run_cons, appliedEntries_append, hout, hrest, stampFrames, List.flatMap_cons]

/-! ### A whole connection -/

theorem stampFrames_append :
    ∀ (frames : List Frame) (n : Int) (rest : List Frame), stampFrames n (frames ++ rest) =
      stampFrames n frames ++ stampFrames (n + frames.length) rest
  | [], n, rest => by simp [stampFrames]
  | f :: fs, n, rest => by
    have hshift : n + 1 + (fs.length : Int) = n + ((f :: fs).length : Int) := by
      rw [List.length_cons]
      omega
    rw [List.cons_append, stampFrames, stampFrames_append fs (n + 1) rest, hshift]
    rfl

variable (crates serde) in
theorem run_connMsgSeq : ∀ (frames : List Frame) (a : Adapter),
    (Mealy.run (fun a (f : Frame) => a.step crates serde f.1 f.2) a frames).1.connMsgSeq =
      a.connMsgSeq + frames.length
  | [], a => by simp
  | f :: fs, a => by
    rw [Mealy.run_cons, run_connMsgSeq fs, step_connMsgSeq, List.length_cons]
    omega

/-- The frame that brings the precision, if one does. -/
theorem split_precision (serde : Serde) (symbol : String) (frames : List Frame) :
    (∀ f ∈ frames, framePrecision serde symbol f.1 = none) ∨
      ∃ pre f post p, frames = pre ++ f :: post ∧ framePrecision serde symbol f.1 = some p ∧
        ∀ g ∈ pre, framePrecision serde symbol g.1 = none := by
  cases hfind : frames.find? fun f => (framePrecision serde symbol f.1).isSome with
  | none =>
    refine Or.inl fun f hf => ?_
    have hnot := List.find?_eq_none.1 hfind f hf
    rwa [Bool.not_eq_true, Option.isSome_eq_false_iff, Option.isNone_iff_eq_none] at hnot
  | some f =>
    obtain ⟨hsome, pre, post, rfl, hpre⟩ := List.find?_eq_some_iff_append.1 hfind
    obtain ⟨p, hp⟩ := Option.isSome_iff_exists.1 hsome
    refine Or.inr ⟨pre, f, post, p, rfl, hp, fun g hg => ?_⟩
    simpa using hpre g hg

theorem early_stampFrames {n : Int} (h : ∀ f ∈ frames, framePrecision serde symbol f.1 = none) :
    ∀ pf ∈ stampFrames n frames, early serde symbol pf = true := by
  intro pf hpf
  obtain ⟨f, hf, hbytes⟩ := mem_stampFrames frames n hpf
  rw [early, hbytes, h f hf]
  rfl

/-- Where the precision comes: what was parked, and the frames after it. -/
theorem replayed_split {pre post : List Frame} {f : Frame} {p : Nat × Nat}
    (hp : framePrecision serde symbol f.1 = some p)
    (hearly : ∀ g ∈ pre, framePrecision serde symbol g.1 = none) :
    replayed serde symbol (pre ++ f :: post) =
      kept (parkedFrames serde symbol (stampFrames 0 pre)) ++
        stampFrames (0 + pre.length + 1) post := by
  have hstamps : stampFrames 0 (pre ++ f :: post) = stampFrames 0 pre ++
      ⟨f.2, 0 + pre.length + 1, f.1⟩ :: stampFrames (0 + pre.length + 1) post := by
    rw [stampFrames_append]
    rfl
  have hlate : ¬ early serde symbol ⟨f.2, 0 + pre.length + 1, f.1⟩ = true := by
    rw [early, hp]
    exact Bool.false_ne_true
  have hwaiting : waiting serde symbol (pre ++ f :: post) =
      kept (parkedFrames serde symbol (stampFrames 0 pre)) := by
    rw [waiting, hstamps, List.takeWhile_append_of_pos (early_stampFrames hearly),
      List.takeWhile_cons_of_neg hlate, List.append_nil]
  have hlater : later serde symbol (pre ++ f :: post) = stampFrames (0 + pre.length + 1) post := by
    rw [later, hstamps, List.dropWhile_append_of_pos (early_stampFrames hearly),
      List.dropWhile_cons_of_neg hlate, List.tail_cons]
  have hbrought : ¬ (stampFrames 0 (pre ++ f :: post)).all (early serde symbol) = true := by
    rw [hstamps, List.all_eq_true]
    exact fun hall => hlate (hall _ (List.mem_append_right _ List.mem_cons_self))
  rw [replayed, if_neg hbrought, hwaiting, hlater]

/-- The frame that brings the precision hands over what was parked. -/
theorem drained_step {p : Nat × Nat} (hreg : (a.instruments.canonical symbol).isSome)
    {bytes : List UInt8} (hp : framePrecision serde symbol bytes = some p) (recvTsNs : Int) :
    let r := a.step crates serde bytes recvTsNs
    appliedEntries symbol r.2 = (queue symbol a).flatMap (stampedEntries serde symbol) ∧
      (r.1.instruments.canonical symbol).isSome ∧ (r.1.precision.get? symbol).isSome := by
  obtain ⟨hdrain, hout⟩ : SameAt symbol (a.step crates serde bytes recvTsNs).1 _ ∧ _ :=
    drain_step hreg (SameAt.refl symbol _) hp recvTsNs
  refine ⟨?_, ?_, ?_⟩
  · rw [← appliedEntries_about, hout]
    refine appliedEntries_stamped serde ?_ ?_ (queue symbol a)
    · exact hreg
    · rw [SortedMap.get?_insert_self]
      rfl
  · rw [hdrain.instruments, applyEntries_fst]
    exact hreg
  · rw [hdrain.precision, applyEntries_fst, SortedMap.get?_insert_self]
    rfl

/-- **What a connection hands over**, of a symbol that is registered. -/
theorem handed_connection (crates : Crates) (serde : Serde) (connId : String) (frames : List Frame)
    (hreg : (a.instruments.canonical symbol).isSome) :
    appliedEntries symbol (a.onConnection crates serde connId frames).2 =
      (replayed serde symbol frames).flatMap (stampedEntries serde symbol) := by
  unfold Adapter.onConnection
  set start := a.beginConnection connId with hstart
  have hempty : queue symbol start = [] := rfl
  have hzero : start.connMsgSeq = 0 := rfl
  rcases split_precision serde symbol frames with hearly | ⟨pre, f, post, p, rfl, hp, hearly⟩
  · -- everything waits to the end
    obtain ⟨_, hsilent, _⟩ : SameAt symbol start
        (Mealy.run (fun a (f : Frame) => a.step crates serde f.1 f.2) start frames).1 ∧ _ ∧ _ :=
      park_run frames start rfl hearly (Nat.zero_le _)
    rw [← appliedEntries_about, hsilent, replayed,
      if_pos (List.all_eq_true.2 (early_stampFrames hearly))]
    rfl
  · obtain ⟨hsame, hsilent, hqueue⟩ : SameAt symbol start
        (Mealy.run (fun a (f : Frame) => a.step crates serde f.1 f.2) start pre).1 ∧ _ ∧ _ :=
      park_run pre start rfl hearly (Nat.zero_le _)
    have hseq := run_connMsgSeq crates serde pre start
    have htold := (told_connection crates serde symbol a connId (pre ++ [f])).queued.known
    rw [Adapter.onConnection, ← hstart, Mealy.run_concat] at htold
    rw [Mealy.run_append, Mealy.run_cons]
    generalize Mealy.run (fun a (f : Frame) => a.step crates serde f.1 f.2) start pre = r₁
      at hsame hsilent hqueue hseq htold
    obtain ⟨hdrained, hregistered, hknown⟩ :
        appliedEntries symbol (r₁.1.step crates serde f.1 f.2).2 = _ ∧ _ ∧ _ :=
      drained_step (hsame.instruments ▸ hreg) hp f.2
    have hafter : Ready symbol (r₁.1.step crates serde f.1 f.2).1 :=
      ⟨hregistered, hknown, htold hknown⟩
    have hpost : appliedEntries symbol (Mealy.run (fun a (f : Frame) => a.step crates serde f.1 f.2)
        (r₁.1.step crates serde f.1 f.2).1 post).2 = _ := hafter.run post
    rw [hempty, List.nil_append, hzero] at hqueue
    rw [step_connMsgSeq, hseq, hzero] at hpost
    rw [appliedEntries_append, appliedEntries_append, ← appliedEntries_about symbol r₁.2, hsilent,
      hdrained, hpost, hqueue, replayed_split hp hearly, List.flatMap_append]
    exact List.nil_append _

/-! ### Registered symbols -/

theorem applyBook_of_unregistered {f : BookData} (h : a.instruments.canonical f.symbol = none)
    (frameType : String) (recvTsNs n : Int) :
    a.applyBook crates f frameType recvTsNs n = (a, []) := by
  simp [Adapter.applyBook, h]

/-- Every entry so far is of a registered symbol. -/
structure RegisteredUpTo (instruments : Instruments) (h : Outputs) (a : Adapter) : Prop where
  instruments_eq : a.instruments = instruments
  registered : ∀ c ∈ calls h, (instruments.canonical c.data.symbol).isSome

theorem registered_stable (crates : Crates) (instruments : Instruments) :
    Adapter.Stable crates (RegisteredUpTo instruments) where
  quiet := by
    intro h outs a a' hinst _ hquiet hj
    refine ⟨hinst.trans hj.instruments_eq, fun c hc => ?_⟩
    rw [calls_append] at hc
    rcases List.mem_append.1 hc with hc | hc
    · exact hj.registered c hc
    · exact absurd rfl ((hquiet _ (mem_calls.1 hc)).1 c)
  apply := by
    intro h a f frameType recvTsNs n hj
    cases hreg : a.instruments.canonical f.symbol with
    | none =>
      rw [applyBook_of_unregistered hreg, List.append_nil]
      exact hj
    | some canonical =>
      refine ⟨?_, fun c hc => ?_⟩
      · rw [Adapter.applyBook_fst]
        exact hj.instruments_eq
      · rw [calls_append] at hc
        rcases List.mem_append.1 hc with hc | hc
        · exact hj.registered c hc
        · rw [(mem_calls_applyBook hc).1, ← hj.instruments_eq, hreg]
          rfl

theorem registered_of_call {connId : String} {c : Call}
    (hc : c ∈ calls (a.onConnection crates serde connId frames).2) :
    (a.instruments.canonical c.data.symbol).isSome := by
  have hrun := Mealy.run_history (fun (a : Adapter) (f : Frame) => a.step crates serde f.1 f.2)
    (J := RegisteredUpTo a.instruments)
    (fun h a' f hj => (registered_stable crates a.instruments).step serde f.1 f.2 hj) frames []
    (a.beginConnection connId) ⟨rfl, fun c hc => by cases hc⟩
  exact hrun.registered c hc

/-! ### Copies -/

/-- Of the frames with a number, all of which are one frame. -/
theorem count_flatMap_stamped (e : Stamped) {pf : PendingFrame} {pfs : List PendingFrame}
    (hone : ∀ q ∈ pfs, q.connMsgSeq = e.connMsgSeq → q = pf) :
    (pfs.flatMap (stampedEntries serde symbol)).count e =
      pfs.countP (·.connMsgSeq = e.connMsgSeq) * (stampedEntries serde symbol pf).count e := by
  induction pfs with
  | nil => simp
  | cons q pfs ih =>
    obtain ⟨hq, hqs⟩ := List.forall_mem_cons.1 hone
    rw [List.flatMap_cons, List.count_append, ih hqs]
    by_cases hseq : q.connMsgSeq = e.connMsgSeq
    · rw [List.countP_cons, if_pos (decide_eq_true hseq), hq hseq, Nat.succ_mul, Nat.add_comm]
    · have hnone : (stampedEntries serde symbol q).count e = 0 :=
        List.count_eq_zero.2 fun he => hseq (connMsgSeq_of_mem_stampedEntries he).symm
      rw [List.countP_cons, if_neg (by simpa using hseq), hnone, Nat.zero_add, Nat.add_zero]

theorem countP_stampFrames_le_one :
    ∀ (frames : List Frame) (n m : Int), (stampFrames n frames).countP (·.connMsgSeq = m) ≤ 1
  | [], _, _ => Nat.zero_le 1
  | f :: fs, n, m => by
    rw [stampFrames, List.countP_cons]
    by_cases hm : n + 1 = m
    · have hrest : (stampFrames (n + 1) fs).countP (·.connMsgSeq = m) = 0 := by
        refine List.countP_eq_zero.2 fun pf hpf hseq => ?_
        have hlt := lt_of_mem_stampFrames fs (n + 1) pf hpf
        have heq := of_decide_eq_true hseq
        omega
      rw [hrest]
      split <;> omega
    · have hrest := countP_stampFrames_le_one fs (n + 1) m
      simpa [hm] using hrest

/-- What waits came before the precision. -/
theorem mem_of_waiting {pf : PendingFrame} (h : pf ∈ waiting serde symbol frames) :
    pf ∈ (stampFrames 0 frames).takeWhile (early serde symbol) := by
  obtain ⟨q, hq, hpf⟩ := List.mem_flatMap.1 (List.mem_of_mem_drop h)
  rwa [List.eq_of_mem_replicate hpf]

theorem mem_of_replayed {pf : PendingFrame} (h : pf ∈ replayed serde symbol frames) :
    pf ∈ stampFrames 0 frames := by
  unfold replayed at h
  split at h
  · cases h
  · rcases List.mem_append.1 h with h | h
    · exact (List.takeWhile_sublist _).subset (mem_of_waiting h)
    · exact (List.dropWhile_sublist _).subset (List.mem_of_mem_tail h)

/-- What waits is over when the precision comes. -/
theorem countP_early_add_later (serde : Serde) (symbol : String) (frames : List Frame) (n : Int) :
    ((stampFrames 0 frames).takeWhile (early serde symbol)).countP (·.connMsgSeq = n) +
      (later serde symbol frames).countP (·.connMsgSeq = n) ≤ 1 := by
  have hsplit := List.takeWhile_append_dropWhile (p := early serde symbol) (l := stampFrames 0 frames)
  have hle := countP_stampFrames_le_one frames 0 n
  rw [← hsplit, List.countP_append] at hle
  have htail := (List.tail_sublist ((stampFrames 0 frames).dropWhile (early serde symbol))).countP_le
    (p := fun pf => pf.connMsgSeq = n)
  show _ + ((stampFrames 0 frames).dropWhile (early serde symbol)).tail.countP _ ≤ 1
  omega

/-- **When an entry is handed over more often than it is carried.** -/
theorem handed_le_carried_iff (connId : String) (e : Stamped)
    (hreg : (a.instruments.canonical e.data.symbol).isSome)
    (hpos : 0 < handed (a.onConnection crates serde connId frames).2 e) :
    handed (a.onConnection crates serde connId frames).2 e ≤ carried serde frames e ↔
      (waiting serde e.data.symbol frames).countP (·.connMsgSeq = e.connMsgSeq) ≤ 1 := by
  rw [handed, handed_connection crates serde connId frames hreg] at hpos ⊢
  rw [carried, receivedEntries]
  obtain ⟨pf, hpf, he⟩ := List.mem_flatMap.1 (List.count_pos_iff.1 hpos)
  have hseq : pf.connMsgSeq = e.connMsgSeq := (connMsgSeq_of_mem_stampedEntries he).symm
  have hmem := mem_of_replayed hpf
  have hone : ∀ q ∈ stampFrames 0 frames, q.connMsgSeq = e.connMsgSeq → q = pf := fun q hq hn =>
    stampFrames_inj frames 0 q hq pf hmem (hn.trans hseq.symm)
  have hentry : 0 < (stampedEntries serde e.data.symbol pf).count e := List.count_pos_iff.2 he
  have hcarried : (stampFrames 0 frames).countP (·.connMsgSeq = e.connMsgSeq) = 1 := by
    have hle := countP_stampFrames_le_one frames 0 e.connMsgSeq
    have hge : 0 < (stampFrames 0 frames).countP (·.connMsgSeq = e.connMsgSeq) :=
      List.countP_pos_iff.2 ⟨pf, hmem, decide_eq_true hseq⟩
    omega
  rw [count_flatMap_stamped e fun q hq => hone q (mem_of_replayed hq), count_flatMap_stamped e hone,
    hcarried, Nat.mul_le_mul_right_iff hentry]
  have hbrought : ¬ (stampFrames 0 frames).all (early serde e.data.symbol) = true := by
    intro hall
    rw [replayed, if_pos hall] at hpf
    cases hpf
  rw [replayed, if_neg hbrought, List.countP_append]
  have htotal := countP_early_add_later serde e.data.symbol frames e.connMsgSeq
  -- a frame that waits is not among the later ones
  have hwaits : (waiting serde e.data.symbol frames).countP (·.connMsgSeq = e.connMsgSeq) = 0 ∨
      0 < ((stampFrames 0 frames).takeWhile (early serde e.data.symbol)).countP
        (·.connMsgSeq = e.connMsgSeq) := by
    refine (Nat.eq_zero_or_pos _).imp id fun hsome => ?_
    obtain ⟨q, hq, hn⟩ := List.countP_pos_iff.1 hsome
    exact List.countP_pos_iff.2 ⟨q, mem_of_waiting hq, hn⟩
  omega

end Handed

end K2.Capture.Kraken
