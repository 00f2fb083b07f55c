import K2Platform.Capture.Kraken.Apply

/-!
# Sampled books are verified

Over a whole process life, a Kraken book that is not empty is exactly the book its last folded
frame was checked against: a frame that fails its checksum leaves an empty book behind, and an
empty book is never sampled.

* `sampled_books_verified` — the invariant, and its two consequences for the records.
-/

set_option autoImplicit false

namespace K2.Capture.Kraken

/-! ## The last folded frame -/

/-- The calls that folded an entry for `symbol` into its book, oldest first. -/
def foldedCalls (symbol : String) (outs : Outputs) : List Call :=
  (calls outs).filter fun c => c.data.symbol = symbol ∧ c.outcome ≠ .ignored

def lastFolded (symbol : String) (outs : Outputs) : Option Call :=
  (foldedCalls symbol outs).getLast?

theorem lastFolded_append_of_unfolded {symbol : String} {h outs : Outputs}
    (hout : ∀ c, .note (.call c) ∈ outs → c.data.symbol = symbol → c.outcome = .ignored) :
    lastFolded symbol (h ++ outs) = lastFolded symbol h := by
  have hnil : foldedCalls symbol outs = [] := by
    refine List.filter_eq_nil_iff.2 fun c hc hfold => ?_
    obtain ⟨hsym, hne⟩ := of_decide_eq_true hfold
    exact hne (hout c (mem_calls.1 hc) hsym)
  have happ : foldedCalls symbol (h ++ outs) = foldedCalls symbol h ++ foldedCalls symbol outs := by
    simp [foldedCalls]
  rw [lastFolded, happ, hnil, List.append_nil, lastFolded]

theorem lastFolded_concat {symbol : String} (h : Outputs) {c : Call} (hsym : c.data.symbol = symbol)
    (hout : c.outcome ≠ .ignored) : lastFolded symbol (h ++ [.note (.call c)]) = some c := by
  simp [lastFolded, foldedCalls, calls, call?, hsym, hout]

/-! ## The invariant -/

/-- What a book that is not empty satisfies; `last` is the last entry folded into it. -/
structure VerifiedBook (crates : Crates) (depth : Nat) (last : Option Call) (state : BookState) :
    Prop where
  checksumOk : state.checksumOk = some true
  bids_le : state.book.bids.length ≤ depth
  asks_le : state.book.asks.length ≤ depth
  positive : state.book.Positive
  checksum : ∃ c, last = some c ∧ Book.checksum crates state.book c.precision = c.data.checksum

structure Verified (crates : Crates) (outs : Outputs) (a : Adapter) : Prop where
  books : ∀ symbol state, a.books.get? symbol = some state → state.book.isEmpty = false →
    VerifiedBook crates (a.subscriptionDepth symbol) (lastFolded symbol outs) state
  marked : ∀ b, .record (.book b) ∈ outs → b.checksumOk = some false

namespace Verified

variable {crates : Crates} {h : Outputs} {a : Adapter}

theorem stored_positive (hv : Verified crates h a) (symbol : String) :
    (a.stored symbol).book.Positive := by
  unfold Adapter.stored
  cases hget : a.books.get? symbol with
  | none => exact Book.positive_empty
  | some state =>
    cases hempty : state.book.isEmpty with
    | true =>
      rw [Option.getD_some, Book.isEmpty_iff.1 hempty]
      exact Book.positive_empty
    | false => exact (hv.books symbol state hget hempty).positive

/-- Writing one symbol's state: the new state is verified where it is not empty, and nothing
    else that was emitted concerns another symbol. -/
theorem setBook (hv : Verified crates h a) {symbol : String} {state : BookState} {outs : Outputs}
    (hnew : state.book.isEmpty = false →
      VerifiedBook crates (a.subscriptionDepth symbol) (lastFolded symbol (h ++ outs)) state)
    (hcalls : ∀ c, .note (.call c) ∈ outs → c.data.symbol = symbol)
    (hmarked : ∀ b, .record (.book b) ∈ outs → b.checksumOk = some false) :
    Verified crates (h ++ outs) (a.setBook symbol state) where
  books := by
    intro native st hget hne
    rw [Adapter.setBook, SortedMap.get?_insert] at hget
    split at hget
    · rename_i heq
      cases hget
      rw [heq]
      exact hnew hne
    · rename_i hother
      rw [lastFolded_append_of_unfolded fun c hc hsym => absurd (hsym.symm.trans (hcalls c hc)) hother]
      exact hv.books native st hget hne
  marked := by
    intro b hb
    rcases List.mem_append.1 hb with hb | hb
    · exact hv.marked b hb
    · exact hmarked b hb

theorem applyBook (hv : Verified crates h a) (f : BookData) (frameType : String)
    (recvTsNs n : Int) :
    Verified crates (h ++ (a.applyBook crates f frameType recvTsNs n).2)
      (a.applyBook crates f frameType recvTsNs n).1 := by
  have happlied := Adapter.applied crates a f frameType recvTsNs n
  generalize a.applyBook crates f frameType recvTsNs n = r at happlied
  cases happlied with
  | skipped _ =>
    rw [List.append_nil]
    exact hv
  | ignored p _ _ hempty =>
    refine hv.setBook (fun hne => ?_) (by simp) (by simp)
    rw [hempty] at hne
    cases hne
  | verified p _ _ hsum =>
    refine hv.setBook (fun _ => ⟨rfl, ?_, ?_, ?_, ?_⟩) (by simp) (by simp)
    · exact length_bids_foldedBook_le _ _ _ _
    · exact length_asks_foldedBook_le _ _ _ _
    · exact foldedBook_positive (hv.stored_positive _) _ _ _
    · exact ⟨_, lastFolded_concat h rfl (by simp), checksum_of_computed hsum⟩
  | mismatch p _ _ _ state hstate =>
    have hmarked : ∀ o ∈ (a.setBook f.symbol state).marked f.symbol recvTsNs,
        ∃ b, o = .record (.book b) ∧ b.checksumOk = some false := by
      intro o ho
      obtain ⟨b, rfl, _, hb⟩ := Adapter.marked_spec ho
      rw [Adapter.stored_setBook, if_pos rfl, hstate] at hb
      exact ⟨b, rfl, hb⟩
    refine hv.setBook (fun hne => by cases hne) (fun c hc => ?_) (fun b hb => ?_)
    · simp only [List.cons_append, List.mem_cons, List.mem_append, List.not_mem_nil, or_false] at hc
      rcases hc with hc | hc | hc
      · cases hc; rfl
      · obtain ⟨b, hb, _⟩ := hmarked _ hc; cases hb
      · cases hc
    · simp only [List.cons_append, List.mem_cons, List.mem_append, List.not_mem_nil, or_false] at hb
      rcases hb with hb | hb | hb
      · cases hb
      · obtain ⟨b', hb', hok⟩ := hmarked _ hb; cases hb'; exact hok
      · cases hb

end Verified

theorem verified_stable (crates : Crates) : Adapter.Stable crates (Verified crates) where
  quiet := by
    intro h outs a a' hins hbooks hquiet hv
    refine ⟨fun symbol state hget hne => ?_, fun b hb => ?_⟩
    · rw [lastFolded_append_of_unfolded fun c hc => absurd rfl ((hquiet _ hc).1 c)]
      have hdepth : a'.subscriptionDepth symbol = a.subscriptionDepth symbol := by
        rw [Adapter.subscriptionDepth, hins, Adapter.subscriptionDepth]
      rw [hdepth]
      exact hv.books symbol state (hbooks ▸ hget) hne
    · rcases List.mem_append.1 hb with hb | hb
      · exact hv.marked b hb
      · exact absurd rfl ((hquiet _ hb).2.1 b)
  apply := fun _ _ f frameType recvTsNs n hv => hv.applyBook f frameType recvTsNs n

theorem verified_life (crates : Crates) (serde : Serde) (instruments : Instruments)
    (cmds : List Command) :
    Verified crates (life crates serde instruments cmds).2
      (life crates serde instruments cmds).1 := by
  refine (verified_stable crates).life serde (fun h a connId hv => ?_) instruments ?_ cmds
  · exact ⟨(fun _ _ hget _ => by cases hget), hv.marked⟩
  · exact ⟨(fun _ _ hget _ => by cases hget), (fun _ hb => by cases hb)⟩

theorem checksumOk_of_snapshot {a : Adapter} {native : String} {nowNs : Int}
    {b : BookSnapshotRecord} (h : a.snapshot native nowNs = some b) :
    ∃ state, a.books.get? native = some state ∧ state.book.isEmpty = false ∧
      b.checksumOk = state.checksumOk := by
  unfold Adapter.snapshot at h
  split at h
  · cases h
  · rename_i state hget
    split at h
    · cases h
    · rename_i hne
      split at h
      · cases h
      · cases h
        exact ⟨state, hget, by simpa using hne, rfl⟩

/-- **Sampled books are verified.**  After any commands, every book that is not empty passed the
    checksum of the last entry folded into it and still has that checksum; so the sampler never
    sees an unverified book, and the only book records a frame emits are marked as wrong. -/
theorem sampled_books_verified (crates : Crates) (serde : Serde) (instruments : Instruments)
    (cmds : List Command) :
    let r := life crates serde instruments cmds
    (∀ symbol state, r.1.books.get? symbol = some state → state.book.isEmpty = false →
      VerifiedBook crates (r.1.subscriptionDepth symbol) (lastFolded symbol r.2) state) ∧
    (∀ native nowNs b, r.1.snapshot native nowNs = some b → b.checksumOk = some true) ∧
    (∀ bytes recvTsNs b, .book b ∈ (r.1.handleFrame crates serde bytes recvTsNs).2.records →
      b.checksumOk = some false) := by
  intro r
  have hv := verified_life crates serde instruments cmds
  refine ⟨hv.books, fun native nowNs b hsnap => ?_, fun bytes recvTsNs b hb => ?_⟩
  · obtain ⟨state, hget, hne, hok⟩ := checksumOk_of_snapshot hsnap
    rw [hok]
    exact (hv.books native state hget hne).checksumOk
  · have hstep := (verified_stable crates).step serde bytes recvTsNs hv
    exact hstep.marked b (List.mem_append_right _ (Output.mem_records.1 hb))

end K2.Capture.Kraken
