import K2Platform.Lake.BookCrash

/-!
# The rebuild of the books

Model of `rebuild.py --layer books` and of `books.py::rebuild`: the tables are dropped, and every
venue's bronze table is processed as the stage processes what it reads, one day of receipt after the
other.  Each day's commits carry the snapshot that the rebuild has pinned, so the position is at the
end of the bronze table from the first of them on.

* `runSlice` — one batch of frames, with the commits that are left to make.
* `BookTables.rebuild` — the rebuild.
-/

set_option autoImplicit false

namespace K2.Lake

/-- `to_date(recv_ts)`, in days since 1970-01-01. -/
def Frame.receiveDay {v : Exchange} (f : Frame v) : Int := f.recvTsNs.tdiv 1000 / 86400000000

/-- `SELECT DISTINCT to_date(recv_ts) d .. ORDER BY d`. -/
def receiveDays {v : Exchange} (frames : List (Frame v)) : List Int :=
  sortOn id (frames.map Frame.receiveDay).dedup

theorem receiveDays_sorted {v : Exchange} {frames : List (Frame v)} :
    (receiveDays frames).Pairwise (· < ·) := by
  have hnodup : (receiveDays frames).Nodup := (sortOn_perm _ _).nodup_iff.2 (List.nodup_dedup _)
  refine ((sortOn_pairwise id _).and hnodup).imp fun h => ?_
  exact lt_of_le_of_ne h.1 h.2

theorem mem_receiveDays {v : Exchange} {frames : List (Frame v)} {f : Frame v} (h : f ∈ frames) :
    f.receiveDay ∈ receiveDays frames := by
  refine (sortOn_perm _ _).mem_iff.2 ?_
  simpa using ⟨f, h, rfl⟩

section Rebuild

variable (floatDigits : Int → Int → String) (tick : BookTick)

/-- `process` for one batch; once a commit was not made, none are. -/
def runSlice (v : Exchange) (s : Nat × BookTables) (frames : List (Frame v)) : Nat × BookTables :=
  match process floatDigits tick s.2.state v frames with
  | none => (0, s.2)
  | some p =>
    let n := min s.1 p.reach
    (if n < commitsOf v then 0 else s.1 - n, s.2.commit p n)

/-- One venue, day by day. -/
def rebuildOf (s : Nat × BookTables) (v : Exchange) : Nat × BookTables :=
  (receiveDays (s.2.bronze v)).foldl
    (fun s' day => runSlice floatDigits tick v s'
      ((s.2.bronze v).filter fun f => f.receiveDay = day)) s

/-- The tables dropped and re-created: the silver tables of these venues, and the gold tables. -/
def BookTables.drop (t : BookTables) (exchanges : List Exchange) : BookTables where
  bronze := t.bronze
  position := fun v => if v ∈ exchanges then 0 else t.position v
  silver := fun v => if v ∈ exchanges then [] else t.silver v
  books := []
  booksSnapshot := 0
  bbo := []
  state := Dict.empty

/-- A venue's turn, if it is one of these. -/
def rebuildTurn (exchanges : List Exchange) (s : Nat × BookTables) (v : Exchange) :
    Nat × BookTables :=
  if v ∈ exchanges then rebuildOf floatDigits tick s v else s

/-- `rebuild.py --layer books`, for these venues. -/
def BookTables.rebuild (t : BookTables) (exchanges : List Exchange) : BookTables :=
  ((BOOKS.filter fun v => v ∈ exchanges).foldl (rebuildOf floatDigits tick)
    (tick.commits, t.drop exchanges)).2

theorem rebuild_eq (t : BookTables) (exchanges : List Exchange) :
    t.rebuild floatDigits tick exchanges =
      (rebuildTurn floatDigits tick exchanges
        (rebuildTurn floatDigits tick exchanges
          (rebuildTurn floatDigits tick exchanges (tick.commits, t.drop exchanges) .binance)
          .kraken) .coinbase).2 := by
  rw [BookTables.rebuild, List.foldl_filter]
  simp only [decide_eq_true_eq]
  rfl

end Rebuild

section Turns

variable {floatDigits : Int → Int → String} {tick : BookTick}

/-- A venue's turn in the stage is one batch. -/
theorem stageBooksOf_eq (s : Nat × BookTables) (v : Exchange) :
    stageBooksOf floatDigits tick s v =
      if (s.2.unread v).isEmpty then s
      else runSlice floatDigits tick v s (s.2.unread v) := rfl

theorem runSlice_untouched {v w : Exchange} (hne : v ≠ w) (s : Nat × BookTables)
    (frames : List (Frame w)) : Untouched v s.2 (runSlice floatDigits tick w s frames).2 := by
  unfold runSlice
  cases hp : process floatDigits tick s.2.state w frames with
  | none => exact Untouched.refl v s.2
  | some p => exact commit_untouched hne s.2 (ofVenue_process hp) _

theorem rebuildOf_untouched {v w : Exchange} (hne : v ≠ w) (s : Nat × BookTables) :
    Untouched v s.2 (rebuildOf floatDigits tick s w).2 := by
  have hdays : ∀ (days : List Int) (slice : Int → List (Frame w)) (s' : Nat × BookTables),
      Untouched v s.2 s'.2 → Untouched v s.2
        (days.foldl (fun s' day => runSlice floatDigits tick w s' (slice day)) s').2 := by
    intro days slice
    induction days with
    | nil => exact fun s' h => h
    | cons day days ih => exact fun s' h => ih _ (h.trans (runSlice_untouched hne s' _))
  exact hdays _ _ s (Untouched.refl v s.2)

variable {exchanges : List Exchange}

theorem rebuildTurn_untouched {v w : Exchange} (hne : v ≠ w) (s : Nat × BookTables) :
    Untouched v s.2 (rebuildTurn floatDigits tick exchanges s w).2 := by
  unfold rebuildTurn
  split
  · exact rebuildOf_untouched hne s
  · exact Untouched.refl v s.2

variable (floatDigits tick) in
/-- A venue that is not rebuilt keeps what `drop` leaves of it. -/
theorem rebuild_others (t : BookTables) {v : Exchange} (h : v ∉ exchanges) :
    Untouched v (t.drop exchanges) (t.rebuild floatDigits tick exchanges) := by
  have hturn : ∀ (s : Nat × BookTables) (w : Exchange),
      Untouched v s.2 (rebuildTurn floatDigits tick exchanges s w).2 := by
    intro s w
    by_cases hw : v = w
    · subst hw
      rw [rebuildTurn, if_neg h]
      exact Untouched.refl v s.2
    · exact rebuildTurn_untouched hw s
  rw [rebuild_eq]
  have hbinance := hturn (tick.commits, t.drop exchanges) .binance
  exact (hbinance.trans (hturn _ .kraken)).trans (hturn _ .coinbase)

theorem silver_drop {t : BookTables} {v : Exchange} (h : v ∉ exchanges) :
    (t.drop exchanges).silver v = t.silver v := if_neg h

end Turns

end K2.Lake
