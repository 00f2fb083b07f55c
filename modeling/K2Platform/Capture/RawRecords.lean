import K2Platform.Capture.Kraken.Parking
import K2Platform.Capture.Coinbase.Adapter
import K2Platform.Capture.Binance.Adapter

/-!
# The raw records of a connection

Every frame an adapter is handed gives one `RawMessageRecord`, numbered one past the frame before
it, and no other step of the adapter emits one.

* `run_raws` — the rule: a machine whose steps emit one raw record each, numbered by its state,
  emits them in the order of their numbers.
* `Kraken.connection_raws`, `Coinbase.connection_raws`, `Binance.connection_raws` — its instances,
  with what each adapter writes into `stream` and `symbol`.
-/

set_option autoImplicit false

namespace K2.Capture

namespace Output

variable {ν : Type}

def raw? : Output ν → Option RawMessageRecord
  | record (.raw r) => some r
  | _ => none

def raws (outs : List (Output ν)) : List RawMessageRecord := outs.filterMap raw?

theorem raws_append (l₁ l₂ : List (Output ν)) : raws (l₁ ++ l₂) = raws l₁ ++ raws l₂ :=
  List.filterMap_append

/-- No raw record among the outputs. -/
def Quiet (outs : List (Output ν)) : Prop := ∀ o ∈ outs, o.raw? = none

theorem quiet_nil : Quiet ([] : List (Output ν)) := fun _ h => absurd h List.not_mem_nil

theorem quiet_singleton {o : Output ν} (h : o.raw? = none) : Quiet [o] := by
  intro x hx
  rw [List.mem_singleton.1 hx]
  exact h

theorem Quiet.cons {o : Output ν} {outs : List (Output ν)} (h : o.raw? = none)
    (hq : Quiet outs) : Quiet (o :: outs) := by
  intro x hx
  rcases List.mem_cons.1 hx with rfl | hx
  · exact h
  · exact hq x hx

theorem Quiet.append {l₁ l₂ : List (Output ν)} (h₁ : Quiet l₁) (h₂ : Quiet l₂) :
    Quiet (l₁ ++ l₂) := by
  intro x hx
  rcases List.mem_append.1 hx with hx | hx
  · exact h₁ x hx
  · exact h₂ x hx

theorem quiet_map {α : Type} {f : α → Output ν} (h : ∀ x, (f x).raw? = none) (l : List α) :
    Quiet (l.map f) := by
  intro x hx
  obtain ⟨y, _, rfl⟩ := List.mem_map.1 hx
  exact h y

theorem quiet_run {σ ι : Type} {step : σ → ι → σ × List (Output ν)}
    (h : ∀ s i, Quiet (step s i).2) (is : List ι) (s : σ) : Quiet (Mealy.run step s is).2 :=
  Mealy.run_output step (I := fun _ => True) (fun _ _ _ => trivial) (fun s i _ => h s i) is s trivial

/-- A raw record and nothing raw after it. -/
theorem Quiet.raws_cons {r : RawMessageRecord} {outs : List (Output ν)} (h : Quiet outs) :
    raws (record (.raw r) :: outs) = [r] := by
  have hnil : raws outs = [] := List.filterMap_eq_nil_iff.2 h
  rw [raws, List.filterMap_cons]
  exact congrArg (List.cons r) hnil

end Output

open Output

/-- What a step does to the raw records: one more, numbered one past the state, which counts it. -/
structure OneRaw {ν : Type} (P : RawMessageRecord → Prop) (n m : Int) (outs : List (Output ν)) :
    Prop where
  count : m = n + 1
  raw : ∃ r, raws outs = [r] ∧ r.connMsgSeq = n + 1 ∧ P r

/-- The raw records emitted so far are in the order of their numbers, none past the state's. -/
structure RawsUpTo (P : RawMessageRecord → Prop) (n : Int) (rs : List RawMessageRecord) : Prop where
  ordered : rs.Pairwise fun x y => x.connMsgSeq < y.connMsgSeq
  le : ∀ r ∈ rs, r.connMsgSeq ≤ n
  holds : ∀ r ∈ rs, P r

theorem RawsUpTo.nil (P : RawMessageRecord → Prop) (n : Int) : RawsUpTo P n [] :=
  ⟨List.Pairwise.nil, fun _ h => absurd h List.not_mem_nil, fun _ h => absurd h List.not_mem_nil⟩

theorem RawsUpTo.append {ν : Type} {P : RawMessageRecord → Prop} {n m : Int}
    {rs : List RawMessageRecord} {outs : List (Output ν)} (h : RawsUpTo P n rs)
    (hone : OneRaw P n m outs) : RawsUpTo P m (rs ++ raws outs) := by
  obtain ⟨r, hr, hseq, hP⟩ := hone.raw
  have hm := hone.count
  rw [hr]
  refine ⟨List.pairwise_append.2 ⟨h.ordered, List.pairwise_singleton _ _, ?_⟩, ?_, ?_⟩
  · intro x hx y hy
    have hle := h.le x hx
    rw [List.mem_singleton.1 hy]
    omega
  · intro x hx
    rcases List.mem_append.1 hx with hx | hx
    · have hle := h.le x hx
      omega
    · rw [List.mem_singleton.1 hx]
      omega
  · intro x hx
    rcases List.mem_append.1 hx with hx | hx
    · exact h.holds x hx
    · rw [List.mem_singleton.1 hx]
      exact hP

/-- A machine that emits one raw record a step, numbered by its state. -/
theorem run_raws {σ ι ν : Type} (step : σ → ι → σ × List (Output ν)) (count : σ → Int)
    {P : RawMessageRecord → Prop}
    (hstep : ∀ s i, OneRaw P (count s) (count (step s i).1) (step s i).2) (s : σ) (is : List ι) :
    RawsUpTo P (count (Mealy.run step s is).1) (raws (Mealy.run step s is).2) := by
  have h := Mealy.run_history step (J := fun outs s => RawsUpTo P (count s) (raws outs))
    (fun outs s i hj => by
      rw [raws_append]
      exact hj.append (hstep s i)) is [] s (RawsUpTo.nil P _)
  rwa [List.nil_append] at h

/-! ## Kraken -/

namespace Kraken

variable {crates : Crates} {serde : Serde}

theorem quiet_applyBook (a : Adapter) (f : BookData) (frameType : String)
    (recvTsNs connMsgSeq : Int) :
    Quiet (a.applyBook crates f frameType recvTsNs connMsgSeq).2 := by
  unfold Adapter.applyBook
  split
  · simp only
    split
    · exact quiet_singleton rfl
    · exact quiet_singleton rfl
    · refine (Quiet.cons rfl ?_).append (quiet_singleton rfl)
      exact quiet_map (fun _ => rfl) _
  · exact quiet_nil

theorem quiet_drainSymbol (a : Adapter) (symbol : String) :
    Quiet (a.drainSymbol crates serde symbol).2 := by
  unfold Adapter.drainSymbol
  split
  · exact quiet_nil
  · refine Quiet.cons rfl (quiet_run (fun b pf => ?_) _ _)
    exact quiet_run (fun c d => quiet_applyBook c d _ _ _) _ _

theorem quiet_handleEntry (frameType : String) (recvTsNs n : Int) (bytes : List UInt8)
    (a : Adapter) (f : BookData) :
    Quiet (a.handleEntry crates frameType recvTsNs n bytes f).2 := by
  unfold Adapter.handleEntry
  refine Quiet.cons rfl ?_
  split
  · exact quiet_applyBook _ _ _ _ _
  · exact quiet_nil

theorem quiet_handleBody (frameType : String) (recvTsNs : Int) (bytes : List UInt8) (a : Adapter)
    (body : Body) : Quiet (a.handleBody crates serde frameType recvTsNs bytes body).2 := by
  cases body with
  | book frames => exact quiet_run (fun b f => quiet_handleEntry _ _ _ _ b f) _ _
  | trade trades => exact quiet_map (fun _ => rfl) _
  | instrument pairs => exact quiet_run (fun b s => quiet_drainSymbol b s) _ _
  | other => exact quiet_nil

/-- What the adapter writes of a frame into its raw record. -/
def Written (serde : Serde) (r : RawMessageRecord) : Prop :=
  r.stream = (parse serde r.payload).stream ∧ r.symbol = (parse serde r.payload).body.singleSymbol

theorem step_oneRaw (a : Adapter) (bytes : List UInt8) (recvTsNs : Int) :
    OneRaw (Written serde) a.connMsgSeq (a.step crates serde bytes recvTsNs).1.connMsgSeq
      (a.step crates serde bytes recvTsNs).2 where
  count := step_connMsgSeq a bytes recvTsNs
  raw := ⟨_, (quiet_handleBody _ _ _ _ _).raws_cons, rfl, rfl, rfl⟩

theorem connection_raws (crates : Crates) (serde : Serde) (instruments : Instruments)
    (connId : String) (frames : List Frame) :
    RawsUpTo (Written serde) (connection crates serde instruments connId frames).1.connMsgSeq
      (raws (connection crates serde instruments connId frames).2) :=
  run_raws _ Adapter.connMsgSeq (fun a f => step_oneRaw a f.1 f.2) _ _

end Kraken

/-! ## Coinbase -/

namespace Coinbase

variable {crates : Crates} {serde : Serde}

/-- What the adapter writes of a frame into its raw record. -/
def Written (serde : Serde) (r : RawMessageRecord) : Prop :=
  r.stream = (Adapter.parse serde r.payload).1 ∧
    r.symbol = (Adapter.parse serde r.payload).2.singleSymbol

theorem applyL2_connMsgSeq (a : Adapter) (e : L2Event) (recvTsNs n : Int) (seq : Option Int) :
    (a.applyL2 crates e recvTsNs n seq).connMsgSeq = a.connMsgSeq := by
  unfold Adapter.applyL2
  split
  · rfl
  · split <;> rfl

theorem handleBody_connMsgSeq (e : Envelope) (recvTsNs : Int) (a : Adapter) (body : Body) :
    (a.handleBody crates e recvTsNs body).1.connMsgSeq = a.connMsgSeq := by
  cases body with
  | l2 events =>
    refine Mealy.run_state _ (I := fun (b : Adapter) => b.connMsgSeq = a.connMsgSeq) ?_ _ _ rfl
    exact fun b ev hb => (applyL2_connMsgSeq b ev _ _ _).trans hb
  | trades events => rfl
  | control => rfl
  | other => rfl

theorem quiet_handleBody (e : Envelope) (recvTsNs : Int) (a : Adapter) (body : Body) :
    Quiet (a.handleBody crates e recvTsNs body).2 := by
  cases body with
  | l2 events => exact quiet_run (fun _ _ => quiet_singleton rfl) _ _
  | trades events => exact quiet_map (fun _ => rfl) _
  | control => exact quiet_nil
  | other =>
    rw [Adapter.handleBody]
    split
    · exact quiet_singleton rfl
    · exact quiet_nil

theorem checkFrame_connMsgSeq (a : Adapter) (e : Envelope) :
    (a.checkFrame e).1.connMsgSeq = a.connMsgSeq := by
  unfold Adapter.checkFrame Adapter.checkSequence
  split
  · simp only
    split <;> rfl
  · rfl

theorem step_oneRaw (a : Adapter) (bytes : List UInt8) (recvTsNs : Int) :
    OneRaw (Written serde) a.connMsgSeq (a.step crates serde bytes recvTsNs).1.connMsgSeq
      (a.step crates serde bytes recvTsNs).2 := by
  unfold Adapter.step
  simp only
  split
  · exact ⟨rfl, _, quiet_nil.raws_cons, rfl, rfl, rfl⟩
  · refine ⟨?_, _, Quiet.raws_cons (Quiet.append ?_ ?_), rfl, rfl, rfl⟩
    · exact (handleBody_connMsgSeq _ _ _ _).trans (checkFrame_connMsgSeq _ _)
    · exact quiet_map (fun _ => rfl) _
    · exact quiet_handleBody _ _ _ _

theorem connection_raws (crates : Crates) (serde : Serde) (instruments : Instruments)
    (connId : String) (frames : List Frame) :
    RawsUpTo (Written serde) (connection crates serde instruments connId frames).1.connMsgSeq
      (raws (connection crates serde instruments connId frames).2) :=
  run_raws _ Adapter.connMsgSeq (fun a f => step_oneRaw a f.1 f.2) _ _

end Coinbase

/-! ## Binance -/

namespace Binance

variable {serde : Serde}

theorem handleData_connMsgSeq (a : Adapter) (stream native data : String) (recvTsNs n : Int) :
    (a.handleData serde stream native data recvTsNs n).1.connMsgSeq = a.connMsgSeq := by
  unfold Adapter.handleData Adapter.replaceBook
  split
  · rfl
  · split
    · split
      · simp only
        split <;> rfl
      · rfl
    · rfl

theorem quiet_handleData (a : Adapter) (stream native data : String) (recvTsNs n : Int) :
    Quiet (a.handleData serde stream native data recvTsNs n).2 := by
  unfold Adapter.handleData Adapter.replaceBook
  split
  · exact quiet_map (fun _ => rfl) _
  · split
    · split
      · simp only
        split
        · exact Quiet.cons rfl (quiet_singleton rfl)
        · exact quiet_singleton rfl
      · exact quiet_nil
    · exact quiet_nil

theorem step_oneRaw (a : Adapter) (bytes : List UInt8) (recvTsNs : Int) :
    OneRaw (fun _ => True) a.connMsgSeq (a.step serde bytes recvTsNs).1.connMsgSeq
      (a.step serde bytes recvTsNs).2 := by
  unfold Adapter.step
  simp only
  split
  · refine ⟨handleData_connMsgSeq _ _ _ _ _ _, _, Quiet.raws_cons ?_, rfl, trivial⟩
    exact quiet_handleData _ _ _ _ _ _
  · exact ⟨rfl, _, quiet_nil.raws_cons, rfl, trivial⟩

theorem connection_raws (serde : Serde) (instruments : Instruments) (connId : String)
    (frames : List Frame) :
    RawsUpTo (fun _ => True) (connection serde instruments connId frames).1.connMsgSeq
      (raws (connection serde instruments connId frames).2) :=
  run_raws _ Adapter.connMsgSeq (fun a f => step_oneRaw a f.1 f.2) _ _

end Binance

end K2.Capture
