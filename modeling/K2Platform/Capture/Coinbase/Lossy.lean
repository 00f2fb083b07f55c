import K2Platform.Lib.Trace
import K2Platform.Capture.Coinbase.Adapter

/-!
# Books with a lost delta

A sequence gap drops every book, because a book with one lost delta is wrong forever.  A delta
that arrives and cannot be read is lost in the same way, but drops nothing.

* `lossless_samples_of_clean` — in a connection in which nothing unreadable arrives while a
  product it could carry has a book, or builds one, no book with a lost delta is ever sampled.
* `lost_delta_is_sampled` — a connection in which one is.
-/

set_option autoImplicit false

namespace K2.Capture.Coinbase

/-! ## The property and its condition -/

/-- A level of the event cannot be folded. -/
def L2Event.unfoldable (e : L2Event) : Bool := e.updates.any L2Level.unfoldable

/-- Something was lost that could concern the product: the events of an `l2_data` frame, or a
    level in a frame that carries the product. -/
def Lossy (product : String) (o : Output L2Note) : Prop :=
  match o with
  | .note (.lost _) => True
  | .note (.event e carried _) => e.unfoldable = true ∧ product ∈ carried
  | _ => False

instance (product : String) (o : Output L2Note) : Decidable (Lossy product o) := by
  unfold Lossy
  split <;> infer_instance

/-- A `snapshot` event of the product. -/
def Repair (product : String) (o : Output L2Note) : Prop :=
  match o with
  | .note (.event e _ _) => e.typ = "snapshot" ∧ e.productId = product
  | _ => False

instance (product : String) (o : Output L2Note) : Decidable (Repair product o) := by
  unfold Repair
  split <;> infer_instance

/-- Whenever a product is sampled, every loss that could concern it has been followed by a
    `snapshot` event of it. -/
def LosslessSamples (crates : Crates) (serde : Serde) (instruments : Instruments)
    (connId : String) (frames : List Frame) : Prop :=
  ∀ n product nowNs b,
    (connection crates serde instruments connId (frames.take n)).1.snapshot product nowNs = some b →
    Trace.Answered (Lossy product) (Repair product)
      (connection crates serde instruments connId (frames.take n)).2

/-- The loss happens while no product it could concern has a book, and builds none itself. -/
def CleanNote (instruments : Instruments) : L2Note → Prop
  | .lost held => held = []
  | .event e carried held => e.unfoldable = true →
      (∀ p ∈ carried, p ∉ held) ∧ ¬ (e.typ = "snapshot" ∧ (instruments.canonical e.productId).isSome)

instance (instruments : Instruments) : DecidablePred (CleanNote instruments) := fun n => by
  unfold CleanNote
  split <;> infer_instance

def Clean (instruments : Instruments) (outs : Outputs) : Prop :=
  ∀ n ∈ Output.notes outs, CleanNote instruments n

instance (instruments : Instruments) (outs : Outputs) : Decidable (Clean instruments outs) :=
  inferInstanceAs (Decidable (∀ n ∈ Output.notes outs, CleanNote instruments n))

theorem Clean.left {instruments : Instruments} (h o : Outputs)
    (hc : Clean instruments (h ++ o)) : Clean instruments h :=
  fun n hn => hc n (by rw [Output.notes_append]; exact List.mem_append_left _ hn)

/-! ## The invariant -/

/-- Every product that has a book has had all its losses repaired. -/
structure Repaired (instruments : Instruments) (h : Outputs) (a : Adapter) : Prop where
  registry : a.instruments = instruments
  books : ∀ product state, a.books.get? product = some state →
    Trace.Answered (Lossy product) (Repair product) h

namespace Repaired

variable {crates : Crates} {serde : Serde} {instruments : Instruments} {h : Outputs} {a : Adapter}

/-- Outputs that lose nothing, and a state with no new book. -/
theorem frame (hr : Repaired instruments h a) {outs : Outputs} {a' : Adapter}
    (hins : a'.instruments = a.instruments)
    (hbooks : ∀ product state, a'.books.get? product = some state →
      ∃ state', a.books.get? product = some state')
    (houts : ∀ product, ∀ o ∈ outs, ¬ Lossy product o) : Repaired instruments (h ++ outs) a' where
  registry := hins.trans hr.registry
  books := by
    intro product state hget
    obtain ⟨state', hget'⟩ := hbooks product state hget
    exact (hr.books product state' hget').append (houts product)

theorem mem_keys_of_get? {a : Adapter} {product : String} {state : BookState}
    (hget : a.books.get? product = some state) : product ∈ a.books.keys := by
  rw [SortedMap.mem_keys_iff, SortedMap.contains, hget]
  rfl

/-- The books after an event: those before, and the book of a `snapshot`. -/
theorem get?_applyL2 {e : L2Event} {recvTsNs n : Int} {seq : Option Int} {product : String}
    {state : BookState} (hget : (a.applyL2 crates e recvTsNs n seq).books.get? product = some state) :
    (∃ state', a.books.get? product = some state') ∨
      (e.typ = "snapshot" ∧ e.productId = product ∧
        (a.instruments.canonical e.productId).isSome) := by
  unfold Adapter.applyL2 at hget
  split at hget
  · exact Or.inl ⟨state, hget⟩
  · rename_i hreg
    split at hget
    · exact Or.inl ⟨state, hget⟩
    · rename_i base hbase
      rw [SortedMap.get?_insert] at hget
      split at hget
      · rename_i heq
        unfold BookState.base at hbase
        split at hbase
        · rename_i htyp
          refine Or.inr ⟨htyp, heq.symm, ?_⟩
          rw [Option.isSome_iff_ne_none]
          simpa using hreg
        · split at hbase
          · exact Or.inl ⟨base, heq ▸ hbase⟩
          · cases hbase
      · exact Or.inl ⟨state, hget⟩

theorem handleEvent (hr : Repaired instruments h a) (carried : List String) (recvTsNs n : Int)
    (seq : Option Int) {e : L2Event}
    (hclean : Clean instruments (h ++ (a.handleEvent crates carried recvTsNs n seq e).2)) :
    Repaired instruments (h ++ (a.handleEvent crates carried recvTsNs n seq e).2)
      (a.handleEvent crates carried recvTsNs n seq e).1 := by
  have hnote : CleanNote instruments (.event e carried a.books.keys) := by
    refine hclean _ ?_
    rw [Output.notes_append]
    exact List.mem_append_right _ List.mem_cons_self
  unfold Adapter.handleEvent
  refine ⟨?_, fun product state hget => ?_⟩
  · unfold Adapter.applyL2
    split
    · exact hr.registry
    · split <;> exact hr.registry
  · cases hun : e.unfoldable with
    | true =>
      -- the loss concerns no product with a book, and this event builds none
      obtain ⟨hheld, hbuilt⟩ := hnote hun
      rcases get?_applyL2 hget with ⟨state', hget'⟩ | ⟨htyp, _, hreg⟩
      · refine (hr.books product state' hget').append fun o ho hlossy => ?_
        rw [List.mem_singleton.1 ho] at hlossy
        exact hheld product hlossy.2 (mem_keys_of_get? hget')
      · exact absurd ⟨htyp, hr.registry ▸ hreg⟩ hbuilt
    | false =>
      have hnot : ∀ p, ¬ Lossy p (.note (.event e carried a.books.keys)) := by
        intro p hlossy
        have hlost : e.unfoldable = true := hlossy.1
        rw [hun] at hlost
        cases hlost
      rcases get?_applyL2 hget with ⟨state', hget'⟩ | ⟨htyp, heq, _⟩
      · refine (hr.books product state' hget').append fun o ho => ?_
        rw [List.mem_singleton.1 ho]
        exact hnot product
      · exact Trace.answered_concat ⟨htyp, heq⟩ (hnot product)

theorem handleBody (hr : Repaired instruments h a) (e : Envelope) (recvTsNs : Int) (body : Body)
    (hclean : Clean instruments (h ++ (a.handleBody crates e recvTsNs body).2)) :
    Repaired instruments (h ++ (a.handleBody crates e recvTsNs body).2)
      (a.handleBody crates e recvTsNs body).1 := by
  cases body with
  | l2 events =>
    exact Mealy.run_history_guarded _ Clean.left events h a
      (fun _ _ _ _ hc hr => hr.handleEvent _ _ _ _ hc) hclean hr
  | trades events =>
    refine hr.frame rfl (fun _ state hget => ⟨state, hget⟩) fun product o ho => ?_
    obtain ⟨t, _, rfl⟩ := List.mem_map.1 ho
    exact id
  | control =>
    exact hr.frame rfl (fun _ state hget => ⟨state, hget⟩) fun product o ho => by cases ho
  | other =>
    unfold Adapter.handleBody at hclean ⊢
    simp only at hclean ⊢
    split
    · rename_i hlost
      rw [if_pos hlost] at hclean
      have hnone : a.books.keys = [] := by
        refine hclean (.lost a.books.keys) ?_
        rw [Output.notes_append]
        exact List.mem_append_right _ List.mem_cons_self
      refine ⟨hr.registry, fun product state hget => ?_⟩
      have hkey := mem_keys_of_get? hget
      rw [hnone] at hkey
      cases hkey
    · rw [List.append_nil]
      exact hr

theorem checkFrame (hr : Repaired instruments h a) (e : Envelope) :
    Repaired instruments (h ++ (a.checkFrame e).2.map .action) (a.checkFrame e).1 := by
  have hact : ∀ product, ∀ o ∈ ((a.checkFrame e).2.map .action : Outputs), ¬ Lossy product o := by
    intro product o ho
    obtain ⟨act, _, rfl⟩ := List.mem_map.1 ho
    exact id
  refine hr.frame ?_ (fun product state hget => ?_) hact
  · unfold Adapter.checkFrame Adapter.checkSequence
    split
    · simp only
      split <;> rfl
    · rfl
  · unfold Adapter.checkFrame Adapter.checkSequence at hget
    split at hget
    · simp only at hget
      split at hget
      · cases hget
      · exact ⟨state, hget⟩
    · exact ⟨state, hget⟩

theorem step (hr : Repaired instruments h a) (bytes : List UInt8) (recvTsNs : Int)
    (hclean : Clean instruments (h ++ (a.step crates serde bytes recvTsNs).2)) :
    Repaired instruments (h ++ (a.step crates serde bytes recvTsNs).2)
      (a.step crates serde bytes recvTsNs).1 := by
  have hraw : ∀ raw, Repaired instruments (h ++ [.record (.raw raw)])
      { a with connMsgSeq := a.connMsgSeq + 1 } := fun raw =>
    hr.frame rfl (fun _ state hget => ⟨state, hget⟩) fun product o ho => by
      rw [List.mem_singleton.1 ho]
      exact id
  unfold Adapter.step at hclean ⊢
  cases henv : serde.envelope bytes with
  | none => exact hraw _
  | some e =>
    simp only [henv] at hclean ⊢
    rw [← List.singleton_append, ← List.append_assoc, ← List.append_assoc] at hclean ⊢
    exact ((hraw _).checkFrame e).handleBody e recvTsNs _ hclean

end Repaired

/-! ## Whole connections -/

theorem repaired_connection {crates : Crates} {serde : Serde} {instruments : Instruments}
    {connId : String} {frames : List Frame}
    (hclean : Clean instruments (connection crates serde instruments connId frames).2) :
    Repaired instruments (connection crates serde instruments connId frames).2
      (connection crates serde instruments connId frames).1 := by
  have hstart : Repaired instruments [] ((Adapter.new instruments).beginConnection connId) :=
    ⟨rfl, fun _ _ hget => by cases hget⟩
  have hrun := Mealy.run_history_guarded (fun a (f : Frame) => a.step crates serde f.1 f.2)
    Clean.left frames [] _ (fun _ _ f _ hc hr => hr.step f.1 f.2 hc) (by rwa [List.nil_append])
    hstart
  rwa [List.nil_append] at hrun

/-- **No book with a lost delta is sampled, where losses meet no book.**  In a connection in which
    nothing unreadable arrives while a product it could carry has a book, or builds one itself,
    every product sampled has had a `snapshot` event since the last loss that could concern it. -/
theorem lossless_samples_of_clean {crates : Crates} {serde : Serde} {instruments : Instruments}
    {connId : String} {frames : List Frame}
    (hclean : Clean instruments (connection crates serde instruments connId frames).2) :
    LosslessSamples crates serde instruments connId frames := by
  intro n product nowNs b hsnap
  have hpre : Clean instruments
      (connection crates serde instruments connId (frames.take n)).2 := by
    rw [← List.take_append_drop n frames, connection, Mealy.run_append] at hclean
    exact hclean.left _ _
  unfold Adapter.snapshot at hsnap
  split at hsnap
  · cases hsnap
  · rename_i state hget
    exact (repaired_connection hpre).books product state hget

/-! ## Two short connections -/

/-- A snapshot, and an update whose quantity has nine decimals. -/
def lossyFrames : List (Int × List L2Event) :=
  [(0, [atomEvent "snapshot" "1.5577" "92.81"]),
   (1, [atomEvent "update" "1.5577" "0.123456789"])]

/-- The same update before the snapshot. -/
def lossBeforeSnapshot : List (Int × List L2Event) :=
  [(0, [atomEvent "update" "1.5577" "0.123456789"]),
   (1, [atomEvent "snapshot" "1.5577" "92.81"])]

/-- The update is dropped, and the book is sampled with the quantity it should have replaced. -/
theorem lost_delta_is_sampled :
    ¬ ∀ (crates : Crates) (serde : Serde) (instruments : Instruments) (connId : String)
      (frames : List Frame), LosslessSamples crates serde instruments connId frames := by
  intro h
  have hsnap : ((connection timed (Serde.ofFrames lossyFrames) atomUsd "c1"
      ((lossyFrames.map l2Frame).take 2)).1.snapshot "ATOM-USD" 2).isSome := by decide +kernel
  obtain ⟨b, hb⟩ := Option.isSome_iff_exists.1 hsnap
  have hanswered := h timed (Serde.ofFrames lossyFrames) atomUsd "c1" (lossyFrames.map l2Frame) 2
    "ATOM-USD" 2 b hb
  revert hanswered
  decide +kernel

theorem lossless_after_snapshot :
    Clean atomUsd (connection timed (Serde.ofFrames lossBeforeSnapshot) atomUsd "c1"
        (lossBeforeSnapshot.map l2Frame)).2 ∧
      LosslessSamples timed (Serde.ofFrames lossBeforeSnapshot) atomUsd "c1"
        (lossBeforeSnapshot.map l2Frame) := by
  have hclean : Clean atomUsd (connection timed (Serde.ofFrames lossBeforeSnapshot) atomUsd "c1"
      (lossBeforeSnapshot.map l2Frame)).2 := by decide +kernel
  exact ⟨hclean, lossless_samples_of_clean hclean⟩

end K2.Capture.Coinbase
