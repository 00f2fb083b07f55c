import K2Platform.Lib.PartitionedLog
import K2Platform.Capture.RawRecords
import K2Platform.Lake.Offsets

/-!
# Book frames across ticks

A connection's raw records go to the partitions of its venue's raw topic by `OutRecord::key`,
`bounded_offsets` decides how far a run reads each partition, and a tick of `books.stage` sorts
only what it was given.  So a replay that carries a book over sees a symbol's frames in order
exactly when the partitions and the runs keep them in order.

* `carried_eq_key` — the levels of a frame with a key are levels of its key.
* `frames_inOrder_iff` — a symbol's frames reach the ticks in order, however the frames without a
  key are spread and however far each run reads, exactly when no symbol has levels in two frames
  of which one has no key.
-/

set_option autoImplicit false

namespace K2.Lake

open Capture PartitionedLog

/-! ## Connections -/

/-- A connection of a venue: its adapter, and the frames it is handed. -/
inductive Connection where
  | binance (serde : Binance.Serde) (instruments : Instruments) (connId : String)
      (frames : List Binance.Frame)
  | kraken (crates : Crates) (serde : Kraken.Serde) (instruments : Instruments) (connId : String)
      (frames : List Kraken.Frame)
  | coinbase (crates : Crates) (serde : Coinbase.Serde) (instruments : Instruments)
      (connId : String) (frames : List Coinbase.Frame)

/-- The symbol columns of `silver.book_kraken` and `silver.book_coinbase` for a payload: what
    `from_json` and `posexplode` of Spark make of it. -/
structure Explode where
  kraken : List UInt8 → List String
  coinbase : List UInt8 → List String

namespace Connection

/-- The raw records of the connection, in the order they are sent. -/
def raws : Connection → List RawMessageRecord
  | .binance serde instruments connId frames =>
    Output.raws (Binance.connection serde instruments connId frames).2
  | .kraken crates serde instruments connId frames =>
    Output.raws (Kraken.connection crates serde instruments connId frames).2
  | .coinbase crates serde instruments connId frames =>
    Output.raws (Coinbase.connection crates serde instruments connId frames).2

/-- `VenueTable.stream` of the venue's book table. -/
def bookStream : Connection → String
  | .binance .. => "depth20"
  | .kraken .. => "book"
  | .coinbase .. => "l2_data"

/-- The symbols whose levels the silver rows of a book frame carry; Binance's row takes the
    symbol of the raw record. -/
def rowSymbols (explode : Explode) : Connection → RawMessageRecord → List String
  | .binance .., r => r.symbol.toList
  | .kraken .., r => explode.kraken r.payload
  | .coinbase .., r => explode.coinbase r.payload

def carried (explode : Explode) (c : Connection) (r : RawMessageRecord) : List String :=
  if r.stream = c.bookStream then c.rowSymbols explode r else []

/-- Spark finds no symbol in a book payload that `serde_json` did not find there. -/
def ReadsAlike (explode : Explode) : Connection → Prop
  | .binance .. => True
  | .kraken _ serde _ _ _ => ∀ bytes entries, (Kraken.parse serde bytes).body = .book entries →
      ∀ s ∈ explode.kraken bytes, s ∈ entries.map Kraken.BookData.symbol
  | .coinbase _ serde _ _ _ => ∀ bytes events, (Coinbase.Adapter.parse serde bytes).2 = .l2 events →
      ∀ s ∈ explode.coinbase bytes, s ∈ events.map Coinbase.L2Event.productId

theorem raws_ordered (c : Connection) :
    c.raws.Pairwise fun x y => x.connMsgSeq < y.connMsgSeq := by
  cases c with
  | binance serde instruments connId frames =>
    exact (Binance.connection_raws serde instruments connId frames).ordered
  | kraken crates serde instruments connId frames =>
    exact (Kraken.connection_raws crates serde instruments connId frames).ordered
  | coinbase crates serde instruments connId frames =>
    exact (Coinbase.connection_raws crates serde instruments connId frames).ordered

end Connection

/-! ## Keys -/

def messageKey (r : RawMessageRecord) : Option String := (OutRecord.raw r).key

/-- The first of a list that is all one symbol. -/
theorem eq_of_single {symbols : List String} {k : String}
    (h : (symbols.head?.bind fun first =>
      if symbols.all (· = first) then some first else none) = some k) :
    ∀ s ∈ symbols, s = k := by
  obtain ⟨first, _, hif⟩ := Option.bind_eq_some_iff.1 h
  split at hif
  · rename_i hall
    rw [← Option.some.inj hif]
    simpa using hall
  · cases hif

/-- A Kraken frame on the book channel either parsed as book entries or concerns no instrument. -/
theorem kraken_book_of_key {serde : Kraken.Serde} {bytes : List UInt8} {k : String}
    (hstream : (Kraken.parse serde bytes).stream = "book")
    (hkey : (Kraken.parse serde bytes).body.singleSymbol = some k) :
    ∃ entries, (Kraken.parse serde bytes).body = .book entries ∧ ∀ e ∈ entries, e.symbol = k := by
  unfold Kraken.parse at hstream hkey ⊢
  cases henv : serde.envelope bytes with
  | none => simp [henv] at hstream
  | some e =>
    simp only [henv] at hstream hkey ⊢
    have hchannel : e.channel = some "book" := by
      unfold Kraken.Envelope.streamName at hstream
      split at hstream
      · rename_i hc
        rw [hc, hstream]
      · simp at hstream
      · simp at hstream
    unfold Kraken.Body.parse at hkey ⊢
    cases hdata : e.data with
    | none => simp [hdata, Kraken.Body.singleSymbol] at hkey
    | some data =>
      simp only [hdata, hchannel, if_true] at hkey ⊢
      cases hbook : serde.book data with
      | none => simp [hbook, Kraken.Body.singleSymbol] at hkey
      | some entries =>
        simp only [hbook, Option.elim_some] at hkey
        exact ⟨entries, rfl, List.forall_mem_map.1 (eq_of_single hkey)⟩

/-- The same for Coinbase and its `l2_data` channel. -/
theorem coinbase_l2_of_key {serde : Coinbase.Serde} {bytes : List UInt8} {k : String}
    (hstream : (Coinbase.Adapter.parse serde bytes).1 = "l2_data")
    (hkey : (Coinbase.Adapter.parse serde bytes).2.singleSymbol = some k) :
    ∃ events, (Coinbase.Adapter.parse serde bytes).2 = .l2 events ∧
      ∀ e ∈ events, e.productId = k := by
  unfold Coinbase.Adapter.parse at hstream hkey ⊢
  cases henv : serde.envelope bytes with
  | none => simp [henv] at hstream
  | some e =>
    simp only [henv] at hstream hkey ⊢
    have hchannel : e.channel = some "l2_data" := by
      cases hc : e.channel with
      | none => simp [hc] at hstream
      | some c =>
        rw [hc] at hstream
        exact congrArg some hstream
    unfold Coinbase.Body.parse at hkey ⊢
    cases hevents : e.events with
    | none => simp [hevents, hchannel, Coinbase.Body.singleSymbol] at hkey
    | some text =>
      simp only [hevents, hchannel, if_true] at hkey ⊢
      cases hl2 : serde.l2 text with
      | none => simp [hl2, Coinbase.Body.singleSymbol] at hkey
      | some events =>
        simp only [hl2, Option.elim_some] at hkey
        exact ⟨events, rfl, List.forall_mem_map.1 (eq_of_single hkey)⟩

/-- **The levels of a frame with a key are levels of its key.** -/
theorem carried_eq_key {c : Connection} {explode : Explode} (hreads : c.ReadsAlike explode)
    {r : RawMessageRecord} (hr : r ∈ c.raws) {k : String} (hkey : messageKey r = some k) :
    ∀ s ∈ c.carried explode r, s = k := by
  intro s hs
  unfold Connection.carried at hs
  split at hs
  · rename_i hstream
    cases c with
    | binance serde instruments connId frames =>
      exact (Option.some.inj (hkey.symm.trans (Option.mem_toList.1 hs))).symm
    | kraken crates serde instruments connId frames =>
      have hwritten := (Kraken.connection_raws crates serde instruments connId frames).holds r hr
      obtain ⟨entries, hbody, hall⟩ := kraken_book_of_key (hwritten.1.symm.trans hstream)
        (hwritten.2.symm.trans hkey)
      obtain ⟨e, he, rfl⟩ := List.mem_map.1 (hreads r.payload entries hbody s hs)
      exact hall e he
    | coinbase crates serde instruments connId frames =>
      have hwritten := (Coinbase.connection_raws crates serde instruments connId frames).holds r hr
      obtain ⟨events, hbody, hall⟩ := coinbase_l2_of_key (hwritten.1.symm.trans hstream)
        (hwritten.2.symm.trans hkey)
      obtain ⟨e, he, rfl⟩ := List.mem_map.1 (hreads r.payload events hbody s hs)
      exact hall e he
  · cases hs

/-! ## Ticks -/

/-- A stop of `bounded_offsets` is an end no lower than its start. -/
theorem advance_stopOffset (starts : Nat → Nat) (endOfLog maxPerPartition : Int)
    (atInstant : Option Int) (p : Nat) :
    advance starts (fun q => (stopOffset (starts q) endOfLog maxPerPartition atInstant).toNat) p =
      (stopOffset (starts p) endOfLog maxPerPartition atInstant).toNat := by
  have hle := start_le_stopOffset (starts p) endOfLog maxPerPartition atInstant
  rw [advance]
  exact Nat.max_eq_right (by omega)

/-- For every symbol, no tick is given a frame that was sent before a frame with the symbol's
    levels which an earlier tick was given. -/
def FramesInOrder (explode : Explode) (c : Connection) (place : RawMessageRecord → Nat)
    (partitions : Nat) (bounds : List (Nat → Nat)) : Prop :=
  InOrder RawMessageRecord.connMsgSeq (c.carried explode)
    (reads place partitions c.raws (fun _ => 0) bounds)

/-- **Exactly the frames with a key arrive in order.** -/
theorem frames_inOrder_iff (c : Connection) (explode : Explode) (hreads : c.ReadsAlike explode) :
    (∀ (partitions : Nat) (place : RawMessageRecord → Nat), (∀ r, place r < partitions) →
      Allowed messageKey c.raws place → ∀ bounds : List (Nat → Nat),
        FramesInOrder explode c place partitions bounds) ↔
      Keyed messageKey (c.carried explode) c.raws :=
  inOrder_iff c.raws_ordered fun _ hr _ hkey => carried_eq_key hreads hr hkey

/-- Every frame of a Binance connection with levels has a key. -/
theorem binance_keyed (serde : Binance.Serde) (instruments : Instruments) (connId : String)
    (frames : List Binance.Frame) (explode : Explode) :
    Keyed messageKey ((Connection.binance serde instruments connId frames).carried explode)
      (Connection.binance serde instruments connId frames).raws := by
  have hkeyed : ∀ r s, s ∈ (Connection.binance serde instruments connId frames).carried explode r →
      (messageKey r).isSome := by
    intro r s hs
    unfold Connection.carried at hs
    split at hs
    · exact Option.isSome_iff_exists.2 ⟨s, Option.mem_toList.1 hs⟩
    · cases hs
  exact List.pairwise_of_forall fun x y ⟨l, hx, hy⟩ => ⟨hkeyed x l hx, hkeyed y l hy⟩

/-! ## Two connections of two frames -/

/-- Spark where it finds what `serde_json` finds. -/
def Explode.ofSerde (kraken : Kraken.Serde) (coinbase : Coinbase.Serde) : Explode where
  kraken bytes := match (Kraken.parse kraken bytes).body with
    | .book entries => entries.map Kraken.BookData.symbol
    | _ => []
  coinbase bytes := match (Coinbase.Adapter.parse coinbase bytes).2 with
    | .l2 events => events.map Coinbase.L2Event.productId
    | _ => []

theorem readsAlike_ofSerde (kraken : Kraken.Serde) (crates : Crates) (serde : Coinbase.Serde)
    (instruments : Instruments) (connId : String) (frames : List Coinbase.Frame) :
    (Connection.coinbase crates serde instruments connId frames).ReadsAlike
      (Explode.ofSerde kraken serde) := by
  intro bytes events hbody s hs
  rw [Explode.ofSerde] at hs
  simpa only [hbody] using hs

def levelsOf (product price qty : String) : Coinbase.L2Event :=
  ⟨"update", product, [⟨"bid", Coinbase.EVENT_TIME, price, qty⟩]⟩

def twoProducts : List (Int × List Coinbase.L2Event) :=
  [(0, [levelsOf "ATOM-USD" "1.5577" "92.81", levelsOf "BTC-USD" "61000" "0.5"]),
   (1, [levelsOf "ATOM-USD" "1.5577" "0", levelsOf "BTC-USD" "61000" "0"])]

def oneProduct : List (Int × List Coinbase.L2Event) :=
  [(0, [levelsOf "ATOM-USD" "1.5577" "92.81"]), (1, [levelsOf "ATOM-USD" "1.5577" "0"])]

def coinbaseConnection (frames : List (Int × List Coinbase.L2Event)) : Connection :=
  .coinbase Coinbase.timed (Coinbase.Serde.ofFrames frames) Coinbase.atomUsd "c1"
    (frames.map Coinbase.l2Frame)

def coinbaseExplode (frames : List (Int × List Coinbase.L2Event)) : Explode :=
  .ofSerde ⟨fun _ => none, fun _ => none, fun _ => none, fun _ => none⟩
    (Coinbase.Serde.ofFrames frames)

/-- The second frame of two products is alone in its partition, and that partition is read first. -/
theorem later_frame_first :
    ¬ ∀ (c : Connection) (explode : Explode), c.ReadsAlike explode →
      ∀ (partitions : Nat) (place : RawMessageRecord → Nat), (∀ r, place r < partitions) →
        Allowed messageKey c.raws place → ∀ bounds : List (Nat → Nat),
          FramesInOrder explode c place partitions bounds := by
  intro h
  have hunkeyed : ∀ r ∈ (coinbaseConnection twoProducts).raws, messageKey r = none := by
    decide +kernel
  have horder := h (coinbaseConnection twoProducts) (coinbaseExplode twoProducts)
    (readsAlike_ofSerde _ _ _ _ _ _) 2 (fun r => if r.connMsgSeq = 2 then 1 else 0)
    (fun r => by split <;> omega)
    ⟨fun _ => 0, fun r hr k hk => by rw [hunkeyed r hr] at hk; cases hk⟩
    [fun p => if p = 1 then 1 else 0, fun _ => 1]
  unfold FramesInOrder InOrder at horder
  revert horder
  decide +kernel

theorem oneProduct_inOrder :
    Keyed messageKey ((coinbaseConnection oneProduct).carried (coinbaseExplode oneProduct))
        (coinbaseConnection oneProduct).raws ∧
      ∀ (partitions : Nat) (place : RawMessageRecord → Nat), (∀ r, place r < partitions) →
        Allowed messageKey (coinbaseConnection oneProduct).raws place →
          ∀ bounds : List (Nat → Nat),
            FramesInOrder (coinbaseExplode oneProduct) (coinbaseConnection oneProduct) place
              partitions bounds := by
  have hkeyed : Keyed messageKey
      ((coinbaseConnection oneProduct).carried (coinbaseExplode oneProduct))
      (coinbaseConnection oneProduct).raws := by
    unfold Keyed
    decide +kernel
  exact ⟨hkeyed, (frames_inOrder_iff (coinbaseConnection oneProduct) (coinbaseExplode oneProduct)
    (readsAlike_ofSerde _ _ _ _ _ _)).2 hkeyed⟩

end K2.Lake
