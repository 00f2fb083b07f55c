import K2Platform.Capture.Replay
import K2Platform.Lib.Forall2
import K2Platform.Lib.SortOn
import Mathlib.Data.List.Lex
import Mathlib.Data.Prod.Lex

/-!
# Archive, export, replay

Model of `frames` of `scripts/replay_export.py`, and the round trip through it: a connection is
captured, its raw records archived, exported and replayed.

* `exported_prefix` — what an export returns is a beginning of the connection.
* `exported_whole` — an export of a whole connection returns all of it.
* `archive_round_trip` — the replay emits what the live adapter emitted.
-/

set_option autoImplicit false

namespace K2.Capture

/-! ## The export -/

/-- A row of `raw.messages`, as the export reads it. -/
structure RawRow where
  schemaId : Option Int
  payload : List UInt8
  deriving DecidableEq, Repr

/-- What `fastavro` and `json` make of raw records and of fixture lines. -/
structure Codec where
  encode : RawMessageRecord → List UInt8
  /-- `schemaless_reader`; `none` where it raises. -/
  decode : List UInt8 → Option RawMessageRecord
  json : FixtureLine → String
  fixtureLine : String → Option FixtureLine

inductive ExportError where
  /-- `SystemExit`, with its message. -/
  | systemExit (message : String)
  | unreadable
  | notUtf8
  deriving DecidableEq, Repr

/-- A Confluent-framed value: a zero byte and four bytes of schema id before the body. -/
def RawRow.framed (r : RawRow) : Bool := 6 ≤ r.payload.length && r.payload.head? == some 0

/-- Received after the instant that the export stops at. -/
def late (untilNs : Option Int) (recvTsNs : Int) : Bool := untilNs.any (· < recvTsNs)

section Export

variable (codec : Codec) (connId : String) (untilNs : Option Int)

/-- The body of the loop of `frames`: what it appends for a row. -/
def pick (row : RawRow) : Except ExportError (Option RawLine) :=
  if row.schemaId.isNone || !row.framed then .ok none
  else match codec.decode (row.payload.drop 5) with
    | none => .error .unreadable
    | some rec =>
      if rec.connId ≠ connId || late untilNs rec.recvTsNs then .ok none else .ok (some rec.line)

/-- Tuples are compared field by field, and bytes byte by byte. -/
def RawLine.order (l : RawLine) : Int ×ₗ Int ×ₗ List Nat :=
  toLex (l.1, toLex (l.2.1, l.2.2.map UInt8.toNat))

/-- `1..n`. -/
def unbroken (seqs : List Int) : Bool := seqs = (List.range seqs.length).map fun i : Nat => (i : Int) + 1

def exitMessage (seqs : List Int) : String :=
  connId ++ ": conn_msg_seq is not 1..n unbroken — " ++ toString seqs.length ++ " frames, first " ++
    toString (seqs.head?.getD 0) ++ ", last " ++ toString (seqs.getLast?.getD 0) ++
    "; the export would be a truncated connection"

def RawLine.fixtureLine (l : RawLine) : Except ExportError FixtureLine :=
  match String.fromUTF8? ⟨l.2.2.toArray⟩ with
  | some text => .ok ⟨l.2.1, text⟩
  | none => .error .notUtf8

/-- `frames`. -/
def exportFrames (rows : List RawRow) : Except ExportError (List FixtureLine) := do
  let picked ← rows.mapM (pick codec connId untilNs)
  let out := sortOn RawLine.order (picked.filterMap id)
  let seqs := out.map Prod.fst
  if unbroken seqs then out.mapM RawLine.fixtureLine
  else .error (.systemExit (exitMessage connId seqs))

end Export

/-! ## The rows of the archive -/

/-- The row is a raw record, encoded and framed. -/
structure Encodes (codec : Codec) (raw : RawMessageRecord) (row : RawRow) : Prop where
  schemaId : row.schemaId.isSome
  payload : ∃ id : List UInt8, id.length = 4 ∧ row.payload = 0 :: (id ++ codec.encode raw)
  body : codec.encode raw ≠ []
  /-- The Avro encoding round trips. -/
  readsBack : codec.decode (codec.encode raw) = some raw

/-- The row is un-framed, or a raw record of another connection. -/
inductive Foreign (codec : Codec) (connId : String) (row : RawRow) : Prop where
  | unframed (h : row.schemaId = none ∨ row.framed = false)
  | other (raw : RawMessageRecord) (h : Encodes codec raw row) (hconn : raw.connId ≠ connId)

/-- Every row is one of the raw records, or foreign. -/
def Mixed (codec : Codec) (connId : String) (raws : List RawMessageRecord) (rows : List RawRow) :
    Prop :=
  ∀ row ∈ rows, (∃ raw ∈ raws, Encodes codec raw row) ∨ Foreign codec connId row

/-- Among the rows, in whatever order, is each of the raw records once; the others are foreign. -/
structure OnceEach (codec : Codec) (connId : String) (raws : List RawMessageRecord)
    (rows : List RawRow) : Prop where
  split : ∃ own others, rows.Perm (own ++ others) ∧ List.Forall₂ (Encodes codec) raws own ∧
    ∀ row ∈ others, Foreign codec connId row

section Rows

variable {codec : Codec} {connId : String} {untilNs : Option Int} {raw : RawMessageRecord}
  {row : RawRow}

theorem pick_encodes (h : Encodes codec raw row) :
    pick codec connId untilNs row =
      .ok (if raw.connId ≠ connId || late untilNs raw.recvTsNs then none else some raw.line) := by
  obtain ⟨id, hid, hpayload⟩ := h.payload
  have hlen : 1 ≤ (codec.encode raw).length := List.length_pos_iff.2 h.body
  have hframed : row.framed = true := by
    simp [RawRow.framed, hpayload, hid]
    omega
  have hdrop : row.payload.drop 5 = codec.encode raw := by
    rw [hpayload, List.drop_succ_cons, ← hid, List.drop_left]
  have hnone : row.schemaId.isNone = false := by
    have hsome := h.schemaId
    cases hs : row.schemaId with
    | none =>
      rw [hs] at hsome
      cases hsome
    | some _ => rfl
  unfold pick
  rw [hnone, hframed, hdrop, h.readsBack]
  simp only [Bool.not_true, Bool.or_self, Bool.false_eq_true, if_false]
  split <;> rfl

theorem pick_foreign (h : Foreign codec connId row) :
    pick codec connId untilNs row = .ok none := by
  cases h with
  | unframed h =>
    have hskip : (row.schemaId.isNone || !row.framed) = true := by
      rcases h with h | h
      · simp [h]
      · simp [h]
    rw [pick, if_pos hskip]
  | other raw h hconn =>
    refine (pick_encodes h).trans ?_
    simp [hconn]

/-- What is picked of a row, where the export does not stop at it. -/
def picked (codec : Codec) (connId : String) (untilNs : Option Int) (row : RawRow) :
    Option RawLine :=
  (pick codec connId untilNs row).toOption.join

theorem pick_eq_picked {line : Option RawLine} (h : pick codec connId untilNs row = .ok line) :
    pick codec connId untilNs row = .ok (picked codec connId untilNs row) := by
  rw [picked, h]
  rfl

theorem mapM_eq_ok {α β ε : Type} {f : α → Except ε β} {g : α → β} {l : List α}
    (h : ∀ x ∈ l, f x = .ok (g x)) : l.mapM f = .ok (l.map g) := by
  induction l with
  | nil => rfl
  | cons x l ih =>
    rw [List.mapM_cons, h x List.mem_cons_self, ih fun y hy => h y (List.mem_cons_of_mem x hy)]
    rfl

/-- An export of rows at which it does not stop. -/
theorem exportFrames_eq {rows : List RawRow}
    (h : ∀ row ∈ rows, ∃ line, pick codec connId untilNs row = .ok line) :
    exportFrames codec connId untilNs rows =
      let out := sortOn RawLine.order (rows.filterMap (picked codec connId untilNs))
      if unbroken (out.map Prod.fst) then out.mapM RawLine.fixtureLine
      else .error (.systemExit (exitMessage connId (out.map Prod.fst))) := by
  have hpicked : rows.mapM (pick codec connId untilNs) =
      .ok (rows.map (picked codec connId untilNs)) :=
    mapM_eq_ok fun row hrow => by
      obtain ⟨line, hline⟩ := h row hrow
      exact pick_eq_picked hline
  have hout : rows.filterMap (picked codec connId untilNs) =
      (rows.map (picked codec connId untilNs)).filterMap id := by
    rw [List.filterMap_map, Function.id_comp]
  rw [exportFrames, hpicked, hout]
  rfl

end Rows

/-! ## Numbered frames -/

theorem lt_of_mem_numbered {frames : List TextFrame} {n : Int} {l : RawLine}
    (h : l ∈ numbered n frames) : n < l.1 := by
  induction frames generalizing n with
  | nil => cases h
  | cons f frames ih =>
    rcases List.mem_cons.1 h with rfl | h
    · show n < n + 1
      omega
    · have hlt := ih h
      omega

theorem length_numbered (n : Int) (frames : List TextFrame) :
    (numbered n frames).length = frames.length := by
  induction frames generalizing n with
  | nil => rfl
  | cons f frames ih => rw [numbered, List.length_cons, ih, List.length_cons]

theorem seqs_numbered (n : Int) (frames : List TextFrame) :
    (numbered n frames).map Prod.fst =
      (List.range frames.length).map fun i : Nat => n + (i : Int) + 1 := by
  induction frames generalizing n with
  | nil => rfl
  | cons f frames ih =>
    rw [numbered, List.map_cons, ih, List.length_cons, List.range_succ_eq_map, List.map_cons,
      List.map_map]
    refine congrArg₂ List.cons (by simp) (List.map_congr_left fun i _ => ?_)
    simp only [Function.comp_apply, Nat.succ_eq_add_one, Nat.cast_add, Nat.cast_one]
    omega

/-- Lines of the connection that are counted up without a gap are its first frames. -/
theorem eq_take_of_counted {out : List RawLine} {n : Int} {frames : List TextFrame}
    (hseqs : out.map Prod.fst = (List.range out.length).map fun i : Nat => n + (i : Int) + 1)
    (hmem : ∀ l ∈ out, l ∈ numbered n frames) : out = numbered n (frames.take out.length) := by
  induction out generalizing n frames with
  | nil => rfl
  | cons l out ih =>
    rw [List.length_cons, List.range_succ_eq_map, List.map_cons, List.map_cons, List.map_map]
      at hseqs
    obtain ⟨hl, hrest⟩ := List.cons.inj hseqs
    have hrest' : out.map Prod.fst =
        (List.range out.length).map fun i : Nat => n + 1 + (i : Int) + 1 := by
      rw [hrest]
      refine List.map_congr_left fun i _ => ?_
      simp only [Function.comp_apply, Nat.succ_eq_add_one, Nat.cast_add, Nat.cast_one]
      omega
    cases frames with
    | nil => exact absurd (hmem l List.mem_cons_self) List.not_mem_nil
    | cons f frames =>
      have hhead : l = (n + 1, f.2, utf8 f.1) := by
        rcases List.mem_cons.1 (hmem l List.mem_cons_self) with rfl | htail
        · rfl
        · have hlt := lt_of_mem_numbered htail
          simp only [Nat.cast_zero] at hl
          omega
      have htail : ∀ m ∈ out, m ∈ numbered (n + 1) frames := by
        intro m hm
        rcases List.mem_cons.1 (hmem m (List.mem_cons_of_mem l hm)) with rfl | hm'
        · -- a number that comes after the first is larger
          have hseq : n + 1 ∈ out.map Prod.fst := List.mem_map_of_mem hm
          rw [hrest'] at hseq
          obtain ⟨i, _, hi⟩ := List.mem_map.1 hseq
          omega
        · exact hm'
      rw [List.length_cons, List.take_succ_cons, numbered, ← ih hrest' htail, hhead]

theorem fixtureLine_numbered (n : Int) (frames : List TextFrame) :
    (numbered n frames).mapM RawLine.fixtureLine = .ok (frames.map TextFrame.line) := by
  induction frames generalizing n with
  | nil => rfl
  | cons f frames ih =>
    have hbytes : (⟨(utf8 f.1).toArray⟩ : ByteArray) = f.1.toByteArray := by
      simp [utf8]
    have htext : String.fromUTF8? f.1.toByteArray = some f.1 := by
      simp only [String.fromUTF8?, dif_pos f.1.isValidUTF8]
      rfl
    have hline : RawLine.fixtureLine (n + 1, f.2, utf8 f.1) = .ok f.line := by
      simp only [RawLine.fixtureLine, hbytes, htext]
      rfl
    rw [numbered, List.mapM_cons, hline, ih]
    rfl

/-! ## What an export returns -/

section Export

variable {codec : Codec} {connId : String} {raws : List RawMessageRecord} {frames : List TextFrame}
  {rows : List RawRow}

theorem unbroken_iff {seqs : List Int} :
    unbroken seqs = true ↔ seqs = (List.range seqs.length).map fun i : Nat => (i : Int) + 1 := by
  rw [unbroken, decide_eq_true_iff]

/-- **What an export returns is a beginning of the connection**, whatever rows are there. -/
theorem exported_prefix (hlines : raws.map RawMessageRecord.line = numbered 0 frames)
    (hmixed : Mixed codec connId raws rows)
    {untilNs : Option Int} {lines : List FixtureLine}
    (h : exportFrames codec connId untilNs rows = .ok lines) :
    ∃ m, lines = (frames.take m).map TextFrame.line := by
  have hpick : ∀ row ∈ rows, ∃ line, pick codec connId untilNs row = .ok line ∧
      ∀ l ∈ line, l ∈ numbered 0 frames := by
    intro row hrow
    rcases hmixed row hrow with ⟨raw, hraw, hrow'⟩ | hforeign
    · refine ⟨_, pick_encodes hrow', fun l hl => ?_⟩
      split at hl
      · cases hl
      · cases hl
        rw [← hlines]
        exact List.mem_map_of_mem hraw
    · exact ⟨none, pick_foreign hforeign, fun l hl => nomatch hl⟩
  rw [exportFrames_eq fun row hrow => (hpick row hrow).imp fun _ h => h.1] at h
  simp only at h
  have hmem : ∀ l ∈ sortOn RawLine.order (rows.filterMap (picked codec connId untilNs)),
      l ∈ numbered 0 frames := by
    intro l hl
    obtain ⟨row, hrow, hl⟩ := List.mem_filterMap.1 ((sortOn_perm _ _).mem_iff.1 hl)
    obtain ⟨line, hline, hall⟩ := hpick row hrow
    rw [picked, hline] at hl
    exact hall l hl
  generalize sortOn RawLine.order (rows.filterMap (picked codec connId untilNs)) = out at h hmem
  split at h
  · rename_i hunbroken
    have hseqs := unbroken_iff.1 hunbroken
    rw [List.length_map] at hseqs
    have hout := eq_take_of_counted (n := 0) (by simpa using hseqs) hmem
    refine ⟨out.length, ?_⟩
    rw [hout, fixtureLine_numbered] at h
    exact (Except.ok.inj h).symm
  · cases h

theorem order_injective : Function.Injective RawLine.order := by
  rintro ⟨seq, recvTsNs, bytes⟩ ⟨seq', recvTsNs', bytes'⟩ h
  have hpair := toLex.injective h
  injection hpair with hseq hrest
  have hpair' := toLex.injective hrest
  injection hpair' with hrecv hbytes
  have hinj : Function.Injective UInt8.toNat := fun _ _ => UInt8.toNat_inj.1
  exact Prod.ext hseq (Prod.ext hrecv (List.map_injective_iff.2 hinj hbytes))

theorem sortOn_numbered {out : List RawLine} (n : Int) (h : out.Perm (numbered n frames)) :
    sortOn RawLine.order out = numbered n frames := by
  refine sortOn_eq (fun a _ b _ hab => order_injective hab) h.symm ?_
  clear h
  induction frames generalizing n with
  | nil => exact .nil
  | cons f frames ih =>
    refine List.pairwise_cons.2 ⟨fun l hl => ?_, ih (n + 1)⟩
    exact Prod.Lex.toLex_le_toLex.2 (Or.inl (lt_of_mem_numbered hl))

theorem filterMap_own {own : List RawRow} (h : List.Forall₂ (Encodes codec) raws own)
    (hconn : ∀ raw ∈ raws, raw.connId = connId) :
    own.filterMap (picked codec connId none) = raws.map RawMessageRecord.line := by
  induction h with
  | nil => rfl
  | @cons raw row raws own hrow _ ih =>
    have hpicked : picked codec connId none row = some raw.line := by
      rw [picked, pick_encodes hrow]
      simp [hconn raw List.mem_cons_self, late, Except.toOption]
    rw [List.filterMap_cons, hpicked, List.map_cons,
      ih fun x hx => hconn x (List.mem_cons_of_mem raw hx)]

/-- **An export of a whole connection returns all of it.** -/
theorem exported_whole (hlines : raws.map RawMessageRecord.line = numbered 0 frames)
    (hconn : ∀ raw ∈ raws, raw.connId = connId) (honce : OnceEach codec connId raws rows) :
    exportFrames codec connId none rows = .ok (frames.map TextFrame.line) := by
  obtain ⟨own, others, hperm, hown, hforeign⟩ := honce.split
  have hothers : ∀ row ∈ others, pick codec connId none row = .ok none := fun row hrow =>
    pick_foreign (hforeign row hrow)
  have hpick : ∀ row ∈ rows, ∃ line, pick codec connId none row = .ok line := by
    intro row hrow
    rcases List.mem_append.1 (hperm.mem_iff.1 hrow) with hmem | hmem
    · obtain ⟨raw, _, hrow'⟩ := hown.exists_of_mem_right hmem
      exact ⟨_, pick_encodes hrow'⟩
    · exact ⟨none, hothers row hmem⟩
  have hall : (rows.filterMap (picked codec connId none)).Perm (numbered 0 frames) := by
    have hnone : others.filterMap (picked codec connId none) = [] := by
      refine List.filterMap_eq_nil_iff.2 fun row hrow => ?_
      rw [picked, hothers row hrow]
      rfl
    have happend := hperm.filterMap (picked codec connId none)
    rw [List.filterMap_append, hnone, List.append_nil,
      filterMap_own hown hconn, hlines] at happend
    exact happend
  have hunbroken : unbroken ((numbered 0 frames).map Prod.fst) = true := by
    rw [unbroken_iff, List.length_map, length_numbered, seqs_numbered]
    simp
  rw [exportFrames_eq hpick]
  simp only
  rw [sortOn_numbered 0 hall, if_pos hunbroken, fixtureLine_numbered]

end Export

/-! ## The round trip -/

/-- What an export of these rows, replayed through a fresh adapter, emits of frames. -/
def replayedRecords (crates : Crates) (serdes : Serdes) (codec : Codec) (exchange : Exchange)
    (instruments : Instruments) (connId : String) (intervalNs : Int) (lines : List FixtureLine) :
    Option (List OutRecord) :=
  let out := replay crates serdes codec.fixtureLine (buildAdapter exchange instruments)
    (lines.map codec.json) ⟨connId, intervalNs, none⟩
  out.2.toOption.map fun _ => out.1.filterMap Emitted.handled?

/-- **Archive, export and replay round trip.**  A connection of an adapter that may have had others
    before it, its raw records archived among rows of other connections and un-framed rows: an
    export that does not exit replays to what the adapter emitted for the first frames of the
    connection; and one without an instant to stop at, over rows that have each frame once, does
    not exit and replays to all of it. -/
theorem archive_round_trip (crates : Crates) (serdes : Serdes) {codec : Codec} (exchange : Exchange)
    (instruments : Instruments) {earlier : List Request}
    (hearlier : ∀ q ∈ earlier, ∀ depth, q ≠ .setSnapshotDepth depth) (connId : String)
    {frames : List TextFrame} (hjson : ReadsBack codec.json codec.fixtureLine frames)
    {rows : List RawRow} {intervalNs : Int}
    (hinterval : intervalNs ≠ 0) :
    let live := ((buildAdapter exchange instruments).run crates serdes earlier).1.beginConnection
      connId
    let raws := rawRecords (handledRecords crates serdes live frames)
    (Mixed codec connId raws rows → ∀ untilNs lines,
      exportFrames codec connId untilNs rows = .ok lines →
        ∃ m, replayedRecords crates serdes codec exchange instruments connId intervalNs lines =
          some (handledRecords crates serdes live (frames.take m))) ∧
    (OnceEach codec connId raws rows → ∃ lines,
      exportFrames codec connId none rows = .ok lines ∧
        replayedRecords crates serdes codec exchange instruments connId intervalNs lines =
          some (handledRecords crates serdes live frames)) := by
  simp only
  rw [Adapter.beginConnection_run hearlier]
  obtain ⟨hlines, hconn⟩ := rawLines_connection crates serdes
    (buildAdapter exchange instruments) connId frames
  have hreplay : ∀ sent : List TextFrame, ReadsBack codec.json codec.fixtureLine sent →
      replayedRecords crates serdes codec exchange instruments connId intervalNs
          (sent.map TextFrame.line) =
        some (handledRecords crates serdes
          ((buildAdapter exchange instruments).beginConnection connId) sent) := by
    intro sent hsent
    obtain ⟨⟨stats, hstats⟩, hrecords⟩ := handled_replay crates serdes
      (buildAdapter exchange instruments) hsent connId hinterval
    unfold replayedRecords
    rw [List.map_map]
    simp only [Function.comp_def]
    rw [hstats, hrecords]
    rfl
  constructor
  · intro hmixed untilNs lines hexport
    obtain ⟨m, rfl⟩ := exported_prefix hlines hmixed hexport
    exact ⟨m, hreplay _ fun f hf => hjson f (List.mem_of_mem_take hf)⟩
  · intro honce
    exact ⟨_, exported_whole hlines hconn honce, hreplay frames hjson⟩

/-! ## A short connection -/

def jsonString (s : String) : String :=
  "\"" ++ String.ofList (s.toList.flatMap fun c =>
    if c.toNat = 0x22 ∨ c.toNat = 0x5C then [Char.ofNat 0x5C, c] else [c]) ++ "\""

def jsonLine (l : FixtureLine) : String :=
  "\x7b\"recv_ts_ns\":" ++ toString l.recvTsNs ++ ",\"payload\":" ++ jsonString l.payload ++ "\x7d"

/-- The two decoders on what the encoders make of these records and lines, and on nothing else. -/
def Codec.ofKnown (raws : List RawMessageRecord) (lines : List FixtureLine) : Codec where
  encode := avroRaw
  decode body := raws.find? fun r => avroRaw r = body
  json := jsonLine
  fixtureLine text := lines.find? fun l => jsonLine l = text

def shortFrames : List TextFrame :=
  [("\x7b\"channel\":\"instrument\",\"type\":\"snapshot\",\"data\":\x7b\"pairs\":[\x7b\"symbol\":" ++
      "\"BTC/USD\",\"price_precision\":1,\"qty_precision\":8\x7d]\x7d\x7d", 5),
   ("\x7b\"channel\":\"book\",\"type\":\"snapshot\",\"data\":[\x7b\"symbol\":\"BTC/USD\",\"bids\":[" ++
      "\x7b\"price\":45000.0,\"qty\":1.00000000\x7d],\"asks\":[],\"checksum\":7\x7d]\x7d", 9)]

def shortSerdes : Serdes where
  kraken := Kraken.Serde.ofFrames [("snapshot", [Kraken.bidEntry "45000.0" "1.00000000" 7])]
    [Kraken.btcPairs]
  binance := ⟨fun _ => none, fun _ => none, fun _ => none⟩
  coinbase := Coinbase.Serde.ofFrames []

def shortLive : Adapter := (buildAdapter .kraken Kraken.btcUsd).beginConnection "c1"

def shortRaws : List RawMessageRecord :=
  rawRecords (handledRecords (Crates.ofTimes []) shortSerdes shortLive shortFrames)

def otherRaw : RawMessageRecord := ⟨"kraken", "heartbeat", none, 7, "c2", 1, utf8 "\x7b\x7d"⟩

def shortCodec : Codec :=
  Codec.ofKnown (otherRaw :: shortRaws) (shortFrames.map TextFrame.line)

def framedRow (r : RawMessageRecord) : RawRow := ⟨some 3, [0, 0, 0, 0, 3] ++ avroRaw r⟩

/-- Out of order, with an un-framed row and one of another connection. -/
def shortRows : List RawRow :=
  [⟨none, [0, 0, 1]⟩] ++ (shortRaws.map framedRow).reverse ++ [framedRow otherRaw]

/-- The first of a list at whose key no other stands. -/
theorem find?_of_unique {α β : Type} [DecidableEq β] (key : α → β) {xs : List α} {x : α}
    (h : x ∈ xs) (hunique : ∀ y ∈ xs, key y = key x → y = x) :
    xs.find? (fun y => key y = key x) = some x := by
  cases hf : xs.find? fun y => key y = key x with
  | none => exact absurd (List.find?_eq_none.1 hf x h) (by simp)
  | some y =>
    have hy : key y = key x := by simpa using List.find?_some hf
    rw [hunique y (List.mem_of_find?_eq_some hf) hy]

theorem encodes_short {r : RawMessageRecord} (h : r ∈ otherRaw :: shortRaws)
    (hunique : ∀ q ∈ otherRaw :: shortRaws, avroRaw q = avroRaw r → q = r) :
    Encodes shortCodec r (framedRow r) where
  schemaId := rfl
  payload := ⟨[0, 0, 0, 3], rfl, rfl⟩
  body := List.append_ne_nil_of_right_ne_nil _
    (List.append_ne_nil_of_left_ne_nil (avroLong_ne_nil r.payload.length) _)
  readsBack := find?_of_unique avroRaw h hunique

theorem toList_jsonLine (l : FixtureLine) : ∃ rest, (jsonLine l).toList =
    "\x7b\"recv_ts_ns\":".toList ++ ((toString l.recvTsNs).toList ++ rest) := by
  refine ⟨(",\"payload\":" ++ jsonString l.payload ++ "\x7d").toList, ?_⟩
  delta jsonLine
  simp only [String.toList_append, List.append_assoc]

theorem isBlank_jsonLine (l : FixtureLine) : isBlank (jsonLine l) = false := by
  obtain ⟨rest, hrest⟩ := toList_jsonLine l
  have hopen : "\x7b\"recv_ts_ns\":".toList.all isWhitespace = false := by decide
  simp only [isBlank, hrest, List.all_append, hopen, Bool.false_and]

/-- Two lines whose clocks start with different digits. -/
theorem jsonLine_ne {l q : FixtureLine}
    (h : (toString l.recvTsNs).toList.head? ≠ (toString q.recvTsNs).toList.head?)
    (hl : (toString l.recvTsNs).toList ≠ []) (hq : (toString q.recvTsNs).toList ≠ []) :
    jsonLine l ≠ jsonLine q := by
  intro heq
  obtain ⟨rest, hrest⟩ := toList_jsonLine l
  obtain ⟨rest', hrest'⟩ := toList_jsonLine q
  rw [heq, hrest'] at hrest
  have hstamps := congrArg List.head? (List.append_cancel_left hrest)
  rw [List.head?_append_of_ne_nil _ hq, List.head?_append_of_ne_nil _ hl] at hstamps
  exact h hstamps.symm

theorem readsBack_short : ReadsBack shortCodec.json shortCodec.fixtureLine shortFrames := by
  have hne : ∀ x y, jsonLine ⟨5, x⟩ ≠ jsonLine ⟨9, y⟩ := by
    intro x y
    refine jsonLine_ne ?_ ?_ ?_
    · show (toString (5 : Int)).toList.head? ≠ (toString (9 : Int)).toList.head?
      decide
    · show (toString (5 : Int)).toList ≠ []
      decide
    · show (toString (9 : Int)).toList ≠ []
      decide
  have hunique : ∀ l ∈ shortFrames.map TextFrame.line, ∀ q ∈ shortFrames.map TextFrame.line,
      jsonLine q = jsonLine l → q = l := by
    intro l hl q hq h
    simp only [shortFrames, List.map_cons, List.map_nil, List.mem_cons, List.not_mem_nil,
      or_false] at hl hq
    rcases hl with rfl | rfl <;> rcases hq with rfl | rfl
    · rfl
    · exact absurd h.symm (hne _ _)
    · exact absurd h (hne _ _)
    · rfl
  intro f hf
  have hmem : f.line ∈ shortFrames.map TextFrame.line := List.mem_map_of_mem hf
  exact ⟨find?_of_unique jsonLine hmem (hunique f.line hmem), isBlank_jsonLine f.line⟩

theorem archive_round_trip_short :
    ∃ lines, exportFrames shortCodec "c1" none shortRows = .ok lines ∧
      replayedRecords (Crates.ofTimes []) shortSerdes shortCodec .kraken Kraken.btcUsd "c1"
          1000000000 lines =
        some (handledRecords (Crates.ofTimes []) shortSerdes shortLive shortFrames) := by
  have hunique : ∀ r ∈ otherRaw :: shortRaws, ∀ q ∈ otherRaw :: shortRaws,
      avroRaw q = avroRaw r → q = r := by decide +kernel
  have hearlier : ∀ q ∈ [Request.beginConnection "c0"], ∀ depth, q ≠ .setSnapshotDepth depth := by
    simp
  refine (archive_round_trip (Crates.ofTimes []) shortSerdes .kraken Kraken.btcUsd hearlier "c1"
    readsBack_short (by decide)).2
    ⟨shortRaws.map framedRow, [⟨none, [0, 0, 1]⟩, framedRow otherRaw], ?_, ?_, ?_⟩
  · have hreverse : (shortRaws.map framedRow).reverse.Perm (shortRaws.map framedRow) :=
      List.reverse_perm _
    refine (List.perm_append_comm.append_right _).trans ?_
    rw [List.append_assoc]
    exact hreverse.append_right _
  · show List.Forall₂ (Encodes shortCodec) shortRaws (shortRaws.map framedRow)
    refine List.forall₂_map_right_iff.2 (List.forall₂_same.2 fun r hr => ?_)
    have hmem := List.mem_cons_of_mem otherRaw hr
    exact encodes_short hmem (hunique r hmem)
  · intro row hrow
    simp only [List.mem_cons, List.not_mem_nil, or_false] at hrow
    rcases hrow with rfl | rfl
    · exact .unframed (Or.inl rfl)
    · exact .other otherRaw (encodes_short List.mem_cons_self (hunique _ List.mem_cons_self))
        (by decide)

end K2.Capture
