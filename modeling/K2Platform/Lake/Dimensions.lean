import K2Platform.Lake.Instruments
import K2Platform.Lake.Scd2

/-!
# The security master

The two dimensions of `gold.py` and the rows `load_dims` builds for them from the registry and
from Kraken's published attributes.

* `instrumentRow_lists`, `venueRow_lists` — every row built is one its dimension accepts: it
  names its own key, carries the surrogate of that key, and is subscribed.
* `loadDims_lists` — the keys with a row are those the registry lists.
-/

set_option autoImplicit false

namespace K2.Lake

open Scd2

/-! ## The dimensions -/

section Dimensions

variable (sha256 : String → String)

def Scd2.NaturalKey.parts (k : NaturalKey) : List String := k.map Cell.serialise

/-- `DIM_INSTRUMENT_TRACKED`. -/
def DIM_INSTRUMENT_TRACKED : List String :=
  ["symbol", "base", "quote", "book_depth", "subscribed", "tick_size", "qty_increment",
    "price_precision", "qty_precision", "venue_status", "source"]

def DIM_VENUE_TRACKED : List String := ["book_depth", "instruments", "subscribed", "source"]

/-- `DIM_INSTRUMENT_COLUMNS` without the columns of `BOOKKEEPING`. -/
def DIM_INSTRUMENT_COLUMNS : List String :=
  ["instrument_id", "exchange", "canonical_symbol"] ++ DIM_INSTRUMENT_TRACKED

def DIM_VENUE_COLUMNS : List String := ["venue_id", "exchange"] ++ DIM_VENUE_TRACKED

theorem nodup_instrument_columns : DIM_INSTRUMENT_COLUMNS.Nodup := by decide

theorem nodup_venue_columns : DIM_VENUE_COLUMNS.Nodup := by decide

def DIM_INSTRUMENT : Dimension where
  keyCols := ["exchange", "canonical_symbol"]
  identity := fun k =>
    ("instrument_id", .str (surrogate sha256 k.parts)) :: ["exchange", "canonical_symbol"].zip k
  tracked := DIM_INSTRUMENT_TRACKED
  subscribed_tracked := by decide
  subscribed_notKey := by decide

def DIM_VENUE : Dimension where
  keyCols := ["exchange"]
  identity := fun k => ("venue_id", .str (surrogate sha256 k.parts)) :: ["exchange"].zip k
  tracked := DIM_VENUE_TRACKED
  subscribed_tracked := by decide
  subscribed_notKey := by decide

end Dimensions

/-! ## The rows -/

inductive DimsError where
  /-- No book depth for the venue in `_VENUE_DEPTH`. -/
  | venueDepth (exchange : String)
  /-- `base, quote = canon.split("/")` on a symbol with another number of parts. -/
  | split (canon : String)
  deriving DecidableEq, Repr

def VENUE_DEPTH : List (String × Int) := [("binance", 20), ("kraken", 25), ("coinbase", 0)]

def venueDepth (exchange : String) : Except DimsError Int :=
  match VENUE_DEPTH.lookup exchange with
  | some depth => .ok depth
  | none => .error (.venueDepth exchange)

section Rows

variable (sha256 : String → String)

/-- `venue` is what Kraken publishes of the pair, empty when it does not. -/
def instrumentRow (exchange native canon base quote : String) (depth : Int) (venue : Attributes) :
    Attributes :=
  Dict.ofItems [
    ("instrument_id", .str (surrogate sha256 [exchange, canon])),
    ("exchange", .str exchange),
    ("canonical_symbol", .str canon),
    ("symbol", .str native),
    ("base", .str base),
    ("quote", .str quote),
    ("book_depth", .int depth),
    ("subscribed", .bool true),
    ("tick_size", venue.cell "tick_size"),
    ("qty_increment", venue.cell "qty_increment"),
    ("price_precision", venue.cell "price_precision"),
    ("qty_precision", venue.cell "qty_precision"),
    ("venue_status", venue.cell "venue_status"),
    ("source", .str (if venue.entries = [] then "registry" else "venue:kraken"))]

def venueRow (exchange : String) (depth : Int) (instruments : Nat) : Attributes :=
  Dict.ofItems [
    ("venue_id", .str (surrogate sha256 [exchange])),
    ("exchange", .str exchange),
    ("book_depth", .int depth),
    ("instruments", .int instruments),
    ("subscribed", .bool true),
    ("source", .str "registry")]

/-- A row whose first items identify it and whose other items are the tracked ones. -/
theorem lists_ofItems {dim : Dimension} {k : NaturalKey} {items : List (String × Cell)}
    (hnodup : ((dim.identity k ++ items).map Prod.fst).Nodup)
    (htracked : items.map Prod.fst = dim.tracked)
    (hkey : dim.keyCols.map (fun f => ((dim.identity k ++ items).lookup f).getD .null) = k)
    (hsub : items.lookup "subscribed" = some (.bool true)) :
    dim.Lists k (Dict.ofItems (dim.identity k ++ items)) := by
  have hget : ∀ f, (Dict.ofItems (dim.identity k ++ items)).get? f =
      (dim.identity k ++ items).lookup f := Dict.get?_ofItems hnodup
  refine ⟨?_, fun f hf => ?_, ?_⟩
  · refine Eq.trans (List.map_congr_left fun f _ => ?_) hkey
    rw [Attributes.cell, Dict.getD, hget]
  · have hnone : items.lookup f = none :=
      Assoc.lookup_eq_none_iff_notMem.2 (htracked ▸ hf)
    rw [hget, List.lookup_append, hnone, Option.or_none]
  · have hnot : (dim.identity k).lookup "subscribed" = none := by
      refine Assoc.lookup_eq_none_iff_notMem.2 fun hmem => ?_
      rw [List.map_append, List.nodup_append] at hnodup
      exact hnodup.2.2 _ hmem _ (htracked ▸ dim.subscribed_tracked) rfl
    rw [Attributes.subscribed, Attributes.cell, Dict.getD, hget, List.lookup_append, hnot, hsub]
    rfl

theorem instrumentRow_lists (exchange native canon base quote : String) (depth : Int)
    (venue : Attributes) :
    (DIM_INSTRUMENT sha256).Lists [.str exchange, .str canon]
      (instrumentRow sha256 exchange native canon base quote depth venue) :=
  lists_ofItems (k := [.str exchange, .str canon])
    nodup_instrument_columns rfl rfl rfl

theorem venueRow_lists (exchange : String) (depth : Int) (instruments : Nat) :
    (DIM_VENUE sha256).Lists [.str exchange] (venueRow sha256 exchange depth instruments) :=
  lists_ofItems (k := [.str exchange]) nodup_venue_columns rfl rfl rfl

/-! ## `load_dims` -/

/-- `base, quote = canon.split("/")`. -/
def baseQuote (canon : String) : Except DimsError (String × String) :=
  match canon.splitOn "/" with
  | [base, quote] => .ok (base, quote)
  | _ => .error (.split canon)

abbrev DimRows := Current (DIM_INSTRUMENT sha256) × Current (DIM_VENUE sha256)

variable (pairs : Dict String Attributes)

/-- The rows of one instrument of one venue. -/
def loadInstrument (exchange : String) (acc : Current (DIM_INSTRUMENT sha256))
    (entry : String × String) : Except DimsError (Current (DIM_INSTRUMENT sha256)) := do
  let (base, quote) ← baseQuote entry.2
  let venue := if exchange = "kraken" then pairs.getD entry.1 Dict.empty else Dict.empty
  let depth ← venueDepth exchange
  return acc.insert _ _ (instrumentRow_lists sha256 exchange entry.1 entry.2 base quote depth venue)

def loadVenue (acc : DimRows sha256) (entry : String × Dict String String) :
    Except DimsError (DimRows sha256) := do
  let instruments ← entry.2.entries.foldlM (loadInstrument sha256 pairs entry.1) acc.1
  let depth ← venueDepth entry.1
  return (instruments,
    acc.2.insert _ _ (venueRow_lists sha256 entry.1 depth entry.2.entries.length))

/-- What `load_dims` merges into the two tables. -/
def loadDims (reg : Registry) : Except DimsError (DimRows sha256) :=
  reg.entries.foldlM (loadVenue sha256 pairs) (Current.empty, Current.empty)

/-- A fold that adds keys to what is listed, as long as it does not fail. -/
theorem listed_foldlM {α β κ : Type} {f : β → α → Except DimsError β} {listed : β → κ → Prop}
    {adds : α → κ → Prop}
    (hstep : ∀ b a b', f b a = .ok b' → ∀ k, listed b' k ↔ listed b k ∨ adds a k) :
    ∀ (l : List α) {b r : β}, l.foldlM f b = .ok r →
      ∀ k, listed r k ↔ listed b k ∨ ∃ a ∈ l, adds a k
  | [], b, r, h, k => by
    cases h
    simp
  | a :: l, b, r, h, k => by
    rw [List.foldlM_cons] at h
    cases hb : f b a with
    | error e =>
      rw [hb] at h
      cases h
    | ok b' =>
      rw [hb] at h
      rw [listed_foldlM hstep l h k, hstep b a b' hb k, List.exists_mem_cons_iff, or_assoc]

variable {sha256 pairs} in
theorem loadInstrument_lists {exchange : String} {acc acc' : Current (DIM_INSTRUMENT sha256)}
    {entry : String × String} (h : loadInstrument sha256 pairs exchange acc entry = .ok acc')
    (k : NaturalKey) :
    (acc'.rows.get? k).isSome ↔
      (acc.rows.get? k).isSome ∨ k = [.str exchange, .str entry.2] := by
  unfold loadInstrument at h
  cases hsplit : baseQuote entry.2 with
  | error e =>
    rw [hsplit] at h
    cases h
  | ok parts =>
    cases hdepth : venueDepth exchange with
    | error e =>
      rw [hsplit, hdepth] at h
      cases h
    | ok depth =>
      rw [hsplit, hdepth] at h
      cases h
      rw [Current.insert, Dict.get?_insert]
      split
      · rename_i heq
        exact iff_of_true rfl (Or.inr heq)
      · rename_i hne
        exact (or_iff_left hne).symm

variable {sha256 pairs} in
theorem loadVenue_lists {acc acc' : DimRows sha256} {e : String × Dict String String}
    (h : loadVenue sha256 pairs acc e = .ok acc') (k : NaturalKey) :
    ((acc'.1.rows.get? k).isSome ↔ (acc.1.rows.get? k).isSome ∨
      ∃ n ∈ e.2.entries, k = [.str e.1, .str n.2]) ∧
    ((acc'.2.rows.get? k).isSome ↔ (acc.2.rows.get? k).isSome ∨ k = [.str e.1]) := by
  unfold loadVenue at h
  cases hinstruments : e.2.entries.foldlM (loadInstrument sha256 pairs e.1) acc.1 with
  | error err =>
    rw [hinstruments] at h
    cases h
  | ok instruments =>
    cases hdepth : venueDepth e.1 with
    | error err =>
      rw [hinstruments, hdepth] at h
      cases h
    | ok depth =>
      rw [hinstruments, hdepth] at h
      cases h
      refine ⟨listed_foldlM (fun _ _ _ h => loadInstrument_lists h) _ hinstruments k, ?_⟩
      simp only [Current.insert, Dict.get?_insert]
      split
      · rename_i heq
        exact iff_of_true rfl (Or.inr heq)
      · rename_i hne
        exact (or_iff_left hne).symm

variable {sha256 pairs} in
/-- **`load_dims` lists what the registry lists**, if it does not fail. -/
theorem loadDims_lists {reg : Registry} {dims : DimRows sha256}
    (h : loadDims sha256 pairs reg = .ok dims) (k : NaturalKey) :
    ((dims.1.rows.get? k).isSome ↔ ∃ e ∈ reg.entries, ∃ n ∈ e.2.entries,
      k = [.str e.1, .str n.2]) ∧
    ((dims.2.rows.get? k).isSome ↔ ∃ e ∈ reg.entries, k = [.str e.1]) := by
  have hnone : (Dict.empty.get? k : Option Attributes).isSome = true ↔ False := by
    simp
  constructor
  · have hall : (dims.1.rows.get? k).isSome ↔ (Dict.empty.get? k : Option Attributes).isSome ∨
        ∃ e ∈ reg.entries, ∃ n ∈ e.2.entries, k = [.str e.1, .str n.2] :=
      listed_foldlM (f := loadVenue sha256 pairs)
        (fun _ _ _ hload k => (loadVenue_lists hload k).1) _ h k
    rwa [hnone, false_or] at hall
  · have hall : (dims.2.rows.get? k).isSome ↔ (Dict.empty.get? k : Option Attributes).isSome ∨
        ∃ e ∈ reg.entries, k = [.str e.1] :=
      listed_foldlM (f := loadVenue sha256 pairs)
        (fun _ _ _ hload k => (loadVenue_lists hload k).2) _ h k
    rwa [hnone, false_or] at hall

end Rows

end K2.Lake
