import Mathlib.Data.String.Basic
import K2Platform.Lib.SortedMap

/-!
# The instrument registry

Model of `Instruments` of `services/capture-rust/src/config.rs`: the instruments one venue
subscribes to, in file order, and the native to canonical map built from them.  `fromList`
refuses a list with a repeated native symbol, so an `Instruments` value never has one.
-/

set_option autoImplicit false

namespace K2.Capture

structure Instrument where
  native : String
  canonical : String
  /-- Per-instrument L2 depth override; unset means the venue default. -/
  bookDepth : Option Nat
  deriving DecidableEq, Repr

/-- The map `from_list` builds by inserting the instruments in order. -/
def byNative (l : List Instrument) : SortedMap String String :=
  l.foldl (fun m i => m.insert i.native i.canonical) SortedMap.empty

structure Instruments where
  instruments : List Instrument
  unique : (instruments.map Instrument.native).Nodup

namespace Instruments

/-- The first native symbol that an earlier instrument already has. -/
def firstDuplicate : List Instrument → List String → Option String
  | [], _ => none
  | i :: is, seen => if i.native ∈ seen then some i.native else firstDuplicate is (i.native :: seen)

theorem nodup_of_firstDuplicate :
    ∀ {l : List Instrument} {seen : List String}, firstDuplicate l seen = none →
      (l.map Instrument.native).Nodup ∧ ∀ n ∈ l.map Instrument.native, n ∉ seen
  | [], _, _ => by simp
  | i :: is, seen, h => by
    unfold firstDuplicate at h
    split at h
    · cases h
    · rename_i hi
      obtain ⟨hnd, hseen⟩ := nodup_of_firstDuplicate h
      rw [List.map_cons, List.nodup_cons]
      refine ⟨⟨fun hmem => hseen _ hmem List.mem_cons_self, hnd⟩, fun n hn => ?_⟩
      rcases List.mem_cons.1 hn with rfl | hn
      · exact hi
      · exact fun hs => hseen n hn (List.mem_cons_of_mem _ hs)

def fromList (l : List Instrument) : Except String Instruments :=
  match h : firstDuplicate l [] with
  | some n => .error s!"native symbol {n} is listed twice"
  | none => .ok ⟨l, (nodup_of_firstDuplicate h).1⟩

def natives (i : Instruments) : List String := i.instruments.map Instrument.native

/-- Native to canonical; `none` is an instrument nobody subscribed to. -/
def canonical (i : Instruments) (native : String) : Option String :=
  (byNative i.instruments).get? native

end Instruments

end K2.Capture
