import Mathlib.Algebra.Order.Ring.Int
import Mathlib.Data.List.Nodup
import Mathlib.Data.List.Pairwise

/-!
# Numbering the elements of a list of lists

The elements of blocks, some of which are missing, numbered through by a running offset that each
block moves on by its size; a missing block has size -1.

* `number_eq_iff` — the numbers are the positions in the flattened list exactly where no element
  comes after a missing block.
-/

set_option autoImplicit false

namespace FlatIndex

variable {α : Type}

/-- The elements, numbered from `base`. -/
def numberFrom : Int → List α → List (α × Int)
  | _, [] => []
  | base, a :: l => (a, base) :: numberFrom (base + 1) l

def size : Option (List α) → Int
  | none => -1
  | some l => l.length

/-- The elements of the blocks, those of the first numbered from `base`. -/
def number : Int → List (Option (List α)) → List (α × Int)
  | _, [] => []
  | base, b :: blocks => numberFrom base (b.getD []) ++ number (base + size b) blocks

def flatten (blocks : List (Option (List α))) : List α := blocks.flatMap fun b => b.getD []

theorem numberFrom_append (base : Int) (l l' : List α) :
    numberFrom base (l ++ l') = numberFrom base l ++ numberFrom (base + l.length) l' := by
  induction l generalizing base with
  | nil => simp [numberFrom]
  | cons a l ih =>
    have hbase : base + 1 + l.length = base + (a :: l).length := by
      rw [List.length_cons]
      push_cast
      omega
    rw [List.cons_append, numberFrom, ih, hbase]
    rfl

theorem zipIdx_map_eq_numberFrom (base : Int) (l : List α) (k : Nat) :
    (l.zipIdx k).map (fun p => (p.1, base + (p.2 : Int))) = numberFrom (base + k) l := by
  induction l generalizing k with
  | nil => rfl
  | cons a l ih =>
    have hnext : base + ((k + 1 : Nat) : Int) = base + k + 1 := by
      push_cast
      omega
    rw [List.zipIdx_cons, List.map_cons, ih, hnext]
    rfl

theorem length_numberFrom (base : Int) (l : List α) : (numberFrom base l).length = l.length := by
  induction l generalizing base with
  | nil => rfl
  | cons a l ih => rw [numberFrom, List.length_cons, ih, List.length_cons]

theorem length_number (base : Int) (blocks : List (Option (List α))) :
    (number base blocks).length = (flatten blocks).length := by
  induction blocks generalizing base with
  | nil => rfl
  | cons b blocks ih =>
    have hflat : flatten (b :: blocks) = b.getD [] ++ flatten blocks := List.flatMap_cons
    rw [number, List.length_append, length_numberFrom, ih, hflat, List.length_append]

/-- No number is larger than its place, counted from `base`. -/
theorem head_number_le {base : Int} {blocks : List (Option (List α))} {p : α × Int}
    {rest : List (α × Int)} (h : number base blocks = p :: rest) : p.2 ≤ base := by
  induction blocks generalizing base with
  | nil => cases h
  | cons b blocks ih =>
    rw [number] at h
    match b with
    | none =>
      have hle := ih h
      rw [size] at hle
      omega
    | some [] =>
      have hle := ih h
      rw [size, List.length_nil, Int.natCast_zero, Int.add_zero] at hle
      exact hle
    | some (a :: l) =>
      cases h
      exact le_rfl

theorem flatten_eq_nil_iff {blocks : List (Option (List α))} :
    flatten blocks = [] ↔ ∀ b ∈ blocks, b.getD [] = [] :=
  List.flatMap_eq_nil_iff

theorem number_eq_iff (base : Int) (blocks : List (Option (List α))) :
    number base blocks = numberFrom base (flatten blocks) ↔
      blocks.Pairwise fun b c => b = none → c.getD [] = [] := by
  induction blocks generalizing base with
  | nil => exact iff_of_true rfl List.Pairwise.nil
  | cons b blocks ih =>
    rw [List.pairwise_cons]
    cases b with
    | none =>
      have hrest : number base (none :: blocks) = number (base - 1) blocks := rfl
      have hflat : flatten (none :: blocks) = flatten blocks := rfl
      rw [hrest, hflat]
      by_cases hnil : flatten blocks = []
      · have hempty := flatten_eq_nil_iff.1 hnil
        have hnone : number (base - 1) blocks = [] :=
          List.eq_nil_of_length_eq_zero (by rw [length_number, hnil, List.length_nil])
        rw [hnone, hnil]
        refine iff_of_true rfl ⟨fun c hc _ => hempty c hc, ?_⟩
        exact List.pairwise_of_forall_mem_list fun b _ c hc _ => hempty c hc
      · -- the first element after the missing block has a number below its position
        refine iff_of_false (fun h => ?_) fun h => hnil (flatten_eq_nil_iff.2 fun c hc =>
          h.1 c hc rfl)
        obtain ⟨a, l, hcons⟩ := List.exists_cons_of_ne_nil hnil
        rw [hcons, numberFrom] at h
        have hle := head_number_le h
        omega
    | some l =>
      have hflat : flatten (some l :: blocks) = l ++ flatten blocks := rfl
      have hrest : number base (some l :: blocks) =
          numberFrom base l ++ number (base + l.length) blocks := rfl
      rw [hflat, hrest, numberFrom_append, List.append_cancel_left_eq, ih]
      exact (and_iff_right fun c _ h => by cases h).symm

/-! ## The running offset -/

/-- The offset of the `i`-th block. -/
def offset (blocks : List (Option (List α))) (i : Nat) : Int := ((blocks.take i).map size).sum

theorem offset_cons (b : Option (List α)) (blocks : List (Option (List α))) (i : Nat) :
    offset (b :: blocks) (i + 1) = size b + offset blocks i := by
  rw [offset, List.take_succ_cons, List.map_cons, List.sum_cons, offset]

theorem offset_bounds (blocks : List (Option (List α))) (i : Nat) :
    -(blocks.length : Int) ≤ offset blocks i ∧
      offset blocks i ≤ ((flatten blocks).length : Int) := by
  induction blocks generalizing i with
  | nil =>
    rw [offset, List.take_nil]
    exact ⟨le_rfl, le_rfl⟩
  | cons b blocks ih =>
    have hflat : (flatten (b :: blocks)).length =
        (b.getD []).length + (flatten blocks).length := by
      rw [flatten, List.flatMap_cons, List.length_append, flatten]
    rw [hflat, List.length_cons]
    cases i with
    | zero =>
      rw [offset, List.take_zero, List.map_nil, List.sum_nil]
      omega
    | succ i =>
      obtain ⟨hlow, hhigh⟩ := ih i
      rw [offset_cons]
      cases b with
      | none =>
        simp only [size, Option.getD_none, List.length_nil]
        omega
      | some l =>
        simp only [size, Option.getD_some]
        omega

theorem offset_succ {blocks : List (Option (List α))} {i : Nat} {b : Option (List α)}
    (h : blocks[i]? = some b) : offset blocks (i + 1) = offset blocks i + size b := by
  rw [offset, List.take_add_one, h, Option.toList_some, List.map_append, List.sum_append,
    List.map_singleton, List.sum_singleton, offset]

theorem flatMap_zipIdx_eq_number (before after : List (Option (List α))) :
    ((after.zipIdx before.length).flatMap fun p =>
        numberFrom (offset (before ++ after) p.2) (p.1.getD [])) =
      number (before.map size).sum after := by
  induction after generalizing before with
  | nil => rfl
  | cons b after ih =>
    have hoffset : offset (before ++ b :: after) before.length = (before.map size).sum := by
      rw [offset, List.take_left]
    have hnext := ih (before ++ [b])
    rw [List.append_assoc, List.singleton_append, List.length_append, List.length_singleton,
      List.map_append, List.sum_append, List.map_singleton, List.sum_singleton] at hnext
    rw [List.zipIdx_cons, List.flatMap_cons, hnext, hoffset, number]

end FlatIndex
