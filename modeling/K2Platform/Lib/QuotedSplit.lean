import Mathlib.Data.List.Basic

/-!
# Splitting outside quotations

A text is a list of symbols, one of which opens and closes quotations.  It is split at every
separator that is outside them, so at those with an even number of quotes before.

* `intercalate_split` — the parts, with separators between them, are the text.
* `split_append_sep` — a part that is whole and closed is split off.
* `whole_of_mem_split`, `closed_of_mem_split` — every part is whole, and closed if the text is.
-/

set_option autoImplicit false

namespace QuotedSplit

variable {α : Type} [DecidableEq α]

/-- Whether a quotation is open after the symbol. -/
def toggle (quote : α) (inside : Bool) (c : α) : Bool := if c = quote then !inside else inside

/-- Whether a quotation is open after the text. -/
def endsInside (quote : α) (inside : Bool) (l : List α) : Bool := l.foldl (toggle quote) inside

/-- The parts between the separators that are outside quotations. -/
def split (quote sep : α) : Bool → List α → List (List α)
  | _, [] => [[]]
  | inside, c :: cs =>
    if c = sep ∧ inside = false then [] :: split quote sep false cs
    else (split quote sep (toggle quote inside c) cs).modifyHead (c :: ·)

/-- No separator is outside a quotation. -/
def Whole (quote sep : α) : Bool → List α → Prop
  | _, [] => True
  | inside, c :: cs => ¬ (c = sep ∧ inside = false) ∧ Whole quote sep (toggle quote inside c) cs

variable {quote sep : α} {inside : Bool} {l l' : List α}

@[simp] theorem endsInside_nil : endsInside quote inside [] = inside := rfl

@[simp] theorem endsInside_cons (c : α) :
    endsInside quote inside (c :: l) = endsInside quote (toggle quote inside c) l := rfl

theorem endsInside_append :
    endsInside quote inside (l ++ l') = endsInside quote (endsInside quote inside l) l' :=
  List.foldl_append

theorem endsInside_of_not_mem (h : quote ∉ l) : endsInside quote inside l = inside := by
  induction l with
  | nil => rfl
  | cons c l ih =>
    have hc : c ≠ quote := fun heq => h (heq ▸ List.mem_cons_self)
    rw [endsInside_cons, toggle, if_neg hc, ih fun hl => h (List.mem_cons_of_mem c hl)]

theorem split_sep (l : List α) :
    split quote sep false (sep :: l) = [] :: split quote sep false l := by
  rw [split, if_pos ⟨rfl, rfl⟩]

theorem split_cons {c : α} (h : ¬ (c = sep ∧ inside = false)) (l : List α) :
    split quote sep inside (c :: l) =
      (split quote sep (toggle quote inside c) l).modifyHead (c :: ·) := by
  rw [split, if_neg h]

theorem split_ne_nil (inside : Bool) (l : List α) : split quote sep inside l ≠ [] := by
  induction l generalizing inside with
  | nil => exact List.cons_ne_nil _ _
  | cons c l ih =>
    rw [split]
    split
    · exact List.cons_ne_nil _ _
    · cases hl : split quote sep (toggle quote inside c) l with
      | nil => exact absurd hl (ih _)
      | cons p ps => exact List.cons_ne_nil _ _

omit [DecidableEq α] in
theorem intercalate_modifyHead (c : α) {ps : List (List α)} (h : ps ≠ []) :
    [sep].intercalate (ps.modifyHead (c :: ·)) = c :: [sep].intercalate ps := by
  cases ps with
  | nil => exact absurd rfl h
  | cons p ps => cases ps <;> simp [List.intercalate]

variable (quote sep) in
theorem intercalate_split (inside : Bool) (l : List α) :
    [sep].intercalate (split quote sep inside l) = l := by
  induction l generalizing inside with
  | nil => rfl
  | cons c l ih =>
    rw [split]
    split
    · rename_i hsep
      cases hl : split quote sep false l with
      | nil => exact absurd hl (split_ne_nil _ _)
      | cons p ps =>
        have hrest := ih false
        rw [hl] at hrest
        rw [hsep.1, ← hrest]
        simp [List.intercalate]
    · rw [intercalate_modifyHead c (split_ne_nil _ _), ih]

omit [DecidableEq α] in
theorem mem_intercalate {c : α} {ps : List (List α)} {p : List α} (hp : p ∈ ps) (hc : c ∈ p) :
    c ∈ [sep].intercalate ps := by
  induction ps with
  | nil => exact absurd hp List.not_mem_nil
  | cons q ps ih =>
    cases ps with
    | nil =>
      rw [List.mem_singleton.1 hp] at hc
      simpa [List.intercalate] using hc
    | cons r ps =>
      have hsplit : [sep].intercalate (q :: r :: ps) = q ++ sep :: [sep].intercalate (r :: ps) := by
        simp [List.intercalate]
      rw [hsplit]
      rcases List.mem_cons.1 hp with rfl | hp
      · exact List.mem_append_left _ hc
      · exact List.mem_append_right _ (List.mem_cons_of_mem sep (ih hp))

theorem whole_append : Whole quote sep inside (l ++ l') ↔
    Whole quote sep inside l ∧ Whole quote sep (endsInside quote inside l) l' := by
  induction l generalizing inside with
  | nil => simp [Whole]
  | cons c l ih =>
    rw [List.cons_append, Whole, Whole, ih, endsInside_cons, and_assoc]

theorem whole_of_not_mem (h : sep ∉ l) : Whole quote sep inside l := by
  induction l generalizing inside with
  | nil => trivial
  | cons c l ih =>
    refine ⟨fun hc => h (hc.1 ▸ List.mem_cons_self), ih fun hl => h ?_⟩
    exact List.mem_cons_of_mem c hl

theorem split_append (h : Whole quote sep inside l) :
    split quote sep inside (l ++ l') =
      (split quote sep (endsInside quote inside l) l').modifyHead (l ++ ·) := by
  induction l generalizing inside with
  | nil =>
    rw [List.nil_append, endsInside_nil]
    cases split quote sep inside l' with
    | nil => rfl
    | cons p ps => rfl
  | cons c l ih =>
    rw [List.cons_append, split_cons h.1, ih h.2, List.modifyHead_modifyHead]
    rfl

/-- A part that is whole and closed is split off at the separator after it. -/
theorem split_append_sep (h : Whole quote sep inside l)
    (hclosed : endsInside quote inside l = false) :
    split quote sep inside (l ++ sep :: l') = l :: split quote sep false l' := by
  rw [split_append h, hclosed, split_sep, List.modifyHead_cons, List.append_nil]

variable (quote sep) in
theorem whole_of_mem_split (l : List α) : ∀ inside : Bool,
    ∃ p ps, split quote sep inside l = p :: ps ∧ Whole quote sep inside p ∧
      ∀ q ∈ ps, Whole quote sep false q := by
  induction l with
  | nil => exact fun _ => ⟨[], [], rfl, trivial, fun q hq => absurd hq List.not_mem_nil⟩
  | cons c l ih =>
    intro inside
    rw [split]
    split
    · obtain ⟨p, ps, hsplit, hp, hps⟩ := ih false
      refine ⟨[], p :: ps, by rw [hsplit], trivial, fun q hq => ?_⟩
      rcases List.mem_cons.1 hq with rfl | hq
      · exact hp
      · exact hps q hq
    · rename_i hsep
      obtain ⟨p, ps, hsplit, hp, hps⟩ := ih (toggle quote inside c)
      exact ⟨c :: p, ps, by rw [hsplit]; rfl, ⟨hsep, hp⟩, hps⟩

theorem forall_whole (l : List α) : ∀ q ∈ split quote sep false l, Whole quote sep false q := by
  obtain ⟨p, ps, hsplit, hp, hps⟩ := whole_of_mem_split quote sep l false
  rw [hsplit]
  intro q hq
  rcases List.mem_cons.1 hq with rfl | hq
  · exact hp
  · exact hps q hq

/-- The parts of a text that leaves no quotation open leave none open. -/
theorem closed_of_mem_split (hne : sep ≠ quote) (l : List α) : ∀ inside : Bool,
    endsInside quote inside l = false → ∃ p ps, split quote sep inside l = p :: ps ∧
      endsInside quote inside p = false ∧ ∀ q ∈ ps, endsInside quote false q = false := by
  induction l with
  | nil => exact fun _ h => ⟨[], [], rfl, h, fun q hq => absurd hq List.not_mem_nil⟩
  | cons c l ih =>
    intro inside h
    rw [endsInside_cons] at h
    rw [split]
    split
    · rename_i hsep
      rw [hsep.1, hsep.2, toggle, if_neg hne] at h
      obtain ⟨p, ps, hsplit, hp, hps⟩ := ih false h
      refine ⟨[], p :: ps, by rw [hsplit], hsep.2, fun q hq => ?_⟩
      rcases List.mem_cons.1 hq with rfl | hq
      · exact hp
      · exact hps q hq
    · obtain ⟨p, ps, hsplit, hp, hps⟩ := ih (toggle quote inside c) h
      exact ⟨c :: p, ps, by rw [hsplit]; rfl, hp, hps⟩

theorem forall_closed (hne : sep ≠ quote) (h : endsInside quote false l = false) :
    ∀ q ∈ split quote sep false l, endsInside quote false q = false := by
  obtain ⟨p, ps, hsplit, hp, hps⟩ := closed_of_mem_split hne l false h
  rw [hsplit]
  intro q hq
  rcases List.mem_cons.1 hq with rfl | hq
  · exact hp
  · exact hps q hq

end QuotedSplit
