import Mathlib.Data.List.Dedup
import Mathlib.Data.List.MinMax
import Mathlib.Data.List.Nodup
import Mathlib.Order.Basic

/-!
# Tables that keep the newest row of a key

Rows are inserted in blocks, each of which makes a part of the table.  Now and then some parts are
merged into one, which keeps a single row of each key, one of largest version; an insert may do that
to its own block, and a read does it to all the parts.

* `collapsed_of_reached` — a read collapses what was inserted, whatever was merged on the way.
* `Collapsed.perm` — two collapses agree on what the rows of one key and version agree on.
* `Collapsed.congr` — keys and versions count only for the comparisons they give.
-/

set_option autoImplicit false

namespace ReplacingMergeTree

variable {α κ ν : Type} [LinearOrder ν]

/-! ## Collapsing -/

section Collapsed

variable (key : α → κ) (version : α → ν)

/-- One row of largest version is kept of each key; of equal versions, any. -/
structure Collapsed (rows kept : List α) : Prop where
  mem : ∀ r ∈ kept, r ∈ rows
  newest : ∀ r ∈ rows, ∃ s ∈ kept, key s = key r ∧ version r ≤ version s
  nodup : (kept.map key).Nodup

/-- The first of the newest rows of each key. -/
def collapse [DecidableEq κ] (rows : List α) : List α :=
  (rows.map key).dedup.filterMap fun k => (rows.filter fun r => key r = k).argmax version

variable {key version} {rows rows' kept kept' : List α}

theorem mem_collapse [DecidableEq κ] {r : α} (h : r ∈ collapse key version rows) :
    (rows.filter fun s => key s = key r).argmax version = some r := by
  obtain ⟨k, _, hr⟩ := List.mem_filterMap.1 h
  have hkey : key r = k := of_decide_eq_true (List.mem_filter.1 (List.argmax_mem hr)).2
  rwa [hkey]

theorem collapsed_collapse [DecidableEq κ] (rows : List α) :
    Collapsed key version rows (collapse key version rows) where
  mem := fun r hr => List.mem_of_mem_filter (List.argmax_mem (mem_collapse hr))
  newest := by
    intro r hr
    have hmem : r ∈ rows.filter fun s => key s = key r :=
      List.mem_filter.2 ⟨hr, decide_eq_true rfl⟩
    cases hbest : (rows.filter fun s => key s = key r).argmax version with
    | none =>
      rw [List.argmax_eq_none.1 hbest] at hmem
      exact absurd hmem List.not_mem_nil
    | some s =>
      have hkey : key s = key r := of_decide_eq_true (List.mem_filter.1 (List.argmax_mem hbest)).2
      refine ⟨s, List.mem_filterMap.2 ⟨key r, ?_, hbest⟩, hkey, List.le_of_mem_argmax hmem hbest⟩
      exact List.mem_dedup.2 (List.mem_map_of_mem hr)
  nodup := by
    unfold collapse
    refine List.Nodup.map_on ?_ ?_
    · intro r hr s hs hkey
      have hr' := mem_collapse hr
      rw [hkey, mem_collapse hs] at hr'
      exact (Option.some.inj hr').symm
    · refine (List.nodup_dedup _).filterMap fun k k' r hk hk' => ?_
      have h := of_decide_eq_true (List.mem_filter.1 (List.argmax_mem hk)).2
      exact h.symm.trans (of_decide_eq_true (List.mem_filter.1 (List.argmax_mem hk')).2)

/-- Which rows there are decides, and not how often or in what order. -/
theorem Collapsed.of_mem_iff (h : Collapsed key version rows kept)
    (hmem : ∀ r, r ∈ rows ↔ r ∈ rows') : Collapsed key version rows' kept where
  mem := fun r hr => (hmem r).1 (h.mem r hr)
  newest := fun r hr => h.newest r ((hmem r).2 hr)
  nodup := h.nodup

/-- The row of a key that was kept is as new as any. -/
theorem Collapsed.le {r s : α} (h : Collapsed key version rows kept) (hr : r ∈ rows) (hs : s ∈ kept)
    (hkey : key s = key r) : version r ≤ version s := by
  obtain ⟨s', hs', hkey', hle⟩ := h.newest r hr
  rwa [← List.inj_on_of_nodup_map h.nodup hs' hs (hkey'.trans hkey.symm)]

theorem Collapsed.perm {β : Type} {f : α → β} (h : Collapsed key version rows kept)
    (h' : Collapsed key version rows kept')
    (hf : ∀ r ∈ rows, ∀ s ∈ rows, key r = key s → version r = version s → f r = f s)
    (hdistinct : ∀ r ∈ rows, ∀ s ∈ rows, f r = f s → key r = key s) :
    (kept.map f).Perm (kept'.map f) := by
  have hnodup : ∀ {kept}, Collapsed key version rows kept → (kept.map f).Nodup := fun {kept} h =>
    (List.Nodup.of_map key h.nodup).map_on fun r hr s hs heq =>
      List.inj_on_of_nodup_map h.nodup hr hs (hdistinct r (h.mem r hr) s (h.mem s hs) heq)
  have hsub : ∀ {kept kept'}, Collapsed key version rows kept → Collapsed key version rows kept' →
      ∀ b, b ∈ kept.map f → b ∈ kept'.map f := by
    rintro kept kept' h h' b hb
    obtain ⟨r, hr, rfl⟩ := List.mem_map.1 hb
    obtain ⟨s, hs, hkey, hle⟩ := h'.newest r (h.mem r hr)
    have hge : version s ≤ version r := h.le (h'.mem s hs) hr hkey.symm
    exact List.mem_map.2 ⟨s, hs, hf s (h'.mem s hs) r (h.mem r hr) hkey (le_antisymm hge hle)⟩
  exact (List.perm_ext_iff_of_nodup (hnodup h) (hnodup h')).2 fun b =>
    ⟨hsub h h' b, hsub h' h b⟩

/-- Other keys and versions, that compare the rows as these do. -/
theorem Collapsed.congr {κ' ν' : Type} [LinearOrder ν'] {key' : α → κ'} {version' : α → ν'}
    (h : Collapsed key version rows kept)
    (hkey : ∀ r ∈ rows, ∀ s ∈ rows, key r = key s ↔ key' r = key' s)
    (hversion : ∀ r ∈ rows, ∀ s ∈ rows, version r ≤ version s → version' r ≤ version' s) :
    Collapsed key' version' rows kept where
  mem := h.mem
  newest := by
    intro r hr
    obtain ⟨s, hs, hk, hle⟩ := h.newest r hr
    exact ⟨s, hs, (hkey s (h.mem s hs) r hr).1 hk, hversion r hr s (h.mem s hs) hle⟩
  nodup := (List.Nodup.of_map key h.nodup).map_on fun r hr s hs hk =>
    List.inj_on_of_nodup_map h.nodup hr hs ((hkey r (h.mem r hr) s (h.mem s hs)).2 hk)

/-- Of a table that is copied again and again what was copied last is read, when each row that was
    ever copied is there still or has a later one in its place. -/
theorem Collapsed.perm_current {current : List α} (h : Collapsed key version rows kept)
    (hcurrent : ∀ c ∈ current, c ∈ rows) (hnodup : (current.map key).Nodup)
    (hreplaced : ∀ r ∈ rows, ∃ c ∈ current, key c = key r ∧ (r = c ∨ version r < version c)) :
    kept.Perm current := by
  have hsub : ∀ r ∈ kept, r ∈ current := by
    intro r hr
    obtain ⟨c, hc, hkey, heq | hlt⟩ := hreplaced r (h.mem r hr)
    · rwa [heq]
    · exact absurd (h.le (hcurrent c hc) hr hkey.symm) (not_le.2 hlt)
  refine (List.perm_ext_iff_of_nodup (List.Nodup.of_map key h.nodup)
    (List.Nodup.of_map key hnodup)).2 fun r => ⟨hsub r, fun hr => ?_⟩
  obtain ⟨s, hs, hkey, _⟩ := h.newest r (hcurrent r hr)
  rwa [← List.inj_on_of_nodup_map hnodup (hsub s hs) hr hkey]

/-- The rows may be stored with more columns. -/
theorem Collapsed.of_map {β : Type} {f : α → β} {g : β → α} (hg : ∀ a, g (f a) = a)
    {key : β → κ} {version : β → ν} {kept : List β}
    (h : Collapsed key version (rows.map f) kept) :
    Collapsed (fun a => key (f a)) (fun a => version (f a)) rows (kept.map g) := by
  have hstored : ∀ b ∈ kept, g b ∈ rows ∧ f (g b) = b := by
    intro b hb
    obtain ⟨a, ha, rfl⟩ := List.mem_map.1 (h.mem b hb)
    rw [hg]
    exact ⟨ha, rfl⟩
  constructor
  · intro a ha
    obtain ⟨b, hb, rfl⟩ := List.mem_map.1 ha
    exact (hstored b hb).1
  · intro a ha
    obtain ⟨b, hb, hkey, hle⟩ := h.newest (f a) (List.mem_map_of_mem ha)
    refine ⟨g b, List.mem_map_of_mem hb, ?_⟩
    simp only [(hstored b hb).2]
    exact ⟨hkey, hle⟩
  · rw [List.map_map]
    have hkeys : kept.map ((fun a => key (f a)) ∘ g) = kept.map key :=
      List.map_congr_left fun b hb => congrArg key (hstored b hb).2
    rw [hkeys]
    exact h.nodup

end Collapsed

/-! ## Parts -/

section Parts

variable (key : α → κ) (version : α → ν)

/-- The parts that the table may have once these blocks have been inserted. -/
inductive Reached : List (List α) → List (List α) → Prop
  | start : Reached [] []
  | insert {blocks parts : List (List α)} (block : List α) :
      Reached blocks parts → Reached (blocks ++ [block]) (parts ++ [block])
  | insertCollapsed {blocks parts : List (List α)} {block part : List α} :
      Reached blocks parts → Collapsed key version block part →
        Reached (blocks ++ [block]) (parts ++ [part])
  | merge {blocks parts chosen rest : List (List α)} {part : List α} :
      Reached blocks parts → parts.Perm (chosen ++ rest) →
        Collapsed key version chosen.flatten part → Reached blocks (rest ++ [part])

/-- No row was made up, and none is gone that was newer than what is left of its key. -/
structure Covers (rows stored : List α) : Prop where
  mem : ∀ r ∈ stored, r ∈ rows
  newest : ∀ r ∈ rows, ∃ s ∈ stored, key s = key r ∧ version r ≤ version s

variable {key version} {rows stored : List α} {blocks parts : List (List α)}

theorem Covers.refl (rows : List α) : Covers key version rows rows :=
  ⟨fun _ h => h, fun r hr => ⟨r, hr, rfl, le_rfl⟩⟩

theorem Collapsed.covers {kept : List α} (h : Collapsed key version rows kept) :
    Covers key version rows kept :=
  ⟨h.mem, h.newest⟩

theorem Covers.trans {kept : List α} (h : Covers key version rows stored)
    (h' : Covers key version stored kept) : Covers key version rows kept where
  mem := fun r hr => h.mem r (h'.mem r hr)
  newest := by
    intro r hr
    obtain ⟨s, hs, hkey, hle⟩ := h.newest r hr
    obtain ⟨t, ht, hkey', hle'⟩ := h'.newest s hs
    exact ⟨t, ht, hkey'.trans hkey, hle.trans hle'⟩

theorem Covers.append {rows' stored' : List α} (h : Covers key version rows stored)
    (h' : Covers key version rows' stored') :
    Covers key version (rows ++ rows') (stored ++ stored') where
  mem := by
    intro r hr
    rcases List.mem_append.1 hr with hr | hr
    · exact List.mem_append_left _ (h.mem r hr)
    · exact List.mem_append_right _ (h'.mem r hr)
  newest := by
    intro r hr
    rcases List.mem_append.1 hr with hr | hr
    · obtain ⟨s, hs, hnew⟩ := h.newest r hr
      exact ⟨s, List.mem_append_left _ hs, hnew⟩
    · obtain ⟨s, hs, hnew⟩ := h'.newest r hr
      exact ⟨s, List.mem_append_right _ hs, hnew⟩

theorem Covers.of_perm {stored' : List α} (h : Covers key version rows stored)
    (hperm : stored.Perm stored') : Covers key version rows stored' where
  mem := fun r hr => h.mem r (hperm.mem_iff.2 hr)
  newest := fun r hr => (h.newest r hr).imp fun _ hs => ⟨hperm.mem_iff.1 hs.1, hs.2⟩

theorem covers_of_reached (h : Reached key version blocks parts) :
    Covers key version blocks.flatten parts.flatten := by
  induction h with
  | start => exact Covers.refl []
  | insert block _ ih =>
    rw [List.flatten_append, List.flatten_append]
    exact ih.append (Covers.refl _)
  | @insertCollapsed _ _ _ _ _ hpart ih =>
    rw [List.flatten_append, List.flatten_append]
    refine ih.append ?_
    simpa using hpart.covers
  | @merge _ parts chosen rest part _ hperm hpart ih =>
    have hflat : parts.flatten.Perm (rest.flatten ++ chosen.flatten) :=
      (hperm.flatten.trans (by rw [List.flatten_append])).trans List.perm_append_comm
    rw [List.flatten_append]
    refine (ih.of_perm hflat).trans ((Covers.refl _).append ?_)
    simpa using hpart.covers

/-- **A read collapses what was inserted**, whatever was merged before it. -/
theorem collapsed_of_reached {kept : List α} (h : Reached key version blocks parts)
    (hread : Collapsed key version parts.flatten kept) :
    Collapsed key version blocks.flatten kept where
  mem := ((covers_of_reached h).trans hread.covers).mem
  newest := ((covers_of_reached h).trans hread.covers).newest
  nodup := hread.nodup

end Parts

end ReplacingMergeTree
