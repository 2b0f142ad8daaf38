import Aletheia.EntityOps

/-!
# Point lookups

`findVersionAtTime` finds the version whose rectangle contains the point, through the temporal
index as well as along the chain: the rectangles of one entity do not overlap, so the order in which
the two paths try them does not matter.
-/

namespace Aletheia.HistoricalStorage

open List

variable {K X : Type} {k : K} {h : HistoricalStorage K X} {l : List (Version K X)}
  {v s clock : Timestamp}

lemma isVisibleAt_iff_entry {u : Version K X} :
    u.temporal.isVisibleAt v s = true ↔ u.entry.Visible v s :=
  Entry.visible_iff (r := u.entry)

lemma eq_of_visible (hwf : Timeline.WellFormed (l.map Version.entry) clock) {u w : Version K X}
    (hu : u ∈ l) (hw : w ∈ l) (hvu : u.entry.Visible v s) (hvw : w.entry.Visible v s) : u = w := by
  by_contra hne
  have : Std.Symm fun a b : Version K X => a.entry.Apart b.entry := ⟨fun _ _ h => h.symm⟩
  exact (pairwise_map.mp hwf.apart).forall hu hw hne v s hvu hvw

lemma Chain.length_le (hl : Chain h k l) : l.length ≤ h.versions.keys.card := by
  classical
  calc l.length = (l.map (·.id)).length := (length_map _).symm
    _ = (l.map (·.id)).toFinset.card := (toFinset_card_of_nodup hl.nodup).symm
    _ ≤ h.versions.keys.card := by
      refine Finset.card_le_card fun vid hvid => ?_
      obtain ⟨u, hu, rfl⟩ := mem_map.mp (mem_toFinset.mp hvid)
      exact Finmap.mem_keys.mpr (Finmap.mem_of_lookup_eq_some (hl.stored hu))

lemma walkVisible_eq : ∀ (l : List (Version K X)) (fuel : ℕ), l.length ≤ fuel →
    (∀ u ∈ l, h.getVersion u.id = some u) → Linked l → ∀ hd, l.head? = some hd →
    h.walkVisible v s fuel hd.id = (l.find? fun u => u.entry.Visible v s).map (·.id)
  | [], _, _, _, _, _, hhd => nomatch hhd
  | u :: rest, fuel, hlen, hstored, hlinked, hd, hhd => by
    obtain rfl : u = hd := Option.some.inj hhd
    rw [walkVisible, hstored u mem_cons_self]
    by_cases hvis : u.entry.Visible v s
    · simp [isVisibleAt_iff_entry.mpr hvis, hvis]
    · have hnot : u.temporal.isVisibleAt v s = false := by
        rw [Bool.eq_false_iff]
        exact mt isVisibleAt_iff_entry.mp hvis
      simp only [hnot, Bool.false_eq_true, if_false, hlinked.1, List.find?_cons, hvis, decide_false]
      cases rest with
      | nil => rfl
      | cons w rest =>
        obtain ⟨fuel, rfl⟩ : ∃ n, fuel = n + 1 := ⟨fuel - 1, by simp at hlen; omega⟩
        exact walkVisible_eq (w :: rest) fuel (by simpa using hlen)
          (fun u hu => hstored u (mem_cons_of_mem _ hu)) hlinked.2 w rfl

section Find

variable (hl : Chain h k l) (hix : Indexed h k l)
  (hwf : Timeline.WellFormed (l.map Version.entry) clock)

include hl hix hwf

/-- **A point lookup finds the visible version.** -/
theorem findVersionAtTime_eq_some_iff {vid : VersionId} :
    h.findVersionAtTime k v s = some vid ↔ ∃ u ∈ l, u.entry.Visible v s ∧ u.id = vid := by
  rcases hx : h.temporalIndexes with _ | ix
  · -- along the chain
    simp only [findVersionAtTime, hx, hl.head]
    cases l with
    | nil => simp
    | cons hd tl =>
      simp only [List.head?_cons, Option.map_some, Option.bind_some]
      rw [walkVisible_eq (hd :: tl) _ (hl.length_le.trans (Nat.le_succ _))
        (fun u hu => hl.stored hu) hl.linked hd rfl, Option.map_eq_some_iff]
      constructor
      · rintro ⟨u, hu, rfl⟩
        exact ⟨u, mem_of_find?_eq_some hu, by simpa using List.find?_some hu, rfl⟩
      · rintro ⟨u, hu, hvis, rfl⟩
        obtain ⟨w, hw⟩ : ∃ w, (hd :: tl).find? (fun u => u.entry.Visible v s) = some w :=
          Option.isSome_iff_exists.mp (List.find?_isSome.mpr ⟨u, hu, by simpa using hvis⟩)
        have hwv : w.entry.Visible v s := by simpa using List.find?_some hw
        rw [eq_of_visible hwf hu (mem_of_find?_eq_some hw) hvis hwv]
        exact ⟨w, hw, rfl⟩
  · -- through the index
    have hent := hix (ix.entries k) (by simp [indexOf, hx])
    have hmem : ∀ vid, vid ∈ ix.findVersionAtPoint k v s ↔
        ∃ u ∈ l, u.entry.Visible v s ∧ u.id = vid := by
      intro vid
      simp only [TemporalIndexes.findVersionAtPoint, hent, mem_map, mem_filter, mem_reverse]
      constructor
      · rintro ⟨_, ⟨⟨u, hu, rfl⟩, hvis⟩, rfl⟩
        exact ⟨u, hu, isVisibleAt_iff_entry.mp hvis, rfl⟩
      · rintro ⟨u, hu, hvis, rfl⟩
        exact ⟨_, ⟨⟨u, hu, rfl⟩, isVisibleAt_iff_entry.mpr hvis⟩, rfl⟩
    simp only [findVersionAtTime, hx]
    constructor
    · intro hfind
      exact (hmem vid).mp (mem_of_find?_eq_some hfind)
    · rintro ⟨u, hu, hvis, rfl⟩
      have hcand : (h.getVersion u.id).any (·.temporal.isVisibleAt v s) = true := by
        rw [hl.stored hu]
        exact isVisibleAt_iff_entry.mpr hvis
      obtain ⟨vid', hfind⟩ : ∃ vid', (ix.findVersionAtPoint k v s).find? (fun vid =>
          (h.getVersion vid).any (·.temporal.isVisibleAt v s)) = some vid' :=
        Option.isSome_iff_exists.mp (List.find?_isSome.mpr
          ⟨u.id, (hmem u.id).mpr ⟨u, hu, hvis, rfl⟩, hcand⟩)
      obtain ⟨w, hw, hwv, rfl⟩ := (hmem vid').mp (mem_of_find?_eq_some hfind)
      rwa [eq_of_visible hwf hu hw hvis hwv]

end Find

end Aletheia.HistoricalStorage
