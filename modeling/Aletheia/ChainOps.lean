import Aletheia.Chain

/-!
# Store operations on chains

`Evolves e h h' l` says that `h'` is `h` with the chain of `e` replaced by `l`. The compound
operations of the store are sequences of closings and appends, each of which evolves one chain.
-/

namespace Aletheia.HistoricalStorage

open Exec Function List Version

variable {K X : Type} {ids : List VersionId}

/-- `h'` is `h` with the chain of `e` replaced by `l`. -/
structure Evolves (e : K) (h h' : HistoricalStorage K X) (l : List (Version K X)) : Prop where
  consistent : h'.Consistent
  chain : Chain h' e l
  frame : ∀ e' ≠ e, SameOn e' h h'
  limit : h'.maxVersionsPerEntity = h.maxVersionsPerEntity
  indexLimit : h'.temporalIndexes.map (·.maxVersionsPerEntity) =
    h.temporalIndexes.map (·.maxVersionsPerEntity)

variable {e : K} {h h' h'' : HistoricalStorage K X} {l l' : List (Version K X)}
  {v w prev : Version K X} {c : Timestamp} {vid : VersionId} {t : BiTemporalInterval}
  {content : Content X}

lemma Evolves.refl (hcons : h.Consistent) (hl : Chain h e l) : Evolves e h h l :=
  ⟨hcons, hl, fun _ _ => .refl h, rfl, rfl⟩

lemma Evolves.trans (h1 : Evolves e h h' l) (h2 : Evolves e h' h'' l') : Evolves e h h'' l' :=
  ⟨h2.consistent, h2.chain, fun e' he => (h1.frame e' he).trans (h2.frame e' he),
    h2.limit.trans h1.limit, h2.indexLimit.trans h1.indexLimit⟩

/-- The index, where there is one, lists the versions `l` oldest first. -/
def Indexed (h : HistoricalStorage K X) (e : K) (l : List (Version K X)) : Prop :=
  ∀ x, h.indexOf e = some x → x = (l.map Version.indexEntry).reverse

variable [DecidableEq K]

/-! ### Closing -/

lemma evolves_closed (hcons : h.Consistent) (hl : Chain h e l) (hv : v ∈ l) (hc : c.Valid) :
    Evolves e h (h.closed v c) (l.map (·.closeId v.id c)) where
  consistent := closed_consistent hcons
  chain := chain_closed hl hv hc
  frame _ he := sameOn_closed (hl.entity_eq hv ▸ he.symm) (hl.stored hv)
  limit := rfl
  indexLimit := by
    simp only [closed, untrackSlice, Option.map_map]
    rfl

lemma indexed_closed (hl : Chain h e l) (hv : v ∈ l) (hix : Indexed h e l) :
    Indexed (h.closed v c) e (l.map (·.closeId v.id c)) := by
  intro x hx
  simp only [indexOf, closed, untrackSlice, Option.map_map, Option.map_eq_some_iff] at hx
  obtain ⟨ix, hix', rfl⟩ := hx
  have hent := hix (ix.entries e) (by simp [indexOf, hix'])
  simp only [comp_apply, TemporalIndexes.updateTransactionTimeEnd, hl.entity_eq hv,
    update_self, hent, map_reverse, map_map]
  congr 1
  refine map_congr_left fun u _ => ?_
  by_cases heq : u.id = v.id <;> simp [Version.indexEntry, closeId, close, heq]

/-- Close the recorded ones among the versions `ids`. -/
def closeIds (ids : List VersionId) (c : Timestamp) (v : Version K X) : Version K X :=
  if v.id ∈ ids ∧ v.entry.Recorded then v.close c else v

omit [DecidableEq K] in
@[simp] lemma closeIds_id : (closeIds ids c v).id = v.id := by
  simp only [closeIds]; split <;> rfl

omit [DecidableEq K] in
lemma closeIds_entry : (closeIds ids c v).entry =
    if v.id ∈ ids ∧ v.entry.Recorded then v.entry.close c else v.entry := by
  simp only [closeIds]; split <;> rfl

omit [DecidableEq K] in
lemma isRecorded_iff (hl : Chain h e l) (hv : v ∈ l) :
    h.isRecorded v.id = true ↔ v.entry.Recorded := by
  simp [isRecorded, hl.stored hv, Entry.Recorded, entry]

lemma each_closeIfRecorded (hc : c.Valid) (ids : List VersionId) :
    ∀ {h : HistoricalStorage K X} {l : List (Version K X)}, h.Consistent → Chain h e l →
      (∀ v ∈ l, v.temporal.transactionTime.start ≤ c) → (∀ vid ∈ ids, ∃ v ∈ l, v.id = vid) →
      ∃ h', (each (closeIfRecorded c) ids).run h = .ok () h' ∧
        Evolves e h h' (l.map (closeIds ids c)) ∧
        (Indexed h e l → Indexed h' e (l.map (closeIds ids c))) := by
  induction ids with
  | nil =>
    intro h l hcons hl _ _
    have hid : l.map (closeIds [] c) = l :=
      (map_congr_left fun v _ => by simp [closeIds]).trans (map_id l)
    rw [hid]
    exact ⟨h, rfl, .refl hcons hl, id⟩
  | cons a ids ih =>
    intro h l hcons hl hstart hids
    obtain ⟨v, hv, rfl⟩ := hids a mem_cons_self
    have hids' := fun vid hvid => hids vid (mem_cons_of_mem _ hvid)
    rw [each]
    by_cases hrec : v.entry.Recorded
    · -- the version is closed now and skipped from here on
      have hclose : (closeIfRecorded c v.id).run h = .ok () (h.closed v c) := by
        rw [closeIfRecorded, run_bind_of_ok run_get, if_pos ((isRecorded_iff hl hv).mpr hrec)]
        exact run_modifyE (closeVersionTransactionTime_eq (hl.stored hv) (hstart v hv) hc)
      have hmap : (l.map (·.closeId v.id c)).map (closeIds ids c) =
          l.map (closeIds (v.id :: ids) c) := by
        rw [map_map]
        refine map_congr_left fun u hu => ?_
        by_cases heq : u.id = v.id
        · obtain rfl := hl.eq_of_id hu hv heq
          simp [closeId_of_eq, closeIds, hrec]
        · simp [closeId_of_ne heq, closeIds, heq]
      obtain ⟨h', hrun, hev, hix⟩ := ih (closed_consistent hcons) (chain_closed hl hv hc)
        (by
          simp only [forall_mem_map]
          intro u hu
          have := hstart u hu
          simp only [closeId]
          split <;> exact this)
        (fun vid hvid => by
          obtain ⟨u, hu, rfl⟩ := hids' vid hvid
          exact ⟨_, mem_map_of_mem hu, closeId_id⟩)
      rw [hmap] at hev hix
      exact ⟨h', by rw [run_bind_of_ok hclose, hrun],
        (evolves_closed hcons hl hv hc).trans hev, fun h0 => hix (indexed_closed hl hv h0)⟩
    · have hskip : (closeIfRecorded c v.id).run h = .ok () h := by
        rw [closeIfRecorded, run_bind_of_ok run_get, if_neg (mt (isRecorded_iff hl hv).mp hrec)]
        rfl
      have hmap : l.map (closeIds ids c) = l.map (closeIds (v.id :: ids) c) := by
        refine map_congr_left fun u hu => ?_
        by_cases heq : u.id = v.id
        · obtain rfl := hl.eq_of_id hu hv heq
          simp [closeIds, hrec]
        · simp [closeIds, heq]
      obtain ⟨h', hrun, hev, hix⟩ := ih hcons hl hstart hids'
      rw [hmap] at hev hix
      exact ⟨h', by rw [run_bind_of_ok hskip, hrun], hev, hix⟩

/-! ### Appending -/

lemma sameOn_pushHead {e' : K} (hne : w.entity ≠ e') (hfresh : h.getVersion w.id = none) :
    SameOn e' h (pushHead w h) where
  head := by simp [pushHead, update_of_ne hne.symm]
  slices := rfl
  count := by simp [pushHead, update_of_ne hne.symm]
  structural := by
    simp only [pushHead]
    split
    · simp [update_of_ne hne.symm]
    · rfl
  versions vid u hu := by
    rw [pushHead_getVersion]
    split_ifs with heq
    · subst heq
      rw [hfresh]
      refine ⟨fun h1 => ?_, fun h1 => by cases h1⟩
      cases h1
      exact absurd hu hne
    · rfl
  index := rfl

lemma sameOn_appended {e' : K} (hw : w.entity = prev.entity) (hne : w.entity ≠ e')
    (hprev : h.getVersion prev.id = some prev) (hfresh : h.getVersion w.id = none) :
    SameOn e' h (h.appended prev w) where
  head := by simp [appended, pushHead, update_of_ne hne.symm]
  slices := trackSliceIfOpen_openSlices_of_ne _ _ _ hne.symm
  count := by simp [appended, pushHead, update_of_ne hne.symm]
  structural := by
    simp only [appended, pushHead, trackSliceIfOpen_structuralCounts]
    split
    · simp [update_of_ne hne.symm]
    · rfl
  versions vid u hu := by
    rw [appended_getVersion]
    have hnot : ∀ u' : Version K X, u'.entity = w.entity → u'.entity = e' → False :=
      fun u' h1 h2 => hne (h1.symm.trans h2)
    split_ifs with h1 h2
    · subst h1
      rw [hfresh]
      refine ⟨fun h3 => ?_, fun h3 => by cases h3⟩
      cases h3
      exact (hne hu).elim
    · subst h2
      rw [hprev]
      constructor
      · intro h3
        cases h3
        exact (hnot prev hw.symm hu).elim
      · intro h3
        cases h3
        exact (hnot prev hw.symm hu).elim
    · rfl
  index := by simp [indexOf, appended, pushHead]

lemma pushHead_consistent (hcons : h.Consistent) : (pushHead w h).Consistent := by
  intro vid u hu
  rw [pushHead_getVersion] at hu
  split_ifs at hu with heq
  · cases hu
    exact heq.symm
  · exact hcons vid u hu

lemma appended_consistent (hcons : h.Consistent) : (h.appended prev w).Consistent := by
  intro vid u hu
  rw [appended_getVersion] at hu
  split_ifs at hu with h1 h2
  · cases hu
    exact h1.symm
  · cases hu
    exact h2.symm
  · exact hcons vid u hu

/-- **An append** puts the new version at the head of the chain. The old head must be closed or of
the same commit, so that it is not closed on the way. -/
lemma addVersionWithInterval_spec (vid : VersionId) (t : BiTemporalInterval)
    (content : Content X) (hcons : h.Consistent) (hl : Chain h e l)
    (hcap : vid.isStructural = false → h.logicalVersionCount e < h.maxVersionsPerEntity)
    (hfresh : h.getVersion vid = none)
    (hhead : ∀ hd, l.head? = some hd →
      ¬ (hd.entry.Recorded ∧ hd.entry.tx.start < t.transactionTime.start)) :
    ∃ h', addVersionWithInterval e vid t content h = .ok h' ∧
      Evolves e h h' (⟨vid, e, t, content, l.head?.map (·.id), none⟩ :: linkHead vid l) ∧
      h'.indexOf e = h.indexOf e := by
  cases l with
  | nil =>
    refine ⟨_, addVersionWithInterval_eq_nil hl hcap, ⟨pushHead_consistent hcons, ?_, ?_, rfl, rfl⟩, rfl⟩
    · have hprev : h.heads e = none := hl.head
      have := chain_pushHead (w := h.newVersion e vid t content) hl rfl hprev
      simp only [newVersion, hprev] at this ⊢
      exact this
    · exact fun e' he => sameOn_pushHead (w := h.newVersion e vid t content) he.symm hfresh
  | cons prev rest =>
    have hprev : h.heads e = some prev.id := hl.head
    refine ⟨_, addVersionWithInterval_eq_cons hl hcap (hhead prev rfl),
      ⟨appended_consistent hcons, ?_, ?_, ?_, ?_⟩, ?_⟩
    · have := chain_appended (w := h.newVersion e vid t content) hl rfl hprev hfresh
      simp only [newVersion, hprev] at this ⊢
      exact this
    · exact fun e' he => sameOn_appended (w := h.newVersion e vid t content)
        (hl.entity_eq mem_cons_self).symm he.symm (hl.stored mem_cons_self) hfresh
    · simp [appended, pushHead]
    · simp [appended, pushHead]
    · simp [indexOf, appended, pushHead]

end Aletheia.HistoricalStorage
