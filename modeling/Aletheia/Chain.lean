import Aletheia.Slices
import Aletheia.TimelineLaws

/-!
# Version chains

`Chain h e l` says that the store `h` keeps exactly the versions `l` for the entity `e`, linked
newest first, with the side tables in step. Each primitive of the store is described by what it
does to the chain of one entity, and by a frame: nothing about another entity changes.
-/

namespace Aletheia

open Function List Version

variable {K X : Type}

namespace Version

def entry (v : Version K X) : Entry X := ⟨v.temporal, v.content, v.id.isStructural⟩

def indexEntry (v : Version K X) : IndexEntry := ⟨v.id, v.temporal⟩

def close (c : Timestamp) (v : Version K X) : Version K X :=
  { v with temporal.transactionTime.stop := c }

/-- Close the version `vid` and leave every other as it is. -/
def closeId (vid : VersionId) (c : Timestamp) (v : Version K X) : Version K X :=
  if v.id = vid then v.close c else v

variable {v : Version K X} {vid : VersionId} {c : Timestamp}

@[simp] lemma close_id : (v.close c).id = v.id := rfl
@[simp] lemma close_entity : (v.close c).entity = v.entity := rfl
@[simp] lemma close_entry : (v.close c).entry = v.entry.close c := rfl
@[simp] lemma close_close {c' : Timestamp} : (v.close c').close c = v.close c := rfl
@[simp] lemma closeId_id : (v.closeId vid c).id = v.id := by simp only [closeId]; split <;> rfl
@[simp] lemma closeId_entity : (v.closeId vid c).entity = v.entity := by
  simp only [closeId]; split <;> rfl
@[simp] lemma closeId_prevVersion : (v.closeId vid c).prevVersion = v.prevVersion := by
  simp only [closeId]; split <;> rfl
lemma closeId_of_ne (h : v.id ≠ vid) : v.closeId vid c = v := by simp [closeId, h]
lemma closeId_of_eq (h : v.id = vid) : v.closeId vid c = v.close c := by simp [closeId, h]

end Version

namespace HistoricalStorage

/-- Every version is stored under its own id. -/
def Consistent (h : HistoricalStorage K X) : Prop :=
  ∀ vid v, h.getVersion vid = some v → v.id = vid

/-- Each version points to the one after it in the list, the last to none. -/
def Linked : List (Version K X) → Prop
  | [] => True
  | v :: rest => v.prevVersion = rest.head?.map (·.id) ∧ Linked rest

/-- The store keeps exactly the versions `l` for `e`, newest first. -/
structure Chain (h : HistoricalStorage K X) (e : K) (l : List (Version K X)) : Prop where
  head : h.heads e = l.head?.map (·.id)
  linked : Linked l
  nodup : (l.map (·.id)).Nodup
  mem : ∀ v, v ∈ l ↔ h.getVersion v.id = some v ∧ v.entity = e
  open_nodup : (h.openSlices e).Nodup
  mem_open : ∀ vid, vid ∈ h.openSlices e ↔
    ∃ v ∈ l.tail, v.id = vid ∧ isOpenSlice v.temporal = true
  count : h.versionCounts e = l.length
  structural : h.structuralCounts e = l.countP (·.id.isStructural)

/-- The index entries of one entity, if an index is attached. -/
def indexOf (h : HistoricalStorage K X) (e : K) : Option (List IndexEntry) :=
  h.temporalIndexes.map (·.entries e)

/-- The two stores agree on everything they keep for `e`, and on their limits. -/
structure SameOn (e : K) (h h' : HistoricalStorage K X) : Prop where
  head : h'.heads e = h.heads e
  slices : h'.openSlices e = h.openSlices e
  count : h'.versionCounts e = h.versionCounts e
  structural : h'.structuralCounts e = h.structuralCounts e
  versions : ∀ vid v, v.entity = e → (h'.getVersion vid = some v ↔ h.getVersion vid = some v)
  index : h'.indexOf e = h.indexOf e

namespace SameOn

variable {e : K} {h h' h'' : HistoricalStorage K X} {l : List (Version K X)}

lemma refl (h : HistoricalStorage K X) : SameOn e h h :=
  ⟨rfl, rfl, rfl, rfl, fun _ _ _ => Iff.rfl, rfl⟩

lemma trans (h1 : SameOn e h h') (h2 : SameOn e h' h'') : SameOn e h h'' :=
  ⟨h2.head.trans h1.head, h2.slices.trans h1.slices, h2.count.trans h1.count,
    h2.structural.trans h1.structural,
    fun vid v hv => (h2.versions vid v hv).trans (h1.versions vid v hv), h2.index.trans h1.index⟩

lemma chain (hs : SameOn e h h') (hc : Chain h e l) : Chain h' e l where
  head := hs.head.trans hc.head
  linked := hc.linked
  nodup := hc.nodup
  mem v := by
    rw [hc.mem]
    constructor
    · rintro ⟨h1, h2⟩
      exact ⟨(hs.versions _ v h2).mpr h1, h2⟩
    · rintro ⟨h1, h2⟩
      exact ⟨(hs.versions _ v h2).mp h1, h2⟩
  open_nodup := hs.slices ▸ hc.open_nodup
  mem_open := hs.slices ▸ hc.mem_open
  count := hs.count.trans hc.count
  structural := hs.structural.trans hc.structural

end SameOn

namespace Chain

variable {e : K} {h : HistoricalStorage K X} {l : List (Version K X)} {v w : Version K X}

variable (hc : Chain h e l)

include hc

lemma stored (hv : v ∈ l) : h.getVersion v.id = some v := ((hc.mem v).mp hv).1

lemma entity_eq (hv : v ∈ l) : v.entity = e := ((hc.mem v).mp hv).2

lemma eq_of_id (hv : v ∈ l) (hw : w ∈ l) (hid : v.id = w.id) : v = w := by
  have := hc.stored hv
  rw [hid, hc.stored hw] at this
  exact (Option.some.inj this).symm

lemma logicalVersionCount : h.logicalVersionCount e = l.countP (fun v => !v.id.isStructural) := by
  simp only [HistoricalStorage.logicalVersionCount, hc.count, hc.structural]
  have := length_eq_countP_add_countP (fun v : Version K X => v.id.isStructural) (l := l)
  simp only [Bool.not_eq_true] at this
  rw [this, Nat.add_sub_cancel_left]
  exact countP_congr fun v _ => by simp

end Chain

/-! ### Closing one version -/

variable [DecidableEq K]

/-- The store after the version `v` was closed at `c`. -/
def closed (h : HistoricalStorage K X) (v : Version K X) (c : Timestamp) :
    HistoricalStorage K X :=
  untrackSlice
    { h with
      versions := h.versions.insert v.id (v.close c)
      temporalIndexes := h.temporalIndexes.map (·.updateTransactionTimeEnd v.entity v.id c) }
    v.entity v.id

variable {e : K} {h : HistoricalStorage K X} {l : List (Version K X)} {v : Version K X}
  {c : Timestamp}

lemma closeVersionTransactionTime_eq (hv : h.getVersion v.id = some v)
    (hle : v.temporal.transactionTime.start ≤ c) (hc : c.Valid) :
    closeVersionTransactionTime v.id c h = .ok (h.closed v c) := by
  simp only [closeVersionTransactionTime, hv,
    BiTemporalInterval.closeTransactionTime_ok hle (.inl hc)]
  rfl

lemma closed_getVersion (vid : VersionId) :
    (h.closed v c).getVersion vid = if vid = v.id then some (v.close c) else h.getVersion vid := by
  simp only [closed, untrackSlice, getVersion]
  split_ifs with heq
  · subst heq
    exact Finmap.lookup_insert _
  · exact Finmap.lookup_insert_of_ne _ heq

lemma closed_consistent (hcons : h.Consistent) : (h.closed v c).Consistent := by
  intro vid w hw
  rw [closed_getVersion] at hw
  split_ifs at hw with heq
  · cases hw
    exact heq.symm
  · exact hcons vid w hw

omit [DecidableEq K] in
lemma linked_map {f : Version K X → Version K X} (hid : ∀ v, (f v).id = v.id)
    (hprev : ∀ v, (f v).prevVersion = v.prevVersion) : Linked l → Linked (l.map f) := by
  induction l with
  | nil => exact fun _ => trivial
  | cons a rest ih =>
    rintro ⟨h1, h2⟩
    refine ⟨?_, ih h2⟩
    rw [hprev, h1]
    cases rest with
    | nil => rfl
    | cons b _ => simp [hid]

/-- **Closing** a version replaces it in its chain and touches no other entity. -/
lemma chain_closed (hl : Chain h e l) (hv : v ∈ l) (hc : c.Valid) :
    Chain (h.closed v c) e (l.map (·.closeId v.id c)) where
  head := by
    simp only [closed, untrackSlice, hl.head, List.head?_map, Option.map_map]
    congr 1
    funext w
    simp
  linked := linked_map (fun _ => closeId_id) (fun _ => closeId_prevVersion) hl.linked
  nodup := by
    have : l.map ((·.id) ∘ fun w : Version K X => w.closeId v.id c) = l.map (·.id) :=
      map_congr_left fun w _ => closeId_id
    rw [map_map, this]
    exact hl.nodup
  mem w := by
    rw [closed_getVersion, mem_map]
    constructor
    · rintro ⟨u, hu, rfl⟩
      rw [closeId_id, closeId_entity]
      refine ⟨?_, hl.entity_eq hu⟩
      split_ifs with heq
      · rw [closeId_of_eq heq, hl.eq_of_id hu hv heq]
      · rw [closeId_of_ne heq, hl.stored hu]
    · rintro ⟨hw, hwe⟩
      split_ifs at hw with heq
      · exact ⟨v, hv, by rw [closeId_of_eq rfl]; exact Option.some.inj hw⟩
      · exact ⟨w, (hl.mem w).mpr ⟨hw, hwe⟩, closeId_of_ne heq⟩
  open_nodup := by
    simp only [closed, untrackSlice, hl.entity_eq hv, update_self]
    exact hl.open_nodup.filter _
  mem_open vid := by
    simp only [closed, untrackSlice, hl.entity_eq hv, update_self, mem_filter,
      hl.mem_open, ← map_tail, mem_map, decide_eq_true_eq]
    constructor
    · rintro ⟨⟨w, hw, rfl, ho⟩, hne⟩
      exact ⟨_, ⟨w, hw, rfl⟩, closeId_id, by rwa [closeId_of_ne hne]⟩
    · rintro ⟨_, ⟨w, hw, rfl⟩, hid, ho⟩
      rw [closeId_id] at hid
      have hne : w.id ≠ v.id := by
        intro heq
        rw [closeId_of_eq heq] at ho
        exact hc.ne_max (Entry.isOpenSlice_iff (r := (w.close c).entry) |>.mp ho).1
      rw [closeId_of_ne hne] at ho
      exact ⟨⟨w, hw, hid, ho⟩, hid ▸ hne⟩
  count := by simp [closed, untrackSlice, hl.count]
  structural := by
    simp only [closed, untrackSlice, hl.structural, countP_map]
    exact countP_congr fun w _ => by simp

lemma sameOn_closed {e' : K} (hne : v.entity ≠ e') (hv : h.getVersion v.id = some v) :
    SameOn e' h (h.closed v c) where
  head := rfl
  slices := by simp [closed, untrackSlice, update_of_ne hne.symm]
  count := rfl
  structural := rfl
  versions vid w hw := by
    rw [closed_getVersion]
    split_ifs with heq
    · subst heq
      constructor
      · intro h1
        cases h1
        exact absurd hw hne
      · intro h1
        rw [hv] at h1
        cases h1
        exact absurd hw hne
    · rfl
  index := by
    simp only [indexOf, closed, untrackSlice, Option.map_map]
    congr 1
    funext ix
    simp [TemporalIndexes.updateTransactionTimeEnd, update_of_ne hne.symm]

/-! ### Appending a version -/

/-- Record on the old head which version follows it. -/
def linkHead (vid : VersionId) : List (Version K X) → List (Version K X)
  | [] => []
  | v :: rest => { v with nextVersion := some vid } :: rest

/-- The version that `addVersionWithInterval` stores. -/
def newVersion (h : HistoricalStorage K X) (e : K) (vid : VersionId) (t : BiTemporalInterval)
    (content : Content X) : Version K X :=
  { id := vid, entity := e, temporal := t, content, prevVersion := h.heads e, nextVersion := none }

/-- The store after a version was appended behind the head `prev`, which stays as recorded as it
was. -/
def appended (h : HistoricalStorage K X) (prev w : Version K X) : HistoricalStorage K X :=
  pushHead w (trackSliceIfOpen
    { h with versions := h.versions.insert prev.id { prev with nextVersion := some w.id } }
    w.entity prev.id)

variable {vid : VersionId} {t : BiTemporalInterval} {content : Content X} {prev w : Version K X}

lemma addVersionWithInterval_eq_nil (hl : Chain h e [])
    (hcap : vid.isStructural = false → h.logicalVersionCount e < h.maxVersionsPerEntity) :
    addVersionWithInterval e vid t content h = .ok (pushHead (h.newVersion e vid t content) h) := by
  have hhead : h.heads e = none := hl.head
  have hcap' : ¬ (vid.isStructural = false ∧ h.maxVersionsPerEntity ≤ h.logicalVersionCount e) :=
    fun hn => absurd (hcap hn.1) (not_lt.mpr hn.2)
  simp only [addVersionWithInterval, if_neg hcap', hhead, newVersion]

lemma addVersionWithInterval_eq_cons (hl : Chain h e (prev :: l))
    (hcap : vid.isStructural = false → h.logicalVersionCount e < h.maxVersionsPerEntity)
    (hprev : ¬ (prev.entry.Recorded ∧ prev.entry.tx.start < t.transactionTime.start)) :
    addVersionWithInterval e vid t content h =
      .ok (h.appended prev (h.newVersion e vid t content)) := by
  have hhead : h.heads e = some prev.id := hl.head
  have hcap' : ¬ (vid.isStructural = false ∧ h.maxVersionsPerEntity ≤ h.logicalVersionCount e) :=
    fun hn => absurd (hcap hn.1) (not_lt.mpr hn.2)
  have hrec : ¬ (prev.temporal.isCurrentlyRecorded = true ∧
      prev.temporal.transactionTime.start < t.transactionTime.start) := by
    rw [BiTemporalInterval.isCurrentlyRecorded_iff]
    exact hprev
  simp only [addVersionWithInterval, if_neg hcap', hhead, hl.stored mem_cons_self,
    supersedeHead, closePreviousVersionIntervals, if_neg hrec, appended, newVersion, ne_eq,
    not_true_eq_false, if_false]
  rfl

lemma pushHead_getVersion (vid : VersionId) :
    (pushHead w h).getVersion vid = if vid = w.id then some w else h.getVersion vid := by
  simp only [pushHead, getVersion]
  split_ifs with heq
  · subst heq
    exact Finmap.lookup_insert _
  · exact Finmap.lookup_insert_of_ne _ heq

section Track

variable (h : HistoricalStorage K X) (e : K) (vid : VersionId)

lemma trackSliceIfOpen_getVersion (vid' : VersionId) :
    (h.trackSliceIfOpen e vid).getVersion vid' = h.getVersion vid' := by
  simp only [trackSliceIfOpen]
  split <;> rfl

@[simp] lemma trackSliceIfOpen_heads : (h.trackSliceIfOpen e vid).heads = h.heads := by
  simp only [trackSliceIfOpen]
  split <;> rfl

@[simp] lemma trackSliceIfOpen_versionCounts :
    (h.trackSliceIfOpen e vid).versionCounts = h.versionCounts := by
  simp only [trackSliceIfOpen]
  split <;> rfl

@[simp] lemma trackSliceIfOpen_structuralCounts :
    (h.trackSliceIfOpen e vid).structuralCounts = h.structuralCounts := by
  simp only [trackSliceIfOpen]
  split <;> rfl

@[simp] lemma trackSliceIfOpen_temporalIndexes :
    (h.trackSliceIfOpen e vid).temporalIndexes = h.temporalIndexes := by
  simp only [trackSliceIfOpen]
  split <;> rfl

@[simp] lemma trackSliceIfOpen_maxVersionsPerEntity :
    (h.trackSliceIfOpen e vid).maxVersionsPerEntity = h.maxVersionsPerEntity := by
  simp only [trackSliceIfOpen]
  split <;> rfl

lemma trackSliceIfOpen_openSlices_of_ne {e' : K} (hne : e' ≠ e) :
    (h.trackSliceIfOpen e vid).openSlices e' = h.openSlices e' := by
  simp only [trackSliceIfOpen]
  split
  · exact update_of_ne hne _ _
  · rfl

end Track

lemma appended_getVersion (vid : VersionId) :
    (h.appended prev w).getVersion vid =
      if vid = w.id then some w
      else if vid = prev.id then some { prev with nextVersion := some w.id }
      else h.getVersion vid := by
  simp only [appended, pushHead_getVersion, trackSliceIfOpen_getVersion]
  simp only [getVersion]
  split_ifs with h1 h2
  · rfl
  · subst h2
    exact Finmap.lookup_insert _
  · exact Finmap.lookup_insert_of_ne _ h2

/-- **Creating** the first version of an entity. -/
lemma chain_pushHead (hl : Chain h e []) (hw : w.entity = e) (hprev : w.prevVersion = none) :
    Chain (pushHead w h) e [w] where
  head := by simp [pushHead, hw]
  linked := ⟨hprev, trivial⟩
  nodup := nodup_singleton _
  mem u := by
    rw [pushHead_getVersion, mem_singleton]
    constructor
    · rintro rfl
      exact ⟨if_pos rfl, hw⟩
    · rintro ⟨hu, hue⟩
      split_ifs at hu with heq
      · exact (Option.some.inj hu).symm
      · exact absurd ((hl.mem u).mpr ⟨hu, hue⟩) not_mem_nil
  open_nodup := hl.open_nodup
  mem_open := hl.mem_open
  count := by simp [pushHead, hw, hl.count]
  structural := by
    have := hl.structural
    simp only [countP_nil] at this
    simp only [pushHead, hw, countP_singleton]
    split_ifs with hs
    · simp [this]
    · exact this

variable (hl : Chain h e (prev :: l))

include hl

omit [DecidableEq K] in
lemma Chain.head_not_mem_open : prev.id ∉ h.openSlices e := by
  rw [hl.mem_open]
  rintro ⟨u, hu, heq, -⟩
  exact (nodup_cons.mp hl.nodup).1 (mem_map.mpr ⟨u, hu, heq⟩)

lemma appended_openSlices (hw : w.entity = e) : (h.appended prev w).openSlices e =
      if isOpenSlice prev.temporal then h.openSlices e ++ [prev.id] else h.openSlices e := by
  have hget : (h.versions.insert prev.id ({ prev with nextVersion := some w.id } :
      Version K X)).lookup prev.id = some { prev with nextVersion := some w.id } :=
    Finmap.lookup_insert _
  simp only [appended, pushHead, hw, trackSliceIfOpen, getVersion, hget, Option.any_some]
  by_cases ho : isOpenSlice prev.temporal = true
  · simp [ho, hl.head_not_mem_open]
  · simp [ho]

/-- **Appending** behind the head of an entity. -/
lemma chain_appended (hw : w.entity = e) (hprev : w.prevVersion = some prev.id)
    (hfresh : h.getVersion w.id = none) :
    Chain (h.appended prev w) e (w :: linkHead w.id (prev :: l)) := by
  have hne : ∀ u ∈ prev :: l, u.id ≠ w.id := by
    intro u hu heq
    have := hl.stored hu
    rw [heq, hfresh] at this
    cases this
  have hprevl : ∀ u ∈ l, u.id ≠ prev.id := by
    intro u hu heq
    exact (nodup_cons.mp hl.nodup).1 (mem_map.mpr ⟨u, hu, heq⟩)
  have hlinked := hl.linked
  refine ⟨?_, ⟨hprev, hlinked.1, hlinked.2⟩, ?_, ?_, ?_, ?_, ?_, ?_⟩
  · simp [appended, pushHead, hw]
  · refine nodup_cons.mpr ⟨?_, hl.nodup⟩
    rw [mem_map]
    rintro ⟨u, hu, heq⟩
    rcases mem_cons.mp hu with rfl | hu
    · exact hne prev mem_cons_self heq
    · exact hne u (mem_cons_of_mem _ hu) heq
  · intro u
    rw [appended_getVersion]
    simp only [linkHead, mem_cons]
    constructor
    · rintro (rfl | rfl | hu)
      · exact ⟨if_pos rfl, hw⟩
      · exact ⟨by simp [hne prev mem_cons_self],
          show prev.entity = e from hl.entity_eq mem_cons_self⟩
      · refine ⟨?_, hl.entity_eq (mem_cons_of_mem _ hu)⟩
        rw [if_neg (hne u (mem_cons_of_mem _ hu)), if_neg (hprevl u hu)]
        exact hl.stored (mem_cons_of_mem _ hu)
    · rintro ⟨hu, hue⟩
      split_ifs at hu with h1 h2
      · exact .inl (Option.some.inj hu).symm
      · exact .inr (.inl (Option.some.inj hu).symm)
      · rcases mem_cons.mp ((hl.mem u).mpr ⟨hu, hue⟩) with rfl | hu
        · exact absurd rfl h2
        · exact .inr (.inr hu)
  · rw [appended_openSlices hl hw]
    split_ifs
    · exact nodup_append.mpr ⟨hl.open_nodup, nodup_singleton _, by
        simpa using fun vid hvid (heq : vid = prev.id) => hl.head_not_mem_open (heq ▸ hvid)⟩
    · exact hl.open_nodup
  · intro vid
    rw [appended_openSlices hl hw]
    simp only [tail_cons, linkHead, mem_cons, exists_eq_or_imp]
    have hold := hl.mem_open vid
    simp only [tail_cons] at hold
    split_ifs with ho
    · rw [mem_append, mem_singleton, hold]
      constructor
      · rintro (h1 | rfl)
        · exact .inr h1
        · exact .inl ⟨rfl, ho⟩
      · rintro (⟨rfl, -⟩ | h1)
        · exact .inr rfl
        · exact .inl h1
    · rw [hold]
      exact ⟨.inr, fun h => h.resolve_left fun h1 => ho h1.2⟩
  · simp [appended, pushHead, hw, hl.count, linkHead]
  · have := hl.structural
    simp only [linkHead, countP_cons] at this ⊢
    simp only [appended, pushHead, hw, trackSliceIfOpen_structuralCounts]
    by_cases hs : w.id.isStructural = true <;> simp [hs, this]

end HistoricalStorage

end Aletheia
