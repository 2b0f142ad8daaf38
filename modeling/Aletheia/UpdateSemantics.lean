import Aletheia.Lookup
import Aletheia.SlicePartition

/-!
# What a write changes for point reads

A write committed at `c` leaves every point before `c` as it was. An update from `t` on makes its
properties visible from `c` on where the slice it lands in held, and nowhere else. As in the
partition of valid time, this needs that no retracted or deleted entity was updated.
-/

namespace Aletheia

open List Version Timeline

variable {K X : Type}

namespace HistoricalStorage

def readAt (h : HistoricalStorage K X) (k : K) (v s : Timestamp) :
    Option (VersionId × Content X) :=
  (h.findVersionAtTime k v s).bind fun vid => (h.getVersion vid).map fun u => (vid, u.content)

def visibleAt (h : HistoricalStorage K X) (k : K) (v s : Timestamp) :
    Option (InternedString × PropertyMap) :=
  (h.readAt k v s).map fun r => (r.2.label, r.2.properties)

/-- Where an update from `t` on ends: with the slice that covers `t`, else where the next slice
begins. -/
def updateEnd (h : HistoricalStorage K X) (k : K) (t : Timestamp) : Timestamp :=
  match (h.recordedSlices k).find? fun s => s.2.validTime.contains t with
  | some s => s.2.validTime.stop
  | none =>
    (((h.recordedSlices k).map (·.2.validTime.start)).filter fun v => t < v).min?.getD timestampMax

variable {h h' : HistoricalStorage K X} {k : K} {l l' : List (Version K X)}
  {v s c t clock : Timestamp}

lemma updateEnd_eq (hl : Chain h k l) (hwf : Timeline.WellFormed (l.map entry) clock) :
    h.updateEnd k t = updateStop (l.map entry) t := by
  rw [updateEnd]
  split
  · rename_i sl hfind
    obtain ⟨u, hu, ho, rfl⟩ := (mem_recordedSlices hl).mp (mem_of_find?_eq_some hfind)
    have hin := List.find?_some hfind
    have hrec := (Entry.isOpenSlice_iff (r := u.entry) |>.mp ho).1
    exact ((updateStop_eq hwf (mem_map_of_mem hu) hrec (TimeRange.contains_iff.mp hin)).2).symm
  · rename_i hfind
    have hcov : covering (l.map entry) t = none := by
      rcases hp : covering (l.map entry) t with _ | p
      · rfl
      · obtain ⟨hmem, hrec, hv⟩ := covering_eq_some hp
        obtain ⟨u, hu, rfl⟩ := mem_map.mp hmem
        have hsl := (mem_recordedSlices hl).mpr ⟨u, hu, Entry.isOpenSlice_of_holds hrec hv, rfl⟩
        exact absurd (TimeRange.contains_iff.mpr hv) (List.find?_eq_none.mp hfind _ hsl)
    simp only [updateStop, hcov, nextStart]
    congr 1
    refine min?_congr fun x => ?_
    simp only [mem_filter, mem_map, mem_recordedSlices hl, decide_eq_true_eq]
    constructor
    · rintro ⟨⟨_, ⟨u, hu, ho, rfl⟩, rfl⟩, hlt⟩
      exact ⟨u.entry, ⟨⟨u, hu, rfl⟩, ho, hlt⟩, rfl⟩
    · rintro ⟨_, ⟨⟨u, hu, rfl⟩, ho, hlt⟩, rfl⟩
      exact ⟨⟨_, ⟨u, hu, ho, rfl⟩, rfl⟩, hlt⟩

section Read

variable (hl : Chain h k l) (hix : Indexed h k l)
  (hwf : Timeline.WellFormed (l.map Version.entry) clock)

include hl hix hwf

lemma readAt_eq_some_iff {p : VersionId × Content X} :
    h.readAt k v s = some p ↔ ∃ u ∈ l, u.entry.Visible v s ∧ (u.id, u.content) = p := by
  simp only [readAt, Option.bind_eq_some_iff, Option.map_eq_some_iff,
    findVersionAtTime_eq_some_iff hl hix hwf]
  constructor
  · rintro ⟨_, ⟨u, hu, hvis, rfl⟩, w, hw, rfl⟩
    rw [hl.stored hu, Option.some.injEq] at hw
    exact ⟨u, hu, hvis, by rw [hw]⟩
  · rintro ⟨u, hu, hvis, rfl⟩
    exact ⟨u.id, ⟨u, hu, hvis, rfl⟩, u, hl.stored hu, rfl⟩

lemma visibleAt_eq_some_iff {q : InternedString × PropertyMap} :
    h.visibleAt k v s = some q ↔ ∃ r ∈ l.map entry, r.Visible v s ∧
      (r.content.label, r.content.properties) = q := by
  simp only [visibleAt, Option.map_eq_some_iff, readAt_eq_some_iff hl hix hwf]
  constructor
  · rintro ⟨_, ⟨u, hu, hvis, rfl⟩, rfl⟩
    exact ⟨u.entry, mem_map_of_mem hu, hvis, rfl⟩
  · rintro ⟨_, hr, hvis, rfl⟩
    obtain ⟨u, hu, rfl⟩ := mem_map.mp hr
    exact ⟨_, ⟨u, hu, hvis, rfl⟩, rfl⟩

end Read

lemma visible_unique (hl : Chain h k l)
    (hwf : Timeline.WellFormed (l.map entry) clock) {u w : Version K X} (hu : h.getVersion u.id = some u) (huk : u.entity = k)
    (hw : h.getVersion w.id = some w) (hwk : w.entity = k)
    (hvu : u.temporal.isVisibleAt v s = true) (hvw : w.temporal.isVisibleAt v s = true) : u = w :=
  eq_of_visible hwf ((hl.mem u).mpr ⟨hu, huk⟩) ((hl.mem w).mpr ⟨hw, hwk⟩)
    (isVisibleAt_iff_entry.mp hvu) (isVisibleAt_iff_entry.mp hvw)

/-! ### The past stays -/

lemma Appends.refl : Appends c l l := ⟨[], [], by simp [closeIds], by simp⟩

/-- What was visible before `c` is what the versions before a write at `c` show. -/
lemma exists_visible_of_appends (happ : Appends c l l') (hc : c.Valid) (hs : s < c)
    {P : VersionId → Content X → Prop} : (∃ u ∈ l', u.entry.Visible v s ∧ P u.id u.content) ↔
      ∃ u ∈ l, u.entry.Visible v s ∧ P u.id u.content := by
  obtain ⟨rs, ids, hrec, hrs⟩ := happ
  have hrecords : ∀ m : List (Version K X), (∃ u ∈ m, u.entry.Visible v s ∧ P u.id u.content) ↔
      ∃ r ∈ m.map record, r.entry.Visible v s ∧ P r.id r.content := by
    intro m
    simp only [mem_map, exists_exists_and_eq_and]
    rfl
  have hnew : ¬ ∃ r ∈ rs, r.entry.Visible v s ∧ P r.id r.content := by
    rintro ⟨r, hr, hvis, -⟩
    have hstart : r.entry.tx.start = c := hrs r hr
    exact absurd (hstart ▸ hvis.2.1) (not_le.mpr hs)
  rw [hrecords l', hrec]
  simp only [mem_append, or_and_right, exists_or, hnew, false_or]
  rw [← hrecords]
  simp only [mem_map, exists_exists_and_eq_and]
  refine exists_congr fun u => and_congr_right fun _ => ?_
  have hw : u.entry.Withdrawn c (closeIds ids c u).entry := by
    rw [closeIds_entry]
    split_ifs with hclose
    · exact .inr ⟨hclose.2, rfl⟩
    · exact .inl rfl
  have hcontent : (closeIds ids c u).content = u.content := by
    rw [closeIds]
    split_ifs <;> rfl
  rw [visible_iff_of_withdrawn hw hc hs, closeIds_id, hcontent]

end HistoricalStorage

open HistoricalStorage

/-- What a committed write does to point reads, given the clock before it. -/
structure PointReads (h h' : HistoricalStorage K X) (clock : Timestamp) (w : CommittedWrite K X) :
    Prop where
  past : ∀ k v s, s < w.stamp.val → h'.findVersionAtTime k v s = h.findVersionAtTime k v s ∧
    h'.readAt k v s = h.readAt k v s
  unique : ∀ (u u' : Version K X) (v s : Timestamp), h'.getVersion u.id = some u →
    h'.getVersion u'.id = some u' → u.entity = u'.entity →
    u.temporal.isVisibleAt v s = true → u'.temporal.isVisibleAt v s = true → u = u'
  inside : ∀ k vf content, w.write = .update k vf content → ∀ v s, w.stamp.val ≤ s →
    s < timestampMax → vf.val ≤ v → v < h.updateEnd k vf →
    h'.visibleAt k v s = some (content.label, content.properties)
  outside : ∀ k vf content, w.write = .update k vf content → ∀ v s, w.stamp.val ≤ s →
    s < timestampMax → ¬ (vf.val ≤ v ∧ v < h.updateEnd k vf) →
    ∀ s₀, clock ≤ s₀ → s₀ < w.stamp.val → h'.visibleAt k v s = h.visibleAt k v s₀

variable [DecidableEq K] [EntityKind K X] {s s' : EntityStore K X} {clock : Timestamp}
  {p : K → Status × Option Timestamp} {w : CommittedWrite K X}

section Step

variable (htr : ∀ k, Tracked s clock k (p k)) (hclock : clock.Valid)
  (hlt : clock ≤ w.stamp.val) (hfresh : w.write.CreatesFresh s) (hlive : w.write.UpdatesLive s)
  (hrun : (w.write.exec w.txId w.stamp).run s = .ok () s')

include htr hclock hlt hfresh hlive hrun

lemma appends_exec (k : K) : ∃ l l', s.Ready k l ∧ s'.Ready k l' ∧ Appends w.stamp l l' ∧
      Timeline.WellFormed (l.map entry) clock ∧ Timeline.WellFormed (l'.map entry) w.stamp := by
  obtain ⟨l, l', hr, hwf, hadv, href, happ⟩ :=
    advances_exec (htr w.write.key) hlt w.stamp.property hfresh hlive hrun
  obtain ⟨l₀, hr₀, href₀⟩ := htr k
  by_cases hk : k = w.write.key
  · subst hk
    exact ⟨l, l', hr, hr.evolve hadv.evolves hadv.indexed hadv.gen_le hadv.ids, happ, hwf,
      href.wellFormed (p := (_, _)) w.stamp.property⟩
  · have hwf := href₀.wellFormed hclock
    exact ⟨l₀, l₀, hr₀, hr.frame hr₀ hk hadv.evolves hadv.indexed hadv.gen_le hadv.ids, .refl, hwf,
      hwf.mono hlt w.stamp.property⟩

omit hclock hfresh in
lemma timeline_exec {k : K} {vf : ValidTimestamp} {content : Content X}
    (hw : w.write = .update k vf content) :
    ∃ lo l l', s.Ready k l ∧ s'.Ready k l' ∧ Timeline.Live (l.map entry) lo clock ∧
      l'.map entry = update vf w.stamp content (l.map entry) := by
  rw [hw] at hlive hrun
  have hrun' : (EntityStore.applyUpdate w.txId k (.new s.versionIdGen) content vf w.stamp).run
      s.drawn = .ok () s' := hrun
  obtain ⟨x, hx⟩ := Option.isSome_iff_exists.mp hlive
  obtain ⟨lo, hd, tl, -, hr, -, hl⟩ := (htr k).of_get hx
  obtain ⟨l', hadv, -, hentry, -⟩ := advances_applyUpdate hr.drawn hl hlt w.stamp.property rfl
    (hr.getVersion_eq_none (.new s.versionIdGen) le_rfl) (Nat.lt_succ_self _) vf.property hrun'
  have hadv' := hadv.of_drawn
  exact ⟨lo, hd :: tl, l', hr,
    hr.evolve hadv'.evolves hadv'.indexed hadv'.gen_le hadv'.ids, hl, hentry⟩

/-- **One write** and the points it changes. -/
theorem pointReads_exec : PointReads s.history s'.history clock w where
  past k v t ht := by
    obtain ⟨l, l', hr, hr', happ, hwf, hwf'⟩ := appends_exec htr hclock hlt hfresh hlive hrun k
    refine ⟨Option.ext fun vid => ?_, Option.ext fun q => ?_⟩
    · rw [findVersionAtTime_eq_some_iff hr'.chain hr'.indexed hwf',
        findVersionAtTime_eq_some_iff hr.chain hr.indexed hwf]
      exact exists_visible_of_appends happ w.stamp.property ht (P := fun id _ => id = vid)
    · rw [readAt_eq_some_iff hr'.chain hr'.indexed hwf', readAt_eq_some_iff hr.chain hr.indexed hwf]
      exact exists_visible_of_appends happ w.stamp.property ht (P := fun id c => (id, c) = q)
  unique u u' v t hu hu' hkey hv hv' := by
    obtain ⟨-, l', -, hr', -, -, hwf'⟩ :=
      appends_exec htr hclock hlt hfresh hlive hrun u'.entity
    exact visible_unique hr'.chain hwf' hu hkey hu' rfl hv hv'
  inside k vf content hw v t ht ht' h1 h2 := by
    obtain ⟨lo, l, l', hr, hr', hl, hentry⟩ := timeline_exec htr hlt hlive hrun hw
    have hwf' := wellFormed_update vf content hl hlt w.stamp.property
    rw [updateEnd_eq hr.chain hl.toWellFormed] at h2
    rw [visibleAt_eq_some_iff hr'.chain hr'.indexed (hentry ▸ hwf'), hentry]
    obtain ⟨r, hmem, hvis, rfl⟩ := exists_visible_new content hl hlt w.stamp.property ht ht' h1 h2
    exact ⟨r, hmem, hvis, rfl⟩
  outside k vf content hw v t ht ht' hout t₀ h0 h0' := by
    obtain ⟨lo, l, l', hr, hr', hl, hentry⟩ := timeline_exec htr hlt hlive hrun hw
    have hwf' := wellFormed_update vf content hl hlt w.stamp.property
    have hmax : t₀ < timestampMax := h0'.trans w.stamp.property.lt_max
    rw [updateEnd_eq hr.chain hl.toWellFormed] at hout
    refine Option.ext fun q => ?_
    rw [visibleAt_eq_some_iff hr'.chain hr'.indexed (hentry ▸ hwf'), hentry,
      visibleAt_eq_some_iff hr.chain hr.indexed hl.toWellFormed]
    constructor
    · rintro ⟨r, hmem, hvis, rfl⟩
      obtain ⟨r', hmem', hvis'⟩ := exists_visible_before hl hlt w.stamp.property ht ht' h0
        hmax hout hmem hvis
      obtain ⟨r'', hmem'', hvis'', _, hcontent⟩ := exists_visible_old content
        hl hlt w.stamp.property vf.property ht ht' h0 hmax hout hmem' hvis'
      obtain rfl := hwf'.eq_of_visible hmem hmem'' hvis hvis''
      exact ⟨r', hmem', hvis', by rw [hcontent]⟩
    · rintro ⟨r, hmem, hvis, rfl⟩
      obtain ⟨r', hmem', hvis', _, hcontent⟩ := exists_visible_old content
        hl hlt w.stamp.property vf.property ht ht' h0 hmax hout hmem hvis
      exact ⟨r', hmem', hvis', by rw [hcontent]⟩

end Step

lemma readAt_runFrom {k : K} {v t clock' : Timestamp} {ws : List (CommittedWrite K X)}
    {p : K → Status × Option Timestamp} (htr : ∀ k, Tracked s clock k (p k)) (hc : clock.Valid)
    (hlive : UpdatesLive s ws) (hrun : runFrom s clock ws = some (s', clock')) (ht : t < clock) :
    s'.history.readAt k v t = s.history.readAt k v t := by
  induction ws generalizing s clock p with
  | nil =>
    cases hrun
    rfl
  | cons w ws ih =>
    obtain ⟨hle, hfresh, s₁, hexec, hrest⟩ := runFrom_cons hrun
    have hone : runFrom s clock [w] = some (s₁, w.stamp.val) := by
      simp [runFrom, hle, hfresh, hexec]
    obtain ⟨hlive₀, hlive₁⟩ := (updatesLive_append hone).mp hlive
    obtain ⟨hc₁, htr₁⟩ := tracked_runFrom [w] htr hc hlive₀ hone
    have ht₁ : t < w.stamp.val := ht.trans_le hle
    rw [ih htr₁ hc₁ hlive₁ hrest ht₁]
    exact ((pointReads_exec htr hc hle hfresh hlive.1 hexec).past k v t ht₁).2

end Aletheia
