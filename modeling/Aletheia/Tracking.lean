import Aletheia.Writes

/-!
# Stores in step with their writes

`Tracked s clock k p` says that the store keeps for `k` what the summary `p` of the writes so far
demands: a live entity has a live timeline whose head current storage shows, a retracted or deleted
one has left current storage and its recorded slices end where they must. Every committed write
keeps this, for its own entity and for all others.
-/

namespace Aletheia

open HistoricalStorage List Version EntityStore Timeline CurrentStorage

variable {K X : Type}

/-- Current storage shows the version. -/
structure Version.Shown (v : Version K X) (x : Entity X) : Prop where
  version : x.currentVersion = v.id
  label : x.label = v.content.label
  properties : x.properties = v.content.properties
  ends : x.ends = v.content.ends

/-- The entry of current storage and the chain of an entity with a given status. -/
inductive Reflects (clock : Timestamp) :
    Status → Option Timestamp → Option (Entity X) → List (Version K X) → Prop
  | absent : Reflects clock .absent none none []
  | live {lo : Timestamp} {x : Entity X} {hd : Version K X} {tl : List (Version K X)}
      (shown : hd.Shown x) (live : Timeline.Live ((hd :: tl).map Version.entry) lo clock) :
      Reflects clock .live (some lo) (some x) (hd :: tl)
  | retracted {lo vt : Timestamp} {l : List (Version K X)} (ne : l ≠ [])
      (wellFormed : Timeline.WellFormed (l.map Version.entry) clock)
      (covers : ∀ v, Timeline.Covers (l.map Version.entry) v ↔ lo ≤ v ∧ v < vt) :
      Reflects clock (.retracted vt) (some lo) none l
  | deleted {lo : Timestamp} {l : List (Version K X)} (ne : l ≠ [])
      (wellFormed : Timeline.WellFormed (l.map Version.entry) clock)
      (covers : ∀ v, ¬ Timeline.Covers (l.map Version.entry) v) :
      Reflects clock .deleted (some lo) none l

namespace Reflects

variable {clock c : Timestamp} {p : Status × Option Timestamp} {cur : Option (Entity X)}
  {l : List (Version K X)}

lemma mono (h : Reflects clock p.1 p.2 cur l) (hle : clock ≤ c) (hc : c.Valid) :
    Reflects c p.1 p.2 cur l := by
  generalize p.1 = st, p.2 = lo at h
  cases h with
  | absent => exact .absent
  | live shown hl => exact .live shown (hl.mono hle hc)
  | retracted ne wf hcov => exact .retracted ne (wf.mono hle hc) hcov
  | deleted ne wf hcov => exact .deleted ne (wf.mono hle hc) hcov

lemma wellFormed (h : Reflects clock p.1 p.2 cur l) (hc : clock.Valid) :
    Timeline.WellFormed (l.map entry) clock := by
  generalize p.1 = st, p.2 = lo at h
  cases h with
  | absent => exact ⟨hc, .nil, by simp, by simp⟩
  | live _ hl => exact hl.toWellFormed
  | retracted _ wf _ => exact wf
  | deleted _ wf _ => exact wf

lemma of_record {r : Record X} {rs : List (Record X)} {lo : Timestamp} {txId : TxId}
    (hrec : l.map record = r :: rs) (hlive : Timeline.Live (l.map entry) lo clock) :
    Reflects clock .live (some lo) (some (pendingEntity txId r.id r.content.label
      r.content.properties r.content.ends)) l := by
  obtain ⟨hd, tl, rfl, rfl, -⟩ := map_eq_cons_iff.mp hrec
  exact .live ⟨rfl, rfl, rfl, rfl⟩ hlive

end Reflects

variable [DecidableEq K]

/-- The store keeps for `k` what the summary `p` of its writes demands. -/
def Tracked (s : EntityStore K X) (clock : Timestamp) (k : K) (p : Status × Option Timestamp) :
    Prop :=
  ∃ l, s.Ready k l ∧ Reflects clock p.1 p.2 (s.current.get k) l

/-- `s'` is `s` after a write of `k` that left the chain `l'`. -/
structure Advances (k : K) (s s' : EntityStore K X) (l' : List (Version K X)) : Prop where
  evolves : Evolves k s.history s'.history l'
  indexed : Indexed s'.history k l'
  gen_le : s.versionIdGen ≤ s'.versionIdGen
  ids : ∀ id ∈ l'.map (·.id), id.seq < s'.versionIdGen
  current : ∀ k' ≠ k, s'.current.get k' = s.current.get k'

variable {s s' : EntityStore K X} {k : K} {l l' : List (Version K X)} {clock c : Timestamp}

/-- **A write keeps the store in step** with every entity, its own by `hp`. -/
lemma Advances.tracked {p : K → Status × Option Timestamp} {q : Status × Option Timestamp}
    (h : Advances k s s' l') (htr : ∀ k, Tracked s clock k (p k)) (hle : clock ≤ c) (hc : c.Valid)
    (hq : Reflects c q.1 q.2 (s'.current.get k) l') (k' : K) :
    Tracked s' c k' (if k = k' then q else p k') := by
  obtain ⟨l, hr, href⟩ := htr k'
  split_ifs with heq
  · subst heq
    exact ⟨l', hr.evolve h.evolves h.indexed h.gen_le h.ids, hq⟩
  · obtain ⟨l₀, hr₀, -⟩ := htr k
    refine ⟨l, hr₀.frame hr (Ne.symm heq) h.evolves h.indexed h.gen_le h.ids, ?_⟩
    rw [h.current k' (Ne.symm heq)]
    exact href.mono hle hc

/-! ### The four writes -/

variable [EntityKind K X] {hd : Version K X} {tl : List (Version K X)} {lo : Timestamp}
  {vf vt : Timestamp} {vid : VersionId} {content : Content X} {txId : TxId} {x : Entity X}
  {prov : Option Provenance} {p : Status × Option Timestamp}

section Create

variable (hr : s.Ready k []) (hc : c.Valid) (hvf : vf.Valid) (hvid : vid.isStructural = false)
  (hfresh : s.history.getVersion vid = none) (hseq : vid.seq < s.versionIdGen)

include hr hc hvf hvid hfresh hseq

/-- **Create** starts a live timeline. -/
theorem advances_applyCreate (hrun : (applyCreate txId k vid content vf c).run s = .ok () s') :
    ∃ l', Advances k s s' l' ∧ Reflects c .live (some vf) (s'.current.get k) l' ∧
      l'.map entry = create vf c content ∧ Appends c [] l' := by
  obtain ⟨hcap, hroom, hvec⟩ := of_run_applyCreate txId content hr hfresh hvid hrun
  obtain ⟨h', l', hrun', hev, hix, hrec⟩ :=
    run_applyCreate txId content hr vf c hcap hroom hvec hfresh
  cases hrun.symm.trans hrun'
  have hentry : l'.map entry = create vf c content := by
    rw [map_entry_eq, hrec]
    simp only [map_singleton, Record.entry, hvid, create, entryAt]
    rfl
  refine ⟨l', ⟨hev, hix, le_rfl, ?_, fun k' hne => get_insert_of_ne hne⟩, ?_,
    hentry, [_], [], hrec, by simp⟩
  · rw [map_id_eq, hrec]
    simpa using hseq
  · rw [get_insert_self]
    exact .of_record hrec (hentry ▸ live_create hc hvf)

end Create

section Live

variable (hr : s.Ready k (hd :: tl))
  (hlive : Timeline.Live ((hd :: tl).map Version.entry) lo clock) (hle : clock ≤ c)
  (hc : c.Valid) (hvid : vid.isStructural = false)
  (hfresh : s.history.getVersion vid = none) (hseq : vid.seq < s.versionIdGen)

include hr hlive hle hc hvid hfresh hseq

/-- **Update** of a live entity is the update of its timeline. -/
theorem advances_applyUpdate (hvf : vf.Valid)
    (hrun : (applyUpdate txId k vid content vf c).run s = .ok () s') :
    ∃ l', Advances k s s' l' ∧ Reflects c .live (some (min lo vf)) (s'.current.get k) l' ∧
      l'.map entry = update vf c content ((hd :: tl).map entry) ∧ Appends c (hd :: tl) l' := by
  obtain ⟨hcap, hroom, hvec⟩ :=
    of_run_applyUpdate txId content hr hlive hle hc hvf hvid hfresh hrun
  obtain ⟨h', l', hrun', hev, hix, hrec⟩ :=
    run_applyUpdate txId content hr hlive hle hc hvf hvid hfresh hcap hroom hvec
  cases hrun.symm.trans hrun'
  have hentry : l'.map entry =
      update vf c content ((hd :: tl).map entry) := by
    rw [map_entry_eq, hrec, updateRecords_entry hlive hr.chain hvf hvid rfl rfl]
  refine ⟨l', ⟨hev, hix, Nat.le_add_right _ _, ?_, fun k' hne => get_insert_of_ne hne⟩,
    ?_, hentry, _, _, hrec, fun r hr => start_of_mem_updateRecords hr⟩
  · rw [map_id_eq, hrec, map_append, forall_mem_append]
    refine ⟨?_, ?_⟩
    · simp only [forall_mem_map]
      exact fun r hmem =>
        seq_lt_of_mem_updateRecords content hr hlive hvf hseq hmem
    · have hids : ((hd :: tl).map (closeIds (liveClose hd tl vf) c)).map (·.id) =
          (hd :: tl).map (·.id) := by
        rw [map_map]
        exact map_congr_left fun v _ => closeIds_id
      rw [← map_id_eq, hids]
      exact fun id hid => (hr.seq_lt hid).trans_le (Nat.le_add_right _ _)
  · rw [get_insert_self]
    have hlive' : Timeline.Live (l'.map entry) (min lo vf) c :=
      hentry ▸ hlive.update hle hc hvf
    simp only [updatedEntity]
    split_ifs with hlt
    · exact .of_record (by rw [hrec, updateRecords, liveReassert, if_pos hlt]; rfl) hlive'
    · exact .of_record (by rw [hrec, updateRecords, liveReassert, if_neg hlt]; rfl) hlive'

/-- **Delete** of a live entity is the delete of its timeline. -/
theorem advances_applyDelete (hvf : vf.Valid) (hx : s.current.get k = some x)
    (hrun : (applyDelete k vf c vid prov).run s = .ok () s') :
    ∃ l', Advances k s s' l' ∧ Reflects c .deleted (some lo) (s'.current.get k) l' ∧
      l'.map entry = delete vf c ⟨x.label, x.properties, x.ends, prov⟩
        ((hd :: tl).map entry) ∧ Appends c (hd :: tl) l' := by
  obtain ⟨-, hcap, hroom⟩ :=
    of_run_applyDelete prov hr hlive hle hc hvf hfresh hvid hrun
  obtain ⟨h', l', hrun', hev, hix, hrec⟩ :=
    run_applyDelete prov hr hlive hle hc hvf hfresh hx hcap hroom
  cases hrun.symm.trans hrun'
  have hentry : l'.map entry = delete vf c ⟨x.label, x.properties, x.ends, prov⟩
      ((hd :: tl).map entry) := by
    rw [map_entry_eq, hrec, map_cons, ← map_entry_eq, map_closeAll_entry]
    simp only [Record.entry, hvid, delete, entryAt]
  refine ⟨l', ⟨hev, hix, le_rfl, ?_, fun k' hne => get_remove_of_ne hne⟩, ?_,
    hentry, [_], _, by rw [hrec, closeAll_eq]; rfl, by simp⟩
  · rw [map_id_eq, hrec, map_cons, forall_mem_cons, ← map_id_eq, ids_closeAll]
    exact ⟨hseq, fun id hid => hr.seq_lt hid⟩
  · rw [get_remove_self]
    refine .deleted (by rintro rfl; simp at hrec) ?_ ?_
    · rw [hentry]
      exact wellFormed_delete hlive.toWellFormed hle hc
    · intro v
      rw [hentry]
      exact not_covers_delete hc

/-- **Retract** of a live entity is the retraction of its timeline. -/
theorem advances_applyRetract (hvt : vt.Valid) (hx : s.current.get k = some x)
    (hrun : (applyRetract k vt c vid prov).run s = .ok () s') :
    ∃ l', Advances k s s' l' ∧ Reflects c (.retracted vt) (some lo) (s'.current.get k) l' ∧
      l'.map entry = retract vt c ⟨x.label, x.properties, x.ends, prov⟩
        ((hd :: tl).map entry) ∧ Appends c (hd :: tl) l' := by
  obtain ⟨-, hstart, hcap, hroom⟩ :=
    of_run_applyRetract prov hr hlive hle hc hvt hfresh hvid hrun
  obtain ⟨h', l', hrun', hev, hix, hrec⟩ :=
    run_applyRetract prov hr hlive hle hc hvt hfresh hx hstart hcap hroom
  cases hrun.symm.trans hrun'
  have hentry : l'.map entry = retract vt c ⟨x.label, x.properties, x.ends, prov⟩
      ((hd :: tl).map entry) := by
    rw [map_entry_eq, hrec, map_cons, ← map_entry_eq]
    simp only [Record.entry, hvid, retract, entryAt, map_cons, close_entry]
    rfl
  refine ⟨l', ⟨hev, hix, le_rfl, ?_, fun k' hne => get_remove_of_ne hne⟩, ?_,
    hentry, [_], [hd.id], by rw [hrec, close_head_eq hr.chain hlive.head_cons.1]; rfl, by simp⟩
  · rw [map_id_eq, hrec, map_cons, forall_mem_cons, ← map_id_eq]
    exact ⟨hseq, fun id hid => hr.seq_lt hid⟩
  · rw [get_remove_self]
    refine .retracted (by rintro rfl; simp at hrec) ?_ ?_
    · rw [hentry]
      exact wellFormed_retract hlive hle hc hvt.lt_max.le
    · intro v
      rw [hentry]
      refine covers_retract hlive hc hvt.lt_max.le fun r hr => ?_
      cases hr
      exact hstart

end Live

/-! ### Steps and runs -/

/-- The store after the next version id was drawn. -/
def EntityStore.drawn (s : EntityStore K X) : EntityStore K X :=
  { s with versionIdGen := s.versionIdGen + 1 }

omit [DecidableEq K] [EntityKind K X] in
lemma EntityStore.Ready.drawn (hr : s.Ready k l) : s.drawn.Ready k l :=
  ⟨hr.consistent, hr.chain, hr.indexed, fun vid v hv => (hr.fresh vid v hv).trans (Nat.lt_succ_self _)⟩

omit [EntityKind K X] in
lemma Advances.of_drawn (h : Advances k s.drawn s' l') : Advances k s s' l' :=
  ⟨h.evolves, h.indexed, (Nat.le_succ _).trans h.gen_le, h.ids, h.current⟩

omit [EntityKind K X] in
lemma Tracked.of_get (h : Tracked s clock k p) (hx : s.current.get k = some x) :
    ∃ lo hd tl, p = (.live, some lo) ∧ s.Ready k (hd :: tl) ∧ hd.Shown x ∧
      Timeline.Live ((hd :: tl).map entry) lo clock := by
  obtain ⟨l, hr, href⟩ := h
  obtain ⟨st, lo⟩ := p
  rw [hx] at href
  cases href with
  | live shown hlive => exact ⟨_, _, _, rfl, hr, shown, hlive⟩

omit [EntityKind K X] in
lemma Tracked.of_heads (h : Tracked s clock k p)
    (hhead : s.history.heads k = none) : p = (.absent, none) ∧ s.Ready k [] := by
  obtain ⟨l, hr, href⟩ := h
  obtain ⟨st, lo⟩ := p
  obtain rfl : l = [] := by
    have := hr.chain.head
    rw [hhead] at this
    simpa using this.symm
  generalize s.current.get k = cur at href
  cases href with
  | absent => exact ⟨rfl, hr⟩
  | retracted hne => exact absurd rfl hne
  | deleted hne => exact absurd rfl hne

/-- What one write of a run does: the chain of its entity advances to its next status. -/
theorem advances_exec {w : Write K X}
    (htr : Tracked s clock w.key p) (hle : clock ≤ c) (hc : c.Valid) (hfresh : w.CreatesFresh s)
    (hlive : w.UpdatesLive s) (hrun : (w.exec txId c).run s = .ok () s') :
    ∃ l l', s.Ready w.key l ∧ Timeline.WellFormed (l.map entry) clock ∧
      Advances w.key s s' l' ∧ Reflects c w.status (w.least p.2) (s'.current.get w.key) l' ∧
      Appends c l l' := by
  have hnew : ∀ {l : List (Version K X)}, s.Ready w.key l →
      s.drawn.history.getVersion (.new s.versionIdGen) = none := fun hr =>
    hr.getVersion_eq_none (.new s.versionIdGen) le_rfl
  have hseq : (VersionId.new s.versionIdGen).seq < s.drawn.versionIdGen := Nat.lt_succ_self _
  cases w with
  | create k vf content =>
    have hrun' : (applyCreate txId k (.new s.versionIdGen) content vf c).run s.drawn =
      .ok () s' := hrun
    obtain ⟨rfl, hr⟩ := htr.of_heads hfresh
    obtain ⟨l', hadv, href, -, happ⟩ :=
      advances_applyCreate hr.drawn hc vf.property rfl (hnew hr) hseq hrun'
    exact ⟨_, l', hr, ⟨hc.mono hle, .nil, by simp, by simp⟩, hadv.of_drawn, href, happ⟩
  | update k vf content =>
    have hrun' : (applyUpdate txId k (.new s.versionIdGen) content vf c).run s.drawn =
      .ok () s' := hrun
    obtain ⟨x, hx⟩ := Option.isSome_iff_exists.mp hlive
    obtain ⟨lo, hd, tl, rfl, hr, -, hl⟩ := htr.of_get hx
    obtain ⟨l', hadv, href, -, happ⟩ :=
      advances_applyUpdate hr.drawn hl hle hc rfl (hnew hr) hseq vf.property hrun'
    exact ⟨_, l', hr, hl.toWellFormed, hadv.of_drawn, href, happ⟩
  | delete k vf prov =>
    have hrun' : (applyDelete k vf c (.new s.versionIdGen) prov).run s.drawn = .ok () s' := hrun
    obtain ⟨x, _, hget, -⟩ := Exec.run_bind_eq_ok.mp hrun'
    have hx := get_of_run_getCurrent hget
    obtain ⟨lo, hd, tl, rfl, hr, -, hl⟩ := htr.of_get hx
    obtain ⟨l', hadv, href, -, happ⟩ :=
      advances_applyDelete hr.drawn hl hle hc rfl (hnew hr) hseq vf.property hx hrun'
    exact ⟨_, l', hr, hl.toWellFormed, hadv.of_drawn, href, happ⟩
  | retract k vt prov =>
    have hrun' : (applyRetract k vt c (.new s.versionIdGen) prov).run s.drawn = .ok () s' := hrun
    obtain ⟨x, _, hget, -⟩ := Exec.run_bind_eq_ok.mp hrun'
    have hx := get_of_run_getCurrent hget
    obtain ⟨lo, hd, tl, rfl, hr, -, hl⟩ := htr.of_get hx
    obtain ⟨l', hadv, href, -, happ⟩ :=
      advances_applyRetract hr.drawn hl hle hc rfl (hnew hr) hseq vt.property hx hrun'
    exact ⟨_, l', hr, hl.toWellFormed, hadv.of_drawn, href, happ⟩

omit [EntityKind K X] in
lemma tracked_init {maxVersions gen : ℕ} {ixLimit : Option ℕ} {vs : List VectorIndex} (k : K) :
    Tracked (init maxVersions ixLimit vs gen : EntityStore K X) clock k (.absent, none) := by
  refine ⟨[], ⟨?_, ⟨rfl, trivial, .nil, ?_, .nil, ?_, rfl, rfl⟩, ?_, ?_⟩, ?_⟩
  · intro vid v hv
    exact nomatch (Finmap.lookup_empty vid).symm.trans hv
  · intro v
    refine ⟨fun h => absurd h not_mem_nil, fun h => ?_⟩
    exact nomatch (Finmap.lookup_empty v.id).symm.trans h.1
  · intro vid
    simp [init, HistoricalStorage.empty]
  · intro x hx
    cases ixLimit with
    | none => cases hx
    | some n => cases hx; rfl
  · intro vid v hv
    exact nomatch (Finmap.lookup_empty vid).symm.trans hv
  · rw [init, get_empty]
    exact .absent

/-- **Every run keeps the store in step** with what it wrote, for every entity. -/
theorem tracked_runFrom (ws : List (CommittedWrite K X)) :
    ∀ {s s' : EntityStore K X} {clock clock' : Timestamp} {p : K → Status × Option Timestamp},
      (∀ k, Tracked s clock k (p k)) → clock.Valid → UpdatesLive s ws →
      runFrom s clock ws = some (s', clock') →
      clock'.Valid ∧ ∀ k, Tracked s' clock' k (summary k (p k) ws) := by
  induction ws with
  | nil =>
    intro s s' clock clock' p htr hc _ hrun
    cases hrun
    exact ⟨hc, htr⟩
  | cons w ws ih =>
    intro s s' clock clock' p htr hc hlive hrun
    obtain ⟨hle, hfresh, s₁, hexec, hrun⟩ := runFrom_cons hrun
    obtain ⟨-, l', -, -, hadv, href, -⟩ :=
      advances_exec (htr w.write.key) hle w.stamp.property hfresh hlive.1 hexec
    have htr₁ := hadv.tracked htr hle w.stamp.property
      (q := (w.write.status, w.write.least (p w.write.key).2)) href
    have hlive₁ := hlive.2
    simp only [hexec] at hlive₁
    obtain ⟨hc', htr'⟩ := ih htr₁ w.stamp.property hlive₁ hrun
    refine ⟨hc', fun k => ?_⟩
    have := htr' k
    rw [summary_cons]
    by_cases hk : w.write.key = k
    · subst hk
      rwa [if_pos rfl] at this ⊢
    · rwa [if_neg hk] at this ⊢

end Aletheia
