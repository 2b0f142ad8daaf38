import Aletheia.StoreIndex

/-!
# The apply functions, on a store in step with its timelines

`Ready s k l` is what the apply functions rely on: the history keeps the chain `l` for `k`, the
index lists it, and every stored id was drawn before. Under it each apply function succeeds when
there is capacity for what it appends and the vector indexes accept the new properties; the new
store is given by its current storage, its chain and its generator.
-/

namespace Aletheia

open Exec List Version Record CurrentStorage

variable {K X : Type} [DecidableEq K]

namespace EntityStore

open HistoricalStorage

variable {s s' : EntityStore K X} {k : K} {hd : Version K X} {tl l l' : List (Version K X)}
  {vf vt c lo clock : Timestamp} {vid : VersionId} {content : Content X} {txId : TxId}
  {x : Entity X} {prov : Option Provenance}

/-- The history of `k` is the chain `l`, indexed, with ids the generator has passed. -/
structure Ready (s : EntityStore K X) (k : K) (l : List (Version K X)) : Prop where
  consistent : s.history.Consistent
  chain : Chain s.history k l
  indexed : Indexed s.history k l
  fresh : ∀ vid v, s.history.getVersion vid = some v → vid.seq < s.versionIdGen

namespace Ready

variable (hr : Ready s k l)

include hr

omit [DecidableEq K] in
lemma getVersion_eq_none (vid : VersionId) (hvid : s.versionIdGen ≤ vid.seq) :
    s.history.getVersion vid = none := by
  rcases hget : s.history.getVersion vid with _ | v
  · rfl
  · exact absurd (hr.fresh vid v hget) (not_lt.mpr hvid)

omit [DecidableEq K] in
lemma seq_lt (hid : vid ∈ l.map (·.id)) : vid.seq < s.versionIdGen := by
  obtain ⟨v, hv, rfl⟩ := mem_map.mp hid
  exact hr.fresh v.id v (hr.chain.stored hv)

lemma evolve (hev : Evolves k s.history s'.history l') (hix : Indexed s'.history k l')
    (hgen : s.versionIdGen ≤ s'.versionIdGen)
    (hids : ∀ id ∈ l'.map (·.id), id.seq < s'.versionIdGen) : Ready s' k l' where
  consistent := hev.consistent
  chain := hev.chain
  indexed := hix
  fresh vid v hget := by
    have hid := hev.consistent vid v hget
    by_cases hv : v.entity = k
    · exact hids vid (mem_map.mpr ⟨v, (hev.chain.mem v).mpr ⟨hid ▸ hget, hv⟩, hid⟩)
    · exact (hr.fresh vid v (((hev.frame _ hv).versions vid v rfl).mp hget)).trans_le hgen

lemma frame {k' : K} {l₀ : List (Version K X)} (hr' : Ready s k' l₀) (hne : k' ≠ k)
    (hev : Evolves k s.history s'.history l') (hix : Indexed s'.history k l')
    (hgen : s.versionIdGen ≤ s'.versionIdGen)
    (hids : ∀ id ∈ l'.map (·.id), id.seq < s'.versionIdGen) : Ready s' k' l₀ where
  consistent := hev.consistent
  chain := (hev.frame k' hne).chain hr'.chain
  indexed x hx := hr'.indexed x (by rw [← (hev.frame k' hne).index]; exact hx)
  fresh := (hr.evolve hev hix hgen hids).fresh

omit hr

omit [DecidableEq K] in
lemma unindexed {rs : List (Record X)} (hix : Indexed s.history k l)
    (hnodup : (rs.map (·.id)).Nodup) (hnew : ∀ r ∈ rs, r.id ∉ l.map (·.id)) :
    Unindexed s.history k ((rs.map slice).reverse) := by
  have hmap : ((rs.map slice).reverse).map (·.1) = (rs.map (·.id)).reverse := by
    rw [map_reverse, map_map]
    rfl
  refine ⟨by rw [hmap]; exact nodup_reverse.mpr hnodup, ?_⟩
  intro ix hx y hy hin
  rw [hmap, mem_reverse, mem_map] at hin
  obtain ⟨r, hr, hid⟩ := hin
  rw [hix ix hx, mem_reverse, mem_map] at hy
  obtain ⟨v, hv, rfl⟩ := hy
  exact hnew r hr (mem_map.mpr ⟨v, hv, hid.symm⟩)

end Ready

section Appended

variable (rs : List (Record X)) (hcons : s.history.Consistent) (hl : Chain s.history k l')
  (hrec : l'.map Version.record = rs ++ l.map Version.record) (hix : Indexed s.history k l)

include hl hrec hix in
omit [DecidableEq K] in
lemma unindexed_appended : Unindexed s.history k (rs.map slice).reverse := by
  have hnodup := hl.nodup
  rw [map_id_eq, hrec, map_append, ← map_id_eq] at hnodup
  obtain ⟨h1, -, h3⟩ := nodup_append.mp hnodup
  exact Ready.unindexed hix h1 fun r hr hin => h3 _ (mem_map_of_mem hr) _ hin rfl

include hcons hl hrec hix

lemma run_indexAppended (hroom : s.history.HasRoom k rs.length) :
    ∃ h', (each (indexVersion k) (rs.map slice).reverse).run s =
        .ok () (s.withHistory h') ∧ Evolves k s.history h' l' ∧ Indexed h' k l' := by
  obtain ⟨h', hrun, hev, hidx⟩ := run_indexVersions (rs.map slice).reverse hcons hl
    (by simpa using hroom) (unindexed_appended rs hl hrec hix)
  refine ⟨h', hrun, hev, fun y hy => ?_⟩
  rw [hidx, Option.map_eq_some_iff] at hy
  obtain ⟨y₀, hy₀, rfl⟩ := hy
  rw [hix y₀ hy₀, map_indexEntry_eq (l := l'), hrec, map_append, reverse_append,
    ← map_indexEntry_eq, map_reverse, map_map]
  rfl

lemma hasRoom_of_indexAppended (hne : rs ≠ [])
    (hrun : (each (indexVersion k) (rs.map slice).reverse).run s = .ok () s') :
    s.history.HasRoom k rs.length := by
  simpa using hasRoom_of_run_indexVersions _ (by simpa using hne) hcons hl
    (unindexed_appended rs hl hrec hix) hrun

end Appended

omit [DecidableEq K] in
lemma hasRoom_iff {h h' : HistoricalStorage K X} {l₀ : List (Version K X)} {n : ℕ}
    (hev : Evolves k h h' l') (hix : Indexed h k l) (hix' : Indexed h' k l₀)
    (hlen : l₀.length = l.length) : h'.HasRoom k n ↔ h.HasRoom k n := by
  rw [hasRoom_congr hev (k := 0), Nat.zero_add]
  intro x hx x' hx'
  rw [hix x hx, hix' x' hx']
  simp [hlen]

variable [EntityKind K X]

/-! ### Create -/

section Create

variable (txId : TxId) (content : Content X) (hr : Ready s k [])

include hr

omit [DecidableEq K] [EntityKind K X] in
lemma logicalVersionCount_eq_zero : s.history.logicalVersionCount k = 0 := by
  rw [hr.chain.countP_record]
  rfl

/-- **Create** on an entity without a history. -/
theorem run_applyCreate (vf c : Timestamp) (hcap : 0 < s.history.maxVersionsPerEntity)
    (hroom : s.history.HasRoom k 1) (hvec : s.current.indexVectors none content.properties = .ok ())
    (hvid : s.history.getVersion vid = none) :
    ∃ h' l', (applyCreate txId k vid content vf c).run s = .ok () ⟨s.current.insert k
          (pendingEntity txId vid content.label content.properties content.ends), h',
          s.versionIdGen⟩ ∧ Evolves k s.history h' l' ∧ Indexed h' k l' ∧
      l'.map record = [⟨vid, .withValidTime vf c, content⟩] := by
  obtain ⟨x, hx⟩ : ∃ x, x = pendingEntity txId vid content.label content.properties content.ends :=
    ⟨_, rfl⟩
  obtain ⟨h₁, l₁, hadd, hev, hrec, hix⟩ := addVersion_create vid vf c content
    hr.consistent hr.chain (by rwa [logicalVersionCount_eq_zero hr]) hvid
  have hins : s.current.insertDirect k x = .ok (s.current.insert k x) := by
    simp only [insertDirect, hx, pendingEntity, hvec]
    rfl
  have hix₁ : Indexed h₁ k [] := fun y hy => hr.indexed y (by rw [← hix]; exact hy)
  obtain ⟨h₂, hrun, hev₂, hidx⟩ := run_indexAppended
    (s := (s.withCurrent (s.current.insert k x)).withHistory h₁) (l := [])
    [⟨vid, .withValidTime vf c, content⟩] hev.consistent hev.chain hrec hix₁
    ((hasRoom_iff hev hr.indexed hix₁ rfl).mpr hroom)
  refine ⟨h₂, l₁, ?_, hev.trans hev₂, hidx, hrec⟩
  rw [map_singleton, reverse_singleton, run_each_singleton] at hrun
  rw [applyCreate, ← hx]
  refine run_bind_ok (run_onCurrent (run_modifyE hins)) ?_
  refine run_bind_ok (run_onHistory (run_modifyE hadd)) ?_
  exact run_bind_ok (run_readE rfl) hrun

/-- What a successful create says about the store before it. -/
theorem of_run_applyCreate (hvid : s.history.getVersion vid = none)
    (hstruct : vid.isStructural = false)
    (hrun : (applyCreate txId k vid content vf c).run s = .ok () s') :
    0 < s.history.maxVersionsPerEntity ∧ s.history.HasRoom k 1 ∧
      s.current.indexVectors none content.properties = .ok () := by
  obtain ⟨x, hx⟩ : ∃ x, x = pendingEntity txId vid content.label content.properties content.ends :=
    ⟨_, rfl⟩
  rw [applyCreate, ← hx] at hrun
  obtain ⟨_, _, hcur, hrun⟩ := run_bind_eq_ok.mp hrun
  obtain ⟨c', hins, rfl⟩ := run_onCurrent_modifyE_eq_ok.mp hcur
  obtain ⟨_, _, hhist, hrun⟩ := run_bind_eq_ok.mp hrun
  obtain ⟨h₁, hadd, rfl⟩ := run_onHistory_modifyE_eq_ok.mp hhist
  have hcount : s.history.logicalVersionCount k < s.history.maxVersionsPerEntity :=
    lt_maxVersions_of_addVersion hstruct hadd
  obtain ⟨h₁', l₁, hadd', hev, hrec, hix⟩ := addVersion_create vid vf c content
    hr.consistent hr.chain hcount hvid
  cases hadd.symm.trans hadd'
  have hix₁ : Indexed h₁ k [] := fun y hy => hr.indexed y (by rw [← hix]; exact hy)
  obtain ⟨_, _, hread, hrun⟩ := run_bind_eq_ok.mp hrun
  obtain ⟨ht, rfl⟩ := run_readE_eq_ok.mp hread
  cases ht
  rw [← run_each_singleton] at hrun
  have hroom := hasRoom_of_indexAppended (l := [])
    [⟨vid, .withValidTime vf c, content⟩] hev.consistent hev.chain hrec hix₁ (by simp) hrun
  refine ⟨by rwa [logicalVersionCount_eq_zero hr] at hcount,
    (hasRoom_iff hev hr.indexed hix₁ rfl).mp hroom, ?_⟩
  have := indexVectors_of_insertDirect hins
  rwa [hx] at this

end Create

/-! ### Update -/

/-- The entry of current storage after an update of a live entity: the re-asserted head after a
backfill, else the new version. -/
def updatedEntity (txId : TxId) (hd : Version K X) (vf : Timestamp) (vid rid : VersionId)
    (content : Content X) : Entity X :=
  if vf < hd.temporal.validTime.start then
    pendingEntity txId rid hd.content.label hd.content.properties content.ends
  else pendingEntity txId vid content.label content.properties content.ends

/-- The ids of the carry-forward and the re-assertion that an update draws. -/
def carryId (s : EntityStore K X) : VersionId := .structural s.versionIdGen

def reassertId (s : EntityStore K X) (k : K) (vf : Timestamp) : VersionId :=
  .structural (s.versionIdGen + (s.history.planEntityUpdate k vf).carryFrom.isSome.toNat)

section Update

variable (txId : TxId) (content : Content X) (hr : Ready s k (hd :: tl))
  (hlive : Timeline.Live ((hd :: tl).map Version.entry) lo clock) (hle : clock ≤ c)
  (hc : c.Valid) (hvf : vf.Valid) (hvid : vid.isStructural = false)
  (hfresh : s.history.getVersion vid = none)

include hr hlive hvf in
omit [DecidableEq K] [EntityKind K X] in
lemma length_updateRecords {cid rid : VersionId} :
    (updateRecords hd tl vf c content vid cid rid).length =
      1 + structuralIdsNeeded (s.history.planEntityUpdate k vf) := by
  rw [planEntityUpdate_eq hr.chain hlive hvf]
  simp only [updateRecords, structuralIdsNeeded, livePlan, liveReassert, liveCarry]
  rcases coveringVersion (hd :: tl) vf with _ | p
  · by_cases h1 : vf < hd.temporal.validTime.start <;> simp [h1]
  · by_cases h1 : vf < hd.temporal.validTime.start <;>
      by_cases h2 : p.temporal.validTime.start < vf <;> simp [h1, h2, Option.filter]

include hr hlive hvf in
omit [DecidableEq K] [EntityKind K X] in
lemma seq_lt_of_mem_updateRecords (hseq : vid.seq < s.versionIdGen) {r : Record X}
    (hmem : r ∈ updateRecords hd tl vf c content vid s.carryId (s.reassertId k vf)) :
    r.id.seq < s.versionIdGen + structuralIdsNeeded (s.history.planEntityUpdate k vf) := by
  rw [updateRecords, mem_append, mem_cons] at hmem
  rw [structuralIdsNeeded]
  rcases hmem with hmem | rfl | hmem
  · -- the re-assertion
    obtain ⟨q, hq, rfl⟩ := mem_map.mp hmem
    have hplan : (s.history.planEntityUpdate k vf).reassert.isSome = true := by
      rw [planEntityUpdate_eq hr.chain hlive hvf]
      by_cases hlt : vf < hd.temporal.validTime.start
      · simp [livePlan, hlt]
      · simp [liveReassert, hlt] at hq
    have hid : q.1 = s.reassertId k vf := by
      simp only [liveReassert] at hq
      split_ifs at hq <;> simp at hq
      rw [hq]
    simp [reassertRecord, hid, reassertId, hplan]
  · exact Nat.lt_of_lt_of_le hseq (Nat.le_add_right _ _)
  · -- the carry-forward
    obtain ⟨q, hq, rfl⟩ := mem_map.mp hmem
    obtain ⟨hplan, hid⟩ := liveCarry_id hq
    rw [planEntityUpdate_eq hr.chain hlive hvf, hplan]
    simp only [carryRecord, hid, carryId, VersionId.structural_seq, Bool.toNat_true]
    omega

include hr hlive hle hc hvf hvid hfresh

variable (hcap : s.history.logicalVersionCount k < s.history.maxVersionsPerEntity)

include hcap

lemma applyUpdate_run_eq :
    ∃ h₁ l₁, (applyUpdate txId k vid content vf c).run s = (do
          onCurrent (modifyE (updateDirect k
            (updatedEntity txId hd vf vid (s.reassertId k vf) content)))
          each (indexVersion k) ((updateRecords hd tl vf c content vid s.carryId
            (s.reassertId k vf)).map slice).reverse).run
        ⟨s.current, h₁, s.versionIdGen + structuralIdsNeeded (s.history.planEntityUpdate k vf)⟩ ∧
      Evolves k s.history h₁ l₁ ∧
      l₁.map record = updateRecords hd tl vf c content vid s.carryId (s.reassertId k vf) ++
        ((hd :: tl).map (closeIds (liveClose hd tl vf) c)).map record ∧
      Indexed h₁ k ((hd :: tl).map (closeIds (liveClose hd tl vf) c)) := by
  obtain ⟨plan, hplan⟩ : ∃ plan, plan = s.history.planEntityUpdate k vf := ⟨_, rfl⟩
  have hne : plan.carryFrom.isSome = true → s.carryId ≠ s.reassertId k vf := by
    intro hcarry heq
    have := congrArg VersionId.seq heq
    simp [carryId, reassertId, ← hplan, hcarry] at this
  obtain ⟨h₁, l₁, hrun, hev, hrec, hix⟩ := HistoricalStorage.run_applyUpdate content
    hr.consistent hr.chain hlive hle hc hvf hcap hvid rfl rfl (hplan ▸ hne) hfresh
    (hr.getVersion_eq_none s.carryId le_rfl)
    (hr.getVersion_eq_none (s.reassertId k vf) (Nat.le_add_right _ _))
  refine ⟨h₁, l₁, ?_, hev, hrec, hix hr.indexed⟩
  have halloc : (allocateStructuralIds plan).run s =
      .ok (plan.carryFrom.map fun _ => s.carryId, plan.reassert.map fun _ => s.reassertId k vf)
        { s with versionIdGen := s.versionIdGen + structuralIdsNeeded plan } := by
    rw [run_allocateStructuralIds, hplan]
    rfl
  rw [← hplan] at hrun ⊢
  rw [applyUpdate, run_bind_of_ok run_get, ← hplan, run_bind_of_ok halloc,
    run_bind_of_ok (run_onHistory
      (s := { s with versionIdGen := s.versionIdGen + structuralIdsNeeded plan }) hrun)]
  -- the entry that current storage gets is that of the head of the new chain
  simp only [updatedEntity, liveReassert]
  split_ifs <;> rfl

/-- **Update** of a live entity. -/
theorem run_applyUpdate
    (hroom : s.history.HasRoom k (1 + structuralIdsNeeded (s.history.planEntityUpdate k vf)))
    (hvec : s.current.indexVectors ((s.current.get k).map (·.properties))
      (updatedEntity txId hd vf vid (s.reassertId k vf) content).properties = .ok ()) :
    ∃ h' l', (applyUpdate txId k vid content vf c).run s =
        .ok () ⟨s.current.insert k (updatedEntity txId hd vf vid (s.reassertId k vf) content), h',
          s.versionIdGen + structuralIdsNeeded (s.history.planEntityUpdate k vf)⟩ ∧
      Evolves k s.history h' l' ∧ Indexed h' k l' ∧
      l'.map record = updateRecords hd tl vf c content vid s.carryId (s.reassertId k vf) ++
        ((hd :: tl).map (closeIds (liveClose hd tl vf) c)).map record := by
  obtain ⟨h₁, l₁, hrun, hev, hrec, hix⟩ :=
    applyUpdate_run_eq txId content hr hlive hle hc hvf hvid hfresh hcap
  obtain ⟨x, hx⟩ : ∃ x, x = updatedEntity txId hd vf vid (s.reassertId k vf) content := ⟨_, rfl⟩
  rw [← hx] at hvec hrun ⊢
  have hupd : s.current.updateDirect k x = .ok (s.current.insert k x) := by
    simp only [updateDirect, hvec]
    rfl
  obtain ⟨h₂, hrun₂, hev₂, hidx⟩ := run_indexAppended (s := ⟨s.current.insert k x, h₁, _⟩) _
    hev.consistent hev.chain hrec hix
    ((hasRoom_iff hev hr.indexed hix (by simp)).mpr (by
      rwa [length_updateRecords content hr hlive hvf]))
  refine ⟨h₂, l₁, ?_, hev.trans hev₂, hidx, hrec⟩
  rw [hrun]
  exact run_bind_ok (run_onCurrent (run_modifyE hupd)) hrun₂

omit hcap

/-- What a successful update says about the store before it. -/
theorem of_run_applyUpdate (hrun : (applyUpdate txId k vid content vf c).run s = .ok () s') :
    s.history.logicalVersionCount k < s.history.maxVersionsPerEntity ∧
      s.history.HasRoom k (1 + structuralIdsNeeded (s.history.planEntityUpdate k vf)) ∧
      s.current.indexVectors ((s.current.get k).map (·.properties))
        (updatedEntity txId hd vf vid (s.reassertId k vf) content).properties = .ok () := by
  have hcap : s.history.logicalVersionCount k < s.history.maxVersionsPerEntity := by
    rw [applyUpdate, run_bind_of_ok run_get] at hrun
    obtain ⟨ids, s₁, halloc, hrun⟩ := run_bind_eq_ok.mp hrun
    rw [run_allocateStructuralIds] at halloc
    cases halloc
    obtain ⟨_, _, happ, -⟩ := run_bind_eq_ok.mp hrun
    obtain ⟨h₁, happ, -⟩ := run_onHistory_eq_ok.mp happ
    exact lt_maxVersions_of_applyUpdate happ
  obtain ⟨h₁, l₁, hrun₁, hev, hrec, hix⟩ :=
    applyUpdate_run_eq txId content hr hlive hle hc hvf hvid hfresh hcap
  rw [hrun₁] at hrun
  obtain ⟨_, _, hcur, hrun⟩ := run_bind_eq_ok.mp hrun
  obtain ⟨c', hupd, rfl⟩ := run_onCurrent_modifyE_eq_ok.mp hcur
  have hroom := hasRoom_of_indexAppended _ hev.consistent hev.chain hrec hix
    (by simp [updateRecords]) hrun
  rw [length_updateRecords content hr hlive hvf] at hroom
  exact ⟨hcap, (hasRoom_iff hev hr.indexed hix (by simp)).mp hroom,
    indexVectors_of_updateDirect hupd⟩

end Update

/-! ### Delete and retract -/

lemma run_getCurrent (hx : s.current.get k = some x) : (getCurrent k).run s = .ok x s :=
  run_readE (by simp only [hx])

lemma get_of_run_getCurrent (h : (getCurrent k).run s = .ok x s') : s.current.get k = some x := by
  have hx := (run_readE_eq_ok.mp h).1
  rcases hget : s.current.get k with _ | y
  · simp [hget] at hx
  · simpa [hget] using hx

/-- The last steps of delete and retract: index the closing version, leave current storage. -/
def finishClosing (k : K) (slice : Slice) : EStateM StorageError (EntityStore K X) Unit := do
  indexVersion k slice
  onCurrent (Exec.modifyE (CurrentStorage.deleteDirect k))

section Closing

variable {t : BiTemporalInterval} {h₁ h₂ : HistoricalStorage K X} {l₀ : List (Version K X)}
  (hr : Ready s k l) (hev₁ : Evolves k s.history h₁ l₀) (hlen : l₀.length = l.length)
  (hix₁ : Indexed h₁ k l₀) (hev₂ : Evolves k h₁ h₂ l') (hix₂ : h₂.indexOf k = h₁.indexOf k)
  (hrec : l'.map Version.record = ⟨vid, t, content⟩ :: l₀.map Version.record)

include hr hev₁ hlen hix₁ hev₂ hix₂ hrec

lemma run_finishClosing (hx : s.current.get k = some x) (hroom : s.history.HasRoom k 1) :
    ∃ h', (finishClosing k (vid, t)).run (s.withHistory h₂) =
        .ok () ⟨s.current.remove k x, h', s.versionIdGen⟩ ∧
      Evolves k s.history h' l' ∧ Indexed h' k l' := by
  have hidx₂ : Indexed h₂ k l₀ := fun y hy => hix₁ y (by rw [← hix₂]; exact hy)
  have hev := hev₁.trans hev₂
  obtain ⟨h₃, hrun, hev₃, hidx⟩ := run_indexAppended (s := s.withHistory h₂)
    [⟨vid, t, content⟩] hev.consistent hev.chain hrec hidx₂
    ((hasRoom_iff hev hr.indexed hidx₂ hlen).mpr hroom)
  rw [map_singleton, reverse_singleton, run_each_singleton] at hrun
  refine ⟨h₃, run_bind_ok hrun (run_onCurrent (run_modifyE ?_)), hev.trans hev₃, hidx⟩
  change deleteDirect k s.current = _
  simp only [deleteDirect, hx]

lemma hasRoom_of_finishClosing
    (hrun : (finishClosing k (vid, t)).run (s.withHistory h₂) = .ok () s') :
    s.history.HasRoom k 1 := by
  have hidx₂ : Indexed h₂ k l₀ := fun y hy => hix₁ y (by rw [← hix₂]; exact hy)
  have hev := hev₁.trans hev₂
  obtain ⟨_, _, hrun, -⟩ := run_bind_eq_ok.mp hrun
  rw [← run_each_singleton] at hrun
  exact (hasRoom_iff hev hr.indexed hidx₂ hlen).mp (hasRoom_of_indexAppended
    [⟨vid, t, content⟩] hev.consistent hev.chain hrec hidx₂ (by simp) hrun)

end Closing

section Delete

variable (prov : Option Provenance) (hr : Ready s k (hd :: tl))
  (hlive : Timeline.Live ((hd :: tl).map Version.entry) lo clock) (hle : clock ≤ c)
  (hc : c.Valid) (hvf : vf.Valid) (hfresh : s.history.getVersion vid = none)

include hr hlive hle hc hfresh

omit [EntityKind K X] in
lemma exists_closeAll : ∃ h₁, (closeAllSlices k c).run s.history = .ok () h₁ ∧
      Evolves k s.history h₁ ((hd :: tl).map fun v => if v.entry.Recorded then v.close c else v) ∧
      Indexed h₁ k ((hd :: tl).map fun v => if v.entry.Recorded then v.close c else v) ∧
      h₁.getVersion vid = none ∧ h₁.logicalVersionCount k = s.history.logicalVersionCount k := by
  obtain ⟨h₁, hrun₁, hev₁, hix₁⟩ := run_closeAllSlices hr.chain hlive hr.consistent hle hc
  have hids := ids_closeAll (c := c) (l := hd :: tl)
  refine ⟨h₁, hrun₁, hev₁, hix₁ hr.indexed, hev₁.fresh hfresh ?_,
    hev₁.chain.logicalVersionCount_of_ids hr.chain hids⟩
  rw [hids, mem_map]
  rintro ⟨v, hv, rfl⟩
  exact nomatch hfresh.symm.trans (hr.chain.stored hv)

include hvf

/-- **Delete** of a live entity. -/
theorem run_applyDelete (hx : s.current.get k = some x)
    (hcap : s.history.logicalVersionCount k < s.history.maxVersionsPerEntity)
    (hroom : s.history.HasRoom k 1) : ∃ h' l', (applyDelete k vf c vid prov).run s =
        .ok () ⟨s.current.remove k x, h', s.versionIdGen⟩ ∧
      Evolves k s.history h' l' ∧ Indexed h' k l' ∧ l'.map record =
        ⟨vid, ⟨⟨vf, vf⟩, .fromStart c⟩, ⟨x.label, x.properties, x.ends, prov⟩⟩ ::
          ((hd :: tl).map fun v => if v.entry.Recorded then v.close c else v).map record := by
  obtain ⟨h₁, hrun₁, hev₁, hix₁, hfresh₁, hcount⟩ := exists_closeAll hr hlive hle hc hfresh
  obtain ⟨h₂, l₂, hadd, hev₂, hrec, hix₂⟩ := addVersion_tombstone vid
    ⟨x.label, x.properties, x.ends, prov⟩ hev₁.consistent hev₁.chain (settled_closeAll hc) hvf
    (by rw [hev₁.limit, hcount]; exact hcap) hfresh₁
  obtain ⟨h₃, hrun₃, hev₃, hidx⟩ :=
    run_finishClosing hr hev₁ (by simp) hix₁ hev₂ hix₂ hrec hx hroom
  refine ⟨h₃, l₂, ?_, hev₃, hidx, hrec⟩
  rw [applyDelete]
  refine run_bind_ok (run_getCurrent hx) ?_
  refine run_bind_ok (run_onHistory hrun₁) ?_
  refine run_bind_ok (run_readE (closedInterval_eq (le_refl vf) hvf)) ?_
  exact run_bind_ok (run_onHistory (run_modifyE hadd)) hrun₃

/-- What a successful delete says about the store before it. -/
theorem of_run_applyDelete (hvid : vid.isStructural = false)
    (hrun : (applyDelete k vf c vid prov).run s = .ok () s') : (∃ x, s.current.get k = some x) ∧
      s.history.logicalVersionCount k < s.history.maxVersionsPerEntity ∧ s.history.HasRoom k 1 := by
  obtain ⟨h₁, hrun₁, hev₁, hix₁, hfresh₁, hcount⟩ := exists_closeAll hr hlive hle hc hfresh
  obtain ⟨x, hx⟩ : ∃ x, s.current.get k = some x := by
    obtain ⟨x, _, hget, -⟩ := run_bind_eq_ok.mp hrun
    exact ⟨x, get_of_run_getCurrent hget⟩
  rw [applyDelete, run_bind_of_ok (run_getCurrent hx), run_bind_of_ok (run_onHistory hrun₁)] at hrun
  obtain ⟨_, _, hread, hrun⟩ := run_bind_eq_ok.mp hrun
  obtain ⟨ht, rfl⟩ := run_readE_eq_ok.mp hread
  cases ht.symm.trans (closedInterval_eq (le_refl vf) hvf)
  obtain ⟨_, _, hhist, hrun⟩ := run_bind_eq_ok.mp hrun
  obtain ⟨h₂, hadd, rfl⟩ := run_onHistory_modifyE_eq_ok.mp hhist
  have hcap := lt_maxVersions_of_addVersion hvid hadd
  obtain ⟨h₂', l₂, hadd', hev₂, hrec, hix₂⟩ := addVersion_tombstone vid
    ⟨x.label, x.properties, x.ends, prov⟩ hev₁.consistent hev₁.chain (settled_closeAll hc) hvf
    hcap hfresh₁
  cases hadd.symm.trans hadd'
  refine ⟨⟨x, hx⟩, ?_, hasRoom_of_finishClosing hr hev₁ (by simp) hix₁ hev₂ hix₂ hrec hrun⟩
  have := hev₁.limit ▸ hcount ▸ hcap
  exact this

end Delete

section Retract

variable (prov : Option Provenance) (hr : Ready s k (hd :: tl))
  (hlive : Timeline.Live ((hd :: tl).map Version.entry) lo clock) (hle : clock ≤ c)
  (hc : c.Valid) (hvt : vt.Valid) (hfresh : s.history.getVersion vid = none)

include hr hlive hle hc hfresh

omit [EntityKind K X] in
lemma closed_head : closeVersionTransactionTime hd.id c s.history = .ok (s.history.closed hd c) ∧
      Evolves k s.history (s.history.closed hd c) (hd.close c :: tl) ∧
      Indexed (s.history.closed hd c) k (hd.close c :: tl) ∧
      (s.history.closed hd c).getVersion vid = none ∧
      (s.history.closed hd c).logicalVersionCount k = s.history.logicalVersionCount k := by
  have hev := evolves_closed hr.consistent hr.chain mem_cons_self hc
  have hix := indexed_closed (c := c) hr.chain mem_cons_self hr.indexed
  rw [map_closeId_head hr.chain] at hev hix
  have hids : (hd.close c :: tl).map (·.id) = (hd :: tl).map (·.id) := rfl
  refine ⟨closeVersionTransactionTime_eq (hr.chain.stored mem_cons_self)
    ((hlive.start_le _ (mem_map_of_mem mem_cons_self)).trans hle) hc, hev, hix,
    hev.fresh hfresh ?_, hev.chain.logicalVersionCount_of_ids hr.chain hids⟩
  rw [hids, mem_map]
  rintro ⟨v, hv, rfl⟩
  exact nomatch hfresh.symm.trans (hr.chain.stored hv)

lemma applyRetract_run_eq (hx : s.current.get k = some x) :
    (applyRetract k vt c vid prov).run s = (do
        onHistory (modifyE (HistoricalStorage.addRetractedVersion k vid
          hd.temporal.validTime.start vt c ⟨x.label, x.properties, x.ends, prov⟩))
        let temporal ← readE fun _ =>
          HistoricalStorage.closedInterval hd.temporal.validTime.start c vt
        finishClosing k (vid, temporal)).run (s.withHistory (s.history.closed hd c)) := by
  have hhd := hr.chain.stored mem_cons_self
  have hhead : s.history.heads k = some hd.id := hr.chain.head
  have hvf : headValidFrom s.history k c = hd.temporal.validTime.start := by
    simp [headValidFrom, hhead, hhd]
  have hclose : (each (fun head => onHistory
      (modifyE (closeVersionTransactionTime head c))) [hd.id]).run s =
      .ok () (s.withHistory (s.history.closed hd c)) := by
    rw [run_each_singleton]
    exact run_onHistory (run_modifyE (closed_head hr hlive hle hc hfresh).1)
  rw [applyRetract, run_bind_of_ok (run_getCurrent hx), run_bind_of_ok run_get]
  simp only [hvf, hhead, Option.toList_some]
  rw [run_bind_of_ok hclose]
  rfl

include hvt

/-- **Retract** of a live entity, at or after the start of its open-ended slice. -/
theorem run_applyRetract (hx : s.current.get k = some x) (hstart : hd.temporal.validTime.start ≤ vt)
    (hcap : s.history.logicalVersionCount k < s.history.maxVersionsPerEntity)
    (hroom : s.history.HasRoom k 1) : ∃ h' l', (applyRetract k vt c vid prov).run s =
        .ok () ⟨s.current.remove k x, h', s.versionIdGen⟩ ∧
      Evolves k s.history h' l' ∧ Indexed h' k l' ∧ l'.map record =
        ⟨vid, ⟨⟨hd.temporal.validTime.start, vt⟩, .fromStart c⟩,
            ⟨x.label, x.properties, x.ends, prov⟩⟩ :: (hd.close c :: tl).map record := by
  obtain ⟨-, hev₁, hix₁, hfresh₁, hcount⟩ := closed_head hr hlive hle hc hfresh
  obtain ⟨h₂, l₂, hadd, hev₂, hrec, hix₂⟩ := addRetractedVersion_record vid
    ⟨x.label, x.properties, x.ends, prov⟩ hev₁.consistent hev₁.chain (settled_close_head hc)
    hstart hvt (by rw [hev₁.limit, hcount]; exact hcap) hfresh₁
  obtain ⟨h₃, hrun₃, hev₃, hidx⟩ := run_finishClosing hr hev₁ rfl hix₁ hev₂ hix₂ hrec hx hroom
  refine ⟨h₃, l₂, ?_, hev₃, hidx, hrec⟩
  rw [applyRetract_run_eq prov hr hlive hle hc hfresh hx]
  refine run_bind_ok (run_onHistory (run_modifyE hadd)) ?_
  exact run_bind_ok (run_readE (closedInterval_eq hstart hvt)) hrun₃

/-- What a successful retraction says about the store before it. -/
theorem of_run_applyRetract (hvid : vid.isStructural = false)
    (hrun : (applyRetract k vt c vid prov).run s = .ok () s') :
    (∃ x, s.current.get k = some x) ∧ hd.temporal.validTime.start ≤ vt ∧
      s.history.logicalVersionCount k < s.history.maxVersionsPerEntity ∧ s.history.HasRoom k 1 := by
  obtain ⟨-, hev₁, hix₁, hfresh₁, hcount⟩ := closed_head hr hlive hle hc hfresh
  obtain ⟨x, hx⟩ : ∃ x, s.current.get k = some x := by
    obtain ⟨x, _, hget, -⟩ := run_bind_eq_ok.mp hrun
    exact ⟨x, get_of_run_getCurrent hget⟩
  rw [applyRetract_run_eq prov hr hlive hle hc hfresh hx] at hrun
  obtain ⟨_, _, hhist, hrun⟩ := run_bind_eq_ok.mp hrun
  obtain ⟨h₂, hadd, rfl⟩ := run_onHistory_modifyE_eq_ok.mp hhist
  have hstart := start_le_of_addRetractedVersion hadd
  have hcap := lt_maxVersions_of_addRetractedVersion hvid hadd
  obtain ⟨h₂', l₂, hadd', hev₂, hrec, hix₂⟩ := addRetractedVersion_record vid
    ⟨x.label, x.properties, x.ends, prov⟩ hev₁.consistent hev₁.chain (settled_close_head hc)
    hstart hvt hcap hfresh₁
  cases hadd.symm.trans hadd'
  obtain ⟨_, _, hread, hrun⟩ := run_bind_eq_ok.mp hrun
  obtain ⟨ht, rfl⟩ := run_readE_eq_ok.mp hread
  cases ht.symm.trans (closedInterval_eq hstart hvt)
  refine ⟨⟨x, hx⟩, hstart, ?_, hasRoom_of_finishClosing hr hev₁ rfl hix₁ hev₂ hix₂ hrec hrun⟩
  have := hev₁.limit ▸ hcount ▸ hcap
  exact this

end Retract

end EntityStore

end Aletheia
