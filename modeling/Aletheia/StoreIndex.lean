import Aletheia.Apply
import Aletheia.CloseOps

/-!
# The steps of an apply function

What the small steps of the apply functions do when they succeed, and when they do: drawing
structural ids, indexing the appended versions, and writing the entry of current storage.
-/

namespace Aletheia

open Exec List

variable {K X : Type}

namespace HistoricalStorage

/-- The index, where there is one, has room for `n` more versions of `e`. -/
def HasRoom (h : HistoricalStorage K X) (e : K) (n : ℕ) : Prop :=
  ∀ ix, h.temporalIndexes = some ix → (ix.entries e).length + n ≤ ix.maxVersionsPerEntity

instance (h : HistoricalStorage K X) (e : K) (n : ℕ) : Decidable (h.HasRoom e n) :=
  match hix : h.temporalIndexes with
  | none => isTrue fun ix hx => nomatch hix.symm.trans hx
  | some ix =>
    decidable_of_iff ((ix.entries e).length + n ≤ ix.maxVersionsPerEntity)
      ⟨fun hle ix' hx => by rw [hix] at hx; exact (Option.some.inj hx) ▸ hle, fun h => h ix hix⟩

variable {e : K} {h h' : HistoricalStorage K X} {l l' : List (Version K X)} {n m : ℕ}

lemma hasRoom_congr (hev : Evolves e h h' l) {k : ℕ}
    (hlen : ∀ x, h.indexOf e = some x → ∀ x', h'.indexOf e = some x' → x'.length = x.length + k) :
    h'.HasRoom e n ↔ h.HasRoom e (k + n) := by
  have hmax := hev.indexLimit
  rcases hx : h.temporalIndexes with _ | ix <;> rcases hx' : h'.temporalIndexes with _ | ix' <;>
    simp only [hx, hx', Option.map_none, Option.map_some, reduceCtorEq, Option.some.injEq] at hmax
  · simp [HasRoom, hx, hx']
  · have := hlen (ix.entries e) (by simp [indexOf, hx]) (ix'.entries e) (by simp [indexOf, hx'])
    simp only [HasRoom, hx, hx', Option.some.injEq, forall_eq', hmax, this]
    omega

end HistoricalStorage

namespace EntityStore

open HistoricalStorage

variable [DecidableEq K] {s s' : EntityStore K X} {k : K} {l l' : List (Version K X)}
  {vf vt c : Timestamp}

def withHistory (s : EntityStore K X) (h : HistoricalStorage K X) : EntityStore K X :=
  { s with history := h }

def withCurrent (s : EntityStore K X) (c : CurrentStorage K X) : EntityStore K X :=
  { s with current := c }

section Focus

variable {α : Type} {a : α} {e : StorageError}

omit [DecidableEq K]

variable {y : EStateM StorageError (HistoricalStorage K X) α} {h' : HistoricalStorage K X}

lemma run_onHistory (h : y.run s.history = .ok a h') :
    (onHistory y).run s = .ok a (s.withHistory h') :=
  run_zoom_of_ok h

lemma run_onHistory_eq_ok :
    (onHistory y).run s = .ok a s' ↔ ∃ h', y.run s.history = .ok a h' ∧ s' = s.withHistory h' :=
  run_zoom_eq_ok

lemma run_onHistory_modifyE_eq_ok {g : HistoricalStorage K X → Except StorageError _} {u : Unit} :
    (onHistory (modifyE g)).run s = .ok u s' ↔
      ∃ h', g s.history = .ok h' ∧ s' = s.withHistory h' := by
  rw [run_onHistory_eq_ok]
  simp only [run_modifyE_eq_ok]

lemma run_onCurrent_modifyE_eq_ok {g : CurrentStorage K X → Except StorageError _} {u : Unit} :
    (onCurrent (modifyE g)).run s = .ok u s' ↔
      ∃ c', g s.current = .ok c' ∧ s' = s.withCurrent c' := by
  refine run_zoom_eq_ok.trans ?_
  simp only [run_modifyE_eq_ok]
  rfl

lemma run_onHistory_of_error (h : y.run s.history = .error e h') :
    (onHistory y).run s = .error e (s.withHistory h') :=
  run_zoom_of_error h

lemma run_onCurrent {y : EStateM StorageError (CurrentStorage K X) α} {c' : CurrentStorage K X}
    (h : y.run s.current = .ok a c') : (onCurrent y).run s = .ok a (s.withCurrent c') :=
  run_zoom_of_ok h

end Focus

/-! ### Structural ids -/

/-- How many structural versions a plan appends. -/
def structuralIdsNeeded (plan : UpdatePlan) : ℕ :=
  plan.carryFrom.isSome.toNat + plan.reassert.isSome.toNat

omit [DecidableEq K] in
lemma run_allocateStructuralIds (plan : UpdatePlan) (s : EntityStore K X) :
    (allocateStructuralIds plan).run s =
      .ok (plan.carryFrom.map fun _ => .structural s.versionIdGen,
          plan.reassert.map fun _ => .structural (s.versionIdGen + plan.carryFrom.isSome.toNat))
        { s with versionIdGen := s.versionIdGen + structuralIdsNeeded plan } := by
  simp only [allocateStructuralIds, structuralIdsNeeded]
  cases plan.carryFrom <;> cases plan.reassert <;> rfl

/-! ### Indexing -/

variable {h : HistoricalStorage K X}

lemma insertIndexVersion_of_room (hcons : h.Consistent) (hl : Chain h k l) (slice : Slice)
    (hroom : h.HasRoom k 1) (hnew : ∀ x, h.indexOf k = some x → ∀ y ∈ x, y.versionId ≠ slice.1) :
    ∃ h', insertIndexVersion k slice h = .ok h' ∧ Evolves k h h' l ∧
      h'.indexOf k = (h.indexOf k).map (· ++ [⟨slice.1, slice.2⟩]) := by
  rcases hx : h.temporalIndexes with _ | ix
  · exact ⟨h, by simp [insertIndexVersion, hx], .refl hcons hl, by simp [indexOf, hx]⟩
  · have hfull : ¬ ix.maxVersionsPerEntity ≤ (ix.entries k).length := by
      have := hroom ix hx
      omega
    have hany : ((ix.entries k).any fun y => y.versionId = slice.1) = false := by
      simpa using hnew (ix.entries k) (by simp [indexOf, hx])
    have hins : insertIndexVersion k slice h = .ok { h with temporalIndexes := some { ix with
        entries := Function.update ix.entries k (ix.entries k ++ [⟨slice.1, slice.2⟩]) } } := by
      simp only [insertIndexVersion, hx, TemporalIndexes.insertVersion, if_neg hfull, hany]
      rfl
    refine ⟨_, hins, ⟨hcons, ?_, ?_, rfl, by simp [hx]⟩, by simp [indexOf, hx]⟩
    · exact { hl with }
    · intro e' he
      exact ⟨rfl, rfl, rfl, rfl, fun _ _ _ => Iff.rfl, by simp [indexOf, hx, he]⟩

lemma insertIndexVersion_of_full (slice : Slice)
    (hfull : ¬ h.HasRoom k 1) : ∃ e, insertIndexVersion k slice h = .error e := by
  rcases hx : h.temporalIndexes with _ | ix
  · exact absurd (fun ix hix => nomatch hx.symm.trans hix) hfull
  · have hle : ix.maxVersionsPerEntity ≤ (ix.entries k).length := by
      by_contra hlt
      refine hfull fun ix' hix => ?_
      rw [hx] at hix
      cases hix
      omega
    exact ⟨_, by simp only [insertIndexVersion, hx, TemporalIndexes.insertVersion, if_pos hle]; rfl⟩

lemma run_indexVersion_of_ok {slice : Slice} {h' : HistoricalStorage K X}
    (h : insertIndexVersion k slice s.history = .ok h') :
    (indexVersion k slice).run s = .ok () (s.withHistory h') :=
  run_onHistory (run_modifyE h)

lemma run_indexVersion_of_error {slice : Slice} {e : StorageError}
    (h : insertIndexVersion k slice s.history = .error e) :
    (indexVersion k slice).run s = .error e s :=
  run_onHistory_of_error (run_modifyE_of_error h)

/-- None of the slices is indexed yet, and none is listed twice. -/
def Unindexed (h : HistoricalStorage K X) (k : K) (slices : List Slice) : Prop :=
  (slices.map (·.1)).Nodup ∧
    ∀ x, h.indexOf k = some x → ∀ y ∈ x, y.versionId ∉ slices.map (·.1)

/-- One step of the indexing loop: the rest is still to be indexed, with one place less. -/
lemma indexVersion_step {sl : Slice} {rest : List Slice} (hcons : h.Consistent) (hl : Chain h k l)
    (hroom : h.HasRoom k 1) (hnew : Unindexed h k (sl :: rest)) :
    ∃ h', insertIndexVersion k sl h = .ok h' ∧ Evolves k h h' l ∧
      h'.indexOf k = (h.indexOf k).map (· ++ [⟨sl.1, sl.2⟩]) ∧ Unindexed h' k rest ∧
      ∀ n, h'.HasRoom k n ↔ h.HasRoom k (1 + n) := by
  obtain ⟨hnodup, hnew⟩ := hnew
  obtain ⟨h', hins, hev, hix⟩ := insertIndexVersion_of_room hcons hl sl hroom
    (fun x hx y hy heq => hnew x hx y hy (by simp [heq]))
  refine ⟨h', hins, hev, hix, ⟨(nodup_cons.mp hnodup).2, ?_⟩, fun n => hasRoom_congr hev ?_⟩
  · intro x hx y hy hin
    rw [hix, Option.map_eq_some_iff] at hx
    obtain ⟨x₀, hx₀, rfl⟩ := hx
    rcases mem_append.mp hy with hy | hy
    · exact hnew x₀ hx₀ y hy (mem_cons_of_mem _ hin)
    · rw [mem_singleton.mp hy] at hin
      exact (nodup_cons.mp hnodup).1 hin
  · intro x hx x' hx'
    rw [hix, hx] at hx'
    cases hx'
    simp

/-- **Indexing** a list of new versions succeeds when there is room for all of them. -/
lemma run_indexVersions (slices : List Slice) : ∀ {s : EntityStore K X},
    s.history.Consistent → Chain s.history k l → s.history.HasRoom k slices.length →
    Unindexed s.history k slices →
    ∃ h', (each (indexVersion k) slices).run s = .ok () (s.withHistory h') ∧
      Evolves k s.history h' l ∧
      h'.indexOf k = (s.history.indexOf k).map (· ++ slices.map fun sl => ⟨sl.1, sl.2⟩) := by
  induction slices with
  | nil =>
    intro s hcons hl _ _
    exact ⟨s.history, rfl, .refl hcons hl, by simp⟩
  | cons sl rest ih =>
    intro s hcons hl hroom hnew
    obtain ⟨h₁, hins, hev, hix, hnew₁, hroom₁⟩ := indexVersion_step hcons hl
      (fun ix hx => le_trans (by simp) (hroom ix hx)) hnew
    obtain ⟨h₂, hrun, hev₂, hix₂⟩ := @ih (s.withHistory h₁) hev.consistent hev.chain
      ((hroom₁ _).mpr (by rwa [Nat.add_comm])) hnew₁
    refine ⟨h₂, ?_, hev.trans hev₂, ?_⟩
    · rw [each, run_bind_of_ok (run_indexVersion_of_ok hins), hrun]
      rfl
    · rw [hix₂, withHistory, hix, Option.map_map]
      congr 1
      funext x
      simp

lemma hasRoom_of_run_indexVersions (slices : List Slice) : ∀ {s s' : EntityStore K X},
    slices ≠ [] → s.history.Consistent → Chain s.history k l → Unindexed s.history k slices →
    (each (indexVersion k) slices).run s = .ok () s' → s.history.HasRoom k slices.length := by
  induction slices with
  | nil => exact fun hne => absurd rfl hne
  | cons sl rest ih =>
    intro s s' _ hcons hl hnew hrun
    rw [each] at hrun
    have hone : s.history.HasRoom k 1 := by
      by_contra hfull
      obtain ⟨e, he⟩ := insertIndexVersion_of_full sl hfull
      rw [run_bind_of_error (run_indexVersion_of_error he)] at hrun
      cases hrun
    obtain ⟨h₁, hins, hev, -, hnew₁, hroom₁⟩ := indexVersion_step hcons hl hone hnew
    rw [run_bind_of_ok (run_indexVersion_of_ok hins)] at hrun
    rcases rest.eq_nil_or_concat with rfl | ⟨_, _, hrest⟩
    · exact hone
    · have hne : rest ≠ [] := by simp [hrest]
      have := (hroom₁ _).mp (@ih (s.withHistory h₁) s' hne hev.consistent hev.chain hnew₁ hrun)
      rwa [Nat.add_comm] at this

/-! ### What success says -/

variable {h h' : HistoricalStorage K X} {content : Content X} {vid : VersionId}

variable (hvid : vid.isStructural = false)

include hvid

lemma lt_maxVersions_of_addVersionWithInterval {t : BiTemporalInterval}
    (h0 : addVersionWithInterval k vid t content h = .ok h') :
    h.logicalVersionCount k < h.maxVersionsPerEntity := by
  by_contra hfull
  simp [addVersionWithInterval, hvid, not_lt.mp hfull] at h0

lemma lt_maxVersions_of_addVersion {vf c : Timestamp} {b : Bool}
    (h0 : addVersion k vid vf c content b h = .ok h') :
    h.logicalVersionCount k < h.maxVersionsPerEntity := by
  simp only [addVersion] at h0
  split at h0
  · split at h0
    · cases h0
    · exact lt_maxVersions_of_addVersionWithInterval hvid h0
  · exact lt_maxVersions_of_addVersionWithInterval hvid h0

lemma lt_maxVersions_of_addRetractedVersion
    (h0 : addRetractedVersion k vid vf vt c content h = .ok h') :
    h.logicalVersionCount k < h.maxVersionsPerEntity := by
  simp only [addRetractedVersion] at h0
  split at h0
  · cases h0
  · exact lt_maxVersions_of_addVersionWithInterval hvid h0

omit hvid

lemma start_le_of_addRetractedVersion (h0 : addRetractedVersion k vid vf vt c content h = .ok h') :
    vf ≤ vt := by
  simp only [addRetractedVersion] at h0
  split at h0
  · cases h0
  · rename_i t ht
    exact (BiTemporalInterval.closeValidTime_eq_ok ht).1

lemma lt_maxVersions_of_applyUpdate {plan : UpdatePlan} {vf c : Timestamp}
    {cid rid : Option VersionId} {a : AppliedUpdate X}
    (h0 : (HistoricalStorage.applyUpdate k plan vf c vid content cid rid).run h = .ok a h') :
    h.logicalVersionCount k < h.maxVersionsPerEntity := by
  by_contra hfull
  rw [HistoricalStorage.applyUpdate, run_bind_of_ok run_get, if_pos (by omega)] at h0
  cases h0

section Vectors

variable [EntityKind K X] {cur cur' : CurrentStorage K X} {x : Entity X}

lemma indexVectors_of_insertDirect (h : cur.insertDirect k x = .ok cur') :
    cur.indexVectors none x.properties = .ok () := by
  simp only [CurrentStorage.insertDirect] at h
  rcases hv : cur.indexVectors none x.properties with e | u
  · rw [hv] at h
    cases h
  · rfl

lemma indexVectors_of_updateDirect (h : cur.updateDirect k x = .ok cur') :
    cur.indexVectors ((cur.get k).map (·.properties)) x.properties = .ok () := by
  simp only [CurrentStorage.updateDirect] at h
  rcases hv : cur.indexVectors ((cur.get k).map (·.properties)) x.properties with e | u
  · rw [hv] at h
    cases h
  · exact hv

end Vectors

end EntityStore

end Aletheia
