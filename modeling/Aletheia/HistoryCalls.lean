import Aletheia.Writes

/-!
# The calls a write makes on the history

A write runs as a sequence of calls on the historical storage: versions are closed, versions are
added, and the added ones are entered into the temporal index. The calls are known from the store
the write starts from. Indexes that follow the history can be driven by them.
-/

namespace Aletheia

open HistoricalStorage Exec EntityStore

variable {K X : Type} [DecidableEq K]

inductive HistoryCall (K X : Type) where
  | closeIfRecorded (vid : VersionId) (stop : Timestamp)
  | close (vid : VersionId) (stop : Timestamp)
  | add (entity : K) (vid : VersionId) (temporal : BiTemporalInterval) (content : Content X)
      (isTombstone : Bool)
  | index (entity : K) (slice : Slice)

def HistoryCall.exec : HistoryCall K X → EStateM StorageError (HistoricalStorage K X) Unit
  | .closeIfRecorded vid stop => HistoricalStorage.closeIfRecorded stop vid
  | .close vid stop => Exec.modifyE (closeVersionTransactionTime vid stop)
  | .add entity vid temporal content _ =>
    Exec.modifyE (addVersionWithInterval entity vid temporal content)
  | .index entity slice => Exec.modifyE (EntityStore.insertIndexVersion entity slice)

def addCall (k : K) (isTombstone : Bool) (r : Record X) : HistoryCall K X :=
  .add k r.id r.temporal r.content isTombstone

def indexCall (k : K) (r : Record X) : HistoryCall K X := .index k r.slice

/-- Add versions in order, then enter them into the temporal index. -/
def appendCalls (k : K) (isTombstone : Bool) (rs : List (Record X)) : List (HistoryCall K X) :=
  rs.map (addCall k isTombstone) ++ rs.map (indexCall k)

/-- The carry-forward as a version to add. -/
def carryRecords (validFrom commit : Timestamp) :
    Option (Structural X) → Except StorageError (List (Record X))
  | none => .ok []
  | some (id, start, content) => do
    let temporal ← closedInterval start commit validFrom
    return [⟨id, temporal, content⟩]

variable [EntityKind K X]

/-- The calls of a write that starts from `s`. -/
def Write.calls (s : EntityStore K X) (commit : Timestamp) :
    Write K X → Except StorageError (List (HistoryCall K X))
  | .create k vf content =>
    .ok (appendCalls k false [⟨.new s.versionIdGen, .withValidTime vf commit, content⟩])
  | .update k vf content => do
    let plan := s.history.planEntityUpdate k vf
    let carry ← carryPayload plan content.ends
      (plan.carryFrom.map fun _ => .structural (s.versionIdGen + 1)) s.history
    let reassert ← reassertPayload plan content.ends
      (plan.reassert.map fun _ =>
        .structural (s.versionIdGen + 1 + plan.carryFrom.isSome.toNat)) s.history
    let carried ← carryRecords vf commit carry
    let temporal ← newInterval plan vf commit
    return (toClose plan (s.history.heads k)).map (.closeIfRecorded · commit) ++
      appendCalls k false (carried ++ [⟨.new s.versionIdGen, temporal, content⟩] ++
        reassert.toList.map (reassertRecord commit))
  | .delete k vf prov =>
    match s.current.get k with
    | none => .error (EntityKind.notFound X k)
    | some x => do
      let temporal ← EntityStore.createTemporalInterval vf commit true
      return (s.history.openSlices k ++ (s.history.heads k).toList).map
          (.closeIfRecorded · commit) ++
        appendCalls k true
          [⟨.new s.versionIdGen, temporal, ⟨x.label, x.properties, x.ends, prov⟩⟩]
  | .retract k vt prov =>
    match s.current.get k with
    | none => .error (EntityKind.notFound X k)
    | some x => do
      let temporal ←
        closedInterval (EntityStore.headValidFrom s.history k commit) commit vt
      return (s.history.heads k).toList.map (.close · commit) ++
        appendCalls k false
          [⟨.new s.versionIdGen, temporal, ⟨x.label, x.properties, x.ends, prov⟩⟩]

section Faithful

variable {s s' : EntityStore K X} {h h' h'' : HistoricalStorage K X} {k : K} {vf commit : Timestamp}
  {r : Record X} {ids : List VersionId} {rs : List (Record X)}

omit [EntityKind K X] in
lemma run_closeCalls (hrun : (each (closeIfRecorded commit) ids).run h = .ok () h') :
    (each HistoryCall.exec
      (ids.map fun vid => (.closeIfRecorded vid commit : HistoryCall K X))).run h = .ok () h' := by
  rw [each_map]
  exact hrun

omit [EntityKind K X] in
lemma run_indexCalls (hrun : (each (indexVersion k) (rs.map Record.slice)).run s = .ok () s') :
    (each HistoryCall.exec (rs.map (indexCall k))).run s.history = .ok () s'.history := by
  induction rs generalizing s with
  | nil =>
    cases hrun
    rfl
  | cons r rs ih =>
    obtain ⟨_, s₁, hhead, hrest⟩ := run_bind_eq_ok.mp hrun
    obtain ⟨h₁, hh₁, rfl⟩ := run_onHistory_eq_ok.mp hhead
    exact run_bind_ok hh₁ (ih hrest)

omit [EntityKind K X] in
lemma run_addCall {isTombstone : Bool}
    (hadd : addVersionWithInterval k r.id r.temporal r.content h = .ok h') :
    (addCall k isTombstone r).exec.run h = .ok () h' :=
  run_modifyE hadd

omit [EntityKind K X] in
lemma run_appendCalls_singleton (isTombstone : Bool)
    (hadd : addVersionWithInterval k r.id r.temporal r.content h = .ok h')
    (hindex : (modifyE (insertIndexVersion k r.slice)).run h' = .ok () h'') :
    (each HistoryCall.exec (appendCalls k isTombstone [r])).run h = .ok () h'' := by
  refine run_bind_ok (run_addCall hadd) ?_
  exact run_each_singleton.trans hindex

omit [EntityKind K X] in
lemma run_addCalls_append {slice : Slice}
    (happend : (append k r.id r.temporal r.content).run h = .ok slice h')
    (hrest : (each HistoryCall.exec (rs.map (addCall k false))).run h' = .ok () h'') :
    slice = r.slice ∧
      (each HistoryCall.exec ((r :: rs).map (addCall k false))).run h = .ok () h'' := by
  obtain ⟨_, h₁, hadd, hpure⟩ := run_bind_eq_ok.mp happend
  cases hpure
  exact ⟨rfl, run_bind_ok hadd hrest⟩

omit [EntityKind K X] in
lemma exists_records_of_appends {carry reassert : Option (Structural X)} {vid : VersionId}
    {content : Content X} {carried reasserted : List Slice} {new : Slice}
    {temporal : BiTemporalInterval} {h₁ h₂ h₃ : HistoricalStorage K X}
    (hcarry : (appendCarry k vf commit carry).run h = .ok carried h₁)
    (hnew : (append k vid temporal content).run h₁ = .ok new h₂)
    (hreassert : (appendReassert k commit reassert).run h₂ = .ok reasserted h₃) :
    ∃ rs : List (Record X), carryRecords vf commit carry = .ok rs ∧
      (rs ++ [Record.mk vid temporal content] ++ reassert.toList.map (reassertRecord commit)).map
        Record.slice = carried ++ [new] ++ reasserted ∧ (each HistoryCall.exec
        ((rs ++ [Record.mk vid temporal content] ++ reassert.toList.map (reassertRecord commit)).map
          (addCall k false))).run h = .ok () h₃ := by
  -- the re-assertion first, then the versions added before it
  have hlast : (reassert.toList.map (reassertRecord commit)).map Record.slice = reasserted ∧
      (each HistoryCall.exec ((reassert.toList.map (reassertRecord commit)).map
        (addCall k false))).run h₂ = .ok () h₃ := by
    cases reassert with
    | none =>
      cases hreassert
      exact ⟨rfl, rfl⟩
    | some r =>
      obtain ⟨id, start, ct⟩ := r
      obtain ⟨slice, h₃', happend, hpure⟩ := run_bind_eq_ok.mp hreassert
      cases hpure
      have hnone : (each HistoryCall.exec
          (([] : List (Record X)).map (addCall k false))).run h₃ = .ok () h₃ := rfl
      obtain ⟨hslice, hrun⟩ :=
        run_addCalls_append (r := reassertRecord commit (id, start, ct)) happend hnone
      exact ⟨by rw [hslice]; rfl, hrun⟩
  obtain ⟨hslices, hrun⟩ := hlast
  obtain ⟨hslice, hrun⟩ := run_addCalls_append (r := ⟨vid, temporal, content⟩) hnew hrun
  cases carry with
  | none =>
    cases hcarry
    refine ⟨[], rfl, ?_, hrun⟩
    rw [List.nil_append, List.map_append, hslices, hslice]
    rfl
  | some c =>
    obtain ⟨id, start, ct⟩ := c
    obtain ⟨t, h₀, hread, hrest⟩ := run_bind_eq_ok.mp hcarry
    obtain ⟨ht, rfl⟩ := run_readE_eq_ok.mp hread
    obtain ⟨slice, h₁', happend, hpure⟩ := run_bind_eq_ok.mp hrest
    cases hpure
    obtain ⟨hcarried, hrun⟩ := run_addCalls_append (r := ⟨id, t, ct⟩) happend hrun
    refine ⟨[⟨id, t, ct⟩], ?_, ?_, hrun⟩
    · rw [carryRecords, ht]
      rfl
    · rw [List.map_append, List.map_append, hslices, hslice, hcarried]
      rfl

omit [EntityKind K X] in
lemma exists_calls_of_applyUpdate {plan : UpdatePlan} {vid : VersionId} {content : Content X}
    {carryId reassertId : Option VersionId} {applied : AppliedUpdate X}
    (hrun : (HistoricalStorage.applyUpdate k plan vf commit vid content carryId reassertId).run h =
      .ok applied h') : ∃ (carry reassert : Option (Structural X)) (rs : List (Record X))
      (temporal : BiTemporalInterval), carryPayload plan content.ends carryId h = .ok carry ∧
      reassertPayload plan content.ends reassertId h = .ok reassert ∧
      carryRecords vf commit carry = .ok rs ∧ newInterval plan vf commit = .ok temporal ∧
      (rs ++ [Record.mk vid temporal content] ++ reassert.toList.map (reassertRecord commit)).map
        Record.slice = applied.appended ∧ (each HistoryCall.exec
        ((toClose plan (h.heads k)).map (fun vid => .closeIfRecorded vid commit) ++
          (rs ++ [Record.mk vid temporal content] ++
            reassert.toList.map (reassertRecord commit)).map (addCall k false))).run h =
        .ok () h' := by
  have hcap := lt_maxVersions_of_applyUpdate hrun
  rw [HistoricalStorage.applyUpdate, run_bind_of_ok run_get, if_neg (by omega)] at hrun
  obtain ⟨carry, _, hread, hrun⟩ := run_bind_eq_ok.mp hrun
  obtain ⟨hcarry, rfl⟩ := run_readE_eq_ok.mp hread
  obtain ⟨reassert, _, hread, hrun⟩ := run_bind_eq_ok.mp hrun
  obtain ⟨hreassert, rfl⟩ := run_readE_eq_ok.mp hread
  obtain ⟨_, h₀, hclose, hrun⟩ := run_bind_eq_ok.mp hrun
  obtain ⟨carried, h₁, happend, hrun₁⟩ := run_bind_eq_ok.mp hrun
  obtain ⟨temporal, _, hread, hrun₂⟩ := run_bind_eq_ok.mp hrun₁
  obtain ⟨hinterval, rfl⟩ := run_readE_eq_ok.mp hread
  obtain ⟨new, h₂, hnew, hrun₃⟩ := run_bind_eq_ok.mp hrun₂
  obtain ⟨reasserted, h₃, hlast, hpure⟩ := run_bind_eq_ok.mp hrun₃
  cases hpure
  obtain ⟨rs, hrs, hslices, hadds⟩ := exists_records_of_appends happend hnew hlast
  exact ⟨carry, reassert, rs, temporal, hcarry, hreassert, hrs, hinterval, hslices,
    run_each_append (run_closeCalls hclose) hadds⟩

variable {txId : TxId} {content : Content X} {prov : Option Provenance}

omit [EntityKind K X] in
lemma exists_of_run_each_close
    (hrun : (each (fun vid => onHistory (K := K) (X := X)
      (modifyE (closeVersionTransactionTime vid commit))) ids).run s = .ok () s') :
    ∃ h', (each HistoryCall.exec
        (ids.map fun vid => (.close vid commit : HistoryCall K X))).run s.history = .ok () h' ∧
      s' = s.withHistory h' := by
  induction ids generalizing s with
  | nil =>
    cases hrun
    exact ⟨_, rfl, rfl⟩
  | cons vid ids ih =>
    obtain ⟨_, s₁, hhead, hrest⟩ := run_bind_eq_ok.mp hrun
    obtain ⟨h₁, hclose, rfl⟩ := run_onHistory_eq_ok.mp hhead
    obtain ⟨h', hcalls, rfl⟩ := ih hrest
    exact ⟨h', run_bind_ok hclose hcalls, rfl⟩

omit [DecidableEq K] [EntityKind K X] in
lemma closeValidTime_of_closedInterval {start stop : Timestamp} {t : BiTemporalInterval}
    (ht : closedInterval start commit stop = .ok t) :
    (BiTemporalInterval.withValidTime start commit).closeValidTime stop = .ok t := by
  unfold closedInterval at ht
  split at ht
  · cases ht
  · rename_i t' ht'
    rw [ht', Except.ok.inj ht]

lemma calls_create {vf : ValidTimestamp}
    (hrun : ((Write.create k vf content).exec txId commit).run s = .ok () s') :
    ∃ cs, (Write.create k vf content).calls s commit = .ok cs ∧
      (each HistoryCall.exec cs).run s.history = .ok () s'.history := by
  refine ⟨_, rfl, ?_⟩
  obtain ⟨n, s₁, hnext, hrun⟩ := run_bind_eq_ok.mp hrun
  cases hnext
  obtain ⟨_, s₂, hcurrent, hrun⟩ := run_bind_eq_ok.mp hrun
  obtain ⟨cur, -, rfl⟩ := run_onCurrent_modifyE_eq_ok.mp hcurrent
  obtain ⟨_, s₃, hhistory, hrun⟩ := run_bind_eq_ok.mp hrun
  obtain ⟨h₁, hadd, rfl⟩ := run_onHistory_modifyE_eq_ok.mp hhistory
  obtain ⟨t, s₄, hread, hrun⟩ := run_bind_eq_ok.mp hrun
  obtain ⟨ht, rfl⟩ := run_readE_eq_ok.mp hread
  cases ht
  obtain ⟨h₂, hindex, rfl⟩ := run_onHistory_eq_ok.mp hrun
  exact run_appendCalls_singleton false hadd hindex

lemma calls_update {vf : ValidTimestamp}
    (hrun : ((Write.update k vf content).exec txId commit).run s = .ok () s') :
    ∃ cs, (Write.update k vf content).calls s commit = .ok cs ∧
      (each HistoryCall.exec cs).run s.history = .ok () s'.history := by
  obtain ⟨n, s₁, hnext, hrun⟩ := run_bind_eq_ok.mp hrun
  cases hnext
  obtain ⟨_, _, hget, hrun⟩ := run_bind_eq_ok.mp hrun
  cases hget
  obtain ⟨ids, s₂, hids, hrun⟩ := run_bind_eq_ok.mp hrun
  rw [run_allocateStructuralIds] at hids
  cases hids
  obtain ⟨applied, s₃, hhistory, hrun⟩ := run_bind_eq_ok.mp hrun
  obtain ⟨h₃, happly, rfl⟩ := run_onHistory_eq_ok.mp hhistory
  obtain ⟨_, s₄, hcurrent, hindex⟩ := run_bind_eq_ok.mp hrun
  obtain ⟨cur, -, rfl⟩ := run_onCurrent_modifyE_eq_ok.mp hcurrent
  obtain ⟨carry, reassert, rs, temporal, hcarry, hreassert, hrs, hinterval, hslices, hcalls⟩ :=
    exists_calls_of_applyUpdate happly
  rw [← hslices] at hindex
  refine ⟨_, ?_, run_each_append hcalls (run_indexCalls hindex)⟩
  simp only [Write.calls, hcarry, hreassert, hrs, hinterval, bind, Except.bind, pure, Except.pure,
    appendCalls, List.append_assoc]

lemma calls_delete {vf : ValidTimestamp}
    (hrun : ((Write.delete k vf prov : Write K X).exec txId commit).run s = .ok () s') :
    ∃ cs, (Write.delete k vf prov : Write K X).calls s commit = .ok cs ∧
      (each HistoryCall.exec cs).run s.history = .ok () s'.history := by
  obtain ⟨n, s₁, hnext, hrun⟩ := run_bind_eq_ok.mp hrun
  cases hnext
  obtain ⟨x, s₁, hget, hrun⟩ := run_bind_eq_ok.mp hrun
  have hx := get_of_run_getCurrent hget
  obtain ⟨-, rfl⟩ := run_readE_eq_ok.mp hget
  obtain ⟨_, s₂, hhistory, hrun⟩ := run_bind_eq_ok.mp hrun
  obtain ⟨h₁, hclose, rfl⟩ := run_onHistory_eq_ok.mp hhistory
  obtain ⟨t, s₃, hread, hrun⟩ := run_bind_eq_ok.mp hrun
  obtain ⟨ht, rfl⟩ := run_readE_eq_ok.mp hread
  obtain ⟨_, s₄, hhistory, hrun⟩ := run_bind_eq_ok.mp hrun
  obtain ⟨h₂, hadd, rfl⟩ := run_onHistory_modifyE_eq_ok.mp hhistory
  obtain ⟨_, s₅, hindexed, hrun⟩ := run_bind_eq_ok.mp hrun
  obtain ⟨h₃, hindex, rfl⟩ := run_onHistory_eq_ok.mp hindexed
  obtain ⟨cur, -, rfl⟩ := run_onCurrent_modifyE_eq_ok.mp hrun
  rw [HistoricalStorage.closeAllSlices, run_bind_of_ok run_get] at hclose
  have hadd' : addVersionWithInterval k (.new s.versionIdGen) t
      ⟨x.label, x.properties, x.ends, prov⟩ h₁ = .ok h₂ := by
    have hinterval := closeValidTime_of_closedInterval ht
    simp only [addVersion, if_true, hinterval] at hadd
    exact hadd
  refine ⟨_, ?_, run_each_append (run_closeCalls hclose)
    (run_appendCalls_singleton true (r := ⟨.new s.versionIdGen, t, _⟩) hadd' hindex)⟩
  have hx' : s.current.get k = some x := hx
  simp only [Write.calls, hx', ht, bind, Except.bind, pure, Except.pure]

lemma calls_retract {vt : ValidTimestamp}
    (hrun : ((Write.retract k vt prov : Write K X).exec txId commit).run s = .ok () s') :
    ∃ cs, (Write.retract k vt prov : Write K X).calls s commit = .ok cs ∧
      (each HistoryCall.exec cs).run s.history = .ok () s'.history := by
  obtain ⟨n, s₁, hnext, hrun⟩ := run_bind_eq_ok.mp hrun
  cases hnext
  obtain ⟨x, s₁, hget, hrun⟩ := run_bind_eq_ok.mp hrun
  have hx := get_of_run_getCurrent hget
  obtain ⟨-, rfl⟩ := run_readE_eq_ok.mp hget
  rw [run_bind_of_ok run_get] at hrun
  obtain ⟨_, s₂, hclosed, hrun⟩ := run_bind_eq_ok.mp hrun
  obtain ⟨h₁, hclose, rfl⟩ := exists_of_run_each_close hclosed
  obtain ⟨_, s₄, hhistory, hrun⟩ := run_bind_eq_ok.mp hrun
  obtain ⟨h₂, hadd, rfl⟩ := run_onHistory_modifyE_eq_ok.mp hhistory
  obtain ⟨t, s₃, hread, hrun⟩ := run_bind_eq_ok.mp hrun
  obtain ⟨ht, rfl⟩ := run_readE_eq_ok.mp hread
  obtain ⟨_, s₅, hindexed, hrun⟩ := run_bind_eq_ok.mp hrun
  obtain ⟨h₃, hindex, rfl⟩ := run_onHistory_eq_ok.mp hindexed
  obtain ⟨cur, -, rfl⟩ := run_onCurrent_modifyE_eq_ok.mp hrun
  have hadd' : addVersionWithInterval k (.new s.versionIdGen) t
      ⟨x.label, x.properties, x.ends, prov⟩ h₁ = .ok h₂ := by
    have hinterval := closeValidTime_of_closedInterval ht
    simp only [addRetractedVersion] at hadd
    rw [hinterval] at hadd
    exact hadd
  refine ⟨_, ?_, run_each_append hclose
    (run_appendCalls_singleton false (r := ⟨.new s.versionIdGen, t, _⟩) hadd' hindex)⟩
  have hx' : s.current.get k = some x := hx
  have ht' : closedInterval (headValidFrom s.history k commit) commit vt = .ok t := ht
  simp only [Write.calls, hx', ht', bind, Except.bind, pure, Except.pure]

/-- **The history of a write is what its calls do.** -/
theorem run_calls {w : Write K X} (hrun : (w.exec txId commit).run s = .ok () s') :
    ∃ cs, w.calls s commit = .ok cs ∧
      (each HistoryCall.exec cs).run s.history = .ok () s'.history := by
  cases w with
  | create k vf content => exact calls_create hrun
  | update k vf content => exact calls_update hrun
  | delete k vf prov => exact calls_delete hrun
  | retract k vt prov => exact calls_retract hrun

end Faithful

end Aletheia
