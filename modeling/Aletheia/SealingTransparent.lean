import Aletheia.SealingReads

/-!
# Sealing is not seen while no subject is erased

Every key of a keyring without erased subjects can be unwrapped, so sealing never fails and puts
exactly one layer on the values that a designation covers.
-/

namespace Aletheia.CryptoShred

open List

variable {β : Type}

/-! ### Keyrings without erased subjects -/

/-- Every subject is active and its key is wrapped under the master key. -/
structure LiveKeyring (mek : Mek) (k : SubjectKeyring) : Prop where
  ok : k.Ok
  wraps : ∀ e ∈ k.entries, ∃ w, e.state = .active ∧ e.wrappedKey = some w ∧
    w.wrapped.key = mek ∧ w.wrapped.aad = (e.subjectId, w.keyVersion)

section Live

open Exec

variable {k k₀ k' : SubjectKeyring} {mek : Mek} {x : SubjectEntry} {e : EntityId}

lemma LiveKeyring.dekFromGuard (h : LiveKeyring mek k) (hx : x ∈ k.entries) :
    ∃ dek k', k.dekFromGuard x.subjectId mek = .ok (dek, k') ∧
      cellOf k.entries x.subjectId = .active dek ∧ LiveKeyring mek k' ∧ SameEntries k k' := by
  have hok : ∃ r, k.dekFromGuard x.subjectId mek = .ok r := by
    obtain ⟨w, hactive, hw, hkey, haad⟩ := h.wraps x hx
    have hget : k.get x.subjectId = some x := h.ok.entries.lookup_of_mem hx
    unfold SubjectKeyring.dekFromGuard
    cases k.cache x.subjectId with
    | some key => exact ⟨_, rfl⟩
    | none => simp [hget, hactive, hw, decrypt, hkey, haad]
  obtain ⟨⟨dek, k'⟩, hk⟩ := hok
  obtain ⟨hok', hentries, hcell⟩ := h.ok.dekFromGuard hk
  refine ⟨dek, k', hk, hcell, ⟨hok', ?_⟩, sameEntries_of_dekFromGuard hk⟩
  rw [hentries]
  exact h.wraps

/-- The envelopes of the map are bound to the entity and the property and made with the key of
their subject. -/
def Bound (es : List SubjectEntry) (e : EntityId) (m : Properties β) : Prop :=
  ∀ p ∈ m, ∀ s version dek entity property inner,
    p.2 = .sealed s version dek entity property inner →
      cellOf es s = .active dek ∧ entity = e.id ∧ property = p.1

lemma bound_of_allPlain {es : List SubjectEntry} {m : Properties β} (h : Properties.AllPlain m) :
    Bound es e m := by
  intro p hp s version dek entity property inner hv
  have := h p hp
  rw [hv] at this
  cases this

/-- Seal one layer: with it taken off, the map is as before. -/
def Layered (k : SubjectKeyring) (e : EntityId) (m m' : Properties β) : Prop :=
  Properties.opened m' = m ∧ Bound k.entries e m'

/-- The states while a map is sealed. -/
def LiveFrom (mek : Mek) (k₀ k : SubjectKeyring) : Prop := LiveKeyring mek k ∧ SameEntries k₀ k

lemma dek_total (hx : x ∈ k₀.entries) : Triple (LiveFrom mek k₀) (dekFromGuard x.subjectId mek)
      (fun dek k => LiveFrom mek k₀ k ∧ cellOf k₀.entries x.subjectId = .active dek)
      (fun _ => False) := by
  rintro k ⟨hlive, hsame⟩
  rw [← hsame.1] at hx ⊢
  obtain ⟨dek, k', hk, hcell, hlive', hsame'⟩ := hlive.dekFromGuard hx
  simp only [EStateM.run, CryptoShred.dekFromGuard, hk]
  exact ⟨⟨hlive', hsame.trans hsame'⟩, hcell⟩

/-- An item without a subject keeps its value, one with a subject gets a layer. -/
lemma sealItems_total {plan : List ((String × Value β) × Option SubjectEntry)}
    (hplain : ∀ i ∈ plan, i.1.2.isPlain) (hplan : ∀ i ∈ plan, ∀ x ∈ i.2, x ∈ k₀.entries) :
    Triple (LiveFrom mek k₀) (sealItems mek e plan)
      (fun m' k => LiveFrom mek k₀ k ∧ Layered k₀ e (plan.map Prod.fst) m') (fun _ => False) := by
  induction plan with
  | nil => exact triple_pure fun k hk => ⟨hk, rfl, fun p hp => nomatch hp⟩
  | cons i plan ih =>
    obtain ⟨hi, hplainRest⟩ := forall_mem_cons.mp hplain
    obtain ⟨hx, hplanRest⟩ := forall_mem_cons.mp hplan
    obtain ⟨⟨key, v⟩, s⟩ := i
    cases s with
    | none =>
      refine (ih hplainRest hplanRest).bind fun m' => triple_pure ?_
      rintro k ⟨hk, hopened, hbound⟩
      refine ⟨hk, ?_, forall_mem_cons.mpr ⟨?_, hbound⟩⟩
      · rw [map_cons, ← hopened, Properties.opened, map_cons, Value.opened_of_isPlain hi]
        rfl
      · exact (bound_of_allPlain (forall_mem_singleton.mpr hi)) _ mem_cons_self
    | some x =>
      refine (dek_total (hx x rfl)).bind fun dek => ?_
      intro k hk
      obtain ⟨hk, hcell⟩ := hk
      refine (ih hplainRest hplanRest).bind (fun m' => triple_pure ?_) k hk
      rintro k ⟨hk, hopened, hbound⟩
      refine ⟨hk, ?_, forall_mem_cons.mpr ⟨?_, hbound⟩⟩
      · rw [map_cons, ← hopened, Properties.opened, map_cons]
        rfl
      · intro s version dek' entity property inner hv
        obtain ⟨rfl, -, rfl, rfl, rfl, -⟩ := Value.sealed.inj hv
        exact ⟨hcell, rfl, rfl⟩

lemma LiveKeyring.sealingSubject (h : LiveKeyring mek k) (key : String) :
    ∃ s, k.sealingSubject e key = .ok s ∧ ∀ x ∈ s, x ∈ k.entries := by
  have hmem : ∀ x ∈ k.designating e key, x ∈ k.entries := by
    intro x hx
    obtain ⟨u, -, hu⟩ := mem_filterMap.mp (mem_filter.mp hx).1
    exact (mem_of_lookup hu).1
  unfold SubjectKeyring.sealingSubject
  split_ifs
  · exact ⟨none, rfl, fun x hx => nomatch hx⟩
  · split
    next x hx =>
      refine ⟨some x, rfl, fun y hy => ?_⟩
      cases hy
      exact hmem x (mem_of_find?_eq_some hx)
    next hnone =>
      split
      next x rest heq =>
        have hx : x ∈ k.designating e key := by simp [heq]
        obtain ⟨w, hactive, -⟩ := h.wraps x (hmem x hx)
        exact absurd hactive (by simpa using List.find?_eq_none.mp hnone x hx)
      next => exact ⟨none, rfl, fun x hx => nomatch hx⟩

lemma LiveKeyring.sealPlan (h : LiveKeyring mek k) (m : Properties β) :
    ∃ plan, sealPlan k e m = .ok plan ∧ plan.map Prod.fst = m ∧
      ∀ i ∈ plan, ∀ x ∈ i.2, x ∈ k.entries := by
  have hitem : ∀ p : String × Value β, ∃ s, ((k.sealingSubject e p.1).map fun s => (p, s)) =
      .ok (p, s) ∧ ∀ x ∈ s, x ∈ k.entries := by
    intro p
    obtain ⟨s, hs, hx⟩ := h.sealingSubject (e := e) p.1
    exact ⟨s, by rw [hs]; rfl, hx⟩
  obtain ⟨plan, hplan⟩ : ∃ plan, CryptoShred.sealPlan k e m = .ok plan :=
    exists_mapM_eq_ok fun p _ => by
      obtain ⟨s, hs, -⟩ := hitem p
      exact ⟨_, hs⟩
  refine ⟨plan, hplan, ?_⟩
  have hall := forall₂_of_mapM_eq_ok hplan
  clear hplan
  induction hall with
  | nil => exact ⟨rfl, fun i hi => nomatch hi⟩
  | @cons p i m plan hi _ ih =>
    obtain ⟨s, hs, hx⟩ := hitem p
    obtain rfl : (p, s) = i := Except.ok.inj (hs.symm.trans hi)
    exact ⟨by rw [map_cons, ih.1], forall_mem_cons.mpr ⟨hx, ih.2⟩⟩

/-- **`seal_map` on plain values puts one layer on and does not fail.** -/
theorem sealMap_total {m : Properties β} (hm : Properties.AllPlain m) :
    Triple (LiveFrom mek k₀) (sealMap mek e m)
      (fun m' k => LiveFrom mek k₀ k ∧ Layered k₀ e m m') (fun _ => False) := by
  refine triple_get_bind fun k hk => ?_
  split_ifs with hs
  · refine triple_pure fun k' hk' => ⟨hk' ▸ hk, Properties.opened_of_allPlain hm, ?_⟩
    exact bound_of_allPlain hm
  · obtain ⟨plan, hplan, hfst, hmem⟩ := hk.1.sealPlan (e := e) m
    have hread : Triple (· = k) (readE fun k => sealPlan k e m)
        (fun plan' k' => LiveFrom mek k₀ k' ∧ plan' = plan) (fun _ => False) := by
      rintro k' rfl
      simp only [EStateM.run, readE, hplan, and_true]
      exact hk
    refine hread.bind fun plan' k' hk' => ?_
    obtain ⟨hk', rfl⟩ := hk'
    have hplain : ∀ i ∈ plan', i.1.2.isPlain := by
      intro i hi
      exact hm i.1 (hfst ▸ mem_map_of_mem hi)
    have htotal : Triple (LiveFrom mek k₀) (sealItems mek e plan') _ _ :=
      sealItems_total hplain (by rw [← hk.2.1]; exact hmem)
    rw [hfst] at htotal
    exact htotal k' hk'

end Live

end Aletheia.CryptoShred
