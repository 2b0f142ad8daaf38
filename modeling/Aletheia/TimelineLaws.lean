import Aletheia.Timeline

/-!
# Writes keep the tiling

Every write takes a live timeline to one whose recorded entries again tile the valid time from the
least start on: an update to a live one, a retraction to one that ends at `vt`, a deletion to one
that holds nowhere.
-/

namespace Aletheia.Timeline

open List

variable {X : Type} {l tl : Timeline X} {r hd p : Entry X} {c vf vt v s s₀ lo clock : Timestamp}
  {content : Content X}

lemma Live.exists_cons (h : Live l lo clock) :
    ∃ hd tl, l = hd :: tl ∧ hd.Recorded ∧ hd.valid.start.Valid ∧ hd.valid.stop = timestampMax := by
  obtain ⟨hd, hhd, h1, h2, h3⟩ := h.head
  obtain ⟨tl, rfl⟩ := List.head?_eq_some_iff.mp hhd
  exact ⟨hd, tl, rfl, h1, h2, h3⟩

lemma Live.head_cons (h : Live (hd :: tl) lo clock) :
    hd.Recorded ∧ hd.valid.start.Valid ∧ hd.valid.stop = timestampMax := by
  obtain ⟨hd', hhd, h'⟩ := h.head
  cases hhd
  exact h'

/-! ### Update -/

lemma carry_eq (hcov : l.covering vf = some p) (ends : X) : l.carry vf c ends =
      if p.valid.start < vf then [entryAt c p.valid.start vf { p.content with ends } true]
      else [] := by
  simp only [carry, hcov]

lemma carry_eq_nil (hcov : l.covering vf = none) (ends : X) : l.carry vf c ends = [] := by
  simp only [carry, hcov]

lemma mem_carry {ends : X} (hr : r ∈ l.carry vf c ends) :
    ∃ p, l.covering vf = some p ∧ p.valid.start < vf ∧
      r = entryAt c p.valid.start vf { p.content with ends } true := by
  rcases hcov : l.covering vf with _ | p
  · simp [carry_eq_nil hcov] at hr
  · rw [carry_eq hcov] at hr
    split_ifs at hr with hlt
    · exact ⟨p, rfl, hlt, mem_singleton.mp hr⟩
    · simp at hr

lemma wellFormed_carry (h : WellFormed (hd :: tl) clock) (hhd : hd.Recorded) (hle : clock ≤ c)
    (hc : c.Valid) (ends : X) :
    WellFormed (carry (hd :: tl) vf c ends ++ supersedeAll vf c (hd :: tl)) c := by
  have hbase := h.of_withdrawn hle hc (supersedeAll_withdrawn vf hhd)
  rcases hcov : covering (hd :: tl) vf with _ | p
  · simpa [carry_eq_nil hcov] using hbase
  · rw [carry_eq hcov]
    obtain ⟨-, -, hpv⟩ := covering_eq_some hcov
    split_ifs with hlt
    · refine hbase.cons fun r hr hrec v h1 h2 => ?_
      obtain ⟨hr, hvf⟩ := mem_supersedeAll hc hr hrec
      exact free_of_covering h hcov hr hrec hvf ⟨h1, h2.trans hpv.2⟩
    · exact hbase

lemma wellFormed_new (vf : Timestamp) (content : Content X) (h : WellFormed (hd :: tl) clock) (hhd : hd.Recorded) (hle : clock ≤ c)
    (hc : c.Valid) :
    WellFormed (entryAt c vf (updateStop (hd :: tl) vf) content false ::
      (carry (hd :: tl) vf c content.ends ++ supersedeAll vf c (hd :: tl))) c := by
  refine (wellFormed_carry h hhd hle hc content.ends).cons fun r hr hrec v h1 h2 => ?_
  rcases mem_append.mp hr with hr | hr
  · -- the carry-forward ends where the new belief begins
    obtain ⟨p, -, -, rfl⟩ := mem_carry hr
    exact fun hv => absurd hv.2 (not_lt.mpr h1)
  · obtain ⟨hr, hvf⟩ := mem_supersedeAll hc hr hrec
    exact free_of_updateStop h hr hrec hvf h1 h2

variable (vf content) in
/-- **An update keeps the rectangles disjoint.** -/
lemma wellFormed_update (h : Live l lo clock) (hle : clock ≤ c) (hc : c.Valid) :
    WellFormed (l.update vf c content) c := by
  obtain ⟨hd, tl, rfl, hhd, hstart, hstop⟩ := h.exists_cons
  have hopen : hd.valid.start < hd.valid.stop := hstop ▸ hstart.lt_max
  have hnew := wellFormed_new vf content h.toWellFormed hhd hle hc
  simp only [update, reassert, List.head?_cons]
  split_ifs with hlt
  · refine hnew.cons fun r hr hrec v h1 h2 => ?_
    rcases mem_cons.mp hr with rfl | hr
    · -- the backfill ends before the open-ended entry begins
      have := updateStop_le_head h.toWellFormed hhd hopen hlt
      exact fun hv => absurd (hv.2.trans_le this) (not_lt.mpr h1)
    · rcases mem_append.mp hr with hr | hr
      · obtain ⟨p, -, -, rfl⟩ := mem_carry hr
        exact fun hv => absurd (hv.2.trans hlt) (not_lt.mpr h1)
      · obtain ⟨hr, -⟩ := mem_supersedeAll hc hr hrec
        exact free_of_head h.toWellFormed hhd hr hrec ⟨h1, hstop ▸ h2⟩
  · exact hnew

lemma new_mem_update : entryAt c vf (l.updateStop vf) content false ∈ l.update vf c content :=
  mem_append_right _ mem_cons_self

lemma mem_update_of_carry (hr : r ∈ l.carry vf c content.ends) : r ∈ l.update vf c content :=
  mem_append_right _ (mem_cons_of_mem _ (mem_append_left _ hr))

lemma mem_update_of_supersedeAll (hr : r ∈ l.supersedeAll vf c) : r ∈ l.update vf c content :=
  mem_append_right _ (mem_cons_of_mem _ (mem_append_right _ hr))

lemma updateStop_eq (h : WellFormed l clock) (hr : r ∈ l) (hrec : r.Recorded) (hv : r.Holds vf) :
    l.covering vf = some r ∧ l.updateStop vf = r.valid.stop := by
  rcases hcov : l.covering vf with _ | p
  · exact absurd hv (covering_eq_none hcov hr hrec)
  · obtain ⟨hp, hprec, hpv⟩ := covering_eq_some hcov
    obtain rfl := h.eq_of_holds hr hp hrec hprec hv hpv
    exact ⟨rfl, by simp only [updateStop, hcov]⟩

/-- Outside the new belief an update asserts again what was believed, up to the endpoints it was
given. -/
lemma exists_update_of_holds (content : Content X) (h : Live l lo clock) (hvf : vf.Valid) (hr : r ∈ l)
    (hrec : r.Recorded) (hv : r.Holds v) (hout : ¬ (vf ≤ v ∧ v < l.updateStop vf)) :
    ∃ r' ∈ l.update vf c content, r'.Recorded ∧ r'.Holds v ∧
      ∃ ends, r'.content = { r.content with ends } := by
  obtain ⟨hd, tl, rfl, hhd, hstart, hstop⟩ := h.exists_cons
  by_cases hrvf : r.Holds vf
  · -- the withdrawn entry: its prefix is carried forward, the rest is the new belief
    obtain ⟨hcov, hst⟩ := updateStop_eq h.toWellFormed hr hrec hrvf
    have hlt : v < vf := by
      by_contra hge
      exact hout ⟨not_lt.mp hge, hst ▸ hv.2⟩
    refine ⟨entryAt c r.valid.start vf { r.content with ends := content.ends } true,
      mem_update_of_carry ?_, rfl, ⟨hv.1, hlt⟩, _, rfl⟩
    rw [carry_eq hcov, if_pos (hv.1.trans_lt hlt)]
    exact mem_singleton_self _
  · rcases mem_cons.mp hr with rfl | hr
    · -- the open-ended entry is asserted again after a backfill
      have hlt : vf < r.valid.start := by
        by_contra hge
        exact hrvf ⟨not_lt.mp hge, hstop ▸ hvf.lt_max⟩
      refine ⟨entryAt c r.valid.start timestampMax { r.content with ends := content.ends } true,
        mem_append_left _ ?_, rfl, ⟨hv.1, hstop ▸ hv.2⟩, _, rfl⟩
      simp [reassert, hlt]
    · exact ⟨r, mem_update_of_supersedeAll (mem_supersedeAll_of_mem hr hrvf), hrec, hv, _, rfl⟩

variable (h : Live l lo clock)

include h

lemma covers_of_mem_update (hc : c.Valid) (hr : r ∈ l.update vf c content) (hrec : r.Recorded)
    (hv : r.Holds v) : l.Covers v ∨ (vf ≤ v ∧ v < l.updateStop vf) := by
  obtain ⟨hd, tl, rfl, hhd, hstart, hstop⟩ := h.exists_cons
  simp only [update, mem_append, mem_cons] at hr
  rcases hr with hr | rfl | hr | hr
  · -- re-asserted
    simp only [reassert, List.head?_cons] at hr
    split_ifs at hr with hlt
    · rw [mem_singleton.mp hr] at hv
      exact .inl ⟨hd, mem_cons_self, hhd, hv.1, hstop ▸ hv.2⟩
    · simp at hr
  · exact .inr hv
  · -- carried forward
    obtain ⟨p, hcov, -, rfl⟩ := mem_carry hr
    obtain ⟨hp, hprec, hpv⟩ := covering_eq_some hcov
    exact .inl ⟨p, hp, hprec, hv.1, hv.2.trans hpv.2⟩
  · obtain ⟨hr, -⟩ := mem_supersedeAll hc hr hrec
    exact .inl ⟨r, mem_cons_of_mem _ hr, hrec, hv⟩

lemma covers_update (hc : c.Valid) (hvf : vf.Valid) :
    (l.update vf c content).Covers v ↔ l.Covers v ∨ (vf ≤ v ∧ v < l.updateStop vf) := by
  constructor
  · rintro ⟨r, hr, hrec, hv⟩
    exact covers_of_mem_update h hc hr hrec hv
  · intro hv
    by_cases hin : vf ≤ v ∧ v < l.updateStop vf
    · exact ⟨_, new_mem_update, rfl, hin⟩
    · obtain ⟨r, hr, hrec, hv⟩ := hv.resolve_right hin
      obtain ⟨r', hr', hrec', hv', -⟩ := exists_update_of_holds content h hvf hr hrec hv hin
      exact ⟨r', hr', hrec', hv'⟩

lemma updateStop_of_lt (hlt : vf < lo) : l.updateStop vf = lo := by
  obtain ⟨hd, tl, rfl, hhd, hstart, hstop⟩ := h.exists_cons
  have hopen : hd.valid.start < hd.valid.stop := hstop ▸ hstart.lt_max
  have hlo : ∀ r ∈ hd :: tl, isOpenSlice r.temporal = true → lo ≤ r.valid.start := by
    intro r hr ho
    obtain ⟨hrec, hne⟩ := Entry.isOpenSlice_iff.mp ho
    exact ((h.covers _).mp ⟨r, hr, hrec, le_rfl, hne⟩).1
  have hhlo := hlo hd mem_cons_self (Entry.isOpenSlice_iff.mpr ⟨hhd, hopen⟩)
  obtain ⟨r₀, hr₀, hrec₀, hv₀⟩ := (h.covers lo).mpr ⟨le_rfl, hhlo.trans_lt hstart.lt_max⟩
  have ho₀ := Entry.isOpenSlice_of_holds hrec₀ hv₀
  have hcov : covering (hd :: tl) vf = none := by
    rcases hcov : covering (hd :: tl) vf with _ | p
    · rfl
    · obtain ⟨hp, hprec, hpv⟩ := covering_eq_some hcov
      exact absurd ((h.covers vf).mp ⟨p, hp, hprec, hpv⟩).1 (not_le.mpr hlt)
  simp only [updateStop, hcov]
  rcases hn : nextStart (hd :: tl) vf with _ | n
  · exact absurd (nextStart_eq_none hn hr₀ ho₀) (not_le.mpr (hlt.trans_le (hlo r₀ hr₀ ho₀)))
  · obtain ⟨⟨r, hr, ho, -, rfl⟩, hmin⟩ := nextStart_eq_some hn
    have h1 := hmin r₀ hr₀ ho₀ (hlt.trans_le (hlo r₀ hr₀ ho₀))
    exact le_antisymm (h1.trans hv₀.1) (hlo r hr ho)

lemma nonempty_update (hc : c.Valid) (hvf : vf.Valid) (hr : r ∈ l.update vf c content)
    (hrec : r.Recorded) : r.valid.start < r.valid.stop := by
  obtain ⟨hd, tl, rfl, hhd, hstart, hstop⟩ := h.exists_cons
  simp only [update, mem_append, mem_cons] at hr
  rcases hr with hr | rfl | hr | hr
  · simp only [reassert, List.head?_cons] at hr
    split_ifs at hr
    · rw [mem_singleton.mp hr]
      exact hstart.lt_max
    · simp at hr
  · exact lt_updateStop hvf
  · obtain ⟨p, -, hlt, rfl⟩ := mem_carry hr
    exact hlt
  · exact h.nonempty r (mem_cons_of_mem _ (mem_supersedeAll hc hr hrec).1) hrec

/-- **An update keeps a timeline live**, from the lesser of its old start and `vf` on. -/
theorem Live.update (hle : clock ≤ c) (hc : c.Valid) (hvf : vf.Valid) :
    Live (l.update vf c content) (min lo vf) c where
  toWellFormed := wellFormed_update _ _ h hle hc
  nonempty r hr hrec := nonempty_update h hc hvf hr hrec
  head := by
    obtain ⟨hd, tl, rfl, hhd, hstart, hstop⟩ := h.exists_cons
    simp only [Timeline.update, reassert, List.head?_cons]
    split_ifs with hlt
    · exact ⟨_, rfl, rfl, hstart, rfl⟩
    · -- the new belief took over the open end
      have := (updateStop_eq h.toWellFormed mem_cons_self hhd ⟨not_lt.mp hlt, hstop ▸ hvf.lt_max⟩).2
      exact ⟨_, rfl, rfl, hvf, this.trans hstop⟩
  covers v := by
    rw [covers_update h hc hvf, h.covers]
    rcases lt_or_ge vf lo with hlt | hge
    · rw [updateStop_of_lt h hlt, min_eq_right hlt.le]
      have hlo : lo < timestampMax := by
        obtain ⟨hd, tl, rfl, hhd, hstart, hstop⟩ := h.exists_cons
        have := (h.covers _).mp ⟨hd, mem_cons_self, hhd, le_rfl, hstop ▸ hstart.lt_max⟩
        exact this.1.trans_lt this.2
      constructor
      · rintro (⟨h1, h2⟩ | ⟨h1, h2⟩)
        · exact ⟨hlt.le.trans h1, h2⟩
        · exact ⟨h1, h2.trans hlo⟩
      · rintro ⟨h1, h2⟩
        rcases lt_or_ge v lo with hv | hv
        · exact .inr ⟨h1, hv⟩
        · exact .inl ⟨hv, h2⟩
    · rw [min_eq_left hge]
      obtain ⟨r, hr, hrec, hv⟩ := (h.covers vf).mpr ⟨hge, hvf.lt_max⟩
      have hst := (updateStop_eq h.toWellFormed hr hrec hv).2
      refine ⟨?_, .inl⟩
      rintro (h1 | ⟨h1, h2⟩)
      · exact h1
      · exact (h.covers v).mp ⟨r, hr, hrec, hv.1.trans h1, hst ▸ h2⟩

omit h

/-! ### Create, delete and retract -/

lemma live_create (hc : c.Valid) (hvf : vf.Valid) : Live (create vf c content) vf c where
  valid := hc
  apart := pairwise_singleton _ _
  start_le r hr := by rw [mem_singleton.mp hr]; exact le_rfl
  stop_le r hr := by rw [mem_singleton.mp hr]; exact .inl rfl
  head := ⟨_, rfl, rfl, hvf, rfl⟩
  nonempty r hr _ := by rw [mem_singleton.mp hr]; exact hvf.lt_max
  covers v := by
    constructor
    · rintro ⟨r, hr, -, hv⟩
      rwa [mem_singleton.mp hr] at hv
    · intro hv
      exact ⟨_, mem_singleton_self _, rfl, hv⟩

lemma delete_withdrawn (hle : clock ≤ c) (hc : c.Valid) (h : WellFormed l clock) :
    WellFormed (l.map fun r => if r.Recorded then r.close c else r) c := by
  refine h.of_withdrawn hle hc ?_
  rw [forall₂_map_right_iff, forall₂_same]
  intro r _
  split_ifs with hrec
  · exact .inr ⟨hrec, rfl⟩
  · exact .inl rfl

lemma wellFormed_delete (h : WellFormed l clock) (hle : clock ≤ c) (hc : c.Valid) :
    WellFormed (l.delete vf c content) c :=
  (delete_withdrawn hle hc h).cons fun _ _ _ _ h1 h2 => absurd h2 (not_lt.mpr h1)

lemma not_covers_delete (hc : c.Valid) : ¬ (l.delete vf c content).Covers v := by
  rintro ⟨r, hr, hrec, hv⟩
  rcases mem_cons.mp hr with rfl | hr
  · exact absurd hv.2 (not_lt.mpr hv.1)
  · obtain ⟨r', -, rfl⟩ := mem_map.mp hr
    split_ifs at hrec with h
    · exact hc.ne_max hrec
    · exact h hrec

lemma retract_withdrawn (h : WellFormed (hd :: tl) clock) (hhd : hd.Recorded) (hle : clock ≤ c)
    (hc : c.Valid) : WellFormed (hd.close c :: tl) c :=
  h.of_withdrawn hle hc (List.Forall₂.cons (.inr ⟨hhd, rfl⟩) (forall₂_same.mpr fun _ _ => .inl rfl))

lemma wellFormed_retract (h : Live l lo clock) (hle : clock ≤ c) (hc : c.Valid)
    (hvt : vt ≤ timestampMax) : WellFormed (l.retract vt c content) c := by
  obtain ⟨hd, tl, rfl, hhd, -, hstop⟩ := h.exists_cons
  refine (retract_withdrawn h.toWellFormed hhd hle hc).cons fun r hr hrec v h1 h2 => ?_
  rcases mem_cons.mp hr with rfl | hr
  · exact absurd hrec hc.ne_max
  · exact free_of_head h.toWellFormed hhd hr hrec ⟨h1, hstop ▸ h2.trans_le hvt⟩

lemma covers_retract (h : Live l lo clock) (hc : c.Valid) (hvt : vt ≤ timestampMax)
    (hhead : ∀ hd, l.head? = some hd → hd.valid.start ≤ vt) :
    (l.retract vt c content).Covers v ↔ lo ≤ v ∧ v < vt := by
  obtain ⟨hd, tl, rfl, hhd, hstart, hstop⟩ := h.exists_cons
  have hle := hhead hd rfl
  have hopen : hd.valid.start < hd.valid.stop := hstop ▸ hstart.lt_max
  constructor
  · rintro ⟨r, hr, hrec, hv⟩
    simp only [retract, mem_cons] at hr
    rcases hr with rfl | rfl | hr
    · have := (h.covers v).mp ⟨hd, mem_cons_self, hhd, hv.1, hstop ▸ hv.2.trans_le hvt⟩
      exact ⟨this.1, hv.2⟩
    · exact absurd hrec hc.ne_max
    · -- an older slice ends before the retracted one begins
      refine ⟨((h.covers v).mp ⟨r, mem_cons_of_mem _ hr, hrec, hv⟩).1, ?_⟩
      by_contra hge
      exact free_of_head h.toWellFormed hhd hr hrec
        ⟨hle.trans (not_lt.mp hge), hstop ▸ ((h.covers v).mp
          ⟨r, mem_cons_of_mem _ hr, hrec, hv⟩).2⟩ hv
  · rintro ⟨h1, h2⟩
    obtain ⟨r, hr, hrec, hv⟩ := (h.covers v).mpr ⟨h1, h2.trans_le hvt⟩
    rcases mem_cons.mp hr with rfl | hr
    · exact ⟨_, mem_cons_self, rfl, hv.1, h2⟩
    · exact ⟨r, mem_cons_of_mem _ (mem_cons_of_mem _ hr), hrec, hv⟩

/-! ### What is visible where -/

lemma WellFormed.visible_iff (h : WellFormed l clock) (hr : r ∈ l) (hs : clock ≤ s)
    (hs' : s < timestampMax) : r.Visible v s ↔ r.Recorded ∧ r.Holds v := by
  constructor
  · intro hv
    refine ⟨(h.stop_le r hr).resolve_right fun hle => ?_, hv.1⟩
    exact absurd hv.2.2 (not_lt.mpr (hle.trans hs))
  · rintro ⟨hrec, hv⟩
    exact ⟨hv, (h.start_le r hr).trans hs, by rw [hrec]; exact hs'⟩

lemma visible_iff_of_withdrawn {r' : Entry X} (h : r.Withdrawn c r')
    (hc : c.Valid) (hs : s < c) : r'.Visible v s ↔ r.Visible v s := by
  refine ⟨h.visible hc, fun hv => ?_⟩
  rcases h with rfl | ⟨-, rfl⟩
  · exact hv
  · exact ⟨hv.1, hv.2.1, hs⟩

/-- **The new belief is visible** from `c` on, where it holds. -/
lemma exists_visible_new (content : Content X) (h : Live l lo clock) (hle : clock ≤ c)
    (hc : c.Valid) (hs : c ≤ s) (hs' : s < timestampMax) (h1 : vf ≤ v) (h2 : v < l.updateStop vf) :
    ∃ r ∈ l.update vf c content, r.Visible v s ∧ r.content = content :=
  ⟨_, new_mem_update,
    ((wellFormed_update _ _ h hle hc).visible_iff new_mem_update hs hs').mpr ⟨rfl, h1, h2⟩, rfl⟩

/-- **Everything else stays believed**: outside the new belief, what is visible from `c` on is what
was visible just before. -/
lemma exists_visible_old (content : Content X) (h : Live l lo clock) (hle : clock ≤ c)
    (hc : c.Valid) (hvf : vf.Valid) (hs : c ≤ s) (hs' : s < timestampMax)
    (h0 : clock ≤ s₀) (h0' : s₀ < timestampMax) (hout : ¬ (vf ≤ v ∧ v < l.updateStop vf)) (hr : r ∈ l) (hv : r.Visible v s₀) :
    ∃ r' ∈ l.update vf c content, r'.Visible v s ∧ ∃ ends, r'.content = { r.content with ends } := by
  obtain ⟨hrec, hv⟩ := (h.visible_iff hr h0 h0').mp hv
  obtain ⟨r', hr', hrec', hv', hends⟩ :=
    exists_update_of_holds (c := c) content h hvf hr hrec hv hout
  exact ⟨r', hr', ((wellFormed_update _ _ h hle hc).visible_iff hr' hs hs').mpr ⟨hrec', hv'⟩, hends⟩

lemma exists_visible_before (h : Live l lo clock) (hle : clock ≤ c) (hc : c.Valid)
    (hs : c ≤ s) (hs' : s < timestampMax) (h0 : clock ≤ s₀)
    (h0' : s₀ < timestampMax) (hout : ¬ (vf ≤ v ∧ v < l.updateStop vf)) (hr : r ∈ l.update vf c content)
    (hv : r.Visible v s) : ∃ r' ∈ l, r'.Visible v s₀ := by
  obtain ⟨hrec, hv⟩ := ((wellFormed_update _ _ h hle hc).visible_iff hr hs hs').mp hv
  obtain ⟨r', hr', hrec', hv'⟩ := (covers_of_mem_update h hc hr hrec hv).resolve_right hout
  exact ⟨r', hr', (h.visible_iff hr' h0 h0').mpr ⟨hrec', hv'⟩⟩

end Aletheia.Timeline
