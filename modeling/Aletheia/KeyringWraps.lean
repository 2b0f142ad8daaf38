import Aletheia.ErasurePermanence

/-!
# What the keys are wrapped under

A predicate on the wrapped keys of memory and file is kept by every call that wraps new keys in
accordance with it. An entry of the file whose subject is erased in memory does not count: it is
removed by the next write, or by the breadcrumb when the files are opened.
-/

namespace Aletheia.CryptoShred

open Function

def SubjectEntry.Wraps (W : SubjectId → WrappedKey → Prop) (e : SubjectEntry) : Prop :=
  ∀ w, e.wrappedKey = some w → W e.subjectId w

structure WrapsBoth (W : SubjectId → WrappedKey → Prop) (x : World) : Prop where
  memory : ∀ e ∈ x.state.keyring.entries, e.Wraps W
  file : ∀ e ∈ x.files.keyring,
    cellOf x.state.keyring.entries e.subjectId = .erased ∨ e.Wraps W

/-- What the files alone say while no process is open. -/
def WrapsFiles (W : SubjectId → WrappedKey → Prop) (files : Files) : Prop :=
  ∀ e ∈ files.keyring, files.breadcrumb = some e.subjectId ∨ e.Wraps W

section Wraps

open Exec

variable {W V : SubjectId → WrappedKey → Prop} {x : World} {k : SubjectKeyring} {s : SubjectId}
  {e : SubjectEntry} {es : List SubjectEntry} {now : ℤ} {mek : Mek} {w : WrappedKey}

lemma SubjectEntry.Wraps.mono (h : e.Wraps W) (hW : ∀ s w, W s w → V s w) : e.Wraps V :=
  fun w hw => hW _ w (h w hw)

lemma wraps_of_none (h : e.wrappedKey = none) : e.Wraps W := by
  intro w hw
  rw [h] at hw
  cases hw

lemma WrapsBoth.mono (h : WrapsBoth W x) (hW : ∀ s w, W s w → V s w) : WrapsBoth V x where
  memory e he := (h.memory e he).mono hW
  file e he := (h.file e he).imp_right fun hw => hw.mono hW

lemma wraps_insert (h : ∀ d ∈ es, d.Wraps W) (he : e.Wraps W) : ∀ d ∈ insert e es, d.Wraps W := by
  intro d hd
  rcases of_mem_insert hd with rfl | hd
  · exact he
  · exact h d hd

lemma WrapsBoth.setKeyring (h : WrapsBoth W x) (hk : ∀ e ∈ k.entries, e.Wraps W)
    (herased : ∀ s, cellOf x.state.keyring.entries s = .erased → cellOf k.entries s = .erased) :
    WrapsBoth W (x.setKeyring k) where
  memory := hk
  file e he := (h.file e he).imp_left (herased _)

lemma WrapsBoth.refreshGates (h : WrapsBoth W x) : WrapsBoth W x.refreshGates := ⟨h.memory, h.file⟩

lemma WrapsBoth.saved (h : WrapsBoth W x) : WrapsBoth W x.saved :=
  ⟨h.memory, fun e he => .inr (h.memory e he)⟩

lemma wraps_save (w : Write) : Triple (WrapsBoth W) (saveKeyring w) (fun _ => WrapsBoth W)
    (WrapsBoth W) := by
  intro x h
  cases w with
  | done => exact h.saved
  | refused => exact h
  | crashed renamed =>
    cases renamed with
    | true => exact h.saved
    | false => exact h

lemma wraps_writeBreadcrumb (w : Write) :
    Triple (fun x => WrapsBoth W x ∧ x.state.keyring = k) (writeBreadcrumb s w)
      (fun _ x => WrapsBoth W x ∧ x.state.keyring = k) (WrapsBoth W) := by
  rintro x ⟨h, hx⟩
  have hset : WrapsBoth W (x.setBreadcrumb (some s)) := ⟨h.memory, h.file⟩
  cases w with
  | done => exact ⟨hset, hx⟩
  | refused => exact h
  | crashed renamed =>
    cases renamed with
    | true => exact hset
    | false => exact h

lemma wraps_clearBreadcrumb (w : Write) :
    Triple (WrapsBoth W) (clearBreadcrumb w) (fun _ => WrapsBoth W) (WrapsBoth W) := by
  intro x h
  have hset : WrapsBoth W (x.setBreadcrumb none) := ⟨h.memory, h.file⟩
  cases w with
  | done => exact hset
  | refused => exact h
  | crashed removed =>
    cases removed with
    | true => exact hset
    | false => exact h

lemma wraps_designate {targets : List DesignationTarget} {key : SubjectKey} {w : Write} :
    Triple (fun x => WrapsBoth W x ∧ x.state.keyring.Ok ∧ (x.state.keyring.get s = none →
        W s ⟨initialSubjectKeyVersion, encrypt mek key (s, initialSubjectKeyVersion)⟩))
      (designate mek s targets key w) (fun _ => WrapsBoth W) (WrapsBoth W) := by
  refine (triple_modifyKeyring ?_ fun x hx => hx.1).bind fun _ => (wraps_save w).bind fun _ =>
    triple_modify fun x hx => hx.refreshGates
  rintro x k ⟨h, hok, hnew⟩ hk
  obtain ⟨-, habsent, hpresent⟩ := hok.designate hk
  refine h.setKeyring ?_ fun u hu => ?_
  · unfold SubjectKeyring.designate at hk
    cases hget : x.state.keyring.get s with
    | none =>
      rw [hget] at hk
      cases hk
      refine wraps_insert h.memory fun w hw => ?_
      cases hw
      exact hnew hget
    | some existing =>
      rw [hget] at hk
      simp only at hk
      split_ifs at hk
      cases hk
      exact wraps_insert h.memory (h.memory existing (mem_of_lookup hget).1)
  · by_cases hs : cellOf x.state.keyring.entries s = .absent
    · have hus : u ≠ s := by
        rintro rfl
        simp [hs] at hu
      rw [habsent hs, update_of_ne hus, hu]
    · rw [hpresent hs, hu]

lemma wraps_eraseAgain {w : Write} :
    Triple (fun x => WrapsBoth W x ∧ x.state.keyring.Ok ∧ x.state.keyring.get s = some e)
      (eraseAgain e now w) (fun _ => WrapsBoth W) (WrapsBoth W) := by
  unfold eraseAgain
  cases e.attestation with
  | some a => exact triple_pure fun x hx => hx.1
  | none =>
    refine Triple.bind (Q := fun _ => WrapsBoth W) (triple_modify ?_) fun _ =>
      (wraps_save w).bind fun _ => triple_pure fun _ => id
    rintro x ⟨h, hok, hget⟩
    refine h.setKeyring (wraps_insert h.memory (h.memory e (mem_of_lookup hget).1)) fun u hu => ?_
    rw [(hok.attest hget).2, hu]

lemma wraps_eraseActive {w : EraseWrites} (hs : k.get e.subjectId = some e) (hk : k.Ok) :
    Triple (fun x => WrapsBoth W x ∧ x.state.keyring = k) (eraseActive e now w)
      (fun _ => WrapsBoth W) (WrapsBoth W) := by
  refine (wraps_writeBreadcrumb _).bind fun _ =>
    Triple.bind (Q := fun _ => WrapsBoth W) (triple_modify ?_) fun _ => (wraps_save _).bind
    fun _ => (wraps_clearBreadcrumb _).bind fun _ => triple_pure fun _ => id
  rintro x ⟨h, rfl⟩
  have hcell : cellOf x.state.keyring.entries e.subjectId ≠ .absent := by
    rw [cellOf_of_lookup hs]
    exact e.cell_ne_absent
  refine WrapsBoth.refreshGates (h.setKeyring ?_ fun u hu => ?_)
  · have hget : (x.state.keyring.dropCache e.subjectId).get e.subjectId = some e := hs
    simp only [SubjectKeyring.eraseInMemory, SubjectKeyring.modifyEntry, hget]
    exact wraps_insert h.memory (wraps_of_none rfl)
  · rw [(hk.eraseInMemory hcell).2]
    by_cases hus : u = e.subjectId
    · rw [hus, update_self]
    · rw [update_of_ne hus, hu]

lemma wraps_erase {w : EraseWrites} :
    Triple (fun x => WrapsBoth W x ∧ x.state.keyring.Ok) (erase s now w) (fun _ => WrapsBoth W)
      (WrapsBoth W) := by
  refine triple_get_bind fun x hx => ?_
  obtain ⟨h, hok⟩ := hx
  cases hget : x.state.keyring.get s with
  | none => exact triple_throw fun y hy => hy ▸ h
  | some e =>
    by_cases herased : e.state = .erased
    · simp only [herased, if_true]
      exact wraps_eraseAgain.at_state ⟨h, hok, hget⟩
    · simp only [herased, if_false]
      have hid : e.subjectId = s := (mem_of_lookup hget).2
      rw [← hid] at hget
      exact (wraps_eraseActive hget hok).at_state ⟨h, rfl⟩

lemma wraps_subjectKey :
    Triple (fun x => WrapsBoth W x ∧ x.state.keyring.Ok) (subjectKey s mek) (fun _ => WrapsBoth W)
      (WrapsBoth W) := by
  rintro x ⟨h, hok⟩
  simp only [subjectKey, EStateM.run]
  cases hk : x.state.keyring.dekFromGuard s mek with
  | error err => exact h
  | ok r =>
    obtain ⟨key, k⟩ := r
    obtain ⟨-, hentries, -⟩ := hok.dekFromGuard hk
    refine h.setKeyring ?_ fun u hu => ?_
    · rw [hentries]
      exact h.memory
    · rw [hentries, hu]

/-! ### The pass -/

variable {old new : Mek} {version : ℕ}

/-- What a re-wrapped entry has to satisfy. -/
def Rewraps (W : SubjectId → WrappedKey → Prop) (old new : Mek) (version : ℕ) : Prop :=
  ∀ s w key, W s w → w.keyVersion < version →
    decrypt old w.wrapped (s, w.keyVersion) = some key →
    W s ⟨version, encrypt new key (s, version)⟩

/-- The wraps of the predicate that the pass has nothing to do for. -/
def AtVersion (W : SubjectId → WrappedKey → Prop) (version : ℕ) (s : SubjectId) (w : WrappedKey) :
    Prop :=
  W s w ∧ version ≤ w.keyVersion

lemma wraps_rewrapEntry {d : SubjectEntry} (hW : Rewraps W old new version)
    (h : SubjectKeyring.rewrapEntry old new version e = .ok d) (hwf : e.WellFormed)
    (he : e.Wraps W) : d.Wraps (AtVersion W version) := by
  unfold SubjectKeyring.rewrapEntry at h
  split_ifs at h with herased
  · cases h
    refine wraps_of_none ?_
    unfold SubjectEntry.WellFormed at hwf
    simpa [herased] using hwf
  split at h
  next hnone =>
    cases h
    exact wraps_of_none hnone
  next w hw =>
  split_ifs at h with hversion
  · cases h
    intro w' hw'
    cases hw.symm.trans hw'
    exact ⟨he w hw, hversion⟩
  split at h
  · cases h
  next key hkey =>
  cases h
  intro w' hw'
  cases hw'
  exact ⟨hW _ w key (he w hw) (Nat.lt_of_not_le hversion) hkey, Nat.le_refl _⟩

/-- Nothing is left to re-wrap in the file when nothing is left in memory. -/
def StaleInMemory (version : ℕ) (x : World) : Prop :=
  x.state.keyring.stale version = [] →
    ∀ e ∈ (SubjectKeyring.load x.files.keyring).stale version,
      cellOf x.state.keyring.entries e.subjectId = .erased

instance (x : World) : Decidable (StaleInMemory version x) := inferInstanceAs (Decidable (_ → _))

lemma SubjectKeyring.mem_stale (he : e ∈ k.entries) (hwf : e.WellFormed)
    (hw : e.wrappedKey = some w) (hversion : w.keyVersion < version) : e ∈ k.stale version := by
  have hactive : e.state = .active := hwf.mpr (by simp [hw])
  simp [SubjectKeyring.stale, he, hactive, hw, hversion]

lemma wraps_rewrapKeyring (hW : Rewraps W old new version) {w : Write} :
    Triple (fun x => WrapsBoth W x ∧ x.state.keyring.Ok ∧ EntriesOk x.files.keyring ∧
        StaleInMemory version x)
      (rewrapKeyring old new version w) (fun _ => WrapsBoth (AtVersion W version))
      (WrapsBoth W) := by
  refine triple_get_bind fun x hx => ?_
  obtain ⟨h, hok, hfile, hstale⟩ := hx
  cases hk : x.state.keyring.rewrap old new version with
  | error err =>
    rintro y rfl
    have hrun : (updateKeyring fun k => k.rewrap old new version).run y =
        .error (.failed err) y := by
      refine run_modifyE_of_error ?_
      simp only [hk]
    rw [run_bind_of_error hrun]
    exact h
  | ok k' =>
    obtain ⟨hok', hcells⟩ := hok.rewrap hk
    have hmem : ∀ e ∈ k'.entries, e.Wraps (AtVersion W version) := by
      unfold SubjectKeyring.rewrap at hk
      cases hmap : x.state.keyring.entries.mapM (SubjectKeyring.rewrapEntry old new version) with
      | error err =>
        rw [hmap] at hk
        cases hk
      | ok es =>
        rw [hmap] at hk
        cases hk
        have hall : List.Forall₂ (fun e d : SubjectEntry => e.WellFormed ∧ e.Wraps W →
            d.Wraps (AtVersion W version)) x.state.keyring.entries es := by
          refine (forall₂_of_mapM_eq_ok hmap).imp ?_
          rintro e d hd ⟨hwf, hwraps⟩
          exact wraps_rewrapEntry hW hd hwf hwraps
        exact forall_mem_of_forall₂ hall fun e he => ⟨hok.entries.wellFormed e he, h.memory e he⟩
    have hset : WrapsBoth W (x.setKeyring k') :=
      h.setKeyring (fun e he => (hmem e he).mono fun _ _ => And.left) fun u hu => by rw [hcells, hu]
    have hsaved : WrapsBoth (AtVersion W version) (x.setKeyring k').saved :=
      ⟨hmem, fun e he => .inr (hmem e he)⟩
    have hupdate : Triple (· = x) (updateKeyring fun k => k.rewrap old new version)
        (fun _ => (· = x.setKeyring k')) (WrapsBoth W) := by
      rintro y rfl
      have hrun : (updateKeyring fun k => k.rewrap old new version).run y =
          .ok () (y.setKeyring k') := by
        refine run_modifyE ?_
        simp only [hk]
      rw [hrun]
    refine hupdate.bind fun _ => ?_
    refine Triple.bind (Q := fun _ => WrapsBoth (AtVersion W version)) ?_ fun _ =>
      Triple.bind (Q := fun _ => WrapsBoth (AtVersion W version))
        (triple_modify fun y hy => ⟨hy.memory, hy.file⟩) fun _ => triple_pure fun _ => id
    unfold onlyIf
    split_ifs with hlen
    · rintro y rfl
      cases w with
      | done => exact hsaved
      | refused => exact hset
      | crashed renamed =>
        cases renamed with
        | true => exact hset.saved
        | false => exact hset
    · -- nothing was written
      rintro y rfl
      have hnil : x.state.keyring.stale version = [] := by simpa using hlen
      refine ⟨hmem, fun e he => or_iff_not_imp_left.mpr fun hlive w' hw' => ?_⟩
      refine ⟨(hset.file e he).resolve_left hlive w' hw', ?_⟩
      by_contra hversion
      refine hlive ?_
      have hmem' : e ∈ (SubjectKeyring.load x.files.keyring).stale version :=
        SubjectKeyring.mem_stale he (hfile.wellFormed e he) hw' (Nat.lt_of_not_le hversion)
      exact (congrFun hcells _).trans (hstale hnil e hmem')

/-! ### One master key or two -/

/-- Wrapped under one key, at a version up to `version`. -/
def Sole (mek : Mek) (version : ℕ) (s : SubjectId) (w : WrappedKey) : Prop :=
  w.wrapped.aad = (s, w.keyVersion) ∧ w.wrapped.key = mek ∧ w.keyVersion ≤ version

/-- Wrapped under the old key at an earlier version, or under the new key at the new version. -/
def Either (old new : Mek) (version : ℕ) (s : SubjectId) (w : WrappedKey) : Prop :=
  w.wrapped.aad = (s, w.keyVersion) ∧
    (w.wrapped.key = old ∧ w.keyVersion < version ∨ w.wrapped.key = new ∧ w.keyVersion = version)

lemma Sole.either (h : Sole mek version s w) : Either mek new (version + 1) s w :=
  ⟨h.1, .inl ⟨h.2.1, Nat.lt_succ_of_le h.2.2⟩⟩

lemma sole_of_either (h : AtVersion (Either old new version) version s w) :
    Sole new version s w := by
  obtain ⟨⟨haad, ⟨-, hlt⟩ | ⟨hkey, hversion⟩⟩, hle⟩ := h
  · exact absurd hle (Nat.not_le_of_lt hlt)
  · exact ⟨haad, hkey, Nat.le_of_eq hversion⟩

lemma rewraps_either : Rewraps (Either old new version) mek new version :=
  fun _ _ _ _ _ _ => ⟨rfl, .inr ⟨rfl, rfl⟩⟩

lemma rewrapKeyring_total (h : ∀ e ∈ x.state.keyring.entries, e.Wraps (Either old new version)) :
    ∃ n y, (rewrapKeyring old new version .done).run x = .ok n y := by
  have hentry : ∀ e ∈ x.state.keyring.entries,
      ∃ d, SubjectKeyring.rewrapEntry old new version e = .ok d := by
    intro e he
    unfold SubjectKeyring.rewrapEntry
    split_ifs
    · exact ⟨e, rfl⟩
    split
    · exact ⟨e, rfl⟩
    next w hw =>
    split_ifs with hversion
    · exact ⟨e, rfl⟩
    obtain ⟨haad, ⟨hkey, -⟩ | ⟨-, hat⟩⟩ := h e he w hw
    · simp [decrypt, hkey, haad]
    · exact absurd (Nat.le_of_eq hat.symm) hversion
  obtain ⟨es, hes⟩ := exists_mapM_eq_ok hentry
  have hupdate : ∃ y, (updateKeyring fun k => k.rewrap old new version).run x = .ok () y := by
    refine ⟨x.setKeyring { x.state.keyring with entries := es }, run_modifyE ?_⟩
    simp only [SubjectKeyring.rewrap, hes]
    rfl
  obtain ⟨y, hy⟩ := hupdate
  have hsave : ∃ z, (onlyIf (0 < (x.state.keyring.stale version).length)
      (saveKeyring .done)).run y = .ok () z := by
    unfold onlyIf
    split_ifs
    · exact ⟨_, rfl⟩
    · exact ⟨_, rfl⟩
  obtain ⟨z, hz⟩ := hsave
  exact ⟨_, _, run_bind_ok run_get (run_bind_ok hy (run_bind_ok hz rfl))⟩

/-! ### Crash and open -/

lemma wrapsFiles_of_wrapsBoth {b : Prop} {ev : List Event} (h : WrapsBoth W x)
    (hx : Holds b ev k x) : WrapsFiles W x.files := by
  intro e he
  rcases h.file e he with hmem | hwraps
  · rw [hx.keyring] at hmem
    rcases hx.agrees.pending _ hmem with hdisk | hcrumb
    · -- the entry is erased in the file too
      obtain ⟨d, hd, -, hnone⟩ := hx.file.erased hdisk
      obtain rfl := Option.some.inj ((hx.file.lookup_of_mem he).symm.trans hd)
      exact .inr (wraps_of_none hnone)
    · exact .inl hcrumb
  · exact .inr hwraps

lemma eq_of_mem_insert {d : SubjectEntry} (h : EntriesOk (insert e es))
    (hd : d ∈ insert e es) (hid : d.subjectId = e.subjectId) : d = e := by
  have := h.lookup_of_mem hd
  rw [lookup_insert, if_pos hid] at this
  exact (Option.some.inj this).symm

lemma wraps_forceErased {files : Files} (h : WrapsFiles W files) (hok : EntriesOk files.keyring)
    (hcrumb : files.breadcrumb = some s) :
    WrapsBoth W (World.setKeyring ⟨.load files.keyring, files⟩
      ((SubjectKeyring.load files.keyring).forceErased s now)) := by
  let k := SubjectKeyring.load files.keyring
  obtain ⟨hok', hcells⟩ : (k.forceErased s now).Ok ∧ cellOf (k.forceErased s now).entries = _ :=
    (ok_load hok).forceErased
  have hother : ∀ e ∈ files.keyring, e.subjectId ≠ s → e.Wraps W := fun e he hne =>
    (h e he).resolve_left fun hcrumb' => hne (Option.some.inj (hcrumb'.symm.trans hcrumb))
  have hforced : ∃ e : SubjectEntry, e.subjectId = s ∧ e.wrappedKey = none ∧
      (k.forceErased s now).entries = insert e files.keyring := by
    simp only [SubjectKeyring.forceErased]
    cases hget : (k.dropCache s).get s with
    | none => exact ⟨⟨s, none, [], .erased, some now, none⟩, rfl, rfl, rfl⟩
    | some e =>
      refine ⟨{ e with
        wrappedKey := none
        state := .erased
        erasedAtMicros := some (e.erasedAtMicros.getD now) }, (mem_of_lookup hget).2, rfl, rfl⟩
  obtain ⟨forced, hid, hnone, hentries⟩ := hforced
  constructor
  · intro e he
    change e ∈ (k.forceErased s now).entries at he
    have hes := hok'.entries
    rw [hentries] at he hes
    by_cases hes' : e.subjectId = s
    · rw [eq_of_mem_insert hes he (hes'.trans hid.symm)]
      exact wraps_of_none hnone
    · rcases of_mem_insert he with rfl | he
      · exact absurd hid hes'
      · exact hother e he hes'
  · intro e he
    by_cases hes : e.subjectId = s
    · refine .inl ((congrFun hcells _).trans ?_)
      rw [hes, update_self]
    · exact .inr (hother e he hes)

lemma wraps_recover {files : Files} {save clear : Write} (h : WrapsFiles W files)
    (hok : EntriesOk files.keyring) :
    Triple (· = ⟨.load files.keyring, files⟩) (recoverFromBreadcrumb now save clear)
      (fun _ => WrapsBoth W) (WrapsBoth W) := by
  refine triple_get_bind fun x hx => ?_
  subst hx
  simp only
  cases hcrumb : files.breadcrumb with
  | none =>
    have hall : ∀ e ∈ files.keyring, e.Wraps W := fun e he =>
      (h e he).resolve_left (by simp [hcrumb])
    exact triple_pure fun y hy => hy ▸ ⟨hall, fun e he => .inr (hall e he)⟩
  | some s =>
    refine Triple.bind (Q := fun _ => WrapsBoth W) (triple_modify ?_) fun _ => ?_
    · rintro y rfl
      exact wraps_forceErased h hok hcrumb
    refine (wraps_save save).bind fun _ => ?_
    exact Triple.bind (Q := fun _ => WrapsBoth W) (triple_modify fun y hy => hy.refreshGates)
      fun _ => wraps_clearBreadcrumb clear

end Wraps

end Aletheia.CryptoShred
