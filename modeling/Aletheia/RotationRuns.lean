import Aletheia.KeyringRotation

/-!
# Every subject stays readable

What the subject keys are wrapped under is a function of the ledger and of the rotation under way:
one key while no rotation is pending, two while the pass has still to be made, the new key after it.
-/

namespace Aletheia.CryptoShred

open Option

variable {b : Prop} {mek : Mek} {now : ℤ}

/-- What the keys in memory and file, or in the files alone, are wrapped under. -/
def Shred.Wrapped (W : SubjectId → WrappedKey → Prop) (d : Shred) : Prop :=
  match d.process with
  | some c => WrapsBoth W ⟨c, d.files⟩
  | none => WrapsFiles W d.files

section Calls

open Exec

variable {W V : SubjectId → WrappedKey → Prop} {ev ev' : List Event} {k : SubjectKeyring}
  {c : CryptoShredState} {files : Files} {d d' : Shred} {s : SubjectId}

lemma Shred.Wrapped.mono (h : d.Wrapped W) (hW : ∀ s w, W s w → V s w) : d.Wrapped V := by
  unfold Shred.Wrapped at h ⊢
  cases hp : d.process with
  | some c =>
    rw [hp] at h
    exact h.mono hW
  | none =>
    rw [hp] at h
    exact fun e he => (h e he).imp_right fun hw => hw.mono hW

lemma wrapped_settle {α : Type} {t : Task α} {x : World} {P P' E : World → Prop}
    {Q : α → World → Prop} (hspec : Triple P t Q E)
    (hwraps : Triple P' t (fun _ => WrapsBoth W) (WrapsBoth W)) (hP : P x) (hP' : P' x)
    (hE : ∀ y, E y → ∃ b ev k', Holds b ev k' y) : (Shred.settle ev' (t.run x)).Wrapped W := by
  rcases hrun : t.run x with ⟨_, y⟩ | ⟨_ | _, y⟩
  · exact hwraps.of_ok hP' hrun
  · exact hwraps.of_error hP' hrun
  · obtain ⟨_, _, _, hk⟩ := hE y (hspec.of_error hP hrun)
    exact wrapsFiles_of_wrapsBoth (hwraps.of_error hP' hrun) hk

lemma wrapped_designate {targets : List DesignationTarget} {key : SubjectKey} {w : Write}
    (h : Holds b ev k ⟨c, files⟩) (hw : WrapsBoth W ⟨c, files⟩)
    (hnew : c.keyring.get s = none →
      W s ⟨initialSubjectKeyVersion, encrypt mek key (s, initialSubjectKeyVersion)⟩) :
    (Shred.settle ev' ((designate mek s targets key w).run ⟨c, files⟩)).Wrapped W := by
  have hok : c.keyring.Ok := h.keyring ▸ h.ok
  refine wrapped_settle designate_spec wraps_designate h ⟨hw, hok, hnew⟩ ?_
  rintro y ⟨k', hk', -⟩
  exact ⟨_, _, k', hk'⟩

lemma wrapped_erase {w : EraseWrites} (h : Holds b ev k ⟨c, files⟩) (hw : WrapsBoth W ⟨c, files⟩)
    (hflushed : (c.keyring.get s).any (·.state = .active) → Flushed ⟨c, files⟩) :
    (Shred.settle ev' ((erase s now w).run ⟨c, files⟩)).Wrapped W := by
  have hkeyring : c.keyring = k := h.keyring
  have hcalled : Holds b (.eraseCalled s :: ev) k ⟨c, files⟩ :=
    ⟨h.keyring, h.ok, h.file, h.agrees.note_eraseCalled⟩
  have hok : c.keyring.Ok := hkeyring ▸ h.ok
  refine wrapped_settle (erase_spec List.mem_cons_self) wraps_erase
    ⟨hcalled, hkeyring ▸ hflushed⟩ ⟨hw, hok⟩ ?_
  exact fun y hy => ⟨_, _, hy⟩

lemma Holds.sure {x : World} (h : Holds b ev k x) (hb : b) : Holds True ev k x :=
  eq_true hb ▸ h

/-- A call on the keyring that wraps new keys as the others are. -/
def Action.Wraps (W : SubjectId → WrappedKey → Prop) (x : World) : Action → Prop
  | designate mek s _ key _ => x.state.keyring.get s = none →
    W s ⟨initialSubjectKeyVersion, encrypt mek key (s, initialSubjectKeyVersion)⟩
  | erase s _ _ => (x.state.keyring.get s).any (·.state = .active) → Flushed x
  | subjectKey _ _ => True
  | rewrapKeyring _ _ _ _ | openFiles _ _ _ | crash => False

lemma wrapped_step {a : Action} (hinv : d.Inv) (hc : d.process = some c)
    (hw : WrapsBoth W ⟨c, d.files⟩) (ha : a.Wraps W ⟨c, d.files⟩)
    (hs : d.step a = some d') : d'.Wrapped W := by
  obtain ⟨k, h⟩ := hinv.holds hc
  unfold Shred.step at hs
  rw [hc] at hs
  cases a with
  | designate mek s targets key w =>
    cases hs
    exact wrapped_designate h hw ha
  | erase s now w =>
    cases hs
    exact wrapped_erase h hw ha
  | subjectKey s mek =>
    have hok : c.keyring.Ok := h.keyring ▸ h.ok
    simp only at hs
    split at hs
    · next key x hrun =>
      cases hs
      exact wraps_subjectKey.of_ok ⟨hw, hok⟩ hrun
    · next e x hrun =>
      cases hs
      exact wraps_subjectKey.of_error ⟨hw, hok⟩ hrun
  | rewrapKeyring old new version w => exact ha.elim
  | openFiles now save clear => exact ha.elim
  | crash => exact ha.elim

lemma wrapped_openFiles {save clear : Write} (hinv : d.Inv) (hc : d.process = none)
    (hw : WrapsFiles W d.files) (hs : d.step (.openFiles now save clear) = some d') :
    d'.Wrapped W := by
  have hfiles := hinv.recoverable hc
  unfold Shred.step at hs
  rw [hc] at hs
  simp only at hs
  have hrecover : Triple _ (recoverFromBreadcrumb now save clear) _ _ :=
    wraps_recover hw hfiles.file
  split at hs
  · next u x hrun =>
    cases hs
    exact hrecover.of_ok rfl hrun
  · next e x hrun =>
    cases hs
    obtain ⟨k, hk⟩ := hfiles.recover_spec.of_error rfl hrun
    exact wrapsFiles_of_wrapsBoth (hrecover.of_error rfl hrun) hk

end Calls

namespace KeyedDb

/-- What the keys are wrapped under while no rotation runs. -/
def resting (d : KeyedDb) : SubjectId → WrappedKey → Prop :=
  match d.ledger with
  | none => Sole d.current d.version
  | some l =>
    match l.subjectKeyring with
    | .pending => Either d.current l.newSource l.newVersion
    | .skipped => fun _ _ => False
    | .complete => Sole l.newSource l.newVersion

def wrapping (d : KeyedDb) (h : Handle) : SubjectId → WrappedKey → Prop :=
  match h.rotation with
  | none => d.resting
  | some r =>
    match r.phase with
    -- a rotation without subject keys in scope began when there were none
    | .writeLedger => if r.inScope then d.resting else fun _ _ => False
    | .mark => AtVersion d.resting r.newVersion
    | .layers | .rewrap | .clear => d.resting

/-- The rotation under way and the ledger. -/
def RotationOk (d : KeyedDb) (h : Handle) (r : Rotation) : Prop :=
  match r.phase with
  | .writeLedger => d.ledger = none ∧ r.newVersion = d.version + 1 ∧ h.opening = false
  | .layers => ∃ l, d.ledger = some l ∧ l.newSource = r.newSource ∧ l.newVersion = r.newVersion ∧
      (r.inScope = true ↔ l.subjectKeyring = .pending)
  | .rewrap | .mark => d.ledger = some ⟨r.newVersion, r.newSource, .pending⟩ ∧
      h.version = r.newVersion
  | .clear => (∃ l, d.ledger = some l ∧ l.newSource = r.newSource ∧ l.newVersion = r.newVersion ∧
      l.subjectKeyring ≠ .pending) ∧ h.version = r.newVersion

/-- A pending rotation is one version ahead. -/
def VersionsOk (d : KeyedDb) : Prop :=
  1 ≤ d.version ∧ ∀ l ∈ d.ledger, l.newVersion = d.version + 1

structure Inv (d : KeyedDb) : Prop where
  shred : d.shred.Inv
  opened : ∀ h ∈ d.handle, ∃ c, d.shred.process = some c ∧
    WrapsBoth (d.wrapping h) ⟨c, d.shred.files⟩
  closed : d.handle = none → d.shred.process = none ∧ WrapsFiles d.resting d.shred.files
  versions : d.VersionsOk
  version : ∀ h ∈ d.handle, d.ledger = none → h.version = d.version
  rotation : ∀ h ∈ d.handle, ∀ r ∈ h.rotation, d.RotationOk h r

variable {d d' : KeyedDb} {h : Handle} {c : CryptoShredState} {r : Rotation} {s : SubjectId}
  {w : WrappedKey}

lemma resting_of_wrapping (hw : d.wrapping h s w) : d.resting s w := by
  cases hr : h.rotation with
  | none => simpa only [wrapping, hr] using hw
  | some r =>
    cases hp : r.phase with
    | writeLedger =>
      simp only [wrapping, hr, hp] at hw
      split_ifs at hw
      · exact hw
      · exact hw.elim
    | mark =>
      simp only [wrapping, hr, hp] at hw
      exact hw.1
    | layers | rewrap | clear => simpa only [wrapping, hr, hp] using hw

variable {k : SubjectKeyring}

lemma inv_close (hk : Holds True d.shred.events k ⟨c, d.shred.files⟩)
    (hw : WrapsBoth d.resting ⟨c, d.shred.files⟩) (hl : d.VersionsOk) : d.close.Inv where
  shred := hk.recoverable
  opened _ hh := nomatch hh
  closed _ := ⟨rfl, wrapsFiles_of_wrapsBoth hw hk⟩
  versions := hl
  version _ hh := nomatch hh
  rotation _ hh := nomatch hh

lemma inv_handle (hh : d.handle = some h) (hc : d.shred.process = some c)
    (hk : Holds b d.shred.events k ⟨c, d.shred.files⟩)
    (hw : WrapsBoth (d.wrapping h) ⟨c, d.shred.files⟩) (hl : d.VersionsOk)
    (hversion : d.ledger = none → h.version = d.version)
    (hrotation : ∀ r ∈ h.rotation, d.RotationOk h r) : d.Inv where
  shred := by
    unfold Shred.Inv
    rw [hc]
    exact ⟨k, Shred.weaken hk⟩
  opened h' hh' := by
    cases hh.symm.trans hh'
    exact ⟨c, hc, hw⟩
  closed hnone := by simp [hh] at hnone
  versions := hl
  version h' hh' := by
    cases hh.symm.trans hh'
    exact hversion
  rotation h' hh' := by
    cases hh.symm.trans hh'
    exact hrotation

lemma inv_fail (hc : d.shred.process = some c) (hk : Holds b d.shred.events k ⟨c, d.shred.files⟩)
    (hb : h.opening = true → b) (hw : WrapsBoth d.resting ⟨c, d.shred.files⟩) (hl : d.VersionsOk)
    (hversion : d.ledger = none → h.version = d.version) : (d.fail h).Inv := by
  unfold fail
  split_ifs with hopening
  · exact inv_close (hk.sure (hb hopening)) hw hl
  · exact inv_handle rfl hc hk hw hl hversion fun r hr => nomatch hr

/-! ### The steps of a rotation -/

section Steps

open Exec

variable {k : SubjectKeyring} {l : Write} (hr : d.RotationOk h r)

include hr in
lemma resting_setLedger (hphase : r.phase = .writeLedger) (hrot : h.rotation = some r)
    (hw : d.wrapping h s w) : (d.setLedger r.ledger).resting s w := by
  simp only [RotationOk, hphase] at hr
  obtain ⟨hnone, hversion, -⟩ := hr
  simp only [wrapping, hrot, hphase] at hw
  cases hscope : r.inScope with
  | false => simp [hscope] at hw
  | true =>
    simp only [hscope, if_true, resting, hnone] at hw
    simp only [resting, setLedger, Rotation.ledger, hscope, if_true, hversion]
    exact hw.either

variable (hc : d.shred.process = some c) (hl : d.VersionsOk)
  (hw : WrapsBoth (d.wrapping h) ⟨c, d.shred.files⟩)
include hr hl hw

lemma inv_pass (hk : Holds (ends h (.rewrap l) = true) d.shred.events k ⟨c, d.shred.files⟩)
    (hphase : r.phase = .rewrap) (hstale : StaleInMemory r.newVersion ⟨c, d.shred.files⟩) :
    (d.pass h r l c).Inv := by
  have hrest := hw.mono fun s w => resting_of_wrapping
  simp only [RotationOk, hphase] at hr
  obtain ⟨hledger, hversion⟩ := hr
  have hresting : d.resting = Either d.current r.newSource r.newVersion := by
    simp only [resting, hledger]
  have hok : c.keyring.Ok := hk.keyring ▸ hk.ok
  have hrewraps : Rewraps d.resting h.config r.newSource r.newVersion :=
    hresting ▸ rewraps_either
  have hwraps := wraps_rewrapKeyring hrewraps (w := l)
  have hpre := And.intro hrest (And.intro hok (And.intro hk.file hstale))
  unfold pass
  rcases hrun : (rewrapKeyring h.config r.newSource r.newVersion l).run ⟨c, d.shred.files⟩
    with ⟨n, y⟩ | ⟨err | _, y⟩
  · obtain ⟨k', hk'⟩ := rewrapKeyring_spec.of_ok hk hrun
    refine inv_handle rfl rfl hk' ?_ hl (fun hnone => ?_) ?_
    · exact hwraps.of_ok hpre hrun
    · exact absurd (show d.ledger = none from hnone) (by simp [hledger])
    · rintro r' hr'
      cases hr'
      exact ⟨hledger, hversion⟩
  · obtain ⟨k', hk'⟩ := rewrapKeyring_spec.of_error hk hrun
    exact inv_fail rfl hk' (fun h => by simp [ends, h]) (hwraps.of_error hpre hrun) hl
      (by simp [hledger])
  · obtain ⟨k', hk'⟩ := rewrapKeyring_spec.of_error hk hrun
    have hl' : l.crashes = true := by
      by_contra hw
      have hstays : Stays (rewrapKeyring h.config r.newSource r.newVersion l) :=
        stays_rewrapKeyring (Bool.eq_false_iff.mpr hw)
      have := hstays ⟨c, d.shred.files⟩
      rw [hrun] at this
      cases this
    exact inv_close (hk'.sure (by simp [ends, hl'])) (hwraps.of_error hpre hrun) hl

include hc

lemma inv_writeLedger
    (hk : Holds (ends h (.writeLedger l) = true) d.shred.events k ⟨c, d.shred.files⟩)
    (hrot : h.rotation = some r) (hphase : r.phase = .writeLedger)
    (hversion : d.ledger = none → h.version = d.version)
    (hs : d.rotationStep h r (.writeLedger l) = some d') : d'.Inv := by
  have hset := hw.mono fun s w => resting_setLedger hr hphase hrot
  have hrest := hw.mono fun s w => resting_of_wrapping
  have hr' := hr
  simp only [RotationOk, hphase] at hr'
  obtain ⟨hnone, hnew, hopening⟩ := hr'
  have hlset : (d.setLedger r.ledger).VersionsOk := by
    refine ⟨hl.1, fun l hl => ?_⟩
    cases hl
    exact hnew
  simp only [rotationStep, hphase] at hs
  cases l with
  | done =>
    cases hs
    refine inv_handle rfl hc hk hset hlset (fun hl => nomatch hl) ?_
    rintro r' hr'
    cases hr'
    refine ⟨r.ledger, rfl, rfl, rfl, ?_⟩
    cases hscope : r.inScope <;> simp [Rotation.ledger, hscope]
  | refused =>
    cases hs
    exact inv_fail hc hk (fun h => by simp [hopening] at h) hrest hl hversion
  | crashed renamed =>
    cases hs
    have hsure := hk.sure rfl
    cases renamed with
    | true => exact inv_close (d := d.setLedger r.ledger) hsure hset hlset
    | false => exact inv_close hsure hrest hl

lemma inv_layers {ok : Bool}
    (hk : Holds (ends h (.layers ok) = true) d.shred.events k ⟨c, d.shred.files⟩)
    (hphase : r.phase = .layers) (hs : d.rotationStep h r (.layers ok) = some d') : d'.Inv := by
  have hrest := hw.mono fun s w => resting_of_wrapping
  simp only [RotationOk, hphase] at hr
  obtain ⟨l, hledger, hsource, hversion, hscope⟩ := hr
  simp only [rotationStep, hphase] at hs
  cases ok with
  | false =>
    cases hs
    exact inv_fail hc hk (fun h => by simp [ends, h]) hrest hl (by simp [hledger])
  | true =>
    cases hs
    cases hin : r.inScope with
    | true =>
      refine inv_handle rfl hc hk hrest hl (fun hnone => ?_) ?_
      · simp [advance, hledger] at hnone
      · rintro r' hr'
        cases hr'
        refine ⟨hledger.trans ?_, rfl⟩
        rw [← hsource, ← hversion, ← hscope.mp hin]
    | false =>
      refine inv_handle rfl hc hk hrest hl (fun hnone => ?_) ?_
      · simp [advance, hledger] at hnone
      · rintro r' hr'
        cases hr'
        refine ⟨⟨l, hledger, hsource, hversion, fun hpending => ?_⟩, rfl⟩
        simp [hscope.mpr hpending] at hin

lemma inv_mark (hk : Holds (ends h (.mark l) = true) d.shred.events k ⟨c, d.shred.files⟩)
    (hrot : h.rotation = some r) (hphase : r.phase = .mark)
    (hs : d.rotationStep h r (.mark l) = some d') : d'.Inv := by
  have hrest := hw.mono fun s w => resting_of_wrapping
  simp only [RotationOk, hphase] at hr
  obtain ⟨hledger, hversion⟩ := hr
  let marked := d.setLedger ⟨r.newVersion, r.newSource, .complete⟩
  have hmarked : d.markComplete = marked := by
    rw [markComplete, hledger]
    rfl
  have hset : WrapsBoth marked.resting ⟨c, d.shred.files⟩ := by
    refine hw.mono fun s w hsw => ?_
    simp only [wrapping, hrot, hphase, resting, hledger] at hsw
    exact sole_of_either hsw
  have hlset : marked.VersionsOk := by
    refine ⟨hl.1, fun l' hl' => ?_⟩
    cases hl'
    exact hl.2 ⟨r.newVersion, r.newSource, .pending⟩ hledger
  simp only [rotationStep, hphase] at hs
  cases l with
  | done =>
    rw [hmarked] at hs
    cases hs
    refine inv_handle rfl hc hk hset hlset (fun hnone => nomatch hnone) ?_
    rintro r' hr'
    cases hr'
    exact ⟨⟨_, rfl, rfl, rfl, by simp⟩, hversion⟩
  | refused =>
    cases hs
    exact inv_fail hc hk (fun h => by simp [ends, h]) hrest hl (by simp [hledger])
  | crashed renamed =>
    rw [hmarked] at hs
    cases hs
    have hsure := hk.sure rfl
    cases renamed with
    | true => exact inv_close (d := marked) hsure hset hlset
    | false => exact inv_close hsure hrest hl

lemma inv_clear {l : Option Bool}
    (hk : Holds (ends h (.clear l) = true) d.shred.events k ⟨c, d.shred.files⟩)
    (hphase : r.phase = .clear) (hs : d.rotationStep h r (.clear l) = some d') : d'.Inv := by
  have hrest := hw.mono fun s w => resting_of_wrapping
  simp only [RotationOk, hphase] at hr
  obtain ⟨⟨l', hledger, hsource, hnew, hdone⟩, hversion⟩ := hr
  have hset : WrapsBoth (d.finished r).resting ⟨c, d.shred.files⟩ := by
    refine hrest.mono fun s w hsw => ?_
    cases hstatus : l'.subjectKeyring with
    | pending => exact absurd hstatus hdone
    | skipped => simp [resting, hledger, hstatus] at hsw
    | complete =>
      simp only [resting, hledger, hstatus] at hsw
      simp only [resting, finished, ← hsource, ← hnew]
      exact hsw
  have hlset : (d.finished r).VersionsOk := by
    refine ⟨?_, fun l hl => nomatch hl⟩
    simp only [finished, ← hnew, hl.2 l' hledger]
    exact Nat.le_add_left 1 d.version
  simp only [rotationStep, hphase] at hs
  cases l with
  | none =>
    cases hs
    exact inv_handle rfl hc hk hset hlset (fun _ => hversion) fun r hr => nomatch hr
  | some removed =>
    cases hs
    have hsure := hk.sure rfl
    cases removed with
    | true => exact inv_close (d := d.finished r) hsure hset hlset
    | false => exact inv_close hsure hrest hl

omit hr hl in
lemma inv_rotationStep {a : RotationAction}
    (hk : Holds (ends h a = true) d.shred.events k ⟨c, d.shred.files⟩) (hinv : d.Inv)
    (hh : d.handle = some h) (hrot : h.rotation = some r) (hallows : d.Allows h c a)
    (hs : d.rotationStep h r a = some d') : d'.Inv := by
  have hr := hinv.rotation h hh r hrot
  have hversion := hinv.version h hh
  have hl := hinv.versions
  have hs' := hs
  unfold rotationStep at hs'
  split at hs'
  case h_1 hphase | h_2 hphase | h_3 hphase =>
    exact inv_writeLedger hr hc hl hw hk hrot hphase hversion hs
  case h_4 hphase | h_5 hphase => exact inv_layers hr hc hl hw hk hphase hs
  case h_6 hphase =>
    rw [hc] at hs'
    cases hs'
    exact inv_pass hr hl hw hk hphase (hallows r hrot)
  case h_7 hphase | h_8 hphase | h_9 hphase => exact inv_mark hr hc hl hw hk hrot hphase hs
  case h_10 hphase | h_11 hphase => exact inv_clear hr hc hl hw hk hphase hs
  case h_12 => cases hs'

end Steps

/-! ### The other steps -/

lemma inv_call {a : Action} (hinv : d.Inv) (hh : d.handle = some h) (hc : d.shred.process = some c)
    (hw : WrapsBoth (d.wrapping h) ⟨c, d.shred.files⟩) (hproper : d.shred.Proper a)
    (ha : a.Wraps (d.wrapping h) ⟨c, d.shred.files⟩) (hs : d.call h a = some d') : d'.Inv := by
  unfold call at hs
  split_ifs at hs with hopening
  obtain ⟨s, hstep, rfl⟩ := map_eq_some_iff.mp hs
  have hshred := Shred.inv_step hinv.shred hproper hstep
  have hwrapped := wrapped_step hinv.shred hc hw ha hstep
  cases hp : s.process with
  | some c' =>
    unfold Shred.Wrapped at hwrapped
    rw [hp] at hwrapped
    obtain ⟨k, hk⟩ := hshred.holds hp
    exact inv_handle (by simp) hp hk hwrapped hinv.versions (hinv.version h hh) (hinv.rotation h hh)
  | none =>
    have hfiles := hwrapped.mono (V := d.resting) fun s w => resting_of_wrapping
    unfold Shred.Wrapped at hfiles
    rw [hp] at hfiles
    exact ⟨hshred, by simp [hp], fun _ => ⟨hp, hfiles⟩, hinv.versions, by simp, by simp⟩

lemma inv_open {save clear : Write} (hinv : d.Inv) (hh : d.handle = none) {s : Shred}
    (hs : d.shred.step (.openFiles now save clear) = some s) : (d.opened mek s).Inv := by
  obtain ⟨hc, hw⟩ := hinv.closed hh
  have hproper : d.shred.Proper (.openFiles now save clear) := by
    intro c hc'
    simp [hc] at hc'
  have hshred := Shred.inv_step hinv.shred hproper hs
  have hwrapped := wrapped_openFiles hinv.shred hc hw hs
  unfold Shred.Wrapped at hwrapped
  cases hp : s.process with
  | none =>
    rw [hp] at hwrapped
    exact ⟨hshred, by simp [opened, hp], fun _ => ⟨hp, hwrapped⟩, hinv.versions,
      by simp [opened, hp], by simp [opened, hp]⟩
  | some c =>
    rw [hp] at hwrapped
    obtain ⟨k, hk⟩ := hshred.holds hp
    refine inv_handle (h := ⟨mek, d.openVersion, d.ledger.isSome, d.ledger.map Rotation.resume⟩)
      (by simp [opened, hp]) hp hk ?_ hinv.versions (fun hnone => ?_) ?_
    · refine hwrapped.mono fun u w hw => ?_
      cases hl : d.ledger with
      | none => simpa [wrapping, opened, resting, hl] using hw
      | some l => simpa [wrapping, opened, resting, hl, Rotation.resume] using hw
    · have hnone : d.ledger = none := hnone
      simp [openVersion, opened, hnone]
    · intro r hr
      obtain ⟨l, hl, rfl⟩ := map_eq_some_iff.mp hr
      exact ⟨l, hl, rfl, rfl, by simp [Rotation.resume]⟩

lemma wraps_none_of_stale {version : ℕ} (hk : Holds b d.shred.events k ⟨c, d.shred.files⟩)
    (hw : WrapsBoth (Sole mek version) ⟨c, d.shred.files⟩)
    (hstale : c.keyring.stale (version + 1) = []) :
    WrapsBoth (fun _ _ => False) ⟨c, d.shred.files⟩ := by
  have hok : c.keyring.Ok := hk.keyring ▸ hk.ok
  have hnone : ∀ e ∈ c.keyring.entries, e.wrappedKey = none := by
    intro e he
    cases hkey : e.wrappedKey with
    | none => rfl
    | some w =>
      have := SubjectKeyring.mem_stale he (hok.entries.wellFormed e he) hkey
        (Nat.lt_succ_of_le (hw.memory e he w hkey).2.2)
      rw [hstale] at this
      cases this
  refine ⟨fun e he => wraps_of_none (hnone e he), fun e he => ?_⟩
  cases hkey : e.wrappedKey with
  | none => exact .inr (wraps_of_none hkey)
  | some w =>
    -- an entry of the file with a key has a key in memory, or is erased there
    have hactive : e.state = .active := (hk.file.wellFormed e he).mpr (by simp [hkey])
    have hdisk : cellOf d.shred.files.keyring e.subjectId = .active w.wrapped.plaintext := by
      rw [cellOf_of_lookup (hk.file.lookup_of_mem he), SubjectEntry.cell, hactive, hkey]
    have hkeyring : c.keyring = k := hk.keyring
    rcases hk.agrees.behind e.subjectId with habsent | hsame | herased
    · rw [hdisk] at habsent
      cases habsent
    · rw [hdisk, ← hkeyring] at hsame
      obtain ⟨e', w', hl, -, hw', -⟩ := lookup_of_active hsame.symm
      rw [hnone e' (mem_of_lookup hl).1] at hw'
      cases hw'
    · exact .inl (hkeyring ▸ herased)

lemma inv_startRotation {new : Mek} (hinv : d.Inv) (hh : d.handle = some h)
    (hc : d.shred.process = some c) (hw : WrapsBoth (d.wrapping h) ⟨c, d.shred.files⟩)
    (hledger : d.ledger = none) (hopening : h.opening = false) : (d.startRotation h new).Inv := by
  have hversion := hinv.version h hh hledger
  obtain ⟨k, hk⟩ := hinv.shred.holds hc
  have hsole : WrapsBoth (Sole d.current d.version) ⟨c, d.shred.files⟩ := by
    refine hw.mono fun s w hsw => ?_
    simpa only [resting, hledger] using resting_of_wrapping hsw
  refine inv_handle (h := { h with rotation := some ⟨new, h.version + 1,
    !(c.keyring.stale (h.version + 1)).isEmpty, .writeLedger⟩ }) ?_ hc hk ?_ hinv.versions
    (hinv.version h hh) ?_
  · simp only [startRotation, hc]
    rfl
  · cases hstale : (c.keyring.stale (h.version + 1)).isEmpty with
    | true =>
      rw [hversion, List.isEmpty_iff] at hstale
      exact wraps_none_of_stale hk hsole hstale
    | false =>
      refine hsole.mono fun s w hsw => ?_
      simpa [wrapping, resting, startRotation, hledger] using hsw
  · intro r hr
    cases hr
    refine ⟨hledger, ?_, hopening⟩
    rw [hversion]
    rfl

lemma wrapping_of_takesNew {key : SubjectKey} (hinv : d.Inv) (hh : d.handle = some h)
    (htakes : d.TakesNew h) : d.wrapping h s
      ⟨initialSubjectKeyVersion, encrypt h.config key (s, initialSubjectKeyVersion)⟩ := by
  obtain ⟨hconfig, htakes⟩ := htakes
  obtain ⟨hpositive, hnew⟩ := hinv.versions
  have hsole : Sole d.current d.version s
      ⟨initialSubjectKeyVersion, encrypt h.config key (s, initialSubjectKeyVersion)⟩ :=
    ⟨rfl, hconfig, hpositive⟩
  -- while the pass has still to be made, the key will be found stale
  have hpending : ∀ l ∈ d.ledger, l.subjectKeyring = .pending → d.resting s
      ⟨initialSubjectKeyVersion, encrypt h.config key (s, initialSubjectKeyVersion)⟩ := by
    intro l hl hstatus
    have hl : d.ledger = some l := hl
    simp only [resting, hl, hstatus, hnew l hl]
    exact hsole.either
  cases hr : h.rotation with
  | none =>
    rw [hr] at htakes
    simp only [wrapping, hr]
    cases hl : d.ledger with
    | none =>
      simp only [resting, hl]
      exact hsole
    | some l => exact hpending l hl (htakes l hl)
  | some r =>
    rw [hr] at htakes
    obtain ⟨hscope, hphase⟩ := htakes
    have hrot := hinv.rotation h hh r hr
    rcases hphase with hphase | hphase | hphase
    · simp only [RotationOk, hphase] at hrot
      simp only [wrapping, hr, hphase, hscope, if_true, resting, hrot.1]
      exact hsole
    · simp only [RotationOk, hphase] at hrot
      obtain ⟨l, hl, -, -, hiff⟩ := hrot
      simp only [wrapping, hr, hphase]
      exact hpending l hl (hiff.mp hscope)
    · simp only [RotationOk, hphase] at hrot
      simp only [wrapping, hr, hphase]
      exact hpending _ hrot.1 rfl

/-- **Step lemma.** -/
lemma inv_step {a : RotationAction} (hinv : d.Inv) (hproper : d.Proper a)
    (hs : d.step a = some d') : d'.Inv := by
  cases hh : d.handle with
  | none =>
    unfold step at hs
    rw [hh] at hs
    split at hs
    case h_1 mek now save clear =>
      split_ifs at hs with hopens
      · obtain ⟨s, hstep, rfl⟩ := map_eq_some_iff.mp hs
        exact inv_open hinv hh hstep
      · cases hs
        exact hinv
    all_goals simp_all
  | some h =>
    obtain ⟨c, hc, hw⟩ := hinv.opened h hh
    obtain ⟨hends, hallows⟩ := hproper h hh c hc
    obtain ⟨k, hk⟩ := hinv.shred.holds hc
    have hstrong := Shred.strengthen hk hends
    have hrotation : ∀ {r}, h.rotation = some r → d.rotationStep h r a = some d' → d'.Inv :=
      fun hr => inv_rotationStep hc hw hstrong hinv hh hr hallows
    -- what a call on the keyring has to meet
    have hcall : ∀ {b : Action}, (b.crashes → ends h a) → (∀ s ∈ b.erases,
        (c.keyring.get s).any (·.state = .active) → Flushed ⟨c, d.shred.files⟩) →
        d.shred.Proper b := by
      intro b hcrash herase c' hc'
      cases hc.symm.trans hc'
      exact ⟨fun hb => hends (hcrash hb), herase⟩
    unfold step at hs
    rw [hh] at hs
    cases a with
    | designate s targets key w =>
      refine inv_call hinv hh hc hw ?_ ?_ hs
      · exact hcall id fun u hu => nomatch hu
      · exact fun hget => wrapping_of_takesNew hinv hh (hallows hget)
    | erase s now w =>
      refine inv_call hinv hh hc hw ?_ ?_ hs
      · refine hcall id fun u hu => ?_
        cases hu
        exact hallows
      · exact hallows
    | subjectKey s =>
      refine inv_call hinv hh hc hw ?_ ?_ hs
      · exact hcall id fun u hu => nomatch hu
      · trivial
    | rotate new =>
      simp only at hs
      split_ifs at hs with hbusy hrefused
      · cases hs
        exact hinv
      · cases hs
        simp only [not_or, Bool.not_eq_true, isSome_eq_false_iff, isNone_iff_eq_none]
          at hbusy hrefused
        exact inv_startRotation hinv hh hc hw hrefused.1 hbusy.1
    | resume =>
      simp only at hs
      split_ifs at hs with hbusy
      cases hs
      simp only [not_or, Bool.not_eq_true, isSome_eq_false_iff, isNone_iff_eq_none] at hbusy
      refine inv_handle rfl hc hk ?_ hinv.versions (hinv.version h hh) ?_
      · refine hw.mono fun s w hsw => ?_
        simp only [wrapping, hbusy.2] at hsw
        cases hl : d.ledger with
        | none => simpa [wrapping, resting, hl] using hsw
        | some l => simpa [wrapping, resting, hl, Rotation.resume] using hsw
      · intro r hr
        obtain ⟨l, hl, rfl⟩ := map_eq_some_iff.mp hr
        exact ⟨l, hl, rfl, rfl, by simp [Rotation.resume]⟩
    | crash =>
      cases hs
      exact inv_close (hstrong.sure rfl) (hw.mono fun s w => resting_of_wrapping) hinv.versions
    | writeLedger | layers | rewrap | mark | clear | openFiles =>
      obtain ⟨r, hr, hs⟩ := bind_eq_some_iff.mp hs
      exact hrotation hr hs

/-! ### Runs -/

/-- An open process, or one that the files are opened as, agrees with the events and wraps its keys
as the ledger says. -/
lemma Inv.processes {files : Files} (hinv : d.Inv) (hp : d.Processes c files) :
    ∃ b k, Holds b d.shred.events k ⟨c, files⟩ ∧ WrapsBoth d.resting ⟨c, files⟩ := by
  rcases hp with ⟨hc, rfl⟩ | ⟨hc, now, save, clear, u, hopen⟩
  · obtain ⟨k, hk⟩ := hinv.shred.holds hc
    cases hh : d.handle with
    | none =>
      rw [(hinv.closed hh).1] at hc
      cases hc
    | some h =>
      obtain ⟨c', hc', hw⟩ := hinv.opened h hh
      cases hc.symm.trans hc'
      exact ⟨_, k, hk, hw.mono fun s w => resting_of_wrapping⟩
  · have hshred := hinv.shred.recoverable hc
    obtain ⟨k, hk⟩ := hshred.of_open_ok hopen
    cases hh : d.handle with
    | none =>
      have hrecover : Exec.Triple _ (recoverFromBreadcrumb now save clear) _ _ :=
        wraps_recover (hinv.closed hh).2 hshred.file
      exact ⟨_, k, hk, hrecover.of_ok rfl hopen⟩
    | some h =>
      obtain ⟨c', hc', -⟩ := hinv.opened h hh
      simp [hc] at hc'

lemma Inv.keepsReadable (hinv : d.Inv) : d.KeepsReadable where
  readable := by
    rintro ⟨hledger, -⟩ c files hp e he hactive
    obtain ⟨b, k, hk, hw⟩ := hinv.processes hp
    have hkeyring : c.keyring = k := hk.keyring
    have hok : c.keyring.Ok := hkeyring ▸ hk.ok
    obtain ⟨w, hwrapped⟩ := isSome_iff_exists.mp ((hok.entries.wellFormed e he).mp hactive)
    have hsole := hw.memory e he w hwrapped
    simp only [resting, hledger] at hsole
    refine ⟨w, w.wrapped.plaintext, hwrapped, by simp [decrypt, hsole.1, hsole.2.1], ?_⟩
    intro v hv
    have hcell : cellOf k.entries e.subjectId = .active w.wrapped.plaintext := by
      rw [← hkeyring, cellOf_of_lookup (hok.entries.lookup_of_mem he), SubjectEntry.cell, hactive,
        hwrapped]
    rcases hk.agrees.once _ hv e.subjectId v rfl with hmem | hmem
    · exact (Cell.active.inj (hcell.symm.trans hmem.1)).symm
    · rw [hcell] at hmem
      cases hmem
  gone := by
    intro s hs c files hp
    obtain ⟨b, k, hk, -⟩ := hinv.processes hp
    exact Shred.gone_of_holds hk hs
  completable := by
    intro l hl hpending c files hp
    obtain ⟨b, k, -, hw⟩ := hinv.processes hp
    refine rewrapKeyring_total fun e he => ?_
    have hl : d.ledger = some l := hl
    have hmem := hw.memory e he
    simpa only [resting, hl, hpending] using hmem

lemma inv_init (mek : Mek) : (init mek).Inv where
  shred := ⟨⟨by simp [init, Shred.init], by simp [init, Shred.init]⟩,
    by simp [init, Shred.init, cellOf, lookup], by simp [init, Shred.init],
    by simp [init, Shred.init]⟩
  opened _ hh := nomatch hh
  closed _ := ⟨rfl, fun e he => nomatch he⟩
  versions := ⟨Nat.le_refl 1, fun _ hl => nomatch hl⟩
  version _ hh := nomatch hh
  rotation _ hh := nomatch hh

/-- In the runs that meet the condition at every step, every subject stays readable with the key of
the last rotation, no erased subject regains a key, and a pending pass can be completed. -/
theorem keepsReadable_run {mek : Mek} {as : List RotationAction}
    (h : Machine.Along step Proper (init mek) as)
    (hrun : Machine.run step (init mek) as = some d) : d.KeepsReadable :=
  (Machine.invariant_run (fun _ _ _ => inv_step) (inv_init mek) h hrun).keepsReadable

section Cases

/-- A rotation to `new` without failures. -/
def rotation (new : Mek) : List RotationAction :=
  [.rotate new, .writeLedger .done, .layers true, .rewrap .done, .mark .done, .clear none]

/-- Designate after the pass, on the handle of the rotation. -/
def designateAfter : List RotationAction :=
  [RotationAction.openFiles 1 0 .done .done, .designate "ann" [.wholeNode 1] 11 .done] ++ rotation 2 ++
  [RotationAction.designate "bob" [.wholeNode 2] 12 .done, .crash, .openFiles 2 0 .done .done]

/-- Designate the first subject during a rotation. -/
def designateDuring : List RotationAction :=
  [.openFiles 1 0 .done .done, .rotate 2, .writeLedger .done,
    .designate "bob" [.wholeNode 2] 12 .done, .layers true, .clear none, .crash,
    .openFiles 2 0 .done .done]

/-- The write of the pass is refused and the rotation resumed. -/
def refusedPass : List RotationAction :=
  [.openFiles 1 0 .done .done, .designate "bob" [.wholeNode 2] 12 .done, .rotate 2,
    .writeLedger .done, .layers true, .rewrap .refused, .resume, .layers true, .rewrap .done,
    .mark .done, .clear none, .crash, .openFiles 2 0 .done .done]

/-- Two rotations with a reopen between them; subjects are designated before and during the pass,
the first pass is interrupted by a crash. -/
def reopened : List RotationAction :=
  [RotationAction.openFiles 1 0 .done .done, .designate "ann" [.wholeNode 1] 11 .done, .subjectKey "ann",
    .rotate 2, .writeLedger .done, .designate "bob" [.wholeNode 2] 12 .done, .layers true,
    .rewrap (.crashed false), .openFiles 1 0 .done .done, .layers true, .rewrap .done,
    .mark .done, .clear none, .erase "bob" 5 ⟨.done, .done, .done⟩, .crash,
    .openFiles 2 0 .done .done, .designate "cyd" [.wholeNode 3] 13 .done] ++ rotation 3 ++
  [RotationAction.crash, .openFiles 3 0 .done .done, .subjectKey "ann"]

/-- The subject is active and its key does not unwrap under the key of the last rotation. -/
def Unreadable (d : KeyedDb) (s : SubjectId) : Prop :=
  d.Settled ∧ ∃ c e w, d.shred.process = some c ∧ c.keyring.get s = some e ∧ e.state = .active ∧
    e.wrappedKey = some w ∧ decrypt d.current w.wrapped (s, w.keyVersion) = none

/-- **A subject that can no longer be read.** -/
theorem keepsReadable_violated :
    (∃ d ∈ Machine.run step (init 1) designateAfter, d.Unreadable "bob") ∧
    (∃ d ∈ Machine.run step (init 1) designateDuring, d.Unreadable "bob") ∧
    ∃ d ∈ Machine.run step (init 1) refusedPass, d.Unreadable "bob" := by
  refine ⟨⟨_, rfl, ⟨rfl, ?_⟩, _, _, _, rfl, rfl, rfl, rfl, rfl⟩,
    ⟨_, rfl, ⟨rfl, ?_⟩, _, _, _, rfl, rfl, rfl, rfl, rfl⟩,
    ⟨_, rfl, ⟨rfl, ?_⟩, _, _, _, rfl, rfl, rfl, rfl, rfl⟩⟩
  all_goals
    intro h hh r hr
    cases hh
    cases hr

theorem keepsReadable_run_reopened :
    ∃ d ∈ Machine.run step (init 1) reopened, d.KeepsReadable ∧ d.Settled ∧ d.current = 3 ∧
      .used "ann" 11 ∈ d.shred.events ∧ .erased "bob" ∈ d.shred.events := by
  have hproper : Machine.Along step Proper (init 1) reopened := by decide
  refine ⟨_, rfl, keepsReadable_run hproper rfl, ⟨rfl, ?_⟩, rfl, by decide, by decide⟩
  intro h hh r hr
  cases hh
  cases hr

end Cases

end KeyedDb

end Aletheia.CryptoShred
