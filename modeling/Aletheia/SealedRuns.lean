import Aletheia.SealedStorage

/-!
# No designated value in the clear

The maps that a transaction has sealed stay good until they are stored, because designations and
erasures keep out of the way; what is stored is one of them, or a map that was stored before.
-/

namespace Aletheia.CryptoShred

open Exec Function List Machine Option PropertyStore

variable {β : Type}

section Apply

variable {k : SubjectKeyring} {designated : List DesignationTarget} {e : EntityId}
  {st : EntityState β} {choice : Choice} {w : PropertyWrite β}

lemma EntityState.SealsAll.apply (h : st.SealsAll k designated e)
    (hw : ∀ m ∈ w.properties?, SealsMap k designated e m) :
    (st.apply w choice).state.SealsAll k designated e :=
  EntityState.forall_apply h hw

end Apply

namespace SealDb

variable {d d' : SealDb β} {mek : Mek} {t : ℕ} {tx : WriteTx β} {w : PropertyWrite β}

/-- The maps that the transaction has sealed are good. -/
def TxOk (k : SubjectKeyring) (designated : List DesignationTarget) (tx : WriteTx β) : Prop :=
  ∀ n, tx.phase = .sealing n → tx.context.isSome →
    ∀ w ∈ tx.buffer.take n, ∀ m ∈ w.properties?, SealsMap k designated w.entity m

structure Inv (d : SealDb β) : Prop where
  covering : Covering d.keyring d.designated
  txs : ∀ tx ∈ d.store.txs, TxOk d.keyring d.designated tx
  stored : d.NeverInTheClear

variable {designated : List DesignationTarget} {k : SubjectKeyring}

lemma txOk_of_phase (h : ∀ n, tx.phase ≠ .sealing n) : TxOk k designated tx :=
  fun n hn => absurd hn (h n)

lemma txOk_of_holdsSealed (h : holdsSealed tx = false) : TxOk k designated tx := by
  intro n hn hc
  simp only [holdsSealed, hn] at h
  rw [h] at hc
  cases hc

lemma TxOk.of_entries {k k' : SubjectKeyring}
    (h : TxOk k designated tx) (hk : k'.entries = k.entries) : TxOk k' designated tx :=
  fun n hn hc w hw m hm => (h n hn hc w hw m hm).of_entries hk

lemma Inv.putTx (h : d.Inv) (htx : TxOk d.keyring d.designated tx) :
    (d.withStore (d.store.putTx t tx)).Inv where
  covering := h.covering
  txs tx' hmem := by
    rcases mem_or_eq_of_mem_set hmem with hmem | rfl
    · exact h.txs tx' hmem
    · exact htx
  stored := h.stored

/-! ### The steps -/

lemma Inv.call (h : d.Inv) {α : Type} {x : Task α} {onOk : List DesignationTarget}
    (hx : Exec.Triple (CoversWorld d.designated) x
      (fun _ => CoversWorld (onOk ++ d.designated)) (CoversWorld d.designated))
    (hnone : ∀ tx ∈ d.store.txs, holdsSealed tx = false) (hd : d.call x onOk = some d') :
    d'.Inv := by
  unfold SealDb.call at hd
  split at hd
  next r world hrun =>
    cases hd
    exact ⟨hx.of_ok h.covering hrun, fun tx htx => txOk_of_holdsSealed (hnone tx htx), h.stored⟩
  next err world hrun =>
    cases hd
    exact ⟨hx.of_error h.covering hrun, fun tx htx => txOk_of_holdsSealed (hnone tx htx), h.stored⟩
  next => cases hd

lemma Inv.begin (h : d.Inv) {context : Option Mek} :
    (d.withStore (d.store.begin context)).Inv where
  covering := h.covering
  txs tx hmem := by
    rcases mem_append.mp hmem with hmem | hmem
    · exact h.txs tx hmem
    · rw [mem_singleton.mp hmem]
      exact txOk_of_phase (by simp)
  stored := h.stored

lemma phase_of_inPhase {phase : TxPhase} (h : d.store.inPhase t phase = some tx) :
    tx.phase = phase := by
  simpa using (filter_eq_some_iff.mp h).2

variable {st : PropertyStore β}

lemma Inv.request (h : d.Inv) {r : PropertyRequest β}
    (hst : d.store.request t r = some st) : (d.withStore st).Inv := by
  obtain ⟨tx, htx, rfl⟩ := map_eq_some_iff.mp hst
  cases r.write d.store tx with
  | none => exact h
  | some w => exact h.putTx (txOk_of_phase (by simp [phase_of_inPhase htx]))

lemma Inv.rollback (h : d.Inv) (hst : d.store.rollback t = some st) : (d.withStore st).Inv := by
  obtain ⟨tx, -, hst⟩ := bind_eq_some_iff.mp hst
  split_ifs at hst
  cases hst
  exact h.putTx (txOk_of_phase (by simp))

lemma sealWrite_spec (h : Covering k designated) (context : Option Mek) (w : PropertyWrite β) :
    Exec.Triple (SameEntries k) (sealWrite context w)
      (fun w' k' => SameEntries k k' ∧ w'.entity = w.entity ∧
        (context.isSome → ∀ m ∈ w'.properties?, SealsMap k designated w.entity m))
      (SameEntries k) := by
  cases context with
  | none => exact triple_pure fun k' hk' => ⟨hk', rfl, fun hc => nomatch hc⟩
  | some mek =>
    cases w with
    | create e m | update e m expected =>
      refine (sealMap_spec h m).bind fun m' => triple_pure fun k' hk' => ⟨hk'.1, rfl, ?_⟩
      intro _ m'' hm''
      cases hm''
      exact hk'.2
    | delete e | retract e =>
      exact triple_pure fun k' hk' => ⟨hk', rfl, fun _ m hm => nomatch hm⟩

lemma Inv.setKeyring (h : d.Inv) (hk : SameEntries d.keyring k) :
    ({ d with world := d.world.setKeyring k } : SealDb β).Inv where
  covering := h.covering.of_eq hk.1 hk.2
  txs tx htx := (h.txs tx htx).of_entries hk.1
  stored := h.stored

lemma Inv.sealStep (h : d.Inv) {n : ℕ} (htx : tx ∈ d.store.txs) (hphase : tx.phase = .sealing n)
    (hw : tx.buffer[n]? = some w) : (d.sealStep t tx n w).Inv := by
  have hspec := sealWrite_spec h.covering tx.context w
  have hsame : SameEntries d.keyring d.keyring := ⟨rfl, rfl⟩
  unfold SealDb.sealStep
  cases hrun : (sealWrite tx.context w).run d.keyring with
  | error err k =>
    exact (h.setKeyring (hspec.of_error hsame hrun)).putTx (txOk_of_phase (by simp))
  | ok w' k =>
    obtain ⟨hk, hentity, hseals⟩ := hspec.of_ok hsame hrun
    refine (h.setKeyring hk).putTx ?_
    intro n' hn' hc
    cases hn'
    obtain ⟨hlt, hget⟩ := List.getElem?_eq_some_iff.mp hw
    have hbuffer : (tx.buffer.set n w').take (n + 1) = tx.buffer.take n ++ [w'] := by
      rw [take_add_one, take_set_of_le (Nat.le_refl n)]
      simp [hlt]
    intro u hu m hm
    simp only [hbuffer] at hu
    refine SealsMap.of_entries ?_ hk.1
    rcases mem_append.mp hu with hu | hu
    · exact h.txs tx htx n hphase hc u hu m hm
    · obtain rfl := mem_singleton.mp hu
      rw [hentity]
      exact hseals hc m hm

/-! ### Storing -/

lemma record_sealed {choice : Choice}
    (hw : ∀ m ∈ w.properties?, SealsMap d.keyring d.designated w.entity m)
    (hagain : w.storesAgain choice →
      (st.entities w.entity).SealsAll d.keyring d.designated w.entity) :
    (d.record st w choice).Sealed := by
  have hnew : ∀ m, m ∈ ((st.entities w.entity).apply w choice).appended ∨
      m ∈ ((st.entities w.entity).apply w choice).state.current →
      SealsMap d.keyring d.designated w.entity m := by
    intro m hm
    rcases EntityState.mem_apply hm with hm | ⟨hm, hstores⟩
    · exact hw m hm
    · exact hagain hstores m hm
  intro m hm
  simp only [record, EntityState.logged_apply, mem_append, mem_toList] at hm
  rcases hm with (hm | hm) | hm
  · exact hw m hm
  · exact hnew m (.inl hm)
  · exact hnew m (.inr hm)

lemma records_sealed {ws : List (PropertyWrite β × Choice)}
    (hws : ∀ wc ∈ ws, ∀ m ∈ wc.1.properties?, SealsMap d.keyring d.designated wc.1.entity m)
    (hagain : ∀ wc ∈ ws, wc.1.storesAgain wc.2 →
      (st.entities wc.1.entity).SealsAll d.keyring d.designated wc.1.entity) :
    ∀ w ∈ d.records st ws, w.Sealed := by
  induction ws generalizing st with
  | nil => exact fun w hw => nomatch hw
  | cons wc ws ih =>
    obtain ⟨w, choice⟩ := wc
    obtain ⟨hw, hws⟩ := forall_mem_cons.mp hws
    obtain ⟨hagain₀, hagain⟩ := forall_mem_cons.mp hagain
    intro r hr
    rcases mem_append.mp hr with hr | hr
    · refine ih hws (fun wc hwc hstores => ?_) r hr
      have hgood := hagain wc hwc hstores
      by_cases hsame : wc.1.entity = w.entity
      · rw [hsame] at hgood ⊢
        simp only [applyWrite, update_self]
        exact hgood.apply hw
      · simp only [applyWrite, update_of_ne hsame]
        exact hgood
    · rw [mem_singleton.mp hr]
      exact record_sealed hw hagain₀

lemma Inv.buffer (h : d.Inv) (htx : d.store.sealedTx t = some tx)
    (hplain : tx.context = none → d.PlainAllowed tx) :
    ∀ w ∈ tx.buffer, ∀ m ∈ w.properties?, SealsMap d.keyring d.designated w.entity m := by
  intro w hw m hm
  obtain ⟨hget, hphase⟩ := filter_eq_some_iff.mp htx
  cases hc : tx.context with
  | none =>
    intro p hp hcov
    rw [hplain hc w hw m hm p hp] at hcov
    cases hcov
  | some mek =>
    refine h.txs tx (mem_of_getElem? hget) tx.buffer.length (by simpa using hphase)
      (by simp [hc]) w ?_ m hm
    rwa [take_length]

lemma Inv.apply (h : d.Inv) {choices : List Choice} (hproper : d.Proper (.apply t choices))
    (hd : d.apply t choices = some d') : d'.Inv := by
  obtain ⟨tx, htx, hd⟩ := bind_eq_some_iff.mp hd
  obtain ⟨st, hst, rfl⟩ := map_eq_some_iff.mp hd
  obtain ⟨hplain, hagain⟩ := hproper tx (filter_eq_some_iff.mp htx).1
  have hbuffer := h.buffer htx hplain
  have hclosed : (d.withStore (d.store.setPhase t tx .closed)).Inv :=
    h.putTx (txOk_of_phase (by simp))
  refine ⟨h.covering, ?_, ?_⟩
  · intro tx₁ htx₁
    refine hclosed.txs tx₁ ?_
    rwa [(of_apply htx hst).2] at htx₁
  · intro w hw
    simp only at hw
    rcases mem_append.mp hw with hw | hw
    · split_ifs at hw
      · refine records_sealed (fun wc hwc => ?_) (fun wc hwc hstores => ?_) w hw
        · exact hbuffer wc.1 (of_mem_zip hwc).1
        · exact hagain wc hwc hstores
      · cases hw
    · exact h.stored w hw

/-- **One step.** -/
theorem inv_step (a : SealAction β) (h : d.Inv) (hproper : d.Proper a)
    (hd : d.step mek a = some d') : d'.Inv := by
  cases a with
  | designate s targets key w => exact h.call covers_designate hproper hd
  | erase s now w => exact h.call covers_erase hproper hd
  | begin =>
    cases hd
    exact h.begin
  | request t r =>
    obtain ⟨st, hst, rfl⟩ := map_eq_some_iff.mp hd
    exact h.request hst
  | commit t =>
    obtain ⟨tx, -, rfl⟩ := map_eq_some_iff.mp hd
    refine h.putTx fun n hn _ w hw => ?_
    cases hn
    cases hw
  | sealNext t =>
    obtain ⟨tx, htx, hd⟩ := bind_eq_some_iff.mp hd
    split at hd
    next n hphase =>
      obtain ⟨w, hw, rfl⟩ := map_eq_some_iff.mp hd
      exact h.sealStep (mem_of_getElem? htx) hphase hw
    next => cases hd
  | apply t choices => exact h.apply hproper hd
  | rollback t =>
    obtain ⟨st, hst, rfl⟩ := map_eq_some_iff.mp hd
    exact h.rollback hst

lemma inv_init : (init : SealDb β).Inv where
  covering :=
    ⟨⟨fun _ he => (nomatch he), nodup_nil⟩, fun _ he => (nomatch he), fun _ ht => nomatch ht⟩
  txs _ htx := nomatch htx
  stored _ hw := nomatch hw

/-- **Designated values are never stored in the clear**, in every run in which designations and
erasures keep out of the commits that are sealing, transactions without a sealing context write
nothing that is designated, and what is stored again is sealed already. -/
theorem neverInTheClear_run (as : List (SealAction β))
    (hproper : Machine.Along (step mek) Proper init as)
    (hrun : Machine.run (step mek) init as = some d) : d.NeverInTheClear := by
  have hinv : d.Inv := invariant_run (fun d a d' h hp hd => inv_step a h hp hd) inv_init
    hproper hrun
  exact hinv.stored

section Runs

def writesDone : EraseWrites := ⟨.done, .done, .done⟩

/-- A transaction begins before the first designation and gets no sealing context. -/
def designatedWhileOpen : List (SealAction String) :=
  [SealAction.begin, .request 0 (.create ⟨true, 0⟩ [("name", .plain "Alice")]),
    .designate "alice" [.wholeNode 0] 7 .done] ++ commitOne 0

/-- The only subject is erased, so that later transactions get no sealing context. -/
def updatedAfterErasure : List (SealAction String) :=
  [SealAction.begin, .request 0 (.create ⟨true, 0⟩ [("name", .plain "Alice")])] ++ commitOne 0 ++
    [SealAction.designate "alice" [.wholeNode 0] 7 .done, .erase "alice" 0 writesDone, .begin,
      .request 1 (.update ⟨true, 0⟩ [("name", .plain "A.")])] ++ commitOne 1

/-- A designation comes between sealing and storing. -/
def designatedAfterSealing : List (SealAction String) :=
  [.designate "bob" [.wholeNode 9] 3 .done, .begin,
    .request 0 (.create ⟨true, 0⟩ [("name", .plain "Alice")]), .commit 0, .sealNext 0,
    .designate "alice" [.wholeNode 0] 7 .done, .apply 0 [⟨none, none⟩]]

/-- The tombstone of a node that was written before its designation. -/
def deletedAfterDesignation : List (SealAction String) :=
  [SealAction.begin, .request 0 (.create ⟨true, 0⟩ [("name", .plain "Alice")])] ++ commitOne 0 ++
    [SealAction.designate "alice" [.wholeNode 0] 7 .done, .begin, .request 1 (.delete ⟨true, 0⟩)] ++
    commitOne 1

/-- Four ways to store a designated value in the clear. -/
theorem neverInTheClear_violated :
    (∃ d, Machine.run (step 1) init designatedWhileOpen = some d ∧ ¬ d.NeverInTheClear) ∧
      (∃ d, Machine.run (step 1) init updatedAfterErasure = some d ∧ ¬ d.NeverInTheClear) ∧
      (∃ d, Machine.run (step 1) init designatedAfterSealing = some d ∧ ¬ d.NeverInTheClear) ∧
      ∃ d, Machine.run (step 1) init deletedAfterDesignation = some d ∧ ¬ d.NeverInTheClear := by
  have hrun : ∀ as : List (SealAction String),
      (run (step 1) init as).any (¬ ·.NeverInTheClear) = true →
      ∃ d, run (step 1) init as = some d ∧ ¬ d.NeverInTheClear := by
    intro as h
    obtain ⟨d, hd, hclear⟩ := any_eq_true _ _ |>.mp h
    exact ⟨d, hd, of_decide_eq_true hclear⟩
  exact ⟨hrun _ (by decide +kernel), hrun _ (by decide +kernel), hrun _ (by decide +kernel),
    hrun _ (by decide +kernel)⟩

/-- A node is created, updated and deleted under its designation; others are written before and
after the erasure. -/
def sealedLife : List (SealAction String) :=
  [SealAction.designate "bob" [.wholeNode 9] 3 .done, .designate "alice" [.wholeNode 0] 7 .done, .begin,
    .request 0 (.create ⟨true, 0⟩ [("name", .plain "Alice")])] ++ commitOne 0 ++
    [SealAction.begin, .request 1 (.update ⟨true, 0⟩ [("age", .plain "41")])] ++ commitOne 1 ++
    [SealAction.begin, .request 2 (.delete ⟨true, 0⟩)] ++ commitOne 2 ++
    [SealAction.begin, .request 3 (.create ⟨true, 1⟩ [("name", .plain "Bob")])] ++ commitOne 3 ++
    [SealAction.erase "alice" 5 writesDone, .begin, .request 4 (.create ⟨false, 0⟩ [("w", .plain "1")])] ++
    commitOne 4

theorem neverInTheClear_run_sealedLife :
    ∃ d, Machine.run (step 1) init sealedLife = some d ∧ d.stored.length = 5 ∧
      d.NeverInTheClear := by
  have hproper : Machine.Along (step 1) Proper init sealedLife := by decide +kernel
  have heval : (run (step 1) init sealedLife).map (·.stored.length) = some 5 := by
    decide +kernel
  obtain ⟨d, hd, hlength⟩ := map_eq_some_iff.mp heval
  exact ⟨d, hd, hlength, neverInTheClear_run sealedLife hproper hd⟩

end Runs

end SealDb

end Aletheia.CryptoShred
