import Aletheia.Version

/-!
# Property deltas

A delta records what changed from one property map to the next. Applied to a map, it acts on each key
alone.
-/

namespace Aletheia

open Option

/-! ### Payloads -/

inductive VectorDelta where
  | sparse (dimension : ℕ) (changes : List (ℕ × BitVec 32))
  | full (xs : List (BitVec 32))

/-- A base of the wrong dimension is returned unchanged; a change out of range is skipped. -/
def VectorDelta.apply (base : List (BitVec 32)) : VectorDelta → List (BitVec 32)
  | .sparse dimension changes =>
    if base.length ≠ dimension then base
    else changes.foldl (fun xs c => xs.set c.1 c.2) base
  | .full xs => xs

structure PropertyDelta where
  changed : PropertyMap
  vectorDeltas : AList (fun _ : InternedString => VectorDelta)
  removed : List InternedString

namespace PropertyDelta

def isEmpty (d : PropertyDelta) : Bool :=
  d.changed.entries.isEmpty && d.vectorDeltas.entries.isEmpty && d.removed.isEmpty

/-- One vector delta. A sparse one needs a vector in the base and is ignored without one. -/
def applyVector (base result : PropertyMap) (key : InternedString) (delta : VectorDelta) :
    PropertyMap :=
  match delta with
  | .full xs => result.insert key (.vector xs)
  | .sparse _ _ =>
    match base.lookup key with
    | some (.vector xs) => result.insert key (.vector (delta.apply xs))
    | _ => result

def apply (d : PropertyDelta) (base : PropertyMap) : PropertyMap :=
  if d.isEmpty then base
  else
    let kept : PropertyMap := base.entries.foldl (fun m e =>
      if e.1 ∈ d.removed ∨ (d.changed.lookup e.1).isSome then m else m.insert e.1 e.2) ∅
    let changed := d.changed.entries.foldl (fun m e => m.insert e.1 e.2) kept
    d.vectorDeltas.entries.foldl (fun m e => applyVector base m e.1 e.2) changed

end PropertyDelta

/-- What a version stores of its properties. The id of a vector snapshot is not read. -/
inductive VersionData where
  | anchor (properties : PropertyMap)
  | delta (delta : PropertyDelta)

/-! ### Folds over the entries of a map -/

section Entries

variable {V A S : Type} (view : A → InternedString → S) (g : A → InternedString → V → A)
  (f : InternedString → V → S → S)
  (hg : ∀ acc k v key, view (g acc k v) key = if key = k then f k v (view acc k) else view acc key)

include hg in
lemma view_foldl_list (key : InternedString) (es : List (Sigma fun _ : InternedString => V))
    (acc : A) (hnodup : es.NodupKeys) : view (es.foldl (fun acc e => g acc e.1 e.2) acc) key =
      (es.dlookup key).elim (view acc key) fun v => f key v (view acc key) := by
  induction es generalizing acc with
  | nil => rfl
  | cons e es ih =>
    obtain ⟨k, v⟩ := e
    rw [List.nodupKeys_cons] at hnodup
    rw [List.foldl_cons, ih _ hnodup.2, hg]
    by_cases hkey : key = k
    · subst hkey
      have hnone : es.dlookup key = none := List.dlookup_eq_none.mpr hnodup.1
      rw [hnone, List.dlookup_cons_eq, elim_none, elim_some, if_pos rfl]
    · rw [List.dlookup_cons_ne _ _ hkey, if_neg hkey]

include hg in
/-- A fold over the entries of a map whose step for a key touches only what is seen under that key
acts on each key of the map once. -/
lemma view_foldl_entries (key : InternedString) (m : AList fun _ : InternedString => V) (acc : A) :
    view (m.entries.foldl (fun acc e => g acc e.1 e.2) acc) key =
      (m.lookup key).elim (view acc key) fun v => f key v (view acc key) :=
  view_foldl_list view g f hg key m.entries acc m.nodupKeys

end Entries

namespace PropertyDelta

/-! ### Applying a delta -/

/-- What a vector delta leaves under its key: `base` was there at first, `changed` after the full
changes. -/
def onVector (base changed : Option PropertyValue) : VectorDelta → Option PropertyValue
  | .full xs => some (.vector xs)
  | .sparse dimension changes =>
    match base with
    | some (.vector xs) => some (.vector (VectorDelta.apply xs (.sparse dimension changes)))
    | _ => changed

/-- What applying a delta leaves under a key. -/
def applied (d : PropertyDelta) (base : Option PropertyValue) (key : InternedString) :
    Option PropertyValue :=
  let kept := if key ∈ d.removed then none else base
  let changed := (d.changed.lookup key).elim kept some
  (d.vectorDeltas.lookup key).elim changed (onVector base changed)

lemma lookup_insert_eq_ite (m : PropertyMap) (k : InternedString) (v : PropertyValue)
    (key : InternedString) :
    (m.insert k v).lookup key = if key = k then some v else m.lookup key := by
  by_cases hkey : key = k
  · subst hkey
    rw [if_pos rfl]
    exact AList.lookup_insert m
  · rw [if_neg hkey]
    exact AList.lookup_insert_ne hkey

lemma lookup_applyVector (base result : PropertyMap) (k : InternedString) (delta : VectorDelta)
    (key : InternedString) : (applyVector base result k delta).lookup key =
      if key = k then onVector (base.lookup k) (result.lookup k) delta else result.lookup key := by
  have hself : (if key = k then result.lookup k else result.lookup key) = result.lookup key := by
    split
    · rename_i hkey
      rw [hkey]
    · rfl
  cases delta with
  | full xs => exact lookup_insert_eq_ite result k _ key
  | sparse dimension changes =>
    unfold applyVector onVector
    dsimp only
    generalize base.lookup k = old
    cases old with
    | none => exact hself.symm
    | some value =>
      cases value with
      | vector xs => exact lookup_insert_eq_ite result k _ key
      | _ => exact hself.symm

lemma lookup_apply (d : PropertyDelta) (base : PropertyMap) (key : InternedString) :
    (d.apply base).lookup key = d.applied (base.lookup key) key := by
  unfold PropertyDelta.apply
  split
  · -- the fast path: nothing is recorded for the key
    rename_i hempty
    simp only [isEmpty, Bool.and_eq_true, List.isEmpty_iff] at hempty
    obtain ⟨⟨hchanged, hvectors⟩, hremoved⟩ := hempty
    have h1 : d.changed.lookup key = none := by
      rw [AList.lookup, hchanged]
      rfl
    have h2 : d.vectorDeltas.lookup key = none := by
      rw [AList.lookup, hvectors]
      rfl
    rw [applied, h1, h2, hremoved]
    simp only [List.not_mem_nil, if_false, elim_none]
  · -- the three loops, each by what it does to one key
    have hkept := view_foldl_entries (fun (m : PropertyMap) k => m.lookup k)
      (fun m k v => if k ∈ d.removed ∨ (d.changed.lookup k).isSome then m else m.insert k v)
      (fun k v r => if k ∈ d.removed ∨ (d.changed.lookup k).isSome then r else some v)
      (by
        intro m k v key
        split
        · by_cases hkey : key = k
          · rw [if_pos hkey, hkey]
          · rw [if_neg hkey]
        · exact lookup_insert_eq_ite m k v key) key base ∅
    have hchanged := view_foldl_entries (fun (m : PropertyMap) k => m.lookup k)
      (fun m k v => m.insert k v) (fun _ v _ => some v) lookup_insert_eq_ite key d.changed
    have hvectors := view_foldl_entries (fun (m : PropertyMap) k => m.lookup k)
      (fun m k v => applyVector base m k v) (fun k delta r => onVector (base.lookup k) r delta)
      (lookup_applyVector base) key d.vectorDeltas
    dsimp only at hkept hchanged hvectors ⊢
    rw [hvectors, hchanged, hkept, AList.lookup_empty, applied]
    -- a key that is not copied is removed or overwritten
    have hcopy : (d.changed.lookup key).elim ((base.lookup key).elim none fun v =>
        if key ∈ d.removed ∨ (d.changed.lookup key).isSome then none else some v) some =
        (d.changed.lookup key).elim (if key ∈ d.removed then none else base.lookup key) some := by
      cases hc : d.changed.lookup key with
      | some v => rfl
      | none =>
        cases hb : base.lookup key with
        | none => simp only [elim_none, ite_self]
        | some v => simp only [elim_none, elim_some, isSome_none, Bool.false_eq_true, or_false]
    rw [hcopy]

end PropertyDelta

/-- The same keys with the same values, in any order. -/
def SameMap (m w : PropertyMap) : Prop := ∀ key, m.lookup key = w.lookup key

end Aletheia
