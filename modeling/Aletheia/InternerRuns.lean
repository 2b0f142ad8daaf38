import Aletheia.InternerFiles

/-!
# Which texts a load restores

Read through the remap, an id of a component file is a position in the interner file that is on
disk, whatever the process had interned before. So a component keeps its texts as long as the
interner file holds them at the positions its file names. A process that starts with other strings
numbers the texts anew, and when it saves the interner without rewriting a component, the ids of
that component's file point elsewhere; an adjacency file may be written before the interner file has
its labels at all.
-/

namespace Aletheia

open Function List

variable {live : StringInterner}

/-! ### The interner -/

namespace StringInterner

variable {strings : StringInterner} {s : String}

lemma prefix_intern : strings <+: strings.intern s := by
  unfold intern
  split
  · exact prefix_refl _
  · exact prefix_append _ _

lemma mem_intern : s ∈ strings.intern s := by
  unfold intern
  split <;> simp [*]

lemma nodup_intern (h : strings.Nodup) : (strings.intern s).Nodup := by
  unfold intern
  split
  · exact h
  · rename_i hs
    rw [← concat_eq_append]
    exact h.concat hs

lemma prefix_internAll (ss : List String) : strings <+: strings.internAll ss := by
  induction ss generalizing strings with
  | nil => exact prefix_refl _
  | cons s ss ih => exact prefix_intern.trans ih

lemma mem_internAll {ss : List String} (h : s ∈ ss) : s ∈ strings.internAll ss := by
  induction ss generalizing strings with
  | nil => simp at h
  | cons s' ss ih =>
    rcases mem_cons.mp h with rfl | h
    · exact (prefix_internAll ss).subset mem_intern
    · exact ih h

lemma nodup_internAll (h : strings.Nodup) (ss : List String) : (strings.internAll ss).Nodup := by
  induction ss generalizing strings with
  | nil => exact h
  | cons s ss ih => exact ih (nodup_intern h)

lemma getElem?_mono {strings' : StringInterner} (h : strings <+: strings') {id : ℕ}
    (hid : strings[id]? = some s) : strings'[id]? = some s := by
  obtain ⟨rest, rfl⟩ := h
  rw [List.getElem?_append_left (List.getElem?_eq_some_iff.mp hid).1]
  exact hid

lemma getElem?_idxOf (h : s ∈ strings) : strings[strings.idxOf s]? = some s := by
  rw [List.getElem?_eq_getElem (idxOf_lt_length_of_mem h), getElem_idxOf]

lemma prefix_restore (live : StringInterner) (file : List String) :
    live <+: (live.restore file).2 := by
  induction file generalizing live with
  | nil => exact prefix_refl _
  | cons s file ih => exact prefix_intern.trans (ih _)

lemma nodup_restore (h : live.Nodup) (file : List String) : (live.restore file).2.Nodup := by
  induction file generalizing live with
  | nil => exact h
  | cons s file ih => exact ih (nodup_intern h)

lemma restore_lookup (live : StringInterner) (file : List String) (i : ℕ) :
    ((live.restore file).1[i]?.bind fun id => (live.restore file).2[id]?) = file[i]? := by
  induction file generalizing live i with
  | nil => simp [restore]
  | cons s file ih =>
    cases i with
    | zero =>
      have hid : (live.intern s)[(live.intern s).idxOf s]? = some s := getElem?_idxOf mem_intern
      exact getElem?_mono (prefix_restore (live.intern s) file) hid
    | succ i => exact ih (live.intern s) i

end StringInterner

/-! ### Records through a resolver -/

namespace TextValue

variable {α β : Type} {f : α → β}

lemma texts_map (v : TextValue α) : (v.map f).texts = v.texts.map f := by
  cases v <;> rfl

end TextValue

namespace TextRecord

variable {α β : Type} {f : α → β}

lemma names_map (r : TextRecord α) : (r.map f).names = r.names.map f := by
  simp [names, map]

lemma values_map (r : TextRecord α) : (r.map f).values = r.values.map f := by
  simp [values, map, flatMap_map, map_flatMap, TextValue.texts_map]

lemma texts_map (r : TextRecord α) : (r.map f).texts = r.texts.map f := by
  simp [texts, names_map, values_map]

section Restore

variable {f : String → ℕ} {resolve : ℕ → Option String} {kind : FileKind} {t : TextRecord String}

lemma restorePropertyValue_map_iff (v : TextValue String) :
    restorePropertyValue resolve (v.map f) = some v ↔ ∀ x ∈ v.texts, resolve (f x) = some x := by
  cases v <;> simp [restorePropertyValue, TextValue.map, TextValue.texts]

lemma restorePropertyMap_map_iff (ps : List (String × TextValue String)) :
    restorePropertyMap resolve (ps.map fun p => (f p.1, p.2.map f)) = some ps ↔
      (∀ x ∈ ps.map Prod.fst, resolve (f x) = some x) ∧
        ∀ x ∈ ps.flatMap fun p => p.2.texts, resolve (f x) = some x := by
  induction ps with
  | nil => simp [restorePropertyMap]
  | cons p ps ih =>
    obtain ⟨key, value⟩ := p
    have hhead : restorePropertyValue resolve (value.map f) = some value ↔ _ :=
      restorePropertyValue_map_iff value
    constructor
    · intro h
      simp only [map_cons, restorePropertyMap, Option.bind_eq_bind, Option.bind_eq_some_iff,
        Option.pure_def, Option.some.injEq, List.cons.injEq, Prod.mk.injEq] at h
      obtain ⟨value', hvalue, key', hkey, rest, hrest, ⟨rfl, rfl⟩, rfl⟩ := h
      obtain ⟨hkeys, hvalues⟩ := ih.mp hrest
      refine ⟨forall_mem_cons.mpr ⟨hkey, hkeys⟩, fun x hx => ?_⟩
      rcases mem_append.mp hx with hx | hx
      · exact hhead.mp hvalue x hx
      · exact hvalues x hx
    · intro ⟨hkeys, hvalues⟩
      obtain ⟨hkey, hkeys⟩ := forall_mem_cons.mp hkeys
      have hvalue := hhead.mpr fun x hx => hvalues x (mem_append_left _ hx)
      have hrest := ih.mpr ⟨hkeys, fun x hx => hvalues x (mem_append_right _ hx)⟩
      simp [restorePropertyMap, hvalue, hkey, hrest]

lemma filterMap_map_eq_iff (xs : List String) :
    (xs.map f).filterMap resolve = xs ↔ ∀ x ∈ xs, resolve (f x) = some x := by
  induction xs with
  | nil => simp
  | cons x xs ih =>
    cases hx : resolve (f x) with
    | none =>
      -- a key that does not resolve leaves the list too short
      have hlen : ((xs.map f).filterMap resolve).length ≤ xs.length := by
        simpa using length_filterMap_le resolve (xs.map f)
      simp only [map_cons, filterMap_cons, hx]
      constructor
      · intro h
        rw [h, length_cons] at hlen
        omega
      · intro h
        simpa [hx] using h x mem_cons_self
    | some y =>
      simp only [map_cons, filterMap_cons, hx, List.cons.injEq, ih, forall_mem_cons,
        Option.some.injEq]

lemma restore_map_iff (t : TextRecord String) :
    (t.map f).restore resolve = some t ↔ ∀ x ∈ t.texts, resolve (f x) = some x := by
  obtain ⟨label, properties, removedKeys⟩ := t
  have hproperties :
      restorePropertyMap resolve (properties.map fun p => (f p.1, p.2.map f)) = _ ↔ _ :=
    restorePropertyMap_map_iff properties
  have hremoved : (removedKeys.map f).filterMap resolve = _ ↔ _ := filterMap_map_eq_iff removedKeys
  constructor
  · intro h
    simp only [restore, map, Option.bind_eq_bind, Option.bind_eq_some_iff, Option.pure_def,
      Option.some.injEq, mk.injEq] at h
    obtain ⟨_, hlabel, _, hmap, rfl, rfl, hkeys⟩ := h
    obtain ⟨h1, h2⟩ := hproperties.mp hmap
    have h3 := hremoved.mp hkeys
    intro x hx
    simp only [texts, names, values, mem_append, mem_cons] at hx
    rcases hx with (rfl | hx | hx) | hx
    · exact hlabel
    · exact h1 x hx
    · exact h3 x hx
    · exact h2 x hx
  · intro h
    have hlabel := h label (by simp [texts, names])
    have hmap := hproperties.mpr ⟨fun x hx => h x (by simp [texts, names, hx]),
      fun x hx => h x (mem_append_right _ hx)⟩
    have hkeys := hremoved.mpr fun x hx => h x (by simp [texts, names, hx])
    simp [restore, map, hlabel, hmap, hkeys]

lemma length_restoreAll_le (rs : List (TextRecord ℕ)) :
    (restoreAll resolve kind rs).length ≤ rs.length := by
  induction rs with
  | nil => simp [restoreAll]
  | cons r rs ih =>
    unfold restoreAll
    split
    · simpa using ih
    · split
      · simp
      · exact ih.trans (by simp)

/-- **A load restores the texts of a component exactly** if every id it was written with leads back
to its text, and only then. -/
lemma restoreAll_map_iff (ts : List (TextRecord String)) :
    restoreAll resolve kind (ts.map (map f)) = ts ↔
      ∀ t ∈ ts, ∀ x ∈ t.texts, resolve (f x) = some x := by
  induction ts with
  | nil => simp [restoreAll]
  | cons t ts ih =>
    have hlen : (restoreAll resolve kind (ts.map (map f))).length ≤ ts.length := by
      simpa using length_restoreAll_le (ts.map (map f))
    rw [forall_mem_cons, ← ih, ← restore_map_iff, map_cons, restoreAll]
    cases ht : (t.map f).restore resolve with
    | some t' => simp
    | none =>
      simp only [reduceCtorEq, false_and, iff_false]
      intro h
      split at h
      · simp at h
      · rw [h, length_cons] at hlen
        omega

lemma exists_of_restorePropertyMap {ps : List (ℕ × TextValue ℕ)}
    {ps' : List (String × TextValue String)} (h : restorePropertyMap resolve ps = some ps') :
    ∀ x ∈ ps'.map Prod.fst, ∃ id, resolve id = some x := by
  induction ps generalizing ps' with
  | nil =>
    cases h
    simp
  | cons p ps ih =>
    obtain ⟨key, value⟩ := p
    simp only [restorePropertyMap, Option.bind_eq_bind, Option.bind_eq_some_iff, Option.pure_def,
      Option.some.injEq] at h
    obtain ⟨_, -, key', hkey, rest, hrest, rfl⟩ := h
    exact forall_mem_cons.mpr ⟨⟨key, hkey⟩, ih hrest⟩

lemma exists_of_restore {r : TextRecord ℕ} (h : r.restore resolve = some t) :
    ∀ x ∈ t.names, ∃ id, resolve id = some x := by
  simp only [restore, Option.bind_eq_bind, Option.bind_eq_some_iff, Option.pure_def,
    Option.some.injEq] at h
  obtain ⟨label, hlabel, properties, hmap, rfl⟩ := h
  intro x hx
  simp only [names, mem_cons, mem_append, mem_filterMap] at hx
  rcases hx with rfl | hx | ⟨id, -, hid⟩
  · exact ⟨_, hlabel⟩
  · exact exists_of_restorePropertyMap hmap x hx
  · exact ⟨id, hid⟩

lemma exists_of_mem_restoreAll {rs : List (TextRecord ℕ)} (h : t ∈ restoreAll resolve kind rs) :
    ∀ x ∈ t.names, ∃ id, resolve id = some x := by
  induction rs with
  | nil => simp [restoreAll] at h
  | cons r rs ih =>
    unfold restoreAll at h
    split at h
    · rename_i t' ht'
      rcases mem_cons.mp h with rfl | h
      · exact exists_of_restore ht'
      · exact ih h
    · split at h
      · simp at h
      · exact ih h

end Restore

end TextRecord

/-! ### Runs -/

namespace InternerFiles

variable {s s' : InternerFiles} {kind : FileKind} {existing : StringInterner} {file : ComponentFile}

/-- The strings that the ids of the component files are positions in. -/
def strings (s : InternerFiles) : List String := s.internerFile.getD []

/-- The next process, whatever it has interned before, loads from every component file the texts
that were in memory when the file was written. -/
def Restores (s : InternerFiles) : Prop :=
  ∀ existing : StringInterner, existing.Nodup → ∀ kind file, s.files kind = some file →
    s.load existing kind = file.texts

/-- The ids of the records name the same strings in both. -/
def Agree (strings strings' : List String) (records : List (TextRecord ℕ)) : Prop :=
  ∀ r ∈ records, ∀ id ∈ r.texts, strings'[id]? = strings[id]?

/-- The interner file is replaced only by one that agrees with it on the ids of the component files,
and an adjacency file is written only when the interner file has its labels. -/
def Consistent (s : InternerFiles) : Action → Prop
  | .saveStringInterner =>
    ∀ kind, ∀ file ∈ s.files kind, Agree s.strings s.live file.records
  | .writeFile .temporalAdjacency =>
    ∀ c ∈ s.pending .temporalAdjacency, Agree s.live s.strings c.records
  | _ => True

instance (strings strings' : List String) (records : List (TextRecord ℕ)) :
    Decidable (Agree strings strings' records) :=
  inferInstanceAs (Decidable (∀ r ∈ records, ∀ id ∈ r.texts, strings'[id]? = strings[id]?))

instance (s : InternerFiles) : (a : Action) → Decidable (s.Consistent a)
  | .saveStringInterner =>
    inferInstanceAs (Decidable (∀ kind, ∀ file ∈ s.files kind, Agree s.strings s.live file.records))
  | .writeFile .temporalAdjacency =>
    inferInstanceAs (Decidable (∀ c ∈ s.pending .temporalAdjacency,
      Agree s.live s.strings c.records))
  | .writeFile .graph | .writeFile .temporal => isTrue trivial
  | .intern _ | .change _ _ | .convert _ | .restart _ => isTrue trivial

/-- The records are the texts under some numbering that leads back to them. -/
def Encodes (strings : List String) (records : List (TextRecord ℕ))
    (texts : List (TextRecord String)) : Prop :=
  ∃ f, records = texts.map (TextRecord.map f) ∧
    ∀ t ∈ texts, ∀ x ∈ t.texts, strings[f x]? = some x

structure Inv (s : InternerFiles) : Prop where
  nodup : s.live.Nodup
  memory : ∀ kind, ∀ t ∈ s.memory kind, ∀ x ∈ t.names, x ∈ s.live
  pending : ∀ kind c, s.pending kind = some c → Encodes s.live c.records c.texts
  saved : ∀ kind c, s.pending kind = some c → c.saved = true → Encodes s.strings c.records c.texts
  files : ∀ kind file, s.files kind = some file → Encodes s.strings file.records file.texts

section Encodes

variable {strings strings' : List String} {records : List (TextRecord ℕ)}
  {texts : List (TextRecord String)}

lemma Encodes.mono (h : Encodes strings records texts) (hp : strings <+: strings') :
    Encodes strings' records texts := by
  obtain ⟨f, hrecords, hf⟩ := h
  exact ⟨f, hrecords, fun t ht x hx => StringInterner.getElem?_mono hp (hf t ht x hx)⟩

lemma Encodes.eq_nil (h : Encodes [] records texts) : records = [] ∧ texts = [] := by
  obtain ⟨f, rfl, hf⟩ := h
  cases texts with
  | nil => exact ⟨rfl, rfl⟩
  | cons t texts =>
    have := hf t mem_cons_self t.label (by simp [TextRecord.texts, TextRecord.names])
    simp at this

/-- Which of two lists of strings a file is read through does not matter if they agree on its ids,
and otherwise it does. -/
lemma Encodes.iff_agree (h : Encodes strings records texts) (kind : FileKind) :
    TextRecord.restoreAll (fun id => strings'[id]?) kind records = texts ↔
      Agree strings strings' records := by
  obtain ⟨f, rfl, hf⟩ := h
  rw [TextRecord.restoreAll_map_iff]
  simp only [Agree, mem_map, forall_exists_index, and_imp, forall_apply_eq_imp_iff₂,
    TextRecord.texts_map]
  constructor
  · intro h t ht x hx
    rw [h t ht x hx, hf t ht x hx]
  · intro h t ht x hx
    rw [h t ht x hx, hf t ht x hx]

lemma Encodes.of_agree (h : Encodes strings records texts) (ha : Agree strings strings' records) :
    Encodes strings' records texts := by
  obtain ⟨f, rfl, hf⟩ := h
  refine ⟨f, rfl, fun t ht x hx => ?_⟩
  rw [ha (t.map f) (mem_map_of_mem ht) (f x)
    (by rw [TextRecord.texts_map]; exact mem_map_of_mem hx), hf t ht x hx]

end Encodes

lemma lookup_of_internerFile {file : List String} (h : s.internerFile = some file)
    (existing : StringInterner) : s.lookup existing = fun id => file[id]? := by
  funext id
  simp only [lookup, loadStrings, h, Prod.map, InternerRemap.resolve]
  exact StringInterner.restore_lookup existing file id

lemma lookup_of_none (h : s.internerFile = none) (existing : StringInterner) :
    s.lookup existing = fun id => existing[id]? := by
  funext id
  simp [lookup, loadStrings, h, InternerRemap.resolve]

/-- A component file that encodes its texts in some strings is restored by every process iff the
interner file agrees with these strings on its ids. -/
lemma load_iff_agree {strings : List String} (hfile : s.files kind = some file)
    (h : Encodes strings file.records file.texts) :
    (∀ existing : StringInterner, existing.Nodup → s.load existing kind = file.texts) ↔
      Agree strings s.strings file.records := by
  cases hinterner : s.internerFile with
  | some interner =>
    have hstrings : s.strings = interner := by simp [InternerFiles.strings, hinterner]
    simp only [load, hfile, lookup_of_internerFile hinterner, h.iff_agree, hstrings]
    exact ⟨fun h => h [] nodup_nil, fun h _ _ => h⟩
  | none =>
    have hstrings : s.strings = [] := by simp [InternerFiles.strings, hinterner]
    simp only [load, hfile, lookup_of_none hinterner, hstrings]
    constructor
    · intro hload
      exact (h.iff_agree kind).mp (hload [] nodup_nil)
    · intro ha existing _
      obtain ⟨hrecords, htexts⟩ := (h.of_agree ha).eq_nil
      rw [hrecords, htexts]
      rfl

lemma Restores.agree (h : s.Restores) {strings : List String}
    (hencodes : Encodes strings file.records file.texts) (hfile : s.files kind = some file) :
    Agree strings s.strings file.records :=
  (load_iff_agree hfile hencodes).mp fun existing hexisting => h existing hexisting kind file hfile

lemma Inv.restores (h : s.Inv) : s.Restores := fun existing hexisting kind file hfile =>
  (load_iff_agree hfile (h.files kind file hfile)).mpr (fun _ _ _ _ => rfl) existing hexisting

/-! ### Steps -/

lemma update_eq_some {α : Type} {g : FileKind → Option α} {k : FileKind} {v w : α}
    (h : update g kind (some v) k = some w) : k = kind ∧ v = w ∨ g k = some w := by
  by_cases hk : k = kind
  · subst hk
    rw [update_self] at h
    exact .inl ⟨rfl, Option.some.inj h⟩
  · rw [update_of_ne hk] at h
    exact .inr h

variable (h : s.Inv)

include h

lemma Inv.grow {memory : FileKind → List (TextRecord String)} (hp : s.live <+: live)
    (hnodup : live.Nodup) (hmemory : ∀ kind, ∀ t ∈ memory kind, ∀ x ∈ t.names, x ∈ live) :
    Inv { s with live := live, memory := memory } where
  nodup := hnodup
  memory := hmemory
  pending kind c hc := (h.pending kind c hc).mono hp
  saved := h.saved
  files := h.files

lemma Inv.change (kind : FileKind) (texts : List (TextRecord String)) :
    Inv { s with
      live := s.live.internAll (texts.flatMap TextRecord.names)
      memory := update s.memory kind texts } := by
  have hp : s.live <+: s.live.internAll (texts.flatMap TextRecord.names) :=
    StringInterner.prefix_internAll _
  refine h.grow hp (StringInterner.nodup_internAll h.nodup _) fun k t ht x hx => ?_
  by_cases hk : k = kind
  · subst hk
    rw [update_self] at ht
    exact StringInterner.mem_internAll (mem_flatMap.mpr ⟨t, ht, hx⟩)
  · rw [update_of_ne hk] at ht
    exact hp.subset (h.memory k t ht x hx)

lemma Inv.convert (kind : FileKind)
    (hlive : live = s.live.internAll ((s.memory kind).flatMap TextRecord.values)) :
    Inv { s with
      live := live
      pending := update s.pending kind
        (some ⟨(s.memory kind).map (TextRecord.map live.idxOf), s.memory kind, false⟩) } := by
  have hp : s.live <+: live := hlive ▸ StringInterner.prefix_internAll _
  have hmemory : ∀ k, ∀ t ∈ s.memory k, ∀ x ∈ t.names, x ∈ live := fun k t ht x hx =>
    hp.subset (h.memory k t ht x hx)
  have hgrow := h.grow hp (hlive ▸ StringInterner.nodup_internAll h.nodup _) hmemory
  -- the names were interned when they came into memory, the values just now
  have hconverted : Encodes live ((s.memory kind).map (TextRecord.map live.idxOf))
      (s.memory kind) := by
    refine ⟨live.idxOf, rfl, fun t ht x hx => StringInterner.getElem?_idxOf ?_⟩
    rcases mem_append.mp hx with hx | hx
    · exact hmemory kind t ht x hx
    · rw [hlive]
      exact StringInterner.mem_internAll (mem_flatMap.mpr ⟨t, ht, hx⟩)
  refine ⟨hgrow.nodup, hgrow.memory, fun k c hc => ?_, fun k c hc hsaved => ?_, hgrow.files⟩
  · obtain ⟨rfl, rfl⟩ | hc := update_eq_some hc
    · exact hconverted
    · exact hgrow.pending k c hc
  · obtain ⟨rfl, rfl⟩ | hc := update_eq_some hc
    · simp at hsaved
    · exact hgrow.saved k c hc hsaved

lemma Inv.saveStringInterner (hc : s.Consistent .saveStringInterner) :
    Inv { s with
      internerFile := some s.live
      pending := fun kind => (s.pending kind).map fun c => { c with saved := true } } := by
  have hpending : ∀ kind c, (s.pending kind).map (fun c => { c with saved := true }) = some c →
      Encodes s.live c.records c.texts := by
    intro kind c hc
    obtain ⟨c', hc', rfl⟩ := Option.map_eq_some_iff.mp hc
    exact h.pending kind c' hc'
  exact {
    nodup := h.nodup
    memory := h.memory
    pending := hpending
    saved := fun kind c hc _ => hpending kind c hc
    files := fun kind file hfile => (h.files kind file hfile).of_agree (hc kind file hfile) }

lemma Inv.writeFile {c : Conversion} (hpending : s.pending kind = some c)
    (hencodes : Encodes s.strings c.records c.texts) :
    Inv { s with
      files := update s.files kind (some ⟨c.records, c.texts⟩)
      pending := update s.pending kind none } := by
  have hrest : ∀ k c', update s.pending kind none k = some c' → s.pending k = some c' := by
    intro k c' hc'
    by_cases hk : k = kind
    · subst hk
      simp at hc'
    · rwa [update_of_ne hk] at hc'
  refine ⟨h.nodup, h.memory, fun k c' hc' => h.pending k c' (hrest k c' hc'),
    fun k c' hc' => h.saved k c' (hrest k c' hc'), fun k file hfile => ?_⟩
  obtain ⟨rfl, rfl⟩ | hfile := update_eq_some hfile
  · exact hencodes
  · exact h.files k file hfile

lemma Inv.restart (hexisting : existing.Nodup) :
    Inv { s with
      live := (s.loadStrings existing).2
      memory := s.load existing
      pending := fun _ => none } where
  nodup := by
    unfold loadStrings
    split
    · exact StringInterner.nodup_restore hexisting _
    · exact hexisting
  memory kind t ht x hx := by
    replace ht : t ∈ s.load existing kind := ht
    unfold load at ht
    split at ht
    · obtain ⟨id, hid⟩ := TextRecord.exists_of_mem_restoreAll ht x hx
      obtain ⟨id', -, hid'⟩ := Option.bind_eq_some_iff.mp hid
      exact mem_of_getElem? hid'
    · simp at ht
  pending _ _ hc := nomatch hc
  saved _ _ hc := nomatch hc
  files := h.files

omit h

lemma inv_init (h : existing.Nodup) : (init existing).Inv where
  nodup := h
  memory _ _ ht := nomatch ht
  pending _ _ hc := nomatch hc
  saved _ _ hc := nomatch hc
  files _ _ hfile := nomatch hfile

lemma inv_step (s : InternerFiles) (a : Action) (s' : InternerFiles) (h : s.Inv)
    (hconsistent : s.Consistent a) (hstep : s.step a = some s') : s'.Inv := by
  cases a with
  | intern string =>
    cases hstep
    exact h.grow StringInterner.prefix_intern (StringInterner.nodup_intern h.nodup)
      fun k t ht x hx => StringInterner.prefix_intern.subset (h.memory k t ht x hx)
  | change kind texts =>
    cases hstep
    exact h.change kind texts
  | convert kind =>
    cases hstep
    exact h.convert kind rfl
  | saveStringInterner =>
    cases hstep
    exact h.saveStringInterner hconsistent
  | writeFile kind =>
    simp only [step] at hstep
    split at hstep
    · rename_i c hc
      split_ifs at hstep with hguard
      cases hstep
      refine h.writeFile hc ?_
      rcases hguard with hsaved | rfl
      · exact h.saved kind c hc hsaved
      · exact (h.pending _ c hc).of_agree (hconsistent c hc)
    · cases hstep
  | restart existing =>
    simp only [step] at hstep
    split_ifs at hstep with hexisting
    cases hstep
    exact h.restart hexisting

/-- A step after which every process restores the texts was a consistent one. -/
lemma consistent_of_restores {a : Action} (h : s.Inv) (hstep : s.step a = some s')
    (hrestores : s'.Restores) : s.Consistent a := by
  cases a with
  | saveStringInterner =>
    cases hstep
    intro kind file hfile
    exact hrestores.agree (h.files kind file hfile) hfile
  | writeFile kind =>
    cases kind with
    | temporalAdjacency =>
      intro c hc
      simp only [step, Option.mem_def.mp hc, or_true, if_true] at hstep
      cases hstep
      have hencodes : Encodes s.live (ComponentFile.mk c.records c.texts).records c.texts :=
        h.pending _ c hc
      exact hrestores.agree hencodes (update_self ..)
    | graph => trivial
    | temporal => trivial
  | _ => trivial

/-- **Every load restores the texts a component was written with**, over any number of processes,
as long as the interner file keeps the strings that the component files refer to; the first step
that does not keep them is one after which some process loads other texts. -/
theorem restores_run (existing : StringInterner) (hexisting : existing.Nodup) (as : List Action)
    (hconsistent : Machine.Along step Consistent (init existing) as)
    (hrun : Machine.run step (init existing) as = some s) :
    s.Restores ∧ ∀ a s', s.step a = some s' → (s'.Restores ↔ s.Consistent a) := by
  have hinv : s.Inv := Machine.invariant_run inv_step (inv_init hexisting) hconsistent hrun
  refine ⟨hinv.restores, fun a s' hstep => ?_⟩
  constructor
  · exact consistent_of_restores hinv hstep
  · intro h
    exact (inv_step s a s' hinv h hstep).restores

def labelled (label : String) : List (TextRecord String) := [⟨label, [], []⟩]

def persistGraph : List Action := [.convert .graph, .saveStringInterner, .writeFile .graph]

/-- Two processes that have interned the same strings before they open the directory. -/
def sameStart : List Action :=
  [Action.change .graph (labelled "Person")] ++ persistGraph ++
    [Action.restart ["Company"], .intern "City", .saveStringInterner]

theorem restores_sameStart : ∃ s : InternerFiles,
    Machine.run step (init ["Company"]) sameStart = some s ∧
      s.files .graph = some ⟨[⟨1, [], []⟩], labelled "Person"⟩ ∧
      s.live = ["Company", "Person", "City"] ∧ s.Restores := by
  refine ⟨_, rfl, rfl, rfl, ?_⟩
  exact (restores_run ["Company"] (by decide) sameStart (by decide) rfl).1

/-- The second process has interned another string first, and the worker saves its interner without
the graph. -/
def otherStart : List Action :=
  [Action.change .graph (labelled "Person")] ++ persistGraph ++
    [Action.restart ["Company"], .saveStringInterner]

/-- `persist_temporal_adjacency_index` runs before the interner was ever saved. -/
def adjacencyFirst : List Action :=
  [.change .temporalAdjacency (labelled "KNOWS"), .convert .temporalAdjacency,
    .writeFile .temporalAdjacency]

/-- The node that was written as a person is loaded as a company, and the adjacency entry is not
loaded at all. -/
theorem load_mislabels :
    (∃ s : InternerFiles, Machine.run step (init []) otherStart = some s ∧
      s.files .graph = some ⟨[⟨0, [], []⟩], labelled "Person"⟩ ∧
      s.load [] .graph = labelled "Company") ∧
    ∃ s : InternerFiles, Machine.run step (init []) adjacencyFirst = some s ∧
      s.files .temporalAdjacency = some ⟨[⟨0, [], []⟩], labelled "KNOWS"⟩ ∧
      s.load [] .temporalAdjacency = [] := by
  refine ⟨⟨_, rfl, rfl, rfl⟩, _, rfl, rfl, rfl⟩

end InternerFiles

end Aletheia
