import ChatPreferences.Proofs.Setting.Spelling
import ChatPreferences.Proofs.Store.Loading

/-!
# What every store keeps to

Names are unique in a store: no section is made under a name that is there, and no setting of a
section either.  A setting holds a value that its kind has read, for its default has to be one, and
nothing else is ever stored.  Both hold of the empty store and stay, whatever is made, set or read.

What may be said of records depends on what they are.  Here it is some `Q` that reading a line and
letting go keep.

* `Section.Valid`, `Store.Valid` — the names, the values, and the records of which `Q` holds.
* `Store.Distinct`, `Store.sections_eq` — distinct names alone, by which a store is known from its
  outline, its settings and its records.
* `Store.Valid.create`, `Store.Valid.declare`, `Store.Valid.set`, `Store.Valid.reset` — what is made
  and set keeps to it.
* `Store.Valid.takeLines`, `Store.Valid.cleared` — and so do records that read lines and are let go.
-/

namespace ChatPreferences

/-- Names stay distinct when one is added that nothing was found under. -/
theorem nodup_map_append_of_find?_eq_none {α : Type} {key : α → Text} {l : List α} {x : α}
    (h : (l.map key).Nodup) (hnew : l.find? (key · == key x) = none) :
    ((l ++ [x]).map key).Nodup := by
  have hfresh : key x ∉ l.map key := fun hin => by
    obtain ⟨y, hy, hyx⟩ := List.mem_map.mp hin
    exact List.find?_eq_none.mp hnew y hy (beq_iff_eq.mpr hyx)
  rw [List.map_append, List.map_singleton, ← List.concat_eq_append]
  exact h.concat hfresh

section Named

variable {α : Type} {key : α → Text} {l l' : List α}

theorem filterMap_find?_map (h : (l.map key).Nodup) :
    (l.map key).filterMap (fun k => l.find? (key · == k)) = l := by
  rw [List.filterMap_map]
  calc l.filterMap ((fun k => l.find? (key · == k)) ∘ key)
    _ = l.filterMap some := List.filterMap_congr fun x hx => find?_key_of_mem h hx
    _ = l := List.filterMap_some

/-- Lists with the same distinct keys, under which the same is found, are the same. -/
theorem eq_of_find?_eq (hkeys : l.map key = l'.map key) (h : (l.map key).Nodup)
    (hfind : ∀ k, l.find? (key · == k) = l'.find? (key · == k)) : l = l' := by
  calc l
    _ = (l.map key).filterMap fun k => l.find? (key · == k) := (filterMap_find?_map h).symm
    _ = (l'.map key).filterMap fun k => l'.find? (key · == k) := by
      rw [hkeys]
      exact List.filterMap_congr fun k _ => hfind k
    _ = l' := filterMap_find?_map (hkeys ▸ h)

end Named

/-- **A section that keeps to the rules**: its settings have distinct names and hold values of their
kinds, and `Q` holds of its records. -/
structure Section.Valid {σ ρ : Type} (Q : ρ → Prop) (s : Section σ ρ) : Prop where
  names : (s.settings.map (·.name)).Nodup
  values : ∀ o ∈ s.settings, o.kind.Admits o.value
  records : ∀ r, s.records = some r → Q r

/-- **A store that keeps to the rules**: its sections have distinct names and keep to them. -/
structure Store.Valid {σ ρ : Type} (Q : ρ → Prop) (store : Store σ ρ) : Prop where
  names : (store.sections.map (·.name)).Nodup
  sections : ∀ s ∈ store.sections, s.Valid Q

namespace Section

variable {σ ρ : Type} {Q : ρ → Prop} {s : Section σ ρ}

theorem valid_new (name : Text) {records : Option ρ} (h : ∀ r, records = some r → Q r) :
    (⟨name, [], records⟩ : Section σ ρ).Valid Q where
  names := List.nodup_nil
  values := fun _ ho => absurd ho List.not_mem_nil
  records := h

theorem Valid.append (h : s.Valid Q) {d : Declaration σ} {v : Value} (hnew : s.get? d.name = none)
    (hv : d.kind.parse d.default = .ok v) :
    ({ s with settings := s.settings ++ [⟨d, v⟩] } : Section σ ρ).Valid Q where
  names := nodup_map_append_of_find?_eq_none h.names hnew
  values := fun o ho => by
    rcases List.mem_append.mp ho with ho | ho
    · exact h.values o ho
    · rw [List.mem_singleton.mp ho]
      exact ⟨d.default, hv⟩
  records := h.records

theorem Valid.put (h : s.Valid Q) {name : Text} {o : Setting σ} {raw : Text} {v : Value}
    (hget : s.get? name = some o) (hv : o.kind.parse raw = .ok v) : (s.put name v).Valid Q where
  names := by
    have hnames : (s.put name v).settings.map (·.name) = s.settings.map (·.name) :=
      map_modifyFirst fun _ => rfl
    rw [hnames]
    exact h.names
  values := fun x hx => by
    rcases mem_modifyFirst hx with hx | ⟨y, hy, rfl⟩
    · exact h.values x hx
    · have hyo : y = o := Option.some.inj (hy.symm.trans hget)
      exact ⟨raw, by rw [hyo]; exact hv⟩
  records := h.records

theorem Valid.mapRecords (h : s.Valid Q) {f : ρ → ρ}
    (hf : ∀ r, s.records = some r → Q r → Q (f r)) :
    ({ s with records := s.records.map f } : Section σ ρ).Valid Q where
  names := h.names
  values := h.values
  records := fun r hr => by
    obtain ⟨r', hr', rfl⟩ := Option.map_eq_some_iff.mp hr
    exact hf r' hr' (h.records r' hr')

end Section

namespace Store

variable {σ ρ : Type} {Q : ρ → Prop} {store : Store σ ρ}

/-! ## Looking into a store -/

theorem Valid.of_get? (h : store.Valid Q) {a : Address} {o : Setting σ}
    (ho : store.get? a = some o) : o.kind.Admits o.value ∧ o.name = a.name := by
  rw [get?, Option.bind_eq_some_iff] at ho
  obtain ⟨s, hs, ho⟩ := ho
  have hname := List.find?_some ho
  exact ⟨(h.sections s (List.mem_of_find?_eq_some hs)).values o (List.mem_of_find?_eq_some ho),
    eq_of_beq hname⟩

theorem Valid.of_records? (h : store.Valid Q) {name : Text} {r : ρ}
    (hr : store.records? name = some r) : Q r := by
  rw [records?, Option.bind_eq_some_iff] at hr
  obtain ⟨s, hs, hr⟩ := hr
  exact (h.sections s (List.mem_of_find?_eq_some hs)).records r hr

/-- A setting of a section is found at its address. -/
theorem Valid.get?_of_mem (h : store.Valid Q) {s : Section σ ρ} (hs : s ∈ store.sections)
    {o : Setting σ} (ho : o ∈ s.settings) : store.get? ⟨s.name, o.name⟩ = some o := by
  rw [get?, section?_name_of_mem h.names hs, Option.bind_some]
  exact find?_key_of_mem (h.sections s hs).names ho

/-! ## Distinct names -/

section Distinct

variable {s t : Store σ ρ}

/-- **A store in which names are distinct**: those of sections, and those of a section's settings.  All
that keep to the rules are so. -/
structure Distinct (store : Store σ ρ) : Prop where
  sections : (store.sections.map (·.name)).Nodup
  settings : ∀ s ∈ store.sections, (s.settings.map (·.name)).Nodup

theorem Valid.distinct {Q : ρ → Prop} (h : s.Valid Q) : s.Distinct :=
  ⟨h.names, fun x hx => (h.sections x hx).names⟩

theorem Distinct.of_outline (h : s.Distinct) (ho : s.outline = t.outline) : t.Distinct where
  sections := sectionNames_eq ho ▸ h.sections
  settings := fun y hy => by
    have hmem : y.outline ∈ s.outline := by
      rw [ho]
      exact List.mem_map_of_mem hy
    obtain ⟨x, hx, hxy⟩ := List.mem_map.mp hmem
    rw [← settingNames_eq hxy]
    exact h.settings x hx

/-- **A store is known by its outline, its settings and its records.** -/
theorem sections_eq (h : s.Distinct) (ho : s.outline = t.outline) (hget : ∀ a, s.get? a = t.get? a)
    (hrecords : ∀ name, s.records? name = t.records? name) : s.sections = t.sections := by
  refine eq_of_find?_eq (sectionNames_eq ho) h.sections fun name => ?_
  have houtline := section?_outline_eq ho name
  change s.section? name = t.section? name
  cases hs : s.section? name with
  | none =>
    rw [hs, Option.map_none, eq_comm, Option.map_eq_none_iff] at houtline
    exact houtline.symm
  | some x =>
    rw [hs, Option.map_some, eq_comm, Option.map_eq_some_iff] at houtline
    obtain ⟨y, ht, hyx⟩ := houtline
    have hmem : x ∈ s.sections := List.mem_of_find?_eq_some hs
    have hname : x.name = y.name := congrArg (·.1) hyx.symm
    have hsettings : x.settings = y.settings := by
      refine eq_of_find?_eq (settingNames_eq hyx.symm) (h.settings x hmem) fun k => ?_
      have hfound := hget ⟨name, k⟩
      rw [get?, get?, hs, ht] at hfound
      exact hfound
    have hsame : x.records = y.records := by
      have hfound := hrecords name
      rw [records?, records?, hs, ht] at hfound
      exact hfound
    rw [ht, Option.some.injEq]
    cases x
    cases y
    simp_all

end Distinct

/-! ## What keeps to the rules -/

theorem valid_empty : (empty : Store σ ρ).Valid Q where
  names := List.nodup_nil
  sections := fun _ h => absurd h List.not_mem_nil

theorem Valid.modifySection (h : store.Valid Q) {p : Section σ ρ → Bool}
    {f : Section σ ρ → Section σ ρ} (hname : ∀ s, (f s).name = s.name)
    (hf : ∀ s, store.sections.find? p = some s → s.Valid Q → (f s).Valid Q) :
    ({ store with sections := modifyFirst p f store.sections } : Store σ ρ).Valid Q where
  names := by
    rw [map_modifyFirst hname]
    exact h.names
  sections := fun s hs => by
    rcases mem_modifyFirst hs with hs | ⟨t, ht, rfl⟩
    · exact h.sections s hs
    · exact hf t ht (h.sections t (List.mem_of_find?_eq_some ht))

theorem Valid.create (h : store.Valid Q) {name : Text} {records : Option ρ}
    (hr : ∀ r, records = some r → Q r) {t : Store σ ρ} (ht : store.create name records = .ok t) :
    t.Valid Q := by
  unfold Store.create at ht
  split at ht
  · cases ht
  · rename_i hnew
    obtain rfl := Except.ok.inj ht
    have hfresh : store.section? name = none := Option.not_isSome_iff_eq_none.mp hnew
    refine ⟨nodup_map_append_of_find?_eq_none h.names hfresh, fun s hs => ?_⟩
    rcases List.mem_append.mp hs with hs | hs
    · exact h.sections s hs
    · rw [List.mem_singleton.mp hs]
      exact Section.valid_new name hr

theorem Valid.declare (h : store.Valid Q) {sectionName : Text} {d : Declaration σ} {t : Store σ ρ}
    (ht : store.declare sectionName d = .ok t) : t.Valid Q := by
  unfold Store.declare at ht
  split at ht
  · cases ht
  · rename_i s hs
    split at ht
    · cases ht
    · rename_i hnew
      split at ht
      · cases ht
      · rename_i v hv
        obtain rfl := Except.ok.inj ht
        refine h.modifySection (fun _ => rfl) fun s' hs' hvalid => ?_
        obtain rfl : s' = s := Option.some.inj (hs'.symm.trans hs)
        exact hvalid.append (Option.not_isSome_iff_eq_none.mp hnew) hv

theorem Valid.put (h : store.Valid Q) {a : Address} {o : Setting σ} {raw : Text} {v : Value}
    (hget : store.get? a = some o) (hv : o.kind.parse raw = .ok v) : (store.put a v).Valid Q := by
  refine h.modifySection (fun _ => rfl) fun s hs hvalid => hvalid.put ?_ hv
  rw [get?, section?, hs] at hget
  exact hget

theorem kept_valid (base : Store σ ρ) : Kept base (fun _ => True) (Valid Q) where
  fired := fun _ _ h => ⟨h.names, h.sections⟩
  put := fun _ _ _ _ _ _ _ hget hv h => h.put hget hv
  assigned := fun _ _ => trivial

theorem Valid.set (h : store.Valid Q) {a : Address} {raw : Text} {c : Change σ ρ}
    (hc : store.set a raw = some c) : c.store.Valid Q :=
  ((kept_valid store).set rfl h trivial hc).2

theorem Valid.reset (h : store.Valid Q) {a : Address} {c : Change σ ρ}
    (hc : store.reset a = some c) : c.store.Valid Q := by
  obtain ⟨raw, hset⟩ := exists_set_of_reset hc
  exact h.set hset

theorem Valid.modifyRecords (h : store.Valid Q) (name : Text) {f : ρ → ρ}
    (hf : ∀ r : ρ, store.records? name = some r → Q r → Q (f r)) :
    (store.modifyRecords name f).Valid Q :=
  h.modifySection (fun _ => rfl) fun s hs hvalid =>
    hvalid.mapRecords fun r hr => hf r (Option.bind_eq_some_iff.mpr ⟨s, hs, hr⟩)

section RecordSet

variable [RecordSet ρ]

theorem Valid.cleared (h : store.Valid Q) (hclear : ∀ r : ρ, Q r → Q (RecordSet.clear r)) :
    store.cleared.Valid Q where
  names := by
    have hnames : store.cleared.sections.map (·.name) = store.sections.map (·.name) := by
      simp [Store.cleared, Section.cleared, Function.comp_def]
    rw [hnames]
    exact h.names
  sections := fun s hs => by
    obtain ⟨t, ht, rfl⟩ := List.mem_map.mp hs
    exact (h.sections t ht).mapRecords fun r _ => hclear r

theorem Valid.takeLines (h : store.Valid Q)
    (hread : ∀ (r : ρ) (key value : Text), Q r → Q (RecordSet.read r key value).1)
    (lines : List Line) : (store.takeLines lines).store.Valid Q :=
  (kept_valid store).takeLines
    (fun _ name key value hs => hs.modifyRecords name fun r _ => hread r key value)
    lines store rfl h

end RecordSet

end Store

end ChatPreferences
