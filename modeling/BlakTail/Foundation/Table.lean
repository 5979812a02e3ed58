import Mathlib

/-!
# Finite Tables

Hash maps as association lists with distinct keys.  Mathlib's `AList` supplies
lookup, insertion and erasure; this module adds the whole-table operations that
in-place code uses (`retain`, `mapValues` and `mapEntries`) and the sub-table
order that carries invariants through evictions and purges.

Nothing here depends on the order of the entries: every lemma is about `lookup`.
-/

namespace BlakTail.Foundation

/-- A hash map from `κ` to `ν`. -/
abbrev Table (κ ν : Type) := AList (fun _ : κ => ν)

namespace Table

variable {κ ν : Type}

variable (t : Table κ ν)

def size : Nat := t.entries.length

def total (w : κ → ν → Nat) (t : Table κ ν) : Nat := (t.entries.map fun e => w e.1 e.2).sum

def retain (keep : κ → ν → Bool) : Table κ ν where
  entries := t.entries.filter fun e => keep e.1 e.2
  nodupKeys := t.nodupKeys.sublist List.filter_sublist

def mapValues (f : ν → ν) : Table κ ν where
  entries := t.entries.map (Sigma.map id fun _ => f)
  nodupKeys := t.nodupKeys.map₂ (fun _ => f) t.entries

/-- Apply `f` to every entry's value. -/
def mapEntries (f : κ → ν → ν) : Table κ ν where
  entries := t.entries.map (Sigma.map id f)
  nodupKeys := t.nodupKeys.map₂ f t.entries

theorem retain_retain (keep keep' : κ → ν → Bool) :
    (t.retain keep).retain keep' = t.retain fun k v => keep k v && keep' k v := by
  simp only [retain, List.filter_filter, Bool.and_comm]

theorem size_eq_total : t.size = t.total fun _ _ => 1 := by
  simp [size, total]

variable (keep : κ → ν → Bool)

/-! ## Lookup -/

variable [DecidableEq κ]

theorem lookup_eq_some_iff {t : Table κ ν} {k : κ} {v : ν} :
    t.lookup k = some v ↔ (⟨k, v⟩ : Sigma fun _ : κ => ν) ∈ t.entries := by
  exact AList.mem_lookup_iff

theorem lookup_insert_if (k k' : κ) (v : ν) :
    (t.insert k v).lookup k' = if k' = k then some v else t.lookup k' := by
  split
  · next h => subst h; exact AList.lookup_insert t
  · next h => exact AList.lookup_insert_ne h

theorem lookup_erase_if (k k' : κ) :
    (t.erase k).lookup k' = if k' = k then none else t.lookup k' := by
  split
  · next h => subst h; exact AList.lookup_erase k' t
  · next h => exact AList.lookup_erase_ne h

theorem lookup_foldl_erase (keys : List κ) (k : κ) :
    (keys.foldl (fun t k => t.erase k) t).lookup k = if k ∈ keys then none else t.lookup k := by
  induction keys generalizing t with
  | nil => rfl
  | cons erased keys ih =>
    rw [List.foldl_cons, ih, lookup_erase_if]
    by_cases hrest : k ∈ keys
    · simp [hrest]
    · by_cases hhead : k = erased <;> simp [hrest, hhead]

theorem lookup_retain_eq_some {t : Table κ ν} {keep : κ → ν → Bool} {k : κ} {v : ν} :
    (t.retain keep).lookup k = some v ↔ t.lookup k = some v ∧ keep k v := by
  simp only [lookup_eq_some_iff, retain, List.mem_filter]

theorem lookup_retain (k : κ) : (t.retain keep).lookup k = (t.lookup k).filter (keep k) := by
  ext v
  rw [lookup_retain_eq_some, Option.filter_eq_some_iff]

theorem lookup_mapValues (f : ν → ν) (k : κ) : (t.mapValues f).lookup k = (t.lookup k).map f :=
  List.dlookup_map₂ k

theorem lookup_mapEntries (f : κ → ν → ν) (k : κ) :
    (t.mapEntries f).lookup k = (t.lookup k).map (f k) :=
  List.dlookup_map₂ k

/-! ## Sub-tables -/

/-- Every entry of `t` is an entry of `u`. -/
def Sub (t u : Table κ ν) : Prop :=
  ∀ k v, t.lookup k = some v → u.lookup k = some v

theorem Sub.refl : Sub t t := fun _ _ h => h

theorem Sub.trans {t u w : Table κ ν} (htu : Sub t u) (huw : Sub u w) : Sub t w :=
  fun k v h => huw k v (htu k v h)

theorem retain_sub : Sub (t.retain keep) t :=
  fun _ _ h => (lookup_retain_eq_some.mp h).1

theorem erase_sub (k : κ) : Sub (t.erase k) t := by
  intro k' v h
  rw [lookup_erase_if] at h
  split at h
  · cases h
  · exact h

/-! ## Totals -/

variable (w : κ → ν → Nat) (t : Table κ ν) (k : κ)

/-- What an entry adds to a total is gone with it. -/
theorem total_erase : total w (t.erase k) + (t.lookup k).elim 0 (w k) = total w t := by
  obtain ⟨entries, hnodup⟩ := t
  change ((entries.kerase k).map fun e => w e.1 e.2).sum + (entries.dlookup k).elim 0 (w k) =
    (entries.map fun e => w e.1 e.2).sum
  clear hnodup
  induction entries with
  | nil => rfl
  | cons e entries ih =>
    obtain ⟨k', v⟩ := e
    by_cases hk : k = k'
    · subst hk
      simp [Nat.add_comm]
    · rw [List.kerase_cons_ne hk, List.dlookup_cons_ne _ _ hk]
      simp only [List.map_cons, List.sum_cons]
      omega

theorem total_insert (v : ν) : total w (t.insert k v) = w k v + total w (t.erase k) := by
  rfl

theorem size_erase : size (t.erase k) + (t.lookup k).elim 0 (fun _ => 1) = t.size := by
  rw [size_eq_total, size_eq_total, total_erase]

theorem size_insert (v : ν) :
    size (t.insert k v) + (t.lookup k).elim 0 (fun _ => 1) = t.size + 1 := by
  rw [size_eq_total, total_insert, ← size_eq_total, ← t.size_erase k]
  omega

end Table

/-- Among rows with distinct keys, a row is found by its key. -/
theorem find?_key {α κ : Type} [DecidableEq κ] {key : α → κ} {rows : List α}
    (hkeys : (rows.map key).Nodup) {row : α} (hrow : row ∈ rows) :
    rows.find? (fun other => key other = key row) = some row := by
  cases hfind : rows.find? fun other => key other = key row with
  | none => exact absurd (decide_eq_true rfl) (List.find?_eq_none.mp hfind row hrow)
  | some other =>
    have hkey : key other = key row := by simpa using List.find?_some hfind
    rw [List.inj_on_of_nodup_map hkeys (List.mem_of_find?_eq_some hfind) hrow hkey]

end BlakTail.Foundation
