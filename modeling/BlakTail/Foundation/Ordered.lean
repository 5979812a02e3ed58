import BlakTail.Foundation.Run

/-!
# Ordered Maps and Sets

A `BTreeMap` that is only filled and read out in order is an ascending list:
inserting keeps it ascending and replaces the element with an equal key.  A
`BTreeSet` is the case where an element is its own key.
-/

namespace BlakTail.Foundation

variable {α κ : Type} [LinearOrder κ] (key : α → κ) {a : α} {as acc : List α}

/-- Insert into an ascending list, replacing an element with an equal key. -/
def insertBy (a : α) : List α → List α
  | [] => [a]
  | b :: bs =>
    if key a < key b then a :: b :: bs
    else if key a = key b then a :: bs
    else b :: insertBy a bs

/-- Insert `as` one after another. -/
def extendBy (acc as : List α) : List α := as.foldl (fun acc a => insertBy key a acc) acc

/-- The ascending list of `as`; of equal keys the last one wins. -/
def collectBy (as : List α) : List α := extendBy key [] as

/-- Keys strictly increase along the list. -/
def Ascending (as : List α) : Prop := as.Pairwise fun a b => key a < key b

variable {key}

/-! ## Elements -/

theorem mem_insertBy (hinj : ∀ b ∈ as, key a = key b → b = a) (c : α) :
    c ∈ insertBy key a as ↔ c = a ∨ c ∈ as := by
  induction as with
  | nil => simp [insertBy]
  | cons b bs ih =>
    have hb := hinj b List.mem_cons_self
    have hbs := ih fun b' hb' => hinj b' (List.mem_cons_of_mem b hb')
    unfold insertBy
    split
    · simp
    · split
      · next heq =>
        rw [hb heq]
        simp
      · rw [List.mem_cons, hbs, List.mem_cons]
        constructor <;> rintro (h | h | h) <;> simp [h]

theorem mem_extendBy (hinj : ∀ a ∈ as, ∀ b ∈ acc ++ as, key a = key b → b = a) (c : α) :
    c ∈ extendBy key acc as ↔ c ∈ acc ∨ c ∈ as := by
  induction as generalizing acc with
  | nil => simp [extendBy]
  | cons a as ih =>
    have hinsert : ∀ c, c ∈ insertBy key a acc ↔ c = a ∨ c ∈ acc := mem_insertBy fun b hb =>
      hinj a List.mem_cons_self b (List.mem_append_left _ hb)
    have hrest : ∀ a' ∈ as, ∀ b ∈ insertBy key a acc ++ as, key a' = key b → b = a' := by
      intro a' ha' b hb
      refine hinj a' (List.mem_cons_of_mem a ha') b ?_
      rcases List.mem_append.mp hb with hb | hb
      · rcases (hinsert b).mp hb with rfl | hb
        · simp
        · exact List.mem_append_left _ hb
      · exact List.mem_append_right _ (List.mem_cons_of_mem a hb)
    rw [extendBy, List.foldl_cons, ← extendBy, ih hrest, hinsert, List.mem_cons]
    constructor
    · rintro ((rfl | h) | h) <;> simp [*]
    · rintro (h | rfl | h) <;> simp [*]

/-- Nothing comes out that was not inserted, whatever the keys. -/
theorem mem_of_mem_insertBy {c : α} (h : c ∈ insertBy key a as) : c = a ∨ c ∈ as := by
  induction as with
  | nil => exact .inl (List.mem_singleton.mp h)
  | cons b bs ih =>
    unfold insertBy at h
    split_ifs at h
    · exact List.mem_cons.mp h
    · exact (List.mem_cons.mp h).imp_right (List.mem_cons_of_mem b)
    · rcases List.mem_cons.mp h with rfl | h
      · exact .inr List.mem_cons_self
      · exact (ih h).imp_right (List.mem_cons_of_mem b)

theorem mem_of_mem_extendBy {c : α} (h : c ∈ extendBy key acc as) : c ∈ acc ∨ c ∈ as := by
  induction as generalizing acc with
  | nil => exact .inl h
  | cons a as ih =>
    rcases ih h with h | h
    · rcases mem_of_mem_insertBy h with rfl | h
      · exact .inr List.mem_cons_self
      · exact .inl h
    · exact .inr (List.mem_cons_of_mem a h)

/-- What was collected is what comes out, when keys tell elements apart. -/
theorem mem_collectBy (hinj : ∀ a ∈ as, ∀ b ∈ as, key a = key b → b = a) (c : α) :
    c ∈ collectBy key as ↔ c ∈ as := by
  unfold collectBy
  rw [mem_extendBy (by simpa using hinj)]
  simp

example : collectBy id [3, 1, 2, 1] = [1, 2, 3] := by decide

/-! ## Order -/

theorem insertBy_ascending (a : α) (has : Ascending key as) :
    Ascending key (insertBy key a as) := by
  induction as with
  | nil => exact List.pairwise_singleton _ a
  | cons b bs ih =>
    obtain ⟨hb, hbs⟩ := List.pairwise_cons.mp has
    unfold insertBy
    split
    · next hlt =>
      refine List.pairwise_cons.mpr ⟨fun c hc => ?_, has⟩
      rcases List.mem_cons.mp hc with rfl | hc
      · exact hlt
      · exact hlt.trans (hb c hc)
    · next hge =>
      split
      · next heq => exact List.pairwise_cons.mpr ⟨fun c hc => heq ▸ hb c hc, hbs⟩
      · next hne =>
        have hlt : key b < key a := lt_of_le_of_ne (not_lt.mp hge) (Ne.symm hne)
        refine List.pairwise_cons.mpr ⟨fun c hc => ?_, ih hbs⟩
        -- every element of the result is `a` or an old one
        rcases mem_of_mem_insertBy hc with rfl | hc
        · exact hlt
        · exact hb c hc

theorem extendBy_ascending (hacc : Ascending key acc) (as : List α) :
    Ascending key (extendBy key acc as) := by
  induction as generalizing acc with
  | nil => exact hacc
  | cons a as ih => exact ih (insertBy_ascending a hacc)

theorem Ascending.nodup (has : Ascending key as) : as.Nodup := by
  refine List.Pairwise.imp ?_ has
  rintro a b hlt rfl
  exact lt_irrefl _ hlt

/-- An ascending list is determined by its elements. -/
theorem Ascending.eq_of_mem_iff {bs : List α} (has : Ascending key as) (hbs : Ascending key bs)
    (hmem : ∀ c, c ∈ as ↔ c ∈ bs) : as = bs := by
  have hperm : as.Perm bs := (List.perm_ext_iff_of_nodup has.nodup hbs.nodup).mpr hmem
  exact hperm.eq_of_pairwise (fun a b _ _ hab hba => absurd (hab.trans hba) (lt_irrefl _)) has hbs

/-! ## Sets of texts

Texts are ordered by their characters, which is the order of their UTF-8 bytes. -/

def insertText (s : String) (set : List String) : List String := insertBy String.toList s set

def extendText (set more : List String) : List String := extendBy String.toList set more

@[simp] theorem mem_insertText {t : String} {s : String} {set : List String} :
    t ∈ insertText s set ↔ t = s ∨ t ∈ set :=
  mem_insertBy (fun _ _ heq => (String.toList_inj.mp heq).symm) t

@[simp] theorem mem_extendText {t : String} {set more : List String} :
    t ∈ extendText set more ↔ t ∈ set ∨ t ∈ more :=
  mem_extendBy (fun _ _ _ _ heq => (String.toList_inj.mp heq).symm) t

/-- Texts gathered from inputs that each add their own do not depend on the order of the inputs. -/
theorem foldl_texts_eq {σ β : Type} {step : σ → β → σ} {T : σ → List String}
    {texts : β → List String} (hextends : ∀ s b, T (step s b) = extendText (T s) (texts b))
    {bs cs : List β} (hmem : ∀ b, b ∈ bs ↔ b ∈ cs) {s : σ}
    (hs : Ascending String.toList (T s)) :
    T (bs.foldl step s) = T (cs.foldl step s) := by
  have hstep : ∀ s b, Ascending String.toList (T s) → Ascending String.toList (T (step s b)) := by
    intro s b h
    rw [hextends]
    exact extendBy_ascending h _
  have hgathered : ∀ bs : List β, Ascending String.toList (T (bs.foldl step s)) :=
    fun bs => run_invariant hstep bs hs
  refine (hgathered bs).eq_of_mem_iff (hgathered cs) fun t => ?_
  have hadds : ∀ s b, t ∈ T (step s b) ↔ t ∈ T s ∨ t ∈ texts b := by
    intro s b
    rw [hextends, mem_extendText]
  rw [foldl_adds (P := fun s => t ∈ T s) hadds, foldl_adds (P := fun s => t ∈ T s) hadds]
  simp only [hmem]

/-! ## Maps with text keys -/

variable {β : Type}

def insertKey (k : String) (v : β) (map : List (String × β)) : List (String × β) :=
  insertBy (fun entry => entry.1.toList) (k, v) map

/-- The keys of the map, in order, each once. -/
def KeysAscend (map : List (String × β)) : Prop := Ascending (fun entry => entry.1.toList) map

theorem lookup_cons_ite (k : String) (entry : String × β) (map : List (String × β)) :
    (entry :: map).lookup k = if k = entry.1 then some entry.2 else map.lookup k := by
  rw [List.lookup_cons]
  by_cases h : k = entry.1
  · rw [if_pos h, beq_iff_eq.mpr h]
  · rw [if_neg h, beq_eq_false_iff_ne.mpr h]

theorem lookup_insertKey (k k' : String) (v : β) (map : List (String × β)) :
    (insertKey k v map).lookup k' = if k' = k then some v else map.lookup k' := by
  induction map with
  | nil => exact lookup_cons_ite k' (k, v) []
  | cons entry map ih =>
    unfold insertKey insertBy
    split
    · exact lookup_cons_ite k' (k, v) (entry :: map)
    · split
      · next heq =>
        have hname : k = entry.1 := String.toList_inj.mp heq
        rw [lookup_cons_ite, lookup_cons_ite, ← hname]
        split
        · rfl
        · rfl
      · next hne =>
        have hname : k ≠ entry.1 := fun h => hne (congrArg String.toList h)
        have hrest : (insertBy (fun entry => entry.1.toList) (k, v) map).lookup k' =
            if k' = k then some v else map.lookup k' := ih
        rw [lookup_cons_ite, lookup_cons_ite, hrest]
        by_cases h : k' = entry.1
        · rw [if_pos h, if_pos h, if_neg fun h' => hname (h'.symm.trans h)]
        · rw [if_neg h, if_neg h]

/-- In an ordered map the entries are what the keys lead to. -/
theorem KeysAscend.mem_iff {map : List (String × β)} (h : KeysAscend map) {k : String} {v : β} :
    (k, v) ∈ map ↔ map.lookup k = some v := by
  induction map with
  | nil => simp
  | cons entry map ih =>
    obtain ⟨hfirst, hrest⟩ := List.pairwise_cons.mp h
    rw [List.mem_cons, lookup_cons_ite]
    by_cases hk : k = entry.1
    · -- The key of the first entry is no other entry's.
      have hnot : (k, v) ∉ map := by
        intro hin
        have hlt := hfirst _ hin
        rw [hk] at hlt
        exact lt_irrefl _ hlt
      rw [if_pos hk]
      constructor
      · rintro (hv | hv)
        · rw [← hv]
        · exact absurd hv hnot
      · intro hv
        left
        rw [hk, ← Option.some.inj hv]
    · rw [if_neg hk, ← ih hrest, or_iff_right]
      intro hv
      exact hk (congrArg Prod.fst hv)

end BlakTail.Foundation
