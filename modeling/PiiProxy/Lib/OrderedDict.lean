import Mathlib.Data.List.Basic
import Mathlib.Data.List.Perm.Basic

/-! Dictionaries that keep the order in which their keys were inserted, as Python's `dict` and
    `OrderedDict` do. The entries stand in that order, and no key stands twice. -/

structure OrderedDict (κ ν : Type) where
  entries : List (κ × ν)
  nodup : (entries.map (·.1)).Nodup

namespace OrderedDict
variable {κ ν : Type} [DecidableEq κ]

def empty : OrderedDict κ ν := ⟨[], List.nodup_nil⟩

def get? (d : OrderedDict κ ν) (k : κ) : Option ν := (d.entries.find? fun e => e.1 = k).map (·.2)

def contains (d : OrderedDict κ ν) (k : κ) : Bool := (d.get? k).isSome

def length (d : OrderedDict κ ν) : Nat := d.entries.length

def values (d : OrderedDict κ ν) : List ν := d.entries.map (·.2)

/-- `d.pop(k, None)` and `del d[k]`. -/
def erase (d : OrderedDict κ ν) (k : κ) : OrderedDict κ ν where
  entries := d.entries.filter fun e => e.1 ≠ k
  nodup := List.Nodup.sublist (List.filter_sublist.map _) d.nodup

theorem fst_replace (k : κ) (v : ν) (l : List (κ × ν)) :
    (l.map fun e => if e.1 = k then (k, v) else e).map (·.1) = l.map (·.1) := by
  rw [List.map_map]
  refine List.map_congr_left fun e _ => ?_
  by_cases h : e.1 = k
  · simp [h]
  · simp [h]

omit [DecidableEq κ] in
theorem nodup_snoc {l : List (κ × ν)} {k : κ} (v : ν) (hl : (l.map (·.1)).Nodup) (hk : k ∉ l.map (·.1)) :
    ((l ++ [(k, v)]).map (·.1)).Nodup := by
  rw [List.map_append, List.map_singleton]
  refine List.nodup_append.mpr ⟨hl, by simp, fun a ha b hb hab => ?_⟩
  rw [List.mem_singleton] at hb
  rw [hab, hb] at ha
  exact hk ha

theorem contains_iff {d : OrderedDict κ ν} {k : κ} : d.contains k = true ↔ k ∈ d.entries.map (·.1) := by
  simp [contains, get?, List.mem_map]

/-- `d[k] = v`: a known key keeps its place, a new one goes to the end. -/
def set (d : OrderedDict κ ν) (k : κ) (v : ν) : OrderedDict κ ν :=
  if h : d.contains k = true then
    ⟨d.entries.map fun e => if e.1 = k then (k, v) else e, by rw [fst_replace]; exact d.nodup⟩
  else
    ⟨d.entries ++ [(k, v)], nodup_snoc v d.nodup (mt contains_iff.mpr h)⟩

/-- The dictionary with the given entries, of which a later one replaces an earlier one of its key. -/
def ofList (entries : List (κ × ν)) : OrderedDict κ ν := entries.foldl (fun d e => d.set e.1 e.2) empty

/-- `d.move_to_end(k)` for a key of `d`. -/
def moveToEnd (d : OrderedDict κ ν) (k : κ) : OrderedDict κ ν :=
  match d.get? k with
  | none => d
  | some v => ⟨(d.erase k).entries ++ [(k, v)], nodup_snoc v (d.erase k).nodup (by simp [erase])⟩

omit [DecidableEq κ] in
@[ext] theorem ext {d e : OrderedDict κ ν} (h : d.entries = e.entries) : d = e := by
  obtain ⟨l, hl⟩ := d
  obtain ⟨m, hm⟩ := e
  simp only at h
  subst h
  rfl

theorem entries_set_of_contains {d : OrderedDict κ ν} {k : κ} (v : ν) (h : d.contains k = true) :
    (d.set k v).entries = d.entries.map fun e => if e.1 = k then (k, v) else e := by simp [set, h]

theorem entries_set_of_new {d : OrderedDict κ ν} {k : κ} (v : ν) (h : d.contains k = false) :
    (d.set k v).entries = d.entries ++ [(k, v)] := by simp [set, h]

/-! ### Lookup -/

@[simp] theorem get?_empty (k : κ) : (empty : OrderedDict κ ν).get? k = none := rfl

theorem get?_eq_some {d : OrderedDict κ ν} {k : κ} {v : ν} : d.get? k = some v ↔ (k, v) ∈ d.entries := by
  obtain ⟨l, hl⟩ := d
  simp only [get?]
  induction l with
  | nil => simp
  | cons e l ih =>
    simp only [List.map_cons, List.nodup_cons] at hl
    by_cases h : e.1 = k
    · simp only [List.find?_cons, h, decide_true, Option.map_some, Option.some.injEq, List.mem_cons]
      constructor
      · rintro rfl
        exact Or.inl (by rw [← h])
      · rintro (rfl | hmem)
        · rfl
        · exact absurd (List.mem_map_of_mem (f := (·.1)) hmem) (h ▸ hl.1)
    · have hne : (k, v) ≠ e := fun heq => h (by rw [← heq])
      simp only [List.find?_cons, h, decide_false, List.mem_cons, hne, false_or]
      exact ih hl.2

theorem get?_eq_none {d : OrderedDict κ ν} {k : κ} : d.get? k = none ↔ ∀ v, (k, v) ∉ d.entries := by
  constructor
  · intro h v hv
    rw [get?_eq_some.mpr hv] at h
    cases h
  · intro h
    cases hv : d.get? k with
    | none => rfl
    | some v => exact absurd (get?_eq_some.mp hv) (h v)

theorem contains_eq_false {d : OrderedDict κ ν} {k : κ} : d.contains k = false ↔ d.get? k = none := by
  simp [contains]

/-- Two dictionaries with the same entries up to order answer every lookup alike. -/
theorem get?_congr {d e : OrderedDict κ ν} {k : κ} (h : ∀ v, (k, v) ∈ d.entries ↔ (k, v) ∈ e.entries) :
    d.get? k = e.get? k := by
  refine Option.ext fun v => ?_
  rw [get?_eq_some, get?_eq_some]
  exact h v

@[simp] theorem get?_erase (d : OrderedDict κ ν) (k j : κ) : (d.erase k).get? j = if j = k then none else d.get? j := by
  refine Option.ext fun v => ?_
  by_cases h : j = k
  · simp [h, get?_eq_some, erase]
  · simp [h, get?_eq_some, erase]

@[simp] theorem get?_set (d : OrderedDict κ ν) (k j : κ) (v : ν) :
    (d.set k v).get? j = if j = k then some v else d.get? j := by
  refine Option.ext fun w => ?_
  rw [get?_eq_some]
  unfold set
  split
  · rename_i h
    rw [contains_iff, List.mem_map] at h
    obtain ⟨e, he, hek⟩ := h
    simp only [List.mem_map]
    by_cases hj : j = k
    · subst hj
      simp only [↓reduceIte, Option.some.injEq]
      constructor
      · rintro ⟨x, hx, hxe⟩
        by_cases hxk : x.1 = j
        · simp only [hxk, ↓reduceIte, Prod.mk.injEq, true_and] at hxe
          exact hxe
        · simp only [hxk, ↓reduceIte] at hxe
          exact absurd (by rw [hxe]) hxk
      · rintro rfl
        exact ⟨e, he, by simp [hek]⟩
    · simp only [hj, ↓reduceIte, get?_eq_some]
      constructor
      · rintro ⟨x, hx, hxe⟩
        by_cases hxk : x.1 = k
        · simp only [hxk, ↓reduceIte, Prod.mk.injEq] at hxe
          exact absurd hxe.1.symm hj
        · simp only [hxk, ↓reduceIte] at hxe
          exact hxe ▸ hx
      · intro hw
        exact ⟨_, hw, by simp [hj]⟩
  · rename_i h
    rw [Bool.not_eq_true, contains_eq_false] at h
    by_cases hj : j = k
    · subst hj
      simp [get?_eq_none.mp h, eq_comm]
    · simp [hj, get?_eq_some]

@[simp] theorem get?_moveToEnd (d : OrderedDict κ ν) (k j : κ) : (d.moveToEnd k).get? j = d.get? j := by
  refine Option.ext fun w => ?_
  unfold moveToEnd
  split
  · rfl
  · rename_i v hv
    rw [get?_eq_some]
    by_cases hj : j = k
    · subst hj
      simp [hv, erase, eq_comm]
    · simp [hj, erase, get?_eq_some]

/-! ### Entries -/

theorem length_erase_of_contains {d : OrderedDict κ ν} {k : κ} (h : d.contains k = true) :
    (d.erase k).length + 1 = d.length := by
  obtain ⟨l, hl⟩ := d
  rw [contains_iff] at h
  simp only [length, erase]
  induction l with
  | nil => simp at h
  | cons e l ih =>
    simp only [List.map_cons, List.nodup_cons, List.mem_cons] at hl h
    by_cases hek : e.1 = k
    · have hall : (l.filter fun e => e.1 ≠ k) = l := by
        rw [List.filter_eq_self]
        intro x hx
        have : x.1 ≠ k := fun hxk => hl.1 (hek ▸ hxk ▸ List.mem_map_of_mem (f := (·.1)) hx)
        simpa using this
      rw [List.filter_cons_of_neg (by simp [hek]), hall, List.length_cons]
    · have := ih hl.2 (h.resolve_left fun h => hek h.symm)
      rw [List.filter_cons_of_pos (by simp [hek]), List.length_cons, List.length_cons, this]

/-- Storing a key after moving it to the end: it is the last entry, and the others keep their order. -/
theorem entries_set_moveToEnd (d : OrderedDict κ ν) (k : κ) (v : ν) :
    ((if d.contains k then d.moveToEnd k else d).set k v).entries = (d.erase k).entries ++ [(k, v)] := by
  by_cases h : d.contains k = true
  · obtain ⟨w, hw⟩ := Option.isSome_iff_exists.mp h
    have hmove : (d.moveToEnd k).entries = (d.erase k).entries ++ [(k, w)] := by simp [moveToEnd, hw]
    have hcon : (d.moveToEnd k).contains k = true := by simp [contains, hw]
    have hsame : ((d.erase k).entries.map fun e => if e.1 = k then (k, v) else e) = (d.erase k).entries := by
      refine (List.map_congr_left fun e he => ?_).trans (List.map_id _)
      have : e.1 ≠ k := by simpa using (List.mem_filter.mp he).2
      simp [this]
    simp only [h, ↓reduceIte, set, hcon, ↓reduceDIte, hmove, List.map_append, hsame, List.map_singleton]
  · have hall : (d.erase k).entries = d.entries := by
      simp only [erase, List.filter_eq_self]
      intro e he
      have : e.1 ≠ k := fun hek => h (contains_iff.mpr (List.mem_map.mpr ⟨e, he, hek⟩))
      simpa using this
    simp [h, set, hall]

/-! ### The keys that satisfy a predicate -/

def filterKeys (d : OrderedDict κ ν) (p : κ → Bool) : OrderedDict κ ν where
  entries := d.entries.filter fun e => p e.1
  nodup := List.Nodup.sublist (List.filter_sublist.map _) d.nodup

theorem get?_filterKeys {d : OrderedDict κ ν} {p : κ → Bool} {k : κ} (h : p k = true) :
    (d.filterKeys p).get? k = d.get? k :=
  get?_congr fun v => by simp [filterKeys, h]

omit [DecidableEq κ] in
@[simp] theorem entries_filterKeys (d : OrderedDict κ ν) (p : κ → Bool) :
    (d.filterKeys p).entries = d.entries.filter fun e => p e.1 := rfl

theorem filterKeys_set_of_pos {d : OrderedDict κ ν} {p : κ → Bool} {k : κ} (v : ν) (h : p k = true) :
    (d.set k v).filterKeys p = (d.filterKeys p).set k v := by
  have hcon : (d.filterKeys p).contains k = d.contains k := by rw [contains, get?_filterKeys h, contains]
  refine ext ?_
  by_cases hk : d.contains k = true
  · rw [entries_filterKeys, entries_set_of_contains v hk, entries_set_of_contains v (hcon.trans hk), List.filter_map,
      entries_filterKeys]
    refine congrArg _ (List.filter_congr fun e _ => ?_)
    by_cases he : e.1 = k
    · simp [he]
    · simp [he]
  · rw [Bool.not_eq_true] at hk
    rw [entries_filterKeys, entries_set_of_new v hk, entries_set_of_new v (hcon.trans hk), List.filter_append]
    simp [h]

theorem filterKeys_set_of_neg {d : OrderedDict κ ν} {p : κ → Bool} {k : κ} (v : ν) (h : p k = false) :
    (d.set k v).filterKeys p = d.filterKeys p := by
  refine ext ?_
  cases hk : d.contains k with
  | true =>
    rw [entries_filterKeys, entries_set_of_contains v hk, List.filter_map]
    have hsame : ∀ e : κ × ν, p (if e.1 = k then (k, v) else e).1 = p e.1 := by
      intro e
      by_cases he : e.1 = k
      · simp [he]
      · simp [he]
    have hid : ∀ e ∈ d.entries.filter fun e => p e.1, (if e.1 = k then (k, v) else e) = e := by
      intro e he
      have hpe : p e.1 = true := (List.mem_filter.mp he).2
      have hne : e.1 ≠ k := fun hek => by rw [hek, h] at hpe; cases hpe
      simp [hne]
    rw [entries_filterKeys, show ((fun e : κ × ν => p e.1) ∘ fun e => if e.1 = k then (k, v) else e) = fun e => p e.1
      from funext hsame]
    exact (List.map_congr_left hid).trans (List.map_id _)
  | false =>
    rw [entries_filterKeys, entries_set_of_new v hk, List.filter_append]
    simp [h]

/-! ### Popping from the front -/

/-- Repeats `d.popitem(last=False)` as long as the first entry satisfies `p`. -/
def popWhile (d : OrderedDict κ ν) (p : κ × ν → Bool) : OrderedDict κ ν where
  entries := d.entries.dropWhile p
  nodup := List.Nodup.sublist ((List.dropWhile_sublist _).map _) d.nodup

/-- Where `p` holds of a front part only, dropping from the front removes exactly what satisfies `p`. -/
theorem dropWhile_eq_filter {α : Type} {p : α → Bool} {l : List α} (sorted : l.Pairwise fun a b => p b = true → p a = true) :
    l.dropWhile p = l.filter fun a => !p a := by
  induction l with
  | nil => rfl
  | cons a l ih =>
    rw [List.pairwise_cons] at sorted
    by_cases h : p a = true
    · rw [List.dropWhile_cons_of_pos h, List.filter_cons_of_neg (by simp [h]), ih sorted.2]
    · have hall : l.filter (fun a => !p a) = l := by
        rw [List.filter_eq_self]
        intro x hx
        simpa using fun hpx => h (sorted.1 x hx hpx)
      rw [List.dropWhile_cons_of_neg h, List.filter_cons_of_pos (by simp [h]), hall]

omit [DecidableEq κ] in
/-- On entries sorted so that `p` holds of a front part only, popping removes exactly what satisfies `p`. -/
theorem entries_popWhile {d : OrderedDict κ ν} {p : κ × ν → Bool}
    (sorted : d.entries.Pairwise fun a b => p b = true → p a = true) :
    (d.popWhile p).entries = d.entries.filter fun e => !p e :=
  dropWhile_eq_filter sorted

/-! ### From a list -/

theorem forall_set {d : OrderedDict κ ν} {k : κ} {v : ν} {p : κ × ν → Prop} (hd : ∀ e ∈ d.entries, p e) (hv : p (k, v)) :
    ∀ e ∈ (d.set k v).entries, p e := by
  intro e he
  cases hcontains : d.contains k with
  | true =>
    rw [entries_set_of_contains v hcontains, List.mem_map] at he
    obtain ⟨old, hold, rfl⟩ := he
    split
    · exact hv
    · exact hd old hold
  | false =>
    rw [entries_set_of_new v hcontains, List.mem_append, List.mem_singleton] at he
    rcases he with hold | rfl
    · exact hd e hold
    · exact hv

theorem forall_ofList {l : List (κ × ν)} {p : κ × ν → Prop} (hl : ∀ e ∈ l, p e) : ∀ e ∈ (ofList l).entries, p e := by
  suffices hfold : ∀ d : OrderedDict κ ν, (∀ e ∈ d.entries, p e) → ∀ e ∈ (l.foldl (fun d e => d.set e.1 e.2) d).entries, p e from
    hfold empty fun e he => by cases he
  induction l with
  | nil => exact fun d hd => hd
  | cons f l ih =>
    intro d hd
    exact ih (fun e he => hl e (List.mem_cons_of_mem f he)) _ (forall_set hd (hl f List.mem_cons_self))

theorem entries_ofList {l : List (κ × ν)} (h : (l.map Prod.fst).Nodup) : (ofList l).entries = l := by
  suffices hfold : ∀ (l : List (κ × ν)) (d : OrderedDict κ ν), ((d.entries ++ l).map Prod.fst).Nodup →
      (l.foldl (fun d e => d.set e.1 e.2) d).entries = d.entries ++ l from hfold l empty h
  intro l
  induction l with
  | nil => exact fun d _ => (List.append_nil _).symm
  | cons f l ih =>
    intro d hd
    have hnew : d.contains f.1 = false := by
      rw [Bool.eq_false_iff, Ne, contains_iff]
      intro hmem
      rw [List.map_append, List.nodup_append] at hd
      exact hd.2.2 f.1 hmem f.1 List.mem_cons_self rfl
    have hset : (d.set f.1 f.2).entries = d.entries ++ [f] := entries_set_of_new _ hnew
    rw [List.foldl_cons, ih, hset, List.append_assoc]
    · rfl
    · rw [hset, List.append_assoc]
      exact hd

end OrderedDict
