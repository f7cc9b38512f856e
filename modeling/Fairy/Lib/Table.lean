import Mathlib.Data.List.Nodup
import Mathlib.Data.List.Basic
import Mathlib.Algebra.GroupWithZero.Nat

namespace Fairy.Lib

universe u v

/-- A relational table: rows in insertion order, no two with the same primary
key, each meeting the table's check constraint. -/
structure Table (α : Type u) {κ : Type v} (key : α → κ) (check : α → Prop) where
  rows : List α
  nodup : (rows.map key).Nodup
  checked : ∀ a ∈ rows, check a

namespace Table

variable {α : Type u} {κ : Type v} {key : α → κ} {check : α → Prop}

/-- The check of a table without a check constraint. -/
instance unchecked : DecidablePred fun _ : α => True := fun _ => inferInstance

instance : Membership α (Table α key check) := ⟨fun t a => a ∈ t.rows⟩

theorem mem_iff {t : Table α key check} {a : α} : a ∈ t ↔ a ∈ t.rows := Iff.rfl

theorem eq_of_rows {t u : Table α key check} (h : t.rows = u.rows) : t = u := by
  cases t
  cases u
  cases h
  rfl

theorem check_of_mem {t : Table α key check} {a : α} (h : a ∈ t) : check a := t.checked a h

theorem eq_of_key {t : Table α key check} {a b : α} (ha : a ∈ t) (hb : b ∈ t)
    (h : key a = key b) : a = b :=
  List.inj_on_of_nodup_map t.nodup ha hb h

theorem mem_of_rows_map {t u : Table α key check} {f : α → α} (h : u.rows = t.rows.map f)
    {b : α} : b ∈ u ↔ ∃ a ∈ t, f a = b := by
  rw [mem_iff, h, List.mem_map]
  rfl

def empty : Table α key check := ⟨[], List.nodup_nil, by simp⟩

@[simp] theorem rows_empty : (empty : Table α key check).rows = [] := rfl

@[simp] theorem not_mem_empty (a : α) : a ∉ (empty : Table α key check) := List.not_mem_nil

section Update

variable {p : α → Prop} [DecidablePred p] {f : α → α}

theorem nodup_updated (t : Table α key check) (hk : ∀ a, key (f a) = key a) :
    ((t.rows.map fun a => if p a then f a else a).map key).Nodup := by
  have h : t.rows.map (key ∘ fun a => if p a then f a else a) = t.rows.map key := by
    refine List.map_congr_left fun a _ => ?_
    by_cases hp : p a <;> simp [hp, hk]
  rw [List.map_map, h]
  exact t.nodup

theorem checked_updated (t : Table α key check) (hc : ∀ a ∈ t.rows, p a → check (f a)) :
    ∀ b ∈ t.rows.map fun a => if p a then f a else a, check b := by
  intro b hb
  obtain ⟨a, ha, rfl⟩ := List.mem_map.mp hb
  by_cases hp : p a
  · simpa [hp] using hc a ha hp
  · simpa [hp] using t.checked a ha

variable (p f)

/-- `UPDATE ... SET f WHERE p`, for an assignment that keeps the primary key
and cannot break the check constraint. -/
def update (t : Table α key check) (hk : ∀ a, key (f a) = key a := by exact fun _ => rfl)
    (hc : ∀ a, p a → check a → check (f a) := by exact fun _ _ h => h) : Table α key check :=
  ⟨t.rows.map fun a => if p a then f a else a, t.nodup_updated hk,
    t.checked_updated fun a ha hp => hc a hp (t.checked a ha)⟩

/-- `UPDATE ... SET f WHERE p`, refused as a whole when an updated row would
break the check constraint. -/
def tryUpdate [DecidablePred check] (t : Table α key check)
    (hk : ∀ a, key (f a) = key a := by exact fun _ => rfl) : Option (Table α key check) :=
  if h : ∀ a ∈ t.rows, p a → check (f a) then
    some ⟨t.rows.map fun a => if p a then f a else a, t.nodup_updated hk, t.checked_updated h⟩
  else none

variable {p f} {hk : ∀ a, key (f a) = key a} {hc : ∀ a, p a → check a → check (f a)}
variable {t : Table α key check}

@[simp] theorem rows_update :
    (t.update p f hk hc).rows = t.rows.map fun a => if p a then f a else a := rfl

theorem mem_update {u : Table α key check}
    (h : u.rows = t.rows.map fun a => if p a then f a else a) {b : α} :
    b ∈ u ↔ ∃ a ∈ t, (if p a then f a else a) = b := mem_of_rows_map h

/-- An update that assigns what the rows have leaves the table as it is. -/
theorem update_eq_of_fixed (h : ∀ a ∈ t, p a → f a = a) : t.update p f hk hc = t := by
  refine eq_of_rows ?_
  conv_rhs => rw [← List.map_id t.rows]
  refine List.map_congr_left fun a ha => ?_
  by_cases hp : p a
  · simpa [hp] using h a ha hp
  · exact if_neg hp

theorem update_eq_self (h : ∀ a ∈ t, ¬ p a) : t.update p f hk hc = t :=
  update_eq_of_fixed fun a ha hp => absurd hp (h a ha)

theorem mem_update_of {u : Table α key check}
    (h : u.rows = t.rows.map fun a => if p a then f a else a) {a : α} (ha : a ∈ t) (hp : p a) :
    f a ∈ u := (mem_update h).mpr ⟨a, ha, if_pos hp⟩

theorem mem_update_of_not {u : Table α key check}
    (h : u.rows = t.rows.map fun a => if p a then f a else a) {a : α} (ha : a ∈ t) (hp : ¬ p a) :
    a ∈ u := (mem_update h).mpr ⟨a, ha, if_neg hp⟩

/-- A row of the updated table is an updated row or an untouched one. -/
theorem update_cases {u : Table α key check}
    (h : u.rows = t.rows.map fun a => if p a then f a else a) {b : α} (hb : b ∈ u) :
    (∃ a ∈ t, p a ∧ b = f a) ∨ (b ∈ t ∧ ¬ p b) := by
  obtain ⟨a, ha, rfl⟩ := (mem_update h).mp hb
  by_cases hp : p a
  · exact .inl ⟨a, ha, hp, if_pos hp⟩
  · rw [if_neg hp]
    exact .inr ⟨ha, hp⟩

/-- An update keeps every primary key. -/
theorem key_mem_update {u : Table α key check}
    (h : u.rows = t.rows.map fun a => if p a then f a else a) (hk : ∀ a, key (f a) = key a) {a : α}
    (ha : a ∈ t) : ∃ b ∈ u, key b = key a := by
  by_cases hp : p a
  · exact ⟨f a, mem_update_of h ha hp, hk a⟩
  · exact ⟨a, mem_update_of_not h ha hp, rfl⟩

/-- An update that keeps to rows without `q` leaves the rows with `q` alone. -/
theorem mem_update_other {u : Table α key check} {q : α → Prop}
    (h : u.rows = t.rows.map fun a => if p a then f a else a)
    (hq : ∀ a ∈ t, p a → ¬ q a ∧ ¬ q (f a)) {b : α} (hb : q b) : b ∈ u ↔ b ∈ t := by
  constructor
  · intro hm
    obtain ⟨a, ha, hp, rfl⟩ | ⟨hm, _⟩ := update_cases h hm
    · exact absurd hb (hq a ha hp).2
    · exact hm
  · intro hm
    exact mem_update_of_not h hm fun hp => (hq b hm hp).1 hb

theorem tryUpdate_eq_some [DecidablePred check] {u : Table α key check}
    (h : t.tryUpdate p f hk = some u) :
    (u.rows = t.rows.map fun a => if p a then f a else a) ∧
      ∀ a ∈ t, p a → check (f a) := by
  unfold tryUpdate at h
  split at h
  · cases h
    exact ⟨rfl, ‹_›⟩
  · cases h

theorem tryUpdate_eq_none [DecidablePred check] :
    t.tryUpdate p f hk = none ↔ ∃ a ∈ t, p a ∧ ¬ check (f a) := by
  unfold tryUpdate
  split
  · rename_i h
    simpa [mem_iff] using h
  · rename_i h
    simpa [mem_iff] using h

end Update

section Insert

variable [DecidableEq κ] [DecidablePred check]

/-- `INSERT` of several rows at once, refused as a whole when a primary key is
already taken or a row breaks the check constraint. -/
def insertAll (t : Table α key check) (l : List α) : Option (Table α key check) :=
  if h : ((t.rows ++ l).map key).Nodup ∧ ∀ a ∈ l, check a then
    some ⟨t.rows ++ l, h.1, fun a ha =>
      (List.mem_append.mp ha).elim (t.checked a) (h.2 a)⟩
  else none

theorem insertAll_eq_some {t u : Table α key check} {l : List α}
    (h : t.insertAll l = some u) :
    u.rows = t.rows ++ l ∧ (l.map key).Nodup ∧ (∀ a ∈ l, check a) ∧
      ∀ a ∈ l, ∀ b ∈ t, key b ≠ key a := by
  unfold insertAll at h
  split at h
  · rename_i hg
    cases h
    rw [List.map_append, List.nodup_append'] at hg
    refine ⟨rfl, hg.1.2.1, hg.2, fun a ha b hb he => ?_⟩
    exact hg.1.2.2 (List.mem_map_of_mem (f := key) hb) (he ▸ List.mem_map_of_mem (f := key) ha)
  · cases h

theorem insertAll_isSome {t : Table α key check} {l : List α} (hn : (l.map key).Nodup)
    (hc : ∀ a ∈ l, check a) (hf : ∀ a ∈ l, ∀ b ∈ t, key b ≠ key a) :
    ∃ u, t.insertAll l = some u := by
  have hd : List.Disjoint (t.rows.map key) (l.map key) := by
    intro k hk hl
    obtain ⟨b, hb, rfl⟩ := List.mem_map.mp hk
    obtain ⟨a, ha, he⟩ := List.mem_map.mp hl
    exact hf a ha b hb he.symm
  have h : ((t.rows ++ l).map key).Nodup ∧ ∀ a ∈ l, check a := by
    rw [List.map_append, List.nodup_append']
    exact ⟨⟨t.nodup, hn, hd⟩, hc⟩
  exact ⟨_, by rw [insertAll, dif_pos h]⟩

omit [DecidableEq κ] [DecidablePred check] in
theorem mem_of_rows_append {t u : Table α key check} {l : List α} (h : u.rows = t.rows ++ l)
    {a : α} : a ∈ u ↔ a ∈ t ∨ a ∈ l := by
  rw [mem_iff, h, List.mem_append, mem_iff]

/-- `INSERT ... ON CONFLICT DO NOTHING` of one row. -/
def insertOrIgnore (t : Table α key check) (a : α) : Table α key check :=
  (t.insertAll [a]).getD t

theorem insertOrIgnore_cases (t : Table α key check) (a : α) :
    t.insertOrIgnore a = t ∨ (t.insertOrIgnore a).rows = t.rows ++ [a] := by
  unfold insertOrIgnore
  cases h : t.insertAll [a] with
  | none => exact .inl rfl
  | some u => exact .inr (insertAll_eq_some h).1

theorem subset_insertOrIgnore {t : Table α key check} {a b : α} (h : b ∈ t) :
    b ∈ t.insertOrIgnore a := by
  obtain he | hrows := t.insertOrIgnore_cases a
  · rwa [he]
  · rw [mem_iff, hrows]
    exact List.mem_append_left _ h

theorem insertOrIgnore_of_key {t : Table α key check} {a b : α} (hb : b ∈ t)
    (hk : key b = key a) : t.insertOrIgnore a = t := by
  unfold insertOrIgnore
  cases h : t.insertAll [a] with
  | none => rfl
  | some u => exact absurd hk ((insertAll_eq_some h).2.2.2 a List.mem_cons_self b hb)

theorem insertOrIgnore_of_fresh {t : Table α key check} {a : α} (hc : check a)
    (hf : ∀ b ∈ t, key b ≠ key a) : (t.insertOrIgnore a).rows = t.rows ++ [a] := by
  obtain ⟨u, hu⟩ := insertAll_isSome (t := t) (l := [a]) (by simp) (by simpa using hc)
    (by simpa using hf)
  rw [insertOrIgnore, hu]
  exact (insertAll_eq_some hu).1

/-- After it, some row has the primary key of the row. -/
theorem key_mem_insertOrIgnore {t : Table α key check} {a : α} (hc : check a) :
    ∃ b ∈ t.insertOrIgnore a, key b = key a := by
  by_cases h : ∃ b ∈ t, key b = key a
  · obtain ⟨b, hb, hk⟩ := h
    exact ⟨b, subset_insertOrIgnore hb, hk⟩
  · push Not at h
    refine ⟨a, ?_, rfl⟩
    rw [mem_iff, insertOrIgnore_of_fresh hc h]
    exact List.mem_append_right _ List.mem_cons_self

section Upsert

variable {a b : α}

omit [DecidablePred check] in
theorem nodup_upsert (t : Table α key check) (a : α) :
    ((if t.rows.any fun b => key b = key a then
        t.rows.map fun b => if key b = key a then a else b
      else t.rows ++ [a]).map key).Nodup := by
  split
  · have h : t.rows.map (key ∘ fun b => if key b = key a then a else b) = t.rows.map key := by
      refine List.map_congr_left fun b _ => ?_
      by_cases hk : key b = key a <;> simp [hk]
    rw [List.map_map, h]
    exact t.nodup
  · rename_i h
    rw [List.map_append, List.nodup_append']
    refine ⟨t.nodup, by simp, fun k hk hk' => ?_⟩
    obtain ⟨b, hb, rfl⟩ := List.mem_map.mp hk
    exact h (List.any_eq_true.mpr ⟨b, hb, by simpa using hk'⟩)

/-- `INSERT ... ON CONFLICT DO UPDATE`: the row takes the place of the one with its primary
key, or is a new one. -/
def upsert (t : Table α key check) (a : α) (hc : check a) : Table α key check where
  rows := if t.rows.any fun b => key b = key a then
      t.rows.map fun b => if key b = key a then a else b
    else t.rows ++ [a]
  nodup := t.nodup_upsert a
  checked := by
    intro b hb
    split at hb
    · obtain ⟨c, hm, rfl⟩ := List.mem_map.mp hb
      by_cases hk : key c = key a
      · simpa only [if_pos hk] using hc
      · simpa only [if_neg hk] using t.checked c hm
    · obtain hb | hb := List.mem_append.mp hb
      · exact t.checked b hb
      · rwa [List.mem_singleton.mp hb]

omit [DecidablePred check] in
theorem rows_upsert_of_fresh {t : Table α key check} {hc : check a}
    (hf : ∀ b ∈ t, key b ≠ key a) : (t.upsert a hc).rows = t.rows ++ [a] := by
  have hany : ¬ (t.rows.any fun b => key b = key a) := by
    intro h
    obtain ⟨b, hb, hk⟩ := List.any_eq_true.mp h
    exact hf b hb (by simpa using hk)
  exact if_neg hany

omit [DecidablePred check] in
@[simp] theorem mem_upsert {t : Table α key check} {hc : check a} :
    b ∈ t.upsert a hc ↔ b = a ∨ b ∈ t ∧ key b ≠ key a := by
  by_cases hany : t.rows.any fun b => key b = key a
  · have hrows : (t.upsert a hc).rows = t.rows.map fun b => if key b = key a then a else b :=
      if_pos hany
    obtain ⟨c, hmem, hk⟩ := List.any_eq_true.mp hany
    have hk : key c = key a := by simpa using hk
    rw [mem_update hrows]
    constructor
    · rintro ⟨d, hd, rfl⟩
      by_cases hd' : key d = key a
      · exact .inl (if_pos hd')
      · rw [if_neg hd']
        exact .inr ⟨hd, hd'⟩
    · rintro (rfl | ⟨hb, hne⟩)
      · exact ⟨c, hmem, if_pos hk⟩
      · exact ⟨b, hb, if_neg hne⟩
  · have hfresh : ∀ b ∈ t, key b ≠ key a := fun b hb hk =>
      hany (List.any_eq_true.mpr ⟨b, hb, by simpa using hk⟩)
    rw [mem_of_rows_append (rows_upsert_of_fresh hfresh), List.mem_singleton, or_comm]
    exact or_congr_right (iff_self_and.mpr (hfresh b))

end Upsert

section InsertUnless

/-- `INSERT ... ON CONFLICT DO NOTHING` of one row into a table with more unique columns than
the primary key: `clash` singles out the rows that share one of them with the new row. -/
def insertUnless (t : Table α key check) (clash : α → Prop) [DecidablePred clash] (a : α)
    (hk : ∀ b, key b = key a → clash b) (hc : check a) : Table α key check :=
  if h : ∃ b ∈ t.rows, clash b then t
  else
    { rows := t.rows ++ [a]
      nodup := by
        rw [List.map_append, List.nodup_append']
        refine ⟨t.nodup, by simp, fun k hm hk' => h ?_⟩
        obtain ⟨b, hb, rfl⟩ := List.mem_map.mp hm
        exact ⟨b, hb, hk b (by simpa using hk')⟩
      checked := by
        intro b hb
        obtain hb | hb := List.mem_append.mp hb
        · exact t.checked b hb
        · rwa [List.mem_singleton.mp hb] }

omit [DecidableEq κ] [DecidablePred check] in
theorem insertUnless_cases (t : Table α key check) (clash : α → Prop) [DecidablePred clash]
    (a : α) (hk : ∀ b, key b = key a → clash b) (hc : check a) :
    ((∃ b ∈ t, clash b) ∧ t.insertUnless clash a hk hc = t) ∨
      (∀ b ∈ t, ¬ clash b) ∧ (t.insertUnless clash a hk hc).rows = t.rows ++ [a] := by
  simp only [insertUnless]
  split
  · rename_i h
    exact .inl ⟨h, rfl⟩
  · rename_i h
    exact .inr ⟨fun b hb hclash => h ⟨b, hb, hclash⟩, rfl⟩

end InsertUnless

end Insert

section Delete

variable (p : α → Prop) [DecidablePred p]

/-- `DELETE ... WHERE p`. -/
def delete (t : Table α key check) : Table α key check where
  rows := t.rows.filter fun a => ¬ p a
  nodup := t.nodup.sublist (List.filter_sublist.map key)
  checked a ha := t.checked a (List.mem_of_mem_filter ha)

variable {p} in
theorem mem_delete {t : Table α key check} {a : α} : a ∈ t.delete p ↔ a ∈ t ∧ ¬ p a := by
  simp [delete, mem_iff]

variable {p} in
theorem delete_eq_self {t : Table α key check} (h : ∀ a ∈ t, ¬ p a) : t.delete p = t :=
  eq_of_rows (List.filter_eq_self.mpr fun a ha => by simpa using h a ha)

theorem delete_sublist (t : Table α key check) : (t.delete p).rows.Sublist t.rows :=
  List.filter_sublist

end Delete

section Select

/-- `SELECT ... WHERE p`. -/
def select (t : Table α key check) (p : α → Prop) [DecidablePred p] : List α :=
  t.rows.filter p

@[simp] theorem mem_select {t : Table α key check} {p : α → Prop} [DecidablePred p] {a : α} :
    a ∈ t.select p ↔ a ∈ t ∧ p a := by simp [select, mem_iff]

theorem select_eq_nil {t : Table α key check} {p : α → Prop} [DecidablePred p]
    (h : ∀ a ∈ t, ¬ p a) : t.select p = [] :=
  List.filter_eq_nil_iff.mpr fun a ha => by simpa using h a ha

/-- A predicate that singles out a row selects that row alone. -/
theorem select_eq_singleton [DecidableEq α] {t : Table α key check} {p : α → Prop}
    [DecidablePred p] {a : α} (ha : a ∈ t) (hp : ∀ b ∈ t, p b ↔ b = a) : t.select p = [a] := by
  have hc : t.rows.count a = 1 := List.count_eq_one_of_mem (List.Nodup.of_map key t.nodup) ha
  have he : t.select p = t.rows.filter (· == a) :=
    List.filter_congr fun b hb => by simp [hp b hb, beq_eq_decide]
  rw [he, List.filter_beq, hc]
  rfl

/-- `SELECT ... WHERE p` read with `one_or_none`, for a predicate that fixes the
primary key. -/
def oneOrNone (t : Table α key check) (p : α → Prop) [DecidablePred p] : Option α :=
  t.rows.find? p

theorem oneOrNone_eq_some {t : Table α key check} {p : α → Prop} [DecidablePred p] {a : α}
    (h : t.oneOrNone p = some a) : a ∈ t ∧ p a :=
  ⟨List.mem_of_find?_eq_some h, by simpa using List.find?_some h⟩

@[simp] theorem oneOrNone_eq_none {t : Table α key check} {p : α → Prop} [DecidablePred p] :
    t.oneOrNone p = none ↔ ∀ a ∈ t, ¬ p a := by
  simp [oneOrNone, mem_iff]

/-- A predicate that singles out a key finds the row of that key. -/
theorem oneOrNone_of_key {t : Table α key check} {p : α → Prop} [DecidablePred p] {a : α}
    (ha : a ∈ t) (hp : p a) (hs : ∀ b ∈ t, p b → key b = key a) : t.oneOrNone p = some a := by
  cases h : t.oneOrNone p with
  | none => exact absurd hp (oneOrNone_eq_none.mp h a ha)
  | some b =>
    obtain ⟨hb, hpb⟩ := oneOrNone_eq_some h
    rw [eq_of_key hb ha (hs b hb hpb)]

/-- The row with a given primary key. -/
def find? [DecidableEq κ] (t : Table α key check) (k : κ) : Option α :=
  t.oneOrNone fun a => key a = k

theorem find?_eq_some [DecidableEq κ] {t : Table α key check} {k : κ} {a : α} :
    t.find? k = some a ↔ a ∈ t ∧ key a = k := by
  constructor
  · exact oneOrNone_eq_some
  · rintro ⟨ha, rfl⟩
    exact oneOrNone_of_key ha rfl fun b _ hb => hb

theorem find?_key [DecidableEq κ] {t : Table α key check} {a : α} (h : a ∈ t) :
    t.find? (key a) = some a := find?_eq_some.mpr ⟨h, rfl⟩

theorem find?_upsert [DecidableEq κ] {t : Table α key check} {a : α} {hc : check a} :
    (t.upsert a hc).find? (key a) = some a := find?_key (mem_upsert.mpr (.inl rfl))

theorem find?_eq_none [DecidableEq κ] {t : Table α key check} {k : κ} :
    t.find? k = none ↔ ∀ a ∈ t, key a ≠ k := oneOrNone_eq_none

end Select

section Replace

/-- The second table is the first with one row replaced. -/
def Replaces (t u : Table α key check) (a b : α) : Prop :=
  a ∈ t ∧ key b = key a ∧ ∀ x, x ∈ u ↔ x = b ∨ x ∈ t ∧ key x ≠ key a

variable {t u : Table α key check} {a b x : α}

theorem Replaces.mem (h : Replaces t u a b) : b ∈ u := (h.2.2 b).mpr (.inl rfl)

/-- A row of the new table is the new row or a row of the old table. -/
theorem Replaces.cases (h : Replaces t u a b) (hx : x ∈ u) : x = b ∨ x ∈ t ∧ key x ≠ key a :=
  (h.2.2 x).mp hx

theorem Replaces.mem_other (h : Replaces t u a b) (hx : x ∈ t) (hk : key x ≠ key a) : x ∈ u :=
  (h.2.2 x).mpr (.inr ⟨hx, hk⟩)

theorem Replaces.key_mem (h : Replaces t u a b) (hx : x ∈ t) : ∃ y ∈ u, key y = key x := by
  by_cases hk : key x = key a
  · exact ⟨b, h.mem, h.2.1.trans hk.symm⟩
  · exact ⟨x, h.mem_other hx hk, rfl⟩

theorem Replaces.trans {v : Table α key check} {c : α} (h : Replaces t u a b)
    (h' : Replaces u v b c) : Replaces t v a c := by
  refine ⟨h.1, h'.2.1.trans h.2.1, fun x => ?_⟩
  rw [h'.2.2, h.2.2, h.2.1]
  constructor
  · rintro (hx | ⟨hx | hx, hne⟩)
    · exact .inl hx
    · exact absurd (hx ▸ h.2.1) hne
    · exact .inr hx
  · rintro (hx | hx)
    · exact .inl hx
    · exact .inr ⟨.inr hx, hx.2⟩

/-- A row that the old table has under the key of the new row is the one replaced. -/
theorem Replaces.eq_of_key (h : Replaces t u a b) (hx : x ∈ t) (hk : key x = key b) : x = a :=
  Table.eq_of_key hx h.1 (hk.trans h.2.1)

theorem replaces_self (h : a ∈ t) : Replaces t t a a := by
  refine ⟨h, rfl, fun x => ⟨fun hx => ?_, fun hx => hx.elim (fun he => he ▸ h) And.left⟩⟩
  by_cases hk : key x = key a
  · exact .inl (Table.eq_of_key hx h hk)
  · exact .inr ⟨hx, hk⟩

/-- An update whose predicate meets one row replaces that row. -/
theorem replaces_update {p : α → Prop} [DecidablePred p] {f : α → α}
    (h : u.rows = t.rows.map fun a => if p a then f a else a) (ha : a ∈ t) (hp : p a)
    (hs : ∀ b ∈ t, p b → key b = key a) (hk : key (f a) = key a) : Replaces t u a (f a) := by
  refine ⟨ha, hk, fun x => ⟨fun hx => ?_, fun hx => ?_⟩⟩
  · obtain ⟨c, hc, hpc, rfl⟩ | ⟨hx, hpx⟩ := update_cases h hx
    · rw [Table.eq_of_key hc ha (hs c hc hpc)]
      exact .inl rfl
    · refine .inr ⟨hx, fun he => hpx ?_⟩
      rwa [Table.eq_of_key hx ha he]
  · obtain rfl | ⟨hx, hne⟩ := hx
    · exact mem_update_of h ha hp
    · exact mem_update_of_not h hx fun hpx => hne (hs x hx hpx)

/-- Each row of the second table is kept from the first or is a new one. -/
def Descends (kept : α → α → Prop) (new : α → Prop) (t u : Table α key check) : Prop :=
  ∀ b ∈ u, (∃ a ∈ t, kept a b) ∨ new b

namespace Descends

variable {kept : α → α → Prop} {new : α → Prop}

theorem of_subset (hrefl : ∀ a, kept a a) (h : ∀ a ∈ u, a ∈ t) : Descends kept new t u :=
  fun a ha => .inl ⟨a, h a ha, hrefl a⟩

theorem of_eq (hrefl : ∀ a, kept a a) (h : u = t) : Descends kept new t u :=
  of_subset hrefl fun _ ha => h ▸ ha

theorem of_map {f : α → α} (hf : ∀ a, kept a (f a)) (h : u.rows = t.rows.map f) :
    Descends kept new t u := by
  intro b hb
  obtain ⟨a, ha, rfl⟩ := (mem_of_rows_map h).mp hb
  exact .inl ⟨a, ha, hf a⟩

theorem of_replaces (hrefl : ∀ a, kept a a) (hkept : kept a b) (h : Replaces t u a b) :
    Descends kept new t u := by
  intro x hx
  obtain rfl | ⟨hx, _⟩ := h.cases hx
  · exact .inl ⟨a, h.1, hkept⟩
  · exact .inl ⟨x, hx, hrefl x⟩

theorem of_append (hrefl : ∀ a, kept a a) (hnew : new b) (h : u.rows = t.rows ++ [b]) :
    Descends kept new t u := by
  intro x hx
  obtain hx | hx := (mem_of_rows_append h).mp hx
  · exact .inl ⟨x, hx, hrefl x⟩
  · exact .inr (List.mem_singleton.mp hx ▸ hnew)

/-- What the new rows have and the kept ones keep, all rows have. -/
theorem forall_mem {I : α → Prop} (h : Descends kept new t u) (ht : ∀ a ∈ t, I a)
    (hkept : ∀ a b, kept a b → I a → I b) (hnew : ∀ b, new b → I b) : ∀ b ∈ u, I b := by
  intro b hb
  obtain ⟨a, ha, hab⟩ | hb := h b hb
  · exact hkept a b hab (ht a ha)
  · exact hnew b hb

end Descends

/-- What an update of one row does to a sum over the rows. -/
theorem sum_update {p : α → Prop} [DecidablePred p] {f : α → α} (w : α → Nat)
    (h : u.rows = t.rows.map fun a => if p a then f a else a) (ha : a ∈ t) (hp : p a)
    (hs : ∀ b ∈ t, p b → key b = key a) :
    (u.rows.map w).sum + w a = (t.rows.map w).sum + w (f a) := by
  obtain ⟨l, r, hsplit⟩ := List.append_of_mem (mem_iff.mp ha)
  have hother : ∀ b ∈ l ++ r, ¬ p b := by
    intro b hb hpb
    have hd := t.nodup
    rw [hsplit, List.map_append, List.map_cons, List.nodup_middle, List.nodup_cons] at hd
    have hm : b ∈ t := by
      rw [mem_iff, hsplit]
      obtain hb | hb := List.mem_append.mp hb
      · exact List.mem_append_left _ hb
      · exact List.mem_append_right _ (List.mem_cons_of_mem _ hb)
    refine hd.1 ?_
    rw [← hs b hm hpb, ← List.map_append]
    exact List.mem_map_of_mem hb
  have hkeep : ∀ m : List α, (∀ b ∈ m, ¬ p b) → (m.map fun a => if p a then f a else a) = m := by
    intro m hm
    conv_rhs => rw [← List.map_id m]
    exact List.map_congr_left fun b hb => if_neg (hm b hb)
  rw [h, hsplit, List.map_append, List.map_cons, if_pos hp,
    hkeep l fun b hb => hother b (List.mem_append_left _ hb),
    hkeep r fun b hb => hother b (List.mem_append_right _ hb)]
  simp only [List.map_append, List.map_cons, List.sum_append, List.sum_cons]
  omega

end Replace

end Table

end Fairy.Lib
