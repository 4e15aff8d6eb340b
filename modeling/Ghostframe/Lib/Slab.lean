import Mathlib

/-!
# A slab with versioned handles

Values live in the cells of a growing list; a handle names a cell and the version it
had when the value was stored. Storing and removing both advance the version. No
index of the free list is listed twice, and each names an empty cell.

* `get_insert`, `get_modify`, `get_remove`, `get_clear`: seen through `get`, the
  slab is a finite map whose operations touch one handle each;
* `get_insert_fresh`: the handle `insert` returns did not resolve before;
* `count`: how many stored values have a property, and how each operation moves it.

Versions are 32 bits and wrap: a handle kept through `2 ^ 31` reuses of its cell
resolves again. Nothing here assumes otherwise; `Aged` and `Issued` say what holds
until then, that a stored value never gets a handle handed out before.
-/

namespace Ghostframe

open List Option

/-- A reference to a cell, and the version the cell had when it was filled. -/
structure Handle where
  index : ℕ
  version : UInt32
  deriving DecidableEq

/-- One cell. -/
structure SlabEntry (α : Type*) where
  version : UInt32
  value : Option α

/-- The cells and the stack of vacant ones (head = top). -/
structure Slab (α : Type*) where
  entries : List (SlabEntry α)
  free : List ℕ
  vacant : ∀ i ∈ free, ∃ v, entries[i]? = some ⟨v, none⟩
  nodup : free.Nodup

namespace Slab

variable {α : Type*} {s : Slab α} {h k : Handle} {a b : α}

/-- A slab without cells. -/
def new : Slab α := ⟨[], [], by simp, List.nodup_nil⟩

/-- The cell a handle names, if its version is still the handle's. -/
def entry (s : Slab α) (h : Handle) : Option (SlabEntry α) :=
  s.entries[h.index]?.filter fun e => e.version = h.version

/-- The value a handle resolves to. -/
def get (s : Slab α) (h : Handle) : Option α := (s.entry h).bind SlabEntry.value

theorem get_eq_some_iff : s.get h = some a ↔ s.entries[h.index]? = some ⟨h.version, some a⟩ := by
  unfold get entry
  cases hi : s.entries[h.index]? with
  | none => simp
  | some e =>
    obtain ⟨v, x⟩ := e
    by_cases hv : v = h.version <;> simp [filter_some, hv]

variable {v : UInt32} {n i : ℕ} {t : Slab α} {e : SlabEntry α}

theorem get_of_cell {x : Option α} (hc : s.entries[k.index]? = some ⟨v, x⟩) :
    s.get k = if v = k.version then x else none := by
  by_cases hv : v = k.version <;> simp [get, entry, hc, filter_some, hv]

theorem get_of_vacant (hc : s.entries[k.index]? = some ⟨v, none⟩) : s.get k = none := by
  rw [get_of_cell hc, ite_self]

theorem version_ne (hk : k ≠ h) (hi : k.index = h.index) : h.version ≠ k.version := by
  intro hv
  exact hk (by cases k; cases h; simp_all)

/-- The version of a cell. -/
def versionAt (s : Slab α) (i : ℕ) : UInt32 := (s.entries[i]?.map SlabEntry.version).getD 0

theorem get_set_ne {es : List (SlabEntry α)} (ht : t.entries = es.set i e) (hs : s.entries = es)
    (hi : k.index ≠ i) : t.get k = s.get k := by
  unfold get entry
  rw [ht, hs, getElem?_set_ne (Ne.symm hi)]

/-- Writing the cell of a live handle; `y` is what the handle then resolves to. -/
theorem get_set_own {x y : Option α} {a : α} (ht : t.entries = s.entries.set h.index ⟨v, x⟩)
    (hg : s.get h = some a) (hx : ∀ k' : Handle, k'.index = h.index →
      (if v = k'.version then x else none) = if k' = h then y else none) (k : Handle) :
    t.get k = if k = h then y else s.get k := by
  have hcell := get_eq_some_iff.1 hg
  by_cases hi : k.index = h.index
  · have hset : t.entries[k.index]? = some ⟨v, x⟩ := by
      rw [ht, hi]
      exact getElem?_set_self (List.getElem?_eq_some_iff.1 hcell).1
    rw [get_of_cell hset, hx k hi]
    by_cases hk : k = h
    · rw [if_pos hk, if_pos hk]
    · -- same cell, other version: neither slab resolves it
      rw [if_neg hk, if_neg hk, get_of_cell (hi ▸ hcell), if_neg (version_ne hk hi)]
  · rw [if_neg fun hk => hi (congrArg Handle.index hk)]
    exact get_set_ne ht rfl hi

/-! ### Storing -/

/-- Store in the vacant cell on top of the stack. -/
def reuse (s : Slab α) (i : ℕ) (rest : List ℕ) (hf : s.free = i :: rest) (a : α) : Slab α where
  entries := s.entries.set i ⟨s.versionAt i + 1, some a⟩
  free := rest
  vacant := by
    intro j hj
    have hnd : i ∉ rest := (List.nodup_cons.1 (hf ▸ s.nodup)).1
    obtain ⟨v, hv⟩ := s.vacant j (hf ▸ List.mem_cons_of_mem i hj)
    refine ⟨v, ?_⟩
    rw [List.getElem?_set_ne ?_, hv]
    rintro rfl
    exact hnd hj
  nodup := (List.nodup_cons.1 (hf ▸ s.nodup)).2

/-- Store in a cell of its own. -/
def push (s : Slab α) (a : α) : Slab α where
  entries := s.entries ++ [⟨1, some a⟩]
  free := s.free
  vacant := by
    intro j hj
    obtain ⟨v, hv⟩ := s.vacant j hj
    exact ⟨v, by rw [List.getElem?_append_left (List.getElem?_eq_some_iff.1 hv).1, hv]⟩
  nodup := s.nodup

/-- Store a value: in the cell vacated last, or in a new one. -/
def insert (s : Slab α) (a : α) : Slab α × Handle :=
  match hf : s.free with
  | i :: rest => (s.reuse i rest hf a, ⟨i, s.versionAt i + 1⟩)
  | [] => (s.push a, ⟨s.entries.length, 1⟩)

theorem insert_cases (s : Slab α) (a : α) :
    (∃ (i : ℕ) (rest : List ℕ) (hf : s.free = i :: rest),
        s.insert a = (s.reuse i rest hf a, ⟨i, s.versionAt i + 1⟩)) ∨
      s.insert a = (s.push a, ⟨s.entries.length, 1⟩) := by
  unfold insert
  split
  · rename_i i rest hf
    exact .inl ⟨i, rest, hf, rfl⟩
  · exact .inr rfl

/-- The handle `insert` returns did not resolve before. -/
theorem get_insert_fresh (s : Slab α) (a : α) : s.get (s.insert a).2 = none := by
  rcases insert_cases s a with ⟨i, rest, hf, he⟩ | he
  · obtain ⟨v, hv⟩ := s.vacant i (hf ▸ mem_cons_self)
    rw [he]
    exact get_of_vacant hv
  · rw [he]
    simp [get, entry]

/-- **Storing binds one fresh handle and leaves every other as it was.** -/
theorem get_insert (s : Slab α) (a : α) (k : Handle) :
    (s.insert a).1.get k = if k = (s.insert a).2 then some a else s.get k := by
  by_cases hk : k = (s.insert a).2
  · rw [if_pos hk, hk, get_eq_some_iff]
    rcases insert_cases s a with ⟨i, rest, hf, he⟩ | he
    · obtain ⟨v, hv⟩ := s.vacant i (hf ▸ mem_cons_self)
      rw [he]
      exact List.getElem?_set_self (List.getElem?_eq_some_iff.1 hv).1
    · rw [he]
      simp [push]
  · rw [if_neg hk]
    rcases insert_cases s a with ⟨i, rest, hf, he⟩ | he
    · obtain ⟨v, hv⟩ := s.vacant i (hf ▸ mem_cons_self)
      rw [he] at hk ⊢
      by_cases hi : k.index = i
      · -- the cell was vacant, and now has a version the handle does not name
        have hlt := (List.getElem?_eq_some_iff.1 hv).1
        have hcell :
            (s.reuse i rest hf a).entries[k.index]? = some ⟨s.versionAt i + 1, some a⟩ := by
          rw [hi]
          exact getElem?_set_self hlt
        rw [get_of_cell hcell, if_neg (version_ne hk hi), get_of_vacant (hi ▸ hv)]
      · exact get_set_ne rfl rfl hi
    · rw [he] at hk ⊢
      rcases lt_trichotomy k.index s.entries.length with hlt | heq | hgt
      · have hcell : (s.push a).entries[k.index]? = s.entries[k.index]? :=
          getElem?_append_left hlt
        unfold get entry
        rw [hcell]
      · have hcell : (s.push a).entries[k.index]? = some ⟨1, some a⟩ := by
          rw [heq]
          exact getElem?_concat_length
        rw [get_of_cell hcell, if_neg (version_ne hk heq)]
        simp [get, entry, heq]
      · have h1 : s.entries[k.index]? = none := getElem?_eq_none (by omega)
        have h2 : (s.push a).entries[k.index]? = none :=
          getElem?_eq_none (by simp [push]; omega)
        unfold get entry
        rw [h1, h2]

/-! ### Changing a value in place -/

/-- Apply `f` to the value of a handle, if it resolves (`get_mut`). -/
def modify (s : Slab α) (h : Handle) (f : α → α) : Slab α :=
  match hg : s.get h with
  | none => s
  | some a =>
    { entries := s.entries.set h.index ⟨h.version, some (f a)⟩
      free := s.free
      vacant := by
        intro j hj
        obtain ⟨v, hv⟩ := s.vacant j hj
        refine ⟨v, ?_⟩
        rw [List.getElem?_set_ne ?_, hv]
        rintro rfl
        rw [get_eq_some_iff.1 hg] at hv
        cases hv
      nodup := s.nodup }

/-- **Changing a value in place touches one handle.** -/
theorem get_modify (s : Slab α) (h : Handle) (f : α → α) (k : Handle) :
    (s.modify h f).get k = if k = h then (s.get h).map f else s.get k := by
  unfold modify
  split
  · rename_i hg
    by_cases hk : k = h
    · rw [if_pos hk, hk, hg, map_none]
    · rw [if_neg hk]
  · rename_i a hg
    refine get_set_own rfl hg (fun k' hi => ?_) k
    by_cases hk : k' = h
    · simp [hk, hg]
    · rw [if_neg hk, if_neg (version_ne hk hi)]

/-! ### Removing -/

/-- Empty the cell of a handle, if it resolves, and stack it for reuse. -/
def remove (s : Slab α) (h : Handle) : Slab α :=
  match hg : s.get h with
  | none => s
  | some _ =>
    { entries := s.entries.set h.index ⟨h.version + 1, none⟩
      free := h.index :: s.free
      vacant := by
        have hlt := (List.getElem?_eq_some_iff.1 (get_eq_some_iff.1 hg)).1
        intro j hj
        by_cases hji : j = h.index
        · subst hji
          exact ⟨_, List.getElem?_set_self hlt⟩
        · obtain ⟨v, hv⟩ := s.vacant j ((List.mem_cons.1 hj).resolve_left hji)
          exact ⟨v, by rw [List.getElem?_set_ne (Ne.symm hji), hv]⟩
      nodup := by
        refine List.nodup_cons.2 ⟨?_, s.nodup⟩
        intro hmem
        obtain ⟨v, hv⟩ := s.vacant _ hmem
        rw [get_eq_some_iff.1 hg] at hv
        cases hv }

/-- **Removing unbinds one handle and leaves every other as it was.** -/
theorem get_remove (s : Slab α) (h k : Handle) :
    (s.remove h).get k = if k = h then none else s.get k := by
  unfold remove
  split
  · rename_i hg
    by_cases hk : k = h
    · rw [if_pos hk, hk, hg]
    · rw [if_neg hk]
  · rename_i a hg
    exact get_set_own rfl hg (fun k' _ => by simp) k

theorem remove_of_none (hg : s.get h = none) : s.remove h = s := by
  unfold remove
  split
  · rfl
  · rename_i a ha
    rw [hg] at ha
    cases ha

/-! ### Emptying -/

/-- Empty every cell, in index order. -/
def clear (s : Slab α) : Slab α :=
  (List.range s.entries.length).foldl (fun t i => t.remove ⟨i, t.versionAt i⟩) s

theorem get_of_version_ne (hv : k.version ≠ s.versionAt k.index) : s.get k = none := by
  cases hc : s.entries[k.index]? with
  | none => simp [get, entry, hc]
  | some e =>
    rw [get_of_cell hc, if_neg]
    intro he
    exact hv (by simp [versionAt, hc, he])

/-- Emptying one cell unbinds every handle of it. -/
theorem get_remove_versionAt (s : Slab α) (i : ℕ) (k : Handle) :
    (s.remove ⟨i, s.versionAt i⟩).get k = if k.index = i then none else s.get k := by
  rw [get_remove]
  by_cases hi : k.index = i
  · rw [if_pos hi]
    by_cases hk : k = ⟨i, s.versionAt i⟩
    · rw [if_pos hk]
    · rw [if_neg hk]
      apply get_of_version_ne
      intro hv
      exact hk (by cases k; simp_all)
  · rw [if_neg hi, if_neg (fun hk => hi (congrArg Handle.index hk))]

/-- **An emptied slab resolves no handle.** -/
theorem get_clear (s : Slab α) (k : Handle) : s.clear.get k = none := by
  have hfold : ∀ (l : List ℕ) (t : Slab α),
      (l.foldl (fun t i => t.remove ⟨i, t.versionAt i⟩) t).get k =
        if k.index ∈ l then none else t.get k := by
    intro l
    induction l with
    | nil => intro t; simp
    | cons i l ih =>
      intro t
      rw [foldl_cons, ih, get_remove_versionAt]
      by_cases hi : k.index = i <;> simp [hi]
  unfold clear
  rw [hfold]
  by_cases hk : k.index < s.entries.length
  · rw [if_pos (mem_range.2 hk)]
  · have hc : s.entries[k.index]? = none := getElem?_eq_none (by omega)
    simp [get, entry, hc]

/-! ### Counting -/

/-- The number of stored values that satisfy `p`. -/
def count (s : Slab α) (p : α → Bool) : ℕ := s.entries.countP fun e => e.value.any p

/-- Replacing an element of a list moves the count by what is put in and taken out. -/
theorem countP_set {β : Type*} (p : β → Bool) (l : List β) :
    ∀ (i : ℕ) (e e' : β), l[i]? = some e →
      (l.set i e').countP p + (if p e then 1 else 0) = l.countP p + if p e' then 1 else 0 := by
  induction l with
  | nil => exact nofun
  | cons x l ih =>
    intro i e e' hi
    cases i with
    | zero =>
      obtain rfl : x = e := by simpa using hi
      rw [set_cons_zero, countP_cons, countP_cons]
      omega
    | succ i =>
      have := ih i e e' (by simpa using hi)
      rw [set_cons_succ, countP_cons, countP_cons]
      omega

theorem count_insert (s : Slab α) (a : α) (p : α → Bool) :
    (s.insert a).1.count p = s.count p + if p a then 1 else 0 := by
  rcases insert_cases s a with ⟨i, rest, hf, he⟩ | he
  · obtain ⟨v, hv⟩ := s.vacant i (hf ▸ mem_cons_self)
    rw [he]
    simpa [count, reuse] using
      countP_set (fun e => e.value.any p) s.entries i _ ⟨s.versionAt i + 1, some a⟩ hv
  · rw [he]
    simp [count, push, countP_append, countP_cons]

theorem count_modify (hg : s.get h = some a) (f : α → α) (p : α → Bool) :
    (s.modify h f).count p + (if p a then 1 else 0) = s.count p + if p (f a) then 1 else 0 := by
  unfold modify
  split
  · rename_i hn
    rw [hg] at hn
    cases hn
  · rename_i b hb
    obtain rfl : a = b := Option.some.inj (hg.symm.trans hb)
    simpa [count] using
      countP_set (fun e => e.value.any p) s.entries h.index _ ⟨h.version, some (f a)⟩
        (get_eq_some_iff.1 hg)

theorem count_remove (hg : s.get h = some a) (p : α → Bool) :
    (s.remove h).count p + (if p a then 1 else 0) = s.count p := by
  unfold remove
  split
  · rename_i hn
    rw [hg] at hn
    cases hn
  · simpa [count] using
      countP_set (fun e => e.value.any p) s.entries h.index _ ⟨h.version + 1, none⟩
        (get_eq_some_iff.1 hg)

theorem count_pos (hg : s.get h = some a) {p : α → Bool} (hp : p a) : 0 < s.count p := by
  have := count_remove hg p
  rw [if_pos hp] at this
  omega

theorem count_eq_zero (hs : ∀ k, s.get k = none) (p : α → Bool) : s.count p = 0 := by
  refine countP_eq_zero.2 ?_
  intro e he hp
  obtain ⟨i, hi⟩ := mem_iff_getElem?.1 he
  have hget := get_of_cell (k := ⟨i, e.version⟩) (x := e.value) hi
  rw [if_pos rfl, hs] at hget
  simp [← hget] at hp

/-! ### Versions before they wrap -/

/-- After `n` stores no cell has been filled more than `n` times. -/
def Aged (s : Slab α) (n : ℕ) : Prop :=
  ∀ (i : ℕ) (e : SlabEntry α), s.entries[i]? = some e →
    e.version.toNat + (if e.value.isSome then 1 else 0) ≤ 2 * n

/-- The cell of the handle has its version or a later one. -/
def Issued (s : Slab α) (h : Handle) : Prop :=
  ∃ e, s.entries[h.index]? = some e ∧ h.version.toNat ≤ e.version.toNat

theorem toNat_succ (hv : v.toNat + 1 < 2 ^ 32) : (v + 1).toNat = v.toNat + 1 := by
  exact Nat.mod_eq_of_lt hv

theorem aged_new (n : ℕ) : (new : Slab α).Aged n := by
  intro i e he
  simp [new] at he

theorem Aged.mono {m : ℕ} (ha : s.Aged n) (hnm : n ≤ m) : s.Aged m := by
  intro i e he
  have := ha i e he
  omega

/-- One cell is replaced by one that is not older. -/
theorem Aged.set {m : ℕ} (ha : s.Aged n) (hnm : n ≤ m) (ht : t.entries = s.entries.set i e)
    (he : e.version.toNat + (if e.value.isSome then 1 else 0) ≤ 2 * m) : t.Aged m := by
  intro j e' hj
  rw [ht, getElem?_set] at hj
  split at hj
  · split at hj
    · obtain rfl := Option.some.inj hj
      exact he
    · cases hj
  · exact ha.mono hnm j e' hj

theorem Issued.set {e' : SlabEntry α} (hi : s.Issued h) (hold : s.entries[i]? = some e)
    (ht : t.entries = s.entries.set i e') (hle : e.version.toNat ≤ e'.version.toNat) :
    t.Issued h := by
  obtain ⟨e₀, he₀, hv⟩ := hi
  by_cases hih : i = h.index
  · subst hih
    obtain rfl : e = e₀ := Option.some.inj (hold.symm.trans he₀)
    refine ⟨e', ?_, hv.trans hle⟩
    rw [ht, List.getElem?_set_self (List.getElem?_eq_some_iff.1 hold).1]
  · refine ⟨e₀, ?_, hv⟩
    rw [ht, getElem?_set_ne hih, he₀]

theorem versionAt_vacant {rest : List ℕ} (hf : s.free = i :: rest) (ha : s.Aged n) :
    s.entries[i]? = some ⟨s.versionAt i, none⟩ ∧ (s.versionAt i).toNat ≤ 2 * n := by
  obtain ⟨v, hv⟩ := s.vacant i (hf ▸ mem_cons_self)
  have hver : s.versionAt i = v := by simp [versionAt, hv]
  rw [hver]
  exact ⟨hv, by simpa using ha i _ hv⟩

/-- **Storing ages the slab by one, and keeps what was issued.** -/
theorem Aged.insert (ha : s.Aged n) (hn : n < 2 ^ 31) (a : α) :
    (s.insert a).1.Aged (n + 1) ∧ (s.insert a).1.Issued (s.insert a).2 ∧
      ∀ h, s.Issued h → (s.insert a).1.Issued h ∧ h ≠ (s.insert a).2 := by
  rcases insert_cases s a with ⟨i, rest, hf, he⟩ | he
  · obtain ⟨hcell, hver⟩ := versionAt_vacant hf ha
    have hsucc := toNat_succ (v := s.versionAt i) (by omega)
    rw [he]
    refine ⟨ha.set (Nat.le_succ n) rfl ?_, ?_, ?_⟩
    · simp only [hsucc, isSome_some, if_true]
      omega
    · refine ⟨_, List.getElem?_set_self (List.getElem?_eq_some_iff.1 hcell).1, le_rfl⟩
    · intro h hi
      refine ⟨hi.set hcell rfl (by simp only [hsucc]; omega), ?_⟩
      rintro rfl
      obtain ⟨e, hcell', hle⟩ := hi
      obtain rfl := Option.some.inj (hcell.symm.trans hcell')
      simp only [hsucc] at hle
      omega
  · rw [he]
    refine ⟨?_, ⟨⟨1, some a⟩, by simp [push], le_rfl⟩, ?_⟩
    · intro j e hj
      simp only [push] at hj
      by_cases hlt : j < s.entries.length
      · rw [getElem?_append_left hlt] at hj
        exact ha.mono (Nat.le_succ n) j e hj
      · rw [getElem?_append_right (by omega)] at hj
        obtain ⟨hz, rfl⟩ : j - s.entries.length = 0 ∧ (⟨1, some a⟩ : SlabEntry α) = e := by
          rcases Nat.eq_zero_or_pos (j - s.entries.length) with hz | hz
          · rw [hz] at hj
            exact ⟨hz, by simpa using hj⟩
          · rw [getElem?_eq_none (by rw [length_singleton]; omega)] at hj
            cases hj
        simp
    · rintro h ⟨e, hcell, hle⟩
      have hlt := (List.getElem?_eq_some_iff.1 hcell).1
      refine ⟨⟨e, ?_, hle⟩, ?_⟩
      · simp only [push]
        rw [getElem?_append_left hlt, hcell]
      · rintro rfl
        exact absurd hlt (lt_irrefl _)

theorem Aged.modify (ha : s.Aged n) (h : Handle) (f : α → α) :
    (s.modify h f).Aged n ∧ ∀ k, s.Issued k → (s.modify h f).Issued k := by
  unfold Slab.modify
  split
  · exact ⟨ha, fun _ hk => hk⟩
  · rename_i a hg
    have hcell := get_eq_some_iff.1 hg
    exact ⟨ha.set le_rfl rfl (by simpa using ha _ _ hcell), fun k hk => hk.set hcell rfl le_rfl⟩

/-- **Removing keeps what was issued.** -/
theorem Aged.remove (ha : s.Aged n) (hn : n < 2 ^ 31) (h : Handle) :
    (s.remove h).Aged n ∧ ∀ k, s.Issued k → (s.remove h).Issued k := by
  unfold Slab.remove
  split
  · exact ⟨ha, fun _ hk => hk⟩
  · rename_i a hg
    have hcell := get_eq_some_iff.1 hg
    have hage : h.version.toNat + 1 ≤ 2 * n := by simpa using ha _ _ hcell
    have hsucc := toNat_succ (v := h.version) (by omega)
    refine ⟨ha.set le_rfl rfl ?_, fun k hk => hk.set hcell rfl ?_⟩
    · simpa [hsucc] using hage
    · simp only [hsucc]
      omega

theorem Aged.clear (ha : s.Aged n) (hn : n < 2 ^ 31) : s.clear.Aged n := by
  unfold Slab.clear
  generalize range s.entries.length = l
  induction l generalizing s with
  | nil => exact ha
  | cons i l ih => exact ih (ha.remove hn _).1

end Slab

end Ghostframe
