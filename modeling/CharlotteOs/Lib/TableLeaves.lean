import CharlotteOs.Lib.TableTree

/-!
# The leaves of a tree of tables

What a tree of tables says is the set of its leaves with the paths to them. A key finds a leaf
exactly when the path to it is a prefix of the key. Writing a word replaces what was at its path,
and making an empty table changes no leaf.

A tree is filled leaf by leaf: the tables on the path of a new leaf are made first, so for a while
there is a table without leaves below it. `Tidy m a P` says that every table is on the way to one of
the paths in `P`. A leaf can be entered at a path that is clear: no leaf is on the way to it, and no
table is at its end. Where there are tables only above leaves, these are the paths that are not
comparable with that of any leaf.

## Main definitions

* `leaves m a`: the leaves below the table `a`, with their paths
* `Tidy m a P`: tables stand only above paths in `P`
* `Free P y`: the path `y` is not comparable with those in `P`
* `Clear T S y`: with tables at `T` and leaves `S`, a leaf can be entered at `y`
* `above S`: the paths above leaves

## Main results

* `lookup_eq_some_iff`, `lookup_eq_none_iff`: keys and leaves
* `lookup_eq_of_leaves`: a key depends on the leaves only
* `leaves_write`, `leaves_grow`, `leaves_prune`: the leaves after a word is written, after a table
  is made, and after an entry is cleared
* `clear_above_iff`: what is clear where there are tables only above leaves
* `tidy_iff`: there are tables only above leaves
-/

namespace TableTree

variable {A I W L : Type*} (decode : W → Entry A L) (m m' : A → I → W)

/-- The leaves below a table, with the paths to them. -/
def leaves (a : A) : Set (List I × L) :=
  {x | ∃ p b i, x.1 = p ++ [i] ∧ tableAt decode m a p = some b ∧ decode (m b i) = .leaf x.2}

/-- Every table below `a` is on the way to a path in `P`. -/
def Tidy (a : A) (P : Set (List I)) : Prop :=
  ∀ p b, tableAt decode m a p = some b → p = [] ∨ ∃ y ∈ P, p <+: y ∧ p ≠ y

variable {decode m m'} {n : ℕ} {a b c : A} {i j : I} {p q r y : List I} {l : L} {P : Set (List I)}

/-! ## Keys -/

theorem mem_leaves (hb : tableAt decode m a p = some b) (hl : decode (m b i) = .leaf l) :
    (p ++ [i], l) ∈ leaves decode m a := ⟨p, b, i, rfl, hb, hl⟩

/-- A key finds the leaf whose path it begins with. -/
theorem lookup_eq_some_iff :
    lookup decode m a q = some (l, r) ↔ ∃ y, q = y ++ r ∧ (y, l) ∈ leaves decode m a := by
  rw [lookup_eq_some]
  constructor
  · rintro ⟨p, b, i, rfl, hb, hl⟩
    exact ⟨p ++ [i], by simp, mem_leaves hb hl⟩
  · rintro ⟨y, rfl, p, b, i, hy, hb, hl⟩
    dsimp only at hy
    subst hy
    exact ⟨p, b, i, by simp, hb, hl⟩

/-- A key finds nothing when no leaf is at a prefix of it. -/
theorem lookup_eq_none_iff :
    lookup decode m a q = none ↔ ∀ x ∈ leaves decode m a, ¬ x.1 <+: q := by
  constructor
  · rintro hnone ⟨y, l⟩ hx ⟨r, rfl⟩
    rw [lookup_eq_some_iff.mpr ⟨y, rfl, hx⟩] at hnone
    cases hnone
  · intro h
    cases hlookup : lookup decode m a q with
    | none => rfl
    | some found =>
      obtain ⟨y, rfl, hy⟩ := lookup_eq_some_iff.mp hlookup
      exact absurd (List.prefix_append y found.2) (h _ hy)

/-- A key depends only on the leaves at its beginnings. -/
theorem lookup_eq_of_leaves {a' : A}
    (h : ∀ x : List I × L, x.1 <+: q → (x ∈ leaves decode m' a' ↔ x ∈ leaves decode m a)) :
    lookup decode m' a' q = lookup decode m a q := by
  refine Option.ext fun ⟨l, r⟩ => ?_
  rw [lookup_eq_some_iff, lookup_eq_some_iff]
  refine exists_congr fun y => and_congr_right fun hy => ?_
  exact h (y, l) ⟨r, hy.symm⟩

/-- There is one leaf at a path. -/
theorem leaf_unique {l' : L} (h : (y, l) ∈ leaves decode m a) (h' : (y, l') ∈ leaves decode m a) :
    l = l' := by
  have hlookup := lookup_eq_some_iff.mpr ⟨y, (List.append_nil y).symm, h⟩
  rw [lookup_eq_some_iff.mpr ⟨y, (List.append_nil y).symm, h'⟩] at hlookup
  cases hlookup
  rfl

/-- A leaf stands in a table at the end of the path without its last index. -/
theorem exists_of_mem_leaves (h : (p ++ [i], l) ∈ leaves decode m a) :
    ∃ b, tableAt decode m a p = some b ∧ decode (m b i) = .leaf l := by
  obtain ⟨p', b, i', hpath, hb, hl⟩ := h
  obtain ⟨rfl, hi⟩ := List.append_inj' hpath rfl
  obtain ⟨rfl, -⟩ := List.cons.inj hi
  exact ⟨b, hb, hl⟩

theorem mem_leaves_iff : (y, l) ∈ leaves decode m a ↔ lookup decode m a y = some (l, []) := by
  rw [lookup_eq_some_iff]
  constructor
  · exact fun h => ⟨y, (List.append_nil y).symm, h⟩
  · rintro ⟨y', hy, h⟩
    rw [List.append_nil] at hy
    exact hy ▸ h

/-- Above a leaf there are tables. -/
theorem mem_paths_of_leaf {x : List I × L} (h : x ∈ leaves decode m a) (hpre : q <+: x.1)
    (hne : q ≠ x.1) : q ∈ paths decode m a := by
  obtain ⟨p, b, i, hx, hb, -⟩ := h
  rw [hx, List.prefix_concat_iff] at hpre
  exact paths_closed ⟨b, hb⟩ (hpre.resolve_left fun heq => hne (heq.trans hx.symm))

/-- At a leaf there is no table. -/
theorem notMem_paths_of_leaf {x : List I × L} (h : x ∈ leaves decode m a) :
    x.1 ∉ paths decode m a := by
  obtain ⟨p, b, i, hx, hb, hl⟩ := h
  rintro ⟨c, hc⟩
  rw [hx, tableAt_through hb fun d hd => by rw [hl] at hd; cases hd] at hc
  cases hc

/-- No leaf is above another one. -/
theorem leaf_paths_eq {x z : List I × L} (hx : x ∈ leaves decode m a) (hz : z ∈ leaves decode m a)
    (hpre : x.1 <+: z.1) : x.1 = z.1 := by
  by_contra hne
  exact notMem_paths_of_leaf hx (mem_paths_of_leaf hz hpre hne)

/-! ## Changes -/

/-- A table without entries has no leaves. -/
theorem leaves_of_empty (h : ∀ i, decode (m a i) = .empty) : leaves decode m a = ∅ := by
  rw [Set.eq_empty_iff_forall_notMem]
  rintro ⟨y, l⟩ hx
  have hnone := (IsTree.of_empty (n := 0) h).2.2 y
  rw [lookup_eq_none_iff] at hnone
  exact hnone _ hx (List.prefix_refl y)

/-- **A word is written**: what was at its path is replaced. -/
theorem leaves_write (ht : IsTree decode m n a) (hb : tableAt decode m a p = some b)
    (hsame : ∀ f ∈ frames decode m a, ∀ j, f ≠ b ∨ j ≠ i → m' f j = m f j)
    (hold : ∀ c, decode (m b i) ≠ .table c) (hnew : ∀ c, decode (m' b i) ≠ .table c) :
    leaves decode m' a =
      {x | x ∈ leaves decode m a ∧ x.1 ≠ p ++ [i]} ∪
        {x | x.1 = p ++ [i] ∧ decode (m' b i) = .leaf x.2} := by
  have hpaths := (ht.write hb hsame hold hnew).2.2
  have hword : ∀ {p' b' i'}, tableAt decode m a p' = some b' → p' ++ [i'] ≠ p ++ [i] →
      m' b' i' = m b' i' := by
    intro p' b' i' hb' hne
    refine hsame b' (mem_frames hb') i' ?_
    by_contra hslot
    rw [not_or, not_not, not_not] at hslot
    obtain ⟨rfl, rfl⟩ := hslot
    exact hne (by rw [ht.unique hb' hb])
  ext ⟨y, l⟩
  constructor
  · rintro ⟨p', b', i', rfl, hb', hl⟩
    rw [hpaths] at hb'
    by_cases hpath : p' ++ [i'] = p ++ [i]
    · right
      obtain ⟨rfl, hi⟩ := List.append_inj' hpath rfl
      obtain ⟨rfl, -⟩ := List.cons.inj hi
      cases hb.symm.trans hb'
      exact ⟨rfl, hl⟩
    · left
      rw [hword hb' hpath] at hl
      exact ⟨mem_leaves hb' hl, hpath⟩
  · rintro (⟨⟨p', b', i', rfl, hb', hl⟩, hpath⟩ | ⟨hpath, hl⟩)
    · rw [← hword hb' hpath] at hl
      exact mem_leaves ((hpaths p').trans hb') hl
    · exact ⟨p, b, i, hpath, (hpaths p).trans hb, hl⟩

/-- **An empty table is made**: the leaves stay. -/
theorem leaves_grow (ht : IsTree decode m n a) (hb : tableAt decode m a p = some b)
    (hsame : ∀ f ∈ frames decode m a, ∀ j, f ≠ b ∨ j ≠ i → m' f j = m f j)
    (hold : decode (m b i) = .empty) (hnew : decode (m' b i) = .table c)
    (hc : c ∉ frames decode m a) (hempty : ∀ j, decode (m' c j) = .empty) (hp : p.length < n) :
    leaves decode m' a = leaves decode m a := by
  have hlookup := (ht.grow hb hsame hold hnew hc hempty hp).2.2.2.2
  ext ⟨y, l⟩
  rw [mem_leaves_iff, mem_leaves_iff, hlookup]

/-- **A word is cleared**: the leaves behind it are lost. -/
theorem leaves_prune (ht : IsTree decode m n a) (hb : tableAt decode m a p = some b)
    (hsame : ∀ f ∈ frames decode m a, ∀ j, f ≠ b ∨ j ≠ i → m' f j = m f j)
    (hnew : decode (m' b i) = .empty) :
    leaves decode m' a = {x | x ∈ leaves decode m a ∧ ¬ p ++ [i] <+: x.1} := by
  have hnone := (ht.prune hb hsame hnew).2.2.2
  ext ⟨y, l⟩
  change _ ↔ _ ∧ ¬ p ++ [i] <+: y
  rw [mem_leaves_iff, mem_leaves_iff]
  by_cases hq : p ++ [i] <+: y
  · rw [hnone y hq]
    simp [hq]
  · rw [ht.lookup_write hb hsame hq, and_iff_left hq]

/-! ## Where a leaf can be entered -/

/-- The path is not on the way to one in `P`, nor behind one. -/
def Free (P : Set (List I)) (y : List I) : Prop := ∀ z ∈ P, ¬ z <+: y ∧ ¬ y <+: z

/-- There is no table at the path, and no leaf at it or above it. -/
def Clear (T : Set (List I)) (S : Set (List I × L)) (y : List I) : Prop :=
  y ∉ T ∧ ∀ x ∈ S, ¬ x.1 <+: y

/-- The paths above leaves, and that of the root. -/
def above (S : Set (List I × L)) : Set (List I) := insert [] {q | ∃ x ∈ S, q <+: x.1 ∧ q ≠ x.1}

variable {S : Set (List I × L)}

theorem above_singleton : above {(p ++ [i], l)} = {q | q <+: p} := by
  ext q
  constructor
  · rintro (rfl | ⟨x, rfl, hpre, hne⟩)
    · exact List.nil_prefix
    · exact (List.prefix_concat_iff.mp hpre).resolve_left hne
  · intro hpre
    refine .inr ⟨_, rfl, hpre.trans (List.prefix_append p [i]), ?_⟩
    rintro rfl
    exact absurd (List.IsPrefix.length_le hpre) (by simp)

theorem above_mono {S' : Set (List I × L)} (h : S ⊆ S') : above S ⊆ above S' := by
  rintro q (hnil | ⟨x, hx, hpre⟩)
  · exact .inl hnil
  · exact .inr ⟨x, h hx, hpre⟩

theorem above_union (S S' : Set (List I × L)) : above (S ∪ S') = above S ∪ above S' := by
  ext q
  constructor
  · rintro (hnil | ⟨x, hx | hx, hpre⟩)
    · exact .inl (.inl hnil)
    · exact .inl (.inr ⟨x, hx, hpre⟩)
    · exact .inr (.inr ⟨x, hx, hpre⟩)
  · rintro ((hnil | ⟨x, hx, hpre⟩) | (hnil | ⟨x, hx, hpre⟩))
    · exact .inl hnil
    · exact .inr ⟨x, .inl hx, hpre⟩
    · exact .inl hnil
    · exact .inr ⟨x, .inr hx, hpre⟩

theorem clear_union {T T' : Set (List I)} {S' : Set (List I × L)} :
    Clear (T ∪ T') (S ∪ S') y ↔ Clear T S y ∧ Clear T' S' y := by
  simp only [Clear, Set.mem_union, not_or, or_imp, forall_and]
  exact and_and_and_comm

/-- The entry at the end of a path that is clear is empty. -/
theorem Clear.empty (h : Clear (paths decode m a) (leaves decode m a) (p ++ [i]))
    (hb : tableAt decode m a p = some b) : decode (m b i) = .empty := by
  cases hword : decode (m b i) with
  | empty => rfl
  | leaf l => exact absurd List.prefix_rfl (h.2 _ (mem_leaves hb hword))
  | table c => exact absurd ⟨c, tableAt_snoc hb hword⟩ h.1

/-- Where tables stand only above leaves, a path is clear if it is free. -/
theorem clear_above_iff (hy : y ≠ []) : Clear (above S) S y ↔ Free (Prod.fst '' S) y := by
  constructor
  · rintro ⟨htable, hleaf⟩ _ ⟨x, hx, rfl⟩
    refine ⟨hleaf x hx, fun hpre => htable (.inr ⟨x, hx, hpre, ?_⟩)⟩
    rintro rfl
    exact hleaf x hx List.prefix_rfl
  · intro hfree
    refine ⟨?_, fun x hx => (hfree _ ⟨x, hx, rfl⟩).1⟩
    rintro (hnil | ⟨x, hx, hpre, -⟩)
    · exact hy hnil
    · exact (hfree _ ⟨x, hx, rfl⟩).2 hpre

/-- In a tree that is tidy, tables stand exactly above leaves. -/
theorem tidy_iff : Tidy decode m a (Prod.fst '' leaves decode m a) ↔
    paths decode m a = above (leaves decode m a) := by
  constructor
  · intro htidy
    refine Set.Subset.antisymm ?_ ?_
    · rintro p ⟨b, hb⟩
      rcases htidy p b hb with hnil | ⟨_, ⟨x, hx, rfl⟩, hpre⟩
      · exact .inl hnil
      · exact .inr ⟨x, hx, hpre⟩
    · rintro p (rfl | ⟨x, hx, hpre, hne⟩)
      · exact ⟨a, rfl⟩
      · exact mem_paths_of_leaf hx hpre hne
  · intro heq p b hb
    have hp : p ∈ above (leaves decode m a) := heq ▸ ⟨b, hb⟩
    rcases hp with hnil | ⟨x, hx, hpre⟩
    · exact .inl hnil
    · exact .inr ⟨x.1, ⟨x, hx, rfl⟩, hpre⟩

theorem Tidy.of_empty (h : ∀ i, decode (m a i) = .empty) : Tidy decode m a P := by
  intro p b hb
  cases p with
  | nil => exact .inl rfl
  | cons i p =>
    rw [tableAt, h] at hb
    cases hb

end TableTree
