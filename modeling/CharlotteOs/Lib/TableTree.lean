import Mathlib.Data.Set.Insert

/-!
# Trees of tables in memory

A radix tree that is laid out in memory: each table has a word for each index, and a word is empty,
holds a leaf, or names the table of the next level. A key is a list of indices. Looking a key up
follows the tables along it until a leaf or an empty word.

Memory is a function of a table and an index, so a tree is a memory with a root. It is a tree, and
not a graph with shared tables, when no two paths lead to one table; then a word that is written
changes only what is looked up through it.

## Main definitions

* `Entry`: what a word says
* `tableAt m a p`: the table at the end of the path `p` from the table `a`
* `lookup m a q`: the leaf that the key `q` leads to, with the indices that are left of it
* `frames m a`, `paths m a`: the tables that are reachable from `a`, and the paths to them
* `IsTree m n a`: paths from `a` lead to different tables and have length at most `n`

## Main results

* `IsTree.write`: a word that is not a table is replaced by another one
* `IsTree.grow`: an empty word is replaced by a new table without leaves
* `IsTree.prune`: a word is cleared, with all that is behind it
* `lookup_of_closed`: what holds of the leaves in a closed set of tables holds of what is found
-/

namespace TableTree

/-- What a word of a table says. -/
inductive Entry (A L : Type*)
  | empty
  | leaf (l : L)
  | table (a : A)

variable {A I W L : Type*} (decode : W → Entry A L) (m m' : A → I → W)

/-- The table that a path of indices leads to. -/
def tableAt : A → List I → Option A
  | a, [] => some a
  | a, i :: p =>
    match decode (m a i) with
    | .table b => tableAt b p
    | _ => none

/-- The leaf that a key leads to, and the indices that are left when it is found. -/
def lookup : A → List I → Option (L × List I)
  | _, [] => none
  | a, i :: p =>
    match decode (m a i) with
    | .empty => none
    | .leaf l => some (l, p)
    | .table b => lookup b p

/-- The tables that can be reached. -/
def frames (a : A) : Set A := {b | ∃ p, tableAt decode m a p = some b}

/-- The paths that lead to tables. -/
def paths (a : A) : Set (List I) := {p | ∃ b, tableAt decode m a p = some b}

/-- Different paths lead to different tables, and none is longer than `n`. -/
structure IsTree (n : ℕ) (a : A) : Prop where
  height : ∀ {p b}, tableAt decode m a p = some b → p.length ≤ n
  unique : ∀ {p q b}, tableAt decode m a p = some b → tableAt decode m a q = some b → p = q

variable {decode m m'} {n : ℕ} {a b c : A} {i j : I} {p q r : List I} {l : L}

/-! ## Paths -/

@[simp] theorem tableAt_nil : tableAt decode m a [] = some a := rfl

theorem tableAt_cons (h : decode (m a i) = .table b) :
    tableAt decode m a (i :: p) = tableAt decode m b p := by
  rw [tableAt, h]

theorem tableAt_cons_eq_some :
    tableAt decode m a (i :: p) = some c ↔
      ∃ b, decode (m a i) = .table b ∧ tableAt decode m b p = some c := by
  rw [tableAt]
  split
  case h_1 b hb => simp [hb]
  case h_2 hno =>
    constructor
    · intro h
      cases h
    · rintro ⟨b, hb, -⟩
      exact absurd hb (hno b)

/-- A path and its continuation. -/
theorem tableAt_append (h : tableAt decode m a p = some b) :
    tableAt decode m a (p ++ q) = tableAt decode m b q := by
  induction p generalizing a with
  | nil =>
    cases h
    rfl
  | cons i p ih =>
    obtain ⟨c, hc, h⟩ := tableAt_cons_eq_some.mp h
    rw [List.cons_append, tableAt_cons hc, ih h]

/-- A path passes the table at the end of its first part. -/
theorem exists_of_tableAt_append (h : tableAt decode m a (p ++ q) = some c) :
    ∃ b, tableAt decode m a p = some b ∧ tableAt decode m b q = some c := by
  induction p generalizing a with
  | nil => exact ⟨a, rfl, h⟩
  | cons i p ih =>
    obtain ⟨d, hd, h⟩ := tableAt_cons_eq_some.mp h
    obtain ⟨b, hb, hc⟩ := ih h
    exact ⟨b, (tableAt_cons hd).trans hb, hc⟩

theorem tableAt_snoc (h : tableAt decode m a p = some b) (hc : decode (m b i) = .table c) :
    tableAt decode m a (p ++ [i]) = some c := by
  rw [tableAt_append h, tableAt_cons hc, tableAt_nil]

/-- No path goes through a word that is not a table. -/
theorem tableAt_through (h : tableAt decode m a p = some b)
    (hnot : ∀ c, decode (m b i) ≠ .table c) : tableAt decode m a (p ++ i :: q) = none := by
  rw [tableAt_append h, tableAt]
  split
  · rename_i c hc
    exact absurd hc (hnot c)
  · rfl

theorem mem_frames (h : tableAt decode m a p = some b) : b ∈ frames decode m a := ⟨p, h⟩

/-- On the way to a table there are tables. -/
theorem paths_closed (h : q ∈ paths decode m a) (hpre : p <+: q) : p ∈ paths decode m a := by
  obtain ⟨r, rfl⟩ := hpre
  obtain ⟨c, hc⟩ := h
  obtain ⟨b, hb, -⟩ := exists_of_tableAt_append hc
  exact ⟨b, hb⟩

theorem root_mem_frames : a ∈ frames decode m a := ⟨[], rfl⟩

/-! ## Keys -/

/-- A key goes on from the table at the end of a path. -/
theorem lookup_append (h : tableAt decode m a p = some b) :
    lookup decode m a (p ++ q) = lookup decode m b q := by
  induction p generalizing a with
  | nil =>
    cases h
    rfl
  | cons i p ih =>
    obtain ⟨c, hc, h⟩ := tableAt_cons_eq_some.mp h
    rw [List.cons_append, lookup, hc]
    exact ih h

/-- A leaf is found in a table at the end of a path. -/
theorem lookup_eq_some :
    lookup decode m a q = some (l, r) ↔
      ∃ p b i, q = p ++ i :: r ∧ tableAt decode m a p = some b ∧ decode (m b i) = .leaf l := by
  constructor
  · intro h
    induction q generalizing a with
    | nil => cases h
    | cons j q ih =>
      rw [lookup] at h
      split at h
      · cases h
      · rename_i l' hl'
        cases h
        exact ⟨[], a, j, rfl, rfl, hl'⟩
      · rename_i b hb
        obtain ⟨p, c, i, rfl, hc, hl⟩ := ih h
        exact ⟨j :: p, c, i, rfl, (tableAt_cons hb).trans hc, hl⟩
  · rintro ⟨p, b, i, rfl, hb, hl⟩
    rw [lookup_append hb, lookup, hl]

/-- What holds of every leaf in a set of tables that contains the tables it names. -/
theorem lookup_of_closed {T : Set A} {P : L → Prop} (ha : a ∈ T)
    (hleaf : ∀ b ∈ T, ∀ i l, decode (m b i) = .leaf l → P l)
    (htable : ∀ b ∈ T, ∀ i c, decode (m b i) = .table c → c ∈ T)
    (h : lookup decode m a q = some (l, r)) : P l := by
  obtain ⟨p, b, i, -, hb, hl⟩ := lookup_eq_some.mp h
  refine hleaf b ?_ i l hl
  clear h hl
  induction p generalizing a with
  | nil =>
    cases hb
    exact ha
  | cons j p ih =>
    obtain ⟨c, hc, hb⟩ := tableAt_cons_eq_some.mp hb
    exact ih (htable a ha j c hc) hb

/-- A table without entries is a tree in which nothing is found. -/
theorem IsTree.of_empty (h : ∀ i, decode (m a i) = .empty) :
    IsTree decode m n a ∧ frames decode m a = {a} ∧ ∀ q, lookup decode m a q = none := by
  have hpath : ∀ {q b}, tableAt decode m a q = some b → q = [] ∧ b = a := by
    intro q b hb
    cases q with
    | nil =>
      cases hb
      exact ⟨rfl, rfl⟩
    | cons i q =>
      rw [tableAt, h] at hb
      cases hb
  refine ⟨⟨fun hb => ?_, fun hb hb' => ?_⟩, ?_, fun q => ?_⟩
  · rw [(hpath hb).1]
    exact Nat.zero_le n
  · rw [(hpath hb).1, (hpath hb').1]
  · ext b
    exact ⟨fun ⟨q, hb⟩ => (hpath hb).2, fun hb => ⟨[], congrArg some hb.symm⟩⟩
  · cases q with
    | nil => rfl
    | cons i q => rw [lookup, h]

/-! ## Memories that agree along a key -/

theorem tableAt_congr
    (h : ∀ p b i, tableAt decode m a p = some b → p ++ [i] <+: q → m' b i = m b i) :
    tableAt decode m' a q = tableAt decode m a q := by
  induction q generalizing a with
  | nil => rfl
  | cons j q ih =>
    have hword : m' a j = m a j := h [] a j rfl ⟨q, rfl⟩
    rw [tableAt, tableAt, hword]
    split
    · rename_i b hb
      refine ih fun p c i hc hpre => h (j :: p) c i ((tableAt_cons hb).trans hc) ?_
      exact (List.prefix_cons_inj j).mpr hpre
    · rfl

theorem lookup_congr
    (h : ∀ p b i, tableAt decode m a p = some b → p ++ [i] <+: q → m' b i = m b i) :
    lookup decode m' a q = lookup decode m a q := by
  induction q generalizing a with
  | nil => rfl
  | cons j q ih =>
    have hword : m' a j = m a j := h [] a j rfl ⟨q, rfl⟩
    rw [lookup, lookup, hword]
    split
    · rfl
    · rfl
    · rename_i b hb
      refine ih fun p c i hc hpre => h (j :: p) c i ((tableAt_cons hb).trans hc) ?_
      exact (List.prefix_cons_inj j).mpr hpre

/-! ## Writing a word

The word `i` of the table `b`, which the path `p` leads to, is overwritten. It did not name a table,
so no table is lost. -/

section Write

variable (ht : IsTree decode m n a) (hb : tableAt decode m a p = some b)
  (hsame : ∀ f ∈ frames decode m a, ∀ j, f ≠ b ∨ j ≠ i → m' f j = m f j)

include ht hb hsame

/-- Keys that do not go through the word meet only words that stay. -/
theorem IsTree.agree (hq : ¬ p ++ [i] <+: q) {p' : List I} (hc : tableAt decode m a p' = some c)
    (hpre : p' ++ [j] <+: q) : m' c j = m c j := by
  refine hsame c (mem_frames hc) j ?_
  by_contra hslot
  rw [not_or, not_not, not_not] at hslot
  obtain ⟨rfl, rfl⟩ := hslot
  rw [ht.unique hc hb] at hpre
  exact hq hpre

theorem IsTree.tableAt_write (hq : ¬ p ++ [i] <+: q) :
    tableAt decode m' a q = tableAt decode m a q :=
  tableAt_congr fun _ _ _ hc hpre => ht.agree hb hsame hq hc hpre

theorem IsTree.lookup_write (hq : ¬ p ++ [i] <+: q) :
    lookup decode m' a q = lookup decode m a q :=
  lookup_congr fun _ _ _ hc hpre => ht.agree hb hsame hq hc hpre

/-- The path to the table does not go through its word. -/
theorem IsTree.tableAt_self : tableAt decode m' a p = some b := by
  rw [ht.tableAt_write hb hsame, hb]
  intro hpre
  have := hpre.length_le
  rw [List.length_append, List.length_singleton] at this
  omega

/-- **A word that is not a table is replaced by another one.** The tables stay as they are. -/
theorem IsTree.write (hold : ∀ c, decode (m b i) ≠ .table c)
    (hnew : ∀ c, decode (m' b i) ≠ .table c) :
    IsTree decode m' n a ∧ frames decode m' a = frames decode m a ∧
      ∀ q, tableAt decode m' a q = tableAt decode m a q := by
  have htable : ∀ q, tableAt decode m' a q = tableAt decode m a q := by
    intro q
    by_cases hq : p ++ [i] <+: q
    · obtain ⟨s, rfl⟩ := hq
      rw [List.append_assoc, List.singleton_append,
        tableAt_through (ht.tableAt_self hb hsame) hnew, tableAt_through hb hold]
    · exact ht.tableAt_write hb hsame hq
  refine ⟨⟨fun h => ht.height ((htable _).symm.trans h), fun h h' =>
    ht.unique ((htable _).symm.trans h) ((htable _).symm.trans h')⟩, ?_, htable⟩
  ext f
  simp only [frames, htable]

/-- **An empty word is replaced by a new table that is empty.** It is reachable now, and no key
finds anything else. -/
theorem IsTree.grow (hold : decode (m b i) = .empty) (hnew : decode (m' b i) = .table c)
    (hc : c ∉ frames decode m a) (hempty : ∀ j, decode (m' c j) = .empty) (hp : p.length < n) :
    IsTree decode m' n a ∧ frames decode m' a = insert c (frames decode m a) ∧
      tableAt decode m' a (p ++ [i]) = some c ∧
      (∀ q d, tableAt decode m' a q = some d ↔
        tableAt decode m a q = some d ∨ (q = p ++ [i] ∧ d = c)) ∧
      ∀ q, lookup decode m' a q = lookup decode m a q := by
  have hself := ht.tableAt_self hb hsame
  have hpath : tableAt decode m' a (p ++ [i]) = some c := tableAt_snoc hself hnew
  have hleave : ∀ {j s}, tableAt decode m' c (j :: s) = none := by
    intro j s
    rw [tableAt, hempty]
  -- a path in the new tree is an old one, or ends at the new table
  have hcases : ∀ q d, tableAt decode m' a q = some d →
      (tableAt decode m a q = some d ∧ d ≠ c) ∨ (q = p ++ [i] ∧ d = c) := by
    intro q d hd
    by_cases hq : p ++ [i] <+: q
    · obtain ⟨s, rfl⟩ := hq
      rw [tableAt_append hpath] at hd
      cases s with
      | nil =>
        cases hd
        exact .inr ⟨List.append_nil _, rfl⟩
      | cons j s =>
        rw [hleave] at hd
        cases hd
    · rw [ht.tableAt_write hb hsame hq] at hd
      exact .inl ⟨hd, fun hdc => hc (hdc ▸ mem_frames hd)⟩
  have hold_path : ∀ q d, tableAt decode m a q = some d → tableAt decode m' a q = some d := by
    intro q d hd
    rw [ht.tableAt_write hb hsame, hd]
    rintro ⟨s, rfl⟩
    have hnone : tableAt decode m a (p ++ i :: s) = none :=
      tableAt_through hb fun c' hc' => by
        rw [hold] at hc'
        cases hc'
    rw [List.append_assoc, List.singleton_append, hnone] at hd
    cases hd
  refine ⟨⟨fun {q d} hd => ?_, fun {q q' d} hd hd' => ?_⟩, ?_, hpath, fun q d => ?_, fun q => ?_⟩
  · rcases hcases q d hd with ⟨hd, -⟩ | ⟨rfl, -⟩
    · exact ht.height hd
    · rw [List.length_append, List.length_singleton]
      exact hp
  · rcases hcases q d hd with ⟨hd, hne⟩ | ⟨rfl, rfl⟩
    · rcases hcases q' d hd' with ⟨hd', -⟩ | ⟨-, rfl⟩
      · exact ht.unique hd hd'
      · exact absurd rfl hne
    · rcases hcases q' d hd' with ⟨-, hne⟩ | ⟨rfl, -⟩
      · exact absurd rfl hne
      · rfl
  · ext d
    constructor
    · rintro ⟨q, hd⟩
      rcases hcases q d hd with ⟨hd, -⟩ | ⟨-, rfl⟩
      · exact .inr (mem_frames hd)
      · exact .inl rfl
    · rintro (rfl | ⟨q, hd⟩)
      · exact mem_frames hpath
      · exact mem_frames (hold_path q d hd)
  · constructor
    · exact fun hd => (hcases q d hd).imp_left And.left
    · rintro (hd | ⟨rfl, rfl⟩)
      · exact hold_path q d hd
      · exact hpath
  · by_cases hq : p ++ [i] <+: q
    · obtain ⟨s, rfl⟩ := hq
      rw [lookup_append hpath, List.append_assoc, lookup_append hb, List.singleton_append]
      conv_rhs => rw [lookup, hold]
      cases s with
      | nil => rfl
      | cons j s => rw [lookup, hempty]
    · exact ht.lookup_write hb hsame hq

/-- **A word is cleared.** What was behind it is lost, and all else stays. -/
theorem IsTree.prune (hnew : decode (m' b i) = .empty) :
    IsTree decode m' n a ∧ frames decode m' a ⊆ frames decode m a ∧
      paths decode m' a = {q | q ∈ paths decode m a ∧ ¬ p ++ [i] <+: q} ∧
      ∀ q, p ++ [i] <+: q → lookup decode m' a q = none := by
  have hself := ht.tableAt_self hb hsame
  have hthrough : ∀ s, tableAt decode m' a (p ++ [i] ++ s) = none := by
    intro s
    rw [List.append_assoc, List.singleton_append]
    exact tableAt_through hself fun c hc => by
      rw [hnew] at hc
      cases hc
  have hcases : ∀ q d, tableAt decode m' a q = some d ↔
      tableAt decode m a q = some d ∧ ¬ p ++ [i] <+: q := by
    intro q d
    by_cases hq : p ++ [i] <+: q
    · obtain ⟨s, rfl⟩ := hq
      rw [hthrough]
      simp
    · rw [ht.tableAt_write hb hsame hq, and_iff_left hq]
  refine ⟨⟨fun hd => ht.height ((hcases _ _).mp hd).1, fun hd hd' =>
    ht.unique ((hcases _ _).mp hd).1 ((hcases _ _).mp hd').1⟩, ?_, ?_, ?_⟩
  · rintro f ⟨q, hf⟩
    exact mem_frames ((hcases q f).mp hf).1
  · ext q
    constructor
    · rintro ⟨d, hd⟩
      obtain ⟨hd, hq⟩ := (hcases q d).mp hd
      exact ⟨⟨d, hd⟩, hq⟩
    · rintro ⟨⟨d, hd⟩, hq⟩
      exact ⟨d, (hcases q d).mpr ⟨hd, hq⟩⟩
  · rintro q ⟨s, rfl⟩
    rw [List.append_assoc, List.singleton_append, lookup_append hself, lookup, hnew]

end Write

end TableTree
