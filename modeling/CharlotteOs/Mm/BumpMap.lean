import CharlotteOs.Lib.TableLeaves
import CharlotteOs.Mm.BootTables
import CharlotteOs.Mm.MemblockRuns
import CharlotteOs.Mm.Segments

/-!
# Mapping a page at boot

A tree of page tables has a shape: the paths that lead to tables, and the leaves with their paths.
`bump_map` adds one leaf to it, and tables on the way. What it does depends on the shape and on
`MEMBLOCK`. It panics if the path is taken, by a leaf at it or above it or by a table at it, and if
`MEMBLOCK` has no page for a table. Otherwise the translation changes for the page that is mapped,
and nowhere else.

The tables are built while `BOOT_PT` is in use. A page outside the gigabyte that it maps is no use
for a table: the attempt to clear it, or to read an entry of it, is a page fault and not a panic.

What makes the tables a tree again is that `MEMBLOCK` hands out pages that are no tables. A `Ledger`
is what has to be known of the frames of the tables for that.

## Main definitions

* `supply`, `Granted`: what comes of a number of requests for pages
* `Ledger`: how the tables and `MEMBLOCK` keep apart
* `Boot.Shape`: the tables are a tree with given paths and leaves
* `Boot.WellFormed`: the tables are a tree in pages that are not available

## Main results

* `Boot.Shape.made`: the shape after tables are made along a path
* `Boot.Shape.exists_ok_iff`, `Boot.Shape.bumpMap`: when `bump_map` returns, and the shape after it
* `Boot.Shape.conflict_iff`: when it panics because the path is taken
* `Boot.WellFormed.bumpMap_pointUpdate`: `bump_map` updates the translation at one page
-/

namespace CharlotteOs

open FallibleRun TableTree PageTableEntry PageTable

/-! ## Pages for tables -/

/-- What comes of requests for pages: all are granted, or one is refused, or one page is outside the
gigabyte that the kernel is in. -/
inductive Supply
  | granted
  | refused
  | outside
  deriving DecidableEq, Repr

/-- `MEMBLOCK` is asked for pages for `n` tables, one after the other. -/
def supply (kernel : ℕ) : ℕ → Memblock → Supply
  | 0, _ => .granted
  | n + 1, mb =>
    match mb.earlyAlloc pageSize pageSize with
    | .ok (some pa, mb') => if InGiB kernel pa then supply kernel n mb' else .outside
    | _ => .refused

/-- `MEMBLOCK` hands out pages for `n` tables, all in the gigabyte that the kernel is in. -/
def Granted (kernel : ℕ) : ℕ → Memblock → Prop
  | 0, _ => True
  | n + 1, mb =>
    match mb.earlyAlloc pageSize pageSize with
    | .ok (some pa, mb') => InGiB kernel pa ∧ Granted kernel n mb'
    | _ => False

instance decidableGranted (kernel : ℕ) : ∀ n mb, Decidable (Granted kernel n mb)
  | 0, _ => .isTrue trivial
  | n + 1, mb =>
    match h : mb.earlyAlloc pageSize pageSize with
    | .ok (some pa, mb') =>
      have := decidableGranted kernel n mb'
      decidable_of_iff (InGiB kernel pa ∧ Granted kernel n mb') (by rw [Granted, h])
    | .ok (none, _) => .isFalse (by rw [Granted, h]; exact id)
    | .error _ => .isFalse (by rw [Granted, h]; exact id)

variable {kernel n : ℕ} {mb mb' : Memblock}

theorem granted_succ :
    Granted kernel (n + 1) mb ↔ ∃ pa mb', mb.earlyAlloc pageSize pageSize = .ok (some pa, mb') ∧
      InGiB kernel pa ∧ Granted kernel n mb' := by
  rw [Granted]
  constructor
  · intro h
    split at h
    · rename_i pa mb' halloc
      exact ⟨pa, mb', halloc, h⟩
    · exact h.elim
  · rintro ⟨pa, mb', halloc, h⟩
    rw [halloc]
    exact h

/-- A page is handed out, and the other requests go to the map without it. -/
theorem granted_of_alloc {pa : ℕ} (halloc : mb.earlyAlloc pageSize pageSize = .ok (some pa, mb'))
    (hin : InGiB kernel pa) : Granted kernel (n + 1) mb ↔ Granted kernel n mb' := by
  rw [Granted, halloc]
  exact and_iff_right hin

theorem supply_eq_granted : supply kernel n mb = .granted ↔ Granted kernel n mb := by
  induction n generalizing mb with
  | zero => exact iff_of_true rfl trivial
  | succ n ih =>
    rw [supply, Granted]
    split
    · rename_i pa mb' halloc
      rw [← ih]
      split
      case isTrue hin => rw [and_iff_right hin]
      case isFalse hin => exact iff_of_false nofun fun h => hin h.1
    · exact iff_of_false nofun id

/-- In a region that ends in the first page the subtraction wraps, and the address that is tried is
the last page of the address space. -/
theorem Memblock.allocBase_of_lt {reg : MemRegion} (h : reg.base + reg.size < pageSize) :
    allocBase reg pageSize pageSize = 2 ^ 64 - pageSize := by
  simp only [pageSize] at h
  have hlt : reg.base + reg.size + (2 ^ 64 - 4096) < 2 ^ 64 := by omega
  have hend : reg.end_ = reg.base + reg.size := MemRegion.end_eq (by omega)
  rw [allocBase, hend, Nat.mod_eq_of_lt hlt]
  calc _ = (reg.base + reg.size + (2 ^ 64 - 4096)) / 2 ^ 12 * 2 ^ 12 :=
        Usize.and_notWord_two_pow (k := 12) hlt (by decide)
    _ = 2 ^ 64 - 4096 := by omega

/-- A page that is handed out below 4 GiB lies in the region it was taken from. -/
theorem Memblock.room_of_lt {pa : ℕ}
    (halloc : mb.earlyAlloc pageSize pageSize = .ok (some pa, mb')) (hpa : pa < 2 ^ 32) :
    mb.Room pageSize pageSize := by
  intro reg hfind
  by_contra hsmall
  rcases Memblock.earlyAlloc_cases halloc with ⟨hnone, -⟩ | ⟨reg', _, _, hfind', -, -, hbase, -⟩
  · cases hnone
  cases hfind.symm.trans hfind'
  rw [allocBase_of_lt (Nat.lt_of_not_le hsmall)] at hbase
  rw [Option.some.inj hbase] at hpa
  exact absurd hpa (by decide)

/-! ## Ledgers -/

/-- The bytes of a page. -/
def pageBytes (f : ℕ) : Set ℕ := Set.Ico (f * pageSize) (f * pageSize + pageSize)

/-- **A ledger** relates the frames of the tables to `MEMBLOCK`. A page that is handed out in the
gigabyte that the kernel is in is no table yet, and can become one. -/
structure Ledger (kernel : ℕ) (L : Set ℕ → Memblock → Prop) : Prop where
  alloc : ∀ {F mb mb' b}, L F mb →
    mb.earlyAlloc pageSize pageSize = .ok (some (b * pageSize), mb') →
    InGiB kernel (b * pageSize) → b ∉ F ∧ L (insert b F) mb'
  reserve : ∀ {F mb mb' base size}, L F mb → base + size < 2 ^ 64 →
    mb.reserveMemory base size = .ok mb' → L F mb'

/-- The tables are in pages that are allocated. -/
def Allocated (ram F : Set ℕ) (mb : Memblock) : Prop :=
  ∃ R A, mb.Denotes ram R A ∧ ∀ f ∈ F, f * pageSize ∈ A

/-- The tables are in pages that are not available. -/
def Unavailable (F : Set ℕ) (mb : Memblock) : Prop :=
  mb.available.Canonical ∧ ∀ f ∈ F, Disjoint (pageBytes f) mb.available.bytes

theorem first_mem_pageBytes (f : ℕ) : f * pageSize ∈ pageBytes f :=
  Set.left_mem_Ico.mpr (Nat.lt_add_of_pos_right (by decide))

theorem ledger_allocated (hkernel : kernel < 2 ^ 32) (ram : Set ℕ) :
    Ledger kernel (Allocated ram) where
  alloc := by
    rintro F mb mb' b ⟨R, A, hdenotes, hframes⟩ halloc hb
    rcases hdenotes.earlyAlloc (Memblock.room_of_lt halloc (hb.lt hkernel)) halloc with
      ⟨hnone, -⟩ | ⟨pa, hpa, hsub, hnext⟩
    · cases hnone
    · cases hpa
      refine ⟨fun hF => (hsub (first_mem_pageBytes b)).2 (.inr (hframes b hF)), R, _, hnext, ?_⟩
      rintro f (rfl | hf)
      · exact .inr (first_mem_pageBytes f)
      · exact .inl (hframes f hf)
  reserve := by
    rintro F mb mb' base size ⟨R, A, hdenotes, hframes⟩ hlt hmb
    exact ⟨_, A, hdenotes.reserveMemory hlt hmb, hframes⟩

theorem ledger_unavailable (hkernel : kernel < 2 ^ 32) : Ledger kernel Unavailable where
  alloc := by
    rintro F mb mb' b ⟨hcanon, hframes⟩ halloc hb
    rcases Memblock.earlyAlloc_spec hcanon (Memblock.room_of_lt halloc (hb.lt hkernel)) halloc with
      ⟨hnone, -⟩ | ⟨pa, hpa, hcanon', hsub, hbytes⟩
    · cases hnone
    · cases hpa
      refine ⟨fun hF => ?_, hcanon', ?_⟩
      · exact Set.disjoint_left.mp (hframes b hF) (first_mem_pageBytes b)
          (hsub (first_mem_pageBytes b))
      · rw [hbytes]
        rintro f (rfl | hf)
        · exact Set.disjoint_sdiff_right
        · exact (hframes f hf).mono_right Set.sdiff_subset
  reserve := by
    rintro F mb mb' base size ⟨hcanon, hframes⟩ hlt hmb
    obtain ⟨hcanon', hbytes⟩ := Memblock.reserveMemory_spec hcanon hlt hmb
    refine ⟨hcanon', fun f hf => ?_⟩
    rw [hbytes]
    exact (hframes f hf).mono_right Set.sdiff_subset

/-! ## The shape of the tables -/

/-- The panics for a page whose entry is in use, or is inside a larger page. -/
def Fault.Conflict (e : Fault) : Prop := e = .mappedBefore ∨ e = .largePage

theorem Fault.not_conflict_pageFault : ¬ Fault.pageFault.Conflict := by
  rintro (h | h) <;> cases h

theorem Fault.not_conflict_unwrapNone : ¬ Fault.unwrapNone.Conflict := by
  rintro (h | h) <;> cases h

/-- The panics of `MEMBLOCK` are other ones. -/
theorem Fault.not_conflict_of_full {e : Fault}
    (h : e = .regionArrayFull ∨ e = .regionArrayFullHole) :
    ¬ e.Conflict := by
  rcases h with rfl | rfl <;> rintro (h | h) <;> cases h

namespace Boot

/-- **The tables are a tree** with tables at the paths `T` and the leaves `S`. They are in the
gigabyte that the kernel is in, and the ledger is in order. -/
structure Shape (kernel root : ℕ) (L : Set ℕ → Memblock → Prop) (T : Set (List (Fin 512)))
    (S : Set (List (Fin 512) × ℕ)) (s : Boot) : Prop where
  tree : IsTree decode (tables s.mem) 2 root
  paths : paths decode (tables s.mem) root = T
  leaves : leaves decode (tables s.mem) root = S
  inGiB : ∀ f ∈ frames decode (tables s.mem) root, InGiB kernel (f * pageSize)
  ledger : L (frames decode (tables s.mem) root) s.memblock

variable {root a b c : ℕ} {L : Set ℕ → Memblock → Prop} {T : Set (List (Fin 512))}
  {S : Set (List (Fin 512) × ℕ)} {s s' t : Boot} {p q y : List (Fin 512)} {i j : Fin 512}

/-- Tables that exist are followed. -/
theorem made_of_tableAt (hin : ∀ f ∈ frames decode (tables s.mem) a, InGiB kernel (f * pageSize))
    (hc : tableAt decode (tables s.mem) a p = some c) : Made kernel s a p s c := by
  induction p generalizing a with
  | nil =>
    cases hc
    exact .done (hin _ root_mem_frames)
  | cons j p ih =>
    obtain ⟨b, hword, hc⟩ := tableAt_cons_eq_some.mp hc
    refine .follow (hin a root_mem_frames) hword (ih (fun f hf => hin f ?_) hc)
    obtain ⟨q, hq⟩ := hf
    exact ⟨j :: q, by rw [tableAt_cons hword, hq]⟩

theorem Shape.root_lt (hkernel : kernel < 2 ^ 32) (h : Shape kernel root L T S s) :
    root < 2 ^ 44 := ((h.inGiB root root_mem_frames).frame_lt hkernel).trans (by decide)

theorem Shape.mem_paths (h : Shape kernel root L T S s)
    (ha : tableAt decode (tables s.mem) root p = some a) : p ∈ T := h.paths ▸ ⟨a, ha⟩

theorem Shape.closed (h : Shape kernel root L T S s) (hp : p ∈ T) (hpre : q <+: p) : q ∈ T :=
  h.paths ▸ paths_closed (h.paths ▸ hp) hpre

/-- The paths to a table are there already. -/
theorem Shape.union_prefixes (h : Shape kernel root L T S s) (hp : p ∈ T) :
    T ∪ {y | y <+: p} = T :=
  Set.union_eq_left.mpr fun _ hy => h.closed hp hy

/-- A word on a path that no leaf is in the way of is not a leaf. -/
theorem Shape.not_leaf {j : Fin 512} {l : ℕ} (h : Shape kernel root L T S s)
    (ha : tableAt decode (tables s.mem) root p = some a) (hway : ∀ x ∈ S, ¬ x.1 <+: p ++ [j] ++ q) :
    decode (tables s.mem a j) ≠ .leaf l := by
  intro hword
  refine hway (p ++ [j], l) ?_ (List.prefix_append _ q)
  rw [← h.leaves]
  exact mem_leaves ha hword

/-- One step along a path. -/
theorem length_snoc_add {p q : List (Fin 512)} {j : Fin 512} :
    (p ++ [j]).length + q.length = p.length + (j :: q).length := by
  rw [List.length_append, List.length_singleton, List.length_cons, Nat.add_assoc, Nat.add_comm 1]

section Made

variable (hkernel : kernel < 2 ^ 32) (hL : Ledger kernel L)

include hkernel hL

/-- **A table is made** at an empty entry. -/
theorem Shape.withTable (h : Shape kernel root L T S s)
    (ha : tableAt decode (tables s.mem) root p = some a) (hp : p.length < 2)
    (hword : decode (tables s.mem a j) = .empty)
    (halloc : s.memblock.earlyAlloc pageSize pageSize = .ok (some (b * pageSize), mb))
    (hb : InGiB kernel (b * pageSize)) :
    Shape kernel root L (insert (p ++ [j]) T) S ⟨CharlotteOs.withTable s.mem a j b, mb⟩ ∧
      tableAt decode (tables (CharlotteOs.withTable s.mem a j b)) root (p ++ [j]) = some b ∧
      ∀ i, decode (tables (CharlotteOs.withTable s.mem a j b) b i) = .empty := by
  obtain ⟨hfresh, hledger⟩ := hL.alloc h.ledger halloc hb
  have hba : b ≠ a := fun hba => hfresh (hba ▸ mem_frames ha)
  have hsame : ∀ f ∈ frames decode (tables s.mem) root, ∀ i, f ≠ a ∨ i ≠ j →
      tables (CharlotteOs.withTable s.mem a j b) f i = tables s.mem f i := by
    intro f hf i hne
    rw [tables_withTable, if_neg (by tauto), if_neg]
    rintro rfl
    exact hfresh hf
  have hnew : decode (tables (CharlotteOs.withTable s.mem a j b) a j) = .table b := by
    rw [tables_withTable, if_pos ⟨rfl, rfl⟩,
      decode_new_table ((hb.frame_lt hkernel).trans (by decide))]
  have hempty : ∀ i, decode (tables (CharlotteOs.withTable s.mem a j b) b i) = .empty := by
    intro i
    rw [tables_withTable, if_neg (fun h => hba h.1), if_pos rfl]
    rfl
  obtain ⟨htree, hframes, hpath, hpaths, -⟩ := h.tree.grow ha hsame hword hnew hfresh hempty hp
  refine ⟨⟨htree, ?_, ?_, ?_, hframes ▸ hledger⟩, hpath, hempty⟩
  · rw [← h.paths]
    ext q
    simp only [TableTree.paths, hpaths]
    constructor
    · rintro ⟨d, hd | ⟨hq, -⟩⟩
      · exact .inr ⟨d, hd⟩
      · exact .inl hq
    · rintro (hq | ⟨d, hd⟩)
      · exact ⟨b, .inr ⟨hq, rfl⟩⟩
      · exact ⟨d, .inl hd⟩
  · exact (leaves_grow h.tree ha hsame hword hnew hfresh hempty hp).trans h.leaves
  · rw [hframes]
    rintro f (rfl | hf)
    · exact hb
    · exact h.inGiB f hf

/-- **Tables are followed and made along a path**: the leaves stay, and the pages that were missing
are taken from `MEMBLOCK`. -/
theorem Shape.made (hmade : Made kernel s a q t c) (h : Shape kernel root L T S s)
    (ha : tableAt decode (tables s.mem) root p = some a) (hlen : p.length + q.length ≤ 2) :
    Shape kernel root L (T ∪ {y | y <+: p ++ q}) S t ∧
      tableAt decode (tables t.mem) root (p ++ q) = some c ∧
      ∀ n, Granted kernel (missing (tables s.mem) a q + n) s.memblock ↔
        Granted kernel n t.memblock := by
  induction hmade generalizing p T with
  | done hin =>
    rw [List.append_nil, h.union_prefixes (h.mem_paths ha)]
    refine ⟨h, ha, fun n => ?_⟩
    rw [missing, Nat.zero_add]
  | @follow s t a b c j q hin hword rest ih =>
    rw [List.append_cons p j q, missing_cons_table hword]
    exact ih h (tableAt_snoc ha hword) (length_snoc_add.trans_le hlen)
  | @make s t mb a b c j q hin hword halloc rest ih =>
    have hlen' := length_snoc_add.trans_le hlen
    rw [List.length_cons] at hlen
    obtain ⟨hnext, hpath, hempty⟩ := h.withTable hkernel hL ha (by omega) hword halloc rest.inGiB
    obtain ⟨ht, hc, hgranted⟩ := ih hnext hpath hlen'
    have hunion : insert (p ++ [j]) T ∪ {y | y <+: p ++ [j] ++ q} =
        T ∪ {y | y <+: p ++ [j] ++ q} := by
      rw [Set.insert_union, Set.insert_eq_of_mem]
      exact .inr (List.prefix_append _ q)
    rw [hunion] at ht
    rw [List.append_cons p j q]
    refine ⟨ht, hc, fun n => ?_⟩
    rw [← hgranted n, missing_cons_empty hword, missing_of_empty hempty,
      Nat.succ_add, granted_of_alloc halloc rest.inGiB]

/-- Tables that are granted can be made, where no leaf is in the way. -/
theorem Shape.exists_made (h : Shape kernel root L T S s)
    (ha : tableAt decode (tables s.mem) root p = some a) (hlen : p.length + q.length ≤ 2)
    (hway : ∀ x ∈ S, ¬ x.1 <+: p ++ q)
    (hgranted : Granted kernel (missing (tables s.mem) a q) s.memblock) :
    ∃ t c, Made kernel s a q t c := by
  induction q generalizing s p a T with
  | nil => exact ⟨s, a, .done (h.inGiB a (mem_frames ha))⟩
  | cons j q ih =>
    have hin := h.inGiB a (mem_frames ha)
    have hlen' : (p ++ [j]).length + q.length ≤ 2 := length_snoc_add.trans_le hlen
    rw [List.length_cons] at hlen
    rw [List.append_cons p j q] at hway
    cases hword : decode (tables s.mem a j) with
    | empty =>
      rw [missing_cons_empty hword, granted_succ] at hgranted
      obtain ⟨pa, mb, halloc, hpa, hgranted⟩ := hgranted
      obtain ⟨b, rfl⟩ : 2 ^ 12 ∣ pa := Memblock.earlyAlloc_dvd (by decide) halloc
      rw [mul_comm] at halloc hpa
      obtain ⟨hnext, hpath, hempty⟩ := h.withTable hkernel hL ha (by omega) hword halloc hpa
      rw [← missing_of_empty hempty q] at hgranted
      obtain ⟨t, c, hmade⟩ := ih hnext hpath hlen' hway hgranted
      exact ⟨t, c, .make hin hword halloc hmade⟩
    | leaf l =>
      exact absurd hword (h.not_leaf ha hway)
    | table b =>
      rw [missing_cons_table hword] at hgranted
      obtain ⟨t, c, hmade⟩ := ih h (tableAt_snoc ha hword) hlen' hway hgranted
      exact ⟨t, c, .follow hin hword hmade⟩

/-- Without the pages for its tables `bump_find_create_pte` fails. If a page is refused it panics;
if one is outside the gigabyte, it faults there or returns a pointer that cannot be used. -/
theorem Shape.bumpFindCreateLoop_fails (h : Shape kernel root L T S s)
    (ha : tableAt decode (tables s.mem) root p = some a) (hlen : p.length + q.length ≤ 2)
    (hway : ∀ x ∈ S, ¬ x.1 <+: p ++ q) (i : Fin 512) :
    (supply kernel (missing (tables s.mem) a q) s.memblock = .refused →
      ∃ e, bumpFindCreateLoop kernel s (a * pageSize) (q ++ [i]) = .error e ∧ e ≠ .pageFault ∧
        ¬ e.Conflict) ∧
    (supply kernel (missing (tables s.mem) a q) s.memblock = .outside →
      bumpFindCreateLoop kernel s (a * pageSize) (q ++ [i]) = .error .pageFault ∨
        ∃ t c, bumpFindCreateLoop kernel s (a * pageSize) (q ++ [i]) =
          .ok (some (c * pageSize + 8 * i), t) ∧ c < 2 ^ 44 ∧ ¬ InGiB kernel (c * pageSize)) := by
  induction q generalizing s p a T with
  | nil => exact ⟨nofun, nofun⟩
  | cons j q ih =>
    have hin := h.inGiB a (mem_frames ha)
    have hlen' : (p ++ [j]).length + q.length ≤ 2 := length_snoc_add.trans_le hlen
    rw [List.length_cons] at hlen
    rw [List.append_cons p j q] at hway
    -- over a table that exists or has been made the loop goes on
    have hnext : ∀ {t b}, Made kernel s a [j] t b →
        bumpFindCreateLoop kernel s (a * pageSize) (j :: q ++ [i]) =
          bumpFindCreateLoop kernel t (b * pageSize) (q ++ [i]) := fun hmade =>
      bumpFindCreateLoop_of_made hkernel hmade q i
    cases hword : decode (tables s.mem a j) with
    | leaf l =>
      exact absurd hword (h.not_leaf ha hway)
    | table b =>
      have hb := tableAt_snoc ha hword
      rw [missing_cons_table hword,
        hnext (.follow hin hword (.done (h.inGiB b (mem_frames hb))))]
      exact ih h hb hlen' hway
    | empty =>
      rw [missing_cons_empty hword, supply]
      have hvalid := decode_eq_empty.mp hword
      cases halloc : s.memblock.earlyAlloc pageSize pageSize with
      | error e =>
        refine ⟨fun _ => ⟨e, ?_, ?_⟩, nofun⟩
        · rw [List.cons_append, bumpFindCreateLoop_cons, Boot.load_slot hkernel s hin, ok_bind,
            hvalid, halloc]
          rfl
        · have hfull := Memblock.earlyAlloc_error halloc
          refine ⟨?_, Fault.not_conflict_of_full hfull⟩
          rcases hfull with rfl | rfl <;> decide
      | ok r =>
        obtain ⟨_ | pa, mb⟩ := r
        · refine ⟨fun _ => ⟨.unwrapNone, ?_, by decide, Fault.not_conflict_unwrapNone⟩, nofun⟩
          rw [List.cons_append, bumpFindCreateLoop_cons, Boot.load_slot hkernel s hin, ok_bind,
            hvalid, halloc]
          rfl
        obtain ⟨b, rfl⟩ : 2 ^ 12 ∣ pa := Memblock.earlyAlloc_dvd (by decide) halloc
        rw [mul_comm] at halloc ⊢
        dsimp only
        split
        case isTrue hb =>
          obtain ⟨hshape, hpath, hempty⟩ := h.withTable hkernel hL ha (by omega) hword halloc hb
          rw [hnext (.make hin hword halloc (.done hb)), ← missing_of_empty hempty q]
          exact ih hshape hpath hlen' hway
        case isFalse hb =>
          refine ⟨nofun, fun _ => ?_⟩
          rw [List.cons_append, bumpFindCreateLoop_cons, Boot.load_slot hkernel s hin, ok_bind,
            hvalid, halloc]
          simp only [Bool.not_false, if_true, ok_bind]
          rcases newTable_cases hkernel s mb (b * 2 ^ 12) hin j fun s' e =>
            bumpFindCreateLoop kernel s' e (q ++ [i]) with
            hrun | ⟨-, hoffset⟩ | ⟨s', b', hb', hrun, hpage⟩
          · exact .inl hrun
          · exact absurd (dvd_mul_left _ _) hoffset
          · have hout : ¬ InGiB kernel (b' * pageSize) := by
              intro hin'
              rw [(hpage hin').1] at hb
              exact hb hin'
            rw [hrun]
            cases q with
            | nil => exact .inr ⟨s', b', rfl, hb', hout⟩
            | cons k q =>
              rw [List.cons_append, bumpFindCreateLoop_cons, load_eq_error hkernel hb' hout]
              exact .inl rfl

end Made

/-! ## What `bump_map` does -/

/-- The path is taken: by a table or a leaf at it, or by a leaf above it. -/
theorem not_clear_iff : ¬ Clear T S (p ++ [i]) ↔
    (p ++ [i] ∈ T ∨ ∃ x ∈ S, x.1 = p ++ [i]) ∨ ∃ x ∈ S, x.1 <+: p := by
  rw [Clear, not_and_or, not_not, or_assoc]
  refine or_congr_right ?_
  push Not
  constructor
  · rintro ⟨x, hx, hpre⟩
    rcases List.prefix_concat_iff.mp hpre with heq | hpre
    · exact .inl ⟨x, hx, heq⟩
    · exact .inr ⟨x, hx, hpre⟩
  · rintro (⟨x, hx, heq⟩ | ⟨x, hx, hpre⟩)
    · exact ⟨x, hx, heq ▸ List.prefix_rfl⟩
    · exact ⟨x, hx, hpre.trans (List.prefix_append p [i])⟩

section BumpMap

variable {vpn ppn flags : ℕ} {size : PageSize} (hkernel : kernel < 2 ^ 32)
  (hpath : (VirtPageNum.indices vpn).take size.targetLevel = p ++ [i])
  (h : Shape kernel root L T S s)

include hkernel hpath h

/-- The entry of the page is in use. -/
theorem Shape.bumpMap_of_used (hused : p ++ [i] ∈ T ∨ ∃ x ∈ S, x.1 = p ++ [i]) :
    bumpMap kernel s (root * pageSize) vpn ppn flags size = .error .mappedBefore := by
  obtain ⟨c, hc, hne⟩ : ∃ c, tableAt decode (tables s.mem) root p = some c ∧
      decode (tables s.mem c i) ≠ .empty := by
    rcases hused with hT | ⟨⟨y, l⟩, hx, rfl⟩
    · rw [← h.paths] at hT
      obtain ⟨d, hd⟩ := hT
      obtain ⟨c, hc, hd⟩ := exists_of_tableAt_append hd
      obtain ⟨e, hword, -⟩ := tableAt_cons_eq_some.mp hd
      exact ⟨c, hc, by rw [hword]; nofun⟩
    · rw [← h.leaves] at hx
      obtain ⟨c, hc, hl⟩ := exists_of_mem_leaves hx
      exact ⟨c, hc, by rw [hl]; nofun⟩
  rw [bumpMap_of_made hkernel hpath (made_of_tableAt h.inGiB hc), if_pos (isValid_of_decode_ne hne)]

/-- The page is inside a larger one. -/
theorem Shape.bumpMap_of_behind (hbehind : ∃ x ∈ S, x.1 <+: p) :
    bumpMap kernel s (root * pageSize) vpn ppn flags size = .error .largePage := by
  obtain ⟨x, hx, q, rfl⟩ := hbehind
  rw [← h.leaves] at hx
  obtain ⟨p', b, j, hx, hb, hl⟩ := hx
  rw [hx, ← List.append_cons p' j q] at hpath
  exact bumpMap_of_leaf hkernel hpath (made_of_tableAt h.inGiB hb) hl

variable (hL : Ledger kernel L) (hlen : p.length ≤ 2)

include hL hlen

/-- The path is clear, but the pages for its tables are not granted. -/
theorem Shape.bumpMap_fails (hclear : Clear T S (p ++ [i])) :
    (supply kernel (missing (tables s.mem) root p) s.memblock = .refused →
      ∃ e, bumpMap kernel s (root * pageSize) vpn ppn flags size = .error e ∧ e ≠ .pageFault ∧
        ¬ e.Conflict) ∧
    (supply kernel (missing (tables s.mem) root p) s.memblock = .outside →
      bumpMap kernel s (root * pageSize) vpn ppn flags size = .error .pageFault) := by
  obtain ⟨hrefused, houtside⟩ := h.bumpFindCreateLoop_fails hkernel hL (p := []) rfl
    (by rwa [List.length_nil, Nat.zero_add])
    (fun x hx hpre => hclear.2 x hx (hpre.trans (List.prefix_append p [i]))) i
  rw [PageTable.bumpMap, bumpFindCreatePte, hpath]
  refine ⟨fun hsupply => ?_, fun hsupply => ?_⟩
  · obtain ⟨e, he, hne⟩ := hrefused hsupply
    rw [he]
    exact ⟨e, rfl, hne⟩
  · rcases houtside hsupply with he | ⟨t, c, hloop, hc, hout⟩
    · rw [he]
      rfl
    · rw [hloop, ok_bind]
      dsimp only
      rw [load_eq_error hkernel hc hout]
      rfl

/-- **`bump_map` returns** exactly if the path is clear and the pages for its tables are granted.
The tables that are made are above the entry, so it is still empty. -/
theorem Shape.exists_ok_iff :
    (∃ s', bumpMap kernel s (root * pageSize) vpn ppn flags size = .ok s') ↔
      Clear T S (p ++ [i]) ∧ Granted kernel (missing (tables s.mem) root p) s.memblock := by
  constructor
  · rintro ⟨s', hs'⟩
    have hclear : Clear T S (p ++ [i]) := by
      by_contra hnot
      rcases not_clear_iff.mp hnot with hused | hbehind
      · rw [h.bumpMap_of_used hkernel hpath hused] at hs'
        cases hs'
      · rw [h.bumpMap_of_behind hkernel hpath hbehind] at hs'
        cases hs'
    obtain ⟨hrefused, houtside⟩ := h.bumpMap_fails hkernel hpath hL hlen hclear
    refine ⟨hclear, supply_eq_granted.mp ?_⟩
    cases hsupply : supply kernel (missing (tables s.mem) root p) s.memblock with
    | granted => rfl
    | refused =>
      obtain ⟨e, he, -⟩ := hrefused hsupply
      rw [he] at hs'
      cases hs'
    | outside =>
      rw [houtside hsupply] at hs'
      cases hs'
  · rintro ⟨hclear, hgranted⟩
    obtain ⟨t, c, hmade⟩ := h.exists_made hkernel hL (p := []) rfl
      (by rwa [List.length_nil, Nat.zero_add])
      (fun x hx hpre => hclear.2 x hx (hpre.trans (List.prefix_append p [i]))) hgranted
    obtain ⟨ht, hc, -⟩ :=
      h.made hkernel hL hmade (p := []) rfl (by rwa [List.length_nil, Nat.zero_add])
    have hstill : Clear (TableTree.paths decode (tables t.mem) root)
        (TableTree.leaves decode (tables t.mem) root) (p ++ [i]) := by
      rw [ht.paths, ht.leaves]
      refine ⟨?_, hclear.2⟩
      rintro (hT | hpre)
      · exact hclear.1 hT
      · have := List.IsPrefix.length_le hpre
        simp at this
    have hempty := hstill.empty hc
    exact ⟨_, (bumpMap_eq_ok hkernel (h.root_lt hkernel) hpath).mpr ⟨t, c, hmade, hempty, rfl⟩⟩

/-- **A page is mapped**: its leaf is added, and the tables above it. -/
theorem Shape.bumpMap (hleaf : decode (PageTableEntry.new ppn (flags ||| PTEFlags.v)) =
      .leaf (PageTableEntry.new ppn (flags ||| PTEFlags.v)))
    (hrun : PageTable.bumpMap kernel s (root * pageSize) vpn ppn flags size = .ok s') :
    Shape kernel root L (T ∪ {y | y <+: p})
      (insert (p ++ [i], PageTableEntry.new ppn (flags ||| PTEFlags.v)) S) s' ∧
    ∀ n, Granted kernel (missing (tables s.mem) root p + n) s.memblock ↔
      Granted kernel n s'.memblock := by
  obtain ⟨t, c, hmade, hempty, rfl⟩ :=
    (bumpMap_eq_ok hkernel (h.root_lt hkernel) hpath).mp hrun
  obtain ⟨ht, hc, hgranted⟩ := h.made hkernel hL hmade (p := []) rfl
    (by rwa [List.length_nil, Nat.zero_add])
  rw [List.nil_append] at ht hc
  obtain ⟨htree, hframes, hpaths, hleaves⟩ := isTree_update ht.tree hc
    (fun b hb => by rw [hempty] at hb; cases hb) (fun b hb => by rw [hleaf] at hb; cases hb)
  have hnew : ∀ x ∈ S, x.1 ≠ p ++ [i] := by
    rintro ⟨y, l⟩ hx rfl
    rw [← ht.leaves] at hx
    obtain ⟨b, hb, hl⟩ := exists_of_mem_leaves hx
    cases hc.symm.trans hb
    rw [hempty] at hl
    cases hl
  refine ⟨⟨htree, ?_, ?_, hframes ▸ ht.inGiB, hframes ▸ ht.ledger⟩, hgranted⟩
  · rw [← ht.paths]
    ext q
    exact exists_congr fun b => by rw [hpaths]
  · rw [hleaves, ht.leaves, hleaf]
    ext ⟨y, l⟩
    constructor
    · rintro (⟨hx, -⟩ | ⟨rfl, hl⟩)
      · exact .inr hx
      · cases hl
        exact .inl rfl
    · rintro (hx | hx)
      · cases hx
        exact .inr ⟨rfl, rfl⟩
      · exact .inl ⟨hx, hnew _ hx⟩

/-- **`bump_map` panics over what is mapped** exactly if the path is taken. -/
theorem Shape.conflict_iff :
    (∃ e, PageTable.bumpMap kernel s (root * pageSize) vpn ppn flags size = .error e ∧ e.Conflict) ↔
      ¬ Clear T S (p ++ [i]) := by
  constructor
  · rintro ⟨e, he, hconf⟩ hclear
    obtain ⟨hrefused, houtside⟩ := h.bumpMap_fails hkernel hpath hL hlen hclear
    cases hsupply : supply kernel (missing (tables s.mem) root p) s.memblock with
    | granted =>
      obtain ⟨s', hs'⟩ := (h.exists_ok_iff hkernel hpath hL hlen).mpr
        ⟨hclear, supply_eq_granted.mp hsupply⟩
      rw [hs'] at he
      cases he
    | refused =>
      obtain ⟨e', he', -, hnot⟩ := hrefused hsupply
      cases he.symm.trans he'
      exact hnot hconf
    | outside =>
      cases he.symm.trans (houtside hsupply)
      exact Fault.not_conflict_pageFault hconf
  · intro hnot
    rcases not_clear_iff.mp hnot with hused | hbehind
    · exact ⟨_, h.bumpMap_of_used hkernel hpath hused, .inl rfl⟩
    · exact ⟨_, h.bumpMap_of_behind hkernel hpath hbehind, .inr rfl⟩

end BumpMap

/-! ## The translation -/

/-- **The translation after a leaf is added**: it changes in the page of the leaf, and nowhere
else. -/
theorem walk_insert {t t' : ℕ → Fin 512 → ℕ} {vpn ppn flags : ℕ} {size : PageSize}
    (hleaves : TableTree.leaves decode t' root =
      insert ((VirtPageNum.indices vpn).take size.targetLevel,
        PageTableEntry.new ppn (flags ||| PTEFlags.v)) (TableTree.leaves decode t root))
    (hppn : ppn < 2 ^ 44) (halign : size.pages ∣ ppn) (hflags : LeafFlags flags) (v : ℕ) :
    walk t' root v = if v % 2 ^ 27 / size.pages = vpn % 2 ^ 27 / size.pages then
      some (ppn + v % size.pages, flags ||| PTEFlags.v) else walk t root v := by
  split
  case isTrue hpage =>
    obtain ⟨rest, hrest⟩ := (take_prefix_iff vpn v size).mpr hpage.symm
    have hpages := pages_of_take_append hrest.symm
    have hmem : ((VirtPageNum.indices vpn).take size.targetLevel,
        PageTableEntry.new ppn (flags ||| PTEFlags.v)) ∈ TableTree.leaves decode t' root := by
      rw [hleaves]
      exact .inl rfl
    rw [walk_of_leaf hppn hflags (hpages ▸ halign) (lookup_eq_some_iff.mpr ⟨_, hrest.symm, hmem⟩),
      hpages]
  case isFalse hpage =>
    refine walk_congr (lookup_eq_of_leaves fun x hpre => ?_)
    rw [hleaves]
    refine or_iff_right ?_
    rintro rfl
    exact hpage ((take_prefix_iff vpn v size).mp hpre).symm

/-! ## Well-formed trees -/

/-- **A well-formed tree of tables**: each table is named by one entry, and the tables are in pages
that are not available, in the gigabyte where the kernel can reach them. -/
structure WellFormed (kernel root : ℕ) (s : Boot) : Prop where
  tree : IsTree decode (tables s.mem) 2 root
  inGiB : ∀ f ∈ frames decode (tables s.mem) root, InGiB kernel (f * pageSize)
  canonical : s.memblock.available.Canonical
  apart : ∀ f ∈ frames decode (tables s.mem) root,
    Disjoint (pageBytes f) s.memblock.available.bytes

/-- The entry at the end of a path is valid. -/
def TargetValid (m : Mem) (root : ℕ) (path : List (Fin 512)) : Prop :=
  ∃ p i c, path = p ++ [i] ∧ tableAt decode (tables m) root p = some c ∧
    isValid (tables m c i) = true

/-- An entry on the way to the end of a path is a leaf. -/
def AncestorLeaf (m : Mem) (root : ℕ) (path : List (Fin 512)) : Prop :=
  ∃ p j q c, path = p ++ j :: q ∧ q ≠ [] ∧ tableAt decode (tables m) root p = some c ∧
    isValid (tables m c j) = true ∧ isLeaf (tables m c j) = true

theorem WellFormed.shape (h : s.WellFormed kernel root) :
    Shape kernel root Unavailable (TableTree.paths decode (tables s.mem) root)
      (TableTree.leaves decode (tables s.mem) root) s :=
  ⟨h.tree, rfl, rfl, h.inGiB, h.canonical, h.apart⟩

theorem Shape.wellFormed (h : Shape kernel root Unavailable T S s) : s.WellFormed kernel root :=
  ⟨h.tree, h.inGiB, h.ledger.1, h.ledger.2⟩

theorem targetValid_iff {m : Mem} : TargetValid m root (p ++ [i]) ↔
    p ++ [i] ∈ TableTree.paths decode (tables m) root ∨
      ∃ x ∈ TableTree.leaves decode (tables m) root, x.1 = p ++ [i] := by
  constructor
  · rintro ⟨p', i', c, heq, hc, hvalid⟩
    obtain ⟨rfl, hi⟩ := List.append_inj' heq rfl
    obtain ⟨rfl, -⟩ := List.cons.inj hi
    cases hword : decode (tables m c i) with
    | empty =>
      rw [decode_eq_empty.mp hword] at hvalid
      cases hvalid
    | leaf l => exact .inr ⟨_, mem_leaves hc hword, rfl⟩
    | table d => exact .inl ⟨d, tableAt_snoc hc hword⟩
  · rintro (⟨d, hd⟩ | ⟨⟨y, l⟩, hx, rfl⟩)
    · obtain ⟨c, hc, hd⟩ := exists_of_tableAt_append hd
      obtain ⟨e, hword, -⟩ := tableAt_cons_eq_some.mp hd
      exact ⟨p, i, c, rfl, hc, isValid_of_decode_ne (by rw [hword]; nofun)⟩
    · obtain ⟨c, hc, hl⟩ := exists_of_mem_leaves hx
      exact ⟨p, i, c, rfl, hc, isValid_of_decode_ne (by rw [hl]; nofun)⟩

theorem ancestorLeaf_iff {m : Mem} : AncestorLeaf m root (p ++ [i]) ↔
    ∃ x ∈ TableTree.leaves decode (tables m) root, x.1 <+: p := by
  constructor
  · rintro ⟨p', j, q, c, heq, hq, hc, hvalid, hleaf⟩
    refine ⟨_, mem_leaves hc (decode_of_leaf hvalid hleaf), ?_⟩
    rw [List.append_cons p' j q] at heq
    have hpre : p' ++ [j] <+: p ++ [i] := ⟨q, heq.symm⟩
    refine (List.prefix_concat_iff.mp hpre).resolve_left fun hlast => hq ?_
    rw [← hlast, List.self_eq_append_right] at heq
    exact heq
  · rintro ⟨⟨y, l⟩, hx, q, rfl⟩
    obtain ⟨p', b, j, hy, hb, hl⟩ := hx
    dsimp only at hy
    subst hy
    obtain ⟨hvalid, hleaf⟩ := valid_leaf_of_decode hl
    exact ⟨p', j, q ++ [i], b, by simp, by simp, hb, hvalid, hleaf⟩

section PointUpdate

variable {vpn ppn flags : ℕ} {size : PageSize}

/-- **`bump_map` updates the translation at one page.** If it returns, the page is mapped as asked
for, every other address is translated as before, and the tables are well-formed again. It panics
exactly if the entry of the page is valid, or an entry above it is a leaf, or `MEMBLOCK` refuses a
page for a table that is missing. The one other way to fail is that `MEMBLOCK` hands out a page that
`BOOT_PT` does not map. -/
theorem WellFormed.bumpMap_pointUpdate (hkernel : kernel < 2 ^ 32) (h : s.WellFormed kernel root)
    (hppn : ppn < 2 ^ 44) (halign : size.pages ∣ ppn) (hflags : LeafFlags flags) :
    let path := (VirtPageNum.indices vpn).take size.targetLevel
    let run := PageTable.bumpMap kernel s (root * pageSize) vpn ppn flags size
    let pages := supply kernel (missing (tables s.mem) root path.dropLast) s.memblock
    (∀ s', run = .ok s' → s'.WellFormed kernel root ∧ ∀ v, walk (tables s'.mem) root v =
      if v % 2 ^ 27 / size.pages = vpn % 2 ^ 27 / size.pages then
        some (ppn + v % size.pages, flags ||| PTEFlags.v) else walk (tables s.mem) root v) ∧
    ((∃ e, run = .error e ∧ e ≠ .pageFault) ↔
      TargetValid s.mem root path ∨ AncestorLeaf s.mem root path ∨ pages = .refused) ∧
    (run = .error .pageFault ↔
      ¬ TargetValid s.mem root path ∧ ¬ AncestorLeaf s.mem root path ∧ pages = .outside) := by
  obtain ⟨p, i, hpath, hlevel⟩ := VirtPageNum.exists_take vpn size
  have hlen : p.length ≤ 2 := by
    cases size <;> simp only [PageSize.targetLevel] at hlevel <;> omega
  have hL := ledger_unavailable hkernel
  have hshape := h.shape
  intro path run pages
  have hdrop : path.dropLast = p := by
    rw [show path = p ++ [i] from hpath, List.dropLast_concat]
  simp only [pages, hdrop]
  rw [show path = p ++ [i] from hpath]
  refine ⟨fun s' hs' => ?_, ?_⟩
  · obtain ⟨hshape', -⟩ := hshape.bumpMap hkernel hpath hL hlen (hflags.decode_new ppn) hs'
    refine ⟨hshape'.wellFormed, walk_insert ?_ hppn halign hflags⟩
    rw [hshape'.leaves, hpath]
  have htaken := not_clear_iff (T := TableTree.paths decode (tables s.mem) root)
    (S := TableTree.leaves decode (tables s.mem) root) (p := p) (i := i)
  rw [← targetValid_iff, ← ancestorLeaf_iff] at htaken
  by_cases hclear : Clear (TableTree.paths decode (tables s.mem) root)
      (TableTree.leaves decode (tables s.mem) root) (p ++ [i])
  case neg =>
    obtain ⟨e, he, hconf⟩ := (hshape.conflict_iff hkernel hpath hL hlen).mpr hclear
    have hne : e ≠ .pageFault := by
      rintro rfl
      exact Fault.not_conflict_pageFault hconf
    have hcause := htaken.mp hclear
    refine ⟨iff_of_true ⟨e, he, hne⟩ (by tauto), iff_of_false (fun hfault => ?_) (by tauto)⟩
    exact hne (Except.error.inj (he.symm.trans hfault))
  case pos =>
    obtain ⟨hvalid, hleaf⟩ := not_or.mp fun hcause => htaken.mpr hcause hclear
    rw [or_iff_right hvalid, or_iff_right hleaf, and_iff_right hvalid, and_iff_right hleaf]
    obtain ⟨hrefused, houtside⟩ :
        (supply kernel (missing (tables s.mem) root p) s.memblock = .refused →
          ∃ e, run = .error e ∧ e ≠ .pageFault ∧ ¬ e.Conflict) ∧
        (supply kernel (missing (tables s.mem) root p) s.memblock = .outside →
          run = .error .pageFault) :=
      hshape.bumpMap_fails hkernel hpath hL hlen hclear
    cases hsupply : supply kernel (missing (tables s.mem) root p) s.memblock with
    | granted =>
      obtain ⟨s', hs'⟩ : ∃ s', run = .ok s' := (hshape.exists_ok_iff hkernel hpath hL hlen).mpr
        ⟨hclear, supply_eq_granted.mp hsupply⟩
      rw [hs']
      refine ⟨iff_of_false ?_ (by decide), iff_of_false ?_ (by decide)⟩
      · rintro ⟨e, he, -⟩
        cases he
      · intro hfault
        cases hfault
    | refused =>
      obtain ⟨e, he, hne, -⟩ := hrefused hsupply
      refine ⟨iff_of_true ⟨e, he, hne⟩ rfl, iff_of_false (fun hfault => ?_) (by decide)⟩
      exact hne (Except.error.inj (he.symm.trans hfault))
    | outside =>
      have hfault := houtside hsupply
      refine ⟨iff_of_false ?_ (by decide), iff_of_true hfault rfl⟩
      rintro ⟨e, he, hne⟩
      exact hne (Except.error.inj (he.symm.trans hfault))

/-- A cleared root table is a well-formed tree. -/
theorem wellFormed_of_empty (hempty : ∀ i, decode (tables s.mem root i) = .empty)
    (hin : InGiB kernel (root * pageSize)) (hcanon : s.memblock.available.Canonical)
    (hapart : Disjoint (pageBytes root) s.memblock.available.bytes) : s.WellFormed kernel root := by
  obtain ⟨htree, hframes, -⟩ := IsTree.of_empty (n := 2) hempty
  refine ⟨htree, ?_, hcanon, ?_⟩
  · rw [hframes]
    rintro f rfl
    exact hin
  · rw [hframes]
    rintro f rfl
    exact hapart

theorem sampleBoot_wellFormed : sampleBoot.WellFormed 0x80200000 0x80300 := by
  refine wellFormed_of_empty (fun _ => decode_empty) (by decide) ⟨⟨?_, ?_⟩, ?_, rfl⟩ ?_
  · simp [sampleBoot, RegionArray.intervals, MemRegion.interval]
  · exact List.pairwise_singleton _ _
  · simp [sampleBoot]
  · rw [Set.disjoint_left]
    rintro x ⟨-, hx⟩ ⟨r, hr, hlo, -⟩
    cases List.mem_singleton.mp hr
    simp only [MemRegion.interval, pageSize] at *
    omega

theorem bumpMap_pointUpdate_sample : ∃ s',
    PageTable.bumpMap 0x80200000 sampleBoot (0x80300 * pageSize) 0xFFFFFFFF80400 0x80400
      (PTEFlags.r ||| PTEFlags.w) .twoMB = .ok s' ∧
    walk (tables s'.mem) 0x80300 0xFFFFFFFF80401 =
      some (0x80401, PTEFlags.r ||| PTEFlags.w ||| PTEFlags.v) ∧
    walk (tables s'.mem) 0x80300 0xFFFFFFFF80600 =
      walk (tables sampleBoot.mem) 0x80300 0xFFFFFFFF80600 := by
  obtain ⟨s', hs', -⟩ := exists_of_map_eq_ok (f := fun _ => ()) (show
    (PageTable.bumpMap 0x80200000 sampleBoot (0x80300 * pageSize) 0xFFFFFFFF80400 0x80400
      (PTEFlags.r ||| PTEFlags.w) .twoMB).map _ = .ok () by decide +kernel)
  obtain ⟨-, hwalk⟩ :=
    (sampleBoot_wellFormed.bumpMap_pointUpdate (by decide) (by decide) (by decide)
      ⟨by decide, by decide, by decide⟩).1 s' hs'
  exact ⟨s', hs', hwalk 0xFFFFFFFF80401, hwalk 0xFFFFFFFF80600⟩

end PointUpdate

end Boot

end CharlotteOs
