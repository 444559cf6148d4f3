import Mathlib.Data.Fintype.Card
import CharlotteOs.Mm.BuddyUse
import CharlotteOs.Mm.PageTableSpec

/-!
# Mapping a page

`PageTable::map` finds the entry of a page, making the tables on the way to it that do not exist
yet, and enters a leaf there. A table that it makes is a frame of the buddy allocator as it is: of
its words only the first, which held the link of a free list, has been cleared. So the new table
says whatever its last owner left in it.

With frames that are zero, `map` does what its name says, and likewise where it makes no table. In
all other cases there are contents of the free memory that show up as mappings.

## Main definitions

* `MapsExactly`: what mapping one page should do
* `TreeIn`: a page table tree that is apart from the free frames
* `Blank`: the free frames hold nothing but the links of the lists

## Main results

* `BuddySystemFrameAllocator.Inv.alloc_frame`: what is in a frame that is handed out
* `PageTable.findCreateLoop_spec`: the tables that are made when the free frames are blank
* `PageTable.mapsExactly_iff`: when `map` maps exactly one page, whatever the free frames hold
-/

namespace CharlotteOs

open DyadicTiling FallibleRun TableTree PageTableEntry

/-! ## Frames of the buddy allocator -/

namespace BuddySystemFrameAllocator

variable {s s' : BuddySystemFrameAllocator} {free : ℕ → List ℕ} {F : Set ℕ}

/-- A view of the memory that reads and writes the words at some places in each page as they
are. -/
def Transparent (φ : Mem → Mem) (I : List (Fin 512)) : Prop :=
  ∀ m ptr, (∃ k ∈ I, ptr % pageSize = 8 * k) →
    (φ m).load ptr = m.load ptr ∧ ∀ val, (φ m).store ptr val = φ (m.store ptr val)

/-- The allocator over a view of its memory. -/
def view (φ : Mem → Mem) (s : BuddySystemFrameAllocator) : BuddySystemFrameAllocator :=
  { s with mem := φ s.mem }

theorem transparent_id (I : List (Fin 512)) : Transparent id I := fun _ _ _ => ⟨rfl, fun _ => rfl⟩

theorem Transparent.mono {φ : Mem → Mem} {I J : List (Fin 512)} (h : Transparent φ J)
    (hIJ : I ⊆ J) : Transparent φ I := fun m ptr ⟨k, hk, hptr⟩ => h m ptr ⟨k, hIJ hk, hptr⟩

theorem physToVirt_offset {pa : ℕ} (h : pa % pageSize = 0) : physToVirt pa % pageSize = 0 := by
  simp only [physToVirt, physVirtOffset, pageSize] at h ⊢
  omega

/-- The allocator works on the first words of pages. -/
theorem Transparent.first {φ : Mem → Mem} (h : Transparent φ [0]) (m : Mem) {pa : ℕ}
    (hpa : pa % pageSize = 0) : (φ m).load (physToVirt pa) = m.load (physToVirt pa) ∧
      ∀ val, (φ m).store (physToVirt pa) val = φ (m.store (physToVirt pa) val) :=
  h m _ ⟨0, List.mem_singleton_self 0, (physToVirt_offset hpa).trans rfl⟩

theorem addFreeBlock_view {φ : Mem → Mem} (h : Transparent φ [0]) {physAddr order : ℕ}
    (hz : physAddr % pageSize = 0) (hrun : s.addFreeBlock physAddr order = .ok s') :
    (view φ s).addFreeBlock physAddr order = .ok (view φ s') := by
  unfold addFreeBlock at hrun ⊢
  split at hrun
  case isTrue => cases hrun
  case isFalse horder =>
    cases hrun
    rw [if_neg horder]
    dsimp only [view]
    rw [(h.first s.mem hz).2]

theorem splitLoop_view {φ : Mem → Mem} (h : Transparent φ [0]) {blockAddr required order : ℕ}
    (hz : blockAddr % pageSize = 0) (hrun : splitLoop blockAddr required order s = .ok s') :
    splitLoop blockAddr required order (view φ s) = .ok (view φ s') := by
  induction order generalizing s with
  | zero =>
    cases hrun
    rfl
  | succ order ih =>
    rw [splitLoop] at hrun ⊢
    split at hrun
    case isTrue hlt =>
      rw [if_pos hlt]
      obtain ⟨s₁, hs₁, hrest⟩ := exists_of_bind_eq_ok hrun
      have hhalf : (blockAddr + 2 ^ (order + 1 + pageSizeBits) / 2) % pageSize = 0 := by
        rw [pow_add, pow_succ, Nat.mul_right_comm, Nat.mul_div_cancel _ Nat.zero_lt_two,
          two_pow_pageSizeBits, Nat.add_mul_mod_self_right, hz]
      dsimp only
      rw [addFreeBlock_view h hhalf hs₁, ok_bind]
      exact ih hrest
    case isFalse hge =>
      rw [if_neg hge]
      cases hrun
      rfl

/-- The search loop finds the same block in a view of the memory. -/
theorem Inv.allocLoop_view (h : Inv s free F) {φ : Mem → Mem} (hφ : Transparent φ [0])
    {required r n order : ℕ} (hn : order + n = maxOrder)
    (hrun : s.allocLoop required n order = .ok (some r, s')) :
    (view φ s).allocLoop required n order = .ok (some r, view φ s') := by
  obtain ⟨k, -, -, hfirst, hsplit⟩ := h.allocLoop_cases hn hrun
  obtain ⟨hload, hstore⟩ := hφ.first s.mem (Nat.mul_mod_left r pageSize)
  have hfirst' : firstBlock (view φ s).freeLists n order = some (k, r * pageSize) := hfirst
  have hunlink : (view φ s).unlinkFirst k (r * pageSize) =
      view φ (s.unlinkFirst k (r * pageSize)) := by
    dsimp only [view, unlinkFirst]
    rw [nextOf, hload, hstore, nextOf]
  rw [allocLoop_eq, hfirst', Option.elim_some, hunlink,
    splitLoop_view hφ (Nat.mul_mod_left r pageSize) hsplit, ok_bind, PhysPageNum.ofPhysAddr_mul,
    ok_bind]

/-- **A frame is handed out** as long as there is one. Its first word is cleared, and no word but
the first of a page is changed. -/
theorem Inv.alloc_frame (h : Inv s free F) (hF : F.Nonempty) :
    ∃ s' free' r, s.alloc 1 = .ok (some r, s') ∧ r ∈ F ∧ Inv s' free' (F \ {r}) ∧
      SameOutside F s.mem s'.mem ∧ (∀ a, a % pageSize ≠ 0 → s'.mem a = s.mem a) ∧
      s'.mem (r * pageSize) = 0 ∧
      ∀ φ, Transparent φ [0] → (view φ s).alloc 1 = .ok (some r, view φ s') := by
  obtain ⟨p, hp⟩ := hF
  obtain ⟨b, hb, -⟩ := (h.tiles.cover p).mp hp
  rcases alloc_spec h (n := 1) (by decide) (by decide) with
    ⟨s', r, hr, -, ⟨hsub, hmem, free', hinv, -⟩, hrun⟩ | ⟨hempty, -⟩
  · have hcells : r.cells = {r.base} := by
      have horder : r.order = 0 := hr
      ext x
      rw [Block.mem_cells, horder, pow_zero, Set.mem_singleton_iff]
      omega
    rw [hcells] at hsub hinv
    have hloop : s.allocLoop 0 maxOrder 0 = .ok (some r.base, s') := hrun
    obtain ⟨hwords, hfirst⟩ := h.allocLoop_words (Nat.zero_add maxOrder) hloop
    exact ⟨s', free', r.base, hrun, hsub rfl, hinv, hmem, hwords, hfirst,
      fun φ hφ => h.allocLoop_view hφ (Nat.zero_add maxOrder) hloop⟩
  · have hnil := hempty b.order (Nat.zero_le _) hb.1
    have hbase := hb.2
    rw [hnil] at hbase
    cases hbase

end BuddySystemFrameAllocator

/-! ## Making tables -/

namespace PageTable

open BuddySystemFrameAllocator

/-- A tree of page tables of three levels, in the linear window and apart from the frames `F`. -/
structure TreeIn (m : Mem) (root : ℕ) (F : Set ℕ) : Prop where
  tree : IsTree decode (tables m) 2 root
  lt : ∀ f ∈ frames decode (tables m) root, f < 2 ^ 20
  disjoint : Disjoint (frames decode (tables m) root) F

/-- Frames that are zero but for their first words, where the links of the free lists are. -/
def Blank (m : Mem) (F : Set ℕ) : Prop := ∀ f ∈ F, ∀ i, i ≠ 0 → tables m f i = 0

/-- The tables `new`, taken from the frames `F`, were added to a tree. No key finds anything else,
and the paths to the old tables are the same. -/
structure Grown (m m' : Mem) (root : ℕ) (F : Set ℕ) (new : List ℕ) : Prop where
  nodup : new.Nodup
  subset : ∀ f ∈ new, f ∈ F
  frames : frames decode (tables m') root = frames decode (tables m) root ∪ {f | f ∈ new}
  lookup : ∀ q, lookup decode (tables m') root q = lookup decode (tables m) root q
  paths : ∀ q f, tableAt decode (tables m') root q = some f →
    tableAt decode (tables m) root q = some f ∨ f ∈ new

variable {s : BuddySystemFrameAllocator} {m m' m'' : Mem} {free : ℕ → List ℕ} {F : Set ℕ}
  {root a b : ℕ} {p q : List (Fin 512)} {i : Fin 512} {new new' fs : List ℕ}

theorem Grown.refl (m : Mem) (root : ℕ) (F : Set ℕ) : Grown m m root F [] where
  nodup := List.nodup_nil
  subset := by simp
  frames := by simp
  lookup _ := rfl
  paths _ _ h := .inl h

theorem Grown.trans (h : Grown m m' root F new) (h' : Grown m' m'' root (F \ {f | f ∈ new}) new') :
    Grown m m'' root F (new ++ new') where
  nodup := List.nodup_append'.mpr ⟨h.nodup, h'.nodup, fun f hf hf' => (h'.subset f hf').2 hf⟩
  subset f hf := by
    rcases List.mem_append.mp hf with hf | hf
    · exact h.subset f hf
    · exact (h'.subset f hf).1
  frames := by
    rw [h'.frames, h.frames, Set.union_assoc]
    ext f
    simp
  lookup q := (h'.lookup q).trans (h.lookup q)
  paths q f hf := by
    rcases h'.paths q f hf with hf | hf
    · rcases h.paths q f hf with hf | hf
      · exact .inl hf
      · exact .inr (List.mem_append_left _ hf)
    · exact .inr (List.mem_append_right _ hf)

/-- **A table is made** in a blank frame, at an entry that is not valid. -/
theorem create_spec (hinv : Inv s free F) (htree : TreeIn s.mem root F) (hblank : Blank s.mem F)
    (hF : F.Nonempty) (ha : tableAt decode (tables s.mem) root p = some a) (hp : p.length < 2)
    (hempty : decode (tables s.mem a i) = .empty) :
    ∃ s₁ free₁ r, (∀ φ, Transparent φ [0] → (view φ s).alloc 1 = .ok (some r, view φ s₁)) ∧
      ∀ m', m' = s₁.mem.store (physToVirt (PhysAddr.ofPpn a) + 8 * i)
          (PageTableEntry.new r PTEFlags.v) →
        Inv { s₁ with mem := m' } free₁ (F \ {r}) ∧ TreeIn m' root (F \ {r}) ∧
        Grown s.mem m' root F [r] ∧ Blank m' (F \ {r}) ∧ r < 2 ^ 20 ∧
        tableAt decode (tables m') root (p ++ [i]) = some r ∧
        ∀ j, decode (tables m' r j) = .empty := by
  obtain ⟨s₁, free₁, r, -, hr, hinv₁, hsame, hwords, hfirst, halloc⟩ := hinv.alloc_frame hF
  refine ⟨s₁, free₁, r, halloc, ?_⟩
  rintro m' rfl
  have ha' := mem_frames ha
  have halt := htree.lt a ha'
  have hrlt := hinv.addressable.lt hr
  have haF : a ∉ F := Set.disjoint_left.mp htree.disjoint ha'
  have hra : r ≠ a := fun h => haF (h ▸ hr)
  rw [store_entry _ halt]
  have htables : ∀ f ∈ frames decode (tables s.mem) root, ∀ j, f ≠ a ∨ j ≠ i →
      tables (Function.update s₁.mem (a * pageSize + 8 * i) (PageTableEntry.new r PTEFlags.v)) f j =
        tables s.mem f j := by
    intro f hf j hne
    rw [tables_update, if_neg (by tauto)]
    refine hsame _ ?_
    rw [slot_page]
    exact Set.disjoint_left.mp htree.disjoint hf
  have hentry : tables (Function.update s₁.mem (a * pageSize + 8 * i)
      (PageTableEntry.new r PTEFlags.v)) a i = PageTableEntry.new r PTEFlags.v := by
    rw [tables_update, if_pos ⟨rfl, rfl⟩]
  have hfree : ∀ f ∈ F, ∀ j, j ≠ 0 → tables (Function.update s₁.mem (a * pageSize + 8 * i)
      (PageTableEntry.new r PTEFlags.v)) f j = 0 := by
    intro f hf j hj
    rw [tables_update, if_neg (fun h : f = a ∧ _ => haF (h.1 ▸ hf))]
    refine (hwords _ ?_).trans (hblank f hf j hj)
    exact slot_offset_ne hj
  have hzero : ∀ j, decode (tables (Function.update s₁.mem (a * pageSize + 8 * i)
      (PageTableEntry.new r PTEFlags.v)) r j) = .empty := by
    intro j
    by_cases hj : j = 0
    · subst hj
      rw [tables_update, if_neg (fun h : r = a ∧ _ => hra h.1), tables_zero, hfirst]
      exact decode_empty
    · rw [hfree r hr j hj]
      exact decode_empty
  have hnew : decode (tables (Function.update s₁.mem (a * pageSize + 8 * i)
      (PageTableEntry.new r PTEFlags.v)) a i) = .table r := by
    rw [hentry, decode_new_table (by omega)]
  have hrF : r ∉ frames decode (tables s.mem) root := fun h =>
    Set.disjoint_left.mp htree.disjoint h hr
  obtain ⟨htree', hframes, hpath, hpaths, hlookup⟩ :=
    htree.tree.grow ha htables hempty hnew hrF hzero hp
  refine ⟨?_, ⟨htree', ?_, ?_⟩, ⟨List.nodup_singleton r, ?_, ?_, hlookup, ?_⟩, ?_, hrlt, hpath,
    hzero⟩
  · refine hinv₁.congr_mem fun x hx => Function.update_of_ne ?_ _ _
    rintro rfl
    rw [slot_page, Set.mem_compl_iff, not_not] at hx
    exact haF hx.1
  · rw [hframes]
    rintro f (rfl | hf)
    · exact hrlt
    · exact htree.lt f hf
  · rw [hframes, Set.disjoint_left]
    rintro f (rfl | hf) hfF
    · exact hfF.2 rfl
    · exact Set.disjoint_left.mp htree.disjoint hf hfF.1
  · intro f hf
    rwa [List.mem_singleton.mp hf]
  · rw [hframes]
    ext f
    simp [or_comm]
  · intro q f hf
    rcases (hpaths q f).mp hf with hold | ⟨-, rfl⟩
    · exact .inl hold
    · exact .inr List.mem_cons_self
  · exact fun f hf j hj => hfree f hf.1 j hj

/-- The loop of `find_create_pte` above the last level. -/
theorem findCreateLoop_cons {rest : List (Fin 512)} (hrest : rest ≠ []) (entries : ℕ) :
    findCreateLoop s fs entries (i :: rest) =
      if !isValid (s.mem.load (entries + 8 * i)) then do
        match ← s.alloc 1 with
        | (none, _) => .error .unwrapNone
        | (some frame, s) =>
          let pte := PageTableEntry.new frame PTEFlags.v
          findCreateLoop { s with mem := s.mem.store (entries + 8 * i) pte } (fs ++ [frame])
            (physToVirt (PhysAddr.ofPpn (ppn pte))) rest
      else findCreateLoop s fs
        (physToVirt (PhysAddr.ofPpn (ppn (s.mem.load (entries + 8 * i))))) rest := by
  cases rest with
  | nil => exact absurd rfl hrest
  | cons j rest => rfl

/-- **`find_create_pte` makes the tables that are missing**, out of blank frames. -/
theorem findCreateLoop_spec (hinv : Inv s free F) (htree : TreeIn s.mem root F)
    (ha : tableAt decode (tables s.mem) root p = some a) (hlen : p.length + q.length ≤ 2)
    (hnone : lookup decode (tables s.mem) root (p ++ (q ++ [i])) = none)
    (hblank : missing (tables s.mem) a q ≠ 0 → Blank s.mem F)
    (henough : ∃ G : Finset ℕ, ↑G ⊆ F ∧ missing (tables s.mem) a q ≤ G.card) (fs : List ℕ) :
    ∃ s' b new, (∀ φ, Transparent φ (0 :: q) →
        findCreateLoop (view φ s) fs (physToVirt (PhysAddr.ofPpn a)) (q ++ [i]) =
          .ok (some (physToVirt (PhysAddr.ofPpn b) + 8 * i), view φ s', fs ++ new)) ∧
      Grown s.mem s'.mem root F new ∧ TreeIn s'.mem root (F \ {f | f ∈ new}) ∧
      tableAt decode (tables s'.mem) root (p ++ q) = some b := by
  induction q generalizing s free F a p fs with
  | nil =>
    refine ⟨s, a, [], fun φ _ => ?_, Grown.refl _ _ _, ?_, ?_⟩
    · rw [List.append_nil]
      rfl
    · simpa using htree
    · rw [List.append_nil, ha]
  | cons j q ih =>
    have halt := htree.lt a (mem_frames ha)
    have hrest : q ++ [i] ≠ [] := List.append_ne_nil_of_right_ne_nil _ (by simp)
    have hentry : ∀ {φ}, Transparent φ (0 :: j :: q) → ∀ m : Mem,
        (φ m).load (physToVirt (PhysAddr.ofPpn a) + 8 * j) = tables m a j ∧
          ∀ val, (φ m).store (physToVirt (PhysAddr.ofPpn a) + 8 * j) val =
            φ (m.store (physToVirt (PhysAddr.ofPpn a) + 8 * j) val) := by
      intro φ hφ m
      obtain ⟨hload, hstore⟩ := hφ m _ ⟨j, by simp, entryPtr_offset halt j⟩
      exact ⟨hload.trans (load_entry m halt j), hstore⟩
    rw [List.length_cons] at hlen
    cases hv : isValid (tables s.mem a j) with
    | false =>
      have hempty := decode_of_not_valid hv
      have hmissing : missing (tables s.mem) a (j :: q) = q.length + 1 := by
        rw [missing, hempty]
      rw [hmissing] at henough hblank
      obtain ⟨G, hG, hcard⟩ := henough
      have hGne : G.Nonempty := Finset.card_pos.mp (by omega)
      obtain ⟨s₁, free₁, r, halloc, hcreate⟩ := create_spec hinv htree (hblank (by omega))
        ⟨hGne.choose, hG hGne.choose_spec⟩ ha (by omega) hempty
      obtain ⟨hinv₁, htree₁, hgrown₁, hblank₁, hrlt, hpath₁, hzero₁⟩ := hcreate _ rfl
      have hmiss₁ := (missing_of_empty hzero₁ q).le
      have herase := Finset.pred_card_le_card_erase (s := G) (a := r)
      obtain ⟨s', b, new, hrun, hgrown, htree', hb⟩ := ih hinv₁ htree₁ hpath₁
        (by simp only [List.length_append, List.length_singleton]; omega)
        (by rw [hgrown₁.lookup, List.append_assoc]; exact hnone) (fun _ => hblank₁)
        ⟨G.erase r, fun f hf => ⟨hG (Finset.mem_of_mem_erase hf), Finset.ne_of_mem_erase hf⟩,
          hmiss₁.trans (by omega)⟩ (fs ++ [r])
      have hset : {f | f ∈ [r]} = ({r} : Set ℕ) := by simp
      rw [← hset] at hgrown htree'
      refine ⟨s', b, [r] ++ new, fun φ hφ => ?_, hgrown₁.trans hgrown, ?_, ?_⟩
      · obtain ⟨hload, -⟩ := hentry hφ s.mem
        obtain ⟨-, hstore⟩ := hentry hφ s₁.mem
        rw [List.cons_append, findCreateLoop_cons hrest, show (view φ s).mem = φ s.mem from rfl,
          hload, hv, Bool.not_false, if_pos rfl, halloc φ (hφ.mono (by simp)), ok_bind,
          ← List.append_assoc]
        dsimp only
        rw [ppn_new (by omega) (by decide), show (view φ s₁).mem = φ s₁.mem from rfl, hstore]
        exact hrun φ (hφ.mono (List.cons_subset_cons 0 (List.subset_cons_self j q)))
      · rw [Set.sdiff_sdiff] at htree'
        convert htree' using 2
        ext f
        simp
      · rw [← hb, List.append_assoc, List.singleton_append]
    | true =>
      rw [List.cons_append, lookup_append ha, TableTree.lookup] at hnone
      cases hl : isLeaf (tables s.mem a j) with
      | true =>
        rw [decode_of_leaf hv hl] at hnone
        cases hnone
      | false =>
        have htable := decode_of_table hv hl
        have hmissing : missing (tables s.mem) a (j :: q) =
            missing (tables s.mem) (ppn (tables s.mem a j)) q := by
          rw [missing, htable]
        rw [hmissing] at henough hblank
        have hpath := tableAt_snoc ha htable
        obtain ⟨s', b, new, hrun, hgrown, htree', hb⟩ := ih hinv htree hpath
          (by simp only [List.length_append, List.length_singleton]; omega)
          (by rw [lookup_append hpath]; rw [htable] at hnone; exact hnone) hblank henough fs
        refine ⟨s', b, new, fun φ hφ => ?_, hgrown, htree', ?_⟩
        · rw [List.cons_append, findCreateLoop_cons hrest, show (view φ s).mem = φ s.mem from rfl,
            (hentry hφ s.mem).1, hv, Bool.not_true, if_neg Bool.false_ne_true]
          exact hrun φ (hφ.mono (List.cons_subset_cons 0 (List.subset_cons_self j q)))
        · rw [← hb, List.append_assoc, List.singleton_append]

/-! ## One page -/

open VirtPageNum (indices)

/-- **What mapping one page should do**: it returns, the page is translated to the given one with
the given flags, every other page is translated as before, and the frames that are added to the
vector are the tables that can be reached now and could not before, each once. -/
def MapsExactly (s : BuddySystemFrameAllocator) (root vpn ppn flags : ℕ) (fs : List ℕ) : Prop :=
  ∃ s' new, map s (physToVirt (PhysAddr.ofPpn root)) vpn ppn flags fs = .ok (s', fs ++ new) ∧
    walk (tables s'.mem) root vpn = some (ppn, flags ||| PTEFlags.v) ∧
    (∀ vpn' < 2 ^ 27, vpn' ≠ vpn → walk (tables s'.mem) root vpn' = walk (tables s.mem) root vpn') ∧
    new.Nodup ∧
    {f | f ∈ new} = frames decode (tables s'.mem) root \ frames decode (tables s.mem) root

variable {vpn ppn flags : ℕ}

/-- What `map` does, out of blank frames if it takes any. It reads and writes only words at the
indices of the page and first words of pages. The entry is not a table, since there is no fourth
level. -/
theorem map_spec (hinv : Inv s free F) (htree : TreeIn s.mem root F) (hflags : LeafFlags flags)
    (hnone : lookup decode (tables s.mem) root (indices vpn) = none)
    (hblank : missing (tables s.mem) root ((indices vpn).take 2) ≠ 0 → Blank s.mem F)
    (henough : ∃ G : Finset ℕ, ↑G ⊆ F ∧
      missing (tables s.mem) root ((indices vpn).take 2) ≤ G.card) (fs : List ℕ) :
    ∃ s' new, (∀ φ, Transparent φ (0 :: indices vpn) →
        map (view φ s) (physToVirt (PhysAddr.ofPpn root)) vpn ppn flags fs =
          .ok (view φ s', fs ++ new)) ∧
      new.Nodup ∧ (∀ f ∈ new, f ∈ F) ∧
      frames decode (tables s'.mem) root = frames decode (tables s.mem) root ∪ {f | f ∈ new} ∧
      (∀ q f, tableAt decode (tables s'.mem) root q = some f →
        tableAt decode (tables s.mem) root q = some f ∨ f ∈ new) ∧
      (∃ b, tableAt decode (tables s'.mem) root ((indices vpn).take 2) = some b) ∧
      lookup decode (tables s'.mem) root (indices vpn) =
        some (PageTableEntry.new ppn (flags ||| PTEFlags.v), []) ∧
      ∀ q, q.length = 3 → q ≠ indices vpn →
        lookup decode (tables s'.mem) root q = lookup decode (tables s.mem) root q := by
  have hsplit : indices vpn = (indices vpn).take 2 ++ [Fin.ofNat 512 vpn] := rfl
  generalize (indices vpn).take 2 = q₂ at *
  generalize Fin.ofNat 512 vpn = i at hsplit
  have hlen : q₂.length = 2 := by
    have := congrArg List.length hsplit
    simpa [indices] using this.symm
  rw [hsplit] at hnone ⊢
  obtain ⟨s₁, b, new, hrun, hgrown, htree₁, hb⟩ := findCreateLoop_spec hinv htree (p := [])
    (q := q₂) (i := i) rfl (by simp [hlen]) hnone hblank henough fs
  rw [List.nil_append] at hb
  have hblt := htree₁.lt b (mem_frames hb)
  have hnotable : ∀ c, decode (tables s₁.mem b i) ≠ .table c := by
    intro c hc
    have := htree₁.tree.height (tableAt_snoc hb hc)
    rw [List.length_append, hlen, List.length_singleton] at this
    omega
  have hentry : isValid (tables s₁.mem b i) = false := by
    have hlookup := hgrown.lookup (q₂ ++ [i])
    rw [hnone, lookup_append hb, TableTree.lookup] at hlookup
    rw [← decode_eq_empty]
    cases hd : decode (tables s₁.mem b i) with
    | empty => rfl
    | leaf l =>
      rw [hd] at hlookup
      cases hlookup
    | table c => exact absurd hd (hnotable c)
  have hleaf := hflags.decode_new ppn
  obtain ⟨-, hframes, hpaths, hleaves⟩ := isTree_update htree₁.tree hb hnotable
    (fun c hc => by rw [hleaf] at hc; cases hc)
  generalize hm : Function.update s₁.mem (b * pageSize + 8 * i)
    (PageTableEntry.new ppn (flags ||| PTEFlags.v)) = m' at *
  refine ⟨{ s₁ with mem := m' }, new, fun φ hφ => ?_, hgrown.nodup, hgrown.subset, ?_, ?_, ?_, ?_,
    ?_⟩
  · have hloop := hrun φ (hφ.mono (List.cons_subset_cons 0 (List.subset_append_left q₂ [i])))
    obtain ⟨hload, -⟩ := hφ s₁.mem _ ⟨i, by simp, entryPtr_offset hblt i⟩
    obtain ⟨-, hstore⟩ := hφ s₁.mem _ ⟨i, by simp, entryPtr_offset hblt i⟩
    rw [map, findCreatePte, hsplit, hloop, ok_bind]
    dsimp only [view]
    rw [hload, load_entry _ hblt, hentry, if_neg Bool.false_ne_true, hstore, store_entry _ hblt, hm]
  · exact hframes.trans hgrown.frames
  · exact fun q f hf => hgrown.paths q f ((hpaths q).symm.trans hf)
  · exact ⟨b, (hpaths q₂).trans hb⟩
  · refine lookup_eq_some_iff.mpr ⟨q₂ ++ [i], by simp, ?_⟩
    rw [hleaves]
    exact .inr ⟨rfl, hleaf⟩
  · intro q hq hne
    have hsame : ∀ f ∈ frames decode (tables s₁.mem) root, ∀ j, f ≠ b ∨ j ≠ i →
        tables m' f j = tables s₁.mem f j := fun f _ j h => hm ▸ tables_update_of_ne h
    refine (htree₁.tree.lookup_write hb hsame fun hpre => hne ?_).trans (hgrown.lookup q)
    refine (hpre.eq_of_length ?_).symm
    rw [List.length_append, hlen, hq, List.length_singleton]

/-- `map` maps exactly one page if it takes only blank frames. -/
theorem mapsExactly_of_blank (hinv : Inv s free F) (htree : TreeIn s.mem root F)
    (hvpn : vpn < 2 ^ 27) (hppn : ppn < 2 ^ 44) (hflags : LeafFlags flags)
    (hnone : lookup decode (tables s.mem) root (indices vpn) = none)
    (hblank : missing (tables s.mem) root ((indices vpn).take 2) ≠ 0 → Blank s.mem F)
    (henough : ∃ G : Finset ℕ, ↑G ⊆ F ∧
      missing (tables s.mem) root ((indices vpn).take 2) ≤ G.card) (fs : List ℕ) :
    MapsExactly s root vpn ppn flags fs := by
  obtain ⟨s', new, hrun, hnodup, hsub, hframes, -, -, hfound, hother⟩ :=
    map_spec hinv htree hflags hnone hblank henough fs
  refine ⟨s', new, hrun id (transparent_id _), ?_, fun vpn' hvpn' hne => ?_, hnodup, ?_⟩
  · have hwalk := walk_of_leaf hppn hflags (one_dvd _) hfound
    rwa [List.length_nil, pow_zero, Nat.mod_one, Nat.add_zero] at hwalk
  · exact walk_congr (hother _ rfl fun h => hne (VirtPageNum.indices_inj hvpn' hvpn h))
  · rw [hframes, Set.union_sdiff_left, eq_comm, sdiff_eq_left]
    exact Set.disjoint_left.mpr fun f hf hf' => Set.disjoint_left.mp htree.disjoint hf' (hsub f hf)

/-! ## Other contents -/

/-- The same allocator over a memory that differs in the free frames only. -/
structure OtherContents (s s₂ : BuddySystemFrameAllocator) (free : ℕ → List ℕ) (F : Set ℕ) :
    Prop where
  inv : Inv s₂ free F
  lists : s₂.freeLists = s.freeLists
  same : SameOutside F s.mem s₂.mem

theorem TreeIn.tables_eq (h : TreeIn m root F) (hsame : SameOutside F m m') {f : ℕ}
    (hf : f ∈ frames decode (tables m) root) (j : Fin 512) : tables m' f j = tables m f j := by
  refine hsame _ ?_
  rw [slot_page]
  exact Set.disjoint_left.mp h.disjoint hf

/-- A tree does not notice writes to free frames. -/
theorem TreeIn.congr (h : TreeIn m root F) (hsame : SameOutside F m m') :
    TreeIn m' root F ∧
      (∀ q, tableAt decode (tables m') root q = tableAt decode (tables m) root q) ∧
      ∀ q, lookup decode (tables m') root q = lookup decode (tables m) root q := by
  have hpath : ∀ q, tableAt decode (tables m') root q = tableAt decode (tables m) root q :=
    fun q => tableAt_congr fun _ _ j hb _ => h.tables_eq hsame (mem_frames hb) j
  have hframes : frames decode (tables m') root = frames decode (tables m) root := by
    simp only [frames, hpath]
  refine ⟨⟨⟨fun hb => h.tree.height ((hpath _).symm.trans hb), fun hb hb' =>
    h.tree.unique ((hpath _).symm.trans hb) ((hpath _).symm.trans hb')⟩, ?_, ?_⟩, hpath, fun q =>
    lookup_congr fun _ _ j hb _ => h.tables_eq hsame (mem_frames hb) j⟩
  · rw [hframes]
    exact h.lt
  · rw [hframes]
    exact h.disjoint

/-- The first table that is missing on a path. -/
theorem exists_of_missing {t : ℕ → Fin 512 → ℕ} (h : missing t a q ≠ 0) :
    ∃ p i r b, q = p ++ i :: r ∧ tableAt decode t a p = some b ∧
      ∀ c, decode (t b i) ≠ .table c := by
  induction q generalizing a with
  | nil => exact absurd rfl h
  | cons j q ih =>
    rw [missing] at h
    split at h
    · rename_i b hb
      obtain ⟨p, i, r, c, rfl, hc, hnot⟩ := ih h
      exact ⟨j :: p, i, r, c, rfl, (tableAt_cons hb).trans hc, hnot⟩
    · rename_i hnot
      exact ⟨[], j, q, a, rfl, rfl, hnot⟩

theorem missing_congr {t t' : ℕ → Fin 512 → ℕ} (h : ∀ f ∈ frames decode t a, t' f = t f) :
    missing t' a q = missing t a q := by
  induction q generalizing a with
  | nil => rfl
  | cons j q ih =>
    rw [missing, missing, h a root_mem_frames]
    split
    · rename_i b hb
      refine ih ?_
      rintro f ⟨p, hf⟩
      exact h f ⟨j :: p, (tableAt_cons hb).trans hf⟩
    · rfl

/-- The memory with a word put at one index of every page in `F`. -/
def overlay (F : Set ℕ) [DecidablePred (· ∈ F)] (j : Fin 512) (w : ℕ) (m : Mem) : Mem := fun a =>
  if a / pageSize ∈ F ∧ a % pageSize = 8 * j then w else m a

section Overlay

variable [DecidablePred (· ∈ F)] {j : Fin 512} {w : ℕ}

theorem tables_overlay (f : ℕ) (k : Fin 512) :
    tables (overlay F j w m) f k = if f ∈ F ∧ k = j then w else tables m f k := by
  have hindex : 8 * (k : ℕ) = 8 * j ↔ k = j := by
    rw [Fin.ext_iff]
    omega
  rw [tables, overlay, slot_page, slot_offset]
  exact if_congr (and_congr_right' hindex) rfl rfl

theorem transparent_overlay {I : List (Fin 512)} (hj : j ∉ I) : Transparent (overlay F j w) I := by
  rintro m ptr ⟨k, hk, hptr⟩
  have hoff : kernelPa ptr % pageSize ≠ 8 * j := by
    have hpa : kernelPa ptr % pageSize = 8 * k := by
      rw [← hptr, kernelPa]
      simp only [physVirtOffset, pageSize]
      split <;> omega
    have hne : (k : ℕ) ≠ j := fun h => hj (Fin.ext h ▸ hk)
    omega
  refine ⟨if_neg fun h => hoff h.2, fun val => ?_⟩
  funext a
  rw [Mem.store, Mem.store, overlay, Function.update_apply, Function.update_apply]
  by_cases ha : a = kernelPa ptr
  · rw [if_pos ha, if_pos ha, if_neg fun h => hoff (ha ▸ h.2)]
  · rw [if_neg ha, if_neg ha, overlay]

end Overlay

open Classical in
/-- Where a table is missing, the free frames can hold something that shows: a leaf at an index that
is not on the path, in whichever frame becomes the table. -/
theorem exists_not_mapsExactly (hinv : Inv s free F) (htree : TreeIn s.mem root F)
    (hvpn : vpn < 2 ^ 27) (hflags : LeafFlags flags)
    (hnone : lookup decode (tables s.mem) root (indices vpn) = none)
    (hmissing : missing (tables s.mem) root ((indices vpn).take 2) ≠ 0)
    (henough : ∃ G : Finset ℕ, ↑G ⊆ F ∧
      missing (tables s.mem) root ((indices vpn).take 2) ≤ G.card) (fs : List ℕ) :
    ∃ s₂, OtherContents s s₂ free F ∧ ¬ MapsExactly s₂ root vpn ppn flags fs := by
  obtain ⟨j, -, hj⟩ := Finset.exists_mem_notMem_of_card_lt_card
    (s := (0 :: indices vpn).toFinset) (t := Finset.univ) (by
      refine (List.toFinset_card_le _).trans_lt ?_
      rw [Finset.card_univ, Fintype.card_fin]
      exact (show 4 < 512 by decide))
  rw [List.mem_toFinset] at hj
  obtain ⟨hj0, hjvpn⟩ : j ≠ 0 ∧ j ∉ indices vpn := by
    rw [List.mem_cons, not_or] at hj
    exact hj
  -- the free frames blank, and with a leaf at the index `j`
  let blank : Mem := fun a => if a / pageSize ∈ F ∧ a % pageSize ≠ 0 then 0 else s.mem a
  let s₀ : BuddySystemFrameAllocator := { s with mem := blank }
  let leaf := PageTableEntry.new 0 (PTEFlags.r ||| PTEFlags.v)
  have hfirst : ∀ p, blank (p * pageSize) = s.mem (p * pageSize) := fun p =>
    if_neg fun h => h.2 (Nat.mul_mod_left p pageSize)
  have hsame₀ : SameOutside F s.mem blank := fun a ha => if_neg fun h => ha h.1
  have hinv₀ : Inv s₀ free F := hinv.congr_links fun p _ => hfirst p
  have hblank₀ : Blank blank F := fun f hf i hi =>
    if_pos ⟨(slot_page f i).symm ▸ hf, slot_offset_ne hi⟩
  obtain ⟨htree₀, hpath₀, hlookup₀⟩ := htree.congr hsame₀
  have hmissing₀ : missing (tables blank) root ((indices vpn).take 2) =
      missing (tables s.mem) root ((indices vpn).take 2) :=
    missing_congr fun f hf => funext (htree.tables_eq hsame₀ hf)
  have hsame₂ : SameOutside F s.mem (overlay F j leaf blank) := fun a ha =>
    (if_neg fun h => ha h.1).trans (hsame₀ a ha)
  refine ⟨view (overlay F j leaf) s₀, ⟨?_, rfl, hsame₂⟩, ?_⟩
  · refine hinv.congr_links fun p _ => (if_neg fun h => hj0 (Fin.ext ?_)).trans (hfirst p)
    have := h.2
    rw [Nat.mul_mod_left] at this
    rw [Fin.val_zero]
    omega
  rintro ⟨s', new, hrun, -, hwalk, -⟩
  obtain ⟨s₁, new₁, hrun₁, -, hsub, -, hpaths, ⟨b, hb⟩, -, -⟩ := map_spec hinv₀ htree₀ hflags
    ((hlookup₀ _).trans hnone) (fun _ => hblank₀)
    (by rw [show tables s₀.mem = tables blank from rfl, hmissing₀]; exact henough) fs
  obtain rfl : s' = view (overlay F j leaf) s₁ :=
    congrArg Prod.fst (Except.ok.inj (hrun.symm.trans (hrun₁ _ (transparent_overlay hj))))
  -- the first table that was missing is a frame that was free
  obtain ⟨p, i, r, c, hpath, hc, hnot⟩ := exists_of_missing hmissing
  have hcut : indices vpn = p ++ i :: (r ++ [Fin.ofNat 512 vpn]) := by
    rw [show indices vpn = (indices vpn).take 2 ++ [Fin.ofNat 512 vpn] from rfl, hpath]
    simp
  have hlen : p.length + r.length = 1 := by
    have := congrArg List.length hcut
    simp only [indices, List.length_append, List.length_cons, List.length_nil] at this
    omega
  rw [hpath, ← List.singleton_append, ← List.append_assoc] at hb
  obtain ⟨f, hf, -⟩ := exists_of_tableAt_append hb
  have hfF : f ∈ F := by
    rcases hpaths _ f hf with hold | hnew
    · rw [hpath₀, tableAt_through hc hnot] at hold
      cases hold
    · exact hsub f hnew
  have hf' : tableAt decode (tables (overlay F j leaf s₁.mem)) root (p ++ [i]) = some f := by
    rw [← hf]
    refine tableAt_congr fun p' b' k _ hpre => ?_
    have hk : k ∈ indices vpn := by
      rw [hcut, ← List.singleton_append, ← List.append_assoc]
      exact List.mem_append_left _ (hpre.subset (by simp))
    rw [tables_overlay, if_neg fun h : b' ∈ F ∧ k = j => hjvpn (h.2 ▸ hk)]
  have hword : decode (tables (overlay F j leaf s₁.mem) f j) = .leaf leaf := by
    rw [tables_overlay, if_pos ⟨hfF, rfl⟩]
    exact decode_new_leaf (by decide) (by decide)
  -- so a page that was not mapped before is mapped after
  obtain ⟨vpn', hvpn', hkey⟩ := VirtPageNum.exists_indices
    (l := p ++ [i] ++ j :: List.replicate (1 - p.length) 0) (by simp; omega)
  have hafter : walk (tables (overlay F j leaf s₁.mem)) root vpn' ≠ none := by
    have hfound : lookup decode (tables (overlay F j leaf s₁.mem)) root (indices vpn') =
        some (leaf, List.replicate (1 - p.length) 0) := by
      rw [hkey, lookup_append hf', TableTree.lookup, hword]
    rw [walk_of_leaf (by decide) ⟨by decide, by decide, by decide⟩ (dvd_zero _) hfound]
    simp
  have hbefore : walk (tables (overlay F j leaf blank)) root vpn' = none := by
    have hlookup : lookup decode (tables (overlay F j leaf blank)) root (indices vpn') = none := by
      rw [(htree.congr hsame₂).2.2, hkey, List.append_assoc, List.singleton_append,
        lookup_append hc, TableTree.lookup]
      rw [hcut, lookup_append hc, TableTree.lookup] at hnone
      split at hnone
      · rfl
      · cases hnone
      · rename_i d hd
        exact absurd hd (hnot d)
    rw [walk, hlookup]
  refine hafter ((hwalk vpn' hvpn' ?_).trans hbefore)
  rintro rfl
  rw [hkey] at hjvpn
  exact hjvpn (by simp)

/-- **When `map` maps exactly one page.** It does so for all contents of the free frames exactly if
no table has to be made on the way to the page. Otherwise it does so at least if the free frames are
blank. -/
theorem mapsExactly_iff (hinv : Inv s free F) (htree : TreeIn s.mem root F)
    (hvpn : vpn < 2 ^ 27) (hppn : ppn < 2 ^ 44) (hflags : LeafFlags flags)
    (hnone : lookup decode (tables s.mem) root (indices vpn) = none)
    (henough : ∃ G : Finset ℕ, ↑G ⊆ F ∧
      missing (tables s.mem) root ((indices vpn).take 2) ≤ G.card) (fs : List ℕ) :
    ((∀ s₂, OtherContents s s₂ free F → MapsExactly s₂ root vpn ppn flags fs) ↔
      missing (tables s.mem) root ((indices vpn).take 2) = 0) ∧
    (Blank s.mem F → MapsExactly s root vpn ppn flags fs) := by
  refine ⟨⟨fun hall => ?_, fun hmissing s₂ hs₂ => ?_⟩, fun hblank =>
    mapsExactly_of_blank hinv htree hvpn hppn hflags hnone (fun _ => hblank) henough fs⟩
  · by_contra hmissing
    obtain ⟨s₂, hs₂, hnot⟩ :=
      exists_not_mapsExactly hinv htree hvpn hflags hnone hmissing henough fs
    exact hnot (hall s₂ hs₂)
  · obtain ⟨htree₂, -, hlookup₂⟩ := htree.congr hs₂.same
    have hmissing₂ : missing (tables s₂.mem) root ((indices vpn).take 2) = 0 := by
      rw [missing_congr fun f hf => funext (htree.tables_eq hs₂.same hf), hmissing]
    exact mapsExactly_of_blank hs₂.inv htree₂ hvpn hppn hflags ((hlookup₂ _).trans hnone)
      (fun h => absurd hmissing₂ h) ⟨∅, by simp, hmissing₂.le⟩ fs

/-- Two free frames over cleared memory, and a root table without entries: two tables have to be
made for the first page. -/
theorem mapsExactly_iff_sample : ∃ s free,
    (BuddySystemFrameAllocator.new fun _ => 0).addFreeRegion 0x80400 0x80402 = .ok s ∧
    ¬ ∀ s₂, OtherContents s s₂ free (Set.Ico 0x80400 0x80402) →
      MapsExactly s₂ 0x80300 0 0x80500 (PTEFlags.r ||| PTEFlags.w) [] := by
  have haddr : Addressable (Set.Ico 0x80400 0x80402) := by
    refine .of_lt fun p hp => ?_
    rw [Set.mem_Ico] at hp
    omega
  obtain ⟨s, free, hs, hinv, hsame, -⟩ :=
    addFreeRegion_spec (Owns.new fun _ => 0).inv haddr (by simp)
  rw [Set.empty_sdiff, Set.empty_union] at hinv
  have hroot : 0x80300 ∉ Set.Ico 0x80400 0x80402 := by simp
  have hempty : ∀ i, decode (tables s.mem 0x80300 i) = .empty := by
    intro i
    rw [tables, hsame _ (by rw [slot_page]; exact hroot)]
    exact decode_empty
  obtain ⟨htree, hframes, hnone⟩ := IsTree.of_empty (n := 2) hempty
  have hmissing : missing (tables s.mem) 0x80300 ((indices 0).take 2) = 2 := by
    rw [show (indices 0).take 2 = [0, 0] from rfl, missing, hempty]
    rfl
  refine ⟨s, free, hs, fun hall => ?_⟩
  have hiff := (mapsExactly_iff hinv ⟨htree, by rw [hframes]; simp, by rw [hframes]; simp⟩
    (by decide) (by decide) ⟨by decide, by decide, by decide⟩ (hnone _)
    ⟨{0x80400, 0x80401}, by simp [Set.insert_subset_iff], by rw [hmissing]; decide⟩ []).1.mp hall
  rw [hmissing] at hiff
  cases hiff

/-- The frame that becomes the second table was left with a word that is a leaf. The page with the
indices 0, 1 and 0 is not mapped before the first page is mapped, and is mapped after. -/
theorem map_dirty_frame : ∃ s s' fs,
    (BuddySystemFrameAllocator.new fun a => if a = 0x80400008 then 3 else 0).addFreeRegion
      0x80400 0x80402 = .ok s ∧
    map s (physToVirt (PhysAddr.ofPpn 0x80300)) 0 0x80500 (PTEFlags.r ||| PTEFlags.w) [] =
      .ok (s', fs) ∧
    walk (tables s.mem) 0x80300 512 = none ∧
    walk (tables s'.mem) 0x80300 512 = some (0, PTEFlags.r ||| PTEFlags.v) := by
  obtain ⟨⟨s, s', fs⟩, hrun, hwalks⟩ := exists_of_map_eq_ok
    (x := (BuddySystemFrameAllocator.new fun a => if a = 0x80400008 then 3 else 0).addFreeRegion
      0x80400 0x80402 >>= fun s =>
        map s (physToVirt (PhysAddr.ofPpn 0x80300)) 0 0x80500 (PTEFlags.r ||| PTEFlags.w) [] >>=
          fun r => .ok (s, r))
    (f := fun r : BuddySystemFrameAllocator × BuddySystemFrameAllocator × List ℕ =>
      (walk (tables r.1.mem) 0x80300 512, walk (tables r.2.1.mem) 0x80300 512))
    (a := (none, some (0, PTEFlags.r ||| PTEFlags.v))) (by decide +kernel)
  obtain ⟨s₁, hs₁, hrun⟩ := exists_of_bind_eq_ok hrun
  obtain ⟨r, hr, hrun⟩ := exists_of_bind_eq_ok hrun
  cases hrun
  exact ⟨s, s', fs, hs₁, hr, congrArg Prod.fst hwalks, congrArg Prod.snd hwalks⟩

end PageTable

end CharlotteOs
