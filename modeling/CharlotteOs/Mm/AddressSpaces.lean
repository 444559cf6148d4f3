import Mathlib.Data.Fintype.Basic
import CharlotteOs.Mm.MapPage

/-!
# Address spaces on one allocator

`map` and `unmap` work on the page table that they are given, and `map` takes the frames for new
tables from the one buddy allocator and leaves them in a vector, whose `FrameTracker`s return them
when it is dropped. Several address spaces can be built in this way side by side. Each should be a
partial function from virtual pages to physical ones, and what is done to one should not be seen in
another.

So it is, with one reservation. A frame comes from the allocator as its last owner left it. As long
as none has been returned, the frames that were zero in the beginning still are, and every call does
what its name says. Afterwards that is certain only for calls of `map` that make no table. The
vectors are lists: the heap that they grow on is left out.

## Main definitions

* `AddressSpace`, `SpaceSystem`, `SpaceSystem.step`: spaces on one allocator, and calls on them
* `SpaceSystem.translation`, `SpaceOp.apply`: spaces as partial functions, and what a call should do
* `SpaceSystem.Accounted`: every frame is free or in one vector, and the vectors are the tables

## Main results

* `PageTable.map_result`, `PageTable.unmap_result`: a call on one table, with its footprint
* `SpaceSystem.Inv.step`: each call returns and does to the partial functions what it should
* `SpaceSystem.translates_along`: so does every run
-/

namespace CharlotteOs

open DyadicTiling FallibleRun TableTree PageTableEntry BuddySystemFrameAllocator

namespace PageTable

open VirtPageNum (indices)

variable {s s' : BuddySystemFrameAllocator} {m m' : Mem} {free : ℕ → List ℕ} {F : Set ℕ}
  {root a : ℕ} {p q : List (Fin 512)} {i : Fin 512} {new fs fs' : List ℕ} {o : Option ℕ}

/-! ## What `map` writes to -/

/-- The frames `new` were taken from the free ones `F` and made into tables below `root`: nothing
else was written to but the tables that there were, and what was blank is so. -/
structure Extended (s : BuddySystemFrameAllocator) (F : Set ℕ) (root : ℕ)
    (s' : BuddySystemFrameAllocator) (new : List ℕ) : Prop where
  inv : ∃ free, Inv s' free (F \ {f | f ∈ new})
  same : SameOutside (F ∪ frames decode (tables s.mem) root) s.mem s'.mem
  blank : Blank s.mem F → Blank s'.mem (F \ {f | f ∈ new})

theorem Extended.refl (hinv : Inv s free F) (root : ℕ) : Extended s F root s [] where
  inv := ⟨free, by simpa using hinv⟩
  same := .refl _ _
  blank h := by simpa using h

/-- One more frame is taken first. -/
theorem Extended.cons {s₁ : BuddySystemFrameAllocator} {r : ℕ} (hr : r ∈ F)
    (hframes : frames decode (tables s₁.mem) root ⊆ insert r (frames decode (tables s.mem) root))
    (hsame : SameOutside (F ∪ frames decode (tables s.mem) root) s.mem s₁.mem)
    (hblank : Blank s.mem F → Blank s₁.mem (F \ {r}))
    (h : Extended s₁ (F \ {r}) root s' new) : Extended s F root s' (r :: new) := by
  have hset : F \ {f | f ∈ r :: new} = (F \ {r}) \ {f | f ∈ new} := by
    ext f
    simp [and_assoc]
  refine ⟨hset ▸ h.inv, hsame.trans (h.same.mono ?_), fun hF => hset ▸ h.blank (hblank hF)⟩
  rintro f (hf | hf)
  · exact Or.inl hf.1
  · rcases hframes hf with rfl | hf
    · exact Or.inl hr
    · exact Or.inr hf

/-- An entry of one of the tables is written last. -/
theorem Extended.write {s₁ : BuddySystemFrameAllocator} {b w : ℕ} (h : Extended s F root s₁ new)
    (hsub : ∀ f ∈ new, f ∈ F) (hb : b ∈ frames decode (tables s.mem) root ∪ {f | f ∈ new})
    (hdis : b ∉ F \ {f | f ∈ new}) :
    Extended s F root { s₁ with mem := Function.update s₁.mem (b * pageSize + 8 * i) w } new := by
  have hsame : ∀ x, x / pageSize ≠ b →
      Function.update s₁.mem (b * pageSize + 8 * i) w x = s₁.mem x := by
    intro x hx
    refine Function.update_of_ne ?_ _ _
    rintro rfl
    exact hx (slot_page b i)
  obtain ⟨free, hinv⟩ := h.inv
  refine ⟨⟨free, hinv.congr_mem fun x hx => hsame x fun hxb => ?_⟩, fun x hx => ?_,
    fun hF f hf j hj => ?_⟩
  · rw [Set.mem_compl_iff, not_not, hxb] at hx
    exact hdis hx
  · refine (hsame x fun hxb => hx ?_).trans (h.same x hx)
    rw [hxb]
    exact hb.symm.imp (hsub b) id
  · have hne : f ≠ b := by
      rintro rfl
      exact hdis hf
    dsimp only
    rw [tables_update_of_ne (Or.inl hne), h.blank hF f hf j hj]

theorem nonempty_of_alloc {r : ℕ} (hinv : Inv s free F) (h : s.alloc 1 = .ok (some r, s')) :
    F.Nonempty := by
  rcases alloc_spec hinv (n := 1) (by decide) (by decide) with
    ⟨s₁, b, -, -, ⟨hsub, -⟩, -⟩ | ⟨-, hnone⟩
  · exact ⟨b.base, hsub b.base_mem_cells⟩
  · rw [hnone] at h
    cases h

/-- **What `find_create_pte` writes to**: the tables on the way, and frames that it takes. -/
theorem findCreateLoop_extended (hinv : Inv s free F) (htree : TreeIn s.mem root F)
    (ha : tableAt decode (tables s.mem) root p = some a) (hlen : p.length + q.length ≤ 2)
    (hnone : lookup decode (tables s.mem) root (p ++ (q ++ [i])) = none)
    (hblank : missing (tables s.mem) a q ≠ 0 → Blank s.mem F)
    (hrun : findCreateLoop s fs (physToVirt (PhysAddr.ofPpn a)) (q ++ [i]) = .ok (o, s', fs')) :
    ∃ new, fs' = fs ++ new ∧ Extended s F root s' new := by
  induction q generalizing s free F a p fs with
  | nil =>
    cases hrun
    exact ⟨[], (List.append_nil _).symm, .refl hinv root⟩
  | cons j q ih =>
    have ha' := mem_frames ha
    have halt := htree.lt a ha'
    have hrest : q ++ [i] ≠ [] := List.append_ne_nil_of_right_ne_nil _ (by simp)
    rw [List.length_cons] at hlen
    rw [List.cons_append, findCreateLoop_cons hrest, load_entry _ halt] at hrun
    cases hv : isValid (tables s.mem a j) with
    | false =>
      have hempty := decode_of_not_valid hv
      have hblank := hblank (by rw [missing, hempty]; exact Nat.succ_ne_zero _)
      rw [hv, Bool.not_false, if_pos rfl] at hrun
      obtain ⟨⟨frame, s₁⟩, halloc, hrun⟩ := exists_of_bind_eq_ok hrun
      cases frame with
      | none => cases hrun
      | some r =>
        have hF := nonempty_of_alloc hinv halloc
        obtain ⟨s₂, free₂, r₂, halloc₂, hcreate⟩ :=
          create_spec hinv htree hblank hF ha (by omega) hempty
        have halloc₂ : s.alloc 1 = .ok (some r₂, s₂) := halloc₂ id (transparent_id _)
        cases halloc.symm.trans halloc₂
        obtain ⟨s₃, -, r₃, halloc₃, hr, -, hsame, -⟩ := hinv.alloc_frame hF
        cases halloc.symm.trans halloc₃
        obtain ⟨hinv₁, htree₁, hgrown₁, hblank₁, hrlt, hpath₁, hzero₁⟩ := hcreate _ rfl
        dsimp only at hrun
        rw [ppn_new (by omega) (by decide)] at hrun
        obtain ⟨new, hfs, hext⟩ := ih hinv₁ htree₁ hpath₁
          (by simp only [List.length_append, List.length_singleton]; omega)
          (by rw [hgrown₁.lookup, List.append_assoc]; exact hnone) (fun _ => hblank₁) hrun
        refine ⟨r :: new, by rw [hfs, List.append_assoc, List.singleton_append], ?_⟩
        refine hext.cons hr ?_ ?_ fun _ => hblank₁
        · rw [hgrown₁.frames]
          rintro f (hf | hf)
          · exact Or.inr hf
          · exact Or.inl (List.mem_singleton.mp hf)
        · intro x hx
          rw [Set.mem_union, not_or] at hx
          dsimp only
          rw [store_entry _ halt, Function.update_of_ne, hsame x hx.1]
          rintro rfl
          rw [slot_page] at hx
          exact hx.2 ha'
    | true =>
      rw [hv, Bool.not_true, if_neg Bool.false_ne_true] at hrun
      rw [List.cons_append, lookup_append ha, TableTree.lookup] at hnone
      cases hl : isLeaf (tables s.mem a j) with
      | true =>
        rw [decode_of_leaf hv hl] at hnone
        cases hnone
      | false =>
        have htable := decode_of_table hv hl
        have hmissing : missing (tables s.mem) a (j :: q) =
            missing (tables s.mem) (ppn (tables s.mem a j)) q := by
          rw [missing, htable]
        rw [hmissing] at hblank
        have hpath := tableAt_snoc ha htable
        exact ih hinv htree hpath
          (by simp only [List.length_append, List.length_singleton]; omega)
          (by rw [lookup_append hpath]; rw [htable] at hnone; exact hnone) hblank hrun

/-! ## One call -/

variable {vpn ppn flags : ℕ}

/-- **`map` on one table**, with what it writes to. -/
theorem map_result (hinv : Inv s free F) (htree : TreeIn s.mem root F) (hflags : LeafFlags flags)
    (hnone : lookup decode (tables s.mem) root (indices vpn) = none)
    (hblank : missing (tables s.mem) root ((indices vpn).take 2) ≠ 0 → Blank s.mem F)
    (henough : ∃ G : Finset ℕ, ↑G ⊆ F ∧
      missing (tables s.mem) root ((indices vpn).take 2) ≤ G.card) (fs : List ℕ) :
    ∃ s' new, map s (physToVirt (PhysAddr.ofPpn root)) vpn ppn flags fs = .ok (s', fs ++ new) ∧
      new.Nodup ∧ (∀ f ∈ new, f ∈ F) ∧ Extended s F root s' new ∧
      TreeIn s'.mem root (F \ {f | f ∈ new}) ∧
      frames decode (tables s'.mem) root = frames decode (tables s.mem) root ∪ {f | f ∈ new} ∧
      lookup decode (tables s'.mem) root (indices vpn) =
        some (PageTableEntry.new ppn (flags ||| PTEFlags.v), []) ∧
      ∀ q, q.length = 3 → q ≠ indices vpn →
        lookup decode (tables s'.mem) root q = lookup decode (tables s.mem) root q := by
  obtain ⟨s', new, hrun, hnodup, hsub, hframes, -, -, hfound, hother⟩ :=
    map_spec hinv htree hflags hnone hblank henough fs
  have hrun : map s (physToVirt (PhysAddr.ofPpn root)) vpn ppn flags fs = .ok (s', fs ++ new) :=
    hrun id (transparent_id _)
  have hsplit : indices vpn = (indices vpn).take 2 ++ [Fin.ofNat 512 vpn] := rfl
  have hlen : ((indices vpn).take 2).length = 2 := rfl
  rw [hsplit] at hnone
  obtain ⟨s₁, b, new₁, hloop, hgrown, htree₁, hpath⟩ := findCreateLoop_spec hinv htree (p := []) rfl
    (by simp [hlen]) hnone hblank henough fs
  have hloop := hloop id (transparent_id _)
  obtain ⟨new₂, hfs, hext⟩ := findCreateLoop_extended hinv htree (p := []) rfl (by simp [hlen])
    hnone
    hblank hloop
  obtain rfl := List.append_cancel_left hfs
  have hb := mem_frames hpath
  have hblt := htree₁.lt b hb
  have hend := hrun
  rw [map, findCreatePte, hsplit, show s = view id s from rfl, hloop, ok_bind] at hend
  dsimp only [view, id] at hend
  rw [load_entry _ hblt, store_entry _ hblt] at hend
  split at hend
  · cases hend
  · rename_i hvalid
    obtain ⟨rfl, hnew⟩ := Prod.mk.inj (Except.ok.inj hend)
    obtain rfl := List.append_cancel_left hnew
    have hempty := decode_of_not_valid (Bool.eq_false_of_not_eq_true hvalid)
    have hout := Set.disjoint_left.mp htree₁.disjoint hb
    obtain ⟨htree', hsame, -⟩ := isTree_update htree₁.tree hpath (i := Fin.ofNat 512 vpn)
      (w := PageTableEntry.new ppn (flags ||| PTEFlags.v))
      (fun c hc => by rw [hempty] at hc; cases hc)
      (fun c hc => by rw [hflags.decode_new ppn] at hc; cases hc)
    refine ⟨_, new₁, hrun, hnodup, hsub, hext.write hsub (hgrown.frames ▸ hb) hout, ?_, hframes,
      hfound, hother⟩
    exact ⟨htree', hsame ▸ htree₁.lt, hsame ▸ htree₁.disjoint⟩

/-- **`unmap` on one table** where the page has a leaf of its own. -/
theorem unmap_result {l : ℕ} (htree : TreeIn m root F)
    (hfound : lookup decode (tables m) root (indices vpn) = some (l, [])) :
    ∃ m', unmap m (physToVirt (PhysAddr.ofPpn root)) vpn .fourKB = .ok m' ∧ TreeIn m' root F ∧
      SameOutside (frames decode (tables m) root) m m' ∧
      frames decode (tables m') root = frames decode (tables m) root ∧
      lookup decode (tables m') root (indices vpn) = none ∧
      ∀ q, q.length = 3 → q ≠ indices vpn →
        lookup decode (tables m') root q = lookup decode (tables m) root q := by
  have hsplit : indices vpn = (indices vpn).take 2 ++ [Fin.ofNat 512 vpn] := rfl
  have hpath : (indices vpn).take PageSize.fourKB.targetLevel =
      (indices vpn).take 2 ++ [Fin.ofNat 512 vpn] := rfl
  have hlen : (indices vpn).length = 3 := rfl
  have hleaf := mem_leaves_iff.mpr hfound
  rw [hsplit] at hleaf
  obtain ⟨b, hb, hl⟩ := exists_of_mem_leaves hleaf
  obtain ⟨htree', hframes, -, hleaves⟩ := isTree_update (w := PageTableEntry.empty) htree.tree hb
    (fun c hc => by rw [hl] at hc; cases hc) (fun c hc => by rw [decode_empty] at hc; cases hc)
  have hsame : ∀ f ∈ frames decode (tables m) root, ∀ j, f ≠ b ∨ j ≠ Fin.ofNat 512 vpn →
      tables (Function.update m (b * pageSize + 8 * (Fin.ofNat 512 vpn : Fin 512))
        PageTableEntry.empty) f j = tables m f j := fun f _ j h => tables_update_of_ne h
  refine ⟨_, (unmap_eq_ok hpath htree.lt).mpr ⟨b, hb, by rw [hl]; nofun, rfl⟩,
    ⟨htree', hframes ▸ htree.lt, hframes ▸ htree.disjoint⟩, fun x hx => ?_, hframes, ?_,
    fun q hq hne => ?_⟩
  · refine Function.update_of_ne ?_ _ _
    rintro rfl
    rw [slot_page] at hx
    exact hx (mem_frames hb)
  · rw [lookup_eq_none_iff, hleaves]
    rintro x (⟨hx, hne⟩ | ⟨-, hempty⟩) hpre
    · refine hne (leaf_paths_eq hx hleaf ?_)
      rwa [← hsplit]
    · cases hempty
  · refine htree.tree.lookup_write hb hsame fun hpre => hne ?_
    rw [← hsplit] at hpre
    exact (hpre.eq_of_length (hlen.trans hq.symm)).symm

end PageTable

namespace BuddySystemFrameAllocator

variable {s : BuddySystemFrameAllocator} {free : ℕ → List ℕ} {F : Set ℕ}

/-- **A vector of frames is dropped**, and all of them are free. -/
theorem Inv.dealloc_frames {fs : List ℕ} (h : Inv s free F) (hnodup : fs.Nodup)
    (hout : ∀ f ∈ fs, f ∉ F) (haddr : Addressable {f | f ∈ fs}) :
    ∃ s', exec (fun s ppn => dealloc s ppn 1) s fs = .ok s' ∧
      (∃ free', Inv s' free' (F ∪ {f | f ∈ fs})) ∧ SameOutside (F ∪ {f | f ∈ fs}) s.mem s'.mem := by
  induction fs generalizing s free F with
  | nil => exact ⟨s, rfl, ⟨free, by simpa using h⟩, .refl _ _⟩
  | cons f fs ih =>
    obtain ⟨hf, hnodup⟩ := List.nodup_cons.mp hnodup
    have hbase : (Block.containing 0 f).base = f := Block.containing_base (by simp)
    obtain ⟨s₁, ⟨hsame₁, free₁, hinv₁, -⟩, hrun₁⟩ :=
      dealloc_spec (b := Block.containing 0 f) h (n := 1)
      (by decide) (by decide) (by simp [Block.containing_order])
      (by rw [Block.containing_order]; decide)
      (by rw [Block.cells_containing_zero, Set.disjoint_singleton_left]
          exact hout f List.mem_cons_self)
      (by rw [Block.cells_containing_zero]; exact haddr.mono (by simp))
    rw [Block.cells_containing_zero] at hsame₁ hinv₁
    rw [hbase] at hrun₁
    have hset : F ∪ {x | x ∈ f :: fs} = F ∪ {f} ∪ {x | x ∈ fs} := by
      ext x
      simp only [Set.mem_union, Set.mem_ofPred_eq, List.mem_cons, Set.mem_singleton_iff, or_assoc]
    obtain ⟨s', hrun, hinv, hsame⟩ := ih hinv₁ hnodup
      (fun x hx => by
        rintro (hxF | rfl)
        · exact hout x (List.mem_cons_of_mem _ hx) hxF
        · exact hf hx)
      (haddr.mono fun x hx => List.mem_cons_of_mem _ hx)
    refine ⟨s', (exec_cons_of_ok hrun₁ fs).trans hrun, hset ▸ hinv, hset ▸ ?_⟩
    exact (hsame₁.mono Set.subset_union_left).trans hsame

end BuddySystemFrameAllocator

/-! ## Address spaces -/

/-- An address space: the page of its root table, and the frames of its other tables, in the vector
that is passed to `map`. -/
structure AddressSpace where
  root : ℕ
  frames : List ℕ
  deriving DecidableEq, Repr

/-- A call on an address space. The last drops its vector of frames, and ends it. -/
inductive SpaceOp (ι : Type)
  | map (i : ι) (vpn ppn flags : ℕ)
  | unmap (i : ι) (vpn : ℕ)
  | drop (i : ι)

/-- Address spaces on one allocator, and whether a frame has been returned to it. -/
structure SpaceSystem (ι : Type) where
  buddy : BuddySystemFrameAllocator
  space : ι → Option AddressSpace
  dropped : Bool

namespace SpaceOp

variable {ι : Type} [DecidableEq ι]

/-- What a call should do to spaces as partial functions from virtual pages to physical pages and
flags. -/
def apply (g : ι → Option (ℕ → Option (ℕ × ℕ))) : SpaceOp ι → ι → Option (ℕ → Option (ℕ × ℕ))
  | .map i vpn ppn flags => Function.update g i
      ((g i).map fun f => Function.update f vpn (some (ppn, flags ||| PTEFlags.v)))
  | .unmap i vpn => Function.update g i ((g i).map fun f => Function.update f vpn none)
  | .drop i => Function.update g i none

end SpaceOp

namespace SpaceSystem

open PageTable
open VirtPageNum (indices)

section Model

variable {ι : Type}

/-- The address spaces before any call. -/
def new (buddy : BuddySystemFrameAllocator) (roots : ι → ℕ) : SpaceSystem ι :=
  ⟨buddy, fun i => some ⟨roots i, []⟩, false⟩

/-- What the hardware makes of the spaces. -/
def translation (t : SpaceSystem ι) (i : ι) : Option (ℕ → Option (ℕ × ℕ)) :=
  (t.space i).map fun sp vpn => if vpn < 2 ^ 27 then walk (tables t.buddy.mem) sp.root vpn else none

variable [DecidableEq ι]

/-- One call. There is none on a space that has ended. -/
def step (t : SpaceSystem ι) : SpaceOp ι → Except Fault (SpaceSystem ι)
  | .map i vpn ppn flags =>
    match t.space i with
    | none => .ok t
    | some sp => do
      let (buddy, frames) ←
        PageTable.map t.buddy (physToVirt (PhysAddr.ofPpn sp.root)) vpn ppn flags
        sp.frames
      .ok { t with buddy, space := Function.update t.space i (some { sp with frames }) }
  | .unmap i vpn =>
    match t.space i with
    | none => .ok t
    | some sp => do
      let mem ← PageTable.unmap t.buddy.mem (physToVirt (PhysAddr.ofPpn sp.root)) vpn .fourKB
      .ok { t with buddy.mem := mem }
  | .drop i =>
    match t.space i with
    | none => .ok t
    | some sp => do
      let buddy ← exec (fun buddy ppn => dealloc buddy ppn 1) t.buddy sp.frames
      .ok ⟨buddy, Function.update t.space i none, t.dropped || !sp.frames.isEmpty⟩

variable [Fintype ι]

/-- The frames in vectors. -/
def used (t : SpaceSystem ι) : Finset ℕ :=
  Finset.univ.biUnion fun i => (t.space i).elim ∅ fun sp => sp.frames.toFinset

/-- The calls that can be made, where the allocator manages the frames `M`: a page that is mapped
was not, and one that is taken out was; there are enough frames for the tables that are missing, and
none has been returned if one is needed. -/
def Allowed (M : Finset ℕ) (t : SpaceSystem ι) : SpaceOp ι → Prop
  | .map i vpn ppn flags => vpn < 2 ^ 27 ∧ ppn < 2 ^ 44 ∧ LeafFlags flags ∧ ∃ sp ∈ t.space i,
      walk (tables t.buddy.mem) sp.root vpn = none ∧
      missing (tables t.buddy.mem) sp.root ((indices vpn).take 2) ≤ (M \ t.used).card ∧
      (missing (tables t.buddy.mem) sp.root ((indices vpn).take 2) ≠ 0 → t.dropped = false)
  | .unmap i vpn => vpn < 2 ^ 27 ∧ ∃ sp ∈ t.space i, walk (tables t.buddy.mem) sp.root vpn ≠ none
  | .drop i => t.space i ≠ none

/-- **Every frame is accounted for**: it is free or in a vector, in one vector only and there once,
and the vector of a space has its tables but for the root. -/
structure Accounted (M : Finset ℕ) (t : SpaceSystem ι) : Prop where
  free : t.buddy.freePages = ↑(M \ t.used)
  managed : t.used ⊆ M
  tables : ∀ i sp, t.space i = some sp → sp.frames.Nodup ∧
    frames decode (tables t.buddy.mem) sp.root = insert sp.root {f | f ∈ sp.frames}
  apart : ∀ i j sp sp', i ≠ j → t.space i = some sp → t.space j = some sp' →
    List.Disjoint sp.frames sp'.frames

end Model

/-! ## The invariant -/

end SpaceSystem

namespace AddressSpace

open PageTable

/-- The tables of a space. -/
def pages (sp : AddressSpace) : Set ℕ := insert sp.root {f | f ∈ sp.frames}

/-- A space in memory: its tables are a tree, each page has a leaf of its own, and the leaves are
such as `map` makes. -/
structure Ok (m : Mem) (sp : AddressSpace) : Prop where
  tree : IsTree decode (tables m) 2 sp.root
  reached : TableTree.frames decode (tables m) sp.root = sp.pages
  lt : ∀ f ∈ sp.pages, f < 2 ^ 20
  nodup : sp.frames.Nodup
  leaf : ∀ q, q.length = 3 → ∀ l r, lookup decode (tables m) sp.root q = some (l, r) →
    r = [] ∧ ∃ p f, p < 2 ^ 44 ∧ LeafFlags f ∧ l = PageTableEntry.new p (f ||| PTEFlags.v)

variable {m m' : Mem} {sp : AddressSpace} {F : Set ℕ}

theorem Ok.treeIn (h : sp.Ok m) (hdis : Disjoint sp.pages F) : TreeIn m sp.root F where
  tree := h.tree
  lt := h.reached ▸ h.lt
  disjoint := h.reached ▸ hdis

/-- A space does not notice writes to other frames. -/
theorem Ok.congr (h : sp.Ok m) (hdis : Disjoint sp.pages F) (hsame : SameOutside F m m') :
    sp.Ok m' ∧ ∀ q, lookup decode (tables m') sp.root q =
      lookup decode (tables m) sp.root q := by
  obtain ⟨htree, hpath, hlookup⟩ := (h.treeIn hdis).congr hsame
  refine ⟨⟨htree.tree, ?_, h.lt, h.nodup, fun q hq l r hl => ?_⟩, hlookup⟩
  · rw [← h.reached]
    simp only [TableTree.frames, hpath]
  · exact h.leaf q hq l r ((hlookup q).symm.trans hl)

/-- A space with more tables, in which one key finds something else. -/
theorem Ok.extend (h : sp.Ok m) {new : List ℕ} {G : Set ℕ} {key : List (Fin 512)}
    (htree : TreeIn m' sp.root G) (hnodup : (sp.frames ++ new).Nodup)
    (hreached : TableTree.frames decode (tables m') sp.root =
      TableTree.frames decode (tables m) sp.root ∪ {f | f ∈ new})
    (hkey : ∀ l r, lookup decode (tables m') sp.root key = some (l, r) →
      r = [] ∧ ∃ p f, p < 2 ^ 44 ∧ LeafFlags f ∧ l = PageTableEntry.new p (f ||| PTEFlags.v))
    (hother : ∀ q, q.length = 3 → q ≠ key →
      lookup decode (tables m') sp.root q = lookup decode (tables m) sp.root q) :
    Ok m' ⟨sp.root, sp.frames ++ new⟩ := by
  have hpages : TableTree.frames decode (tables m') sp.root =
      pages ⟨sp.root, sp.frames ++ new⟩ := by
    rw [hreached, h.reached]
    ext f
    simp [pages, or_assoc]
  refine ⟨htree.tree, hpages, hpages ▸ htree.lt, hnodup, fun q hq l r hl => ?_⟩
  by_cases hne : q = key
  · exact hkey l r (hne ▸ hl)
  · exact h.leaf q hq l r ((hother q hq hne).symm.trans hl)

/-- A page is found by the hardware exactly if it has a leaf. -/
theorem Ok.lookup_of_walk (h : sp.Ok m) {vpn : ℕ}
    (hwalk : walk (tables m) sp.root vpn ≠ none) :
    ∃ l, lookup decode (tables m) sp.root (VirtPageNum.indices vpn) = some (l, []) := by
  rw [walk] at hwalk
  cases hl : lookup decode (tables m) sp.root (VirtPageNum.indices vpn) with
  | none =>
    rw [hl] at hwalk
    exact absurd rfl hwalk
  | some x =>
    obtain ⟨l, r⟩ := x
    obtain ⟨rfl, -⟩ := h.leaf _ rfl l r hl
    exact ⟨l, rfl⟩

theorem Ok.lookup_eq_none (h : sp.Ok m) {vpn : ℕ}
    (hwalk : walk (tables m) sp.root vpn = none) :
    lookup decode (tables m) sp.root (VirtPageNum.indices vpn) = none := by
  cases hl : lookup decode (tables m) sp.root (VirtPageNum.indices vpn) with
  | none => rfl
  | some x =>
    obtain ⟨l, r⟩ := x
    obtain ⟨rfl, p, f, hp, hf, rfl⟩ := h.leaf _ rfl l r hl
    rw [walk_of_leaf hp hf (one_dvd _) hl] at hwalk
    cases hwalk

end AddressSpace

namespace SpaceSystem

open PageTable
open VirtPageNum (indices)

variable {ι : Type} [Fintype ι] {M : Finset ℕ} {t t' : SpaceSystem ι} {i : ι} {sp : AddressSpace}

theorem mem_used {f : ℕ} : f ∈ t.used ↔ ∃ i sp, t.space i = some sp ∧ f ∈ sp.frames := by
  rw [used, Finset.mem_biUnion]
  constructor
  · rintro ⟨i, -, hf⟩
    cases hi : t.space i with
    | none =>
      rw [hi] at hf
      cases hf
    | some sp =>
      rw [hi] at hf
      exact ⟨i, sp, hi, List.mem_toFinset.mp hf⟩
  · rintro ⟨i, sp, hi, hf⟩
    refine ⟨i, Finset.mem_univ i, ?_⟩
    rw [hi]
    exact List.mem_toFinset.mpr hf

/-- The invariant. -/
structure Inv (M : Finset ℕ) (t : SpaceSystem ι) : Prop where
  addressable : Addressable ↑M
  buddy : ∃ free, BuddySystemFrameAllocator.Inv t.buddy free ↑(M \ t.used)
  blank : t.dropped = false → Blank t.buddy.mem ↑(M \ t.used)
  ok : ∀ i sp, t.space i = some sp → sp.Ok t.buddy.mem ∧ sp.root ∉ M ∧ ∀ f ∈ sp.frames, f ∈ M
  apart : ∀ i j sp sp', i ≠ j → t.space i = some sp → t.space j = some sp' →
    Disjoint sp.pages sp'.pages

theorem Inv.disjoint_free (h : t.Inv M) (hi : t.space i = some sp) :
    Disjoint sp.pages ↑(M \ t.used) := by
  rw [Set.disjoint_left]
  rintro f (rfl | hf) hfree
  · exact (h.ok i sp hi).2.1 (Finset.mem_sdiff.mp hfree).1
  · exact (Finset.mem_sdiff.mp hfree).2 (mem_used.mpr ⟨i, sp, hi, hf⟩)

theorem Inv.accounted (h : t.Inv M) : t.Accounted M := by
  obtain ⟨free, hbuddy⟩ := h.buddy
  refine ⟨hbuddy.freePages_eq, fun f hf => ?_, fun i sp hi => ?_,
    fun i j sp sp' hne hi hj f hf hf' => ?_⟩
  · obtain ⟨i, sp, hi, hf⟩ := mem_used.mp hf
    exact (h.ok i sp hi).2.2 f hf
  · exact ⟨(h.ok i sp hi).1.nodup, (h.ok i sp hi).1.reached⟩
  · exact Set.disjoint_left.mp (h.apart i j sp sp' hne hi hj) (Or.inr hf) (Or.inr hf')

variable [DecidableEq ι] {op : SpaceOp ι}

/-- **What a call does to the other spaces**: nothing, if it writes to the tables of its own space
and to free frames, and makes tables of those only. -/
theorem Inv.of_call (h : t.Inv M) (hi : t.space i = some sp) {o : Option AddressSpace}
    (hspace : t'.space = Function.update t.space i o)
    (hbuddy : ∃ free, BuddySystemFrameAllocator.Inv t'.buddy free ↑(M \ t'.used))
    (hblank : t'.dropped = false → Blank t'.buddy.mem ↑(M \ t'.used))
    (hsame : SameOutside (↑(M \ t.used) ∪ sp.pages) t.buddy.mem t'.buddy.mem)
    (hown : ∀ sp', o = some sp' → sp'.Ok t'.buddy.mem ∧ sp'.root = sp.root ∧
      ∀ f ∈ sp'.frames, f ∈ sp.frames ∨ f ∈ M \ t.used) :
    t'.Inv M ∧ ∀ j, j ≠ i → t'.translation j = t.translation j := by
  have hother : ∀ j sp', j ≠ i → t'.space j = some sp' → t.space j = some sp' := by
    intro j sp' hne hj
    rwa [hspace, Function.update_of_ne hne] at hj
  have houtside : ∀ j sp', j ≠ i → t.space j = some sp' →
      Disjoint sp'.pages (↑(M \ t.used) ∪ sp.pages) := by
    intro j sp' hne hj
    exact (h.disjoint_free hj).union_right (h.apart j i sp' sp hne hj hi)
  have hkept : ∀ j sp', j ≠ i → t.space j = some sp' → sp'.Ok t'.buddy.mem ∧
      ∀ q, lookup decode (tables t'.buddy.mem) sp'.root q =
        lookup decode (tables t.buddy.mem) sp'.root q := by
    intro j sp' hne hj
    exact (h.ok j sp' hj).1.congr (houtside j sp' hne hj) hsame
  have hpages : ∀ sp', o = some sp' → sp'.pages ⊆ ↑(M \ t.used) ∪ sp.pages := by
    rintro sp' ho f (rfl | hf)
    · exact Or.inr (Or.inl (hown sp' ho).2.1)
    · rcases (hown sp' ho).2.2 f hf with hf | hf
      · exact Or.inr (Or.inr hf)
      · exact Or.inl hf
  have hspaceSelf : t'.space i = o := by rw [hspace, Function.update_self]
  refine ⟨⟨h.addressable, hbuddy, hblank, fun j sp' hj => ?_, fun j k sp₁ sp₂ hne hj hk => ?_⟩,
    fun j hne => ?_⟩
  · by_cases hji : j = i
    · subst hji
      obtain ⟨hok, hroot, hframes⟩ := hown sp' (hspaceSelf.symm.trans hj)
      obtain ⟨-, hout, hmanaged⟩ := h.ok j sp hi
      refine ⟨hok, hroot ▸ hout, fun f hf => ?_⟩
      exact (hframes f hf).elim (hmanaged f) fun hfree => (Finset.mem_sdiff.mp hfree).1
    · exact ⟨(hkept j sp' hji (hother j sp' hji hj)).1, (h.ok j sp' (hother j sp' hji hj)).2⟩
  · by_cases hji : j = i
    · subst hji
      exact ((houtside k sp₂ hne.symm (hother k sp₂ hne.symm hk)).mono_right
        (hpages sp₁ (hspaceSelf.symm.trans hj))).symm
    · by_cases hki : k = i
      · subst hki
        exact (houtside j sp₁ hji (hother j sp₁ hji hj)).mono_right
          (hpages sp₂ (hspaceSelf.symm.trans hk))
      · exact h.apart j k sp₁ sp₂ hne (hother j sp₁ hji hj) (hother k sp₂ hki hk)
  · rw [translation, translation, hspace, Function.update_of_ne hne]
    cases hj : t.space j with
    | none => rfl
    | some sp' =>
      refine congrArg some (funext fun vpn => ?_)
      dsimp only
      rw [walk_congr ((hkept j sp' hne hj).2 (indices vpn))]

/-- The frames in vectors after the vector of one space has changed. -/
theorem mem_used_update {o : Option AddressSpace} (hspace : t'.space = Function.update t.space i o)
    {f : ℕ} : f ∈ t'.used ↔ (∃ sp', o = some sp' ∧ f ∈ sp'.frames) ∨
      ∃ j sp', j ≠ i ∧ t.space j = some sp' ∧ f ∈ sp'.frames := by
  rw [mem_used, hspace]
  constructor
  · rintro ⟨j, sp', hj, hf⟩
    by_cases hji : j = i
    · subst hji
      rw [Function.update_self] at hj
      exact Or.inl ⟨sp', hj, hf⟩
    · rw [Function.update_of_ne hji] at hj
      exact Or.inr ⟨j, sp', hji, hj, hf⟩
  · rintro (⟨sp', ho, hf⟩ | ⟨j, sp', hji, hj, hf⟩)
    · exact ⟨i, sp', by rw [Function.update_self, ho], hf⟩
    · exact ⟨j, sp', by rw [Function.update_of_ne hji, hj], hf⟩

omit [Fintype ι] [DecidableEq ι] in
theorem translation_of_space (hi : t.space i = some sp) : t.translation i =
    some fun vpn => if vpn < 2 ^ 27 then walk (tables t.buddy.mem) sp.root vpn else none := by
  rw [translation, hi]
  rfl

/-- The frames in vectors after more have come to the vector of one space. -/
theorem mem_used_append {new : List ℕ} (hi : t.space i = some sp)
    (hspace : t'.space = Function.update t.space i (some ⟨sp.root, sp.frames ++ new⟩)) {f : ℕ} :
    f ∈ t'.used ↔ f ∈ t.used ∨ f ∈ new := by
  rw [mem_used_update hspace, mem_used]
  constructor
  · rintro (⟨sp', ho, hf⟩ | ⟨j, sp', -, hj, hf⟩)
    · cases ho
      exact (List.mem_append.mp hf).imp (fun hf => ⟨i, sp, hi, hf⟩) id
    · exact Or.inl ⟨j, sp', hj, hf⟩
  · rintro (⟨j, sp', hj, hf⟩ | hf)
    · by_cases hji : j = i
      · subst hji
        cases hi.symm.trans hj
        exact Or.inl ⟨_, rfl, List.mem_append_left _ hf⟩
      · exact Or.inr ⟨j, sp', hji, hj, hf⟩
    · exact Or.inl ⟨_, rfl, List.mem_append_right _ hf⟩

omit [Fintype ι] [DecidableEq ι] in
/-- A space in which one page is found at another place. -/
theorem translation_update {vpn : ℕ} {new : List ℕ} {x : Option (ℕ × ℕ)} (hi : t.space i = some sp)
    (hi' : t'.space i = some ⟨sp.root, sp.frames ++ new⟩) (hvpn : vpn < 2 ^ 27)
    (hwalk : walk (tables t'.buddy.mem) sp.root vpn = x)
    (hother : ∀ q, q.length = 3 → q ≠ indices vpn →
      lookup decode (tables t'.buddy.mem) sp.root q =
        lookup decode (tables t.buddy.mem) sp.root q) :
    t'.translation i = (t.translation i).map fun f => Function.update f vpn x := by
  rw [translation_of_space hi', translation_of_space hi, Option.map_some]
  refine congrArg some (funext fun v => ?_)
  by_cases hv : v = vpn
  · subst hv
    rw [if_pos hvpn, Function.update_self, hwalk]
  · rw [Function.update_of_ne hv]
    split
    · rename_i hlt
      exact walk_congr (hother _ rfl fun heq => hv (VirtPageNum.indices_inj hlt hvpn heq))
    · rfl

/-- **`map`** enters the page. The new frames were free, so none of them is in the vector. -/
theorem Inv.step_map {vpn ppn flags : ℕ} (h : t.Inv M)
    (hallowed : t.Allowed M (.map i vpn ppn flags)) :
    ∃ t', t.step (.map i vpn ppn flags) = .ok t' ∧ t'.Inv M ∧
      t'.translation = SpaceOp.apply t.translation (.map i vpn ppn flags) := by
  obtain ⟨hvpn, hppn, hflags, sp, hi, hwalk, henough, hdropped⟩ := hallowed
  have hi : t.space i = some sp := hi
  have hok := (h.ok i sp hi).1
  obtain ⟨free, hbuddy⟩ := h.buddy
  obtain ⟨buddy', new, hrun, hnodup, hsub, hext, htree, hframes, hfound, hother⟩ :=
    map_result hbuddy (hok.treeIn (h.disjoint_free hi)) hflags (hok.lookup_eq_none hwalk)
      (fun hm => h.blank (hdropped hm)) ⟨M \ t.used, subset_rfl, henough⟩ sp.frames
  refine ⟨⟨buddy', Function.update t.space i (some ⟨sp.root, sp.frames ++ new⟩), t.dropped⟩,
    by rw [step, hi]; dsimp only; rw [hrun, ok_bind], ?_⟩
  generalize ht' :
    (⟨buddy', Function.update t.space i (some ⟨sp.root, sp.frames ++ new⟩), t.dropped⟩ :
      SpaceSystem ι) = t'
  have hspace : t'.space = Function.update t.space i (some ⟨sp.root, sp.frames ++ new⟩) := by
    rw [← ht']
  have hdrop : t'.dropped = t.dropped := by rw [← ht']
  obtain rfl : t'.buddy = buddy' := by rw [← ht']
  have hfree : (↑(M \ t'.used) : Set ℕ) = ↑(M \ t.used) \ {f | f ∈ new} := by
    ext f
    simp [mem_used_append hi hspace, and_assoc]
  have hnodup' : (sp.frames ++ new).Nodup := by
    refine List.nodup_append'.mpr ⟨hok.nodup, hnodup, fun f hf hf' => ?_⟩
    exact (Finset.mem_sdiff.mp (hsub f hf')).2 (mem_used.mpr ⟨i, sp, hi, hf⟩)
  have hwalk' : walk (tables t'.buddy.mem) sp.root vpn = some (ppn, flags ||| PTEFlags.v) := by
    have hwalk := walk_of_leaf hppn hflags (one_dvd _) hfound
    rwa [List.length_nil, pow_zero, Nat.mod_one, Nat.add_zero] at hwalk
  obtain ⟨hinv', hsame⟩ := h.of_call hi hspace (hfree ▸ hext.inv)
    (fun hd => hfree ▸ hext.blank (h.blank (hdrop ▸ hd))) (hok.reached ▸ hext.same) fun sp' ho => by
      cases ho
      refine ⟨hok.extend htree hnodup' hframes (fun l r hl => ?_) hother, rfl, fun f hf =>
        (List.mem_append.mp hf).imp id (hsub f)⟩
      cases hfound.symm.trans hl
      exact ⟨rfl, ppn, flags, hppn, hflags, rfl⟩
  refine ⟨hinv', Function.eq_update_iff.mpr ⟨?_, hsame⟩⟩
  exact translation_update hi (by rw [hspace, Function.update_self]) hvpn hwalk' hother

/-- **`unmap`** takes the page out. -/
theorem Inv.step_unmap {vpn : ℕ} (h : t.Inv M) (hallowed : t.Allowed M (.unmap i vpn)) :
    ∃ t', t.step (.unmap i vpn) = .ok t' ∧ t'.Inv M ∧
      t'.translation = SpaceOp.apply t.translation (.unmap i vpn) := by
  obtain ⟨hvpn, sp, hi, hwalk⟩ := hallowed
  have hi : t.space i = some sp := hi
  have hok := (h.ok i sp hi).1
  obtain ⟨free, hbuddy⟩ := h.buddy
  obtain ⟨l, hfound⟩ := hok.lookup_of_walk hwalk
  obtain ⟨mem, hrun, htree, hsame, hframes, hnone, hother⟩ :=
    unmap_result (hok.treeIn (h.disjoint_free hi)) hfound
  refine ⟨⟨{ t.buddy with mem }, t.space, t.dropped⟩,
    by rw [step, hi]; dsimp only; rw [hrun, ok_bind], ?_⟩
  generalize ht' : (⟨{ t.buddy with mem }, t.space, t.dropped⟩ : SpaceSystem ι) = t'
  have hspace : t'.space = Function.update t.space i (some ⟨sp.root, sp.frames ++ []⟩) := by
    rw [← ht', List.append_nil]
    exact (Function.update_eq_self_iff.mpr hi.symm).symm
  have hdrop : t'.dropped = t.dropped := by rw [← ht']
  obtain rfl : t'.buddy.mem = mem := by rw [← ht']
  have hused : t'.used = t.used := by
    ext f
    simp [mem_used_append hi hspace]
  rw [hok.reached] at hsame
  have hunwritten : SameOutside (↑(M \ t.used) : Set ℕ)ᶜ t.buddy.mem t'.buddy.mem := by
    refine hsame.mono fun f hf hfree => ?_
    exact Set.disjoint_left.mp (h.disjoint_free hi) hf hfree
  have hbuddy' : BuddySystemFrameAllocator.Inv t'.buddy free ↑(M \ t.used) := by
    have hcongr := hbuddy.congr_mem hunwritten
    rwa [← ht'] at hcongr ⊢
  obtain ⟨hinv', hsame⟩ := h.of_call hi hspace ⟨free, hused ▸ hbuddy'⟩ (fun hd f hf j hj => by
      rw [hused] at hf
      rw [tables, hunwritten _ (by rw [slot_page, Set.mem_compl_iff, not_not]; exact hf)]
      exact h.blank (hdrop ▸ hd) f hf j hj)
    (hsame.mono Set.subset_union_right) fun sp' ho => by
      cases ho
      refine ⟨hok.extend htree (by rw [List.append_nil]; exact hok.nodup) (by simp [hframes])
        (fun l r hl => ?_) hother, rfl, fun f hf => Or.inl (by simpa using hf)⟩
      rw [hnone] at hl
      cases hl
  have hwalk' : walk (tables t'.buddy.mem) sp.root vpn = none := by rw [walk, hnone]
  refine ⟨hinv', Function.eq_update_iff.mpr ⟨?_, hsame⟩⟩
  exact translation_update hi (by rw [hspace, Function.update_self]) hvpn hwalk' hother

/-- **The end of a space** returns its frames. No frame is in two vectors. -/
theorem Inv.step_drop (h : t.Inv M) (hallowed : t.Allowed M (.drop i)) :
    ∃ t', t.step (.drop i) = .ok t' ∧ t'.Inv M ∧
      t'.translation = SpaceOp.apply t.translation (.drop i) := by
  obtain ⟨sp, hi⟩ := Option.ne_none_iff_exists'.mp hallowed
  obtain ⟨hok, -, hmanaged⟩ := h.ok i sp hi
  obtain ⟨free, hbuddy⟩ := h.buddy
  have hinUse : ∀ f ∈ sp.frames, f ∈ t.used := fun f hf => mem_used.mpr ⟨i, sp, hi, hf⟩
  obtain ⟨buddy', hrun, hinv', hsame⟩ := hbuddy.dealloc_frames hok.nodup
    (fun f hf hfree => (Finset.mem_sdiff.mp hfree).2 (hinUse f hf)) (h.addressable.mono hmanaged)
  refine ⟨⟨buddy', Function.update t.space i none, t.dropped || !sp.frames.isEmpty⟩,
    by rw [step, hi]; dsimp only; rw [hrun, ok_bind], ?_⟩
  generalize ht' : (⟨buddy', Function.update t.space i none, t.dropped || !sp.frames.isEmpty⟩ :
    SpaceSystem ι) = t'
  have hspace : t'.space = Function.update t.space i none := by rw [← ht']
  have hdrop : t'.dropped = (t.dropped || !sp.frames.isEmpty) := by rw [← ht']
  obtain rfl : t'.buddy = buddy' := by rw [← ht']
  have hused : ∀ f, f ∈ t'.used ↔ f ∈ t.used ∧ f ∉ sp.frames := by
    intro f
    rw [mem_used_update hspace, mem_used]
    constructor
    · rintro (⟨sp', ho, -⟩ | ⟨j, sp', hji, hj, hf⟩)
      · cases ho
      · exact ⟨⟨j, sp', hj, hf⟩, h.accounted.apart j i sp' sp hji hj hi hf⟩
    · rintro ⟨⟨j, sp', hj, hf⟩, hout⟩
      refine Or.inr ⟨j, sp', ?_, hj, hf⟩
      rintro rfl
      cases hi.symm.trans hj
      exact hout hf
  have hfree : (↑(M \ t'.used) : Set ℕ) = ↑(M \ t.used) ∪ {f | f ∈ sp.frames} := by
    ext f
    rw [Finset.mem_coe, Finset.mem_sdiff, hused, Set.mem_union, Finset.mem_coe, Finset.mem_sdiff]
    constructor
    · rintro ⟨hM, hout⟩
      by_cases hf : f ∈ sp.frames
      · exact Or.inr hf
      · exact Or.inl ⟨hM, fun hu => hout ⟨hu, hf⟩⟩
    · rintro (⟨hM, hout⟩ | hf)
      · exact ⟨hM, fun hu => hout hu.1⟩
      · exact ⟨hmanaged f hf, fun hu => hu.2 hf⟩
  obtain ⟨hinv', hothers⟩ := h.of_call hi hspace (hfree ▸ hinv') (fun hd => by
      rw [hdrop, Bool.or_eq_false_iff, Bool.not_eq_false', List.isEmpty_iff] at hd
      rw [hd.2] at hrun hfree
      rw [hfree, ← Except.ok.inj hrun]
      simpa using h.blank hd.1)
    (hsame.mono (Set.union_subset_union_right _ fun f hf => Or.inr hf)) fun sp' ho => by cases ho
  refine ⟨hinv', Function.eq_update_iff.mpr ⟨?_, hothers⟩⟩
  rw [translation, hspace, Function.update_self]
  rfl

/-- **One call** returns, keeps the invariant, and does to the partial functions what it should. -/
theorem Inv.step (h : t.Inv M) (hallowed : t.Allowed M op) :
    ∃ t', t.step op = .ok t' ∧ t'.Inv M ∧ t'.translation = op.apply t.translation := by
  cases op with
  | map i vpn ppn flags => exact h.step_map hallowed
  | unmap i vpn => exact h.step_unmap hallowed
  | drop i => exact h.step_drop hallowed

omit [DecidableEq ι] in
theorem Inv.new {buddy : BuddySystemFrameAllocator} {free : ℕ → List ℕ} {roots : ι → ℕ}
    (hinv : BuddySystemFrameAllocator.Inv buddy free ↑M) (hblank : Blank buddy.mem ↑M)
    (hroots : Function.Injective roots) (hout : ∀ i, roots i < 2 ^ 20 ∧ roots i ∉ M)
    (hempty : ∀ i k, tables buddy.mem (roots i) k = PageTableEntry.empty) :
    Inv M (new buddy roots) := by
  have hused : (SpaceSystem.new buddy roots).used = ∅ := by
    rw [Finset.eq_empty_iff_forall_notMem]
    rintro f hf
    obtain ⟨i, sp, hi, hf⟩ := mem_used.mp hf
    cases hi
    cases hf
  have hfree : (↑(M \ (SpaceSystem.new buddy roots).used) : Set ℕ) = ↑M := by
    rw [hused, Finset.sdiff_empty]
  refine ⟨hinv.addressable, ⟨free, hfree ▸ hinv⟩, fun _ => hfree ▸ hblank, fun i sp hi => ?_,
    fun i j sp sp' hne hi hj => ?_⟩
  · cases hi
    obtain ⟨htree, hframes, hnone⟩ :=
      IsTree.of_empty (n := 2) (m := tables buddy.mem) (a := roots i)
      (fun k => by rw [hempty]; exact decode_empty)
    have hpages : AddressSpace.pages ⟨roots i, []⟩ = {roots i} := by simp [AddressSpace.pages]
    refine ⟨⟨htree, hframes.trans hpages.symm, ?_, List.nodup_nil, fun q hq l r hl => ?_⟩,
      (hout i).2, ?_⟩
    · rw [hpages]
      rintro f rfl
      exact (hout i).1
    · rw [show AddressSpace.root ⟨roots i, []⟩ = roots i from rfl] at hl
      cases (hnone q).symm.trans hl
    · intro f hf
      cases hf
  · cases hi
    cases hj
    rw [Set.disjoint_left]
    rintro f (rfl | hf) (hf' | hf')
    · exact hne (hroots hf')
    · cases hf'
    · cases hf
    · cases hf

instance (flags : ℕ) : Decidable (LeafFlags flags) :=
  decidable_of_iff (flags < 2 ^ 8 ∧ isLeaf flags = true ∧
      (PTEFlags.contains flags PTEFlags.w = true → PTEFlags.contains flags PTEFlags.r = true))
    ⟨fun h => ⟨h.1, h.2.1, h.2.2⟩, fun h => ⟨h.lt, h.leaf, h.readable⟩⟩

instance (M : Finset ℕ) (t : SpaceSystem ι) : ∀ op, Decidable (t.Allowed M op)
  | .map .. => inferInstanceAs (Decidable (_ ∧ _ ∧ _ ∧ ∃ sp ∈ _, _))
  | .unmap .. => inferInstanceAs (Decidable (_ ∧ ∃ sp ∈ _, _))
  | .drop _ => inferInstanceAs (Decidable (_ ≠ _))

end SpaceSystem

end CharlotteOs
