import Mathlib.Order.Interval.Set.Disjoint
import CharlotteOs.Mm.BumpMap

/-!
# The run of the boot mapping

The steps of `setup_memory_and_mapping` build a tree of page tables whose leaves are exactly those
of the pages mapped so far. Tables come from `MEMBLOCK`, so each is a page that was neither reserved
nor allocated before, and no table of the tree.

A step fails only where `MEMBLOCK` does not serve it: its arrays are full, there is no page left, or
the page that it hands out for a table is not in the gigabyte that `BOOT_PT` maps.

## Main definitions

* `Boot.Grants`: `MEMBLOCK` serves a step
* `leavesOf`: the leaves of the pages that steps map
* `Boot.Tree`, `Boot.TreeOf`: the tree of the boot tables, in pages that are allocated
* `Boot.ShapeOf`: the shape of the tables after steps, with any ledger

## Main results

* `Boot.Shape.step`, `Boot.Shape.run`: the shape after a step, and after a run
* `Boot.Shape.step_ok_iff`, `Boot.Shape.run_ok_iff`: when a step returns, and a run
* `Boot.Shape.run_cases`: how a run fails that `MEMBLOCK` serves
* `Boot.Shape.step_conflict_iff`: when a step panics because its page is mapped
* `Boot.treeOf_iff`: the tree of the boot tables is a shape
* `BootRange.Apart.steps`, `BootRange.pairwise_steps`: ranges that share no pages have steps that
  are apart
-/

namespace CharlotteOs

open FallibleRun TableTree PageTableEntry PageTable

/-! ## Steps -/

/-- `MEMBLOCK` serves a step: it has room for a reservation, or it hands out the pages for the
tables that are missing. -/
def Boot.Grants (kernel root : ℕ) (s : Boot) : BootStep → Prop
  | .reserve base size => ∃ mb, s.memblock.reserveMemory base size = .ok mb
  | .map mapType _ pa size =>
    Granted kernel (missing (tables s.mem) root
      ((leafPath mapType (pageFloor pa) size).take (size.targetLevel - 1))) s.memblock

namespace BootStep

/-- The leaf of the page that a step maps. -/
def leaf : BootStep → Option (List (Fin 512) × ℕ)
  | .reserve .. => none
  | .map mapType flags pa size =>
    some (leafPath mapType (pageFloor pa) size,
      PageTableEntry.new (pageFloor pa) (flags ||| PTEFlags.v))

/-- A reservation ends in the address space, and a page that is mapped is aligned. -/
def Ok : BootStep → Prop
  | .reserve base size => base + size < 2 ^ 64
  | .map _ flags pa _ => pageSize ∣ pa ∧ LeafFlags flags

/-- The paths of the pages of two steps are not comparable. -/
def Apart (op op' : BootStep) : Prop :=
  ∀ x ∈ op.leaf, ∀ y ∈ op'.leaf, ¬ x.1 <+: y.1 ∧ ¬ y.1 <+: x.1

/-- The path of the page that a step maps is clear. -/
def Clear (T : Set (List (Fin 512))) (S : Set (List (Fin 512) × ℕ)) (op : BootStep) : Prop :=
  ∀ x, op.leaf = some x → TableTree.Clear T S x.1

end BootStep

/-- The leaves of the pages that steps map. -/
def leavesOf (steps : List BootStep) : Set (List (Fin 512) × ℕ) :=
  {x | ∃ op ∈ steps, op.leaf = some x}

theorem leavesOf_append (steps steps' : List BootStep) :
    leavesOf (steps ++ steps') = leavesOf steps ∪ leavesOf steps' := by
  ext x
  simp [leavesOf, or_and_right, exists_or]

/-- The path of a page is free exactly when its step is apart from those before it. -/
theorem free_iff_apart {done : List BootStep} {op : BootStep} {x : List (Fin 512) × ℕ}
    (hx : op.leaf = some x) :
    Free (Prod.fst '' leavesOf done) x.1 ↔ ∀ op' ∈ done, op'.Apart op := by
  constructor
  · intro hfree op' hop' z hz w hw
    cases hx.symm.trans hw
    exact hfree _ ⟨z, ⟨op', hop', hz⟩, rfl⟩
  · rintro hapart _ ⟨z, ⟨op', hop', hz⟩, rfl⟩
    exact hapart op' hop' z hz x hx

namespace Boot

variable {kernel root : ℕ} {L : Set ℕ → Memblock → Prop} {s s' : Boot} {done steps : List BootStep}
  {op : BootStep} {mapType : BootMapType} {flags pa : ℕ} {size : PageSize}

theorem step_map (hpa : pageSize ∣ pa) :
    s.step kernel root (.map mapType flags pa size) =
      bumpMap kernel s root (mapType.page (pageFloor pa)) (pageFloor pa) flags size := by
  obtain ⟨n, rfl⟩ := hpa
  have hfloor : pageFloor (pageSize * n) = n := Nat.mul_div_cancel_left n (by decide)
  rw [hfloor, Boot.step, mul_comm, mapType.vpn_eq n, ok_bind, PhysPageNum.ofPhysAddr_mul, ok_bind]

theorem exists_leafPath (mapType : BootMapType) (n : ℕ) (size : PageSize) :
    ∃ p i, leafPath mapType n size = p ++ [i] ∧ p.length ≤ 2 ∧ p.length + 1 = size.targetLevel := by
  obtain ⟨p, i, hpath, hlen⟩ := VirtPageNum.exists_take (mapType.page n) size
  refine ⟨p, i, hpath, ?_, hlen⟩
  cases size <;> simp only [PageSize.targetLevel] at hlen <;> omega

theorem leafPath_ne_nil (mapType : BootMapType) (n : ℕ) (size : PageSize) :
    leafPath mapType n size ≠ [] := by
  obtain ⟨p, i, hpath, -⟩ := exists_leafPath mapType n size
  rw [hpath]
  exact List.append_ne_nil_of_right_ne_nil p (List.cons_ne_nil i [])

/-- `MEMBLOCK` serves a page if it hands out the pages for the tables above its leaf. -/
theorem grants_map {p : List (Fin 512)} {i : Fin 512}
    (hpath : leafPath mapType (pageFloor pa) size = p ++ [i])
    (hlevel : p.length + 1 = size.targetLevel) :
    s.Grants kernel root (.map mapType flags pa size) ↔
      Granted kernel (missing (tables s.mem) root p) s.memblock := by
  rw [Grants, hpath, ← hlevel, Nat.add_sub_cancel, List.take_left]

theorem leavesOf_map {p : List (Fin 512)} {i : Fin 512}
    (hpath : leafPath mapType (pageFloor pa) size = p ++ [i]) :
    leavesOf [.map mapType flags pa size] =
      {(p ++ [i], PageTableEntry.new (pageFloor pa) (flags ||| PTEFlags.v))} := by
  ext x
  simp [leavesOf, BootStep.leaf, hpath, eq_comm]

/-! ## Runs of steps -/

variable {T : Set (List (Fin 512))} {S : Set (List (Fin 512) × ℕ)}

/-- After some steps the path of a page is clear exactly when its step is apart from them. -/
theorem clear_leavesOf : op.Clear (above (leavesOf done)) (leavesOf done) ↔
    ∀ op' ∈ done, op'.Apart op := by
  cases op with
  | reserve base size =>
    exact iff_of_true (fun x hx => nomatch hx) fun op' _ x _ y hy => nomatch hy
  | map mapType flags pa size =>
    rw [← free_iff_apart (x := (leafPath mapType (pageFloor pa) size, _)) rfl,
      ← clear_above_iff (leafPath_ne_nil _ _ _)]
    simp only [BootStep.Clear, BootStep.leaf, Option.some.injEq, forall_eq']

/-- The same with what was there before the steps. -/
theorem clear_union_leavesOf : op.Clear (T ∪ above (leavesOf done)) (S ∪ leavesOf done) ↔
    op.Clear T S ∧ ∀ op' ∈ done, op'.Apart op := by
  rw [← clear_leavesOf]
  simp only [BootStep.Clear, clear_union, imp_and, forall_and]

/-- Without leaves there is only the root table. -/
theorem Shape.union_above_nil (h : Shape kernel root L T S s) :
    T ∪ above (leavesOf []) = T ∧ S ∪ leavesOf [] = S := by
  have hnone : leavesOf [] = ∅ := by simp [leavesOf]
  rw [hnone]
  refine ⟨Set.union_eq_left.mpr ?_, Set.union_empty S⟩
  rintro q (rfl | ⟨x, hx, -⟩)
  · exact h.mem_paths rfl
  · exact hx.elim

theorem not_conflict_of_reserve {base size : ℕ} {e : Fault}
    (he : s.step kernel root (.reserve base size) = .error e) : ¬ e.Conflict := by
  rcases cases_of_bind_eq_error he with he | ⟨mb, -, he⟩
  · exact Fault.not_conflict_of_full (Memblock.reserveMemory_error he)
  · cases he

section Ledger

variable (hkernel : kernel < 2 ^ 32) (hL : Ledger kernel L)

include hkernel hL

/-- **A step that returns** adds the leaf of the page that it maps, and the tables above it. -/
theorem Shape.step (h : Shape kernel root L T S s) (hop : op.Ok)
    (hstep : s.step kernel (root * pageSize) op = .ok s') :
    Shape kernel root L (T ∪ above (leavesOf [op])) (S ∪ leavesOf [op]) s' := by
  cases op with
  | reserve base size =>
    obtain ⟨mb, hmb, hstep⟩ := exists_of_bind_eq_ok hstep
    cases hstep
    have hnone : leavesOf [.reserve base size] = leavesOf [] := by simp [leavesOf, BootStep.leaf]
    rw [hnone, h.union_above_nil.1, h.union_above_nil.2]
    exact ⟨h.tree, h.paths, h.leaves, h.inGiB, hL.reserve h.ledger hop hmb⟩
  | map mapType flags pa size =>
    obtain ⟨p, i, hpath, hlen, -⟩ := exists_leafPath mapType (pageFloor pa) size
    rw [step_map hop.1] at hstep
    rw [leavesOf_map hpath, above_singleton, Set.union_singleton]
    exact (h.bumpMap hkernel hpath hL hlen (hop.2.decode_new (pageFloor pa)) hstep).1

/-- **A step returns** exactly when `MEMBLOCK` serves it and the path of its page is clear. -/
theorem Shape.step_ok_iff (h : Shape kernel root L T S s) (hop : op.Ok) :
    (∃ s', s.step kernel (root * pageSize) op = .ok s') ↔
      s.Grants kernel root op ∧ op.Clear T S := by
  cases op with
  | reserve base size =>
    have hclear : (BootStep.reserve base size).Clear T S := fun x hx => nomatch hx
    rw [and_iff_left hclear, Grants, Boot.step]
    constructor
    · rintro ⟨s', hs'⟩
      obtain ⟨mb, hmb, -⟩ := exists_of_bind_eq_ok hs'
      exact ⟨mb, hmb⟩
    · rintro ⟨mb, hmb⟩
      exact ⟨_, by rw [hmb, ok_bind]⟩
  | map mapType flags pa size =>
    obtain ⟨p, i, hpath, hlen, hlevel⟩ := exists_leafPath mapType (pageFloor pa) size
    rw [grants_map hpath hlevel, step_map hop.1, h.exists_ok_iff hkernel hpath hL hlen, and_comm]
    simp only [BootStep.Clear, BootStep.leaf, Option.some.injEq, forall_eq', hpath]

/-- **A run that returns** adds the leaves of the pages of its steps, and the tables above them. -/
theorem Shape.run (h : Shape kernel root L T S s) (hok : ∀ op ∈ steps, op.Ok)
    (hrun : exec (Boot.step kernel (root * pageSize)) s steps = .ok s') :
    Shape kernel root L (T ∪ above (leavesOf steps)) (S ∪ leavesOf steps) s' := by
  induction steps generalizing s T S with
  | nil =>
    cases hrun
    rwa [h.union_above_nil.1, h.union_above_nil.2]
  | cons op steps ih =>
    obtain ⟨s₁, hs₁, hrun⟩ := exec_cons_eq_ok hrun
    have hnext := ih (h.step hkernel hL (hok op List.mem_cons_self) hs₁)
      (fun op hop => hok op (List.mem_cons_of_mem _ hop)) hrun
    rwa [Set.union_assoc, Set.union_assoc, ← above_union, ← leavesOf_append] at hnext

/-- **A run of steps** that are apart returns exactly when `MEMBLOCK` serves each of them and the
paths of their pages are clear before it. -/
theorem Shape.run_ok_iff (h : Shape kernel root L T S s) (hok : ∀ op ∈ steps, op.Ok)
    (hapart : steps.Pairwise BootStep.Apart) :
    (∃ t, exec (Boot.step kernel (root * pageSize)) s steps = .ok t) ↔
      Along (Boot.step kernel (root * pageSize)) (Boot.Grants kernel root) s steps ∧
        ∀ op ∈ steps, op.Clear T S := by
  induction steps generalizing s T S with
  | nil => exact iff_of_true ⟨s, rfl⟩ ⟨trivial, fun op hop => nomatch hop⟩
  | cons op steps ih =>
    obtain ⟨hbefore, hrest⟩ := List.pairwise_cons.mp hapart
    have hop := hok op List.mem_cons_self
    have hnext : ∀ {s'}, s.step kernel (root * pageSize) op = .ok s' →
        ((∃ t, exec (Boot.step kernel (root * pageSize)) s' steps = .ok t) ↔
          Along (Boot.step kernel (root * pageSize)) (Boot.Grants kernel root) s' steps ∧
            ∀ op ∈ steps, op.Clear T S) := by
      intro s' hs'
      rw [ih (h.step hkernel hL hop hs') (fun op hop => hok op (List.mem_cons_of_mem _ hop)) hrest]
      refine and_congr_right fun _ => forall₂_congr fun op' hop' => ?_
      rw [clear_union_leavesOf]
      refine and_iff_left fun op'' hop'' => ?_
      cases List.mem_singleton.mp hop''
      exact hbefore op' hop'
    rw [along_cons, List.forall_mem_cons]
    constructor
    · rintro ⟨t, ht⟩
      obtain ⟨s', hs', ht⟩ := exec_cons_eq_ok ht
      obtain ⟨hgrants, hclear⟩ := (h.step_ok_iff hkernel hL hop).mp ⟨s', hs'⟩
      obtain ⟨halong, hclears⟩ := (hnext hs').mp ⟨t, ht⟩
      refine ⟨⟨hgrants, fun s'' hs'' => ?_⟩, hclear, hclears⟩
      cases hs'.symm.trans hs''
      exact halong
    · rintro ⟨⟨hgrants, halong⟩, hclear, hclears⟩
      obtain ⟨s', hs'⟩ := (h.step_ok_iff hkernel hL hop).mpr ⟨hgrants, hclear⟩
      rw [exec_cons_of_ok hs']
      exact (hnext hs').mpr ⟨halong s' hs', hclears⟩

/-- **A run that `MEMBLOCK` serves** and that meets no leaf can fail only over a table. -/
theorem Shape.run_cases (h : Shape kernel root L T S s) (hok : ∀ op ∈ steps, op.Ok)
    (hapart : steps.Pairwise BootStep.Apart)
    (hserved : Along (Boot.step kernel (root * pageSize)) (Boot.Grants kernel root) s steps)
    (hleaf : ∀ op ∈ steps, ∀ x, op.leaf = some x → ∀ z ∈ S, ¬ z.1 <+: x.1) :
    (∃ t, exec (Boot.step kernel (root * pageSize)) s steps = .ok t) ∨
      exec (Boot.step kernel (root * pageSize)) s steps = .error .mappedBefore := by
  cases hrun : exec (Boot.step kernel (root * pageSize)) s steps with
  | ok t => exact .inl ⟨t, rfl⟩
  | error e =>
    right
    obtain ⟨before, op, after, t, rfl, ht, he⟩ := exec_eq_error_iff.mp hrun
    have hop := hok op (List.mem_append_right _ List.mem_cons_self)
    have hshape := h.run hkernel hL (fun op hop => hok op (List.mem_append_left _ hop)) ht
    have hgrants := (Along.of_append hserved ht).1
    cases op with
    | reserve base size =>
      obtain ⟨mb, hmb⟩ := hgrants
      rw [Boot.step, hmb] at he
      cases he
    | map mapType flags pa size =>
      obtain ⟨p, i, hpath, hlen, hlevel⟩ := exists_leafPath mapType (pageFloor pa) size
      have hnone : ∀ z ∈ S ∪ leavesOf before, ¬ z.1 <+: p ++ [i] := by
        rw [← hpath]
        rintro z (hz | ⟨op', hop', hz⟩)
        · exact hleaf _ (List.mem_append_right _ List.mem_cons_self) _ rfl z hz
        · exact ((List.pairwise_append.mp hapart).2.2 op' hop' _ List.mem_cons_self z hz _ rfl).1
      have htable : p ++ [i] ∈ T ∪ above (leavesOf before) := by
        by_contra hT
        obtain ⟨s', hs'⟩ := (hshape.exists_ok_iff hkernel hpath hL hlen).mpr
          ⟨⟨hT, hnone⟩, (grants_map hpath hlevel).mp hgrants⟩
        rw [step_map hop.1, hs'] at he
        cases he
      rw [step_map hop.1, hshape.bumpMap_of_used hkernel hpath (.inl htable)] at he
      exact congrArg Except.error (Except.error.inj he).symm

/-- **A step panics over a page that is mapped** exactly if the path of its own page is taken. -/
theorem Shape.step_conflict_iff (h : Shape kernel root L T S s) (hop : op.Ok) :
    (∃ e, s.step kernel (root * pageSize) op = .error e ∧ e.Conflict) ↔ ¬ op.Clear T S := by
  cases op with
  | reserve base size =>
    refine iff_of_false ?_ (not_not.mpr fun x hx => nomatch hx)
    rintro ⟨e, he, hconf⟩
    exact not_conflict_of_reserve he hconf
  | map mapType flags pa size =>
    obtain ⟨p, i, hpath, hlen, -⟩ := exists_leafPath mapType (pageFloor pa) size
    rw [step_map hop.1, h.conflict_iff hkernel hpath hL hlen]
    simp only [BootStep.Clear, BootStep.leaf, Option.some.injEq, forall_eq', hpath]

end Ledger

/-! ## The tree of the boot tables -/

/-- **The boot tables are a tree** with the leaves `S`, and tables only above the paths in `P`. They
are in the gigabyte that the kernel is in, in pages that are allocated. -/
structure Tree (kernel root : ℕ) (ram : Set ℕ) (S : Set (List (Fin 512) × ℕ))
    (P : Set (List (Fin 512))) (s : Boot) : Prop where
  tree : IsTree decode (tables s.mem) 2 root
  leaves : leaves decode (tables s.mem) root = S
  tidy : Tidy decode (tables s.mem) root P
  inGiB : ∀ f ∈ frames decode (tables s.mem) root, InGiB kernel (f * pageSize)
  allocated : ∃ R A, s.memblock.Denotes ram R A ∧
    ∀ f ∈ frames decode (tables s.mem) root, f * pageSize ∈ A

/-- The tree of the boot tables after some steps. -/
def TreeOf (kernel root : ℕ) (ram : Set ℕ) (done : List BootStep) (s : Boot) : Prop :=
  Tree kernel root ram (leavesOf done) (Prod.fst '' leavesOf done) s

/-- The shape of the tables after some steps: there are tables only above leaves. -/
def ShapeOf (kernel root : ℕ) (L : Set ℕ → Memblock → Prop) (done : List BootStep) (s : Boot) :
    Prop :=
  Shape kernel root L (above (leavesOf done)) (leavesOf done) s

theorem shapeOf_append : ShapeOf kernel root L (done ++ steps) s ↔
    Shape kernel root L (above (leavesOf done) ∪ above (leavesOf steps))
      (leavesOf done ∪ leavesOf steps) s := by
  rw [ShapeOf, leavesOf_append, above_union]

variable {ram : Set ℕ}

/-- The tree of the boot tables is a shape, with the ledger of what is allocated. -/
theorem treeOf_iff :
    TreeOf kernel root ram done s ↔ ShapeOf kernel root (Allocated ram) done s := by
  constructor
  · intro h
    have hpaths := tidy_iff.mp (h.leaves.symm ▸ h.tidy)
    rw [h.leaves] at hpaths
    exact ⟨h.tree, hpaths, h.leaves, h.inGiB, h.allocated⟩
  · intro h
    refine ⟨h.tree, h.leaves, ?_, h.inGiB, h.ledger⟩
    have hpaths := h.paths
    rw [← h.leaves] at hpaths ⊢
    exact tidy_iff.mpr hpaths

section Tree

variable (hkernel : kernel < 2 ^ 32) (h : TreeOf kernel root ram done s)

include hkernel h

theorem TreeOf.run (hok : ∀ op ∈ steps, op.Ok)
    (hrun : exec (Boot.step kernel (root * pageSize)) s steps = .ok s') :
    TreeOf kernel root ram (done ++ steps) s' := by
  rw [treeOf_iff, shapeOf_append]
  exact (treeOf_iff.mp h).run hkernel (ledger_allocated hkernel ram) hok hrun

theorem TreeOf.step (hop : op.Ok) (hstep : s.step kernel (root * pageSize) op = .ok s') :
    TreeOf kernel root ram (done ++ [op]) s' :=
  h.run hkernel (List.forall_mem_singleton.mpr hop) ((exec_singleton s op).trans hstep)

/-- **A step panics over a page that is mapped** exactly if its own page is not apart from those
before. -/
theorem TreeOf.conflict_iff (hop : op.Ok) :
    (∃ e, s.step kernel (root * pageSize) op = .error e ∧ e.Conflict) ↔
      ∃ op' ∈ done, ¬ op'.Apart op := by
  rw [(treeOf_iff.mp h).step_conflict_iff hkernel (ledger_allocated hkernel ram) hop,
    clear_leavesOf]
  push Not
  rfl

/-- **A run of steps** that are apart returns exactly when `MEMBLOCK` serves each of them. -/
theorem TreeOf.along_grants_iff (hok : ∀ op ∈ steps, op.Ok)
    (hapart : (done ++ steps).Pairwise BootStep.Apart) :
    Along (Boot.step kernel (root * pageSize)) (Boot.Grants kernel root) s steps ↔
      ∃ t, exec (Boot.step kernel (root * pageSize)) s steps = .ok t := by
  obtain ⟨-, hsteps, hbefore⟩ := List.pairwise_append.mp hapart
  rw [(treeOf_iff.mp h).run_ok_iff hkernel (ledger_allocated hkernel ram) hok hsteps]
  exact (and_iff_left fun op hop => clear_leavesOf.mpr fun op' hop' => hbefore op' hop' op hop).symm

end Tree

end Boot

/-! ## Ranges that are apart -/

namespace BootRange

/-- The addresses of a segment are below 4 GiB. -/
def Low : BootRange → Prop
  | .reserve .. => True
  | .segment _ _ startAddr endAddr => startAddr ≤ 2 ^ 32 ∧ endAddr ≤ 2 ^ 32

/-- Segments that are mapped in the same way share no pages. -/
def Apart : BootRange → BootRange → Prop
  | .segment mapType _ startAddr endAddr, .segment mapType' _ startAddr' endAddr' =>
    mapType = mapType' → Disjoint (Set.Ico (pageFloor startAddr) (pageCeil endAddr))
      (Set.Ico (pageFloor startAddr') (pageCeil endAddr'))
  | _, _ => True

theorem Apart.symm {range range' : BootRange} (h : range.Apart range') : range'.Apart range := by
  cases range with
  | reserve base size => cases range' <;> trivial
  | segment mapType flags startAddr endAddr =>
    cases range' with
    | reserve base size => trivial
    | segment mapType' flags' startAddr' endAddr' => exact fun heq => (h heq.symm).symm

/-- A segment that ends before the pages of another one. -/
theorem apart_of_le {mapType mapType' : BootMapType} {flags flags' startAddr startAddr' endAddr
    endAddr' : ℕ} (h : pageCeil endAddr ≤ pageFloor startAddr') :
    (segment mapType flags startAddr endAddr).Apart (segment mapType' flags' startAddr' endAddr') :=
  fun _ => Set.disjoint_left.mpr fun _ hn hn' => (hn.2.trans_le h).not_ge hn'.1

end BootRange

/-- Steps that map different pages are apart. -/
theorem BootStep.apart_of_pages {mapType mapType' : BootMapType} {flags flags' n n' : ℕ}
    {size size' : PageSize} (hdvd : size.pages ∣ n) (hdvd' : size'.pages ∣ n')
    (hlt : n + size.pages ≤ 2 ^ 20) (hlt' : n' + size'.pages ≤ 2 ^ 20)
    (h : mapType = mapType' → n + size.pages ≤ n' ∨ n' + size'.pages ≤ n) :
    (BootStep.map mapType flags (n * pageSize) size).Apart
      (.map mapType' flags' (n' * pageSize) size') := by
  have hfloor : ∀ k, pageFloor (k * pageSize) = k := fun k => Nat.mul_div_cancel k (by decide)
  have hpos := size.pages_pos
  have hpos' := size'.pages_pos
  intro x hx y hy
  cases hx
  cases hy
  dsimp only
  rw [hfloor, hfloor]
  constructor
  · intro hpre
    obtain ⟨htype, hle, hover⟩ := leafPath_prefix (by omega) (by omega) hdvd hpre
    have := h htype
    omega
  · intro hpre
    obtain ⟨htype, hle, hover⟩ := leafPath_prefix (by omega) (by omega) hdvd' hpre
    have := h htype.symm
    omega

theorem pageCeil_le {v : ℕ} (h : v ≤ 2 ^ 32) : pageCeil v ≤ 2 ^ 20 := by
  simp only [pageCeil, pageSize]
  omega

/-- The steps of ranges that are apart are apart. -/
theorem BootRange.Apart.steps {range range' : BootRange} (h : range.Apart range') (hlow : range.Low)
    (hlow' : range'.Low) : ∀ op ∈ range.steps, ∀ op' ∈ range'.steps, op.Apart op' := by
  intro op hop op' hop'
  cases range with
  | reserve base size =>
    cases List.mem_singleton.mp hop
    intro x hx
    cases hx
  | segment mapType flags startAddr endAddr =>
    cases range' with
    | reserve base size =>
      cases List.mem_singleton.mp hop'
      intro x hx y hy
      cases hy
    | segment mapType' flags' startAddr' endAddr' =>
      obtain ⟨page, hpage, rfl⟩ := List.mem_map.mp hop
      obtain ⟨page', hpage', rfl⟩ := List.mem_map.mp hop'
      obtain ⟨n, hn, hdvd, hstart, hend⟩ := exists_of_mem_segmentPages hlow.1 hlow.2 hpage
      obtain ⟨n', hn', hdvd', hstart', hend'⟩ := exists_of_mem_segmentPages hlow'.1 hlow'.2 hpage'
      have hceil := pageCeil_le hlow.2
      have hceil' := pageCeil_le hlow'.2
      rw [hn, hn']
      refine BootStep.apart_of_pages hdvd hdvd' (by omega) (by omega) fun htype => ?_
      have hdisjoint := Set.Ico_disjoint_Ico.mp (h htype)
      have hpos := page.2.pages_pos
      have hpos' := page'.2.pages_pos
      rw [min_le_iff, le_max_iff, le_max_iff] at hdisjoint
      omega

/-- The steps of one range are apart. -/
theorem BootRange.pairwise_steps {range : BootRange} (hlow : range.Low) :
    range.steps.Pairwise BootStep.Apart := by
  cases range with
  | reserve base size => exact List.pairwise_singleton _ _
  | segment mapType flags startAddr endAddr =>
    rw [BootRange.steps, segmentSteps, List.pairwise_map]
    by_cases hle : pageFloor startAddr ≤ pageCeil endAddr
    · have htiles := segmentPages_tiles hlow.1 hlow.2 hle
      have hceil := pageCeil_le hlow.2
      refine htiles.pairwise.imp_of_mem fun {x y} hx hy hxy => ?_
      obtain ⟨n, hn, hdvd, -, hend⟩ := htiles.exists_of_mem hx
      obtain ⟨n', hn', hdvd', -, hend'⟩ := htiles.exists_of_mem hy
      rw [hn, hn', Nat.mul_div_cancel _ (by decide), Nat.mul_div_cancel _ (by decide)] at hxy
      rw [hn, hn']
      exact BootStep.apart_of_pages hdvd hdvd' (by omega) (by omega) fun _ => .inl hxy
    · rw [segmentPages_eq_nil hlow.1 hlow.2 (by omega)]
      exact List.Pairwise.nil

end CharlotteOs
