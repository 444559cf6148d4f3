import Mathlib.Data.Set.Card
import Mathlib.Data.Set.Finite.Lattice
import CharlotteOs.Mm.MapSegment

/-!
# Taking segments out again

Segments whose virtual images share no page can be mapped one after the other, and any of them can
be taken out again in any order. What is left are the leaves of the other segments, so the
translation is that of mapping the others alone.

The other segments alone need no more pages for tables. A run of `bump_map` takes one page for each
path above its leaves where there is no table yet, whatever the order of its steps.

## Main definitions

* `unmapCalls`: calls that take segments out
* `BootStep.page`: the page that a step maps

## Main results

* `missing_eq_ncard`: the tables that a path is missing, counted by their paths
* `Boot.Shape.supplied_iff`: how many pages a run takes from `MEMBLOCK`
* `Boot.ShapeOf.exec_unmap`: the leaves after pages are taken out
* `Boot.unmapSegment_undoes`: unmapping undoes mapping, segment by segment
-/

namespace CharlotteOs

open FallibleRun TableTree PageTableEntry PageTable

/-! ## How many tables are missing -/

theorem finite_prefixes (q : List (Fin 512)) : {y | y <+: q}.Finite :=
  (List.finite_toSet q.inits).subset fun _ hy => (List.mem_inits _ _).mpr hy

/-- The paths above a path and itself are those without an index, and those through its first
one. -/
theorem prefixes_cons (i : Fin 512) (q : List (Fin 512)) :
    {y | y <+: i :: q} = insert [] ((i :: ·) '' {y | y <+: q}) := by
  ext y
  constructor
  · intro hy
    rcases List.prefix_cons_iff.mp hy with hnil | ⟨z, rfl, hz⟩
    · exact .inl hnil
    · exact .inr ⟨z, hz, rfl⟩
  · rintro (rfl | ⟨z, hz, rfl⟩)
    · exact List.nil_prefix
    · exact (List.prefix_cons_inj i).mpr hz

theorem ncard_prefixes (q : List (Fin 512)) : {y | y <+: q}.ncard = q.length + 1 := by
  induction q with
  | nil =>
    have hnil : {y : List (Fin 512) | y <+: []} = {[]} := by
      ext y
      exact List.prefix_nil
    rw [hnil, Set.ncard_singleton, List.length_nil]
  | cons i q ih =>
    have hnew : [] ∉ (i :: ·) '' {y | y <+: q} := fun ⟨_, _, h⟩ => List.cons_ne_nil _ _ h
    rw [prefixes_cons, Set.ncard_insert_of_notMem hnew ((finite_prefixes q).image _),
      Set.ncard_image_of_injective _ (List.cons_injective), ih, List.length_cons]

/-- **The tables that a path is missing** are the paths on it where there is none. -/
theorem missing_eq_ncard (t : ℕ → Fin 512 → ℕ) (a : ℕ) (q : List (Fin 512)) :
    missing t a q = ({y | y <+: q} \ paths decode t a).ncard := by
  induction q generalizing a with
  | nil =>
    have hnone : {y | y <+: []} \ paths decode t a = ∅ := by
      rw [Set.sdiff_eq_empty]
      intro y hy
      cases List.prefix_nil.mp hy
      exact ⟨a, rfl⟩
    rw [hnone, Set.ncard_empty, missing]
  | cons i q ih =>
    have hbehind : {y | y <+: i :: q} \ paths decode t a =
        (i :: ·) '' ({y | y <+: q} \ {y | i :: y ∈ paths decode t a}) := by
      rw [prefixes_cons]
      ext y
      constructor
      · rintro ⟨rfl | ⟨z, hz, rfl⟩, hno⟩
        · exact absurd ⟨a, rfl⟩ hno
        · exact ⟨z, ⟨hz, hno⟩, rfl⟩
      · rintro ⟨z, ⟨hz, hno⟩, rfl⟩
        exact ⟨.inr ⟨z, hz, rfl⟩, hno⟩
    rw [hbehind, Set.ncard_image_of_injective _ List.cons_injective, missing]
    split
    · rename_i b hb
      have hpaths : {y | i :: y ∈ paths decode t a} = paths decode t b := by
        ext y
        exact exists_congr fun c => by rw [tableAt_cons hb]
      rw [ih, hpaths]
    · rename_i hno
      have hpaths : {y | i :: y ∈ paths decode t a} = ∅ := by
        rw [Set.eq_empty_iff_forall_notMem]
        rintro y ⟨c, hc⟩
        obtain ⟨b, hb, -⟩ := tableAt_cons_eq_some.mp hc
        exact hno b hb
      rw [hpaths, Set.sdiff_empty, ncard_prefixes]

theorem finite_above {S : Set (List (Fin 512) × ℕ)} (h : S.Finite) : (above S).Finite := by
  refine Set.Finite.insert [] ((h.biUnion fun x _ => finite_prefixes x.1).subset ?_)
  rintro q ⟨x, hx, hpre, -⟩
  exact Set.mem_biUnion hx hpre

theorem finite_leavesOf (steps : List BootStep) : (leavesOf steps).Finite :=
  (List.finite_toSet (steps.filterMap BootStep.leaf)).subset fun _ hx => List.mem_filterMap.mpr hx

/-- Fewer pages are handed out as well. -/
theorem Granted.mono {kernel n n' : ℕ} {mb : Memblock} (h : Granted kernel n mb) (hle : n' ≤ n) :
    Granted kernel n' mb := by
  induction n' generalizing n mb with
  | zero => trivial
  | succ n' ih =>
    obtain ⟨n, rfl⟩ := Nat.exists_eq_add_of_lt (Nat.lt_of_lt_of_le n'.succ_pos hle)
    rw [Nat.zero_add] at h hle
    obtain ⟨pa, mb', halloc, hin, hrest⟩ := granted_succ.mp h
    exact granted_succ.mpr ⟨pa, mb', halloc, hin, ih hrest (Nat.le_of_succ_le_succ hle)⟩

namespace Boot

variable {kernel root : ℕ} {L : Set ℕ → Memblock → Prop} {T : Set (List (Fin 512))}
  {S : Set (List (Fin 512) × ℕ)} {s s' : Boot} {steps : List BootStep}

/-- **How many pages a run takes**: `MEMBLOCK` serves steps that map pages exactly if it hands out a
page for each path above their leaves where there is no table yet. -/
theorem Shape.supplied_iff (hkernel : kernel < 2 ^ 32) (hL : Ledger kernel L)
    (h : Shape kernel root L T S s) (hok : ∀ op ∈ steps, op.Ok)
    (hmap : ∀ op ∈ steps, op.leaf ≠ none) (hclear : ∀ op ∈ steps, op.Clear T S)
    (hapart : steps.Pairwise BootStep.Apart) :
    s.Supplied kernel root steps ↔
      Granted kernel (above (leavesOf steps) \ T).ncard s.memblock := by
  induction steps generalizing s T S with
  | nil =>
    have hnone : above (leavesOf []) \ T = ∅ :=
      Set.sdiff_eq_empty.mpr (Set.union_eq_left.mp h.union_above_nil.1)
    rw [hnone, Set.ncard_empty]
    exact Iff.rfl
  | cons op steps ih =>
    obtain ⟨hbefore, hrest⟩ := List.pairwise_cons.mp hapart
    have hop := hok op List.mem_cons_self
    cases op with
    | reserve base size => exact absurd rfl (hmap _ List.mem_cons_self)
    | map mapType flags pa size =>
      obtain ⟨p, i, hpath, hlen, hlevel⟩ := exists_leafPath mapType (pageFloor pa) size
      have habove : above (leavesOf [.map mapType flags pa size]) = {y | y <+: p} := by
        rw [leavesOf_map hpath, above_singleton]
      have hcount : (above (leavesOf (.map mapType flags pa size :: steps)) \ T).ncard =
          missing (tables s.mem) root p +
            (above (leavesOf steps) \ (T ∪ {y | y <+: p})).ncard := by
        rw [missing_eq_ncard, h.paths, ← List.singleton_append, leavesOf_append, above_union,
          habove, ← Set.ncard_union_eq _ ((finite_prefixes p).subset Set.sdiff_subset)
            ((finite_above (finite_leavesOf steps)).subset Set.sdiff_subset)]
        · congr 1
          ext y
          simp only [Set.mem_sdiff, Set.mem_union]
          tauto
        · exact Set.disjoint_left.mpr fun y hy hy' => hy'.2 (.inr hy.1)
      -- after the step the others are still clear, and `MEMBLOCK` has the rest of its pages
      have hnext : ∀ {s'}, s.step kernel (root * pageSize) (.map mapType flags pa size) = .ok s' →
          (s'.Supplied kernel root steps ↔
            Granted kernel (above (leavesOf (.map mapType flags pa size :: steps)) \ T).ncard
              s.memblock) := by
        intro s' hs'
        have hshape := h.step hkernel hL hop hs'
        rw [step_map hop.1] at hs'
        have hgranted := (h.bumpMap hkernel hpath hL hlen (hop.2.decode_new (pageFloor pa)) hs').2
        rw [ih hshape (fun op hop => hok op (List.mem_cons_of_mem _ hop))
          (fun op hop => hmap op (List.mem_cons_of_mem _ hop)) (fun op hop => ?_) hrest, habove,
          hcount, hgranted]
        rw [clear_union_leavesOf]
        refine ⟨hclear op (List.mem_cons_of_mem _ hop), fun op' hop' => ?_⟩
        cases List.mem_singleton.mp hop'
        exact hbefore op hop
      rw [Supplied, along_cons, grants_map hpath hlevel]
      constructor
      · rintro ⟨hgrants, hrest⟩
        obtain ⟨s', hs'⟩ := (h.step_ok_iff hkernel hL hop).mpr
          ⟨(grants_map hpath hlevel).mpr hgrants, hclear _ List.mem_cons_self⟩
        exact (hnext hs').mp (hrest s' hs')
      · intro hgranted
        refine ⟨hgranted.mono ?_, fun s' hs' => (hnext hs').mpr hgranted⟩
        rw [hcount]
        exact Nat.le_add_right _ _

end Boot

/-! ## Taking pages out -/

/-- The page that a step maps. -/
def BootStep.page : BootStep → Option (BootMapType × ℕ × PageSize)
  | .reserve .. => none
  | .map mapType _ pa size => some (mapType, pa, size)

theorem BootStep.page_eq_some {op : BootStep} {page : BootMapType × ℕ × PageSize}
    (h : op.page = some page) : ∃ w, op.leaf = some (pagePath page, w) := by
  cases op with
  | reserve base size => cases h
  | map mapType flags pa size =>
    cases h
    exact ⟨_, rfl⟩

theorem BootStep.Apart.symm {op op' : BootStep} (h : op.Apart op') : op'.Apart op :=
  fun x hx y hy => (h y hy x hx).symm

/-- Segments whose images share no address are apart. -/
theorem Segment.apart_of_disjoint {seg seg' : Segment} {flags flags' : ℕ}
    (h : Disjoint seg.image seg'.image) : (seg.range flags).Apart (seg'.range flags') := by
  intro htype
  rw [Set.disjoint_left] at h ⊢
  intro n hn hn'
  have hfloor : pageFloor (n * pageSize) = n := Nat.mul_div_cancel n (by decide)
  refine h (a := seg.mapType.paToVa (n * pageSize)) ⟨_, hfloor.symm ▸ hn, rfl⟩
    ⟨_, hfloor.symm ▸ hn', ?_⟩
  rw [htype]

namespace Boot

variable {kernel root : ℕ} {L : Set ℕ → Memblock → Prop} {s s' : Boot}
  {done kept gone : List BootStep}

/-- **Pages are taken out**: where the steps were apart, the leaves of the others are left. -/
theorem ShapeOf.exec_unmap (hkernel : kernel < 2 ^ 32) (h : ShapeOf kernel root L done s)
    (hok : ∀ op ∈ done, op.Ok) (hapart : done.Pairwise BootStep.Apart)
    (hperm : (kept ++ gone).Perm done) :
    ∃ m', exec (unmapPage (physToVirt (PhysAddr.ofPpn root))) s.mem (gone.filterMap BootStep.page) =
      .ok m' ∧ leaves decode (tables m') root = leavesOf kept := by
  obtain ⟨-, hgone, hcross⟩ := List.pairwise_append.mp
    ((hperm.pairwise_iff fun h => h.symm).mpr hapart)
  have hmem : ∀ op, op ∈ done ↔ op ∈ kept ∨ op ∈ gone := fun op => by
    rw [← hperm.mem_iff, List.mem_append]
  have hpages : ∀ page ∈ gone.filterMap BootStep.page, pageSize ∣ page.2.1 ∧
      pagePath page ∈ Prod.fst '' leaves decode (tables s.mem) root := by
    intro page hpage
    obtain ⟨op, hop, hpage⟩ := List.mem_filterMap.mp hpage
    have hdone := (hmem op).mpr (.inr hop)
    obtain ⟨w, hw⟩ := BootStep.page_eq_some hpage
    refine ⟨?_, (pagePath page, w), ?_, rfl⟩
    · cases op with
      | reserve base size => cases hpage
      | map mapType flags pa size =>
        cases hpage
        exact (hok _ hdone).1
    · rw [h.leaves]
      exact ⟨op, hdone, hw⟩
  have hnodup : ((gone.filterMap BootStep.page).map pagePath).Nodup := by
    rw [List.Nodup, List.pairwise_map, List.pairwise_filterMap]
    refine hgone.imp fun {op op'} hops page hpage page' hpage' heq => ?_
    obtain ⟨w, hw⟩ := BootStep.page_eq_some hpage
    obtain ⟨w', hw'⟩ := BootStep.page_eq_some hpage'
    exact (hops _ hw _ hw').1 (heq ▸ List.prefix_rfl)
  obtain ⟨m', hm', hleaves⟩ := exec_unmapPage h.tree (fun f hf => (h.inGiB f hf).frame_lt hkernel)
    hpages hnodup
  refine ⟨m', hm', ?_⟩
  rw [hleaves, h.leaves]
  ext x
  constructor
  · rintro ⟨⟨op, hop, hx⟩, hne⟩
    refine ⟨op, ((hmem op).mp hop).resolve_right fun hop => ?_, hx⟩
    cases op with
    | reserve base size => cases hx
    | map mapType flags pa size =>
      cases hx
      exact hne _ (List.mem_filterMap.mpr ⟨_, hop, rfl⟩) rfl
  · rintro ⟨op, hop, hx⟩
    refine ⟨⟨op, (hmem op).mpr (.inl hop), hx⟩, fun page hpage heq => ?_⟩
    obtain ⟨op', hop', hpage⟩ := List.mem_filterMap.mp hpage
    obtain ⟨w, hw⟩ := BootStep.page_eq_some hpage
    exact (hcross op hop op' hop' x hx _ hw).1 (heq ▸ List.prefix_rfl)

/-! ## Calls that take segments out -/

/-- Calls that take segments out. -/
def unmapCalls (segs : List (Segment × ℕ)) : List (Segment × MapAction) :=
  segs.map fun x => (x.1, .unmap)

/-- The pages of such calls, one after the other. -/
theorem exec_unmapCalls (kernel root : ℕ) (s : Boot) (segs : List (Segment × ℕ)) :
    exec (Boot.callMapSegment kernel root) s (unmapCalls segs) =
      exec (fun s page => Boot.applyAction kernel root page.1 .unmap s page.2) s
        ((mapSteps segs).filterMap BootStep.page) := by
  rw [unmapCalls, exec_map, mapSteps, List.filterMap_flatMap]
  refine exec_flatMap (fun s x => ?_) s segs
  have hpages : (x.1.steps x.2).filterMap BootStep.page =
      (segmentPages x.1.startAddr x.1.endAddr).map fun page => (x.1.mapType, page) := by
    rw [Segment.steps, segmentSteps, List.filterMap_map, ← List.filterMap_eq_map]
    rfl
  rw [hpages, exec_map]
  rfl

/-- The steps that map such segments are apart. -/
theorem pairwise_mapSteps {segs : List (Segment × ℕ)} (hlow : ∀ x ∈ segs, x.1.Low)
    (hdisjoint : segs.Pairwise fun x y => Disjoint x.1.image y.1.image) :
    (mapSteps segs).Pairwise BootStep.Apart := by
  rw [mapSteps, List.pairwise_flatMap]
  refine ⟨fun x hx => Segment.pairwise_steps (hlow x hx), hdisjoint.imp_of_mem ?_⟩
  intro x y hx hy hxy
  have hrange : (x.1.range x.2).Low := hlow x hx
  have hrange' : (y.1.range y.2).Low := hlow y hy
  exact (Segment.apart_of_disjoint hxy).steps hrange hrange'

variable {start : Boot}

/-- Every step of such calls maps a page. -/
theorem leaf_ne_none_of_mem_mapSteps (segs : List (Segment × ℕ)) :
    ∀ op ∈ mapSteps segs, op.leaf ≠ none := by
  intro op hop
  obtain ⟨x, -, hop⟩ := List.mem_flatMap.mp hop
  obtain ⟨pa, size, -, rfl⟩ := Segment.mem_steps.mp hop
  nofun

/-- Nothing is in the way of the first steps. -/
theorem clear_nil (op : BootStep) : op.Clear (above (leavesOf [])) (leavesOf []) :=
  clear_leavesOf.mpr fun _ hop => nomatch hop

/-- **Segments that share no page can be mapped** from a cleared root table, and the leaves are
theirs. -/
theorem ZeroedRoot.mapCalls_ok (hkernel : kernel < 2 ^ 32) (hroot : start.ZeroedRoot kernel root)
    {segs : List (Segment × ℕ)} (hsegs : ∀ x ∈ segs, x.1.Low ∧ LeafFlags x.2)
    (hapart : (mapSteps segs).Pairwise BootStep.Apart)
    (hmemory : start.Supplied kernel root (mapSteps segs)) :
    ∃ s, exec (Boot.callMapSegment kernel root) start (mapCalls segs) = .ok s ∧
      ShapeOf kernel root Unavailable (mapSteps segs) s := by
  have hok : ∀ x ∈ segs, x.1.startAddr < 2 ^ 64 ∧ LeafFlags x.2 := fun x hx =>
    ⟨(hsegs x hx).1.1.trans_lt (by decide), (hsegs x hx).2⟩
  obtain ⟨s, hs⟩ := (hroot.shapeOf.run_ok_iff hkernel (ledger_unavailable hkernel)
    (ok_of_mem_mapSteps hok) hapart).mpr ⟨hmemory, fun op _ => clear_nil op⟩
  have hrun := (exec_mapCalls kernel root start segs).trans hs
  exact ⟨s, hrun, hroot.shapeOf_mapSteps hkernel hok hrun⟩

/-- **Unmapping undoes mapping, segment by segment.** Segments below 4 GiB whose virtual images
share no page are mapped from a cleared root table, with enough memory, and some of them are taken
out again in any order. All calls return, and the translation is that of mapping the others alone,
for which there is enough memory too. -/
theorem unmapSegment_undoes (hkernel : kernel < 2 ^ 32) (hroot : start.ZeroedRoot kernel root)
    {segs kept gone : List (Segment × ℕ)} (hsegs : ∀ x ∈ segs, x.1.Low ∧ LeafFlags x.2)
    (hdisjoint : segs.Pairwise fun x y => Disjoint x.1.image y.1.image)
    (hmemory : start.Supplied kernel root (mapSteps segs)) (hperm : (kept ++ gone).Perm segs) :
    ∃ s₁ s₂ s₃,
      exec (Boot.callMapSegment kernel root) start (mapCalls segs) = .ok s₁ ∧
      exec (Boot.callMapSegment kernel root) s₁ (unmapCalls gone) = .ok s₂ ∧
      exec (Boot.callMapSegment kernel root) start (mapCalls kept) = .ok s₃ ∧
      ∀ va, sv39 (tables s₂.mem) root va = sv39 (tables s₃.mem) root va := by
  have hL := ledger_unavailable hkernel
  have hkept : ∀ x ∈ kept, x.1.Low ∧ LeafFlags x.2 := fun x hx =>
    hsegs x (hperm.subset (List.mem_append_left _ hx))
  have hsteps : (mapSteps kept ++ mapSteps gone).Perm (mapSteps segs) := by
    rw [mapSteps, mapSteps, ← List.flatMap_append]
    exact hperm.flatMap_right _
  have hok : ∀ op ∈ mapSteps segs, op.Ok := ok_of_mem_mapSteps fun x hx =>
    ⟨(hsegs x hx).1.1.trans_lt (by decide), (hsegs x hx).2⟩
  have hapart := pairwise_mapSteps (fun x hx => (hsegs x hx).1) hdisjoint
  have hapartKept := (List.pairwise_append.mp ((hsteps.pairwise_iff fun h => h.symm).mpr hapart)).1
  have hmemoryKept : start.Supplied kernel root (mapSteps kept) := by
    have hsub : ∀ op ∈ mapSteps kept, op ∈ mapSteps segs := fun op hop =>
      hsteps.subset (List.mem_append_left _ hop)
    rw [hroot.shapeOf.supplied_iff hkernel hL (fun op hop => hok op (hsub op hop))
      (leaf_ne_none_of_mem_mapSteps kept) (fun op _ => clear_nil op) hapartKept]
    rw [hroot.shapeOf.supplied_iff hkernel hL hok (leaf_ne_none_of_mem_mapSteps segs)
      (fun op _ => clear_nil op) hapart] at hmemory
    refine hmemory.mono (Set.ncard_le_ncard (Set.sdiff_subset_sdiff_left ?_)
      ((finite_above (finite_leavesOf _)).subset Set.sdiff_subset))
    exact above_mono fun x ⟨op, hop, hx⟩ => ⟨op, hsub op hop, hx⟩
  obtain ⟨s₁, hs₁, hshape₁⟩ := hroot.mapCalls_ok hkernel hsegs hapart hmemory
  obtain ⟨s₃, hs₃, hshape₃⟩ := hroot.mapCalls_ok hkernel hkept hapartKept hmemoryKept
  obtain ⟨m₂, hm₂, hleaves⟩ := hshape₁.exec_unmap hkernel hok hapart hsteps
  refine ⟨s₁, { s₁ with mem := m₂ }, s₃, hs₁, ?_, hs₃, fun va => ?_⟩
  · rw [exec_unmapCalls]
    refine exec_part Boot.mem (fun s mem => { s with mem }) (fun _ _ => rfl) (fun _ _ _ => rfl)
      (fun _ => rfl) ?_ hm₂
    intro s m page hpage
    rw [applyAction, hpage, ok_bind]
  · exact sv39_congr (hleaves.trans hshape₃.leaves.symm) va

/-- The small page after the large one. -/
def sampleNext : Segment := ⟨0x80600000, 0x80601000, .identical⟩

theorem sampleNext_steps (flags : ℕ) :
    sampleNext.steps flags = [.map .identical flags 0x80600000 .fourKB] := by
  have hpages : segmentPages sampleNext.startAddr sampleNext.endAddr = [(0x80600000, .fourKB)] := by
    decide +kernel
  rw [Segment.steps, segmentSteps, hpages]
  rfl

theorem disjoint_sample : Disjoint sampleLarge.image sampleNext.image := by
  refine Set.disjoint_left.mpr ?_
  rintro va ⟨pa, ⟨-, hlarge⟩, hva⟩ ⟨pa', ⟨hnext, -⟩, hva'⟩
  have heq : pa = pa' := hva.symm.trans hva'
  have hle : pageCeil sampleLarge.endAddr ≤ pageFloor sampleNext.startAddr := by decide
  exact absurd (hlarge.trans_le (hle.trans hnext)) (heq ▸ lt_irrefl _)

theorem sampleBoot_supplied_both : sampleBoot.Supplied 0x80200000 0x80300
    (mapSteps [(sampleLarge, PTEFlags.r ||| PTEFlags.w), (sampleNext, PTEFlags.r)]) := by
  obtain ⟨s₁, hs₁, hgranted⟩ := exists_of_map_eq_ok (f := fun s : Boot =>
    decide (Granted 0x80200000 (missing (tables s.mem) 0x80300
      ((leafPath .identical (pageFloor 0x80600000) .fourKB).take 2)) s.memblock)) (show
    (sampleBoot.step 0x80200000 (0x80300 * pageSize)
      (.map .identical (PTEFlags.r ||| PTEFlags.w) 0x80400000 .twoMB)).map _ = .ok true by
        decide +kernel)
  have hfirst := sampleBoot_supplied
  rw [sampleLarge_steps] at hfirst
  rw [mapSteps, List.flatMap_cons, List.flatMap_singleton, sampleLarge_steps, sampleNext_steps]
  refine ⟨hfirst.1, fun s' hs' => ⟨?_, fun _ _ => trivial⟩⟩
  cases hs₁.symm.trans hs'
  rw [Grants]
  exact of_decide_eq_true hgranted

theorem unmapSegment_undoes_sample : ∃ s₁ s₂ s₃,
    exec (Boot.callMapSegment 0x80200000 0x80300) sampleBoot
      (mapCalls [(sampleLarge, PTEFlags.r ||| PTEFlags.w), (sampleNext, PTEFlags.r)]) = .ok s₁ ∧
    exec (Boot.callMapSegment 0x80200000 0x80300) s₁
      (unmapCalls [(sampleLarge, PTEFlags.r ||| PTEFlags.w)]) = .ok s₂ ∧
    exec (Boot.callMapSegment 0x80200000 0x80300) sampleBoot
      (mapCalls [(sampleNext, PTEFlags.r)]) = .ok s₃ ∧
    ∀ va, sv39 (tables s₂.mem) 0x80300 va = sv39 (tables s₃.mem) 0x80300 va := by
  refine unmapSegment_undoes (by decide) sampleBoot_zeroedRoot ?_ ?_ sampleBoot_supplied_both
    (List.Perm.swap _ _ _)
  · simp only [List.forall_mem_cons]
    exact ⟨⟨sampleLarge_low, ⟨by decide, by decide, by decide⟩⟩,
      ⟨⟨by decide, by decide⟩, ⟨by decide, by decide, by decide⟩⟩, fun x hx => nomatch hx⟩
  · simpa using disjoint_sample

end Boot

end CharlotteOs
